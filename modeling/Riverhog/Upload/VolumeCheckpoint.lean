import Riverhog.Core.KeyedMerge
import Riverhog.Core.Sha256

/-!
# Checkpoints of a volume upload

The durable progress of one archive write: `PackUploadCheckpoint` of
`riverhog_core.pack_upload` and `RawUploadCheckpoint` of `riverhog_core.raw_upload`.
The two are written alike over different identity fields, so a checkpoint is generic
in its identity and what else differs is a family's parameters. Stored checkpoints are
the parsed values; what `from_json` checks of them is `validate`.
-/

namespace Riverhog.Upload

open Core

/-! ## Receipts -/

/-- `StoredArchivePart`. -/
structure StoredArchivePart where
  number : Nat
  plaintextStart : Nat
  plaintextBytes : Nat
  plaintextSha256 : Text
  storedBytes : Nat
  storedSha256 : Text
  deriving DecidableEq

/-- `WriteSegmentReceipt`. -/
structure WriteSegmentReceipt where
  number : Nat
  segmentToken : Text
  bytes : Nat
  sha256 : Option Text
  deriving DecidableEq

/-- `RetrievalCacheReceipt`. -/
structure RetrievalCacheReceipt where
  cacheStore : Text
  objectPath : Text
  revision : Option Text
  storedBytes : Nat
  storedSha256 : Option Text
  cachedAt : Text
  verifiedAt : Text
  deriving DecidableEq

/-- `CompletedObjectReceipt`, what the object store returns for a completed write. -/
structure CompletedObjectReceipt where
  objectPath : Text
  revision : Option Text
  entityToken : Option Text
  bytes : Nat
  completedAt : Text
  retrievalCache : Option RetrievalCacheReceipt
  deriving DecidableEq

/-- `CompletedPackObject` and `CompletedRawObject`. -/
structure CompletedObject where
  revision : Option Text
  entityToken : Option Text
  bytes : Nat
  completedAt : Text
  retrievalCache : Option RetrievalCacheReceipt
  deriving DecidableEq

/-- The fields of a pack checkpoint that never change. -/
structure PackIdentity where
  collectionId : Nat
  volumeId : Text
  objectPath : Text
  relativePath : Text
  planSha256 : Text
  plaintextBytes : Nat
  writeToken : Text
  ageStateJson : Text
  deriving DecidableEq

/-- The fields of a raw checkpoint that never change. -/
structure RawIdentity where
  collectionId : Nat
  volumeId : Text
  objectPath : Text
  relativePath : Text
  sourcePath : Text
  fileOffset : Nat
  plaintextBytes : Nat
  fileBytes : Nat
  fileSha256 : Text
  targetPartPlaintextBytes : Nat
  expectedPartSha256s : List Text
  writeToken : Text
  ageStateJson : Text
  deriving DecidableEq

/-- A checkpoint over its identity; `next` is `next_unit` or `next_part`. -/
structure Checkpoint (ι : Type) where
  identity : ι
  next : Nat
  archiveParts : List StoredArchivePart
  writeSegments : List WriteSegmentReceipt
  completed : Option CompletedObject
  deriving DecidableEq

variable {ι : Type}

/-! ## The two kinds of checkpoints -/

/-- The sum of the stored bytes of the parts. -/
def storedBytesOf (parts : List StoredArchivePart) : Nat :=
  (parts.map StoredArchivePart.storedBytes).sum

/-- A checkpoint with its completion receipt. -/
def sealCheckpoint (c : Checkpoint ι) (completed : CompletedObjectReceipt) : Checkpoint ι :=
  { c with
    archiveParts := sortedBy StoredArchivePart.number c.archiveParts
    writeSegments := sortedBy WriteSegmentReceipt.number c.writeSegments
    completed := some
      { revision := completed.revision
        entityToken := completed.entityToken
        bytes := completed.bytes
        completedAt := completed.completedAt
        retrievalCache := completed.retrievalCache } }

/-- The checkpoint that `_mark_completed` of a pack saves. -/
def markPackCompleted (c : Checkpoint PackIdentity) (completed : CompletedObjectReceipt) :
    Py (Checkpoint PackIdentity) := do
  require (completed.objectPath = c.identity.objectPath ∧
    completed.bytes = storedBytesOf c.archiveParts)
    (.runtimeError "completed pack object does not match its checkpoint")
  .ok (sealCheckpoint c completed)

/-- The checkpoint that `_mark_completed` of a raw volume saves. -/
def markRawCompleted (c : Checkpoint RawIdentity) (completed : CompletedObjectReceipt) :
    Py (Checkpoint RawIdentity) := do
  require (completed.bytes = storedBytesOf c.archiveParts)
    (.runtimeError "completed raw object byte count mismatch")
  require (completed.objectPath = c.identity.objectPath)
    (.runtimeError "completed raw object path mismatch")
  .ok (sealCheckpoint c completed)

/-- `_required_sha256` and `_sha`. -/
def requireSha256 (label : String) (digest : Text) : Py Unit :=
  require (isSha256 digest) (.valueError (label ++ " sha256 is invalid"))

/-- The digest of a segment is checked where there is one. -/
def requireSegmentSha256 (label : String) : Option Text → Py Unit
  | none => .ok ()
  | some digest => requireSha256 label digest

/-- What `_segments_from_payload` of a pack checks of one receipt. -/
def requirePackSegment (s : WriteSegmentReceipt) : Py Unit := do
  require (1 ≤ s.number) (.valueError "segment number must be positive")
  require (1 ≤ s.bytes) (.valueError "segment bytes must be positive")
  requireSegmentSha256 "segment" s.sha256
  require (s.segmentToken ≠ [])
    (.valueError "pack upload checkpoint write-segment token is invalid")

/-- What `_segments_from_payload` of a raw volume checks of one receipt. -/
def requireRawSegment (s : WriteSegmentReceipt) : Py Unit := do
  requireSegmentSha256 "segment stored" s.sha256
  require (1 ≤ s.number ∧ 1 ≤ s.bytes ∧ s.segmentToken ≠ [])
    (.valueError "raw upload write-segment receipt is invalid")

/-- A receipt that can be read back. -/
structure WriteSegmentReceipt.Acceptable (s : WriteSegmentReceipt) : Prop where
  number_pos : 1 ≤ s.number
  bytes_pos : 1 ≤ s.bytes
  token : s.segmentToken ≠ []
  sha256 : ∀ digest ∈ s.sha256, isSha256 digest = true

variable {r : CompletedObjectReceipt} {s : WriteSegmentReceipt}

theorem WriteSegmentReceipt.Acceptable.requireSegmentSha256 (h : s.Acceptable) (label : String) :
    requireSegmentSha256 label s.sha256 = .ok () := by
  cases hs : s.sha256 with
  | none => rfl
  | some digest => simp [Upload.requireSegmentSha256, requireSha256, h.sha256 digest hs]

theorem requirePackSegment_ok (h : s.Acceptable) : requirePackSegment s = .ok () := by
  simp [requirePackSegment, h.number_pos, h.bytes_pos, h.token, h.requireSegmentSha256]

theorem requireRawSegment_ok (h : s.Acceptable) : requireRawSegment s = .ok () := by
  simp [requireRawSegment, h.number_pos, h.bytes_pos, h.token, h.requireSegmentSha256]

theorem markPackCompleted_eq_ok {c c' : Checkpoint PackIdentity}
    (h : markPackCompleted c r = .ok c') :
    r.bytes = storedBytesOf c.archiveParts ∧ c' = sealCheckpoint c r := by
  obtain ⟨_, hr, h⟩ := bind_eq_ok.1 h
  cases h
  rw [require_eq_ok, decide_eq_true_eq] at hr
  exact ⟨hr.2, rfl⟩

theorem markRawCompleted_eq_ok {c c' : Checkpoint RawIdentity} (h : markRawCompleted c r = .ok c') :
    r.bytes = storedBytesOf c.archiveParts ∧ c' = sealCheckpoint c r := by
  obtain ⟨_, hr, h⟩ := bind_eq_ok.1 h
  obtain ⟨_, -, h⟩ := bind_eq_ok.1 h
  cases h
  rw [require_eq_ok, decide_eq_true_eq] at hr
  exact ⟨hr, rfl⟩

/-- What differs between the two kinds of checkpoints. -/
structure Family (ι : Type) where
  plaintextBytes : ι → Nat
  /-- Parts without plaintext are refused. -/
  refusesEmptyParts : Bool
  /-- What `_segments_from_payload` checks of one receipt. -/
  requireSegment : WriteSegmentReceipt → Py Unit
  requireSegment_ok : ∀ {s : WriteSegmentReceipt}, s.Acceptable → requireSegment s = .ok ()
  markCompleted : Checkpoint ι → CompletedObjectReceipt → Py (Checkpoint ι)
  markCompleted_eq_ok : ∀ {c c' r}, markCompleted c r = .ok c' →
    r.bytes = storedBytesOf c.archiveParts ∧ c' = sealCheckpoint c r
  partLabel : String
  storedPartLabel : String
  otherWrite : String
  partConflict : String
  segmentConflict : String
  completionChanged : String
  notContiguous : String
  notCovered : String
  mergedMismatch : String
  partChanged : String
  partOrder : String
  segmentDuplicated : String
  nextInvalid : String
  completionInvalid : String
  storedMismatch : String
  segmentMismatch : String

/-- `riverhog_core.pack_upload`. -/
def packFamily : Family PackIdentity where
  plaintextBytes := PackIdentity.plaintextBytes
  refusesEmptyParts := true
  requireSegment := requirePackSegment
  requireSegment_ok := requirePackSegment_ok
  markCompleted := markPackCompleted
  markCompleted_eq_ok := markPackCompleted_eq_ok
  partLabel := "part"
  storedPartLabel := "stored part"
  otherWrite := "pack upload checkpoints do not describe the same resumable write"
  partConflict := "pack upload checkpoint contains conflicting part receipts"
  segmentConflict := "pack upload checkpoint contains conflicting write segments"
  completionChanged := "pack upload checkpoint completion receipt changed"
  notContiguous := "completed pack upload parts are not contiguous"
  notCovered := "completed pack upload does not cover its plaintext"
  mergedMismatch := "completed pack checkpoint does not match its merged parts"
  partChanged := "pack upload part receipt changed for an immutable part number"
  partOrder := "pack upload checkpoint part order is invalid"
  segmentDuplicated := "pack upload checkpoint write segment numbers are duplicated"
  nextInvalid := "pack upload checkpoint next unit does not match its parts"
  completionInvalid := "pack upload checkpoint completion receipt is invalid"
  storedMismatch := "completed pack upload checkpoint stored byte count mismatch"
  segmentMismatch := "completed pack write-segment byte count mismatch"

/-- `riverhog_core.raw_upload`. -/
def rawFamily : Family RawIdentity where
  plaintextBytes := RawIdentity.plaintextBytes
  refusesEmptyParts := false
  requireSegment := requireRawSegment
  requireSegment_ok := requireRawSegment_ok
  markCompleted := markRawCompleted
  markCompleted_eq_ok := markRawCompleted_eq_ok
  partLabel := "part plaintext"
  storedPartLabel := "part stored"
  otherWrite := "raw upload checkpoints do not describe the same resumable write"
  partConflict := "raw upload checkpoint contains conflicting part receipts"
  segmentConflict := "raw upload checkpoint contains conflicting write segments"
  completionChanged := "raw upload checkpoint completion receipt changed"
  notContiguous := "completed raw upload parts are not contiguous"
  notCovered := "completed raw upload does not cover its plaintext"
  mergedMismatch := "completed raw checkpoint does not match its merged parts"
  partChanged := "raw upload part receipt changed for an immutable part number"
  partOrder := "raw upload part order is invalid"
  segmentDuplicated := "raw upload write segment numbers are duplicated"
  nextInvalid := "raw upload next part does not match its receipts"
  completionInvalid := "raw upload completion receipt is invalid"
  storedMismatch := "completed raw upload stored byte count mismatch"
  segmentMismatch := "completed raw write-segment byte count mismatch"

/-! ## Merging -/

/-- The loop of `_first_missing_unit`. -/
def firstMissingFrom (numbers : List Nat) : Nat → Nat → Nat
  | 0, current => current
  | fuel + 1, current =>
    if current ∈ numbers then firstMissingFrom numbers fuel (current + 1) else current

/-- `_first_missing_unit` and `_first_missing_part`. -/
def firstMissing (parts : List StoredArchivePart) : Nat :=
  firstMissingFrom (parts.map StoredArchivePart.number) parts.length 1 - 1

/-- The loop of `_require_complete_plaintext_coverage`. -/
def coverage (f : Family ι) : Nat → Nat → List StoredArchivePart → Py Nat
  | _, start, [] => .ok start
  | number, start, part :: parts => do
    require (part.number = number ∧ part.plaintextStart = start) (.valueError f.notContiguous)
    coverage f (number + 1) (start + part.plaintextBytes) parts

/-- `_require_complete_plaintext_coverage` and `_require_complete_coverage`. -/
def requireCompleteCoverage (f : Family ι) (parts : List StoredArchivePart)
    (plaintextBytes : Nat) : Py Unit := do
  let covered ← coverage f 1 0 parts
  require (covered = plaintextBytes) (.valueError f.notCovered)

/-- Two completion receipts have to be the same. -/
def requireSameCompletion (f : Family ι) : Option CompletedObject → Option CompletedObject → Py Unit
  | some current, some candidate =>
    require (current = candidate) (.runtimeError f.completionChanged)
  | _, _ => .ok ()

/-- A completion receipt has to be one of all parts. -/
def requireMergedCompletion (f : Family ι) (merged : Checkpoint ι) : Py Unit :=
  match merged.completed with
  | none => .ok ()
  | some completed => do
    requireCompleteCoverage f merged.archiveParts (f.plaintextBytes merged.identity)
    require (completed.bytes = storedBytesOf merged.archiveParts) (.runtimeError f.mergedMismatch)

/-- The merge of two checkpoints of one family. -/
def mergeCheckpoints [DecidableEq ι] (f : Family ι) (current candidate : Checkpoint ι) :
    Py (Checkpoint ι) := do
  require (current.identity = candidate.identity) (.valueError f.otherWrite)
  let ordered ← mergeKeyed StoredArchivePart.number (.runtimeError f.partConflict)
    current.archiveParts candidate.archiveParts
  let segments ← mergeKeyed WriteSegmentReceipt.number (.runtimeError f.segmentConflict)
    current.writeSegments candidate.writeSegments
  requireSameCompletion f current.completed candidate.completed
  let merged : Checkpoint ι :=
    { identity := current.identity
      next := firstMissing ordered
      archiveParts := ordered
      writeSegments := segments
      completed := current.completed.or candidate.completed }
  requireMergedCompletion f merged
  .ok merged

/-- `merge_pack_upload_checkpoints`. -/
def mergePackUploadCheckpoints : Checkpoint PackIdentity → Checkpoint PackIdentity →
    Py (Checkpoint PackIdentity) := mergeCheckpoints packFamily

/-- `merge_raw_upload_checkpoints`. -/
def mergeRawUploadCheckpoints : Checkpoint RawIdentity → Checkpoint RawIdentity →
    Py (Checkpoint RawIdentity) := mergeCheckpoints rawFamily

/-! ## Workers -/

/-- The checkpoint that `open` saves for a write it has begun. -/
def openedCheckpoint (identity : ι) : Checkpoint ι :=
  { identity, next := 0, archiveParts := [], writeSegments := [], completed := none }

/-- `_part_by_number`. -/
def partByNumber (parts : List StoredArchivePart) (number : Nat) : Option StoredArchivePart :=
  parts.find? fun current => current.number = number

/-- The recorded parts in order, with a part that may be among them already. -/
def withPart (parts : List StoredArchivePart) (part : StoredArchivePart) :
    List StoredArchivePart :=
  sortedBy StoredArchivePart.number
    (if (partByNumber parts part.number).isSome then parts else parts ++ [part])

/-- The checkpoint that `_record_part` saves. (The one of a raw volume looks for the first
missing part before it sorts the parts, which comes to the same.) -/
def recordPart (f : Family ι) (c : Checkpoint ι) (part : StoredArchivePart)
    (segments : List WriteSegmentReceipt) : Py (Checkpoint ι) := do
  require ((partByNumber c.archiveParts part.number).all (· = part)) (.runtimeError f.partChanged)
  let ordered := withPart c.archiveParts part
  let merged ← mergeKeyed WriteSegmentReceipt.number (.runtimeError f.segmentConflict)
    c.writeSegments segments
  .ok { c with next := firstMissing ordered, archiveParts := ordered, writeSegments := merged }

/-! ## Reading a stored checkpoint -/

/-- The loop of `_parts_from_payload`. -/
def requirePartOrder (f : Family ι) : Nat → Nat → List StoredArchivePart → Py Unit
  | _, _, [] => .ok ()
  | number, stop, part :: parts => do
    requireSha256 f.partLabel part.plaintextSha256
    requireSha256 f.storedPartLabel part.storedSha256
    require (number < part.number ∧ stop ≤ part.plaintextStart ∧
      (f.refusesEmptyParts = true → 0 < part.plaintextBytes) ∧ 0 < part.storedBytes)
      (.valueError f.partOrder)
    requirePartOrder f part.number (part.plaintextStart + part.plaintextBytes) parts

/-- The loop of `_segments_from_payload`. -/
def requireSegments (f : Family ι) : List WriteSegmentReceipt → Py Unit
  | [] => .ok ()
  | segment :: segments => do
    f.requireSegment segment
    requireSegments f segments

/-- A receipt with all its fields. -/
def RetrievalCacheReceipt.acceptable (r : RetrievalCacheReceipt) : Bool :=
  r.cacheStore ≠ [] && r.objectPath ≠ [] && 1 ≤ r.storedBytes && r.storedSha256.all isSha256 &&
    r.cachedAt ≠ [] && r.verifiedAt ≠ []

/-- `parse_retrieval_cache_receipt`. -/
def requireRetrievalCacheReceipt (receipt : Option RetrievalCacheReceipt) : Py Unit :=
  require (receipt.all RetrievalCacheReceipt.acceptable)
    (.valueError "retrieval cache receipt fields are invalid")

/-- What `from_json` checks of a completion receipt. -/
def requireStoredCompletion (f : Family ι) (c : Checkpoint ι) : Py Unit :=
  match c.completed with
  | none => .ok ()
  | some completed => do
    require (0 < completed.bytes ∧ completed.completedAt ≠ []) (.valueError f.completionInvalid)
    requireRetrievalCacheReceipt completed.retrievalCache
    requireCompleteCoverage f c.archiveParts (f.plaintextBytes c.identity)
    require (completed.bytes = storedBytesOf c.archiveParts) (.valueError f.storedMismatch)
    require (completed.bytes = (c.writeSegments.map WriteSegmentReceipt.bytes).sum)
      (.valueError f.segmentMismatch)

/-- What `from_json` checks of the recorded progress. -/
def validate (f : Family ι) (c : Checkpoint ι) : Py Unit := do
  requirePartOrder f 0 0 c.archiveParts
  requireSegments f c.writeSegments
  require (c.writeSegments.map WriteSegmentReceipt.number).Nodup (.valueError f.segmentDuplicated)
  require (c.next = firstMissing c.archiveParts) (.valueError f.nextInvalid)
  requireStoredCompletion f c

end Riverhog.Upload
