import Riverhog.Core.Checkpoint
import Riverhog.Pack.Plan

/-!
# Planning volumes while files are registered

`advance_incremental_volume_plan` of `riverhog_core.incremental_plan`, with
`plan_raw_volumes` of `riverhog_core.raw_volume`. Small files wait until they fill a
pack; a large file first closes the pack in progress and then becomes a sequence of
segments. The checkpoint between two batches is kept as a value here; its JSON text is in
`Riverhog.Upload.PlannerText`.
-/

namespace Riverhog.Upload

open Core Protocol Pack List

/-! ## Raw volumes -/

/-- `RawVolumePlan`: one segment of a large file. -/
structure RawVolumePlan where
  volumeId : Text
  sequence : Nat
  sourcePath : Text
  fileOffset : Nat
  plaintextBytes : Nat
  fileBytes : Nat
  fileSha256 : Text
  deriving DecidableEq

/-- The segment of `file` that starts at `offset`. -/
def segmentAt (file : ArchiveFile) (sequence offset length : Nat) : RawVolumePlan :=
  ⟨"segment-" ++ zeroPadded 16 64 sequence, sequence, file.path, offset, length, file.bytes,
    file.sha256⟩

/-- The inner loop of `plan_raw_volumes`. -/
def rawSegments (file : ArchiveFile) (maxPlaintextBytes : Nat) :
    Nat → Nat → Nat → Py (List RawVolumePlan)
  | 0, _, _ => .error .diverges
  | fuel + 1, offset, sequence =>
    if offset < file.bytes then do
      let length := min maxPlaintextBytes (file.bytes - offset)
      require (sequence < 2 ^ 256) (.valueError "raw volume sequence exceeds its v1 representation")
      let rest ← rawSegments file maxPlaintextBytes fuel (offset + length) (sequence + 1)
      return segmentAt file sequence offset length :: rest
    else return []

/-- The segments of one file; an empty file has one empty segment. -/
def fileSegments (maxPlaintextBytes : Nat) (file : ArchiveFile) (sequence : Nat) :
    Py (List RawVolumePlan) :=
  if file.bytes = 0 then return [segmentAt file sequence 0 0]
  else rawSegments file maxPlaintextBytes (file.bytes + 1) 0 sequence

/-- The outer loop of `plan_raw_volumes`, over files with normalised paths. -/
def rawFiles (maxPlaintextBytes : Nat) : List ArchiveFile → List Text → Nat → Py (List RawVolumePlan)
  | [], _, _ => .ok []
  | current :: rest, seen, sequence => do
    require (!reservedArchivePrefix.isPrefixOf current.path) (.valueError
      ("collection path uses reserved archive namespace: " ++ String.ofList current.path))
    require (!seen.contains current.path) (.valueError
      ("duplicate collection archive path: " ++ String.ofList current.path))
    require (isSha256 current.sha256) (.valueError
      ("collection archive file identity is invalid: " ++ String.ofList current.path))
    let segments ← fileSegments maxPlaintextBytes current sequence
    let plans ← rawFiles maxPlaintextBytes rest (current.path :: seen) (sequence + segments.length)
    return segments ++ plans

/-- The file under its normalised path. -/
def normalizedPath (nfc : Text → Text) (file : ArchiveFile) : Py ArchiveFile := do
  let path ← normalizeRelpath nfc file.path
  return { file with path := path }

/-- `plan_raw_volumes`. -/
def planRawVolumes (nfc : Text → Text) (files : List ArchiveFile) (startingSequence : Nat)
    (maxPlaintextBytes : Nat) : Py (List RawVolumePlan) := do
  require (startingSequence < 2 ^ 256)
    (.valueError "raw volume starting sequence exceeds its v1 representation")
  require (0 < maxPlaintextBytes) (.valueError "raw volume plaintext limit must be positive")
  let normalized ← files.mapM (normalizedPath nfc)
  rawFiles maxPlaintextBytes (sortedBy ArchiveFile.path normalized) [] startingSequence

/-! ## The policy -/

/-- `ARCHIVE_VOLUME_PARTS_MAX`. -/
def archiveVolumePartsMax : Nat := 1024

/-- `CollectionVolumePolicy`; the checks of its constructor are fields. -/
structure CollectionVolumePolicy where
  packSourceBytes : Nat
  packFiles : Nat
  packMemberBytes : Nat
  packPartPlaintextBytes : Nat
  rawVolumePlaintextBytes : Nat
  rawPartPlaintextBytes : Nat
  positive : 1 ≤ packSourceBytes ∧ 1 ≤ packFiles ∧ 1 ≤ packMemberBytes ∧
    1 ≤ packPartPlaintextBytes ∧ 1 ≤ rawVolumePlaintextBytes ∧ 1 ≤ rawPartPlaintextBytes
  aligned : packPartPlaintextBytes % chunkSize = 0 ∧ rawPartPlaintextBytes % chunkSize = 0
  rawParts : rawPartPlaintextBytes ≤ rawVolumePlaintextBytes ∧
    rawVolumePlaintextBytes % rawPartPlaintextBytes = 0 ∧
    rawVolumePlaintextBytes / rawPartPlaintextBytes ≤ archiveVolumePartsMax
  packParts : (packSourceBytes + packPartPlaintextBytes - 1) / packPartPlaintextBytes + 2 ≤
    archiveVolumePartsMax
  files : packFiles ≤ archivePackFilesMax

/-! ## The incremental planner -/

/-- `OrderedArchiveFile`. -/
structure OrderedArchiveFile where
  order : Nat
  file : ArchiveFile
  deriving DecidableEq

/-- A planned volume of either kind. -/
inductive VolumePlan where
  | pack (plan : PackVolumePlan)
  | raw (plan : RawVolumePlan)
  deriving DecidableEq

/-- The sequence number of a volume. -/
def VolumePlan.sequence : VolumePlan → Nat
  | .pack plan => plan.sequence
  | .raw plan => plan.sequence

/-- `IncrementalVolumePlannerCheckpoint`. -/
structure IncrementalVolumePlannerCheckpoint where
  policy : CollectionVolumePolicy
  contentHash : CheckpointSHA256
  nextFileOrder : Nat
  nextSequence : Nat
  filesSeen : Nat
  bytesSeen : Nat
  pendingPackFiles : List ArchiveFile
  closed : Bool
  contentIdentity : Option Text

/-- `_normalized_file`. -/
def normalizedFile (nfc : Text → Text) (file : ArchiveFile) : Py ArchiveFile := do
  let path ← normalizeRelpath nfc file.path
  require (!reservedArchivePrefix.isPrefixOf path)
    (.valueError "incremental planner file uses the reserved archive namespace")
  require (isSha256 file.sha256) (.valueError "incremental planner file identity is invalid")
  return { file with path := path }

/-- The checks of a checkpoint on its pending files. -/
def checkPending (nfc : Text → Text) (policy : CollectionVolumePolicy) :
    List ArchiveFile → List Text → Py Nat
  | [], _ => .ok 0
  | current :: rest, seen => do
    let normalized ← normalizedFile nfc current
    require (!seen.contains normalized.path)
      (.valueError "incremental planner repeats a pending path")
    require (normalized.bytes < policy.packMemberBytes)
      (.valueError "incremental planner pending file is outside pack policy")
    let bytes ← checkPending nfc policy rest (normalized.path :: seen)
    return normalized.bytes + bytes

section

variable (nfc : Text → Text)

/-- The constructor checks of `IncrementalVolumePlannerCheckpoint`. -/
def checkCheckpoint (c : IncrementalVolumePlannerCheckpoint) : Py Unit := do
  require (c.nextFileOrder == c.filesSeen)
    (.valueError "incremental planner file order does not match files seen")
  require (c.nextSequence < 2 ^ 256) (.valueError "archive sequence exceeds the v1 representation")
  require (c.pendingPackFiles.length ≤ c.policy.packFiles)
    (.valueError "incremental planner pending pack exceeds its file limit")
  let pendingBytes ← checkPending nfc c.policy c.pendingPackFiles []
  require (pendingBytes ≤ c.policy.packSourceBytes)
    (.valueError "incremental planner pending pack exceeds its byte limit")
  require (!c.closed || c.pendingPackFiles.isEmpty)
    (.valueError "closed incremental planner cannot retain pending files")

/-- `_CONTENT_IDENTITY_PREFIX`. -/
def contentIdentityPrefix : Bytes := encodeUtf8 "\x7b\"files\":["

/-- `_CONTENT_IDENTITY_SUFFIX`. -/
def contentIdentitySuffix : Bytes :=
  encodeUtf8 "],\"format\":\"riverhog-collection-content/v1\"\x7d"

/-- `_content_identity_member_bytes`. -/
def contentIdentityMemberBytes (file : ArchiveFile) : Bytes :=
  encodeUtf8 (Json.dumps true file.toJson)

section

variable (policy : CollectionVolumePolicy)

/-- `new_incremental_volume_planner`. -/
def newIncrementalVolumePlanner :
    IncrementalVolumePlannerCheckpoint :=
  ⟨policy, CheckpointSHA256.new.update contentIdentityPrefix, 0, 0, 0, 0, [], false, none⟩

/-- The variables of the planning loop; `emitted` holds the planned volumes in planning order. -/
structure PlanProgress where
  pending : List ArchiveFile
  nextOrder : Nat
  nextSequence : Nat
  filesSeen : Nat
  bytesSeen : Nat
  contentDigest : CheckpointSHA256
  emitted : List VolumePlan

/-- `flush_pack`, called under a condition. -/
def flushPack (condition : Bool) (s : PlanProgress) : Py PlanProgress :=
  if !condition || s.pending.isEmpty then return s
  else do
    let plan ← planPackVolume nfc s.pending s.nextSequence policy.packMemberBytes
      policy.packPartPlaintextBytes
    return { s with
      pending := [], nextSequence := s.nextSequence + 1, emitted := s.emitted ++ [.pack plan] }

/-- What the loop does with the volumes of one file. -/
def placeFile (current : ArchiveFile) (s : PlanProgress) : Py PlanProgress :=
  if current.bytes < policy.packMemberBytes then do
    let full := !s.pending.isEmpty && (policy.packFiles ≤ s.pending.length ||
      policy.packSourceBytes < (s.pending.map ArchiveFile.bytes).sum + current.bytes)
    let s ← flushPack nfc policy full s
    return { s with pending := s.pending ++ [current] }
  else do
    let s ← flushPack nfc policy true s
    let planned ← planRawVolumes nfc [current] s.nextSequence policy.rawVolumePlaintextBytes
    return { s with
      nextSequence := s.nextSequence + planned.length
      emitted := s.emitted ++ planned.map .raw }

/-- One turn of the planning loop. -/
def planFile (s : PlanProgress) (ordered : OrderedArchiveFile) : Py PlanProgress := do
  let current ← normalizedFile nfc ordered.file
  require (ordered.order == s.nextOrder)
    (.valueError "incremental planner file order is not contiguous")
  let current ← normalizedFile nfc current
  let digest := if s.filesSeen = 0 then s.contentDigest else s.contentDigest.update [44]
  let digest := digest.update (contentIdentityMemberBytes current)
  let s ← placeFile nfc policy current { s with contentDigest := digest }
  return { s with
    nextOrder := s.nextOrder + 1
    filesSeen := s.filesSeen + 1
    bytesSeen := s.bytesSeen + current.bytes }

end

/-- The content identity of a closed plan. -/
def closedIdentity (digest : CheckpointSHA256) (final : Bool) : Py (Option Text) :=
  if final then do
    let identity ← (digest.update contentIdentitySuffix).hexdigest
    return some identity
  else return none

/-- `advance_incremental_volume_plan`; the emitted volumes are in sequence order. -/
def advanceIncrementalVolumePlan (c : IncrementalVolumePlannerCheckpoint)
    (files : List OrderedArchiveFile) (final : Bool) :
    Py (IncrementalVolumePlannerCheckpoint × List VolumePlan) := do
  require (!c.closed) (.valueError "incremental volume planner is already closed")
  let s ← files.foldlM (planFile nfc c.policy) ⟨c.pendingPackFiles, c.nextFileOrder, c.nextSequence,
    c.filesSeen, c.bytesSeen, c.contentHash, []⟩
  let s ← flushPack nfc c.policy final s
  let identity ← closedIdentity s.contentDigest final
  let next : IncrementalVolumePlannerCheckpoint := ⟨c.policy, s.contentDigest, s.nextOrder,
    s.nextSequence, s.filesSeen, s.bytesSeen, s.pending, final, identity⟩
  checkCheckpoint nfc next
  let emitted := sortedBy VolumePlan.sequence s.emitted
  require (emitted.map VolumePlan.sequence ==
      range' c.nextSequence (s.nextSequence - c.nextSequence))
    (.runtimeError "incremental planner emitted non-canonical volume sequences")
  return (next, emitted)

end

/-! ## What is planned -/

variable {file : ArchiveFile} {segments : List RawVolumePlan} {maxPlaintextBytes sequence : Nat}

theorem planPackVolume_sequence {nfc : Text → Text} {files : List ArchiveFile}
    {maxMemberBytes partPlaintextBytes : Int} {plan : PackVolumePlan}
    (h : planPackVolume nfc files sequence maxMemberBytes partPlaintextBytes = .ok plan) :
    plan.sequence = sequence := by
  simp only [planPackVolume, bind_eq_ok] at h
  obtain ⟨_, _, _, _, _, _, _, _, _, _, _, _, _, _, _, _, _, _, h⟩ := h
  obtain rfl := Except.ok.inj h
  rfl

theorem rawSegments_sequence {fuel offset : Nat}
    (h : rawSegments file maxPlaintextBytes fuel offset sequence = .ok segments) :
    segments.map RawVolumePlan.sequence = range' sequence segments.length := by
  induction fuel generalizing offset sequence segments with
  | zero => cases h
  | succ fuel ih =>
    rw [rawSegments] at h
    by_cases hlt : offset < file.bytes
    · rw [if_pos hlt] at h
      simp only [bind_eq_ok] at h
      obtain ⟨-, -, rest, hrest, h⟩ := h
      obtain rfl := Except.ok.inj h
      rw [map_cons, ih hrest, length_cons, range'_succ]
      rfl
    · rw [if_neg hlt] at h
      obtain rfl := Except.ok.inj h
      rfl

theorem fileSegments_sequence (h : fileSegments maxPlaintextBytes file sequence = .ok segments) :
    segments.map RawVolumePlan.sequence = range' sequence segments.length := by
  rw [fileSegments] at h
  split_ifs at h with hz
  · obtain rfl := Except.ok.inj h
    rfl
  · exact rawSegments_sequence h

/-! ## The planning loop -/

/-- The server keeps a path only under its canonical spelling. -/
def Canonical (nfc : Text → Text) (file : ArchiveFile) : Prop :=
  normalizeRelpath nfc file.path = .ok file.path

section Loop

variable {nfc : Text → Text} {policy : CollectionVolumePolicy}

variable {file : ArchiveFile}

theorem normalizedFile_inv {current : ArchiveFile} (hc : Canonical nfc file)
    (h : normalizedFile nfc file = .ok current) :
    current = file ∧ reservedArchivePrefix.isPrefixOf file.path = false ∧
      isSha256 file.sha256 = true := by
  rw [Canonical] at hc
  simp only [normalizedFile, hc, ok_bind, bind_eq_ok, require_eq_ok] at h
  obtain ⟨-, hres, -, hsha, h⟩ := h
  exact ⟨(Except.ok.inj h).symm, by simpa using hres, hsha⟩

theorem planRawVolumes_inv {sequence maxPlaintextBytes : Nat} {planned : List RawVolumePlan}
    (hc : Canonical nfc file)
    (h : planRawVolumes nfc [file] sequence maxPlaintextBytes = .ok planned) :
    fileSegments maxPlaintextBytes file sequence = .ok planned := by
  rw [Canonical] at hc
  have hnormal : [file].mapM (normalizedPath nfc) = .ok [file] := by
    rw [mapM_cons, normalizedPath, hc]
    rfl
  have hsort : sortedBy ArchiveFile.path [file] = [file] := rfl
  simp only [planRawVolumes, hnormal, ok_bind, hsort, bind_eq_ok, rawFiles] at h
  obtain ⟨_, _, _, _, _, _, _, _, _, _, segments, hs, h⟩ := h
  rw [append_nil] at h
  rw [hs, Except.ok.inj h]

end Loop

end Riverhog.Upload
