import Riverhog.Upload.Planner

/-!
# The text of a planner checkpoint

Between two batches the planner's checkpoint is a JSON text:
`incremental_volume_planner_checkpoint_bytes` and
`parse_incremental_volume_planner_checkpoint` of `riverhog_core.incremental_plan`. The
parser normalises the paths of the pending files again and then insists that the
checkpoint it built has the text it was given, so a pending path must be canonical.

Where the parser turns a value of another type into a string or an integer first, the
comparison at the end rejects it; the model rejects it at once.
-/

namespace Riverhog.Upload

open Core Json Protocol Pack IncrementalVolumePlannerCheckpoint List

/-! ## Writing -/

/-- `INCREMENTAL_VOLUME_PLANNER_CHECKPOINT_SCHEMA`. -/
def plannerCheckpointSchema : Text := "incremental-volume-planner-checkpoint/v1"

/-- `_policy_payload`. -/
def CollectionVolumePolicy.payload (policy : CollectionVolumePolicy) : List (Text × Json) :=
  [("pack_source_bytes", .nat policy.packSourceBytes), ("pack_files", .nat policy.packFiles),
    ("pack_member_bytes", .nat policy.packMemberBytes),
    ("pack_part_plaintext_bytes", .nat policy.packPartPlaintextBytes),
    ("raw_volume_plaintext_bytes", .nat policy.rawVolumePlaintextBytes),
    ("raw_part_plaintext_bytes", .nat policy.rawPartPlaintextBytes)]

namespace IncrementalVolumePlannerCheckpoint

/-- The content identity as a JSON value. -/
def identityJson : Option Text → Json
  | none => .null
  | some identity => .str identity

/-- The mapping of `incremental_volume_planner_checkpoint_payload`, for the text of the content hash
state. -/
def payload (c : IncrementalVolumePlannerCheckpoint) (state : Text) : List (Text × Json) :=
  [("schema", .str plannerCheckpointSchema), ("policy", .obj c.policy.payload),
    ("content_hash_state", .str state), ("next_file_order", .nat c.nextFileOrder),
    ("next_sequence", .nat c.nextSequence), ("files_seen", .nat c.filesSeen),
    ("bytes_seen", .nat c.bytesSeen),
    ("pending_pack_files", .arr (c.pendingPackFiles.map ArchiveFile.toJson)),
    ("closed", .bool c.closed),
    ("content_identity", identityJson c.contentIdentity)]

/-- The checks of the constructor on the content identity. -/
def checkIdentity (c : IncrementalVolumePlannerCheckpoint) : Py Unit :=
  if c.closed then do
    let expected ← (c.contentHash.update contentIdentitySuffix).hexdigest
    require (c.contentIdentity == some expected)
      (.valueError "closed incremental planner content identity is invalid")
  else require c.contentIdentity.isNone
    (.valueError "open incremental planner cannot have a content identity")

/-- `incremental_volume_planner_checkpoint_bytes`. -/
def checkpointBytes (nfc : Text → Text) (c : IncrementalVolumePlannerCheckpoint) : Py Bytes := do
  checkCheckpoint nfc c
  c.checkIdentity
  return canonicalJsonBytes (.obj (c.payload c.contentHash.exportState))

end IncrementalVolumePlannerCheckpoint

/-! ## Reading -/

/-- `mapping.get(key)`. -/
def fieldOf (members : List (Text × Json)) (key : String) : Json :=
  (lookup members key.toList).getD .null

/-- `_uint`. -/
def uintValue (label : String) : Json → Py Nat
  | .int n => do
    require (0 ≤ n) (.valueError (label ++ " must be a canonical non-negative integer"))
    return n.toNat
  | _ => .error (.valueError (label ++ " must be a non-negative integer"))

/-- `_positive`. -/
def positiveValue (label : String) (value : Json) : Py Nat := do
  let parsed ← uintValue label value
  require (1 ≤ parsed) (.valueError (label ++ " must be positive"))
  return parsed

/-- The constructor of `CollectionVolumePolicy`. -/
def collectionVolumePolicy (packSourceBytes packFiles packMemberBytes packPartPlaintextBytes
    rawVolumePlaintextBytes rawPartPlaintextBytes : Nat) : Py CollectionVolumePolicy :=
  if positive : 1 ≤ packSourceBytes ∧ 1 ≤ packFiles ∧ 1 ≤ packMemberBytes ∧
      1 ≤ packPartPlaintextBytes ∧ 1 ≤ rawVolumePlaintextBytes ∧ 1 ≤ rawPartPlaintextBytes then
    if packAligned : packPartPlaintextBytes % chunkSize = 0 then
      if rawAligned : rawPartPlaintextBytes % chunkSize = 0 then
        if atLeast : rawPartPlaintextBytes ≤ rawVolumePlaintextBytes then
          if multiple : rawVolumePlaintextBytes % rawPartPlaintextBytes = 0 then
            if rawParts : rawVolumePlaintextBytes / rawPartPlaintextBytes ≤
                archiveVolumePartsMax then
              if packParts : (packSourceBytes + packPartPlaintextBytes - 1) /
                  packPartPlaintextBytes + 2 ≤ archiveVolumePartsMax then
                if files : packFiles ≤ archivePackFilesMax then
                  .ok ⟨packSourceBytes, packFiles, packMemberBytes, packPartPlaintextBytes,
                    rawVolumePlaintextBytes, rawPartPlaintextBytes, positive,
                    ⟨packAligned, rawAligned⟩, ⟨atLeast, multiple, rawParts⟩, packParts, files⟩
                else .error (.valueError "pack member target exceeds the v1 construction limit")
              else .error (.valueError "pack volume contains too many construction parts")
            else .error (.valueError "raw volume contains too many construction parts")
          else .error (.valueError "raw volume size must be a multiple of the raw part size")
        else .error (.valueError "raw volume must contain at least one configured raw part")
      else .error (.valueError "raw part plaintext target must align to age chunks")
    else .error (.valueError "pack part plaintext target must align to age chunks")
  else .error (.valueError "collection volume policy values must be positive")

/-- `_parse_policy`. -/
def parsePolicy : Json → Py CollectionVolumePolicy
  | .obj members => do
    require (keysAre members ["pack_source_bytes", "pack_files",
        "pack_member_bytes", "pack_part_plaintext_bytes",
        "raw_volume_plaintext_bytes", "raw_part_plaintext_bytes"])
      (.valueError "incremental planner policy is invalid")
    let packSourceBytes ← positiveValue "pack source bytes" (fieldOf members "pack_source_bytes")
    let packFiles ← positiveValue "pack files" (fieldOf members "pack_files")
    let packMemberBytes ← positiveValue "pack member bytes" (fieldOf members "pack_member_bytes")
    let packPartPlaintextBytes ← positiveValue "pack part plaintext bytes"
      (fieldOf members "pack_part_plaintext_bytes")
    let rawVolumePlaintextBytes ← positiveValue "raw volume plaintext bytes"
      (fieldOf members "raw_volume_plaintext_bytes")
    let rawPartPlaintextBytes ← positiveValue "raw part plaintext bytes"
      (fieldOf members "raw_part_plaintext_bytes")
    collectionVolumePolicy packSourceBytes packFiles packMemberBytes packPartPlaintextBytes
      rawVolumePlaintextBytes rawPartPlaintextBytes
  | _ => .error (.valueError "incremental planner policy is invalid")

/-- A string of a checkpoint. -/
def textValue : Json → Py Text
  | .str t => .ok t
  | _ => .error (.valueError "incremental planner checkpoint is not canonical")

section

variable (nfc : Text → Text)

/-- One pending file. -/
def parsePendingFile : Json → Py ArchiveFile
  | .obj members => do
    require (keysAre members ["path", "bytes", "sha256"])
      (.valueError "incremental planner pending file is invalid")
    let path ← textValue (fieldOf members "path")
    let bytes ← uintValue "pending file bytes" (fieldOf members "bytes")
    let sha256 ← textValue (fieldOf members "sha256")
    normalizedFile nfc ⟨path, bytes, sha256⟩
  | _ => .error (.valueError "incremental planner pending file is invalid")

/-- The list of pending files. -/
def parsePendingFiles : Json → Py (List ArchiveFile)
  | .arr items => items.mapM (parsePendingFile nfc)
  | _ => .error (.valueError "incremental planner pending files must be a list")

/-- The closed flag. -/
def parseClosed : Json → Py Bool
  | .bool closed => .ok closed
  | _ => .error (.valueError "incremental planner closed flag must be boolean")

/-- The content identity. -/
def parseIdentity : Json → Py (Option Text)
  | .null => .ok none
  | value => do
    let identity ← textValue value
    return some identity

/-- The content hash state; only a `ValueError` gets the planner's own text. -/
def parseHashState (state : Text) : Py CheckpointSHA256 :=
  match CheckpointSHA256.fromState state with
  | .error (.valueError _) =>
    .error (.valueError "incremental planner content hash state is invalid")
  | result => result

/-- The schema of a payload is the planner's. -/
def isPlannerSchema : Json → Bool
  | .str schema => schema == plannerCheckpointSchema
  | _ => false

/-- The fields of a checkpoint payload. -/
def plannerCheckpointKeys : List Text :=
  ["schema", "policy", "content_hash_state", "next_file_order",
    "next_sequence", "files_seen", "bytes_seen",
    "pending_pack_files", "closed", "content_identity"]

/-- The checkpoint that a decoded payload describes. No check of `checkCheckpoint` reads the hash,
which the constructor decodes after them. -/
def ofPayload (members : List (Text × Json)) :
    Py IncrementalVolumePlannerCheckpoint := do
  require (isPlannerSchema (fieldOf members "schema") && keysAre members plannerCheckpointKeys)
    (.valueError "incremental volume planner checkpoint schema mismatch")
  let policy ← parsePolicy (fieldOf members "policy")
  let pending ← parsePendingFiles nfc (fieldOf members "pending_pack_files")
  let closed ← parseClosed (fieldOf members "closed")
  let state ← textValue (fieldOf members "content_hash_state")
  let nextFileOrder ← uintValue "next file order" (fieldOf members "next_file_order")
  let nextSequence ← uintValue "next sequence" (fieldOf members "next_sequence")
  let filesSeen ← uintValue "files seen" (fieldOf members "files_seen")
  let bytesSeen ← uintValue "bytes seen" (fieldOf members "bytes_seen")
  let identity ← parseIdentity (fieldOf members "content_identity")
  let checkpoint : IncrementalVolumePlannerCheckpoint := ⟨policy, .new, nextFileOrder, nextSequence,
    filesSeen, bytesSeen, pending, closed, identity⟩
  checkCheckpoint nfc checkpoint
  let contentHash ← parseHashState state
  let checkpoint := { checkpoint with contentHash := contentHash }
  checkpoint.checkIdentity
  require (canonicalJsonBytes (.obj (checkpoint.payload state)) == canonicalJsonBytes (.obj members))
    (.valueError "incremental planner checkpoint is not canonical")
  return checkpoint

/-- `parse_incremental_volume_planner_checkpoint`. -/
def parseCheckpoint (content : Bytes) :
    Py IncrementalVolumePlannerCheckpoint :=
  match decodeUtf8 content with
  | none => .error (.valueError "'utf-8' codec can't decode")
  | some text =>
    match loads text with
    | none => .error (.valueError "incremental volume planner checkpoint is not valid JSON")
    | some (.obj members) => ofPayload nfc members
    | some _ => .error (.valueError "incremental volume planner checkpoint schema mismatch")

/-! ## Reading what was written -/

/-- A field of an object whose members were put in order. -/
theorem fieldOf_sortKeys {members : List (Text × Json)} (hn : (members.map Prod.fst).Nodup)
    (key : String) {value : Json} (h : lookup members key.toList = some value) :
    fieldOf (sortedBy Prod.fst (sortKeysMembers members)) key = value.sortKeys := by
  rw [fieldOf, lookup_sortKeys hn, h, Option.map_some, Option.getD_some]

theorem uintValue_sortKeys (label : String) (n : Nat) :
    uintValue label (sortKeys (.nat n)) = .ok n := by
  rw [Json.nat, sortKeys, uintValue]
  simp

theorem positiveValue_sortKeys {n : Nat} (label : String) (hn : 1 ≤ n) :
    positiveValue label (sortKeys (.nat n)) = .ok n := by
  rw [positiveValue, uintValue_sortKeys, ok_bind]
  simp [hn]

theorem textValue_sortKeys (t : Text) : textValue (sortKeys (.str t)) = .ok t := by
  rw [sortKeys, textValue]

/-- A policy passes the checks of its constructor. -/
theorem collectionVolumePolicy_eq (policy : CollectionVolumePolicy) :
    collectionVolumePolicy policy.packSourceBytes policy.packFiles policy.packMemberBytes
      policy.packPartPlaintextBytes policy.rawVolumePlaintextBytes policy.rawPartPlaintextBytes =
      .ok policy := by
  rw [collectionVolumePolicy, dif_pos policy.positive, dif_pos policy.aligned.1,
    dif_pos policy.aligned.2, dif_pos policy.rawParts.1, dif_pos policy.rawParts.2.1,
    dif_pos policy.rawParts.2.2, dif_pos policy.packParts, dif_pos policy.files]

theorem nodup_policy_payload (policy : CollectionVolumePolicy) :
    (policy.payload.map Prod.fst).Nodup := by
  simp [CollectionVolumePolicy.payload]

theorem parsePolicy_payload (policy : CollectionVolumePolicy) :
    parsePolicy (sortKeys (.obj policy.payload)) = .ok policy := by
  have hkeys : keysAre policy.payload ["pack_source_bytes", "pack_files",
      "pack_member_bytes", "pack_part_plaintext_bytes",
      "raw_volume_plaintext_bytes", "raw_part_plaintext_bytes"] = true := rfl
  have hfield := @fieldOf_sortKeys _ (nodup_policy_payload policy)
  obtain ⟨h₁, h₂, h₃, h₄, h₅, h₆⟩ := policy.positive
  rw [sortKeys, parsePolicy]
  simp only [keysAre_sortKeys, hkeys, require_true, ok_bind, hfield "pack_source_bytes" rfl,
    hfield "pack_files" rfl, hfield "pack_member_bytes" rfl, hfield "pack_part_plaintext_bytes" rfl,
    hfield "raw_volume_plaintext_bytes" rfl, hfield "raw_part_plaintext_bytes" rfl,
    positiveValue_sortKeys _ h₁, positiveValue_sortKeys _ h₂, positiveValue_sortKeys _ h₃,
    positiveValue_sortKeys _ h₄, positiveValue_sortKeys _ h₅, positiveValue_sortKeys _ h₆,
    collectionVolumePolicy_eq]

theorem nodup_file_keys (f : ArchiveFile) : (([("path", Json.str f.path), ("bytes", .nat f.bytes),
      ("sha256", .str f.sha256)] : List (Text × Json)).map Prod.fst).Nodup := by
  simp

/-- A file is determined by its JSON object, whatever the order of the members. -/
theorem file_eq_of_sortKeys {f g : ArchiveFile} (h : sortKeys f.toJson = sortKeys g.toJson) :
    f = g := by
  have hfield := lookup_eq_of_sortKeys (nodup_file_keys f) (nodup_file_keys g) h
  have hpath : (some (Json.str f.path)).map sortKeys = (some (Json.str g.path)).map sortKeys :=
    hfield "path"
  have hbytes : (some (Json.nat f.bytes)).map sortKeys =
      (some (Json.nat g.bytes)).map sortKeys := hfield "bytes"
  have hsha : (some (Json.str f.sha256)).map sortKeys =
      (some (Json.str g.sha256)).map sortKeys := hfield "sha256"
  simp only [Option.map_some, Json.nat, sortKeys, Option.some.injEq, Json.str.injEq,
    Json.int.injEq, Nat.cast_inj] at hpath hbytes hsha
  cases f
  cases g
  simp only at hpath hbytes hsha
  rw [hpath, hbytes, hsha]

theorem files_eq_of_sortKeys {files files' : List ArchiveFile}
    (h : sortKeys (.arr (files.map ArchiveFile.toJson)) =
      sortKeys (.arr (files'.map ArchiveFile.toJson))) : files = files' := by
  rw [sortKeys, sortKeys, sortKeysItems_eq_map, sortKeysItems_eq_map,
    Json.arr.injEq, map_map, map_map] at h
  exact map_injective_iff.2 (fun f g he => file_eq_of_sortKeys he) h

/-- A pending file is read under its normalised path. -/
theorem parsePendingFile_toJson (f : ArchiveFile) :
    parsePendingFile nfc (sortKeys f.toJson) = normalizedFile nfc f := by
  have hkeys : keysAre [("path", Json.str f.path), ("bytes", .nat f.bytes),
      ("sha256", .str f.sha256)] ["path", "bytes", "sha256"] =
      true := rfl
  have hfield := @fieldOf_sortKeys _ (nodup_file_keys f)
  rw [ArchiveFile.toJson, sortKeys, parsePendingFile]
  simp only [keysAre_sortKeys, hkeys, require_true, ok_bind, hfield "path" rfl,
    hfield "bytes" rfl, hfield "sha256" rfl, textValue_sortKeys, uintValue_sortKeys]

theorem parsePendingFiles_toJson (files : List ArchiveFile) :
    parsePendingFiles nfc (sortKeys (.arr (files.map ArchiveFile.toJson))) =
      files.mapM (normalizedFile nfc) := by
  rw [sortKeys, sortKeysItems_eq_map, parsePendingFiles, map_map]
  induction files with
  | nil => rfl
  | cons f files ih =>
    rw [map_cons, mapM_cons, mapM_cons, ih, Function.comp_apply, parsePendingFile_toJson]

end

theorem parseIdentity_identityJson (identity : Option Text) :
    parseIdentity (sortKeys (identityJson identity)) = .ok identity := by
  cases identity with
  | none => rw [identityJson, sortKeys, parseIdentity]
  | some t =>
    rw [identityJson, sortKeys, parseIdentity, textValue]
    · rfl
    · exact fun h => by cases h

namespace IncrementalVolumePlannerCheckpoint

variable {nfc : Text → Text} {c : IncrementalVolumePlannerCheckpoint} {m : Bytes}

theorem nodup_payload (c : IncrementalVolumePlannerCheckpoint) (state : Text) :
    ((c.payload state).map Prod.fst).Nodup := by
  have hkeys : plannerCheckpointKeys.Nodup := by decide
  exact hkeys

theorem canonical_toJson (f : ArchiveFile) : Json.Canonical f.toJson := by
  rw [ArchiveFile.toJson, Json.Canonical]
  refine ⟨nodup_file_keys f, ?_⟩
  simp only [CanonicalMembers, Json.Canonical, Json.nat, and_self]

theorem canonical_payload (c : IncrementalVolumePlannerCheckpoint) (state : Text) :
    Json.Canonical (.obj (c.payload state)) := by
  have hpolicy : Json.Canonical (.obj c.policy.payload) := by
    rw [Json.Canonical]
    refine ⟨nodup_policy_payload c.policy, ?_⟩
    simp only [CollectionVolumePolicy.payload, CanonicalMembers, Json.Canonical, Json.nat, and_self]
  have hidentity : Json.Canonical (identityJson c.contentIdentity) := by
    cases c.contentIdentity <;> rw [identityJson, Json.Canonical] <;> trivial
  have hpending : Json.Canonical (.arr (c.pendingPackFiles.map ArchiveFile.toJson)) := by
    rw [Json.Canonical, canonicalItems_iff, forall_mem_map]
    exact fun f _ => canonical_toJson f
  rw [Json.Canonical] at hpolicy
  rw [Json.Canonical] at hpending
  rw [Json.Canonical]
  refine ⟨c.nodup_payload state, ?_⟩
  simp only [payload, CanonicalMembers, hpolicy, hidentity, hpending, Json.Canonical, Json.nat,
    and_self]

/-- Reading the text of a checkpoint normalises the pending files and checks the result again. -/
theorem ofPayload_payload (hm : c.contentHash = .of m) :
    ofPayload nfc (sortedBy Prod.fst (sortKeysMembers (c.payload c.contentHash.exportState))) = (do
        let pending ← c.pendingPackFiles.mapM (normalizedFile nfc)
        let next := { c with pendingPackFiles := pending }
        checkCheckpoint nfc next
        next.checkIdentity
        require (canonicalJsonBytes (.obj (next.payload c.contentHash.exportState)) ==
            canonicalJsonBytes (.obj (c.payload c.contentHash.exportState)))
          (.valueError "incremental planner checkpoint is not canonical")
        return next) := by
  have hkeys : keysAre (c.payload c.contentHash.exportState) plannerCheckpointKeys = true := rfl
  have hfield := @fieldOf_sortKeys _ (c.nodup_payload c.contentHash.exportState)
  have hschema : isPlannerSchema (sortKeys (.str plannerCheckpointSchema)) = true := by
    rw [sortKeys, isPlannerSchema, beq_self_eq_true]
  have hhash : parseHashState c.contentHash.exportState = .ok c.contentHash := by
    rw [parseHashState, hm, CheckpointSHA256.fromState_exportState]
  have hclosed : parseClosed (sortKeys (.bool c.closed)) = .ok c.closed := by
    rw [sortKeys, parseClosed]
  have hsorted : canonicalJsonBytes (.obj (sortedBy Prod.fst
      (sortKeysMembers (c.payload c.contentHash.exportState)))) =
      canonicalJsonBytes (.obj (c.payload c.contentHash.exportState)) := by
    rw [canonicalJsonBytes, canonicalJsonBytes, ← sortKeys, dumps_sortKeys]
  simp only [ofPayload, hfield "schema" rfl, hfield "policy" rfl, hfield "content_hash_state" rfl,
    hfield "next_file_order" rfl, hfield "next_sequence" rfl, hfield "files_seen" rfl,
    hfield "bytes_seen" rfl, hfield "pending_pack_files" rfl, hfield "closed" rfl,
    hfield "content_identity" rfl, hschema, keysAre_sortKeys, hkeys, Bool.and_self, require_true, ok_bind, parsePolicy_payload,
    parsePendingFiles_toJson, hclosed, textValue_sortKeys, uintValue_sortKeys,
    parseIdentity_identityJson, hhash, hsorted]
  rfl

/-- The text of a checkpoint determines its pending files. -/
theorem pending_eq_of_payload {files : List ArchiveFile} {state : Text}
    (h : canonicalJsonBytes (.obj ({ c with pendingPackFiles := files }.payload state)) =
      canonicalJsonBytes (.obj (c.payload state))) : files = c.pendingPackFiles := by
  have hsorted := sortKeys_eq_of_dumps false (canonical_payload _ state)
    (c.canonical_payload state) (encodeUtf8_injective h)
  have hlookup : (some (Json.arr (files.map ArchiveFile.toJson))).map sortKeys =
      (some (Json.arr (c.pendingPackFiles.map ArchiveFile.toJson))).map sortKeys :=
    lookup_eq_of_sortKeys (nodup_payload _ state) (c.nodup_payload state) hsorted
      "pending_pack_files"
  exact files_eq_of_sortKeys (Option.some.inj hlookup)

/-- Write a checkpoint and read it again, as the caller does between two batches. -/
def resume (nfc : Text → Text) (c : IncrementalVolumePlannerCheckpoint) :
    Py IncrementalVolumePlannerCheckpoint := do
  let content ← c.checkpointBytes nfc
  parseCheckpoint nfc content

theorem normalizedFile_of_checkPending {policy : CollectionVolumePolicy} {files : List ArchiveFile}
    {seen : List Text} {bytes : Nat} (h : checkPending nfc policy files seen = .ok bytes) :
    ∀ f ∈ files, ∃ g, normalizedFile nfc f = .ok g := by
  induction files generalizing seen bytes with
  | nil => simp
  | cons f files ih =>
    simp only [checkPending, bind_eq_ok] at h
    obtain ⟨g, hg, -, -, -, -, rest, hrest, -⟩ := h
    rw [forall_mem_cons]
    exact ⟨⟨g, hg⟩, ih hrest⟩

/-- An open checkpoint is read back as it was exactly when it passes its own checks and the paths of
its pending files are canonical; otherwise reading fails. -/
theorem resume_eq_ok_iff (hm : c.contentHash = .of m) (hopen : c.closed = false)
    (hid : c.contentIdentity = none) {next : IncrementalVolumePlannerCheckpoint} :
    c.resume nfc = .ok next ↔ next = c ∧ checkCheckpoint nfc c = .ok () ∧
      ∀ f ∈ c.pendingPackFiles, Canonical nfc f := by
  have hidentity : ∀ files, { c with pendingPackFiles := files }.checkIdentity = .ok () := by
    intro files
    rw [checkIdentity]
    simp [hopen, hid]
  have hread : parseCheckpoint nfc (canonicalJsonBytes (.obj (c.payload c.contentHash.exportState))) =
      ofPayload nfc
        (sortedBy Prod.fst (sortKeysMembers (c.payload c.contentHash.exportState))) := by
    rw [parseCheckpoint, canonicalJsonBytes, decodeUtf8_encodeUtf8]
    simp only [loads_dumps false (c.canonical_payload _), sortKeys]
  simp only [resume, checkpointBytes, bind_eq_ok, hidentity c.pendingPackFiles]
  constructor
  · rintro ⟨content, ⟨⟨⟩, hcheck, ⟨⟩, -, hcontent⟩, h⟩
    rw [← Except.ok.inj hcontent, hread, ofPayload_payload hm] at h
    simp only [bind_eq_ok, require_eq_ok, beq_iff_eq] at h
    obtain ⟨pending, hpending, -, -, -, -, -, hsame, h⟩ := h
    obtain rfl := pending_eq_of_payload hsame
    refine ⟨(Except.ok.inj h).symm, hcheck, ?_⟩
    rw [mapM_eq_ok_iff, forall₂_same] at hpending
    intro f hf
    have hnormal := hpending f hf
    simp only [normalizedFile, bind_eq_ok] at hnormal
    obtain ⟨path, hpath, -, -, -, -, hfile⟩ := hnormal
    rw [Canonical, hpath]
    exact congrArg (fun g : ArchiveFile => Except.ok g.path) (Except.ok.inj hfile)
  · rintro ⟨rfl, hcheck, hcanonical⟩
    refine ⟨_, ⟨(), hcheck, (), trivial, rfl⟩, ?_⟩
    have hpending : next.pendingPackFiles.mapM (normalizedFile nfc) =
        .ok next.pendingPackFiles := by
      rw [mapM_eq_ok_iff, forall₂_same]
      intro f hf
      simp only [checkCheckpoint, bind_eq_ok] at hcheck
      obtain ⟨-, -, -, -, -, -, bytes, hbytes, -⟩ := hcheck
      obtain ⟨g, hg⟩ := normalizedFile_of_checkPending hbytes f hf
      rw [hg, (normalizedFile_inv (hcanonical f hf) hg).1]
    rw [hread, ofPayload_payload hm, hpending, ok_bind]
    simp only [bind_eq_ok, require_eq_ok, beq_iff_eq]
    exact ⟨(), hcheck, (), hidentity _, (), trivial, rfl⟩

end IncrementalVolumePlannerCheckpoint

end Riverhog.Upload
