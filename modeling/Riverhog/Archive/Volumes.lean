import Riverhog.Archive.Fields
import Riverhog.Upload.Planner

/-!
# Archive volumes and their JSON objects

The dataclasses of `riverhog_archive_contracts.archive_manifest` that describe a volume.
The checks of `__post_init__` are fields of the structures, so that only values that pass
them exist; the names of a volume are functions of its sequence number, since the
constructor refuses any other. `of_mapping` reads an object as `from_mapping` does, and
inverts `to_mapping`.
-/

namespace Riverhog.Archive

open Core Json Protocol Pack Upload List

/-- A check of `__post_init__`, whose success the value keeps. -/
def checked {α : Type} (p : Prop) [Decidable p] (message : String) (build : p → Py α) : Py α :=
  if h : p then build h else .error (archiveManifestError message)

theorem checked_pos {α : Type} {p : Prop} [Decidable p] (message : String) {build : p → Py α}
    (h : p) : checked p message build = build h := dif_pos h

/-! ## The tree -/

/-- `CollectionTreeIdentity`. -/
structure CollectionTreeIdentity where
  files : Nat
  bytes : Nat
  sha256 : Text
  files_pos : 1 ≤ files
  digest : isSha256 sha256 = true
  deriving DecidableEq

namespace CollectionTreeIdentity

/-- The constructor with `__post_init__`. -/
def make (files bytes : Nat) (sha256 : Text) : Py CollectionTreeIdentity :=
  checked (1 ≤ files) "archive tree files must be positive" fun hf =>
  checked (isSha256 sha256 = true) "archive tree sha256 is not a SHA-256 identity" fun hs =>
  .ok ⟨files, bytes, sha256, hf, hs⟩

variable (t : CollectionTreeIdentity)

/-- `to_mapping`. -/
def toMapping : List (Text × Json) :=
  [("files", .nat t.files), ("bytes", .nat t.bytes), ("sha256", .str t.sha256)]

/-- `from_mapping`. -/
def ofMapping (value : Json) : Py CollectionTreeIdentity := do
  let row ← mapping ["files", "bytes", "sha256"] "archive tree" value
  let files ← positiveInt "archive tree files" (← Json.item row "files")
  let bytes ← nonnegativeInt "archive tree bytes" (← Json.item row "bytes")
  let sha256 ← sha256Value "archive tree sha256" (← Json.item row "sha256")
  make files bytes sha256

theorem nodup_toMapping : (t.toMapping.map Prod.fst).Nodup := by
  simp [toMapping]

theorem ofMapping_toMapping :
    ofMapping (sortKeys (.obj t.toMapping)) = .ok t := by
  have hitem := @item_sortedMembers _ (nodup_toMapping t)
  rw [ofMapping, mapping_sortKeys _ rfl]
  simp only [ok_bind, hitem "files" rfl, hitem "bytes" rfl, hitem "sha256" rfl,
    positiveInt_sortKeys _ t.files_pos, nonnegativeInt_sortKeys, sha256Value_sortKeys _ t.digest,
    make, checked_pos _ t.files_pos, checked_pos _ t.digest]

theorem canonical_toMapping : Canonical (.obj t.toMapping) :=
  ⟨nodup_toMapping t, trivial, trivial, trivial, trivial⟩

end CollectionTreeIdentity

/-! ## The encryption state -/

/-- `AgeUploadState`; `format` has one value. -/
structure AgeUploadState where
  headerB64 : Text
  payloadNonceB64 : Text
  plaintextSize : Nat
  header : isBase64 headerB64 = true
  nonce : isBase64 payloadNonceB64 = true
  header_ne : decodedBytes headerB64 ≠ []
  nonce_length : (decodedBytes payloadNonceB64).length = 16
  deriving DecidableEq

namespace AgeUploadState

/-- `AGE_UPLOAD_STATE_FORMAT`. -/
def format : Text := "age-v1-scrypt-resumable"

/-- The constructor with `__post_init__`. -/
def make (headerB64 payloadNonceB64 : Text) (plaintextSize : Nat) : Py AgeUploadState :=
  checked (isBase64 headerB64 = true) "archive age header is not canonical base64" fun hh =>
  checked (isBase64 payloadNonceB64 = true)
    "archive age payload nonce is not canonical base64" fun hn =>
  checked (decodedBytes headerB64 ≠ []) "archive age header must not be empty" fun hne =>
  checked ((decodedBytes payloadNonceB64).length = 16)
    "archive age payload nonce must be 16 bytes" fun hl =>
  .ok ⟨headerB64, payloadNonceB64, plaintextSize, hh, hn, hne, hl⟩

/-- `to_mapping`. -/
def toMapping (a : AgeUploadState) : List (Text × Json) :=
  [("format", .str format), ("header_b64", .str a.headerB64),
    ("payload_nonce_b64", .str a.payloadNonceB64),
    ("plaintext_size", .nat a.plaintextSize)]

/-- `from_mapping`. -/
def ofMapping (plaintextBytes : Nat) (value : Json) : Py AgeUploadState := do
  let row ← mapping ["format", "header_b64", "payload_nonce_b64",
    "plaintext_size"] "archive age state" value
  require (isName format (← Json.item row "format"))
    (archiveManifestError "archive age state format is unsupported")
  let size ← nonnegativeInt "archive age state plaintext size" (← Json.item row "plaintext_size")
  require (size == plaintextBytes)
    (archiveManifestError "archive age state plaintext size does not match volume")
  let headerB64 ← base64Value "archive age header" (← Json.item row "header_b64")
  let nonceB64 ← base64Value "archive age payload nonce" (← Json.item row "payload_nonce_b64")
  make headerB64 nonceB64 size

theorem nodup_toMapping (a : AgeUploadState) : (a.toMapping.map Prod.fst).Nodup := by
  simp [toMapping]

theorem canonical_toMapping (a : AgeUploadState) : Canonical (.obj a.toMapping) :=
  ⟨nodup_toMapping a, trivial, trivial, trivial, trivial, trivial⟩

theorem ofMapping_toMapping (a : AgeUploadState) :
    ofMapping a.plaintextSize (sortKeys (.obj a.toMapping)) = .ok a := by
  have hitem := @item_sortedMembers _ (nodup_toMapping a)
  rw [ofMapping, mapping_sortKeys _ rfl]
  simp only [ok_bind, hitem "format" rfl, hitem "header_b64" rfl,
    hitem "payload_nonce_b64" rfl, hitem "plaintext_size" rfl, isName_sortKeys,
    require_true, nonnegativeInt_sortKeys, beq_self_eq_true, base64Value_sortKeys _ a.header,
    base64Value_sortKeys _ a.nonce, make, checked_pos _ a.header, checked_pos _ a.nonce,
    checked_pos _ a.header_ne, checked_pos _ a.nonce_length]

end AgeUploadState

/-! ## Parts -/

/-- `StoredPartIdentity`. -/
structure StoredPartIdentity where
  number : Nat
  plaintextStart : Nat
  plaintextBytes : Nat
  plaintextSha256 : Text
  storedBytes : Nat
  storedSha256 : Text
  number_pos : 1 ≤ number
  plaintext_digest : isSha256 plaintextSha256 = true
  stored_pos : 1 ≤ storedBytes
  stored_digest : isSha256 storedSha256 = true
  deriving DecidableEq

namespace StoredPartIdentity

/-- The constructor with `__post_init__`. -/
def make (number plaintextStart plaintextBytes : Nat) (plaintextSha256 : Text) (storedBytes : Nat)
    (storedSha256 : Text) : Py StoredPartIdentity :=
  checked (1 ≤ number) "archive part number must be positive" fun hn =>
  checked (isSha256 plaintextSha256 = true)
    "archive part plaintext sha256 is not a SHA-256 identity" fun hp =>
  checked (1 ≤ storedBytes) "archive part stored bytes must be positive" fun hb =>
  checked (isSha256 storedSha256 = true)
    "archive part stored sha256 is not a SHA-256 identity" fun hs =>
  .ok ⟨number, plaintextStart, plaintextBytes, plaintextSha256, storedBytes, storedSha256, hn, hp,
    hb, hs⟩

variable (p : StoredPartIdentity)

/-- `to_mapping`. -/
def toMapping : List (Text × Json) :=
  [("number", .nat p.number), ("plaintext_start", .nat p.plaintextStart),
    ("plaintext_bytes", .nat p.plaintextBytes),
    ("plaintext_sha256", .str p.plaintextSha256),
    ("stored_bytes", .nat p.storedBytes), ("stored_sha256", .str p.storedSha256)]

/-- `from_mapping`. -/
def ofMapping (expectedNumber expectedStart : Nat) (value : Json) : Py StoredPartIdentity := do
  let row ← mapping ["number", "plaintext_start", "plaintext_bytes",
    "plaintext_sha256", "stored_bytes", "stored_sha256"] "archive part" value
  let number ← positiveInt "archive part number" (← Json.item row "number")
  let start ← nonnegativeInt "archive part plaintext start" (← Json.item row "plaintext_start")
  require (!(number != expectedNumber || start != expectedStart))
    (archiveManifestError "archive part order is not canonical")
  let plaintextBytes ← nonnegativeInt "archive part plaintext bytes"
    (← Json.item row "plaintext_bytes")
  let plaintextSha256 ← sha256Value "archive part plaintext sha256"
    (← Json.item row "plaintext_sha256")
  let storedBytes ← positiveInt "archive part stored bytes" (← Json.item row "stored_bytes")
  let storedSha256 ← sha256Value "archive part stored sha256" (← Json.item row "stored_sha256")
  make number start plaintextBytes plaintextSha256 storedBytes storedSha256

theorem nodup_toMapping : (p.toMapping.map Prod.fst).Nodup := by
  simp [toMapping]

theorem canonical_toMapping : Canonical (.obj p.toMapping) :=
  ⟨nodup_toMapping p, trivial, trivial, trivial, trivial, trivial, trivial, trivial⟩

theorem ofMapping_toMapping :
    ofMapping p.number p.plaintextStart (sortKeys (.obj p.toMapping)) = .ok p := by
  have hitem := @item_sortedMembers _ (nodup_toMapping p)
  rw [ofMapping, mapping_sortKeys _ rfl]
  simp only [ok_bind, hitem "number" rfl, hitem "plaintext_start" rfl,
    hitem "plaintext_bytes" rfl, hitem "plaintext_sha256" rfl,
    hitem "stored_bytes" rfl, hitem "stored_sha256" rfl,
    positiveInt_sortKeys _ p.number_pos, positiveInt_sortKeys _ p.stored_pos,
    nonnegativeInt_sortKeys, sha256Value_sortKeys _ p.plaintext_digest,
    sha256Value_sortKeys _ p.stored_digest, bne_self_eq_false, Bool.or_false, Bool.not_false,
    require_true, make, checked_pos _ p.number_pos, checked_pos _ p.plaintext_digest,
    checked_pos _ p.stored_pos, checked_pos _ p.stored_digest]

end StoredPartIdentity

/-- The parts are numbered from `number` and lead from `start` to `stop`. -/
def PartsLead : Nat → Nat → List StoredPartIdentity → Nat → Prop
  | _, start, [], stop => start = stop
  | number, start, part :: parts, stop => part.number = number ∧ part.plaintextStart = start ∧
      PartsLead (number + 1) (start + part.plaintextBytes) parts stop

instance decidablePartsLead : ∀ number start parts stop, Decidable (PartsLead number start parts stop)
  | _, start, [], stop => inferInstanceAs (Decidable (start = stop))
  | number, start, part :: parts, stop =>
    haveI := decidablePartsLead (number + 1) (start + part.plaintextBytes) parts stop
    inferInstanceAs (Decidable (part.number = number ∧ part.plaintextStart = start ∧ _))

/-- The parts of a volume. -/
structure ValidParts (parts : List StoredPartIdentity) (plaintextBytes : Nat) : Prop where
  nonempty : parts ≠ []
  count : parts.length ≤ archiveVolumePartsMax
  lead : PartsLead 1 0 parts plaintextBytes

/-- The loop of `_parts`, with the offset that it ends at. -/
def readParts : Nat → Nat → List Json → Py (List StoredPartIdentity × Nat)
  | _, start, [] => .ok ([], start)
  | number, start, raw :: rest => do
    let part ← StoredPartIdentity.ofMapping number start raw
    let (parts, stop) ← readParts (number + 1) (start + part.plaintextBytes) rest
    return (part :: parts, stop)

/-- `_parts`. -/
def parts (plaintextBytes : Nat) : Json → Py (List StoredPartIdentity)
  | .arr (first :: rest) => do
    require ((first :: rest).length ≤ archiveVolumePartsMax)
      (archiveManifestError "archive volume parts exceed the construction limit")
    let (result, stop) ← readParts 1 0 (first :: rest)
    require (stop == plaintextBytes)
      (archiveManifestError "archive volume parts do not cover its plaintext")
    return result
  | _ => .error (archiveManifestError "archive volume parts must be a non-empty list")

/-- The loop of `_validate_parts`, with the offset that it ends at. -/
def walkParts : Nat → Nat → List StoredPartIdentity → Py Nat
  | _, start, [] => .ok start
  | number, start, part :: rest => do
    require (!(part.number != number || part.plaintextStart != start))
      (archiveManifestError "archive part order is not canonical")
    walkParts (number + 1) (start + part.plaintextBytes) rest

/-- `_validate_parts`. -/
def validateParts (parts : List StoredPartIdentity) (plaintextBytes : Nat) : Py Unit := do
  require (!(parts.isEmpty || archiveVolumePartsMax < parts.length))
    (archiveManifestError "archive volume parts must be a non-empty tuple")
  let stop ← walkParts 1 0 parts
  require (stop == plaintextBytes)
    (archiveManifestError "archive volume parts do not cover its plaintext")

variable {ps : List StoredPartIdentity}

theorem walkParts_eq_ok_iff {number start stop : Nat} :
    walkParts number start ps = .ok stop ↔ PartsLead number start ps stop := by
  induction ps generalizing number start with
  | nil => simp [walkParts, PartsLead]
  | cons part ps ih =>
    simp only [walkParts, PartsLead, bind_eq_ok, require_eq_ok, ih, exists_const, Bool.not_eq_true',
      Bool.or_eq_false_iff, bne_eq_false_iff_eq, and_assoc]

/-- The validation passes exactly the parts that lead over the plaintext. -/
theorem validateParts_eq_ok_iff {plaintextBytes : Nat} :
    validateParts ps plaintextBytes = .ok () ↔ ValidParts ps plaintextBytes := by
  simp only [validateParts, bind_eq_ok, require_eq_ok, walkParts_eq_ok_iff, exists_const,
    Bool.not_eq_true', Bool.or_eq_false_iff, decide_eq_false_iff_not, not_lt, beq_iff_eq,
    exists_eq_right, isEmpty_eq_false_iff]
  constructor
  · rintro ⟨⟨hne, hcount⟩, hlead⟩
    exact ⟨hne, hcount, hlead⟩
  · exact fun h => ⟨⟨h.nonempty, h.count⟩, h.lead⟩

/-- The parts as a JSON array. -/
def partsJson (ps : List StoredPartIdentity) : Json := .arr (ps.map fun p => .obj p.toMapping)

theorem readParts_toMapping {number start stop : Nat} (h : PartsLead number start ps stop) :
    readParts number start (ps.map fun p => sortKeys (.obj p.toMapping)) = .ok (ps, stop) := by
  induction ps generalizing number start with
  | nil =>
    obtain rfl : start = stop := h
    rfl
  | cons part ps ih =>
    obtain ⟨rfl, rfl, hrest⟩ := h
    rw [map_cons, readParts, part.ofMapping_toMapping, ok_bind, ih hrest]
    rfl

theorem parts_partsJson {plaintextBytes : Nat} (h : ValidParts ps plaintextBytes) :
    parts plaintextBytes (sortKeys (partsJson ps)) = .ok ps := by
  have hread := readParts_toMapping h.lead
  have hcount := h.count
  obtain ⟨first, rest, rfl⟩ := exists_cons_of_ne_nil h.nonempty
  rw [partsJson, sortKeys, sortKeysItems_eq_map, map_map, map_cons, parts]
  simp only [bind_eq_ok, require_eq_ok]
  refine ⟨(), ?_, _, hread, (), beq_self_eq_true _, rfl⟩
  rw [decide_eq_true_iff, length_cons, length_map]
  exact hcount

theorem canonical_partsJson (ps : List StoredPartIdentity) : Canonical (partsJson ps) := by
  change CanonicalItems _
  rw [canonicalItems_iff]
  intro item hitem
  obtain ⟨p, -, rfl⟩ := mem_map.1 hitem
  exact p.canonical_toMapping

/-! ## Segments -/

/-- `SegmentFilePlacement`. -/
structure SegmentFilePlacement where
  path : Text
  offset : Nat
  bytes : Nat
  fileBytes : Nat
  sha256 : Text
  relative : isRelativePath path = true
  unreserved : reservedArchivePrefix.isPrefixOf path = false
  inside : offset + bytes ≤ fileBytes
  digest : isSha256 sha256 = true
  deriving DecidableEq

namespace SegmentFilePlacement

/-- The constructor with `__post_init__`. -/
def make (path : Text) (offset bytes fileBytes : Nat) (sha256 : Text) : Py SegmentFilePlacement :=
  checked (isRelativePath path = true)
    "archive segment source path is not a canonical relative path" fun hp =>
  checked (reservedArchivePrefix.isPrefixOf path = false)
    "archive segment source path is reserved" fun hr =>
  checked (offset + bytes ≤ fileBytes) "archive segment placement is invalid" fun hi =>
  checked (isSha256 sha256 = true) "archive segment file sha256 is not a SHA-256 identity" fun hs =>
  .ok ⟨path, offset, bytes, fileBytes, sha256, hp, hr, hi, hs⟩

variable (f : SegmentFilePlacement)

/-- `to_mapping`. -/
def toMapping : List (Text × Json) :=
  [("path", .str f.path), ("offset", .nat f.offset), ("bytes", .nat f.bytes),
    ("file_bytes", .nat f.fileBytes), ("sha256", .str f.sha256)]

/-- `from_mapping`. -/
def ofMapping (plaintextBytes : Nat) (value : Json) : Py SegmentFilePlacement := do
  let row ← mapping ["path", "offset", "bytes", "file_bytes", "sha256"] "archive segment file" value
  let path ← relativePath "archive segment source path" (← Json.item row "path")
  require (!reservedArchivePrefix.isPrefixOf path)
    (archiveManifestError "archive segment source path is reserved")
  let offset ← nonnegativeInt "archive segment file offset" (← Json.item row "offset")
  let bytes ← nonnegativeInt "archive segment bytes" (← Json.item row "bytes")
  let fileBytes ← nonnegativeInt "archive segment file bytes" (← Json.item row "file_bytes")
  require (!(bytes != plaintextBytes || fileBytes < offset + bytes))
    (archiveManifestError "archive segment placement is invalid")
  let sha256 ← sha256Value "archive segment file sha256" (← Json.item row "sha256")
  make path offset bytes fileBytes sha256

theorem nodup_toMapping : (f.toMapping.map Prod.fst).Nodup := by
  simp [toMapping]

theorem canonical_toMapping : Canonical (.obj f.toMapping) :=
  ⟨nodup_toMapping f, trivial, trivial, trivial, trivial, trivial, trivial⟩

theorem ofMapping_toMapping :
    ofMapping f.bytes (sortKeys (.obj f.toMapping)) = .ok f := by
  have hitem := @item_sortedMembers _ (nodup_toMapping f)
  have hinside : decide (f.fileBytes < f.offset + f.bytes) = false :=
    decide_eq_false (not_lt.2 f.inside)
  rw [ofMapping, mapping_sortKeys _ rfl]
  simp only [ok_bind, hitem "path" rfl, hitem "offset" rfl, hitem "bytes" rfl,
    hitem "file_bytes" rfl, hitem "sha256" rfl, relativePath_sortKeys _ f.relative,
    f.unreserved, nonnegativeInt_sortKeys, sha256Value_sortKeys _ f.digest, bne_self_eq_false,
    hinside, Bool.or_false, Bool.not_false, require_true, make, checked_pos _ f.relative,
    checked_pos _ f.inside, checked_pos _ f.digest]
  exact checked_pos _ f.unreserved

end SegmentFilePlacement

/-! ## Volumes -/

/-- `PackArchiveVolume`; `id`, `path` and `kind` follow from the sequence number. -/
structure PackArchiveVolume where
  sequence : Nat
  files : Nat
  sourceBytes : Nat
  plaintextBytes : Nat
  ageState : AgeUploadState
  indexSha256 : Text
  planSha256 : Text
  parts : List StoredPartIdentity
  sequence_lt : sequence < 2 ^ 256
  files_pos : 1 ≤ files
  files_le : files ≤ archivePackFilesMax
  age_size : ageState.plaintextSize = plaintextBytes
  index_digest : isSha256 indexSha256 = true
  plan_digest : isSha256 planSha256 = true
  parts_valid : ValidParts parts plaintextBytes
  deriving DecidableEq

/-- `SegmentArchiveVolume`; `id`, `path` and `kind` follow from the sequence number. -/
structure SegmentArchiveVolume where
  sequence : Nat
  plaintextBytes : Nat
  ageState : AgeUploadState
  file : SegmentFilePlacement
  parts : List StoredPartIdentity
  sequence_lt : sequence < 2 ^ 256
  age_size : ageState.plaintextSize = plaintextBytes
  file_bytes : file.bytes = plaintextBytes
  parts_valid : ValidParts parts plaintextBytes
  deriving DecidableEq

/-- `ArchiveVolume`. -/
inductive ArchiveVolume where
  | pack (volume : PackArchiveVolume)
  | segment (volume : SegmentArchiveVolume)
  deriving DecidableEq

/-- The sequence number of a volume. -/
def ArchiveVolume.sequence : ArchiveVolume → Nat
  | .pack volume => volume.sequence
  | .segment volume => volume.sequence

/-- The `id` of a volume. -/
def volumeId (kind : Text) (sequence : Nat) : Text := kind ++ '-' :: sequenceText sequence

/-- The `path` of a volume. -/
def volumePath (id suffix : Text) : Text := "volumes/" ++ id ++ '.' :: suffix

/-- `_VOLUME_ID_RE.fullmatch`. -/
def isVolumeId (t : Text) : Bool :=
  "pack-".toList.isPrefixOf t && isSha256 (t.drop 5) ||
    "segment-".toList.isPrefixOf t && isSha256 (t.drop 8)

/-- The parts of a volume, checked by its `__post_init__`. -/
def withValidParts {α : Type} (ps : List StoredPartIdentity) (plaintextBytes : Nat)
    (build : ValidParts ps plaintextBytes → Py α) : Py α :=
  match h : validateParts ps plaintextBytes with
  | .ok () => build (validateParts_eq_ok_iff.1 h)
  | .error e => .error e

theorem withValidParts_pos {α : Type} {plaintextBytes : Nat}
    {build : ValidParts ps plaintextBytes → Py α} (h : ValidParts ps plaintextBytes) :
    withValidParts ps plaintextBytes build = build h := by
  rw [withValidParts]
  split
  · rfl
  · next e he => rw [validateParts_eq_ok_iff.2 h] at he; cases he

namespace PackArchiveVolume

/-- The value of `kind`. -/
def kind : Text := "pack"

/-- The `path` of a pack. -/
def path (v : PackArchiveVolume) : Text := volumePath (volumeId kind v.sequence) "tar.age"

/-- The constructor with `__post_init__`. -/
def make (id : Text) (sequence : Nat) (path : Text) (files sourceBytes plaintextBytes : Nat)
    (ageState : AgeUploadState) (indexSha256 planSha256 : Text) (ps : List StoredPartIdentity) :
    Py PackArchiveVolume :=
  checked (sequence < 2 ^ 256) "archive sequence exceeds the v1 representation" fun hs =>
  checked (id = volumeId kind sequence) "archive volume identity is not canonical" fun _ =>
  checked (path = volumePath id "tar.age") "archive volume path is not canonical" fun _ =>
  checked (1 ≤ files) "archive pack files must be positive" fun hf =>
  checked (files ≤ archivePackFilesMax) "archive pack files exceed the volume limit" fun hl =>
  checked (ageState.plaintextSize = plaintextBytes)
    "archive age state plaintext size does not match volume" fun ha =>
  checked (isSha256 indexSha256 = true)
    "archive pack index sha256 is not a SHA-256 identity" fun hi =>
  checked (isSha256 planSha256 = true)
    "archive pack plan sha256 is not a SHA-256 identity" fun hp =>
  withValidParts ps plaintextBytes fun hv =>
  .ok ⟨sequence, files, sourceBytes, plaintextBytes, ageState, indexSha256, planSha256, ps, hs, hf,
    hl, ha, hi, hp, hv⟩

/-- `to_mapping`. -/
def toMapping (v : PackArchiveVolume) : List (Text × Json) :=
  [("id", .str (volumeId kind v.sequence)),
    ("sequence", .str (sequenceText v.sequence)), ("kind", .str kind),
    ("path", .str v.path), ("files", .nat v.files),
    ("source_bytes", .nat v.sourceBytes), ("plaintext_bytes", .nat v.plaintextBytes),
    ("age_state", .obj v.ageState.toMapping), ("index_sha256", .str v.indexSha256),
    ("plan_sha256", .str v.planSha256), ("parts", partsJson v.parts)]

/-- The members of a pack's object. -/
def fields : List Text :=
  ["id", "sequence", "kind", "path", "files",
    "source_bytes", "plaintext_bytes", "age_state", "index_sha256",
    "plan_sha256", "parts"]

theorem nodup_toMapping (v : PackArchiveVolume) : (v.toMapping.map Prod.fst).Nodup := by
  have hkeys : fields.Nodup := by decide
  exact hkeys

theorem canonical_toMapping (v : PackArchiveVolume) : Canonical (.obj v.toMapping) :=
  ⟨nodup_toMapping v, trivial, trivial, trivial, trivial, trivial, trivial, trivial,
    v.ageState.canonical_toMapping, trivial, trivial, canonical_partsJson v.parts, trivial⟩

end PackArchiveVolume

namespace SegmentArchiveVolume

/-- The value of `kind`. -/
def kind : Text := "segment"

/-- The `path` of a segment. -/
def path (v : SegmentArchiveVolume) : Text := volumePath (volumeId kind v.sequence) "bin.age"

/-- The constructor with `__post_init__`. -/
def make (id : Text) (sequence : Nat) (path : Text) (plaintextBytes : Nat)
    (ageState : AgeUploadState) (file : SegmentFilePlacement) (ps : List StoredPartIdentity) :
    Py SegmentArchiveVolume :=
  checked (sequence < 2 ^ 256) "archive sequence exceeds the v1 representation" fun hs =>
  checked (id = volumeId kind sequence) "archive volume identity is not canonical" fun _ =>
  checked (path = volumePath id "bin.age") "archive volume path is not canonical" fun _ =>
  checked (ageState.plaintextSize = plaintextBytes)
    "archive age state plaintext size does not match volume" fun ha =>
  checked (file.bytes = plaintextBytes) "archive segment placement is invalid" fun hf =>
  withValidParts ps plaintextBytes fun hv =>
  .ok ⟨sequence, plaintextBytes, ageState, file, ps, hs, ha, hf, hv⟩

/-- `to_mapping`. -/
def toMapping (v : SegmentArchiveVolume) : List (Text × Json) :=
  [("id", .str (volumeId kind v.sequence)),
    ("sequence", .str (sequenceText v.sequence)), ("kind", .str kind),
    ("path", .str v.path), ("plaintext_bytes", .nat v.plaintextBytes),
    ("age_state", .obj v.ageState.toMapping), ("file", .obj v.file.toMapping),
    ("parts", partsJson v.parts)]

/-- The members of a segment's object. -/
def fields : List Text :=
  ["id", "sequence", "kind", "path", "plaintext_bytes", "age_state", "file", "parts"]

theorem nodup_toMapping (v : SegmentArchiveVolume) : (v.toMapping.map Prod.fst).Nodup := by
  have hkeys : fields.Nodup := by decide
  exact hkeys

theorem canonical_toMapping (v : SegmentArchiveVolume) : Canonical (.obj v.toMapping) :=
  ⟨nodup_toMapping v, trivial, trivial, trivial, trivial, trivial,
    v.ageState.canonical_toMapping, v.file.canonical_toMapping, canonical_partsJson v.parts,
    trivial⟩

end SegmentArchiveVolume

/-- `_bounded_pack_files`. -/
def boundedPackFiles (value : Json) : Py Nat := do
  let files ← positiveInt "archive pack files" value
  require (files ≤ archivePackFilesMax)
    (archiveManifestError "archive pack files exceed the volume limit")
  return files

/-- What `_volume` reads of both kinds before it builds the volume. -/
structure VolumeHead where
  id : Text
  sequence : Nat
  path : Text
  plaintextBytes : Nat
  ageState : AgeUploadState
  parts : List StoredPartIdentity

/-- The checks of `_volume` that both kinds share. -/
def volumeHead (expectedSequence : Nat) (kind suffix : Text) (row : List (Text × Json)) :
    Py VolumeHead := do
  let sequence ← parseArchiveSequence "archive volume sequence" (← Json.item row "sequence")
  match ← Json.item row "id" with
  | .str id => do
    require (!(sequence != expectedSequence || !isVolumeId id))
      (archiveManifestError "archive volume identity is invalid")
    require (id == volumeId kind sequence)
      (archiveManifestError "archive volume identity is not canonical")
    let path ← relativePath "archive volume path" (← Json.item row "path")
    require (path == volumePath id suffix)
      (archiveManifestError "archive volume path is not canonical")
    let plaintextBytes ← nonnegativeInt "archive volume bytes" (← Json.item row "plaintext_bytes")
    let ageState ← AgeUploadState.ofMapping plaintextBytes (← Json.item row "age_state")
    let ps ← parts plaintextBytes (← Json.item row "parts")
    return ⟨id, sequence, path, plaintextBytes, ageState, ps⟩
  | _ => .error (archiveManifestError "archive volume identity is invalid")

/-- `_volume` for a pack. -/
def packVolume (expectedSequence : Nat) (row : List (Text × Json)) : Py ArchiveVolume := do
  let head ← volumeHead expectedSequence PackArchiveVolume.kind "tar.age" row
  let files ← boundedPackFiles (← Json.item row "files")
  let sourceBytes ← nonnegativeInt "archive pack source bytes" (← Json.item row "source_bytes")
  let indexSha256 ← sha256Value "archive pack index sha256" (← Json.item row "index_sha256")
  let planSha256 ← sha256Value "archive pack plan sha256" (← Json.item row "plan_sha256")
  let volume ← PackArchiveVolume.make head.id head.sequence head.path files sourceBytes
    head.plaintextBytes head.ageState indexSha256 planSha256 head.parts
  return .pack volume

/-- `_volume` for a segment. -/
def segmentVolume (expectedSequence : Nat) (row : List (Text × Json)) : Py ArchiveVolume := do
  let head ← volumeHead expectedSequence SegmentArchiveVolume.kind "bin.age" row
  let file ← SegmentFilePlacement.ofMapping head.plaintextBytes (← Json.item row "file")
  let volume ← SegmentArchiveVolume.make head.id head.sequence head.path head.plaintextBytes
    head.ageState file head.parts
  return .segment volume

/-- `_volume`; an object of no known kind must have no member, and then has no sequence. -/
def volume (expectedSequence : Nat) : Json → Py ArchiveVolume
  | .obj members =>
    let kind := (lookup members "kind").getD .null
    if isName PackArchiveVolume.kind kind then do
      let row ← mapping PackArchiveVolume.fields "archive volume" (.obj members)
      packVolume expectedSequence row
    else if isName SegmentArchiveVolume.kind kind then do
      let row ← mapping SegmentArchiveVolume.fields "archive volume" (.obj members)
      segmentVolume expectedSequence row
    else do
      let row ← mapping [] "archive volume" (.obj members)
      let _ ← Json.item row "sequence"
      .error .keyError
  | _ => .error (archiveManifestError "archive volume is not a mapping")

/-- `to_mapping` of a volume. -/
def ArchiveVolume.toMapping : ArchiveVolume → List (Text × Json)
  | .pack volume => volume.toMapping
  | .segment volume => volume.toMapping

/-! ## Reading a volume back -/

theorem isHexDigit_of_mem_sequenceText {sequence : Nat} {c : Char}
    (h : c ∈ sequenceText sequence) : isHexDigit c = true := by
  have hhex : ∀ d < 16, isHexDigit (Nat.digitChar d) = true := by decide
  obtain ⟨d, hd, rfl⟩ := mem_zeroPadded (by decide) h
  exact hhex d hd

theorem isSha256_sequenceText {sequence : Nat} (hs : sequence < 2 ^ 256) :
    isSha256 (sequenceText sequence) = true := by
  rw [isSha256, sequenceText, length_zeroPadded (by decide) (by decide) (by omega),
    Bool.and_eq_true, all_eq_true]
  exact ⟨rfl, fun c hc => isHexDigit_of_mem_sequenceText hc⟩

theorem isVolumeId_pack {sequence : Nat} (hs : sequence < 2 ^ 256) :
    isVolumeId (volumeId PackArchiveVolume.kind sequence) = true := by
  have hdrop : (volumeId PackArchiveVolume.kind sequence).drop 5 = sequenceText sequence := rfl
  rw [isVolumeId, hdrop, isSha256_sequenceText hs]
  rfl

theorem isVolumeId_segment {sequence : Nat} (hs : sequence < 2 ^ 256) :
    isVolumeId (volumeId SegmentArchiveVolume.kind sequence) = true := by
  have hdrop : (volumeId SegmentArchiveVolume.kind sequence).drop 8 = sequenceText sequence := rfl
  rw [isVolumeId, hdrop, isSha256_sequenceText hs, Bool.or_eq_true]
  exact .inr rfl

/-- A path of canonical components passes the check. -/
theorem isRelativePath_of_isRelpath {path : Text} {parts : List Text} (h : IsRelpath path parts) :
    isRelativePath path = true := by
  have hnormal := Recovery.normalizeRelpath_of_isRelpath h
  simp only [Recovery.normalizeRelpath, bind_eq_ok, require_eq_ok, Bool.not_eq_true',
    Bool.or_eq_false_iff, bne_eq_false_iff_eq] at hnormal
  obtain ⟨-, hletters, -, ⟨⟨habsolute, htext⟩, hparts⟩, -⟩ := hnormal
  rw [isRelativePath, hletters.1, hletters.2, habsolute, htext, hparts, beq_self_eq_true]
  rfl

theorem volumes_eq_join (name : Text) :
    "volumes/" ++ name = joinWith '/' ["volumes", name] := by
  have hstem : "volumes/" = "volumes" ++ ['/'] := by decide
  rw [joinWith_cons_cons, joinWith_singleton, hstem, append_assoc, singleton_append]

/-- The path of a volume is canonical. -/
theorem isRelativePath_volumePath {kind suffix : Text} (sequence : Nat)
    (hh : ∃ c, kind.head? = some c ∧ c ≠ '.')
    (hc : (kind ++ suffix).all (fun c => c != '/' && c != '\\') = true) :
    isRelativePath (volumePath (volumeId kind sequence) suffix) = true := by
  have hletters : ∀ c ∈ volumeId kind sequence ++ '.' :: suffix, c ≠ '/' ∧ c ≠ '\\' := by
    have hhex : ∀ c, isHexDigit c = true → c ≠ '/' ∧ c ≠ '\\' := by
      intro c hhex
      constructor
      · rintro rfl
        exact absurd hhex (by decide)
      · rintro rfl
        exact absurd hhex (by decide)
    simp only [all_append, Bool.and_eq_true, all_eq_true, bne_iff_ne] at hc
    intro c hmem
    simp only [volumeId, mem_append, mem_cons] at hmem
    rcases hmem with (hmem | rfl | hmem) | rfl | hmem
    · exact hc.1 c hmem
    · decide
    · exact hhex c (isHexDigit_of_mem_sequenceText hmem)
    · decide
    · exact hc.2 c hmem
  obtain ⟨c, hhead, hdot⟩ := hh
  obtain ⟨rest, rfl⟩ : ∃ rest, kind = c :: rest := head?_eq_some_iff.1 hhead
  have hcomponent : IsComponent (volumeId (c :: rest) sequence ++ '.' :: suffix) :=
    ⟨by simp [volumeId], by simp [volumeId], fun he => hdot (cons.inj he).1,
      fun hmem => (hletters _ hmem).1 rfl, fun hmem => (hletters _ hmem).2 rfl⟩
  have hvolumes : IsComponent "volumes" :=
    ⟨by decide, by decide, by decide, by decide, by decide⟩
  generalize volumeId (c :: rest) sequence = id at hcomponent
  have hjoin : volumePath id suffix = joinWith '/' ["volumes", id ++ '.' :: suffix] :=
    (append_assoc _ _ _).trans (volumes_eq_join _)
  have hall : ∀ part ∈ ["volumes".toList, id ++ '.' :: suffix], IsComponent part := by
    rw [forall_mem_cons, forall_mem_singleton]
    exact ⟨hvolumes, hcomponent⟩
  exact isRelativePath_of_isRelpath ⟨cons_ne_nil _ _, hall, hjoin⟩

/-- The shared checks pass on the object of a volume. -/
theorem volumeHead_eq {row : List (Text × Json)} {kind suffix : Text}
    {sequence plaintextBytes : Nat} {ageState : AgeUploadState} (hs : sequence < 2 ^ 256)
    (hi : isVolumeId (volumeId kind sequence) = true)
    (hr : isRelativePath (volumePath (volumeId kind sequence) suffix) = true)
    (ha : ageState.plaintextSize = plaintextBytes) (hv : ValidParts ps plaintextBytes)
    (hsequence : Json.item row "sequence" = .ok (sortKeys (.str (sequenceText sequence))))
    (hid : Json.item row "id" = .ok (sortKeys (.str (volumeId kind sequence))))
    (hpath : Json.item row "path" =
      .ok (sortKeys (.str (volumePath (volumeId kind sequence) suffix))))
    (hbytes : Json.item row "plaintext_bytes" = .ok (sortKeys (.nat plaintextBytes)))
    (hage : Json.item row "age_state" = .ok (sortKeys (.obj ageState.toMapping)))
    (hparts : Json.item row "parts" = .ok (sortKeys (partsJson ps))) :
    volumeHead sequence kind suffix row = .ok ⟨volumeId kind sequence, sequence,
      volumePath (volumeId kind sequence) suffix, plaintextBytes, ageState, ps⟩ := by
  have hread := ageState.ofMapping_toMapping
  rw [ha] at hread
  rw [volumeHead, hsequence, hid]
  simp only [ok_bind, parseArchiveSequence_sortKeys _ hs]
  rw [sortKeys]
  simp only [hi, hpath, hbytes, hage, hparts, ok_bind, bne_self_eq_false, Bool.not_true,
    Bool.or_false, Bool.not_false, require_true, beq_self_eq_true, relativePath_sortKeys _ hr,
    nonnegativeInt_sortKeys, hread, parts_partsJson hv]
  rfl

theorem PackArchiveVolume.volume_toMapping (v : PackArchiveVolume) :
    volume v.sequence (sortKeys (.obj v.toMapping)) = .ok (.pack v) := by
  have hn := v.nodup_toMapping
  have hitem := @item_sortedMembers _ hn
  have hkind : lookup (sortedMembers v.toMapping) "kind" =
      some (sortKeys (.str PackArchiveVolume.kind)) := lookup_sortKeys hn _
  have hrow := @mapping_sortKeys "archive volume" v.toMapping PackArchiveVolume.fields rfl
  rw [sortKeys_obj] at hrow
  have hrelative : isRelativePath v.path = true :=
    isRelativePath_volumePath v.sequence ⟨'p', rfl, by decide⟩ (by decide)
  have hhead := volumeHead_eq v.sequence_lt (isVolumeId_pack v.sequence_lt) hrelative v.age_size
    v.parts_valid (hitem _ rfl) (hitem _ rfl) (hitem _ rfl) (hitem _ rfl) (hitem _ rfl)
    (hitem _ rfl)
  have hbounded : boundedPackFiles (sortKeys (.nat v.files)) = .ok v.files := by
    rw [boundedPackFiles, positiveInt_sortKeys _ v.files_pos, ok_bind, decide_eq_true v.files_le]
    rfl
  rw [sortKeys_obj, volume]
  simp only [hkind, Option.getD_some, isName_sortKeys, if_true, hrow, ok_bind, packVolume, hhead,
    hitem "files" rfl, hitem "source_bytes" rfl, hitem "index_sha256" rfl,
    hitem "plan_sha256" rfl, hbounded, nonnegativeInt_sortKeys,
    sha256Value_sortKeys _ v.index_digest, sha256Value_sortKeys _ v.plan_digest,
    PackArchiveVolume.make, checked_pos _ v.sequence_lt, checked_pos _ v.files_pos,
    checked_pos _ v.files_le, checked_pos _ v.age_size, checked_pos _ v.index_digest,
    checked_pos _ v.plan_digest, checked_pos _ rfl, withValidParts_pos v.parts_valid]
  rfl

theorem SegmentArchiveVolume.volume_toMapping (v : SegmentArchiveVolume) :
    volume v.sequence (sortKeys (.obj v.toMapping)) = .ok (.segment v) := by
  have hn := v.nodup_toMapping
  have hitem := @item_sortedMembers _ hn
  have hkind : lookup (sortedMembers v.toMapping) "kind" =
      some (sortKeys (.str SegmentArchiveVolume.kind)) := lookup_sortKeys hn _
  have hother : isName PackArchiveVolume.kind
      (sortKeys (.str SegmentArchiveVolume.kind)) = false := by
    rw [sortKeys]
    decide
  have hrow := @mapping_sortKeys "archive volume" v.toMapping SegmentArchiveVolume.fields rfl
  rw [sortKeys_obj] at hrow
  have hrelative : isRelativePath v.path = true :=
    isRelativePath_volumePath v.sequence ⟨'s', rfl, by decide⟩ (by decide)
  have hhead := volumeHead_eq v.sequence_lt (isVolumeId_segment v.sequence_lt) hrelative v.age_size
    v.parts_valid (hitem _ rfl) (hitem _ rfl) (hitem _ rfl) (hitem _ rfl) (hitem _ rfl)
    (hitem _ rfl)
  have hread := v.file.ofMapping_toMapping
  rw [v.file_bytes] at hread
  rw [sortKeys_obj, volume]
  simp only [hkind, Option.getD_some, hother, isName_sortKeys, if_true, Bool.false_eq_true, if_false,
    hrow, ok_bind, segmentVolume, hhead, hitem "file" rfl, hread, SegmentArchiveVolume.make,
    checked_pos _ v.sequence_lt, checked_pos _ v.age_size, checked_pos _ v.file_bytes,
    checked_pos _ rfl, withValidParts_pos v.parts_valid]
  rfl

theorem ArchiveVolume.volume_toMapping (v : ArchiveVolume) :
    volume v.sequence (sortKeys (.obj v.toMapping)) = .ok v := by
  cases v with
  | pack v => exact v.volume_toMapping
  | segment v => exact v.volume_toMapping

theorem ArchiveVolume.canonical_toMapping (v : ArchiveVolume) : Canonical (.obj v.toMapping) := by
  cases v with
  | pack v => exact v.canonical_toMapping
  | segment v => exact v.canonical_toMapping

end Riverhog.Archive
