import Riverhog.Archive.Volumes

/-!
# Archive documents

The volume, terminal and root documents of `riverhog_archive_contracts.archive_manifest`,
with `from_json_bytes` and `to_json_bytes`. Each of the three readers accepts exactly the
bytes that the writer gives for a document (`volumeFormat_lawful` and its companions).
-/

namespace Riverhog.Archive

open Core Json Protocol Pack Upload

/-- `ARCHIVE_VOLUME_DOCUMENT_BYTES_MAX`. -/
def archiveVolumeDocumentBytesMax : Nat := 1024 * 1024

/-- `ARCHIVE_ROOT_DOCUMENT_BYTES_MAX`. -/
def archiveRootDocumentBytesMax : Nat := 64 * 1024

/-! ## Volume documents -/

/-- `CollectionArchiveVolumeDocument`; `schema` has one value. -/
structure CollectionArchiveVolumeDocument where
  archiveGeneration : Text
  archiveTreeSha256 : Text
  volume : ArchiveVolume
  generation : isSha256 archiveGeneration = true
  tree : isSha256 archiveTreeSha256 = true

namespace CollectionArchiveVolumeDocument

/-- `COLLECTION_ARCHIVE_VOLUME_SCHEMA`. -/
def schema : Text := "collection-archive-volume/v1"

/-- The constructor with `__post_init__`. -/
def make (archiveGeneration archiveTreeSha256 : Text) (volume : ArchiveVolume) :
    Py CollectionArchiveVolumeDocument :=
  checked (isSha256 archiveGeneration = true)
    "collection archive generation is not a SHA-256 identity" fun hg =>
  checked (isSha256 archiveTreeSha256 = true)
    "collection archive volume tree sha256 is not a SHA-256 identity" fun ht =>
  .ok ⟨archiveGeneration, archiveTreeSha256, volume, hg, ht⟩

/-- `to_mapping`. -/
def toMapping (d : CollectionArchiveVolumeDocument) : List (Text × Json) :=
  [("schema", .str schema), ("archive_generation", .str d.archiveGeneration),
    ("archive_tree_sha256", .str d.archiveTreeSha256),
    ("volume", .obj d.volume.toMapping)]

/-- `from_mapping`. -/
def ofMapping (value : Json) : Py CollectionArchiveVolumeDocument := do
  let row ← mapping ["schema", "archive_generation", "archive_tree_sha256",
    "volume"] "collection archive volume" value
  require (isName schema (← Json.item row "schema"))
    (archiveManifestError "collection archive volume schema is unsupported")
  match ← Json.item row "volume" with
  | .obj raw => do
    let sequence ← parseArchiveSequence "archive volume sequence"
      ((lookup raw "sequence").getD .null)
    let archiveGeneration ← sha256Value "collection archive generation"
      (← Json.item row "archive_generation")
    let archiveTreeSha256 ← sha256Value "collection archive volume tree sha256"
      (← Json.item row "archive_tree_sha256")
    let volume ← Archive.volume sequence (.obj raw)
    make archiveGeneration archiveTreeSha256 volume
  | _ => .error (archiveManifestError "collection archive volume is invalid")

theorem nodup_toMapping (d : CollectionArchiveVolumeDocument) :
    (d.toMapping.map Prod.fst).Nodup := by
  simp [toMapping]

theorem lookup_sequence (v : ArchiveVolume) :
    lookup (sortedMembers v.toMapping) "sequence" =
      some (sortKeys (.str (sequenceText v.sequence))) := by
  cases v with
  | pack v => exact lookup_sortKeys v.nodup_toMapping _
  | segment v => exact lookup_sortKeys v.nodup_toMapping _

theorem sequence_lt (v : ArchiveVolume) : v.sequence < 2 ^ 256 := by
  cases v with
  | pack v => exact v.sequence_lt
  | segment v => exact v.sequence_lt

theorem ofMapping_toMapping (d : CollectionArchiveVolumeDocument) :
    ofMapping (sortKeys (.obj d.toMapping)) = .ok d := by
  have hitem := @item_sortedMembers _ (nodup_toMapping d)
  have hvolume := item_sortedMembers (nodup_toMapping d) "volume" rfl
  have hread := d.volume.volume_toMapping
  rw [sortKeys_obj] at hread hvolume
  rw [ofMapping, mapping_sortKeys _ rfl]
  simp only [ok_bind, hitem "schema" rfl, hitem "archive_generation" rfl,
    hitem "archive_tree_sha256" rfl, hvolume, isName_sortKeys, require_true, lookup_sequence,
    Option.getD_some, parseArchiveSequence_sortKeys _ (sequence_lt d.volume),
    sha256Value_sortKeys _ d.generation, sha256Value_sortKeys _ d.tree, hread, make,
    checked_pos _ d.generation, checked_pos _ d.tree]

end CollectionArchiveVolumeDocument

/-- `to_json_bytes` and `from_json_bytes` of a volume document. -/
def volumeFormat : DocumentFormat PyError CollectionArchiveVolumeDocument where
  maxBytes := archiveVolumeDocumentBytesMax
  tooLong := archiveManifestError "collection archive volume exceeds its byte limit"
  notJson := archiveManifestError "collection archive volume is not valid JSON"
  notCanonical := archiveManifestError "collection archive volume JSON is not canonical"
  toJson := fun d => .obj d.toMapping
  ofJson := CollectionArchiveVolumeDocument.ofMapping

theorem volumeFormat_lawful : volumeFormat.Lawful where
  canonical := fun d => ⟨d.nodup_toMapping, trivial, trivial, trivial,
    d.volume.canonical_toMapping, trivial⟩
  ofJson_toJson := CollectionArchiveVolumeDocument.ofMapping_toMapping

/-! ## Terminal documents -/

/-- `CollectionArchiveTerminalDocument`; `kind` and `schema` have one value each. -/
structure CollectionArchiveTerminalDocument where
  archiveGeneration : Text
  archiveTreeSha256 : Text
  sequence : Nat
  generation : isSha256 archiveGeneration = true
  tree : isSha256 archiveTreeSha256 = true
  sequence_pos : 1 ≤ sequence
  sequence_lt : sequence < 2 ^ 256

namespace CollectionArchiveTerminalDocument

/-- `COLLECTION_ARCHIVE_TERMINAL_SCHEMA`. -/
def schema : Text := "collection-archive-terminal/v1"

/-- The value of `kind`. -/
def kind : Text := "terminal"

/-- The constructor with `__post_init__`. -/
def make (archiveGeneration archiveTreeSha256 : Text) (sequence : Nat) (kindValue schemaValue : Text) :
    Py CollectionArchiveTerminalDocument :=
  checked (schemaValue = schema ∧ kindValue = kind)
    "collection archive terminal schema is unsupported" fun _ =>
  checked (isSha256 archiveGeneration = true)
    "collection archive generation is not a SHA-256 identity" fun hg =>
  checked (isSha256 archiveTreeSha256 = true)
    "collection archive terminal tree sha256 is not a SHA-256 identity" fun ht =>
  checked (1 ≤ sequence) "collection archive terminal sequence must be positive" fun hp =>
  checked (sequence < 2 ^ 256) "archive sequence exceeds the v1 representation" fun hl =>
  .ok ⟨archiveGeneration, archiveTreeSha256, sequence, hg, ht, hp, hl⟩

variable (d : CollectionArchiveTerminalDocument)

/-- `to_mapping`. -/
def toMapping : List (Text × Json) :=
  [("schema", .str schema), ("archive_generation", .str d.archiveGeneration),
    ("archive_tree_sha256", .str d.archiveTreeSha256),
    ("sequence", .str (sequenceText d.sequence)), ("kind", .str kind)]

/-- `from_mapping`. -/
def ofMapping (value : Json) : Py CollectionArchiveTerminalDocument := do
  let row ← mapping ["schema", "archive_generation", "archive_tree_sha256",
    "sequence", "kind"] "collection archive terminal" value
  let archiveGeneration ← sha256Value "collection archive generation"
    (← Json.item row "archive_generation")
  let archiveTreeSha256 ← sha256Value "collection archive terminal tree sha256"
    (← Json.item row "archive_tree_sha256")
  let sequence ← parseArchiveSequence "collection archive terminal sequence"
    (← Json.item row "sequence")
  make archiveGeneration archiveTreeSha256 sequence (strValue (← Json.item row "kind"))
    (strValue (← Json.item row "schema"))

theorem nodup_toMapping : (d.toMapping.map Prod.fst).Nodup := by
  simp [toMapping]

theorem ofMapping_toMapping :
    ofMapping (sortKeys (.obj d.toMapping)) = .ok d := by
  have hitem := @item_sortedMembers _ (nodup_toMapping d)
  rw [ofMapping, mapping_sortKeys _ rfl]
  simp only [ok_bind, hitem "schema" rfl, hitem "archive_generation" rfl,
    hitem "archive_tree_sha256" rfl, hitem "sequence" rfl, hitem "kind" rfl,
    parseArchiveSequence_sortKeys _ d.sequence_lt, sha256Value_sortKeys _ d.generation,
    sha256Value_sortKeys _ d.tree, make, checked_pos _ d.generation, checked_pos _ d.tree,
    checked_pos _ d.sequence_pos, checked_pos _ d.sequence_lt]
  exact checked_pos _ ⟨strValue_sortKeys _, strValue_sortKeys _⟩

end CollectionArchiveTerminalDocument

/-- `to_json_bytes` and `from_json_bytes` of a terminal document. -/
def terminalFormat : DocumentFormat PyError CollectionArchiveTerminalDocument where
  maxBytes := archiveVolumeDocumentBytesMax
  tooLong := archiveManifestError "collection archive terminal exceeds its byte limit"
  notJson := archiveManifestError "collection archive terminal is not valid JSON"
  notCanonical := archiveManifestError "collection archive terminal JSON is not canonical"
  toJson := fun d => .obj d.toMapping
  ofJson := CollectionArchiveTerminalDocument.ofMapping

theorem terminalFormat_lawful : terminalFormat.Lawful where
  canonical := fun d => ⟨d.nodup_toMapping, trivial, trivial, trivial, trivial, trivial, trivial⟩
  ofJson_toJson := CollectionArchiveTerminalDocument.ofMapping_toMapping

/-! ## The root document -/

/-- `ProvenanceRootIdentity`; `id`, `kind` and `path` have one value each. -/
structure ProvenanceRootIdentity where
  plaintextBytes : Nat
  sha256 : Text
  storedBytes : Nat
  storedSha256 : Text
  plaintext_pos : 1 ≤ plaintextBytes
  digest : isSha256 sha256 = true
  stored_pos : 1 ≤ storedBytes
  stored_digest : isSha256 storedSha256 = true

namespace ProvenanceRootIdentity

/-- The value of `id` and `kind`. -/
def name : Text := "provenance-root"

/-- The value of `path`. -/
def path : Text := "provenance/root.json.age"

/-- The constructor with `__post_init__`. -/
def make (id kind pathValue : Text) (plaintextBytes : Nat) (sha256 : Text) (storedBytes : Nat)
    (storedSha256 : Text) : Py ProvenanceRootIdentity :=
  checked (id = name ∧ kind = name) "archive provenance root identity is invalid" fun _ =>
  checked (isRelativePath pathValue = true)
    "archive provenance root path is not a canonical relative path" fun _ =>
  checked (pathValue = path) "archive provenance root path is not canonical" fun _ =>
  checked (1 ≤ plaintextBytes) "archive provenance plaintext bytes must be positive" fun hp =>
  checked (isSha256 sha256 = true) "archive provenance sha256 is not a SHA-256 identity" fun hd =>
  checked (1 ≤ storedBytes) "archive provenance stored bytes must be positive" fun hs =>
  checked (isSha256 storedSha256 = true)
    "archive provenance stored sha256 is not a SHA-256 identity" fun hsd =>
  .ok ⟨plaintextBytes, sha256, storedBytes, storedSha256, hp, hd, hs, hsd⟩

variable (r : ProvenanceRootIdentity)

/-- `to_mapping`. -/
def toMapping : List (Text × Json) :=
  [("id", .str name), ("kind", .str name), ("path", .str path),
    ("plaintext_bytes", .nat r.plaintextBytes), ("sha256", .str r.sha256),
    ("stored_bytes", .nat r.storedBytes), ("stored_sha256", .str r.storedSha256)]

/-- `from_mapping`. -/
def ofMapping (value : Json) : Py ProvenanceRootIdentity := do
  let row ← mapping ["id", "kind", "path", "plaintext_bytes",
    "sha256", "stored_bytes", "stored_sha256"] "archive provenance root" value
  let pathValue ← relativePath "archive provenance root path" (← Json.item row "path")
  let plaintextBytes ← positiveInt "archive provenance plaintext bytes"
    (← Json.item row "plaintext_bytes")
  let sha256 ← sha256Value "archive provenance sha256" (← Json.item row "sha256")
  let storedBytes ← positiveInt "archive provenance stored bytes" (← Json.item row "stored_bytes")
  let storedSha256 ← sha256Value "archive provenance stored sha256"
    (← Json.item row "stored_sha256")
  make (strValue (← Json.item row "id")) (strValue (← Json.item row "kind"))
    pathValue plaintextBytes sha256 storedBytes storedSha256

theorem nodup_toMapping : (r.toMapping.map Prod.fst).Nodup := by
  simp [toMapping]

theorem canonical_toMapping : Canonical (.obj r.toMapping) :=
  ⟨nodup_toMapping r, trivial, trivial, trivial, trivial, trivial, trivial, trivial, trivial⟩

theorem isRelativePath_path : isRelativePath path = true := by decide +kernel

theorem ofMapping_toMapping :
    ofMapping (sortKeys (.obj r.toMapping)) = .ok r := by
  have hitem := @item_sortedMembers _ (nodup_toMapping r)
  rw [ofMapping, mapping_sortKeys _ rfl]
  simp only [ok_bind, hitem "id" rfl, hitem "kind" rfl, hitem "path" rfl,
    hitem "plaintext_bytes" rfl, hitem "sha256" rfl, hitem "stored_bytes" rfl,
    hitem "stored_sha256" rfl, relativePath_sortKeys _ isRelativePath_path,
    positiveInt_sortKeys _ r.plaintext_pos, positiveInt_sortKeys _ r.stored_pos,
    sha256Value_sortKeys _ r.digest, sha256Value_sortKeys _ r.stored_digest, make,
    checked_pos _ isRelativePath_path, checked_pos _ (rfl : path = path),
    checked_pos _ r.plaintext_pos, checked_pos _ r.digest, checked_pos _ r.stored_pos,
    checked_pos _ r.stored_digest]
  exact checked_pos _ ⟨strValue_sortKeys _, strValue_sortKeys _⟩

end ProvenanceRootIdentity

/-- `ArchiveProvenanceIdentity`. -/
structure ArchiveProvenanceIdentity where
  identity : Text
  root : ProvenanceRootIdentity
  digest : isSha256 identity = true
  root_matches : root.sha256 = identity

namespace ArchiveProvenanceIdentity

/-- The constructor with `__post_init__`. -/
def make (identity : Text) (root : ProvenanceRootIdentity) : Py ArchiveProvenanceIdentity :=
  checked (isSha256 identity = true)
    "archive provenance identity is not a SHA-256 identity" fun hd =>
  checked (root.sha256 = identity) "archive provenance root identity does not match" fun hr =>
  .ok ⟨identity, root, hd, hr⟩

variable (a : ArchiveProvenanceIdentity)

/-- `to_mapping`. -/
def toMapping : List (Text × Json) :=
  [("identity", .str a.identity), ("root", .obj a.root.toMapping)]

/-- `from_mapping`. -/
def ofMapping (value : Json) : Py ArchiveProvenanceIdentity := do
  let row ← mapping ["identity", "root"] "archive provenance" value
  let identity ← sha256Value "archive provenance identity" (← Json.item row "identity")
  let root ← ProvenanceRootIdentity.ofMapping (← Json.item row "root")
  make identity root

theorem nodup_toMapping : (a.toMapping.map Prod.fst).Nodup := by
  simp [toMapping]

theorem canonical_toMapping : Canonical (.obj a.toMapping) :=
  ⟨nodup_toMapping a, trivial, a.root.canonical_toMapping, trivial⟩

theorem ofMapping_toMapping :
    ofMapping (sortKeys (.obj a.toMapping)) = .ok a := by
  have hidentity := item_sortedMembers (nodup_toMapping a) "identity" rfl
  have hroot := item_sortedMembers (nodup_toMapping a) "root" rfl
  rw [ofMapping, mapping_sortKeys _ rfl]
  simp only [ok_bind, hidentity, hroot, sha256Value_sortKeys _ a.digest,
    a.root.ofMapping_toMapping, make, checked_pos _ a.digest, checked_pos _ a.root_matches]

end ArchiveProvenanceIdentity

/-- `CollectionArchiveManifest`; `schema` has one value. -/
structure CollectionArchiveManifest where
  archiveGeneration : Text
  tree : CollectionTreeIdentity
  orderedVolumeSha256 : Text
  provenance : Option ArchiveProvenanceIdentity
  generation : isSha256 archiveGeneration = true
  ordered : isSha256 orderedVolumeSha256 = true

namespace CollectionArchiveManifest

/-- `COLLECTION_ARCHIVE_MANIFEST_SCHEMA`. -/
def schema : Text := "collection-archive-manifest/v1"

/-- The value of `format`. -/
def format : List (Text × Json) :=
  [("encryption", .str "age-v1-scrypt"), ("pack_index", .str "riverhog-pack-index/v1"),
    ("part_digest", .str "sha256"),
    ("selective_read", .str "age-chunk-range/v1")]

/-- `value == name` for a value that may be missing. -/
def memberIs (members : List (Text × Json)) (key name : Text) : Bool :=
  (lookup members key).any (isName name)

/-- `value == format`. -/
def isFormat : Json → Bool
  | .obj members => keysAre members (format.map Prod.fst) &&
      memberIs members "encryption" "age-v1-scrypt" &&
      memberIs members "pack_index" "riverhog-pack-index/v1" &&
      memberIs members "part_digest" "sha256" &&
      memberIs members "selective_read" "age-chunk-range/v1"
  | _ => false

/-- The fields that every root document has. -/
def expected : List Text := ["schema", "archive_generation", "format", "tree", "volume_sequence"]

/-- The constructor with `__post_init__`. -/
def make (archiveGeneration : Text) (tree : CollectionTreeIdentity) (orderedVolumeSha256 : Text)
    (provenance : Option ArchiveProvenanceIdentity) : Py CollectionArchiveManifest :=
  checked (isSha256 archiveGeneration = true)
    "collection archive generation is not a SHA-256 identity" fun hg =>
  checked (isSha256 orderedVolumeSha256 = true)
    "ordered archive volume sha256 is not a SHA-256 identity" fun ho =>
  .ok ⟨archiveGeneration, tree, orderedVolumeSha256, provenance, hg, ho⟩

/-- The member `provenance`, which is written when there is one. -/
def provenanceMembers : Option ArchiveProvenanceIdentity → List (Text × Json)
  | none => []
  | some a => [("provenance", .obj a.toMapping)]

variable (m : CollectionArchiveManifest)

/-- `to_mapping`. -/
def toMapping : List (Text × Json) :=
  [("schema".toList, .str schema), ("archive_generation".toList, .str m.archiveGeneration),
    ("format".toList, .obj format), ("tree".toList, .obj m.tree.toMapping),
    ("volume_sequence".toList, .obj [("sha256".toList, .str m.orderedVolumeSha256)])] ++
    provenanceMembers m.provenance

/-- The member `provenance`, which need not be there. -/
def readProvenance (members : List (Text × Json)) : Py (Option ArchiveProvenanceIdentity) :=
  match lookup members "provenance".toList with
  | none => .ok none
  | some value => (ArchiveProvenanceIdentity.ofMapping value).map some

/-- `from_mapping`. -/
def ofMapping : Json → Py CollectionArchiveManifest
  | .obj members => do
    require (keysAre members expected || keysAre members (expected ++ ["provenance".toList]))
      (archiveManifestError "collection archive manifest fields are invalid")
    require (isName schema (← Json.item members "schema"))
      (archiveManifestError "collection archive manifest schema is unsupported")
    require (isFormat (← Json.item members "format"))
      (archiveManifestError "collection archive format is unsupported")
    let volumeSequence ← mapping ["sha256"] "archive volume sequence"
      (← Json.item members "volume_sequence")
    let provenance ← readProvenance members
    let archiveGeneration ← sha256Value "collection archive generation"
      (← Json.item members "archive_generation")
    let tree ← CollectionTreeIdentity.ofMapping (← Json.item members "tree")
    let orderedVolumeSha256 ← sha256Value "ordered archive volume sha256"
      (← Json.item volumeSequence "sha256")
    make archiveGeneration tree orderedVolumeSha256 provenance
  | _ => .error (archiveManifestError "collection archive manifest is not a mapping")

theorem nodup_toMapping : (m.toMapping.map Prod.fst).Nodup := by
  have hkeys : (expected ++ ["provenance".toList]).Nodup := by decide
  obtain ⟨generation, tree, ordered, provenance, hg, ho⟩ := m
  cases provenance with
  | none => exact hkeys.sublist (List.sublist_append_left _ _)
  | some a => exact hkeys

theorem keysAre_toMapping : (keysAre m.toMapping expected ||
      keysAre m.toMapping (expected ++ ["provenance".toList])) = true := by
  obtain ⟨generation, tree, ordered, provenance, hg, ho⟩ := m
  cases provenance with
  | none => rfl
  | some a => rfl

theorem canonical_toMapping : Canonical (.obj m.toMapping) := by
  have hformat : Canonical (.obj format) :=
    ⟨by decide, trivial, trivial, trivial, trivial, trivial⟩
  have hsequence : Canonical (.obj [("sha256".toList, .str m.orderedVolumeSha256)]) :=
    ⟨List.nodup_singleton _, trivial, trivial⟩
  refine ⟨nodup_toMapping m, trivial, trivial, hformat, m.tree.canonical_toMapping, hsequence, ?_⟩
  cases hp : m.provenance with
  | none => trivial
  | some a => exact ⟨a.canonical_toMapping, trivial⟩

theorem isFormat_format : isFormat (sortKeys (.obj format)) = true := by decide +kernel

theorem readProvenance_toMapping :
    readProvenance (sortedMembers m.toMapping) = .ok m.provenance := by
  have hlookup := lookup_sortKeys (nodup_toMapping m) "provenance"
  rw [← sortedMembers] at hlookup
  rw [readProvenance, hlookup]
  obtain ⟨generation, tree, ordered, provenance, hg, ho⟩ := m
  cases provenance with
  | none => rfl
  | some a =>
    have hmember : lookup (toMapping ⟨generation, tree, ordered, some a, hg, ho⟩)
        "provenance".toList = some (.obj a.toMapping) := rfl
    rw [hmember, Option.map_some]
    simp only [a.ofMapping_toMapping]
    rfl

theorem ofMapping_toMapping :
    ofMapping (sortKeys (.obj m.toMapping)) = .ok m := by
  have hitem := @item_sortedMembers _ (nodup_toMapping m)
  have hkeys : (keysAre (sortedMembers m.toMapping) expected ||
      keysAre (sortedMembers m.toMapping) (expected ++ ["provenance".toList])) = true := by
    rw [sortedMembers, keysAre_sortKeys, keysAre_sortKeys]
    exact keysAre_toMapping m
  have hone : ([("sha256".toList, Json.str m.orderedVolumeSha256)].map Prod.fst).Nodup :=
    List.nodup_singleton _
  have hsha := item_sortedMembers hone "sha256".toList rfl
  rw [sortKeys_obj, ofMapping, hkeys]
  simp only [hitem "schema" rfl, hitem "archive_generation" rfl,
    hitem "format" rfl, hitem "tree" rfl, hitem "volume_sequence" rfl, ok_bind,
    isName_sortKeys, isFormat_format, require_true, readProvenance_toMapping m,
    mapping_sortKeys _ (rfl : keysAre [("sha256", Json.str m.orderedVolumeSha256)]
      ["sha256"] = true), sha256Value_sortKeys _ m.generation,
    m.tree.ofMapping_toMapping, hsha, sha256Value_sortKeys _ m.ordered, make,
    checked_pos _ m.generation, checked_pos _ m.ordered]

end CollectionArchiveManifest

/-- `to_json_bytes` and `from_json_bytes` of a root document. -/
def rootFormat : DocumentFormat PyError CollectionArchiveManifest where
  maxBytes := archiveRootDocumentBytesMax
  tooLong := archiveManifestError "collection archive root exceeds its byte limit"
  notJson := archiveManifestError "collection archive manifest is not valid JSON"
  notCanonical := archiveManifestError "collection archive manifest JSON is not canonical"
  toJson := fun m => .obj m.toMapping
  ofJson := CollectionArchiveManifest.ofMapping

theorem rootFormat_lawful : rootFormat.Lawful where
  canonical := CollectionArchiveManifest.canonical_toMapping
  ofJson_toJson := CollectionArchiveManifest.ofMapping_toMapping

end Riverhog.Archive
