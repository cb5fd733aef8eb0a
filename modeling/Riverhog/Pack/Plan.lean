import Riverhog.Pack.TarHeader
import Riverhog.Protocol.PackIngress

/-!
# Planning a pack volume

`plan_pack_volume` of `riverhog_core.pack_volume`: the files are normalised and
sorted, laid out one after the other as tar members, and cut into upload units that
end on an encryption chunk boundary; the last unit ends with the index member and
the two zero blocks.
-/

namespace Riverhog.Pack

open Core Protocol

/-- `PACK_INDEX_PATH`. -/
def packIndexPath : Text := ".riverhog/pack-index.json"

/-- `PACK_PADDING_PREFIX`. -/
def packPaddingPrefix : Text := ".riverhog/padding/"

/-- `CHUNK_SIZE` of the encryption format. -/
def chunkSize : Nat := 65536

/-- `ARCHIVE_PACK_FILES_MAX`. -/
def archivePackFilesMax : Nat := 50000

/-- `COLLECTION_UPLOAD_UNIT_SOURCE_MAX`. -/
def collectionUploadUnitSourceMax : Nat := 1000

/-- A file's place in the pack. -/
structure PackMemberPlan where
  path : Text
  bytes : Nat
  sha256 : Text
  unit : Nat
  headerOffset : Nat
  dataOffset : Nat
  endOffset : Nat
  deriving DecidableEq

/-- A zero-filled member that aligns the end of a unit. -/
structure PackPaddingPlan where
  path : Text
  headerOffset : Nat
  payloadBytes : Nat
  endOffset : Nat
  deriving DecidableEq

/-- An upload unit: the files it carries and the bytes of the pack it renders. -/
structure PackUploadUnitPlan where
  unit : Nat
  plaintextStart : Nat
  plaintextEnd : Nat
  sources : List ArchiveFile
  padding : Option PackPaddingPlan
  includesIndex : Bool
  includesEndMarkers : Bool
  deriving DecidableEq

namespace PackUploadUnitPlan

variable (u : PackUploadUnitPlan)

def plaintextBytes : Nat := u.plaintextEnd - u.plaintextStart

def payloadBytes : Nat := (u.sources.map ArchiveFile.bytes).sum

def final : Bool := u.includesEndMarkers

/-- `_unit_row`. -/
def row : PackUnitRow :=
  ⟨u.unit, u.payloadBytes, u.plaintextStart, u.plaintextBytes, u.final, u.sources⟩

end PackUploadUnitPlan

/-- A planned pack volume. -/
structure PackVolumePlan where
  volumeId : Text
  sequence : Nat
  maxMemberBytes : Nat
  partPlaintextBytes : Nat
  members : List PackMemberPlan
  units : List PackUploadUnitPlan
  indexBytes : Bytes
  indexSha256 : Text
  plaintextBytes : Nat
  planSha256 : Text
  deriving DecidableEq

/-- The loop of `_normalized_files`. -/
def normalizeEach (nfc : Text → Text) (maxMemberBytes : Int) :
    List ArchiveFile → List Text → Py (List ArchiveFile)
  | [], _ => .ok []
  | current :: rest, seen => do
    let path ← normalizeRelpath nfc current.path
    require (!reservedArchivePrefix.isPrefixOf path) (.valueError
      ("collection path uses reserved archive namespace: " ++ String.ofList path))
    require (!seen.contains path) (.valueError
      ("duplicate collection archive path: " ++ String.ofList path))
    require (current.bytes < maxMemberBytes) (.valueError
      ("file is outside the pack member size policy: " ++ String.ofList path))
    require (isSha256 current.sha256) (.valueError
      ("collection archive file sha256 is invalid: " ++ String.ofList path))
    let out ← normalizeEach nfc maxMemberBytes rest (path :: seen)
    return { current with path := path } :: out

/-- `_normalized_files`. -/
def normalizedFiles (nfc : Text → Text) (files : List ArchiveFile) (maxMemberBytes : Int) :
    Py (List ArchiveFile) := do
  require (0 < maxMemberBytes) (.valueError "pack member byte limit must be positive")
  let out ← normalizeEach nfc maxMemberBytes files []
  require (!out.isEmpty) (.valueError "pack volume requires at least one file")
  return sortedBy ArchiveFile.path out

/-- `_alignment_padding`. -/
def alignmentPadding (volumeId : Text) (unit cursor : Nat) :
    Py (Option PackPaddingPlan × Nat) := do
  let remainder := cursor % chunkSize
  if remainder = 0 then return (none, cursor)
  let contribution := chunkSize - remainder
  require (!(contribution < tarBlockSize || contribution % tarBlockSize != 0))
    (.runtimeError "tar alignment padding is not representable")
  let payloadBytes := contribution - tarBlockSize
  let path := packPaddingPrefix ++ volumeId ++ '-' :: zeroPadded 10 6 unit
  let header ← tarHeader path payloadBytes
  let endOffset := cursor + header.length + payloadBytes + tarPadding payloadBytes
  require (endOffset % chunkSize == 0)
    (.runtimeError "pack padding did not align to an age chunk boundary")
  return (some ⟨path, cursor, payloadBytes, endOffset⟩, endOffset)

/-- The local variables of the planning loop. -/
structure PlanState where
  members : List PackMemberPlan
  units : List PackUploadUnitPlan
  unitSources : List ArchiveFile
  unitStart : Nat
  cursor : Nat
  unitIndex : Nat
  deriving DecidableEq

/-- The values that the planning loop starts from. -/
def PlanState.initial : PlanState := ⟨[], [], [], 0, 0, 0⟩

/-- Lay out one more member. -/
def PlanState.place (s : PlanState) (current : ArchiveFile) (headerLength : Nat) : PlanState :=
  let dataOffset := s.cursor + headerLength
  let endOffset := dataOffset + current.bytes + tarPadding current.bytes
  { s with
    members := s.members ++ [⟨current.path, current.bytes, current.sha256, s.unitIndex, s.cursor,
      dataOffset, endOffset⟩]
    cursor := endOffset
    unitSources := s.unitSources ++ [current] }

/-- Close the current unit at `cursor`. -/
def PlanState.cut (s : PlanState) (padding : Option PackPaddingPlan) (cursor : Nat) : PlanState :=
  { s with
    units := s.units ++ [⟨s.unitIndex, s.unitStart, cursor, s.unitSources, padding, false, false⟩]
    unitIndex := s.unitIndex + 1
    unitStart := cursor
    cursor := cursor
    unitSources := [] }

/-- The loop of `plan_pack_volume` over the normalised files. -/
def planLoop (volumeId : Text) (partPlaintextBytes : Nat) :
    List ArchiveFile → PlanState → Py PlanState
  | [], s => .ok s
  | current :: rest, s => do
    let header ← tarHeader current.path current.bytes
    let s := s.place current header.length
    if !rest.isEmpty && (s.cursor - s.unitStart ≥ partPlaintextBytes ||
        s.unitSources.length ≥ collectionUploadUnitSourceMax) then
      let (padding, cursor) ← alignmentPadding volumeId s.unitIndex s.cursor
      planLoop volumeId partPlaintextBytes rest (s.cut padding cursor)
    else planLoop volumeId partPlaintextBytes rest s

/-- The line that a file adds to a tree digest. -/
def treeLine (path : Text) (bytes : Nat) (sha256 : Text) : Bytes :=
  encodeUtf8 (path ++ '\t' :: decimal bytes ++ '\t' :: sha256 ++ ['\n'])

/-- A member as a row of the index. -/
def PackMemberPlan.toJson (m : PackMemberPlan) : Json :=
  .obj [("path", .str m.path), ("bytes", .nat m.bytes),
    ("sha256", .str m.sha256), ("unit", .nat m.unit),
    ("header_offset", .nat m.headerOffset), ("data_offset", .nat m.dataOffset)]

/-- The document that the index member holds. -/
def packIndex (volumeId : Text) (sequence : Nat) (members : List PackMemberPlan) : Json :=
  .obj [("schema", .str "riverhog-pack-index/v1"),
    ("volume", .obj [("id", .str volumeId), ("sequence", .nat sequence)]),
    ("tree", .obj [("files", .nat members.length),
      ("bytes", .nat (members.map PackMemberPlan.bytes).sum),
      ("sha256", .str (sha256Hex (members.flatMap fun m => treeLine m.path m.bytes m.sha256)))]),
    ("files", .arr (members.map PackMemberPlan.toJson))]

/-- `_pack_index_bytes`. -/
def packIndexBytes (volumeId : Text) (sequence : Nat) (members : List PackMemberPlan) : Bytes :=
  canonicalJsonBytes (packIndex volumeId sequence members)

/-- `plan_pack_volume`. -/
def planPackVolume (nfc : Text → Text) (files : List ArchiveFile)
    (sequence maxMemberBytes partPlaintextBytes : Int) : Py PackVolumePlan := do
  let normalized ← normalizedFiles nfc files maxMemberBytes
  require (normalized.length ≤ archivePackFilesMax)
    (.valueError "pack files exceed the archive-volume limit")
  require (0 ≤ sequence) (.valueError "pack sequence must be non-negative")
  require (1 ≤ partPlaintextBytes)
    (.valueError "pack archive-part plaintext target must be positive")
  require (partPlaintextBytes % chunkSize == 0)
    (.valueError "pack archive-part target must align to the age chunk size")
  require (sequence < 2 ^ 256) (.valueError "pack sequence exceeds its v1 representation")
  let sequence := sequence.toNat
  let partPlaintextBytes := partPlaintextBytes.toNat
  let volumeId := "pack-" ++ zeroPadded 16 64 sequence
  let s ← planLoop volumeId partPlaintextBytes normalized .initial
  let indexBytes := packIndexBytes volumeId sequence s.members
  let indexHeader ← tarHeader packIndexPath indexBytes.length
  let cursor := s.cursor + indexHeader.length + (indexBytes.length + tarPadding indexBytes.length) +
    tarBlockSize * 2
  let units := s.units ++ [⟨s.unitIndex, s.unitStart, cursor, s.unitSources, none, true, true⟩]
  let planSha256 ← packUploadPlanSha256 nfc volumeId cursor (units.map PackUploadUnitPlan.row)
  return ⟨volumeId, sequence, maxMemberBytes.toNat, partPlaintextBytes, s.members, units,
    indexBytes, sha256Hex indexBytes, cursor, planSha256⟩

end Riverhog.Pack
