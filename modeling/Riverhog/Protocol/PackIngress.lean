import Riverhog.Core.Json
import Riverhog.Core.Sha256
import Riverhog.Core.Utf8
import Riverhog.Protocol.Paths

/-!
# The identity of a pack upload plan

`canonical_json_bytes` and `pack_upload_plan_sha256` of
`riverhog_protocol.pack_ingress`. The planner passes its units as rows; the checks
that a row has the right keys and number types hold of the typed rows here and are
left out, all the others are kept.
-/

namespace Riverhog.Protocol

open Core

/-- `canonical_json_bytes`. -/
def canonicalJsonBytes (value : Json) : Bytes := encodeUtf8 (Json.dumps false value)

/-- `RESERVED_ARCHIVE_PREFIX`. -/
def reservedArchivePrefix : Text := ".riverhog/"

/-- A file of an archive: its path, size and digest. -/
structure ArchiveFile where
  path : Text
  bytes : Nat
  sha256 : Text
  deriving DecidableEq

/-- A unit of an upload plan as a canonical mapping. -/
structure PackUnitRow where
  unit : Nat
  payloadBytes : Nat
  plaintextStart : Nat
  plaintextBytes : Nat
  final : Bool
  sources : List ArchiveFile

/-- The full match of `pack-[0-9a-f]{64}`. -/
def isPackVolumeId (t : Text) : Bool := "pack-".toList.isPrefixOf t && isSha256 (t.drop 5)

/-- A file as a JSON object. -/
def ArchiveFile.toJson (f : ArchiveFile) : Json :=
  .obj [("path", .str f.path), ("bytes", .nat f.bytes), ("sha256", .str f.sha256)]

/-- `_source_rows`: every source again passes the path checks. -/
def sourceRows (nfc : Text → Text) : List ArchiveFile → List Text → Py (List ArchiveFile)
  | [], _ => .ok []
  | current :: rest, seen => do
    let path ← normalizeRelpath nfc current.path
    require (!reservedArchivePrefix.isPrefixOf path) (.valueError
      ("collection path uses reserved archive namespace: " ++ String.ofList path))
    require (!seen.contains path) (.valueError
      ("pack upload unit repeats source path: " ++ String.ofList path))
    require (isSha256 current.sha256) (.valueError "pack upload unit source sha256 is invalid")
    let out ← sourceRows nfc rest (path :: seen)
    return { current with path := path } :: out

/-- `_normalized_unit_row`. -/
def normalizedUnitRow (nfc : Text → Text) (row : PackUnitRow) (expectedUnit : Nat) :
    Py PackUnitRow := do
  require (row.unit == expectedUnit) (.valueError "pack upload unit order is invalid")
  let sources ← sourceRows nfc row.sources []
  require ((sources.map ArchiveFile.bytes).sum == row.payloadBytes)
    (.valueError "pack upload unit payload bytes mismatch")
  return { row with sources := sources }

/-- The loop of `pack_upload_plan_sha256` over the units. -/
def normalizedUnitRows (nfc : Text → Text) : List PackUnitRow → Nat → Py (List PackUnitRow)
  | [], _ => .ok []
  | row :: rest, index => do
    let row ← normalizedUnitRow nfc row index
    let rows ← normalizedUnitRows nfc rest (index + 1)
    return row :: rows

/-- A unit as a JSON object. -/
def PackUnitRow.toJson (row : PackUnitRow) : Json :=
  .obj [("unit", .nat row.unit), ("payload_bytes", .nat row.payloadBytes),
    ("plaintext_start", .nat row.plaintextStart),
    ("plaintext_bytes", .nat row.plaintextBytes), ("final", .bool row.final),
    ("sources", .arr (row.sources.map ArchiveFile.toJson))]

/-- `pack_upload_plan_sha256`. -/
def packUploadPlanSha256 (nfc : Text → Text) (volumeId : Text) (plaintextBytes : Nat)
    (units : List PackUnitRow) : Py Text := do
  require (isPackVolumeId volumeId) (.valueError "pack volume id is invalid")
  require (0 < plaintextBytes) (.valueError "pack upload plaintext bytes must be positive")
  require (!units.isEmpty) (.valueError "pack upload plan unit count is invalid")
  let rows ← normalizedUnitRows nfc units 0
  return sha256Hex (canonicalJsonBytes (.obj
    [("schema", .str "pack-upload-plan/v1"), ("volume_id", .str volumeId),
      ("plaintext_bytes", .nat plaintextBytes),
      ("units", .arr (rows.map PackUnitRow.toJson))]))

end Riverhog.Protocol
