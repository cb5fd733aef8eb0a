import Riverhog.Core.Sha256
import Riverhog.Core.Utf8

/-!
# Tar headers of pack members

The header writer of `riverhog_core.pack_volume`: a ustar block, with a pax extended
header before it when the path fits no ustar name or the size exceeds the octal
field. A header is a buffer of one block that is filled field by field.
-/

namespace Riverhog.Pack

open Core

/-- `_TAR_BLOCK_SIZE`. -/
def tarBlockSize : Nat := 512

/-- `_TAR_USTAR_SIZE_MAX`, the largest number of eleven octal digits. -/
def tarUstarSizeMax : Nat := 8 ^ 11 - 1

/-- `_tar_padding`. -/
def tarPadding (size : Nat) : Nat := (-(size : Int) % tarBlockSize).toNat

/-- `_ustar_name`: the name and name prefix fields of a path. -/
def ustarName (path : Text) : Py (Bytes × Bytes) :=
  let encoded := encodeUtf8 path
  if encoded.length ≤ 100 then .ok (encoded, [])
  else
    let parts := path.splitOn '/'
    let found := (List.range' 1 (parts.length - 1)).findSome? fun index =>
      let namePrefix := encodeUtf8 (joinWith '/' (parts.take index))
      let name := encodeUtf8 (joinWith '/' (parts.drop index))
      if namePrefix.length ≤ 155 ∧ name.length ≤ 100 then some (name, namePrefix) else none
    match found with
    | some fields => .ok fields
    | none => .error (.valueError
        ("collection archive path is too long for ustar: " ++ String.ofList path))

/-- `_write_tar_field`. -/
def writeTarField (header : Bytes) (offset length : Nat) (value : Bytes) : Py Bytes :=
  if value.length > length then .error (.valueError "tar header field is too long")
  else .ok (patch header offset value)

/-- `_write_tar_octal`. -/
def writeTarOctal (header : Bytes) (offset length value : Nat) : Py Bytes :=
  let encoded := encodeUtf8 (zeroPadded 8 (length - 1) value) ++ [0]
  if encoded.length > length then .error (.valueError "tar header numeric field is too large")
  else .ok (patch header offset (encoded.leftpad length 48))

/-- `_tar_ustar_header`. -/
def tarUstarHeader (path : Text) (size : Nat) (typeflag : Bytes) : Py Bytes := do
  let (name, namePrefix) ← ustarName path
  let header := zeros tarBlockSize
  let header ← writeTarField header 0 100 name
  let header ← writeTarOctal header 100 8 0o644
  let header ← writeTarOctal header 108 8 0
  let header ← writeTarOctal header 116 8 0
  let header ← writeTarOctal header 124 12 size
  let header ← writeTarOctal header 136 12 0
  let header := patch header 148 (List.replicate 8 32)
  require (typeflag.length == 1) (.valueError "tar header typeflag must be one byte")
  let header := patch header 156 typeflag
  let header ← writeTarField header 257 6 [117, 115, 116, 97, 114, 0]
  let header ← writeTarField header 263 2 [48, 48]
  let header ← writeTarField header 345 155 namePrefix
  writeTarOctal header 148 8 (byteSum header)

/-- `_pax_header_path`. -/
def paxHeaderPath (path : Text) : Text :=
  "PaxHeaders/" ++ (sha256Hex (encodeUtf8 path)).take 32

/-- `_pax_placeholder_path`. -/
def paxPlaceholderPath (path : Text) : Text :=
  "riverhog-pax/" ++ (sha256Hex (encodeUtf8 path)).take 32

/-- The loop of `_pax_record`: a record's length counts the digits of the length. -/
def paxRecordSize (suffixLength : Nat) : Nat → Nat → Option Nat
  | 0, _ => none
  | fuel + 1, size =>
    let nextSize := suffixLength + (decimal size).length
    if nextSize = size then some size else paxRecordSize suffixLength fuel nextSize

/-- `_pax_record`. The loop has as many turns as the record has bytes. -/
def paxRecord (key value : Text) : Py Bytes :=
  let suffix := encodeUtf8 (' ' :: key ++ '=' :: value ++ ['\n'])
  match paxRecordSize suffix.length suffix.length
      (suffix.length + (decimal suffix.length).length) with
  | some size => .ok (encodeUtf8 (decimal size) ++ suffix)
  | none => .error .diverges

/-- `_pax_payload`. -/
def paxPayload : List (Text × Text) → Py Bytes
  | [] => .ok []
  | (key, value) :: attrs => do
    let record ← paxRecord key value
    let records ← paxPayload attrs
    return record ++ records

/-- `_tar_file_header_values`: the pax attributes, and the path and size for the file header. -/
def tarFileHeaderValues (path : Text) (size : Nat) : List (Text × Text) × Text × Nat :=
  let (pathAttrs, fileHeaderPath) := match ustarName path with
    | .ok _ => ([], path)
    | .error _ => ([("path".toList, path)], paxPlaceholderPath path)
  let (sizeAttrs, fileHeaderSize) :=
    if size > tarUstarSizeMax then ([("size".toList, decimal size)], 0) else ([], size)
  (pathAttrs ++ sizeAttrs, fileHeaderPath, fileHeaderSize)

/-- `_tar_header`. -/
def tarHeader (path : Text) (size : Nat) : Py Bytes := do
  let (paxAttrs, fileHeaderPath, fileHeaderSize) := tarFileHeaderValues path size
  let fileHeader ← tarUstarHeader fileHeaderPath fileHeaderSize [48]
  if paxAttrs.isEmpty then return fileHeader
  let payload ← paxPayload paxAttrs
  let paxHeader ← tarUstarHeader (paxHeaderPath path) payload.length [120]
  return paxHeader ++ payload ++ zeros (tarPadding payload.length) ++ fileHeader

end Riverhog.Pack
