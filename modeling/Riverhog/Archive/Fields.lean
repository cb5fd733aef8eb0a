import Mathlib.Data.List.DropRight
import Riverhog.Core.JsonDocument
import Riverhog.Protocol.PackIngress
import Riverhog.Recovery.Checks

/-!
# Fields of the archive documents

The small readers of `riverhog_archive_contracts.archive_manifest`: objects with exactly
the expected members, integers, ordinals of fixed width, digests, relative paths and
base64 texts. `ArchiveManifestError` is a `ValueError`. Each reader inverts the writer of
its field.
-/

namespace Riverhog.Archive

open Core Json Protocol

/-! ## Readers -/

/-- `ArchiveManifestError`. -/
def archiveManifestError (message : String) : PyError := .valueError message

/-- `_mapping`. -/
def mapping (fields : List Text) (label : String) : Json → Py (List (Text × Json))
  | .obj members => do
    require (keysAre members fields) (archiveManifestError (label ++ " fields are invalid"))
    return members
  | _ => .error (archiveManifestError (label ++ " fields are invalid"))

variable (label : String)

/-- `_nonnegative_int`. -/
def nonnegativeInt : Json → Py Nat
  | .int n =>
    if n < 0 then .error (archiveManifestError (label ++ " must be a non-negative integer"))
    else .ok n.toNat
  | _ => .error (archiveManifestError (label ++ " must be a non-negative integer"))

/-- `_positive_int`. -/
def positiveInt (value : Json) : Py Nat := do
  let parsed ← nonnegativeInt label value
  require (1 ≤ parsed) (archiveManifestError (label ++ " must be positive"))
  return parsed

/-- `format_archive_sequence` of a number below `2 ** 256`. -/
def sequenceText (sequence : Nat) : Text := zeroPadded 16 64 sequence

/-- `int(value, 16)` of hexadecimal digits. -/
def hexNat (t : Text) : Nat := t.foldl (fun acc c => acc * 16 + (hexValue c).getD 0) 0

/-- `parse_archive_sequence`. -/
def parseArchiveSequence : Json → Py Nat
  | .str t =>
    if isSha256 t then .ok (hexNat t)
    else .error (archiveManifestError (label ++ " is not a canonical 256-bit ordinal"))
  | _ => .error (archiveManifestError (label ++ " is not a canonical 256-bit ordinal"))

/-- `_sha256`. -/
def sha256Value : Json → Py Text
  | .str t =>
    if isSha256 t then .ok t
    else .error (archiveManifestError (label ++ " is not a SHA-256 identity"))
  | _ => .error (archiveManifestError (label ++ " is not a SHA-256 identity"))

/-- The checks of `_relative_path`, all of which raise the same error. -/
def isRelativePath (value : Text) : Bool :=
  !(value.isEmpty || value.contains '\\') && !(isAbsolute value || (pathParts value).any fun part =>
      part == [] || part == ['.'] || part == ['.', '.']) &&
    Recovery.purePathText value == value

/-- `_relative_path`. -/
def relativePath : Json → Py Text
  | .str t =>
    if isRelativePath t then .ok t
    else .error (archiveManifestError (label ++ " is not a canonical relative path"))
  | _ => .error (archiveManifestError (label ++ " is not a canonical relative path"))

/-- `value == name`. -/
def isName (name : Text) : Json → Bool
  | .str t => t == name
  | _ => false

/-- `str(value)`, for values that are only compared with names: no other value than a string is
spelled like one of them. -/
def strValue : Json → Text
  | .str t => t
  | _ => []

/-! ## Base64 -/

/-- The alphabet of `base64`. -/
def base64Alphabet : Text :=
  "ABCDEFGHIJKLMNOPQRSTUVWXYZabcdefghijklmnopqrstuvwxyz0123456789+/"

/-- The six bits of a character. -/
def sextet (c : Char) : Option Nat :=
  if base64Alphabet.contains c then some (base64Alphabet.idxOf c) else none

/-- `base64.b64decode(value, validate=True)`, nothing where it raises. -/
def b64decode : Text → Option Bytes
  | [] => some []
  | a :: b :: c :: d :: rest => do
    let a ← sextet a
    let b ← sextet b
    if rest.isEmpty && d == '=' then
      if c == '=' then return [UInt8.ofNat (a * 4 + b / 16)]
      let c ← sextet c
      return [UInt8.ofNat (a * 4 + b / 16), UInt8.ofNat (b % 16 * 16 + c / 4)]
    let c ← sextet c
    let d ← sextet d
    let decoded ← b64decode rest
    return UInt8.ofNat (a * 4 + b / 16) :: UInt8.ofNat (b % 16 * 16 + c / 4) ::
      UInt8.ofNat (c % 4 * 64 + d) :: decoded
  | _ => none

/-- The character of six bits. -/
def base64Char (n : Nat) : Char := base64Alphabet.getD n '='

/-- `base64.b64encode(data).decode("ascii")`. -/
def b64encode : Bytes → Text
  | [] => []
  | [a] => [base64Char (a.toNat / 4), base64Char (a.toNat % 4 * 16), '=', '=']
  | [a, b] => [base64Char (a.toNat / 4), base64Char (a.toNat % 4 * 16 + b.toNat / 16),
      base64Char (b.toNat % 16 * 4), '=']
  | a :: b :: c :: rest => base64Char (a.toNat / 4) ::
      base64Char (a.toNat % 4 * 16 + b.toNat / 16) ::
      base64Char (b.toNat % 16 * 4 + c.toNat / 64) :: base64Char (c.toNat % 64) :: b64encode rest

/-- `value + "=" * (-len(value) % 4)`. -/
def padded (value : Text) : Text := value ++ List.replicate ((4 - value.length % 4) % 4) '='

/-- The checks of `_base64`, all of which raise the same error. -/
def isBase64 (value : Text) : Bool :=
  !value.isEmpty && (b64decode (padded value)).any fun decoded =>
    (b64encode decoded).rdropWhile (· == '=') == value

/-- `_base64`. -/
def base64Value : Json → Py Text
  | .str t =>
    if isBase64 t then .ok t
    else .error (archiveManifestError (label ++ " is not canonical base64"))
  | _ => .error (archiveManifestError (label ++ " is not canonical base64"))

/-- The bytes that a base64 text stands for. -/
def decodedBytes (value : Text) : Bytes := (b64decode (padded value)).getD []

example : isBase64 "QUJD" = true ∧ isBase64 "QUI" = true ∧
    isBase64 "QUJ" = false ∧ decodedBytes "QUI" = [65, 66] := by decide +kernel

/-! ## Reading what was written -/

theorem mapping_sortKeys {members : List (Text × Json)} {fields : List Text}
    (h : keysAre members fields = true) :
    mapping fields label (sortKeys (.obj members)) = .ok (sortedMembers members) := by
  rw [sortKeys_obj, mapping, sortedMembers, keysAre_sortKeys, h]
  rfl

@[simp] theorem nonnegativeInt_sortKeys (n : Nat) :
    nonnegativeInt label (sortKeys (.nat n)) = .ok n := by
  rw [Json.nat, sortKeys, nonnegativeInt, if_neg (by omega)]
  rfl

theorem positiveInt_sortKeys {n : Nat} (h : 1 ≤ n) :
    positiveInt label (sortKeys (.nat n)) = .ok n := by
  rw [positiveInt, nonnegativeInt_sortKeys, ok_bind, decide_eq_true h]
  rfl

theorem sha256Value_sortKeys {t : Text} (h : isSha256 t = true) :
    sha256Value label (sortKeys (.str t)) = .ok t := by
  rw [sortKeys, sha256Value, if_pos h]

theorem relativePath_sortKeys {t : Text} (h : isRelativePath t = true) :
    relativePath label (sortKeys (.str t)) = .ok t := by
  rw [sortKeys, relativePath, if_pos h]

theorem base64Value_sortKeys {t : Text} (h : isBase64 t = true) :
    base64Value label (sortKeys (.str t)) = .ok t := by
  rw [sortKeys, base64Value, if_pos h]

@[simp] theorem isName_sortKeys (t : Text) : isName t (sortKeys (.str t)) = true := by
  rw [sortKeys, isName, beq_self_eq_true]

@[simp] theorem strValue_sortKeys (t : Text) : strValue (sortKeys (.str t)) = t := by
  rw [sortKeys, strValue]

theorem hexNat_zeroPadded {width n : Nat} (hw : 0 < width) (hn : n < 16 ^ width) :
    hexNat (zeroPadded 16 width n) = n := by
  have hdigit : ∀ d < 16, (hexValue (Nat.digitChar d)).getD 0 = d := by decide
  induction width, hw using Nat.le_induction generalizing n with
  | base =>
    rw [Nat.pow_one] at hn
    rw [zeroPadded, Nat.toDigits_of_lt_base hn]
    exact (Nat.zero_add _).trans (hdigit n hn)
  | succ width hw ih =>
    rw [Nat.pow_succ, Nat.mul_comm] at hn
    rw [zeroPadded_succ (by decide) hw, hexNat, List.foldl_append, ← hexNat,
      ih (Nat.div_lt_of_lt_mul hn), List.foldl_cons, List.foldl_nil,
      hdigit _ (Nat.mod_lt _ (by decide))]
    omega

theorem parseArchiveSequence_sortKeys {n : Nat} (hn : n < 2 ^ 256) :
    parseArchiveSequence label (sortKeys (.str (sequenceText n))) = .ok n := by
  have hhex : ∀ d < 16, isHexDigit (Nat.digitChar d) = true := by decide
  have hsha : isSha256 (sequenceText n) = true := by
    rw [isSha256, sequenceText, length_zeroPadded (by decide) (by decide) (by omega),
      Bool.and_eq_true, List.all_eq_true]
    refine ⟨rfl, fun c hc => ?_⟩
    obtain ⟨d, hd, rfl⟩ := mem_zeroPadded (by decide) hc
    exact hhex d hd
  rw [sortKeys, parseArchiveSequence, if_pos hsha, sequenceText,
    hexNat_zeroPadded (by decide) (by omega)]

end Riverhog.Archive
