import Riverhog.Core.FileTree
import Riverhog.Core.Json
import Riverhog.Core.Sha256
import Riverhog.Protocol.Paths

/-!
# Checks of the recovery program

The exceptions of `riverhog_recover.recovery` and its small checks: canonical paths,
required integers and digests.
-/

namespace Riverhog.Recovery

open Core Protocol

/-- The exceptions that a recovery step raises. -/
inductive Failure where
  /-- `RecoveryError`. -/
  | recoveryError (message : String)
  /-- `OSError`. -/
  | osError (e : OsError)
  /-- `ValueError`: a NUL in a path, or a document that is not JSON. -/
  | valueError
  /-- `KeyError`. -/
  | keyError
  /-- `tarfile.TarError`. -/
  | tarError
  /-- A value that the model leaves out. -/
  | unmodelled
  deriving DecidableEq

/-- A recovery step. -/
abbrev Rec := Except Failure

/-- `str(PurePosixPath(value))` of a relative path. -/
def purePathText (value : Text) : Text :=
  if pathParts value = [] then ['.'] else joinWith '/' (pathParts value)

/-- `_normalize_relpath`. -/
def normalizeRelpath (value : Text) : Rec Text := do
  require (!(value.isEmpty || value.contains '\\'))
    (.recoveryError "archive path is empty or contains a backslash")
  let invalidPart := (pathParts value).any fun part => part == [] || part == ['.'] || part == ['.', '.']
  require (!(isAbsolute value || purePathText value != value || invalidPart)) (.recoveryError
    ("archive path is not a canonical relative path: " ++ String.ofList value))
  return value

/-- `_required_nonnegative_int`. -/
def requiredNonnegativeInt (members : List (Text × Json)) (key : Text) : Rec Nat :=
  match Json.lookup members key with
  | some (.int n) =>
    if n < 0 then .error (.recoveryError (String.ofList key ++ " must be a non-negative integer"))
    else .ok n.toNat
  | _ => .error (.recoveryError (String.ofList key ++ " must be a non-negative integer"))

/-- `_required_sha256`. -/
def requiredSha256 (members : List (Text × Json)) (key : Text) : Rec Text :=
  match Json.lookup members key with
  | some (.str t) =>
    if isSha256 t then .ok t
    else .error (.recoveryError (String.ofList key ++ " is not a sha256 digest"))
  | _ => .error (.recoveryError (String.ofList key ++ " is not a sha256 digest"))

/-- A canonical relative path has the components that it is split into. -/
theorem pathParts_of_isRelpath {path : Text} {parts : List Text} (h : IsRelpath path parts) :
    pathParts path = parts := by
  rw [pathParts, h.splitOn_eq, List.filter_eq_self]
  intro part hpart
  have hc := h.component part hpart
  simp [hc.nonempty, hc.not_dot]

/-- Every path that the server accepts passes the recovery program's own check. -/
theorem normalizeRelpath_of_isRelpath {path : Text} {parts : List Text}
    (h : IsRelpath path parts) : normalizeRelpath path = .ok path := by
  obtain ⟨c, tail, hp, hc⟩ := h.head_ne_slash
  have hempty : (!(path.isEmpty || path.contains '\\')) = true := by
    have hb := h.no_backslash
    rw [hp] at hb ⊢
    simpa using hb
  have habs : isAbsolute path = false := by
    rw [isAbsolute, hp]
    simpa using hc
  have htext : purePathText path = path := by
    rw [purePathText, pathParts_of_isRelpath h, if_neg h.nonempty, ← h.join]
  have hparts : ((pathParts path).any fun part => part == [] || part == ['.'] || part == ['.', '.']) =
      false := by
    rw [pathParts_of_isRelpath h, List.any_eq_false]
    intro part hpart
    have hcomp := h.component part hpart
    simp [hcomp.nonempty, hcomp.not_dot, hcomp.not_dotdot]
  rw [normalizeRelpath, hempty, require_true, ok_bind]
  dsimp only
  rw [habs, htext, hparts, bne_self_eq_false]
  rfl

end Riverhog.Recovery
