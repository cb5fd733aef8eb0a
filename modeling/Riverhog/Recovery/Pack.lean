import Riverhog.Recovery.PackIndex
import Riverhog.Recovery.ReadPack

/-!
# Recovering a pack

`_recover_pack` of `riverhog_recover.recovery`: list the members of the archive,
read the index, compare the two, and write every file into the staging directory.
Writing is the only part that can refuse a pack that the server rendered: a path may
be a leading part of another path, and then one of them must be a directory.
-/

namespace Riverhog.Recovery

open Core Pack Protocol

/-- The directory that files are recovered into. -/
abbrev Staging := FileTree Text Bytes

/-- Raise the exception of a system call. -/
def osCall {α : Type} : Except OsError α → Rec α
  | .ok a => .ok a
  | .error e => .error (.osError e)

/-- `TarInfo.isfile`. -/
def isfile (info : Tarfile.TarInfo) : Bool := [48, 0, 55, 83].contains info.type

/-- The text of a member's name; a name that is not UTF-8 would hold surrogate escapes. -/
def memberName (info : Tarfile.TarInfo) : Rec Text :=
  match decodeUtf8 info.name with
  | some name => .ok name
  | none => .error .unmodelled

/-- The loop that builds `by_name`. -/
def membersByName : List Tarfile.TarInfo → List (Text × Tarfile.TarInfo) →
    Rec (List (Text × Tarfile.TarInfo))
  | [], byName => .ok byName
  | member :: rest, byName => do
    let text ← memberName member
    let name ← normalizeRelpath text
    require (!byName.any (·.1 == name)) (.recoveryError
      ("pack contains a duplicate member: " ++ String.ofList name))
    membersByName rest (byName ++ [(name, member)])

/-- `by_name.get(name)`. -/
def lookupName (byName : List (Text × Tarfile.TarInfo)) (name : Text) : Option Tarfile.TarInfo :=
  (byName.find? (·.1 == name)).map Prod.snd

/-- `archive.extractfile(info).read()`. -/
def extract (archive : Bytes) (info : Tarfile.TarInfo) : Rec Bytes :=
  let data := slice archive info.offsetData info.size.toNat
  if (data.length : Int) = info.size then .ok data else .error .tarError

/-- The full match of `_PADDING_PATH_RE`. -/
def isPaddingPath (name : Text) : Bool :=
  let rest := name.drop ".riverhog/padding/pack-".toList.length
  ".riverhog/padding/pack-".toList.isPrefixOf name && isSha256 (rest.take 64) &&
    rest[64]? == some '-' && (rest.drop 65).length == 6 && (rest.drop 65).all Char.isDigit

/-- `_verify_padding_member`. -/
def verifyPaddingMember (archive : Bytes) (info : Tarfile.TarInfo) (name : Text) : Rec Unit := do
  require (isPaddingPath name && isfile info && decide (info.size < 64 * 1024))
    (.recoveryError ("pack padding member is invalid: " ++ String.ofList name))
  let data ← extract archive info
  require (data.all (· == 0))
    (.recoveryError ("pack padding member is not zero-filled: " ++ String.ofList name))

/-- The loop over the padding members. -/
def verifyPaddingMembers (archive : Bytes) (byName : List (Text × Tarfile.TarInfo)) :
    List Text → Rec Unit
  | [] => .ok ()
  | name :: names =>
    match lookupName byName name with
    | none => .error .keyError
    | some info => do
      verifyPaddingMember archive info name
      verifyPaddingMembers archive byName names

/-- `_verify_file`, as a condition. -/
def fileVerifies (staging : Staging) (destination : List Text) (expected : ArchiveFile) : Bool :=
  match staging.node destination with
  | some (.file content) => content.length == expected.bytes && sha256Hex content == expected.sha256
  | _ => false

/-- What is done about a destination that exists: nothing is left to do, or it is removed. -/
def clearDestination (staging : Staging) (destination : List Text) (current : ArchiveFile)
    (prior : Option Nat) (sequence : Nat) : Rec (Option Staging) :=
  -- a path with a NUL does not exist for `exists`
  if !current.path.contains '\x00' && staging.pathExists destination then do
    require (prior.all (· == sequence)) (.recoveryError
      ("archive repeats a logical file: " ++ String.ofList current.path))
    if fileVerifies staging destination current then return none
    else
      let staging ← osCall (staging.unlink destination)
      return some staging
  else return some staging

/-- Write a file that is not there yet. -/
def writeDestination (staging : Staging) (destination : List Text) (current : ArchiveFile)
    (read : Rec Bytes) : Rec Staging := do
  require (!destination.dropLast.any (·.contains '\x00')) .valueError
  let staging ← osCall (staging.makeDirs destination.dropLast)
  require (!current.path.contains '\x00') .valueError
  let staging ← osCall (staging.create destination (.file []))
  let content ← read
  let staging := staging.write destination content
  require (content.length == current.bytes && sha256Hex content == current.sha256) (.recoveryError
    ("pack member verification failed: " ++ String.ofList current.path))
  return staging

/-- One turn of the loop over the files of the index. -/
def recoverFile (archive : Bytes) (byName : List (Text × Tarfile.TarInfo)) (sequence : Nat)
    (recorded : Text → Option Nat) (current : PackFileIdentity) (staging : Staging) :
    Rec Staging :=
  match lookupName byName current.path with
  | none => .error .keyError
  | some info => do
    require (isfile info && info.size == current.bytes && info.offset == current.headerOffset &&
        info.offsetData == current.dataOffset)
      (.recoveryError ("pack member identity mismatch: " ++ String.ofList current.path))
    let file : ArchiveFile := ⟨current.path, current.bytes, current.sha256⟩
    let relative ← normalizeRelpath current.path
    let destination := pathParts relative
    match ← clearDestination staging destination file (recorded current.path) sequence with
    | none => return staging
    | some staging => writeDestination staging destination file (extract archive info)

/-- The loop over the files of the index. -/
def recoverFiles (archive : Bytes) (byName : List (Text × Tarfile.TarInfo)) (sequence : Nat)
    (recorded : Text → Option Nat) : List PackFileIdentity → Staging → Rec Staging
  | [], staging => .ok staging
  | current :: rest, staging => do
    let staging ← recoverFile archive byName sequence recorded current staging
    recoverFiles archive byName sequence recorded rest staging

/-- The exceptions of `tarfile.open` and `getmembers`. -/
def tarCall {α : Type} : Except Tarfile.ReadError α → Rec α
  | .ok a => .ok a
  | .error .readError => .error .tarError
  | .error .unmodelled => .error .unmodelled

/-- The names that need not stand in the index. -/
def isReservedName (name : Text) : Bool := name == packIndexPath || packPaddingPrefix.isPrefixOf name

/-- `_recover_pack`; `recorded` is the volume that the state database names for a path. -/
def recoverPack (plaintext : Bytes) (volume : PackArchiveVolume) (recorded : Text → Option Nat)
    (staging : Staging) : Rec (List ArchiveFile × Staging) := do
  let members ← tarCall (Tarfile.getmembers plaintext)
  let byName ← membersByName members []
  match lookupName byName packIndexPath, members.getLast? with
  | some indexInfo, some last => do
    let lastName ← memberName last
    require (isfile indexInfo && lastName == packIndexPath)
      (.recoveryError "pack index member is missing or not final")
    let indexBytes ← extract plaintext indexInfo
    require (sha256Hex indexBytes == volume.indexSha256) (.recoveryError "pack index sha256 mismatch")
    let files ← parsePackIndex indexBytes volume
    require ((byName.all fun e => files.any (·.path == e.1) || isReservedName e.1) &&
        files.all fun f => byName.any (·.1 == f.path))
      (.recoveryError "pack members do not exactly match its index")
    let reserved := (byName.map Prod.fst).filter fun name => isReservedName name && name != packIndexPath
    verifyPaddingMembers plaintext byName (sortedBy id reserved)
    let staging ← recoverFiles plaintext byName volume.sequence recorded files staging
    return (files.map fun f => ⟨f.path, f.bytes, f.sha256⟩, staging)
  | _, _ => .error (.recoveryError "pack index member is missing or not final")

end Riverhog.Recovery
