import Riverhog.Upload.VolumeCheckpoint

/-!
# Mirroring an archive write into the retrieval cache

`MirroredArchiveResumableObjectStore` of
`riverhog_core.stores.mirrored_archive_resumable_object_store`. The archive store, the
cache and the object store that the cache gives out are arbitrary: each call answers as
it likes from its own state and may raise. A call of the mirror is a call on the pair of
states; an exception does not undo what happened before it.

A write token is kept as the document that `json.dumps` writes and `json.loads` reads
back. Its metadata is checked and never used, and left out.
-/

namespace Riverhog.Stores

open Core Upload

/-! ## Calls -/

/-- The exceptions: those that a store raises, and those of the mirror. -/
inductive Fault where
  | store (description : Text)
  | value (message : String)
  | runtime (message : String)
  deriving DecidableEq

/-- A call on something with a state: it returns or raises, and the state moves on either way. -/
def Call (s α : Type) := s → Except Fault α × s

namespace Call

variable {s σ τ α β : Type}

instance : Monad (Call s) where
  pure a := fun state => (.ok a, state)
  bind x f := fun state => match x state with
    | (.ok a, state) => f a state
    | (.error e, state) => (.error e, state)

/-- `raise`. -/
def raise (e : Fault) : Call s α := fun state => (.error e, state)

/-- The result of a call that may have raised, as a value: the body of a `try`. -/
def attempt (x : Call s α) : Call s (Except Fault α) := fun state => (.ok (x state).1, (x state).2)

/-- A result that was kept, delivered now. -/
def ofExcept (r : Except Fault α) : Call s α := fun state => (r, state)

/-- A call on the first of two states. -/
def onFirst (x : Call σ α) : Call (σ × τ) α := fun (a, c) => ((x a).1, (x a).2, c)

/-- A call on the second of two states. -/
def onSecond (x : Call τ α) : Call (σ × τ) α := fun (a, c) => ((x c).1, a, (x c).2)

theorem bind_apply (x : Call s α) (f : α → Call s β) (state : s) :
    (x >>= f) state = match x state with
      | (.ok a, state) => f a state
      | (.error e, state) => (.error e, state) := rfl

@[simp] theorem pure_apply (a : α) (state : s) : (pure a : Call s α) state = (.ok a, state) := rfl

@[simp] theorem raise_apply (e : Fault) (state : s) :
    (raise e : Call s α) state = (.error e, state) := rfl

@[simp] theorem attempt_apply (x : Call s α) (state : s) :
    attempt x state = (.ok (x state).1, (x state).2) := rfl

@[simp] theorem ofExcept_apply (r : Except Fault α) (state : s) :
    ofExcept r state = (r, state) := rfl

@[simp] theorem onFirst_apply (x : Call σ α) (a : σ) (c : τ) :
    onFirst x (a, c) = ((x a).1, (x a).2, c) := rfl

@[simp] theorem onSecond_apply (x : Call τ α) (a : σ) (c : τ) :
    onSecond x (a, c) = ((x c).1, a, (x c).2) := rfl

end Call

open Call

/-! ## Stores -/

/-- `WriteSession`. -/
structure WriteSession where
  objectPath : Text
  writeToken : Text
  expectedBytes : Int
  deriving DecidableEq

/-- The arguments of `begin_write`. -/
structure WriteRequest where
  objectPath : Text
  expectedBytes : Int
  contentType : Text
  metadata : List (Text × Text)
  deriving DecidableEq

/-- What a completed write is expected to be. -/
structure Expected where
  bytes : Int
  contentType : Text
  metadata : List (Text × Text)
  deriving DecidableEq

/-- The calls of a resumable object store whose sessions are values of `S`. -/
structure WriteService (s S : Type) where
  beginWrite : WriteRequest → Call s S
  writeSegment : S → Nat → Bytes → Call s WriteSegmentReceipt
  listSegments : S → Call s (List WriteSegmentReceipt)
  completeWrite : S → List WriteSegmentReceipt → Expected → Call s CompletedObjectReceipt
  findCompletedWrite : Text → Expected → Call s (Option CompletedObjectReceipt)
  abortWrite : S → Call s Unit

/-- `ArchiveResumableObjectStore`. -/
abbrev ObjectStore (s : Type) := WriteService s WriteSession

/-- `RetrievalCacheAdmission`. -/
structure CacheAdmission where
  owner : Text
  cacheStore : Text
  sourceStore : Text
  collectionId : Int
  objectId : Text
  objectPath : Text
  expectedBytes : Int
  writeToken : Option Text
  admittedAt : Text
  completed : Option RetrievalCacheReceipt
  deriving DecidableEq

/-- The calls of `RetrievalCache` that the mirror makes, for its own object and owner. -/
structure MirrorCache (τ : Type) where
  admitObject : Int → Call τ (Option CacheAdmission)
  release : Call τ Unit
  isCurrent : CacheAdmission → Call τ Bool
  resumableObjectStore : CacheAdmission → Call τ (ObjectStore τ)

/-! ## Write tokens -/

/-- The document in a write token of the mirror. -/
structure MirrorToken where
  contentType : Text
  archive : WriteSession
  cache : Option CacheAdmission
  deriving DecidableEq

/-- A `WriteSession` of the mirror. -/
structure MirrorSession where
  objectPath : Text
  writeToken : MirrorToken
  expectedBytes : Int
  deriving DecidableEq

/-- `parse_retrieval_cache_receipt` of a receipt that was written. -/
def validCacheReceipt (r : RetrievalCacheReceipt) : Bool :=
  !(r.cacheStore = [] || r.objectPath = [] || r.storedBytes < 1 ||
    r.storedSha256.any (fun digest => !isSha256 digest) || r.cachedAt = [] || r.verifiedAt = [])

/-- The checks of `_admission_from_payload` on an admission that was written. -/
def checkAdmission (a : CacheAdmission) : Except Fault Unit := do
  require (a.completed.all validCacheReceipt) (.value "retrieval cache receipt fields are invalid")
  require (!(a.owner = [] || a.cacheStore = [] || a.sourceStore = [] || a.objectId = [] ||
      a.objectPath = [] || a.admittedAt = [] || a.collectionId < 1 || a.expectedBytes < 1))
    (.value "archive-cache mirror cache admission is invalid")
  require (!(a.writeToken.isNone && a.completed.isNone))
    (.value "archive-cache mirror cache admission has no result or continuation")

/-- `_admission_from_payload`. -/
def checkCache : Option CacheAdmission → Except Fault Unit
  | none => .ok ()
  | some admission => checkAdmission admission

/-- `_decode_write_token`; the content type comes back without surrounding blanks. -/
def decodeWriteToken (session : MirrorSession) :
    Except Fault (WriteSession × Option CacheAdmission × Text) := do
  let token := session.writeToken
  let archive := token.archive
  require (!(archive.objectPath = [] || archive.writeToken = [] || archive.expectedBytes < 1))
    (.value "archive-cache mirror archive write identity is invalid")
  checkCache token.cache
  let contentType := strip token.contentType
  require (contentType ≠ []) (.value "archive-cache mirror content type is invalid")
  require (!(archive.objectPath ≠ session.objectPath ||
      archive.expectedBytes ≠ session.expectedBytes))
    (.value "archive-cache mirror object identity changed")
  require (token.cache.all fun admission => admission.expectedBytes = session.expectedBytes)
    (.value "archive-cache mirror admission identity changed")
  return (archive, token.cache, contentType)

/-- `_cache_session`, with the admission it is of. -/
def cacheSession (admission : Option CacheAdmission) : Option (CacheAdmission × WriteSession) := do
  let admission ← admission
  let writeToken ← admission.writeToken
  return (admission, ⟨admission.objectPath, writeToken, admission.expectedBytes⟩)

/-! ## The mirror -/

section Mirror

variable {σ τ : Type} (archive : ObjectStore σ) (cache : MirrorCache τ)

/-- `_release_optional_cache`. -/
def releaseOptionalCache : Call (σ × τ) Unit := do
  let _ ← attempt (onSecond cache.release)
  return ()

/-- `begin_write`. -/
def mirrorBegin (request : WriteRequest) : Call (σ × τ) MirrorSession := do
  let admission ← onSecond (cache.admitObject request.expectedBytes)
  let begun ← attempt (onFirst (archive.beginWrite request))
  match begun with
  | .error e =>
    releaseOptionalCache cache
    raise e
  | .ok archiveSession =>
    if admission.isNone then releaseOptionalCache cache else pure ()
    return ⟨request.objectPath, ⟨request.contentType, archiveSession, admission⟩,
      request.expectedBytes⟩

/-- The two writes of `write_segment`, which run side by side. -/
def mirrorBoth (archiveSession session : WriteSession) (cacheObjects : ObjectStore τ) (number : Nat)
    (content : Bytes) : Call (σ × τ) WriteSegmentReceipt := do
  let written ← attempt (onFirst (archive.writeSegment archiveSession number content))
  let mirrored ← attempt (onSecond (cacheObjects.writeSegment session number content))
  match mirrored with
  | .error _ =>
    releaseOptionalCache cache
    ofExcept written
  | .ok cacheReceipt =>
    let archiveReceipt ← ofExcept written
    if archiveReceipt.number ≠ cacheReceipt.number ∨ archiveReceipt.bytes ≠ cacheReceipt.bytes then
      releaseOptionalCache cache
      raise (.runtime "archive and retrieval cache segment receipts disagree")
    else return archiveReceipt

section

variable (session : MirrorSession)

/-- `write_segment`. -/
def mirrorSegment (number : Nat) (content : Bytes) :
    Call (σ × τ) WriteSegmentReceipt := do
  let (archiveSession, admission, _) ← ofExcept (decodeWriteToken session)
  match cacheSession admission with
  | none => onFirst (archive.writeSegment archiveSession number content)
  | some (admission, writing) =>
    let current ← onSecond (cache.isCurrent admission)
    if current then
      let cacheObjects ← onSecond (cache.resumableObjectStore admission)
      mirrorBoth archive cache archiveSession writing cacheObjects number content
    else onFirst (archive.writeSegment archiveSession number content)

/-- The last receipt of a number, as in a dictionary by number. -/
def lastOfNumber (segments : List WriteSegmentReceipt) (number : Nat) :
    Option WriteSegmentReceipt :=
  segments.reverse.find? fun current => current.number == number

/-- The archive segments that the cache has with the same size. -/
def alsoMirrored (segments cacheSegments : List WriteSegmentReceipt) : List WriteSegmentReceipt :=
  segments.filter fun current =>
    (lastOfNumber cacheSegments current.number).any fun mirrored => mirrored.bytes = current.bytes

/-- The body of the `try` of `list_segments`. -/
def cacheSegments (admission : CacheAdmission) (writing : WriteSession) :
    Call τ (List WriteSegmentReceipt) := do
  let cacheObjects ← cache.resumableObjectStore admission
  cacheObjects.listSegments writing

/-- `list_segments`. -/
def mirrorList : Call (σ × τ) (List WriteSegmentReceipt) := do
  let (archiveSession, admission, _) ← ofExcept (decodeWriteToken session)
  let archiveSegments ← onFirst (archive.listSegments archiveSession)
  match cacheSession admission with
  | none => return archiveSegments
  | some (admission, writing) =>
    let current ← onSecond (cache.isCurrent admission)
    if current then
      let listed ← attempt (onSecond (cacheSegments cache admission writing))
      match listed with
      | .error _ =>
        releaseOptionalCache cache
        return archiveSegments
      | .ok segments => return alsoMirrored archiveSegments segments
    else return archiveSegments

/-- The receipt of the cache for an object that it has completed. -/
def cacheReceiptOf (admission : CacheAdmission) (completed : CompletedObjectReceipt) :
    RetrievalCacheReceipt :=
  completed.retrievalCache.getD ⟨admission.cacheStore, completed.objectPath, completed.revision,
    completed.bytes, none, completed.completedAt, completed.completedAt⟩

/-- What the cache is asked for: the object as bytes without a type. -/
def cacheExpected (bytes : Int) : Expected := ⟨bytes, "application/octet-stream", []⟩

/-- The body of the `try` of `complete_write`. -/
def completeInCache (admission : CacheAdmission) (writing : WriteSession)
    (segments : List WriteSegmentReceipt) (bytes : Int) : Call τ RetrievalCacheReceipt := do
  let cacheObjects ← cache.resumableObjectStore admission
  let found ← cacheObjects.findCompletedWrite writing.objectPath (cacheExpected bytes)
  match found with
  | some completed => return cacheReceiptOf admission completed
  | none =>
    let listed ← cacheObjects.listSegments writing
    if segments.map (fun r => (r.number, r.bytes)) ≠ listed.map (fun r => (r.number, r.bytes)) then
      raise (.runtime "retrieval cache write segments do not match the archive write")
    else
      let completed ← cacheObjects.completeWrite writing listed (cacheExpected bytes)
      return cacheReceiptOf admission completed

/-- The admission whose write in the cache has to be completed as well. -/
def uncompleted (admission : Option CacheAdmission) : Option (CacheAdmission × WriteSession) :=
  (cacheSession admission).filter fun a => a.1.completed.isNone

/-- The part of `complete_write` before the archive is asked. -/
def completeMirrored (admission : Option CacheAdmission) (segments : List WriteSegmentReceipt)
    (bytes : Int) : Call (σ × τ) (Option RetrievalCacheReceipt) :=
  match uncompleted admission with
  | none => return admission.bind CacheAdmission.completed
  | some (admission, writing) => do
    let current ← onSecond (cache.isCurrent admission)
    if current then
      let completed ← attempt (onSecond (completeInCache cache admission writing segments bytes))
      match completed with
      | .error _ =>
        releaseOptionalCache cache
        return none
      | .ok receipt => return some receipt
    else return none

/-- `complete_write`. -/
def mirrorComplete (segments : List WriteSegmentReceipt)
    (expected : Expected) : Call (σ × τ) CompletedObjectReceipt := do
  let (archiveSession, admission, contentType) ← ofExcept (decodeWriteToken session)
  if expected.bytes ≠ session.expectedBytes then
    raise (.value "archive-cache mirror byte identity changed")
  else if contentType ≠ expected.contentType then
    raise (.value "archive-cache mirror content type changed")
  else
    let receipt ← completeMirrored cache admission segments expected.bytes
    let completed ← onFirst (archive.completeWrite archiveSession segments expected)
    if admission.isSome && receipt.isNone then releaseOptionalCache cache else pure ()
    return { completed with retrievalCache := receipt }

/-- The receipt that `find_completed_write` asks an admission for. -/
def foundInCache (admission : CacheAdmission) (bytes : Int) :
    Call τ (Option RetrievalCacheReceipt) :=
  match uncompleted (some admission) with
  | none => return admission.completed
  | some (admission, writing) => do
    let cacheObjects ← cache.resumableObjectStore admission
    let found ← cacheObjects.findCompletedWrite writing.objectPath (cacheExpected bytes)
    return found.map (cacheReceiptOf admission)

/-- `find_completed_write`. -/
def mirrorFind (objectPath : Text) (expected : Expected) :
    Call (σ × τ) (Option CompletedObjectReceipt) := do
  let found ← onFirst (archive.findCompletedWrite objectPath expected)
  match found with
  | none => return none
  | some completed =>
    let admission ← onSecond (cache.admitObject expected.bytes)
    match admission with
    | none =>
      onSecond cache.release
      return some completed
    | some admission =>
      let receipt ← onSecond (foundInCache cache admission expected.bytes)
      match receipt with
      | none =>
        releaseOptionalCache cache
        return some completed
      | some receipt => return some { completed with retrievalCache := some receipt }

/-- `abort_write`. -/
def mirrorAbort : Call (σ × τ) Unit := do
  let (archiveSession, _, _) ← ofExcept (decodeWriteToken session)
  let aborted ← attempt (onFirst (archive.abortWrite archiveSession))
  releaseOptionalCache cache
  ofExcept aborted

end

/-- `MirroredArchiveResumableObjectStore`. -/
def mirror : WriteService (σ × τ) MirrorSession where
  beginWrite := mirrorBegin archive cache
  writeSegment := mirrorSegment archive cache
  listSegments := mirrorList archive cache
  completeWrite := mirrorComplete archive cache
  findCompletedWrite := mirrorFind archive cache
  abortWrite := mirrorAbort archive cache

end Mirror

end Riverhog.Stores
