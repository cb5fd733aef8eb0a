import Riverhog.Core.Table
import Riverhog.Upload.VolumeCheckpoint

/-!
# The store of upload checkpoints

`riverhog_core.stores.sqlalchemy_archive_upload_checkpoints` over the rows of volumes and
uploads, with the two callers that delete checkpoints: `discard_orphan` and `cancel` of
`riverhog_core.services.collection_uploads`. Each transaction takes its row lock, so it is
one step; a discard or a cancellation is a task that takes many, with other work between.
-/

namespace Riverhog.Upload

open Core

/-! ## Rows -/

/-- The columns `kind` and `checkpoint_json` of a volume. -/
inductive Progress where
  | pack (checkpoint : Option (Checkpoint PackIdentity))
  | segment (checkpoint : Option (Checkpoint RawIdentity))
  deriving DecidableEq

/-- The plaintext bytes of the parts. -/
def plaintextBytesOf (parts : List StoredArchivePart) : Nat :=
  (parts.map StoredArchivePart.plaintextBytes).sum

/-- The plaintext bytes of the parts recorded in a stored checkpoint. -/
def payloadBytes {ι : Type} : Option (Checkpoint ι) → Nat
  | none => 0
  | some c => plaintextBytesOf c.archiveParts

/-- The plaintext bytes recorded for a volume. -/
def Progress.payloadBytes : Progress → Nat
  | .pack c => Upload.payloadBytes c
  | .segment c => Upload.payloadBytes c

/-- What the store needs to know of a kind of volumes. -/
structure VolumeKind (ι : Type) where
  family : Family ι
  collectionId : ι → Nat
  volumeId : ι → Text
  put : Option (Checkpoint ι) → Progress
  /-- The stored checkpoint, for a volume of this kind. -/
  get : Progress → Option (Option (Checkpoint ι))
  get_eq_some : ∀ {p c}, get p = some c ↔ p = put c
  payloadBytes_put : ∀ c, (put c).payloadBytes = Upload.payloadBytes c

/-- Volumes of kind `pack`. -/
def packKind : VolumeKind PackIdentity where
  family := packFamily
  collectionId := PackIdentity.collectionId
  volumeId := PackIdentity.volumeId
  put := .pack
  get
    | .pack c => some c
    | .segment _ => none
  get_eq_some := by
    intro p c
    cases p <;> simp
  payloadBytes_put _ := rfl

/-- Volumes of kind `segment`. -/
def segmentKind : VolumeKind RawIdentity where
  family := rawFamily
  collectionId := RawIdentity.collectionId
  volumeId := RawIdentity.volumeId
  put := .segment
  get
    | .pack _ => none
    | .segment c => some c
  get_eq_some := by
    intro p c
    cases p <;> simp
  payloadBytes_put _ := rfl

/-- The states of a volume. -/
inductive VolumeState where
  | planned | uploading | sealed
  deriving DecidableEq

/-- `CollectionArchiveObjectUploadRecord`. -/
structure VolumeRow where
  collectionId : Nat
  objectId : Text
  progress : Progress
  totalUnits : Nat
  uploadedBytes : Nat
  uploadedUnits : Nat
  state : VolumeState
  deriving DecidableEq

/-- The primary key of a volume. -/
def VolumeRow.key (v : VolumeRow) : Nat × Text := (v.collectionId, v.objectId)

/-- The states of a collection upload. -/
inductive UploadState where
  | opened | closing | uploading | finalizing | orphaned | discarding
  deriving DecidableEq

/-- `CollectionUploadRecord`; the counter is never negative by a constraint. -/
structure UploadRow where
  collectionId : Nat
  state : UploadState
  uploadedPayloadBytes : Nat
  deriving DecidableEq

/-- The rows of uploads and of their volumes. -/
structure UploadDb where
  volumes : Table VolumeRow.key
  uploads : Table UploadRow.collectionId

/-- The exceptions of the store. -/
inductive StoreError where
  | python (error : PyError)
  | lookup (message : Text)
  /-- A constraint of the database. -/
  | integrity
  deriving DecidableEq

/-- What a function raises is raised in the transaction. -/
def raising {α : Type} : Py α → Except StoreError α
  | .ok a => .ok a
  | .error e => .error (.python e)

@[simp] theorem raising_eq_ok {α : Type} {x : Py α} {a : α} : raising x = .ok a ↔ x = .ok a := by
  cases x <;> simp [raising]

@[simp] theorem raising_ok {α : Type} (a : α) : raising (.ok a : Py α) = .ok a := rfl

/-! ## Transactions -/

/-- Write the columns of a volume's row. -/
def UploadDb.setVolume (db : UploadDb) (row : VolumeRow) : UploadDb :=
  { db with
    volumes := db.volumes.update row.key
      (fun v => { row with collectionId := v.collectionId, objectId := v.objectId }) fun _ => rfl }

section

variable {ι : Type} (k : VolumeKind ι)

/-- The row of a volume of this kind, with its checkpoint. -/
def UploadDb.volume (db : UploadDb) (collectionId : Nat) (volumeId : Text) :
    Option (VolumeRow × Option (Checkpoint ι)) := do
  let row ← db.volumes.get (collectionId, volumeId)
  let checkpoint ← k.get row.progress
  some (row, checkpoint)

/-- `_load`. -/
def UploadDb.load (db : UploadDb) (collectionId : Nat) (volumeId : Text) :
    Option (Checkpoint ι) := do
  let (_, checkpoint) ← db.volume k collectionId volumeId
  checkpoint

/-- A row with its merged checkpoint. -/
def VolumeRow.saved (row : VolumeRow) (merged : Checkpoint ι) : VolumeRow :=
  { row with
    progress := k.put (some merged)
    uploadedBytes := storedBytesOf merged.archiveParts
    uploadedUnits := merged.archiveParts.length
    state := if merged.completed.isSome then .sealed else .uploading }

/-- A row without its checkpoint. -/
def VolumeRow.cleared (row : VolumeRow) : VolumeRow :=
  { row with progress := k.put none, uploadedBytes := 0, uploadedUnits := 0, state := .planned }

/-- `upload.uploaded_payload_bytes += merged - previous`, where there is an upload. -/
def UploadDb.addPayload (db : UploadDb) (collectionId previous merged : Nat) :
    Except StoreError UploadDb :=
  match db.uploads.get collectionId with
  | none => .ok db
  | some upload => do
    require (previous ≤ upload.uploadedPayloadBytes + merged) .integrity
    .ok { db with
      uploads := db.uploads.update collectionId
        (fun u => { u with uploadedPayloadBytes := u.uploadedPayloadBytes + merged - previous })
        fun _ => rfl }

/-- A stored checkpoint is read with `from_json`. -/
def requireStored : Option (Checkpoint ι) → Py Unit
  | none => .ok ()
  | some previous => validate k.family previous

/-- `_merge`. -/
def UploadDb.merge [DecidableEq ι] (db : UploadDb) (collectionId : Nat) (volumeId : Text)
    (incoming : Checkpoint ι) : Except StoreError (UploadDb × Checkpoint ι) := do
  raising (validate k.family incoming)
  match db.volume k collectionId volumeId with
  | none => .error (.lookup ("archive upload volume not found: " ++ volumeId))
  | some (row, previous) => do
    raising (requireStored k previous)
    let merged ← raising (mergeCheckpoints k.family (previous.getD incoming) incoming)
    require (merged.archiveParts.length ≤ row.totalUnits) .integrity
    let saved ← (db.setVolume (row.saved k merged)).addPayload collectionId
      (payloadBytes previous) (plaintextBytesOf merged.archiveParts)
    .ok (saved, merged)

/-- `_delete`. -/
def UploadDb.delete (db : UploadDb) (collectionId : Nat) (volumeId : Text) : UploadDb :=
  match db.volume k collectionId volumeId with
  | none => db
  | some (row, _) => db.setVolume (row.cleared k)

/-- `abort`, once the remote write is aborted. -/
def UploadDb.abort (db : UploadDb) (c : Checkpoint ι) : UploadDb :=
  if c.completed.isNone then db.delete k (k.collectionId c.identity) (k.volumeId c.identity)
  else db

end

/-! ## Discarding and canceling -/

section

variable (db : UploadDb)

/-- Abort the write of a captured checkpoint. -/
def UploadDb.abortCaptured : Progress → UploadDb
  | .pack (some c) => db.abort packKind c
  | .segment (some c) => db.abort segmentKind c
  | _ => db

/-- A call of `discard_orphan` or `cancel` with the checkpoints it has captured. -/
structure Removal where
  canceling : Bool
  collectionId : Nat
  remaining : List Progress

/-- The volume has a checkpoint. -/
def Progress.isStored : Progress → Bool
  | .pack c => c.isSome
  | .segment c => c.isSome

/-- The checkpoints of an upload's volumes. -/
def UploadDb.captured (collectionId : Nat) : List Progress :=
  ((db.volumes.rows.filter fun v => v.collectionId = collectionId).map
    VolumeRow.progress).filter Progress.isStored

/-- Change the state of an upload. -/
def UploadDb.setState (collectionId : Nat) (state : UploadState) : UploadDb :=
  { db with uploads := db.uploads.update collectionId (fun u => { u with state }) fun _ => rfl }

/-- The first transaction of `discard_orphan`, for a plan that is not blocked. -/
def UploadDb.beginDiscard (collectionId : Nat) : UploadDb × Option Removal :=
  match db.uploads.get collectionId with
  | none => (db, none)
  | some upload =>
    if upload.state = .orphaned then
      (db.setState collectionId .discarding, some ⟨false, collectionId, db.captured collectionId⟩)
    else (db, none)

/-- The first transaction of `cancel`. -/
def UploadDb.beginCancel (collectionId : Nat) : Option Removal :=
  match db.uploads.get collectionId with
  | none => none
  | some _ =>
    if db.volumes.rows.any fun v => v.collectionId = collectionId && v.state = .sealed then none
    else some ⟨true, collectionId, db.captured collectionId⟩

/-- Delete an upload with its volumes. -/
def UploadDb.deleteUpload (collectionId : Nat) : UploadDb :=
  { volumes := db.volumes.deleteWhere fun v => v.collectionId = collectionId
    uploads := db.uploads.delete collectionId }

/-- Where an exception leaves the upload. -/
def UploadDb.failRemoval (r : Removal) : UploadDb :=
  match db.uploads.get r.collectionId with
  | none => db
  | some upload =>
    if !r.canceling && upload.state = .discarding then db.setState r.collectionId .orphaned else db

/-- The last transaction. -/
def UploadDb.finishRemoval (r : Removal) : UploadDb :=
  match db.uploads.get r.collectionId with
  | none => db
  | some upload =>
    -- A discard raises where the state has changed meanwhile.
    if r.canceling || upload.state = .discarding then db.deleteUpload r.collectionId else db

end

/-- One turn: the next captured checkpoint, or the end. `done` is whether the stores did
what they were asked to do. -/
def Removal.advance (r : Removal) (db : UploadDb) (done : Bool) : UploadDb × Option Removal :=
  if done then
    match r.remaining with
    | [] => (db.finishRemoval r, none)
    | p :: remaining => (db.abortCaptured p, some { r with remaining })
  else (db.failRemoval r, none)

/-! ## Runs -/

/-- The database and the removals under way. -/
structure UploadWorld where
  db : UploadDb
  removals : List Removal

/-- What can happen. -/
inductive UploadEvent where
  /-- A volume is planned. -/
  | plan (row : VolumeRow)
  | mergePack (collectionId : Nat) (volumeId : Text) (checkpoint : Checkpoint PackIdentity)
  | mergeRaw (collectionId : Nat) (volumeId : Text) (checkpoint : Checkpoint RawIdentity)
  | deletePack (collectionId : Nat) (volumeId : Text)
  | deleteRaw (collectionId : Nat) (volumeId : Text)
  | discard (collectionId : Nat)
  | cancel (collectionId : Nat)
  /-- Another service moves the upload to a state. -/
  | move (collectionId : Nat) (state : UploadState)
  | turn (removal : Nat) (done : Bool)

/-- A transaction whose exception changes nothing. -/
def UploadDb.transact {α : Type} (db : UploadDb) : Except StoreError (UploadDb × α) → UploadDb
  | .error _ => db
  | .ok (saved, _) => saved

/-- A volume as it is planned, without a checkpoint. -/
def VolumeRow.asPlanned (row : VolumeRow) : VolumeRow :=
  match row.progress with
  | .pack _ => row.cleared packKind
  | .segment _ => row.cleared segmentKind

/-- One event. -/
def UploadWorld.step (w : UploadWorld) : UploadEvent → UploadWorld
  | .plan row =>
    match w.db.volumes.insert row.asPlanned with
    | none => w
    | some volumes => { w with db := { w.db with volumes } }
  | .mergePack collectionId volumeId c =>
    { w with db := w.db.transact (w.db.merge packKind collectionId volumeId c) }
  | .mergeRaw collectionId volumeId c =>
    { w with db := w.db.transact (w.db.merge segmentKind collectionId volumeId c) }
  | .deletePack collectionId volumeId => { w with db := w.db.delete packKind collectionId volumeId }
  | .deleteRaw collectionId volumeId => { w with db := w.db.delete segmentKind collectionId volumeId }
  | .discard collectionId =>
    let (db, removal) := w.db.beginDiscard collectionId
    { db, removals := w.removals ++ removal.toList }
  | .cancel collectionId =>
    { w with removals := w.removals ++ (w.db.beginCancel collectionId).toList }
  | .move collectionId state => { w with db := w.db.setState collectionId state }
  | .turn i done =>
    match w.removals[i]? with
    | none => w
    | some r =>
      let (db, next) := r.advance w.db done
      { db, removals := match next with
          | none => w.removals.eraseIdx i
          | some r => w.removals.set i r }

end Riverhog.Upload
