import Riverhog.Upload.CheckpointSaves

/-!
# The counter of uploaded payload

`uploaded_payload_bytes` of an upload against the parts recorded in the checkpoints of its
volumes. A merge adds to the counter what it adds to the checkpoint. Deleting a checkpoint
leaves the counter as it is, so the two agree afterwards only if nothing was recorded.
-/

namespace Riverhog.Upload

open Core Table List

namespace UploadDb

/-- The payload recorded in the stored checkpoints of an upload's volumes. -/
def recordedBytes (db : UploadDb) (collectionId : Nat) : Nat :=
  db.volumes.sumWhere (fun v => v.collectionId = collectionId) fun v => v.progress.payloadBytes

/-- Every upload counts what its volumes have recorded. -/
def Exact (db : UploadDb) : Prop :=
  ∀ u ∈ db.uploads.rows, u.uploadedPayloadBytes = db.recordedBytes u.collectionId

instance (db : UploadDb) : Decidable db.Exact :=
  inferInstanceAs (Decidable (∀ u ∈ db.uploads.rows, _))

variable {ι : Type} {k : VolumeKind ι} {db db' : UploadDb} {collectionId : Nat} {volumeId : Text}

/-! ## Rows of volumes -/

/-- Writing a row moves the sum of its upload by the difference, and no other. -/
theorem recordedBytes_setVolume {old row : VolumeRow} (h : db.volumes.get row.key = some old)
    (collectionId : Nat) : (db.setVolume row).recordedBytes collectionId +
        (if row.collectionId = collectionId then old.progress.payloadBytes else 0) =
      db.recordedBytes collectionId +
        (if row.collectionId = collectionId then row.progress.payloadBytes else 0) := by
  have hkey : old.key = row.key := (get_eq_some_iff.1 h).2
  rw [VolumeRow.key, VolumeRow.key, Prod.mk.injEq] at hkey
  have hsum := sum_update h
    (fun v : VolumeRow => { row with collectionId := v.collectionId, objectId := v.objectId })
    (fun _ => rfl)
    fun v => if decide (v.collectionId = collectionId) then v.progress.payloadBytes else 0
  simpa [recordedBytes, sumWhere, setVolume, hkey.1] using hsum

/-- The same volumes and the same counters. -/
theorem Exact.of_counters (h : db.Exact) (hvolumes : db'.volumes = db.volumes)
    (huploads : ∀ u' ∈ db'.uploads.rows, ∃ u ∈ db.uploads.rows,
      u'.collectionId = u.collectionId ∧ u'.uploadedPayloadBytes = u.uploadedPayloadBytes) :
    db'.Exact := by
  intro u' hu'
  obtain ⟨u, hu, hid, hbytes⟩ := huploads u' hu'
  rw [hbytes, hid, h u hu, recordedBytes, recordedBytes, hvolumes]

/-- The state of an upload is not part of its accounts. -/
theorem Exact.setState (h : db.Exact) (collectionId : Nat) (state : UploadState) :
    (db.setState collectionId state).Exact := by
  refine h.of_counters rfl fun u' hu' => ?_
  obtain ⟨u, hu, rfl⟩ := mem_map.1 hu'
  refine ⟨u, hu, ?_⟩
  split
  · exact ⟨rfl, rfl⟩
  · exact ⟨rfl, rfl⟩

/-- A planned volume has recorded nothing. -/
theorem Exact.insert {row : VolumeRow} {volumes : Table VolumeRow.key} (h : db.Exact)
    (hinsert : db.volumes.insert row.asPlanned = some volumes) :
    UploadDb.Exact { db with volumes } := by
  have hzero : row.asPlanned.progress.payloadBytes = 0 := by
    rw [VolumeRow.asPlanned]
    split
    · exact packKind.payloadBytes_put none
    · exact segmentKind.payloadBytes_put none
  intro u hu
  rw [h u hu, recordedBytes, recordedBytes, sumWhere, sumWhere, sum_insert hinsert]
  simp [hzero]

/-- An upload goes with its volumes. -/
theorem Exact.deleteUpload (h : db.Exact) (collectionId : Nat) :
    (db.deleteUpload collectionId).Exact := by
  intro u hu
  obtain ⟨hu, hne⟩ := mem_delete.1 hu
  rw [h u hu, recordedBytes, recordedBytes, sumWhere_eq_sum_filter, sumWhere_eq_sum_filter]
  have hrows : (db.deleteUpload collectionId).volumes.rows.filter
        (fun v => v.collectionId = u.collectionId) =
      db.volumes.rows.filter fun v => v.collectionId = u.collectionId := by
    simp only [UploadDb.deleteUpload, deleteWhere, filter_filter]
    refine filter_congr fun v _ => ?_
    by_cases hv : v.collectionId = u.collectionId <;> simp [hv, hne]
  rw [hrows]

/-! ## Merges -/

/-- Counting what was added to one upload. -/
theorem exact_addPayload {collectionId previous merged : Nat}
    (hother : ∀ u ∈ db.uploads.rows, u.collectionId ≠ collectionId →
      u.uploadedPayloadBytes = db.recordedBytes u.collectionId)
    (hown : ∀ u ∈ db.uploads.rows, u.collectionId = collectionId →
      u.uploadedPayloadBytes + merged = db.recordedBytes collectionId + previous)
    (h : db.addPayload collectionId previous merged = .ok db') : db'.Exact := by
  rw [addPayload] at h
  split at h
  · rename_i hnone
    cases h
    intro u hu
    refine hother u hu fun hid => get_eq_none_iff.1 hnone ?_
    exact mem_map.2 ⟨u, hu, hid⟩
  · obtain ⟨_, -, h⟩ := bind_eq_ok.1 h
    cases h
    intro u' hu'
    obtain ⟨u, hu, rfl⟩ := mem_map.1 hu'
    by_cases hid : u.collectionId = collectionId
    · have hsum := hown u hu hid
      rw [if_pos hid]
      change u.uploadedPayloadBytes + merged - previous = db.recordedBytes u.collectionId
      rw [hsum, hid, Nat.add_sub_cancel]
    · rw [if_neg hid]
      exact hother u hu hid

/-- A merge adds to the counter what it adds to the checkpoint. -/
theorem Exact.merge [DecidableEq ι] {c m : Checkpoint ι} (h : db.Exact)
    (hmerge : db.merge k collectionId volumeId c = .ok (db', m)) : db'.Exact := by
  obtain ⟨_, -, hmerge⟩ := bind_eq_ok.1 hmerge
  split at hmerge
  · cases hmerge
  rename_i row previous hrow
  obtain ⟨_, -, hmerge⟩ := bind_eq_ok.1 hmerge
  obtain ⟨merged, -, hmerge⟩ := bind_eq_ok.1 hmerge
  obtain ⟨_, -, hmerge⟩ := bind_eq_ok.1 hmerge
  obtain ⟨saved, hadd, hmerge⟩ := bind_eq_ok.1 hmerge
  cases hmerge
  obtain ⟨hget, hprogress⟩ := volume_eq_some.1 hrow
  have hkey : (row.saved k m).key = (collectionId, volumeId) := (get_eq_some_iff.1 hget).2
  have hid : row.collectionId = collectionId := congrArg Prod.fst hkey
  have hold : row.progress.payloadBytes = payloadBytes previous := by
    rw [hprogress, k.payloadBytes_put]
  have hnew : (row.saved k m).progress.payloadBytes = plaintextBytesOf m.archiveParts :=
    k.payloadBytes_put (some m)
  have hget' : db.volumes.get (row.saved k m).key = some row := hkey ▸ hget
  have hmoved := recordedBytes_setVolume hget'
  have hrowId : (row.saved k m).collectionId = collectionId := hid
  rw [hrowId, hold, hnew] at hmoved
  refine exact_addPayload (fun u hu hne => ?_) (fun u hu heq => ?_) hadd
  · have hmoved := hmoved u.collectionId
    rw [if_neg hne.symm, if_neg hne.symm] at hmoved
    exact (h u hu).trans hmoved.symm
  · have hmoved := hmoved collectionId
    rw [if_pos rfl, if_pos rfl] at hmoved
    rw [h u hu, heq, ← hmoved]

/-! ## Deletions -/

/-- Nothing is recorded in the checkpoint that a deletion would clear. -/
def Unrecorded (k : VolumeKind ι) (db : UploadDb) (collectionId : Nat) (volumeId : Text) : Prop :=
  ∀ c ∈ db.load k collectionId volumeId, collectionId ∈ db.uploads.keys →
    plaintextBytesOf c.archiveParts = 0

/-- A deletion leaves the counter right exactly if nothing was recorded. -/
theorem Exact.delete_iff (h : db.Exact) (k : VolumeKind ι) (collectionId : Nat) (volumeId : Text) :
    (db.delete k collectionId volumeId).Exact ↔ Unrecorded k db collectionId volumeId := by
  rw [delete, Unrecorded, load]
  split
  · rename_i hrow
    simp [hrow, h]
  rename_i row previous hrow
  obtain ⟨hget, hprogress⟩ := volume_eq_some.1 hrow
  have hkey : (row.cleared k).key = (collectionId, volumeId) := (get_eq_some_iff.1 hget).2
  have hid : (row.cleared k).collectionId = collectionId := congrArg Prod.fst hkey
  have hget' : db.volumes.get (row.cleared k).key = some row := hkey ▸ hget
  have hold : row.progress.payloadBytes = payloadBytes previous := by
    rw [hprogress, k.payloadBytes_put]
  have hnew : (row.cleared k).progress.payloadBytes = 0 := k.payloadBytes_put none
  have hmoved := recordedBytes_setVolume hget'
  rw [hid, hold, hnew] at hmoved
  have hunrecorded : (∀ c ∈ previous, collectionId ∈ db.uploads.keys →
        plaintextBytesOf c.archiveParts = 0) ↔
      (collectionId ∈ db.uploads.keys → payloadBytes previous = 0) := by
    cases previous with
    | none => simp [payloadBytes]
    | some c => simp [payloadBytes]
  simp only [hrow, Option.bind_eq_bind, Option.bind_some]
  rw [hunrecorded]
  constructor
  · intro hexact hmem
    obtain ⟨u, hu, rfl⟩ := mem_map.1 hmem
    have hmoved := hmoved u.collectionId
    rw [if_pos rfl, if_pos rfl, ← h u hu, ← hexact u hu] at hmoved
    omega
  · intro hzero u hu
    have hmoved := hmoved u.collectionId
    rw [h u hu]
    by_cases hu' : collectionId = u.collectionId
    · rw [if_pos hu', if_pos hu', hzero (mem_map.2 ⟨u, hu, hu'.symm⟩)] at hmoved
      exact hmoved.symm
    · rw [if_neg hu', if_neg hu'] at hmoved
      exact hmoved.symm

/-- The abort of a captured checkpoint clears nothing that was recorded. -/
def AbortsUnrecorded (db : UploadDb) : Progress → Prop
  | .pack (some c) => c.completed = none →
    Unrecorded packKind db c.identity.collectionId c.identity.volumeId
  | .segment (some c) => c.completed = none →
    Unrecorded segmentKind db c.identity.collectionId c.identity.volumeId
  | _ => True

theorem Exact.abort_iff (h : db.Exact) (k : VolumeKind ι) (c : Checkpoint ι) :
    (db.abort k c).Exact ↔ (c.completed = none →
      Unrecorded k db (k.collectionId c.identity) (k.volumeId c.identity)) := by
  rw [abort]
  split
  · rename_i hnone
    rw [h.delete_iff]
    simp [Option.isNone_iff_eq_none.1 hnone]
  · rename_i hsome
    exact iff_of_true h fun hnone => absurd (Option.isNone_iff_eq_none.2 hnone) hsome

theorem Exact.abortCaptured_iff (h : db.Exact) (p : Progress) :
    (db.abortCaptured p).Exact ↔ db.AbortsUnrecorded p := by
  rcases p with (_ | c) | (_ | c)
  · exact iff_of_true h trivial
  · exact h.abort_iff packKind c
  · exact iff_of_true h trivial
  · exact h.abort_iff segmentKind c

/-! ## Removals -/

theorem Exact.failRemoval (h : db.Exact) (r : Removal) : (db.failRemoval r).Exact := by
  rw [UploadDb.failRemoval]
  split
  · exact h
  · split
    · exact h.setState _ _
    · exact h

theorem Exact.finishRemoval (h : db.Exact) (r : Removal) : (db.finishRemoval r).Exact := by
  rw [UploadDb.finishRemoval]
  split
  · exact h
  · split
    · exact h.deleteUpload _
    · exact h

theorem Exact.beginDiscard (h : db.Exact) (collectionId : Nat) :
    (db.beginDiscard collectionId).1.Exact := by
  rw [UploadDb.beginDiscard]
  split
  · exact h
  · split
    · exact h.setState _ _
    · exact h

end UploadDb

/-- What a turn of a removal has to meet. -/
def Removal.Matches (r : Removal) (db : UploadDb) (done : Bool) : Prop :=
  done = true → ∀ p ∈ r.remaining.head?, db.AbortsUnrecorded p

theorem Removal.advance_exact_iff (r : Removal) {db : UploadDb} (h : db.Exact) (done : Bool) :
    (r.advance db done).1.Exact ↔ r.Matches db done := by
  rw [Removal.advance, Removal.Matches]
  cases done with
  | false => exact iff_of_true (h.failRemoval r) (by simp)
  | true =>
    rw [if_pos rfl]
    split
    · rename_i hremaining
      exact iff_of_true (h.finishRemoval r) (by simp [hremaining])
    · rename_i p remaining hremaining
      rw [h.abortCaptured_iff p]
      simp [hremaining]

/-! ## Runs -/

/-- What an event has to meet: a checkpoint that is deleted has recorded no payload. -/
def UploadWorld.Matches (w : UploadWorld) : UploadEvent → Prop
  | .deletePack collectionId volumeId => w.db.Unrecorded packKind collectionId volumeId
  | .deleteRaw collectionId volumeId => w.db.Unrecorded segmentKind collectionId volumeId
  | .turn i done => ∀ r ∈ w.removals[i]?, r.Matches w.db done
  | _ => True

/-- A transaction that goes through keeps the accounts, and so does one that does not. -/
theorem UploadDb.Exact.transact {ι : Type} [DecidableEq ι] {db : UploadDb} (h : db.Exact)
    (k : VolumeKind ι) (collectionId : Nat) (volumeId : Text) (c : Checkpoint ι) :
    (db.transact (db.merge k collectionId volumeId c)).Exact := by
  cases hmerge : db.merge k collectionId volumeId c with
  | error e => exact h
  | ok saved => exact h.merge hmerge

/-- One event keeps the accounts exactly if it meets the condition. -/
theorem UploadWorld.step_exact_iff {w : UploadWorld} (h : w.db.Exact) (event : UploadEvent) :
    (w.step event).db.Exact ↔ w.Matches event := by
  cases event with
  | plan row =>
    refine iff_of_true ?_ trivial
    rw [UploadWorld.step]
    split
    · exact h
    · rename_i hinsert
      exact h.insert hinsert
  | mergePack collectionId volumeId c => exact iff_of_true (h.transact _ _ _ _) trivial
  | mergeRaw collectionId volumeId c => exact iff_of_true (h.transact _ _ _ _) trivial
  | deletePack collectionId volumeId => exact h.delete_iff packKind collectionId volumeId
  | deleteRaw collectionId volumeId => exact h.delete_iff segmentKind collectionId volumeId
  | discard collectionId => exact iff_of_true (h.beginDiscard collectionId) trivial
  | cancel collectionId => exact iff_of_true h trivial
  | move collectionId state => exact iff_of_true (h.setState _ _) trivial
  | turn i done =>
    rw [UploadWorld.step, UploadWorld.Matches]
    split
    · rename_i hnone
      simp [hnone, h]
    · rename_i r hr
      rw [hr]
      simpa using r.advance_exact_iff h done

/-- Every event of a run meets the condition in the state it happens in. -/
def UploadWorld.AllMatch : UploadWorld → List UploadEvent → Prop
  | _, [] => True
  | w, event :: events => w.Matches event ∧ (w.step event).AllMatch events

/-- In every run the counters are right in all states exactly if they are at the start
and no event deletes a checkpoint with recorded payload. -/
theorem UploadWorld.uploadedPayloadBytes_exact_iff (w : UploadWorld) (events : List UploadEvent) :
    (∀ state ∈ events.scanl UploadWorld.step w, state.db.Exact) ↔
      w.db.Exact ∧ w.AllMatch events := by
  induction events generalizing w with
  | nil => simp [UploadWorld.AllMatch]
  | cons event events ih =>
    rw [scanl_cons, forall_mem_cons, ih, UploadWorld.AllMatch]
    exact and_congr_right fun h => and_congr_left' (UploadWorld.step_exact_iff h event)

/-! ## A discard that fails half way -/

/-- The checkpoint of a volume with one recorded part of five bytes. -/
def fiveBytesIn (volumeId : String) : Checkpoint PackIdentity :=
  { firstRecorded "t" with identity := { twoParts.identity with volumeId := volumeId.toList } }

/-- An upload with two planned volumes. -/
def twoVolumes : UploadWorld where
  db :=
    { volumes := ⟨[⟨1, "pack-1", .pack none, 2, 0, 0, .planned⟩,
        ⟨1, "pack-2", .pack none, 2, 0, 0, .planned⟩], by decide⟩
      uploads := plannedVolume.uploads }
  removals := []

/-- Both volumes record a part and the upload is orphaned. Its discard aborts the first
volume, and the object store fails to abort the second. -/
def failedDiscard : List UploadEvent :=
  [.mergePack 1 "pack-1" (fiveBytesIn "pack-1"), .mergePack 1 "pack-2" (fiveBytesIn "pack-2"),
   .move 1 .orphaned, .discard 1, .turn 0 true, .turn 0 false]

/-- The upload is orphaned again and still counts the volume whose checkpoint is gone. -/
theorem counter_after_failedDiscard :
    twoVolumes.db.Exact ∧
      (failedDiscard.foldl UploadWorld.step twoVolumes).db.uploads.rows = [⟨1, .orphaned, 10⟩] ∧
      (failedDiscard.foldl UploadWorld.step twoVolumes).db.recordedBytes 1 = 5 := by
  decide +kernel

end Riverhog.Upload
