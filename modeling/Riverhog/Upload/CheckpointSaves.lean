import Riverhog.Upload.CheckpointJoin
import Riverhog.Upload.CheckpointStore

/-!
# Saving checkpoints in any order

What the store holds after saving checkpoints of one write is their join, as long as no
two of them contradict each other. Where two do, the one saved first stays.
-/

namespace Riverhog.Upload

open Core UploadDb List

variable {ι : Type} {k : VolumeKind ι} {plan : WritePlan k.family}

/-! ## One save -/

variable {c m : Checkpoint ι} {collectionId : Nat} {volumeId : Text} {db : UploadDb}
  {row : VolumeRow}

theorem UploadDb.volume_eq_some {c : Option (Checkpoint ι)} :
    db.volume k collectionId volumeId = some (row, c) ↔
      db.volumes.get (collectionId, volumeId) = some row ∧ row.progress = k.put c := by
  simp only [volume, Option.bind_eq_bind, Option.bind_eq_some_iff, Option.some.injEq, Prod.mk.injEq]
  constructor
  · rintro ⟨row', hrow, c', hc, rfl, rfl⟩
    exact ⟨hrow, k.get_eq_some.1 hc⟩
  · rintro ⟨hrow, hc⟩
    exact ⟨row, hrow, c, k.get_eq_some.2 hc, rfl, rfl⟩

/-- A row that is written is what the table then has. -/
theorem UploadDb.get_setVolume {old : VolumeRow} (h : db.volumes.get row.key = some old) :
    (db.setVolume row).volumes.get row.key = some row := by
  have hkey : old.key = row.key := (Table.get_eq_some_iff.1 h).2
  refine (Table.get_update_self h (fun v : VolumeRow =>
    { row with collectionId := v.collectionId, objectId := v.objectId })
    fun _ => rfl).trans (congrArg some ?_)
  rw [VolumeRow.key, VolumeRow.key, Prod.mk.injEq] at hkey
  rw [hkey.1, hkey.2]

theorem UploadDb.addPayload_eq_ok {db' : UploadDb} {previous merged : Nat}
    (h : db.addPayload collectionId previous merged = .ok db') : db'.volumes = db.volumes := by
  rw [addPayload] at h
  split at h
  · cases h
    rfl
  · obtain ⟨_, -, h⟩ := bind_eq_ok.1 h
    cases h
    rfl

/-- The counter can always take more payload. -/
theorem UploadDb.exists_addPayload (db : UploadDb) (collectionId : Nat) {previous merged : Nat}
    (h : previous ≤ merged) : ∃ db', db.addPayload collectionId previous merged = .ok db' := by
  rw [addPayload]
  split
  · exact ⟨_, rfl⟩
  · rw [decide_eq_true (h.trans (Nat.le_add_left _ _)), require_true, ok_bind]
    exact ⟨_, rfl⟩

/-- No checkpoint has more parts than are planned. -/
theorem OfWrite.length_le (h : OfWrite plan c) : c.archiveParts.length ≤ plan.parts.length := by
  rw [← h.forall₂_parts.length_eq]
  exact length_filter_le _ _

/-- A join has at least the payload of each of its checkpoints. -/
theorem IsJoin.plaintextBytes_le {cs : List (Checkpoint ι)} (h : IsJoin plan cs m) (hc : c ∈ cs)
    (hw : OfWrite plan c) : plaintextBytesOf c.archiveParts ≤ plaintextBytesOf m.archiveParts := by
  have hsub : c.archiveParts ⊆ m.archiveParts := fun r hr => (h.mem_parts r).2 ⟨c, hc, hr⟩
  obtain ⟨l, hperm, hl⟩ := subperm_of_subset hw.parts_ascending.nodup.of_map hsub
  rw [plaintextBytesOf, ← (hperm.map _).sum_eq]
  exact (hl.map _).sum_le_sum fun _ _ => Nat.zero_le _

variable [DecidableEq ι]

/-- A merged checkpoint is what the volume then has. -/
theorem UploadDb.merge_of_merged {previous : Option (Checkpoint ι)}
    (hrow : db.volume k collectionId volumeId = some (row, previous))
    (htotal : plan.parts.length ≤ row.totalUnits) (hprevious : ∀ p ∈ previous, OfWrite plan p)
    (hc : OfWrite plan c) (h : mergeCheckpoints k.family (previous.getD c) c = .ok m) :
    ∃ db' row', db.merge k collectionId volumeId c = .ok (db', m) ∧
      db'.volume k collectionId volumeId = some (row', some m) ∧
      row'.totalUnits = row.totalUnits := by
  have hcurrent : OfWrite plan (previous.getD c) := by
    cases previous with
    | none => exact hc
    | some p => exact hprevious p rfl
  have hm := hcurrent.merge hc h
  have hstored : requireStored k previous = .ok () := by
    cases previous with
    | none => rfl
    | some p => exact (hprevious p rfl).validate
  have hlength : m.archiveParts.length ≤ row.totalUnits := hm.length_le.trans htotal
  have hpayload : payloadBytes previous ≤ plaintextBytesOf m.archiveParts := by
    cases previous with
    | none => exact Nat.zero_le _
    | some p =>
      exact ((mergeCheckpoints_eq_ok_iff hcurrent hc).1 h).2.plaintextBytes_le
        mem_cons_self hcurrent
  obtain ⟨hget, -⟩ := volume_eq_some.1 hrow
  have hkey : (row.saved k m).key = (collectionId, volumeId) := (Table.get_eq_some_iff.1 hget).2
  obtain ⟨db', hdb'⟩ := (db.setVolume (row.saved k m)).exists_addPayload collectionId hpayload
  refine ⟨db', row.saved k m, ?_, volume_eq_some.2 ⟨?_, rfl⟩, rfl⟩
  · simp [merge, hc.validate, hrow, hstored, h, hlength, hdb']
  · rw [addPayload_eq_ok hdb', ← hkey]
    exact get_setVolume (hkey ▸ hget)

/-! ## Many saves -/

/-- Save one checkpoint after another; an exception ends it. -/
def UploadDb.saveAll (k : VolumeKind ι) (collectionId : Nat) (volumeId : Text) :
    UploadDb → List (Checkpoint ι) → Except StoreError UploadDb
  | db, [] => .ok db
  | db, c :: cs => do
    let (saved, _) ← db.merge k collectionId volumeId c
    saveAll k collectionId volumeId saved cs

/-- The volume has room for the plan, and its checkpoint is the join of the given ones. -/
def UploadDb.Holds (db : UploadDb) (plan : WritePlan k.family) (collectionId : Nat)
    (volumeId : Text) (saved : List (Checkpoint ι)) : Prop :=
  ∃ row previous, db.volume k collectionId volumeId = some (row, previous) ∧
    plan.parts.length ≤ row.totalUnits ∧
    (previous = none ∧ saved = [] ∨ ∃ m ∈ previous, saved ≠ [] ∧ IsJoin plan saved m)

section

variable {db : UploadDb} {collectionId : Nat} {volumeId : Text}

/-- What the next save does to the join. -/
theorem UploadDb.Holds.merge {saved : List (Checkpoint ι)} {c : Checkpoint ι}
    (h : db.Holds plan collectionId volumeId saved) (hsaved : ∀ d ∈ saved, OfWrite plan d)
    (hc : OfWrite plan c) (hcompatible : ∀ d ∈ saved, Compatible d c) :
    ∃ db' m, db.merge k collectionId volumeId c = .ok (db', m) ∧
      db'.Holds plan collectionId volumeId (c :: saved) := by
  obtain ⟨row, previous, hrow, htotal, ⟨rfl, rfl⟩ | ⟨current, rfl, -, hjoin⟩⟩ := h
  · obtain ⟨db', row', hmerge, hrow', htotal'⟩ :=
      merge_of_merged hrow htotal (by simp) hc hc.merge_self
    exact ⟨db', c, hmerge, row', some c, hrow', htotal'.symm ▸ htotal,
      .inr ⟨c, rfl, by simp, hc.isJoin⟩⟩
  · have hcurrent := hjoin.ofWrite hsaved
    obtain ⟨m, hm⟩ := (hjoin.compatible_iff.2 hcompatible).exists_merge hcurrent hc
    obtain ⟨db', row', hmerge, hrow', htotal'⟩ :=
      merge_of_merged hrow htotal (by simpa using hcurrent) hc hm
    exact ⟨db', m, hmerge, row', some m, hrow', htotal'.symm ▸ htotal,
      .inr ⟨m, rfl, by simp, ((hjoin.merge_eq_ok_iff hsaved hc).1 hm).2⟩⟩

/-- Checkpoints without contradictions can all be saved, and the store has their join. -/
theorem UploadDb.Holds.saveAll {saved cs : List (Checkpoint ι)}
    (h : db.Holds plan collectionId volumeId saved) (hsaved : ∀ d ∈ saved, OfWrite plan d)
    (hcs : ∀ c ∈ cs, OfWrite plan c)
    (hcompatible : ∀ a ∈ saved ++ cs, ∀ b ∈ saved ++ cs, Compatible a b) :
    ∃ db', db.saveAll k collectionId volumeId cs = .ok db' ∧
      db'.Holds plan collectionId volumeId (cs.reverse ++ saved) := by
  induction cs generalizing db saved with
  | nil => exact ⟨db, rfl, h⟩
  | cons c cs ih =>
    have hc : OfWrite plan c := hcs c mem_cons_self
    obtain ⟨db₁, m, hmerge, hholds⟩ := h.merge hsaved hc fun d hd =>
      hcompatible d (mem_append_left _ hd) c (by simp)
    have hmem (a : Checkpoint ι) : a ∈ c :: saved ++ cs ↔ a ∈ saved ++ c :: cs := by
      simp only [mem_append, mem_cons]
      tauto
    obtain ⟨db', hsave, hholds'⟩ := ih hholds (by simpa [hc] using hsaved)
      (fun d hd => hcs d (mem_cons_of_mem _ hd))
      fun a ha b hb => hcompatible a ((hmem a).1 ha) b ((hmem b).1 hb)
    refine ⟨db', ?_, by simpa using hholds'⟩
    rw [saveAll, hmerge]
    exact hsave

omit [DecidableEq ι] in
/-- The stored checkpoint is determined by what was saved, whatever the order. -/
theorem UploadDb.Holds.load_eq {db' : UploadDb} {cs cs' : List (Checkpoint ι)}
    (h : db.Holds plan collectionId volumeId cs) (h' : db'.Holds plan collectionId volumeId cs')
    (hcs : ∀ c, c ∈ cs ↔ c ∈ cs') :
    db.load k collectionId volumeId = db'.load k collectionId volumeId := by
  obtain ⟨row, previous, hrow, -, hstored⟩ := h
  obtain ⟨row', previous', hrow', -, hstored'⟩ := h'
  have hprevious : previous = previous' := by
    rcases hstored with ⟨rfl, rfl⟩ | ⟨m, rfl, hne, hjoin⟩
    · rcases hstored' with ⟨rfl, rfl⟩ | ⟨m, rfl, hne, -⟩
      · rfl
      · obtain ⟨c, hc⟩ := exists_mem_of_ne_nil _ hne
        exact absurd ((hcs c).2 hc) not_mem_nil
    · rcases hstored' with ⟨rfl, rfl⟩ | ⟨m', rfl, -, hjoin'⟩
      · obtain ⟨c, hc⟩ := exists_mem_of_ne_nil _ hne
        exact absurd ((hcs c).1 hc) not_mem_nil
      · exact congrArg some (hjoin.ext hjoin' hcs)
  rw [load, load, hrow, hrow', hprevious]
  rfl

end

/-! ## The merge is a join -/

/-- The laws of a merge on the checkpoints that the workers of one write produce, and
what they come to for the store. -/
structure MergesAsJoin (k : VolumeKind ι) (merge : Checkpoint ι → Checkpoint ι → Py (Checkpoint ι))
    (plan : WritePlan k.family) : Prop where
  comm : ∀ {a b}, Produced plan a → Produced plan b → (merge a b).toOption = (merge b a).toOption
  assoc : ∀ {a b c}, Produced plan a → Produced plan b → Produced plan c →
    (merge a b >>= fun ab => merge ab c).toOption = (merge b c >>= fun bc => merge a bc).toOption
  idem : ∀ {a}, Produced plan a → merge a a = .ok a
  /-- Nothing is lost, and nothing is made up. -/
  receipts : ∀ {a b m}, Produced plan a → Produced plan b → merge a b = .ok m →
    (∀ r, r ∈ m.archiveParts ↔ r ∈ a.archiveParts ∨ r ∈ b.archiveParts) ∧
    (∀ r, r ∈ m.writeSegments ↔ r ∈ a.writeSegments ∨ r ∈ b.writeSegments) ∧
    (∀ r, r ∈ m.completed ↔ r ∈ a.completed ∨ r ∈ b.completed)
  /-- Unit `u` is part `u + 1`. -/
  next : ∀ {a b m}, Produced plan a → Produced plan b → merge a b = .ok m →
    (∀ u < m.next, u + 1 ∈ m.archiveParts.map StoredArchivePart.number) ∧
    m.next + 1 ∉ m.archiveParts.map StoredArchivePart.number
  /-- Checkpoints of which no two contradict each other, saved in two orders. -/
  order : ∀ {db : UploadDb} {collectionId volumeId row} {cs cs' : List (Checkpoint ι)},
    db.volume k collectionId volumeId = some (row, none) → plan.parts.length ≤ row.totalUnits →
    (∀ c ∈ cs, Produced plan c) → (∀ a ∈ cs, ∀ b ∈ cs, ∃ m, merge a b = .ok m) →
    (∀ c, c ∈ cs ↔ c ∈ cs') →
    ∃ db₁ db₂, db.saveAll k collectionId volumeId cs = .ok db₁ ∧
      db.saveAll k collectionId volumeId cs' = .ok db₂ ∧
      db₁.load k collectionId volumeId = db₂.load k collectionId volumeId
  /-- Of two that do, the second is refused and the first stays. -/
  conflict : ∀ {db : UploadDb} {collectionId volumeId row} {a b : Checkpoint ι},
    db.volume k collectionId volumeId = some (row, none) → plan.parts.length ≤ row.totalUnits →
    Produced plan a → Produced plan b → (¬∃ m, merge a b = .ok m) →
    ∃ db', db.merge k collectionId volumeId a = .ok (db', a) ∧
      db'.load k collectionId volumeId = some a ∧
      ∀ saved, db'.merge k collectionId volumeId b ≠ .ok saved

theorem toOption_eq_of_iff {ε α : Type} {x y : Except ε α} (h : ∀ a, x = .ok a ↔ y = .ok a) :
    x.toOption = y.toOption := by
  cases x with
  | ok a => rw [(h a).1 rfl]
  | error e =>
    cases y with
    | ok a => cases (h a).2 rfl
    | error e' => rfl

/-- A merged checkpoint that the store accepts was merged with what it had. -/
theorem UploadDb.merge_eq_ok {previous : Option (Checkpoint ι)} {db' : UploadDb}
    (hrow : db.volume k collectionId volumeId = some (row, previous))
    (h : db.merge k collectionId volumeId c = .ok (db', m)) :
    mergeCheckpoints k.family (previous.getD c) c = .ok m := by
  obtain ⟨_, -, h⟩ := bind_eq_ok.1 h
  rw [hrow] at h
  obtain ⟨_, -, h⟩ := bind_eq_ok.1 h
  obtain ⟨merged, hmerged, h⟩ := bind_eq_ok.1 h
  obtain ⟨_, -, h⟩ := bind_eq_ok.1 h
  obtain ⟨_, -, h⟩ := bind_eq_ok.1 h
  cases h
  exact raising_eq_ok.1 hmerged

theorem mergesAsJoin (plan : WritePlan k.family) :
    MergesAsJoin k (mergeCheckpoints k.family) plan where
  comm ha hb := toOption_eq_of_iff fun _ => merge_eq_ok_comm ha.ofWrite hb.ofWrite
  assoc ha hb hc := toOption_eq_of_iff fun _ => merge_eq_ok_assoc ha.ofWrite hb.ofWrite hc.ofWrite
  idem ha := ha.ofWrite.merge_self
  receipts ha hb h := by
    have hjoin := ((mergeCheckpoints_eq_ok_iff ha.ofWrite hb.ofWrite).1 h).2
    exact ⟨by simpa using hjoin.mem_parts, by simpa using hjoin.mem_segments,
      by simpa using hjoin.mem_completed⟩
  next ha hb h := by
    have hjoin := ((mergeCheckpoints_eq_ok_iff ha.ofWrite hb.ofWrite).1 h).2
    rw [hjoin.next]
    exact firstMissing_spec _
  order {db collectionId volumeId row cs cs'} hrow htotal hcs hmerge hmem := by
    have hempty : db.Holds plan collectionId volumeId [] :=
      ⟨row, none, hrow, htotal, .inl ⟨rfl, rfl⟩⟩
    have hcompatible (a) (ha : a ∈ cs) (b) (hb : b ∈ cs) : Compatible a b :=
      (compatible_iff_merge (hcs a ha).ofWrite (hcs b hb).ofWrite).2 (hmerge a ha b hb)
    obtain ⟨db₁, hsave, hholds⟩ := hempty.saveAll (by simp) (fun c hc => (hcs c hc).ofWrite)
      (by simpa using hcompatible)
    obtain ⟨db₂, hsave', hholds'⟩ := hempty.saveAll (by simp)
      (fun c hc => (hcs c ((hmem c).2 hc)).ofWrite)
      (by simpa using fun a ha b hb => hcompatible a ((hmem a).2 ha) b ((hmem b).2 hb))
    exact ⟨db₁, db₂, hsave, hsave', hholds.load_eq hholds' (by simpa using hmem)⟩
  conflict {db collectionId volumeId row a b} hrow htotal ha hb hconflict := by
    obtain ⟨db', row', hmerge, hrow', -⟩ :=
      merge_of_merged hrow htotal (by simp) ha.ofWrite ha.ofWrite.merge_self
    refine ⟨db', hmerge, ?_, fun saved h => hconflict ?_⟩
    · rw [load, hrow']
      rfl
    · exact ⟨saved.2, merge_eq_ok hrow' h⟩

/-- The merges of both kinds of checkpoints are joins. -/
theorem merge_upload_checkpoints_isJoin :
    (∀ plan : WritePlan packKind.family, MergesAsJoin packKind mergePackUploadCheckpoints plan) ∧
    ∀ plan : WritePlan segmentKind.family,
      MergesAsJoin segmentKind mergeRawUploadCheckpoints plan :=
  ⟨mergesAsJoin, mergesAsJoin⟩

/-! ## Two workers -/

/-- Save checkpoints of independent workers; an exception is the worker's own. -/
def UploadDb.saveEach (k : VolumeKind ι) (collectionId : Nat) (volumeId : Text) (db : UploadDb)
    (cs : List (Checkpoint ι)) : UploadDb :=
  cs.foldl (fun db c => db.transact (db.merge k collectionId volumeId c)) db

/-- A pack of two parts with one segment each. -/
def twoParts : WritePlan packKind.family where
  identity := ⟨1, "pack-1", "c/volumes/pack-1.tar.age", "volumes/pack-1.tar.age", [], 9, "w", []⟩
  parts := [⟨1, 0, 5, [⟨1, 7⟩]⟩, ⟨2, 5, 4, [⟨2, 6⟩]⟩]
  nonempty := by simp
  contiguous := ⟨rfl, rfl, rfl, rfl, trivial⟩
  covers := rfl
  ascending := by simp [Ascending]
  segments_pos := by simp
  stored_pos := by simp [PlannedPart.storedBytes]
  plaintext_pos := by simp

/-- The receipt of a part whose digests are all one digit. -/
def partReceipt (number start plaintextBytes storedBytes : Nat) (digit : Char) :
    StoredArchivePart :=
  ⟨number, start, plaintextBytes, replicate 64 digit, storedBytes, replicate 64 digit⟩

/-- A worker's checkpoint of the first part, with the token of its segment. -/
def firstRecorded (token : String) : Checkpoint PackIdentity :=
  { openedCheckpoint twoParts.identity with
    next := 1
    archiveParts := [partReceipt 1 0 5 7 'a']
    writeSegments := [⟨1, token.toList, 7, none⟩] }

/-- A worker's checkpoint of the second part. -/
def secondRecorded : Checkpoint PackIdentity :=
  { openedCheckpoint twoParts.identity with
    archiveParts := [partReceipt 2 5 4 6 'b']
    writeSegments := [⟨2, "t", 6, none⟩] }

theorem produced_firstRecorded {token : String} (h : token.toList ≠ []) :
    Produced twoParts (firstRecorded token) := by
  have hpart : (PlannedPart.mk 1 0 5 [⟨1, 7⟩]).IsReceipt (partReceipt 1 0 5 7 'a') :=
    ⟨rfl, rfl, rfl, rfl, by decide, by decide⟩
  have hsegment : (PlannedSegment.mk 1 7).IsReceipt ⟨1, token.toList, 7, none⟩ :=
    ⟨rfl, rfl, h, by simp⟩
  exact .recorded .opened mem_cons_self hpart (.cons hsegment .nil) rfl

theorem produced_secondRecorded : Produced twoParts secondRecorded := by
  have hpart : (PlannedPart.mk 2 5 4 [⟨2, 6⟩]).IsReceipt (partReceipt 2 5 4 6 'b') :=
    ⟨rfl, rfl, rfl, rfl, by decide, by decide⟩
  have hsegment : (PlannedSegment.mk 2 6).IsReceipt ⟨2, "t", 6, none⟩ :=
    ⟨rfl, rfl, by decide, by simp⟩
  exact .recorded .opened (mem_cons_of_mem _ mem_cons_self) hpart (.cons hsegment .nil) rfl

/-- An upload with one planned volume. -/
def plannedVolume : UploadDb where
  volumes := ⟨[⟨1, "pack-1", .pack none, 2, 0, 0, .planned⟩], nodup_singleton _⟩
  uploads := ⟨[⟨1, .uploading, 0⟩], nodup_singleton _⟩

/-- Two workers record different parts, and either may be the first to save. -/
theorem saves_of_two_workers :
    ∃ db₁ db₂, plannedVolume.saveAll packKind 1 "pack-1"
        [firstRecorded "t", secondRecorded] = .ok db₁ ∧
      plannedVolume.saveAll packKind 1 "pack-1" [secondRecorded, firstRecorded "t"] = .ok db₂ ∧
      db₁.load packKind 1 "pack-1" = db₂.load packKind 1 "pack-1" := by
  have hfirst : Produced twoParts (firstRecorded "t") := produced_firstRecorded (by decide)
  have hrow : plannedVolume.volume packKind 1 "pack-1" =
      some (⟨1, "pack-1", .pack none, 2, 0, 0, .planned⟩, none) := rfl
  refine (merge_upload_checkpoints_isJoin.1 twoParts).order hrow (by decide)
    (by simp [hfirst, produced_secondRecorded]) ?_ (by simp [or_comm])
  simp only [mem_cons, not_mem_nil, or_false, forall_eq_or_imp, forall_eq]
  exact ⟨⟨⟨_, rfl⟩, ⟨_, rfl⟩⟩, ⟨_, rfl⟩, ⟨_, rfl⟩⟩

/-- Two workers wrote one segment and were given different tokens for it: the one that
saves first is the one whose receipts are kept. -/
theorem saves_of_two_tokens :
    Produced twoParts (firstRecorded "s") ∧ Produced twoParts (firstRecorded "t") ∧
      (plannedVolume.saveEach packKind 1 "pack-1"
        [firstRecorded "s", firstRecorded "t"]).load packKind 1 "pack-1" ≠
      (plannedVolume.saveEach packKind 1 "pack-1"
        [firstRecorded "t", firstRecorded "s"]).load packKind 1 "pack-1" :=
  ⟨produced_firstRecorded (by decide), produced_firstRecorded (by decide), by decide +kernel⟩

end Riverhog.Upload
