import Riverhog.Upload.WritePlan

/-!
# Merged checkpoints are joins

The join of several checkpoints of one archive write has the receipts of all of them,
in order. It does not depend on an order of the checkpoints, so the laws of the merge
follow from one description of its result.
-/

namespace Riverhog.Upload

open Core

variable {ι : Type} {f : Family ι}

/-! ## Joins -/

/-- Two checkpoints have no receipts that contradict each other. -/
structure Compatible (a b : Checkpoint ι) : Prop where
  parts : Agree StoredArchivePart.number a.archiveParts b.archiveParts
  segments : Agree WriteSegmentReceipt.number a.writeSegments b.writeSegments
  completed : ∀ x ∈ a.completed, ∀ y ∈ b.completed, x = y

theorem Compatible.symm {a b : Checkpoint ι} (h : Compatible a b) : Compatible b a :=
  ⟨h.parts.symm, h.segments.symm, fun x hx y hy => (h.completed y hy x hx).symm⟩

/-- The checkpoint with the receipts of all the given ones. -/
structure IsJoin (plan : WritePlan f) (cs : List (Checkpoint ι)) (m : Checkpoint ι) : Prop where
  identity : m.identity = plan.identity
  next : m.next = firstMissing m.archiveParts
  parts_ascending : Ascending StoredArchivePart.number m.archiveParts
  mem_parts : ∀ r, r ∈ m.archiveParts ↔ ∃ c ∈ cs, r ∈ c.archiveParts
  segments_ascending : Ascending WriteSegmentReceipt.number m.writeSegments
  mem_segments : ∀ r, r ∈ m.writeSegments ↔ ∃ c ∈ cs, r ∈ c.writeSegments
  mem_completed : ∀ r, r ∈ m.completed ↔ ∃ c ∈ cs, r ∈ c.completed

section

variable {plan : WritePlan f} {cs cs' : List (Checkpoint ι)} {c d m m' : Checkpoint ι}

/-- A join is determined by the checkpoints it is of, whatever their order. -/
theorem IsJoin.ext (h : IsJoin plan cs m) (h' : IsJoin plan cs' m')
    (hcs : ∀ c, c ∈ cs ↔ c ∈ cs') : m = m' := by
  have hex {q : Checkpoint ι → Prop} : (∃ c ∈ cs, q c) ↔ ∃ c ∈ cs', q c :=
    exists_congr fun c => and_congr_left fun _ => hcs c
  have hparts : m.archiveParts = m'.archiveParts := h.parts_ascending.ext h'.parts_ascending
    fun r => (h.mem_parts r).trans (hex.trans (h'.mem_parts r).symm)
  have hsegments : m.writeSegments = m'.writeSegments :=
    h.segments_ascending.ext h'.segments_ascending
      fun r => (h.mem_segments r).trans (hex.trans (h'.mem_segments r).symm)
  have hcompleted : m.completed = m'.completed := Option.ext
    fun r => (h.mem_completed r).trans (hex.trans (h'.mem_completed r).symm)
  have hnext : m.next = m'.next := by rw [h.next, h'.next, hparts]
  have hidentity : m.identity = m'.identity := h.identity.trans h'.identity.symm
  cases m
  cases m'
  simp_all

/-- The same receipts under another list with the same checkpoints. -/
theorem IsJoin.congr (h : IsJoin plan cs m) (hcs : ∀ c, c ∈ cs ↔ c ∈ cs') : IsJoin plan cs' m := by
  have hex {q : Checkpoint ι → Prop} : (∃ c ∈ cs, q c) ↔ ∃ c ∈ cs', q c :=
    exists_congr fun c => and_congr_left fun _ => hcs c
  exact ⟨h.identity, h.next, h.parts_ascending, fun r => (h.mem_parts r).trans hex,
    h.segments_ascending, fun r => (h.mem_segments r).trans hex,
    fun r => (h.mem_completed r).trans hex⟩

/-- One checkpoint is its own join. -/
theorem OfWrite.isJoin (h : OfWrite plan c) : IsJoin plan [c] c := by
  refine ⟨h.identity, h.next, h.parts_ascending, ?_, h.segments_ascending, ?_, ?_⟩ <;> simp

theorem OfWrite.compatible_self (h : OfWrite plan c) : Compatible c c :=
  ⟨agree_self h.parts_ascending, agree_self h.segments_ascending,
    fun _ hx _ hy => Option.some.inj (hx.symm.trans hy)⟩

/-- What contradicts a join contradicts one of its checkpoints. -/
theorem IsJoin.compatible_iff (h : IsJoin plan cs m) :
    Compatible m d ↔ ∀ c ∈ cs, Compatible c d := by
  constructor
  · intro hmd c hc
    exact ⟨fun x hx => hmd.parts x ((h.mem_parts x).2 ⟨c, hc, hx⟩),
      fun x hx => hmd.segments x ((h.mem_segments x).2 ⟨c, hc, hx⟩),
      fun x hx => hmd.completed x ((h.mem_completed x).2 ⟨c, hc, hx⟩)⟩
  · intro hall
    refine ⟨fun x hx => ?_, fun x hx => ?_, fun x hx => ?_⟩
    · obtain ⟨c, hc, hx⟩ := (h.mem_parts x).1 hx
      exact (hall c hc).parts x hx
    · obtain ⟨c, hc, hx⟩ := (h.mem_segments x).1 hx
      exact (hall c hc).segments x hx
    · obtain ⟨c, hc, hx⟩ := (h.mem_completed x).1 hx
      exact (hall c hc).completed x hx

/-- Joining one more checkpoint. -/
theorem IsJoin.pair_iff (h : IsJoin plan cs m) : IsJoin plan [m, d] m' ↔ IsJoin plan (d :: cs) m' := by
  have hparts (r) : (∃ c ∈ [m, d], r ∈ c.archiveParts) ↔ ∃ c ∈ d :: cs, r ∈ c.archiveParts := by
    simp [h.mem_parts r, or_comm]
  have hsegments (r) :
      (∃ c ∈ [m, d], r ∈ c.writeSegments) ↔ ∃ c ∈ d :: cs, r ∈ c.writeSegments := by
    simp [h.mem_segments r, or_comm]
  have hcompleted (r) : (∃ c ∈ [m, d], r ∈ c.completed) ↔ ∃ c ∈ d :: cs, r ∈ c.completed := by
    have hm := h.mem_completed r
    simp only [Option.mem_def] at hm
    simp [hm, or_comm]
  constructor
  · rintro ⟨hi, hn, hpa, hp, hsa, hs, hc⟩
    exact ⟨hi, hn, hpa, fun r => (hp r).trans (hparts r), hsa,
      fun r => (hs r).trans (hsegments r), fun r => (hc r).trans (hcompleted r)⟩
  · rintro ⟨hi, hn, hpa, hp, hsa, hs, hc⟩
    exact ⟨hi, hn, hpa, fun r => (hp r).trans (hparts r).symm, hsa,
      fun r => (hs r).trans (hsegments r).symm, fun r => (hc r).trans (hcompleted r).symm⟩

/-- The join of checkpoints of a write is one. -/
theorem IsJoin.ofWrite (h : IsJoin plan cs m) (hcs : ∀ c ∈ cs, OfWrite plan c) :
    OfWrite plan m := by
  have hrec {c : Checkpoint ι} (hc : c ∈ cs) {p : PlannedPart} (hp : Recorded c p) :
      Recorded m p := by
    obtain ⟨r, hr, hnumber⟩ := List.mem_map.1 hp
    exact List.mem_map.2 ⟨r, (h.mem_parts r).2 ⟨c, hc, hr⟩, hnumber⟩
  refine ⟨h.identity, h.next, h.parts_ascending, fun r hr => ?_, h.segments_ascending,
    fun r hr => ?_, fun p hp hpm s hs => ?_, fun r hr => ?_⟩
  · obtain ⟨c, hc, hr⟩ := (h.mem_parts r).1 hr
    exact (hcs c hc).parts r hr
  · obtain ⟨c, hc, hr⟩ := (h.mem_segments r).1 hr
    obtain ⟨p, hp, hpc, hs⟩ := (hcs c hc).segments r hr
    exact ⟨p, hp, hrec hc hpc, hs⟩
  · obtain ⟨r, hr, hnumber⟩ := List.mem_map.1 hpm
    obtain ⟨c, hc, hr⟩ := (h.mem_parts r).1 hr
    obtain ⟨r', hr', hsr⟩ := (hcs c hc).segments_all p hp (List.mem_map.2 ⟨r, hr, hnumber⟩) s hs
    exact ⟨r', (h.mem_segments r').2 ⟨c, hc, hr'⟩, hsr⟩
  · obtain ⟨c, hc, hr⟩ := (h.mem_completed r).1 hr
    obtain ⟨hall, hrest⟩ := (hcs c hc).completed r hr
    exact ⟨fun p hp => hrec hc (hall p hp), hrest⟩

end

/-! ## The merge -/

theorem requireSameCompletion_eq_ok_iff {x y : Option CompletedObject} :
    requireSameCompletion f x y = .ok () ↔ ∀ r ∈ x, ∀ r' ∈ y, r = r' := by
  cases x <;> cases y <;> simp [requireSameCompletion]

variable [DecidableEq ι] {plan : WritePlan f} {a b c m : Checkpoint ι}

/-- The completion receipt of two that agree is either's. -/
theorem mem_or_iff {α : Type} {x y : Option α} (h : ∀ r ∈ x, ∀ r' ∈ y, r = r') (r : α) :
    r ∈ x.or y ↔ r ∈ x ∨ r ∈ y := by
  cases x with
  | none => simp
  | some r₁ =>
    refine ⟨.inl, fun hr => hr.elim id fun hr => ?_⟩
    rw [← h r₁ rfl r hr]
    rfl

/-- The merge of two checkpoints of a write is their join, and it raises exactly where
their receipts contradict each other. -/
theorem mergeCheckpoints_eq_ok_iff (ha : OfWrite plan a) (hb : OfWrite plan b) :
    mergeCheckpoints f a b = .ok m ↔ Compatible a b ∧ IsJoin plan [a, b] m := by
  have hidentity : a.identity = b.identity := ha.identity.trans hb.identity.symm
  constructor
  · intro h
    rw [mergeCheckpoints, decide_eq_true hidentity, require_true, ok_bind] at h
    obtain ⟨parts, hparts, h⟩ := bind_eq_ok.1 h
    obtain ⟨segments, hsegments, h⟩ := bind_eq_ok.1 h
    obtain ⟨_, hsame, h⟩ := bind_eq_ok.1 h
    obtain ⟨_, -, h⟩ := bind_eq_ok.1 h
    cases h
    obtain ⟨hagree, hasc, hmem⟩ :=
      (mergeKeyed_eq_ok_iff ha.parts_ascending hb.parts_ascending).1 hparts
    obtain ⟨hagree', hasc', hmem'⟩ :=
      (mergeKeyed_eq_ok_iff ha.segments_ascending hb.segments_ascending).1 hsegments
    have hsame := requireSameCompletion_eq_ok_iff.1 hsame
    refine ⟨⟨hagree, hagree', hsame⟩, ha.identity, rfl, hasc, ?_, hasc', ?_, ?_⟩
    · simpa using hmem
    · simpa using hmem'
    · intro r
      rw [mem_or_iff hsame r]
      simp
  · rintro ⟨hcompatible, hjoin⟩
    have hparts : mergeKeyed StoredArchivePart.number (PyError.runtimeError f.partConflict)
        a.archiveParts b.archiveParts = .ok m.archiveParts :=
      (mergeKeyed_eq_ok_iff ha.parts_ascending hb.parts_ascending).2
        ⟨hcompatible.parts, hjoin.parts_ascending, by simpa using hjoin.mem_parts⟩
    have hsegments : mergeKeyed WriteSegmentReceipt.number
        (PyError.runtimeError f.segmentConflict) a.writeSegments b.writeSegments =
          .ok m.writeSegments :=
      (mergeKeyed_eq_ok_iff ha.segments_ascending hb.segments_ascending).2
        ⟨hcompatible.segments, hjoin.segments_ascending, by simpa using hjoin.mem_segments⟩
    have hsame := requireSameCompletion_eq_ok_iff (f := f).2 hcompatible.completed
    have hcompleted : a.completed.or b.completed = m.completed := by
      refine Option.ext fun r => (mem_or_iff hcompatible.completed r).trans ?_
      exact Iff.trans (by simp) (hjoin.mem_completed r).symm
    have hm : OfWrite plan m := hjoin.ofWrite (by simp [ha, hb])
    have hmerged : Checkpoint.mk a.identity (firstMissing m.archiveParts) m.archiveParts
        m.writeSegments m.completed = m := by
      rw [ha.identity, ← hm.identity, ← hm.next]
    rw [mergeCheckpoints, decide_eq_true hidentity, require_true, ok_bind, hparts, ok_bind,
      hsegments, ok_bind, hsame, ok_bind, hcompleted, hmerged]
    exact congrArg (· >>= fun _ => Except.ok m) hm.requireMergedCompletion

/-- The merge of checkpoints of a write is one. -/
theorem OfWrite.merge (ha : OfWrite plan a) (hb : OfWrite plan b)
    (h : mergeCheckpoints f a b = .ok m) : OfWrite plan m :=
  ((mergeCheckpoints_eq_ok_iff ha hb).1 h).2.ofWrite (by simp [ha, hb])

/-- Workers only hold checkpoints of their write. -/
theorem Produced.ofWrite (h : Produced plan c) : OfWrite plan c := by
  induction h with
  | opened => exact ⟨rfl, rfl, .nil, by simp [openedCheckpoint], .nil, by simp [openedCheckpoint],
      by simp [Recorded, openedCheckpoint], by simp [openedCheckpoint]⟩
  | recorded _ hp hpart hsegments h ih => exact ih.recordPart hp hpart hsegments h
  | completed _ hr h ih => exact ih.markCompleted hr h
  | merged _ _ h iha ihb => exact iha.merge ihb h

/-- Compatible checkpoints have a join. -/
theorem Compatible.exists_merge (h : Compatible a b) (ha : OfWrite plan a) (hb : OfWrite plan b) :
    ∃ m, mergeCheckpoints f a b = .ok m := by
  obtain ⟨parts, hparts⟩ := exists_mergeKeyed () ha.parts_ascending hb.parts_ascending h.parts
  obtain ⟨segments, hsegments⟩ :=
    exists_mergeKeyed () ha.segments_ascending hb.segments_ascending h.segments
  obtain ⟨-, hasc, hmem⟩ :=
    (mergeKeyed_eq_ok_iff ha.parts_ascending hb.parts_ascending).1 hparts
  obtain ⟨-, hasc', hmem'⟩ :=
    (mergeKeyed_eq_ok_iff ha.segments_ascending hb.segments_ascending).1 hsegments
  refine ⟨⟨plan.identity, firstMissing parts, parts, segments, a.completed.or b.completed⟩,
    (mergeCheckpoints_eq_ok_iff ha hb).2 ⟨h, rfl, rfl, hasc, ?_, hasc', ?_, fun r => ?_⟩⟩
  · simpa using hmem
  · simpa using hmem'
  · rw [mem_or_iff h.completed r]
    simp

/-- Two checkpoints are compatible where the merge does not raise. -/
theorem compatible_iff_merge (ha : OfWrite plan a) (hb : OfWrite plan b) :
    Compatible a b ↔ ∃ m, mergeCheckpoints f a b = .ok m :=
  ⟨fun h => h.exists_merge ha hb, fun ⟨_, h⟩ => ((mergeCheckpoints_eq_ok_iff ha hb).1 h).1⟩

/-- A join with one more checkpoint. -/
theorem IsJoin.merge_eq_ok_iff {cs : List (Checkpoint ι)} (h : IsJoin plan cs c)
    (hcs : ∀ d ∈ cs, OfWrite plan d) (hb : OfWrite plan b) :
    mergeCheckpoints f c b = .ok m ↔ (∀ d ∈ cs, Compatible d b) ∧ IsJoin plan (b :: cs) m := by
  rw [mergeCheckpoints_eq_ok_iff (h.ofWrite hcs) hb, h.compatible_iff, h.pair_iff]

/-! ## Laws of the merge -/

/-- Merging a checkpoint with itself changes nothing. -/
theorem OfWrite.merge_self (ha : OfWrite plan a) : mergeCheckpoints f a a = .ok a :=
  (mergeCheckpoints_eq_ok_iff ha ha).2 ⟨ha.compatible_self, ha.isJoin.congr fun c => by simp⟩

theorem merge_eq_ok_comm (ha : OfWrite plan a) (hb : OfWrite plan b) :
    mergeCheckpoints f a b = .ok m ↔ mergeCheckpoints f b a = .ok m := by
  have hpair (c : Checkpoint ι) : c ∈ [a, b] ↔ c ∈ [b, a] := by simp [or_comm]
  rw [mergeCheckpoints_eq_ok_iff ha hb, mergeCheckpoints_eq_ok_iff hb ha]
  exact ⟨fun h => ⟨h.1.symm, h.2.congr hpair⟩, fun h => ⟨h.1.symm, h.2.congr fun c => (hpair c).symm⟩⟩

/-- The merge of three checkpoints, the first two first. -/
theorem merge_merge_eq_ok_iff (ha : OfWrite plan a) (hb : OfWrite plan b) (hc : OfWrite plan c) :
    (mergeCheckpoints f a b >>= fun ab => mergeCheckpoints f ab c) = .ok m ↔
      Compatible a b ∧ Compatible a c ∧ Compatible b c ∧ IsJoin plan [c, a, b] m := by
  have hab : ∀ d ∈ [a, b], OfWrite plan d := by simp [ha, hb]
  rw [bind_eq_ok]
  constructor
  · rintro ⟨ab, hmerge, h⟩
    obtain ⟨hcompatible, hjoin⟩ := (mergeCheckpoints_eq_ok_iff ha hb).1 hmerge
    obtain ⟨hall, h⟩ := (hjoin.merge_eq_ok_iff hab hc).1 h
    exact ⟨hcompatible, hall a (by simp), hall b (by simp), h⟩
  · rintro ⟨hcompatible, hac, hbc, h⟩
    obtain ⟨ab, hmerge⟩ := hcompatible.exists_merge ha hb
    have hjoin := ((mergeCheckpoints_eq_ok_iff ha hb).1 hmerge).2
    exact ⟨ab, hmerge, (hjoin.merge_eq_ok_iff hab hc).2 ⟨by simp [hac, hbc], h⟩⟩

theorem merge_eq_ok_assoc (ha : OfWrite plan a) (hb : OfWrite plan b) (hc : OfWrite plan c) :
    (mergeCheckpoints f a b >>= fun ab => mergeCheckpoints f ab c) = .ok m ↔
      (mergeCheckpoints f b c >>= fun bc => mergeCheckpoints f a bc) = .ok m := by
  have hcomm : (mergeCheckpoints f b c >>= fun bc => mergeCheckpoints f a bc) = .ok m ↔
      (mergeCheckpoints f b c >>= fun bc => mergeCheckpoints f bc a) = .ok m := by
    rw [bind_eq_ok, bind_eq_ok]
    exact exists_congr fun bc => and_congr_right fun h => merge_eq_ok_comm ha (hb.merge hc h)
  rw [hcomm, merge_merge_eq_ok_iff ha hb hc, merge_merge_eq_ok_iff hb hc ha]
  constructor
  · rintro ⟨hab, hac, hbc, h⟩
    exact ⟨hbc, hab.symm, hac.symm, h.congr fun d => by simp; tauto⟩
  · rintro ⟨hbc, hba, hca, h⟩
    exact ⟨hba.symm, hca.symm, hbc, h.congr fun d => by simp; tauto⟩

end Riverhog.Upload
