import Mathlib.Algebra.Order.BigOperators.Group.List
import Mathlib.Data.List.Flatten
import Riverhog.Upload.VolumeCheckpoint

/-!
# The checkpoints of one archive write

A write is planned as contiguous parts with their write segments. The checkpoints that
its workers come to hold have receipts of planned parts and of exactly the segments of
those parts, and every check that the code makes of a checkpoint passes on them.
-/

namespace Riverhog.Upload

open Core List

variable {ι : Type} {f : Family ι}

/-! ## The plan of a write -/

/-- `WriteSegmentPlan`, under the part it belongs to. -/
structure PlannedSegment where
  number : Nat
  storedBytes : Nat

/-- A unit of the plan with its write segments. -/
structure PlannedPart where
  number : Nat
  plaintextStart : Nat
  plaintextBytes : Nat
  segments : List PlannedSegment

/-- The segments of a part hold its ciphertext. -/
def PlannedPart.storedBytes (p : PlannedPart) : Nat :=
  (p.segments.map PlannedSegment.storedBytes).sum

/-- Parts numbered one after another, each beginning where the one before it ends. -/
def Contiguous : Nat → Nat → List PlannedPart → Prop
  | _, _, [] => True
  | number, start, p :: ps => p.number = number ∧ p.plaintextStart = start ∧
    Contiguous (number + 1) (start + p.plaintextBytes) ps

/-- One archive write: its identity, its parts and their write segments. -/
structure WritePlan (f : Family ι) where
  identity : ι
  parts : List PlannedPart
  nonempty : parts ≠ []
  contiguous : Contiguous 1 0 parts
  covers : (parts.map PlannedPart.plaintextBytes).sum = f.plaintextBytes identity
  ascending : Ascending PlannedSegment.number (parts.flatMap PlannedPart.segments)
  segments_pos : ∀ p ∈ parts, ∀ s ∈ p.segments, 1 ≤ s.number ∧ 1 ≤ s.storedBytes
  stored_pos : ∀ p ∈ parts, 0 < p.storedBytes
  plaintext_pos : f.refusesEmptyParts = true → ∀ p ∈ parts, 0 < p.plaintextBytes

/-- The bytes of the stored object. -/
def WritePlan.storedBytes (plan : WritePlan f) : Nat :=
  (plan.parts.map PlannedPart.storedBytes).sum

/-- A receipt of a planned part. -/
structure PlannedPart.IsReceipt (p : PlannedPart) (r : StoredArchivePart) : Prop where
  number : p.number = r.number
  plaintextStart : r.plaintextStart = p.plaintextStart
  plaintextBytes : r.plaintextBytes = p.plaintextBytes
  storedBytes : r.storedBytes = p.storedBytes
  plaintextSha256 : isSha256 r.plaintextSha256 = true
  storedSha256 : isSha256 r.storedSha256 = true

/-- A receipt of a planned segment. -/
structure PlannedSegment.IsReceipt (s : PlannedSegment) (r : WriteSegmentReceipt) : Prop where
  number : s.number = r.number
  bytes : r.bytes = s.storedBytes
  token : r.segmentToken ≠ []
  sha256 : ∀ digest ∈ r.sha256, isSha256 digest = true

/-- A receipt of the completed object, as the storage port accepts it. -/
structure CompletedObjectReceipt.Of (plan : WritePlan f) (r : CompletedObjectReceipt) : Prop where
  bytes : r.bytes = plan.storedBytes
  completedAt : r.completedAt ≠ []
  retrievalCache : r.retrievalCache.all RetrievalCacheReceipt.acceptable = true

/-- The checkpoints that workers of one write come to hold: the one saved when the write
is begun, those that record a part or the completion, and those the store returns. -/
inductive Produced [DecidableEq ι] (plan : WritePlan f) : Checkpoint ι → Prop
  | opened : Produced plan (openedCheckpoint plan.identity)
  | recorded {c c' : Checkpoint ι} {p : PlannedPart} {part : StoredArchivePart}
      {segments : List WriteSegmentReceipt} (hc : Produced plan c) (hp : p ∈ plan.parts)
      (hpart : p.IsReceipt part)
      (hsegments : Forall₂ PlannedSegment.IsReceipt p.segments segments)
      (h : recordPart f c part segments = .ok c') : Produced plan c'
  | completed {c c' : Checkpoint ι} {r : CompletedObjectReceipt} (hc : Produced plan c)
      (hr : r.Of plan) (h : f.markCompleted c r = .ok c') : Produced plan c'
  | merged {a b m : Checkpoint ι} (ha : Produced plan a) (hb : Produced plan b)
      (h : mergeCheckpoints f a b = .ok m) : Produced plan m

/-! ## Planned parts -/

variable {c : Checkpoint ι} {ps : List PlannedPart} {n start : Nat} {p : PlannedPart}
  {plan : WritePlan f} {rs : List StoredArchivePart} {q : PlannedPart → Bool}

/-- Later parts have larger numbers. -/
theorem Contiguous.number_le (h : Contiguous n start ps) : ∀ p ∈ ps, n ≤ p.number := by
  induction ps generalizing n start with
  | nil => exact fun p hp => absurd hp not_mem_nil
  | cons p ps ih =>
    intro q hq
    rcases mem_cons.1 hq with rfl | hq
    · exact h.1.ge
    · exact (Nat.le_succ n).trans (ih h.2.2 q hq)

theorem Contiguous.ascending (h : Contiguous n start ps) : Ascending PlannedPart.number ps := by
  induction ps generalizing n start with
  | nil => exact .nil
  | cons p ps ih =>
    refine pairwise_cons.2 ⟨fun q hq => ?_, ih h.2.2⟩
    rw [h.1]
    exact h.2.2.number_le q hq

/-- A planned part is the only one with its number. -/
theorem WritePlan.part_ext (plan : WritePlan f) {q : PlannedPart} (hp : p ∈ plan.parts)
    (hq : q ∈ plan.parts) (h : p.number = q.number) : p = q :=
  agree_self plan.contiguous.ascending p hp q hq h

/-- The segments of one part are in ascending order. -/
theorem WritePlan.segments_ascending (plan : WritePlan f) (hp : p ∈ plan.parts) :
    Ascending PlannedSegment.number p.segments :=
  (pairwise_flatMap.1 plan.ascending).1 p hp

/-- The numbers of receipts in order are those of the plan. -/
theorem ascending_of_forall₂ {planned : List PlannedSegment}
    {segments : List WriteSegmentReceipt} (hp : Ascending PlannedSegment.number planned)
    (h : Forall₂ PlannedSegment.IsReceipt planned segments) :
    Ascending WriteSegmentReceipt.number segments := by
  have hmap := map_eq_of_forall₂ (fun _ _ hr => hr.number.symm) h
  exact pairwise_map.1 (hmap ▸ pairwise_map.2 hp)

/-! ## Checkpoints of a write -/

/-- The checkpoint has a receipt of the part. -/
def Recorded (c : Checkpoint ι) (p : PlannedPart) : Prop :=
  p.number ∈ c.archiveParts.map StoredArchivePart.number

instance (c : Checkpoint ι) (p : PlannedPart) : Decidable (Recorded c p) :=
  inferInstanceAs (Decidable (_ ∈ _))

theorem PlannedPart.IsReceipt.recorded {r : StoredArchivePart} (h : p.IsReceipt r)
    (hr : r ∈ c.archiveParts) : Recorded c p :=
  mem_map.2 ⟨r, hr, h.number.symm⟩

/-- What is true of every checkpoint of a write: receipts of planned parts, and of
exactly the segments of those parts. -/
structure OfWrite (plan : WritePlan f) (c : Checkpoint ι) : Prop where
  identity : c.identity = plan.identity
  next : c.next = firstMissing c.archiveParts
  parts_ascending : Ascending StoredArchivePart.number c.archiveParts
  parts : ∀ r ∈ c.archiveParts, ∃ p ∈ plan.parts, p.IsReceipt r
  segments_ascending : Ascending WriteSegmentReceipt.number c.writeSegments
  segments : ∀ r ∈ c.writeSegments, ∃ p ∈ plan.parts, Recorded c p ∧ ∃ s ∈ p.segments, s.IsReceipt r
  segments_all : ∀ p ∈ plan.parts, Recorded c p → ∀ s ∈ p.segments,
    ∃ r ∈ c.writeSegments, s.IsReceipt r
  completed : ∀ r ∈ c.completed, (∀ p ∈ plan.parts, Recorded c p) ∧ r.bytes = plan.storedBytes ∧
    r.completedAt ≠ [] ∧ r.retrievalCache.all RetrievalCacheReceipt.acceptable = true

/-- The planned parts that a checkpoint has recorded. -/
def WritePlan.recorded (plan : WritePlan f) (c : Checkpoint ι) : List PlannedPart :=
  plan.parts.filter fun p => Recorded c p

theorem WritePlan.mem_recorded : p ∈ plan.recorded c ↔ p ∈ plan.parts ∧ Recorded c p := by
  rw [recorded, mem_filter, decide_eq_true_eq]

namespace OfWrite

variable {plan : WritePlan f} {c : Checkpoint ι}

/-- The receipts of parts are those of the recorded parts, in the order of the plan. -/
theorem forall₂_parts (h : OfWrite plan c) :
    Forall₂ PlannedPart.IsReceipt (plan.recorded c) c.archiveParts := by
  refine forall₂_of_ascending (fun _ _ hr => hr.number)
    (plan.contiguous.ascending.sublist filter_sublist) h.parts_ascending ?_ ?_
  · intro p hp
    obtain ⟨hp, hrec⟩ := WritePlan.mem_recorded.1 hp
    obtain ⟨r, hr, hnumber⟩ := mem_map.1 hrec
    obtain ⟨q, hq, hqr⟩ := h.parts r hr
    rw [plan.part_ext hp hq (hnumber.symm.trans hqr.number.symm)]
    exact ⟨r, hr, hqr⟩
  · intro r hr
    obtain ⟨p, hp, hpr⟩ := h.parts r hr
    exact ⟨p, WritePlan.mem_recorded.2 ⟨hp, hpr.recorded hr⟩, hpr⟩

/-- The receipts of segments are those of the recorded parts, in the order of the plan. -/
theorem forall₂_segments (h : OfWrite plan c) :
    Forall₂ PlannedSegment.IsReceipt
      ((plan.recorded c).flatMap PlannedPart.segments) c.writeSegments := by
  have hasc : Ascending PlannedSegment.number ((plan.recorded c).flatMap PlannedPart.segments) :=
    plan.ascending.sublist (filter_sublist.flatMap _)
  refine forall₂_of_ascending (fun _ _ hr => hr.number) hasc h.segments_ascending ?_ ?_
  · intro s hs
    obtain ⟨p, hp, hs⟩ := mem_flatMap.1 hs
    obtain ⟨hp, hrec⟩ := WritePlan.mem_recorded.1 hp
    exact h.segments_all p hp hrec s hs
  · intro r hr
    obtain ⟨p, hp, hrec, s, hs, hsr⟩ := h.segments r hr
    exact ⟨s, mem_flatMap.2 ⟨p, WritePlan.mem_recorded.2 ⟨hp, hrec⟩, hs⟩, hsr⟩

/-- The stored bytes of the receipts are those of the recorded parts. -/
theorem storedBytesOf_eq (h : OfWrite plan c) :
    storedBytesOf c.archiveParts = ((plan.recorded c).map PlannedPart.storedBytes).sum := by
  have hmap : c.archiveParts.map StoredArchivePart.storedBytes =
      (plan.recorded c).map PlannedPart.storedBytes :=
    map_eq_of_forall₂ (fun _ _ hr => hr.storedBytes) h.forall₂_parts
  rw [storedBytesOf, hmap]

/-- The bytes of the segment receipts are those of the recorded parts. -/
theorem segmentBytes_eq (h : OfWrite plan c) : (c.writeSegments.map WriteSegmentReceipt.bytes).sum =
      ((plan.recorded c).map PlannedPart.storedBytes).sum := by
  have hmap : c.writeSegments.map WriteSegmentReceipt.bytes =
      ((plan.recorded c).flatMap PlannedPart.segments).map PlannedSegment.storedBytes :=
    map_eq_of_forall₂ (fun _ _ hr => hr.bytes) h.forall₂_segments
  rw [hmap]
  induction plan.recorded c with
  | nil => rfl
  | cons p ps ih =>
    rw [flatMap_cons, map_append, sum_append, ih, map_cons, sum_cons]
    rfl

end OfWrite

/-- Everything is recorded where all the bytes are. -/
theorem forall_of_sum_filter_eq (hpos : ∀ p ∈ ps, 0 < p.storedBytes)
    (h : ((ps.filter q).map PlannedPart.storedBytes).sum =
      (ps.map PlannedPart.storedBytes).sum) : ∀ p ∈ ps, q p = true := by
  induction ps with
  | nil => exact fun p hp => absurd hp not_mem_nil
  | cons p ps ih =>
    have hle : ((ps.filter q).map PlannedPart.storedBytes).sum ≤
        (ps.map PlannedPart.storedBytes).sum :=
      (filter_sublist.map _).sum_le_sum fun _ _ => Nat.zero_le _
    have hp := hpos p mem_cons_self
    have hrest := ih fun r hr => hpos r (mem_cons_of_mem _ hr)
    cases hq : q p with
    | false =>
      rw [filter_cons_of_neg (by simp [hq]), map_cons, sum_cons] at h
      omega
    | true =>
      rw [filter_cons_of_pos hq, map_cons, map_cons, sum_cons, sum_cons] at h
      intro r hr
      rcases mem_cons.1 hr with rfl | hr
      · exact hq
      · exact hrest (by omega) r hr

/-- A checkpoint with all stored bytes has all parts. -/
theorem OfWrite.recorded_of_bytes (h : OfWrite plan c)
    (hbytes : storedBytesOf c.archiveParts = plan.storedBytes) :
    ∀ p ∈ plan.parts, Recorded c p := by
  rw [h.storedBytesOf_eq] at hbytes
  exact fun p hp => of_decide_eq_true (forall_of_sum_filter_eq plan.stored_pos hbytes p hp)

/-! ## The next unit -/

/-- The loop stops at the first number that is missing, or when its fuel ends. -/
theorem firstMissingFrom_spec (numbers : List Nat) (fuel current : Nat) :
    current ≤ firstMissingFrom numbers fuel current ∧
      (∀ k, current ≤ k → k < firstMissingFrom numbers fuel current → k ∈ numbers) ∧
      (firstMissingFrom numbers fuel current ∈ numbers →
        firstMissingFrom numbers fuel current = current + fuel) := by
  induction fuel generalizing current with
  | zero => exact ⟨le_rfl, fun k h h' => absurd (h.trans_lt h') (lt_irrefl _), fun _ => rfl⟩
  | succ fuel ih =>
    rw [firstMissingFrom]
    split
    · rename_i hmem
      obtain ⟨hle, hall, hend⟩ := ih (current + 1)
      refine ⟨(Nat.le_succ _).trans hle, fun k hk hk' => ?_, fun h => by rw [hend h]; omega⟩
      rcases hk.eq_or_lt with rfl | hk
      · exact hmem
      · exact hall k hk hk'
    · rename_i hmem
      exact ⟨le_rfl, fun k h h' => absurd (h.trans_lt h') (lt_irrefl _), fun h => absurd h hmem⟩

/-- The next unit is the first one without a recorded part; unit `k` is part `k + 1`. -/
theorem firstMissing_spec (parts : List StoredArchivePart) :
    (∀ k < firstMissing parts, k + 1 ∈ parts.map StoredArchivePart.number) ∧
      firstMissing parts + 1 ∉ parts.map StoredArchivePart.number := by
  have hspec := firstMissingFrom_spec (parts.map StoredArchivePart.number) parts.length 1
  rw [firstMissing]
  obtain ⟨hle, hall, hend⟩ := hspec
  refine ⟨fun k hk => hall (k + 1) (by omega) (by omega), fun hmem => ?_⟩
  rw [Nat.sub_add_cancel hle] at hmem
  have hstop := hend hmem
  -- All of the numbers up to there would be recorded, one more than there are parts.
  have hsubset : range' 1 (parts.length + 1) ⊆ parts.map StoredArchivePart.number := by
    intro k hk
    rw [mem_range'_1] at hk
    rcases (Nat.lt_succ_iff.1 (show k < 1 + parts.length + 1 by omega)).eq_or_lt with rfl | hlt
    · exact hstop ▸ hmem
    · exact hall k hk.1 (by omega)
  have hlength := (subperm_of_subset nodup_range' hsubset).length_le
  simp at hlength

/-! ## What is checked of a checkpoint -/

/-- Receipts of contiguous parts cover the plaintext of those parts. -/
theorem coverage_of_forall₂ (hc : Contiguous n start ps)
    (h : Forall₂ PlannedPart.IsReceipt ps rs) :
    coverage f n start rs = .ok (start + (ps.map PlannedPart.plaintextBytes).sum) := by
  induction h generalizing n start with
  | nil => rfl
  | @cons p r ps rs hr _ ih =>
    have hnumber : r.number = n := hr.number.symm.trans hc.1
    have hstart : r.plaintextStart = start := hr.plaintextStart.trans hc.2.1
    simp only [coverage, hnumber, hstart, and_self, decide_true, require_true, ok_bind]
    rw [hr.plaintextBytes, ih hc.2.2, map_cons, sum_cons, Nat.add_assoc]

namespace OfWrite

variable {plan : WritePlan f} {c : Checkpoint ι}

theorem recorded_eq (hall : ∀ p ∈ plan.parts, Recorded c p) : plan.recorded c = plan.parts :=
  filter_eq_self.2 fun p hp => decide_eq_true (hall p hp)

/-- All parts together cover the plaintext. -/
theorem requireCompleteCoverage (h : OfWrite plan c) (hall : ∀ p ∈ plan.parts, Recorded c p) :
    requireCompleteCoverage f c.archiveParts (f.plaintextBytes c.identity) = .ok () := by
  have hcover := coverage_of_forall₂ (f := f) plan.contiguous (recorded_eq hall ▸ h.forall₂_parts)
  simp [Upload.requireCompleteCoverage, hcover, h.identity, plan.covers]

/-- A completion receipt of a write is one of all its parts. -/
theorem requireMergedCompletion (h : OfWrite plan c) : requireMergedCompletion f c = .ok () := by
  cases hc : c.completed with
  | none => simp [Upload.requireMergedCompletion, hc]
  | some r =>
    obtain ⟨hall, hbytes, -⟩ := h.completed r hc
    have hstored : r.bytes = storedBytesOf c.archiveParts := by
      rw [h.storedBytesOf_eq, recorded_eq hall, hbytes, WritePlan.storedBytes]
    simp [Upload.requireMergedCompletion, hc, h.requireCompleteCoverage hall, ← hstored]

end OfWrite

/-- Receipts of some of the planned parts are in order. -/
theorem requirePartOrder_of_forall₂ {number stop : Nat} (hc : Contiguous n start ps)
    (hstored : ∀ p ∈ ps, 0 < p.storedBytes)
    (hplain : f.refusesEmptyParts = true → ∀ p ∈ ps, 0 < p.plaintextBytes) (hn : number < n)
    (hstop : stop ≤ start) (h : Forall₂ PlannedPart.IsReceipt (ps.filter q) rs) :
    requirePartOrder f number stop rs = .ok () := by
  induction ps generalizing n start number stop rs with
  | nil =>
    cases h
    rfl
  | cons p ps ih =>
    have hstored' := fun r hr => hstored r (mem_cons_of_mem p hr)
    have hplain' := fun hf r hr => hplain hf r (mem_cons_of_mem p hr)
    obtain ⟨hnumber, hstart, hrest⟩ := hc
    cases hq : q p with
    | false =>
      rw [filter_cons_of_neg (by simp [hq])] at h
      exact ih hrest hstored' hplain' (hn.trans (Nat.lt_succ_self n))
        (hstop.trans (Nat.le_add_right _ _)) h
    | true =>
      rw [filter_cons_of_pos hq] at h
      obtain ⟨r, rs, hr, htail, rfl⟩ := forall₂_cons_left_iff.1 h
      have hcond : number < r.number ∧ stop ≤ r.plaintextStart ∧
          (f.refusesEmptyParts = true → 0 < r.plaintextBytes) ∧ 0 < r.storedBytes := by
        rw [← hr.number, hr.plaintextStart, hr.plaintextBytes, hr.storedBytes, hnumber, hstart]
        exact ⟨hn, hstop, fun hf => hplain hf p mem_cons_self, hstored p mem_cons_self⟩
      have hnext := ih hrest hstored' hplain' (Nat.lt_succ_self n) le_rfl htail
      rw [requirePartOrder, requireSha256, hr.plaintextSha256, require_true, ok_bind, requireSha256,
        hr.storedSha256, require_true, ok_bind, decide_eq_true hcond, require_true, ok_bind,
        ← hr.number, hnumber, hr.plaintextStart, hstart, hr.plaintextBytes, hnext]

/-- Receipts of planned segments can be read back. -/
theorem requireSegments_of_forall {rs : List WriteSegmentReceipt}
    (h : ∀ r ∈ rs, r.Acceptable) : requireSegments f rs = .ok () := by
  induction rs with
  | nil => rfl
  | cons r rs ih =>
    rw [requireSegments, f.requireSegment_ok (h r mem_cons_self), ok_bind,
      ih fun r hr => h r (mem_cons_of_mem _ hr)]

/-- What workers of a write save can be read back. -/
theorem OfWrite.validate (h : OfWrite plan c) : validate f c = .ok () := by
  have hparts : requirePartOrder f 0 0 c.archiveParts = .ok () :=
    requirePartOrder_of_forall₂ plan.contiguous plan.stored_pos plan.plaintext_pos
      Nat.zero_lt_one le_rfl h.forall₂_parts
  have hsegments : requireSegments f c.writeSegments = .ok () := by
    refine requireSegments_of_forall fun r hr => ?_
    obtain ⟨p, hp, -, s, hs, hsr⟩ := h.segments r hr
    obtain ⟨hnumber, hbytes⟩ := plan.segments_pos p hp s hs
    exact ⟨hsr.number ▸ hnumber, hsr.bytes ▸ hbytes, hsr.token, hsr.sha256⟩
  have hcompleted : requireStoredCompletion f c = .ok () := by
    cases hc : c.completed with
    | none => simp [requireStoredCompletion, hc]
    | some r =>
      obtain ⟨hall, hbytes, hat, hcache⟩ := h.completed r hc
      have hpos : 0 < plan.storedBytes := by
        obtain ⟨p, hp⟩ := exists_mem_of_ne_nil _ plan.nonempty
        exact (plan.stored_pos p hp).trans_le
          (single_le_sum (fun _ _ => Nat.zero_le _) _ (mem_map_of_mem hp))
      have hstored : storedBytesOf c.archiveParts = r.bytes := by
        rw [h.storedBytesOf_eq, recorded_eq hall, hbytes, WritePlan.storedBytes]
      have hsegmentBytes : (c.writeSegments.map WriteSegmentReceipt.bytes).sum = r.bytes := by
        rw [h.segmentBytes_eq, recorded_eq hall, hbytes, WritePlan.storedBytes]
      simp [requireStoredCompletion, requireRetrievalCacheReceipt, hc, hat, hcache,
        h.requireCompleteCoverage hall, hstored, hsegmentBytes, hbytes ▸ hpos]
  simp [Upload.validate, hparts, hsegments, hcompleted, h.segments_ascending.nodup, ← h.next]

/-! ## Steps of a worker -/

variable {parts : List StoredArchivePart} {part : StoredArchivePart}

theorem partByNumber_eq_none {number : Nat} (h : partByNumber parts number = none) :
    number ∉ parts.map StoredArchivePart.number := by
  rintro hmem
  obtain ⟨r, hr, hnumber⟩ := mem_map.1 hmem
  exact absurd hnumber (by simpa using find?_eq_none.1 h r hr)

/-- The recorded parts with one more are in order. -/
theorem ascending_withPart (h : Ascending StoredArchivePart.number parts)
    (part : StoredArchivePart) : Ascending StoredArchivePart.number (withPart parts part) := by
  refine pairwise_lt_sortedBy _ ?_
  cases hfind : partByNumber parts part.number with
  | some existing => exact h.nodup
  | none => exact nodup_map_append_singleton h.nodup (partByNumber_eq_none hfind)

/-- A part under a new number, or the same part again. -/
theorem mem_withPart
    (h : (partByNumber parts part.number).all (· = part) = true) (r : StoredArchivePart) :
    r ∈ withPart parts part ↔ r ∈ parts ∨ r = part := by
  rw [withPart, (sortedBy_perm _ _).mem_iff]
  cases hfind : partByNumber parts part.number with
  | none => simp
  | some existing =>
    rw [hfind, Option.all_some, decide_eq_true_eq] at h
    have hmem : part ∈ parts := h ▸ mem_of_find?_eq_some hfind
    exact ⟨.inl, fun hr => hr.elim id fun hr => hr ▸ hmem⟩

variable {plan : WritePlan f} {c c' : Checkpoint ι}

/-- What a worker has after recording a part. -/
theorem OfWrite.recordPart {p : PlannedPart}
    {segments : List WriteSegmentReceipt} (hc : OfWrite plan c) (hp : p ∈ plan.parts)
    (hpart : p.IsReceipt part) (hsegments : Forall₂ PlannedSegment.IsReceipt p.segments segments)
    (h : recordPart f c part segments = .ok c') : OfWrite plan c' := by
  obtain ⟨_, hexisting, h⟩ := bind_eq_ok.1 h
  obtain ⟨merged, hmerged, h⟩ := bind_eq_ok.1 h
  obtain ⟨-, hasc, hmem⟩ := (mergeKeyed_eq_ok_iff hc.segments_ascending
    (ascending_of_forall₂ (plan.segments_ascending hp) hsegments)).1 hmerged
  cases h
  have hparts := mem_withPart (require_eq_ok.1 hexisting)
  have hrec (q : PlannedPart) (hq : Recorded c q ∨ q = p) :
      q.number ∈ (withPart c.archiveParts part).map StoredArchivePart.number := by
    rcases hq with hq | rfl
    · obtain ⟨r, hr, hnumber⟩ := mem_map.1 hq
      exact mem_map.2 ⟨r, (hparts r).2 (.inl hr), hnumber⟩
    · exact mem_map.2 ⟨part, (hparts part).2 (.inr rfl), hpart.number.symm⟩
  refine ⟨hc.identity, rfl, ascending_withPart hc.parts_ascending part, fun r hr => ?_, hasc,
    fun r hr => ?_, fun q hq hqrec s hs => ?_, fun r hr => ?_⟩
  · rcases (hparts r).1 hr with hr | rfl
    · exact hc.parts r hr
    · exact ⟨p, hp, hpart⟩
  · rcases (hmem r).1 hr with hr | hr
    · obtain ⟨q, hq, hqrec, hs⟩ := hc.segments r hr
      exact ⟨q, hq, hrec q (.inl hqrec), hs⟩
    · obtain ⟨s, hs, hsr⟩ := forall₂_mem_right hsegments hr
      exact ⟨p, hp, hrec p (.inr rfl), s, hs, hsr⟩
  · obtain ⟨r, hr, hnumber⟩ := mem_map.1 hqrec
    rcases (hparts r).1 hr with hr | rfl
    · obtain ⟨r', hr', hsr⟩ := hc.segments_all q hq (mem_map.2 ⟨r, hr, hnumber⟩) s hs
      exact ⟨r', (hmem r').2 (.inl hr'), hsr⟩
    · obtain rfl : q = p := plan.part_ext hq hp (hnumber.symm.trans hpart.number.symm)
      obtain ⟨r', hr', hsr⟩ := forall₂_mem_right hsegments.flip hs
      exact ⟨r', (hmem r').2 (.inr hr'), hsr⟩
  · obtain ⟨hall, hrest⟩ := hc.completed r hr
    exact ⟨fun q hq => hrec q (.inl (hall q hq)), hrest⟩

/-- What a worker has after completing the write. -/
theorem OfWrite.markCompleted {r : CompletedObjectReceipt} (hc : OfWrite plan c) (hr : r.Of plan)
    (h : f.markCompleted c r = .ok c') : OfWrite plan c' := by
  obtain ⟨hbytes, rfl⟩ := f.markCompleted_eq_ok h
  have hall := hc.recorded_of_bytes (hbytes.symm.trans hr.bytes)
  have hparts : sortedBy StoredArchivePart.number c.archiveParts = c.archiveParts :=
    (sortedBy_eq_self_iff _).2 (hc.parts_ascending.imp le_of_lt)
  have hsegments : sortedBy WriteSegmentReceipt.number c.writeSegments = c.writeSegments :=
    (sortedBy_eq_self_iff _).2 (hc.segments_ascending.imp le_of_lt)
  rw [sealCheckpoint, hparts, hsegments]
  refine ⟨hc.identity, hc.next, hc.parts_ascending, hc.parts, hc.segments_ascending, hc.segments,
    hc.segments_all, fun r' hr' => ?_⟩
  cases hr'
  exact ⟨hall, hr.bytes, hr.completedAt, hr.retrievalCache⟩

end Riverhog.Upload
