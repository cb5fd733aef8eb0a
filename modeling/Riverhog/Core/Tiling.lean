import Mathlib.Data.List.Count
import Mathlib.Tactic.Linarith

/-!
# Ranges that tile an interval

A range is an offset with a length. A sequence of ranges tiles `[0, size)` once when
every position lies in exactly one of them and a range without a position occurs only
alone, as the one range of an empty interval. A loop that walks over sorted ranges
checks a chain: each range starts where the one before it stops. A chain covers every
position once, but lets empty ranges pass; `tilesOnce_iff_chain` says that this is all
it lets pass.
-/

namespace Riverhog.Core.Tiling

open List

/-- A range of positions. -/
structure Range where
  offset : ℤ
  length : ℤ

/-- The range holds the position `i`. -/
def Range.Covers (r : Range) (i : ℤ) : Prop := r.offset ≤ i ∧ i < r.offset + r.length

instance (r : Range) (i : ℤ) : Decidable (r.Covers i) :=
  inferInstanceAs (Decidable (_ ∧ _))

/-- How many of the ranges hold the position `i`. -/
def coverage (ranges : List Range) (i : ℤ) : Nat := ranges.countP fun r => decide (r.Covers i)

/-- Each range starts where the one before it stops. -/
def Chain : ℤ → List Range → ℤ → Prop
  | start, [], stop => start = stop
  | start, r :: rest, stop => r.offset = start ∧ 0 ≤ r.length ∧ Chain (start + r.length) rest stop

/-- An empty range stands alone. -/
def NoSurplus (ranges : List Range) : Prop := ∀ r ∈ ranges, r.length = 0 → ranges.length = 1

/-- The ranges tile `[0, size)` exactly once. -/
structure TilesOnce (ranges : List Range) (size : ℤ) : Prop where
  nonempty : ranges ≠ []
  nonneg : ∀ r ∈ ranges, 0 ≤ r.length
  within : ∀ r ∈ ranges, 0 ≤ r.offset ∧ r.offset + r.length ≤ size
  noSurplus : NoSurplus ranges
  once : ∀ i, 0 ≤ i → i < size → coverage ranges i = 1

instance decidableChain : ∀ start ranges stop, Decidable (Chain start ranges stop)
  | start, [], stop => inferInstanceAs (Decidable (start = stop))
  | start, r :: rest, stop =>
    haveI := decidableChain (start + r.length) rest stop
    inferInstanceAs (Decidable (r.offset = start ∧ 0 ≤ r.length ∧ _))

theorem coverage_cons (r : Range) (rest : List Range) (i : ℤ) :
    coverage (r :: rest) i = coverage rest i + if r.Covers i then 1 else 0 := by
  simp only [coverage, countP_cons, decide_eq_true_eq]

variable {ranges ranges' : List Range} {r : Range} {size start stop : ℤ}

theorem coverage_perm (h : ranges.Perm ranges') (i : ℤ) :
    coverage ranges i = coverage ranges' i := h.countP_eq _

/-- A range that holds a position is counted there. -/
theorem coverage_pos (hr : r ∈ ranges) {i : ℤ} (hi : r.Covers i) : 0 < coverage ranges i :=
  countP_pos_iff.2 ⟨r, hr, decide_eq_true hi⟩

/-! ## Chains -/

theorem Chain.start_le (h : Chain start ranges stop) : start ≤ stop := by
  induction ranges generalizing start with
  | nil => exact le_of_eq h
  | cons r rest ih =>
    obtain ⟨-, hlen, hrest⟩ := h
    have := ih hrest
    omega

/-- The ranges of a chain lie between its ends. -/
theorem Chain.bounds (h : Chain start ranges stop) (hr : r ∈ ranges) :
    start ≤ r.offset ∧ 0 ≤ r.length ∧ r.offset + r.length ≤ stop := by
  induction ranges generalizing start with
  | nil => cases hr
  | cons first rest ih =>
    obtain ⟨hoff, hlen, hrest⟩ := h
    rcases mem_cons.1 hr with rfl | hr
    · have := hrest.start_le
      omega
    · have := ih hrest hr
      omega

/-- A chain covers every position between its ends exactly once. -/
theorem Chain.coverage_eq (h : Chain start ranges stop) (i : ℤ) :
    coverage ranges i = if start ≤ i ∧ i < stop then 1 else 0 := by
  induction ranges generalizing start with
  | nil =>
    obtain rfl : start = stop := h
    rw [if_neg (by omega)]
    rfl
  | cons r rest ih =>
    obtain ⟨hoff, hlen, hrest⟩ := h
    have hle := hrest.start_le
    have hcov : r.Covers i ↔ start ≤ i ∧ i < start + r.length := by
      rw [← hoff]
      exact Iff.rfl
    rw [coverage_cons, ih hrest]
    simp only [hcov]
    split_ifs <;> omega

/-- Sorted ranges without an empty one, which cover every position once, are a chain. -/
theorem chain_of_coverage (hle : start ≤ stop)
    (hs : ranges.Pairwise fun r r' => r.offset ≤ r'.offset) (hpos : ∀ r ∈ ranges, 0 < r.length)
    (hin : ∀ r ∈ ranges, start ≤ r.offset ∧ r.offset + r.length ≤ stop)
    (honce : ∀ i, start ≤ i → i < stop → coverage ranges i = 1) : Chain start ranges stop := by
  induction ranges generalizing start with
  | nil =>
    by_contra hne
    have hlt : start < stop := lt_of_le_of_ne hle hne
    exact absurd (honce start le_rfl hlt) (by simp [coverage])
  | cons r rest ih =>
    have hr := hpos r mem_cons_self
    have hb := hin r mem_cons_self
    rw [pairwise_cons] at hs
    -- the first position is covered, and no range starts before the first one
    have hoff : r.offset = start := by
      have hc : 0 < coverage (r :: rest) start := by
        rw [honce start le_rfl (by omega)]
        exact one_pos
      obtain ⟨r', hr', hcov⟩ := countP_pos_iff.1 hc
      have hcov : r'.Covers start := of_decide_eq_true hcov
      rcases mem_cons.1 hr' with rfl | hr'
      · exact le_antisymm hcov.1 hb.1
      · exact le_antisymm ((hs.1 r' hr').trans hcov.1) hb.1
    refine ⟨hoff, hr.le, ih (by omega) hs.2 (fun r' h' => hpos r' (mem_cons_of_mem _ h'))
      (fun r' h' => ?_) fun i hi hstop => ?_⟩
    · have hb' := hin r' (mem_cons_of_mem _ h')
      have hp' := hpos r' (mem_cons_of_mem _ h')
      refine ⟨?_, hb'.2⟩
      by_contra hlt
      -- both `r` and `r'` would hold the first position of `r'`
      have htwo := honce r'.offset hb'.1 (by omega)
      have hpos' : 0 < coverage rest r'.offset := coverage_pos h' ⟨le_rfl, by omega⟩
      rw [coverage_cons, if_pos ⟨by omega, by omega⟩] at htwo
      omega
    · have hone := honce i (by omega) hstop
      have hnot : ¬ r.Covers i := fun hc => by
        have := hc.2
        omega
      rwa [coverage_cons, if_neg hnot] at hone

/-! ## Tilings -/

theorem NoSurplus.perm (hp : ranges.Perm ranges') (h : NoSurplus ranges) :
    NoSurplus ranges' := fun r hr hz =>
  hp.length_eq ▸ h r (hp.mem_iff.2 hr) hz

/-- The order of the ranges does not matter. -/
theorem TilesOnce.perm (hp : ranges.Perm ranges') (h : TilesOnce ranges size) :
    TilesOnce ranges' size where
  nonempty := fun hnil => h.nonempty (perm_nil.1 (hnil ▸ hp))
  nonneg := fun r hr => h.nonneg r (hp.mem_iff.2 hr)
  within := fun r hr => h.within r (hp.mem_iff.2 hr)
  noSurplus := h.noSurplus.perm hp
  once := fun i h₀ h₁ => by
    rw [← coverage_perm hp]
    exact h.once i h₀ h₁

theorem tilesOnce_perm (hp : ranges.Perm ranges') :
    TilesOnce ranges size ↔ TilesOnce ranges' size := ⟨.perm hp, .perm hp.symm⟩

/-- The ranges of a tiling of a non-empty interval are not empty. -/
theorem TilesOnce.pos (h : TilesOnce ranges size) (hsize : 0 < size) (hr : r ∈ ranges) :
    0 < r.length := by
  refine lt_of_le_of_ne (h.nonneg r hr) fun hz => ?_
  obtain ⟨r', rfl⟩ := length_eq_one_iff.1 (h.noSurplus r hr hz.symm)
  obtain rfl := mem_singleton.1 hr
  have hone := h.once 0 le_rfl hsize
  have hb := h.within r hr
  have hnot : ¬ r.Covers 0 := fun hc => by
    have := hc.1
    have := hc.2
    omega
  rw [coverage_cons, if_neg hnot] at hone
  exact absurd hone (by simp [coverage])

/-- A chain without an empty range is a tiling. -/
theorem Chain.tilesOnce (h : Chain 0 ranges size) (hne : ranges ≠ [])
    (hpos : ∀ r ∈ ranges, 0 < r.length) : TilesOnce ranges size where
  nonempty := hne
  nonneg := fun r hr => (hpos r hr).le
  within := fun r hr => ⟨(h.bounds hr).1, (h.bounds hr).2.2⟩
  noSurplus := fun r hr hz => absurd hz (hpos r hr).ne'
  once := fun i h₀ h₁ => by rw [h.coverage_eq, if_pos ⟨h₀, h₁⟩]

/-- For sorted ranges: a tiling is a chain in which an empty range stands alone. -/
theorem tilesOnce_iff_chain (hsize : 0 ≤ size)
    (hs : ranges.Pairwise fun r r' => r.offset ≤ r'.offset) :
    TilesOnce ranges size ↔ ranges ≠ [] ∧ Chain 0 ranges size ∧ NoSurplus ranges := by
  constructor
  · intro h
    refine ⟨h.nonempty, ?_, h.noSurplus⟩
    by_cases hzero : size = 0
    · -- an empty interval has one range, which is empty
      obtain ⟨r, rest, rfl⟩ := exists_cons_of_ne_nil h.nonempty
      have hn := h.nonneg r mem_cons_self
      have hb := h.within r mem_cons_self
      have hlen := h.noSurplus r mem_cons_self (by omega)
      obtain rfl : rest = [] := length_eq_zero_iff.1 (by simpa using hlen)
      exact ⟨by omega, hn, by simp only [Chain]; omega⟩
    · exact chain_of_coverage hsize hs (fun r hr => h.pos (by omega) hr) h.within h.once
  · rintro ⟨hne, hchain, hsurplus⟩
    refine ⟨hne, fun r hr => (hchain.bounds hr).2.1, fun r hr => ?_, hsurplus, fun i h₀ h₁ => ?_⟩
    · have := hchain.bounds hr
      omega
    · rw [hchain.coverage_eq, if_pos ⟨h₀, h₁⟩]

/-- Ranges beside copies of the whole interval: either one copy and nothing else, or no copy. -/
theorem tilesOnce_replicate_append_iff {copies : Nat} (hsize : 0 ≤ size) :
    TilesOnce (replicate copies ⟨0, size⟩ ++ ranges) size ↔
      copies = 1 ∧ ranges = [] ∨ copies = 0 ∧ TilesOnce ranges size := by
  cases copies with
  | zero => simp
  | succ copies =>
    have hcons : replicate (copies + 1) (⟨0, size⟩ : Range) ++ ranges =
        ⟨0, size⟩ :: (replicate copies ⟨0, size⟩ ++ ranges) := by
      rw [replicate_succ, cons_append]
    rw [hcons]
    have hone : TilesOnce [⟨0, size⟩] size :=
      (tilesOnce_iff_chain hsize (pairwise_singleton _ _)).2
        ⟨cons_ne_nil _ _, ⟨rfl, hsize, by simp [Chain]⟩, fun _ _ _ => rfl⟩
    constructor
    · intro h
      -- a second range would be empty beside another one, or cover a position again
      have hrest : replicate copies (⟨0, size⟩ : Range) ++ ranges = [] := by
        by_contra hne
        obtain ⟨r, rest, hr⟩ := exists_cons_of_ne_nil hne
        rw [hr] at h
        have hmem : r ∈ (⟨0, size⟩ : Range) :: r :: rest := mem_cons_of_mem _ mem_cons_self
        have hb := h.within r hmem
        have hn := h.nonneg r hmem
        by_cases hz : r.length = 0
        · exact absurd (h.noSurplus r hmem hz) (by simp)
        · have htwo := h.once r.offset hb.1 (by omega)
          have hself : r.Covers r.offset := ⟨le_rfl, by omega⟩
          rw [coverage_cons, coverage_cons, if_pos hself, if_pos ⟨hb.1, by simp only; omega⟩] at htwo
          omega
      rw [append_eq_nil_iff, replicate_eq_nil_iff] at hrest
      exact .inl ⟨by omega, hrest.2⟩
    · rintro (⟨hc, rfl⟩ | ⟨hc, -⟩)
      · obtain rfl : copies = 0 := by omega
        exact hone
      · omega

end Riverhog.Core.Tiling
