import Riverhog.Core.Python

/-!
# Reading a table in pages

A table with distinct keys is read in key order, one bounded page after another; the
cursor is the key of the last row read. Whatever the page sizes are, the rows read so
far and the rows still to come are the two parts of the sorted table (`pageAfter_lastKey`).
-/

namespace Riverhog.Core

open List

section Paging

variable {α κ ε σ : Type} [LinearOrder κ] {key : α → κ} {rows : List α}

/-- `SELECT … WHERE key > after ORDER BY key LIMIT limit`. -/
def pageAfter (key : α → κ) (rows : List α) (after : Option κ) (limit : Nat) : List α :=
  ((sortedBy key rows).filter fun r => after.all fun k => decide (k < key r)).take limit

/-- The cursor after some rows. -/
def lastKey (key : α → κ) (read : List α) : Option κ := read.getLast?.map key

variable {read rest : List α} {limit : Nat} {after : Option κ} {a : α}

theorem lastKey_append {page : List α} (h : page ≠ []) :
    lastKey key (read ++ page) = lastKey key page := by
  rw [lastKey, lastKey, getLast?_append, getLast?_eq_some_getLast h, Option.some_or]

theorem lastKey_concat (read : List α) (a : α) : lastKey key (read ++ [a]) = some (key a) := by
  rw [lastKey, getLast?_concat]
  rfl

/-- The rows after the cursor are the rows not yet read. -/
theorem filter_after (hs : (read ++ rest).Pairwise fun a b => key a < key b) :
    ((read ++ rest).filter fun r => (lastKey key read).all fun k => decide (k < key r)) = rest := by
  rw [pairwise_append] at hs
  obtain ⟨hread, -, hcross⟩ := hs
  rw [filter_append]
  cases hl : read.getLast? with
  | none =>
    rw [getLast?_eq_none_iff.1 hl]
    simp [lastKey]
  | some last =>
    have hmem : last ∈ read := mem_of_getLast? hl
    have hcut : read = read.dropLast ++ [last] := (dropLast_append_getLast? last hl).symm
    have hle : ∀ r ∈ read, ¬ key last < key r := by
      intro r hr
      rw [hcut, pairwise_append] at hread
      rw [hcut, mem_append, mem_singleton] at hr
      rcases hr with hr | rfl
      · exact (hread.2.2 r hr last (mem_singleton_self _)).not_gt
      · exact lt_irrefl _
    rw [lastKey, hl, Option.map_some, filter_eq_nil_iff.2, filter_eq_self.2, nil_append]
    · intro r hr
      simpa using hcross last hmem r hr
    · intro r hr
      simpa using le_of_not_gt (hle r hr)

/-- A page is the next part of the sorted table. -/
theorem pageAfter_lastKey (hn : (rows.map key).Nodup) (hs : sortedBy key rows = read ++ rest)
    (limit : Nat) : pageAfter key rows (lastKey key read) limit = rest.take limit := by
  have hlt := pairwise_lt_sortedBy key hn
  rw [hs] at hlt
  rw [pageAfter, hs, filter_after hlt]

/-! ## Tables with equal keys

Rows with equal keys can be cut apart by a page; the keys are still all passed. -/

theorem mem_pageAfter (h : a ∈ pageAfter key rows after limit) :
    a ∈ rows ∧ ∀ c ∈ after, c < key a := by
  have hfilter := mem_filter.1 (mem_of_mem_take h)
  refine ⟨(sortedBy_perm key rows).mem_iff.1 hfilter.1, fun c hc => ?_⟩
  obtain rfl := hc
  simpa using hfilter.2

theorem pairwise_pageAfter (after : Option κ) (limit : Nat) :
    (pageAfter key rows after limit).Pairwise fun a b => key a ≤ key b :=
  ((pairwise_sortedBy key rows).filter _).sublist (take_sublist _ _)

/-- A row after the cursor has its key on the page, or comes after the whole page. -/
theorem mem_keys_or_lt_of_pageAfter (limit : Nat) (ha : a ∈ rows)
    (hafter : ∀ c ∈ after, c < key a) :
    key a ∈ (pageAfter key rows after limit).map key ∨
      ∀ b ∈ pageAfter key rows after limit, key b < key a := by
  have hmem : a ∈ (sortedBy key rows).filter fun r => after.all fun k => decide (k < key r) := by
    refine mem_filter.2 ⟨(sortedBy_perm key rows).mem_iff.2 ha, ?_⟩
    cases after with
    | none => rfl
    | some c => simpa using hafter c rfl
  have hsorted := (pairwise_sortedBy key rows).filter fun r => after.all fun k => decide (k < key r)
  rw [← take_append_drop limit (filter _ _), mem_append] at hmem
  rw [← take_append_drop limit (filter _ _), pairwise_append] at hsorted
  rcases hmem with hmem | hmem
  · exact .inl (mem_map_of_mem hmem)
  · by_cases hkey : key a ∈ (pageAfter key rows after limit).map key
    · exact .inl hkey
    · refine .inr fun b hb => lt_of_le_of_ne (hsorted.2.2 b hb a hmem) fun heq => hkey ?_
      exact mem_map.2 ⟨b, hb, heq⟩

/-- When the next page is empty, no row lies after the cursor. -/
theorem not_after_of_pageAfter_eq_nil (hl : 0 < limit) (h : pageAfter key rows after limit = [])
    (ha : a ∈ rows) : ¬ ∀ c ∈ after, c < key a := by
  intro hafter
  rw [pageAfter, take_eq_nil_iff, or_iff_right hl.ne', filter_eq_nil_iff] at h
  refine h a ((sortedBy_perm key rows).mem_iff.2 ha) ?_
  cases after with
  | none => rfl
  | some c => simpa using hafter c rfl

end Paging

end Riverhog.Core
