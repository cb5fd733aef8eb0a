import Mathlib.Data.List.Basic
import Mathlib.Algebra.Order.Group.Nat

/-!
# Greedy grouping of a list

A loop that collects items in a pending group and closes the group before the item
that no longer belongs to it. The groups are the items in order, cut into non-empty
pieces (`flatten_groupsFrom`); `forall_mem_groupsFrom` is the induction rule for what
every group satisfies. When a group is closed as soon as it is complete, whatever the
next item is, the loop cuts as often as any way to cut the list into complete pieces
can (`length_groups_le_iff`).
-/

namespace Riverhog.Core.Greedy

open List

variable {α : Type*}

/-- The groups of the items, after the pending ones: a pending group is closed before an item for
which it is full. -/
def groupsFrom (full : List α → α → Bool) : List α → List α → List (List α)
  | pending, [] => if pending.isEmpty then [] else [pending]
  | pending, x :: xs =>
    if !pending.isEmpty && full pending x then pending :: groupsFrom full [x] xs
    else groupsFrom full (pending ++ [x]) xs

/-- The groups of the items. -/
def groups (full : List α → α → Bool) (xs : List α) : List (List α) := groupsFrom full [] xs

section Rules

variable {full : List α → α → Bool}

variable {pending xs : List α} {P : List α → Prop}

theorem groupsFrom_nil (hp : pending ≠ []) : groupsFrom full pending [] = [pending] := by
  simp [groupsFrom, hp]

theorem groupsFrom_cons_full {x : α} (hp : pending ≠ []) (hf : full pending x = true)
    (xs : List α) : groupsFrom full pending (x :: xs) = pending :: groupsFrom full [x] xs := by
  simp [groupsFrom, hp, hf]

theorem groupsFrom_cons_open {x : α} (ho : pending = [] ∨ full pending x = false) (xs : List α) :
    groupsFrom full pending (x :: xs) = groupsFrom full (pending ++ [x]) xs := by
  rcases ho with rfl | ho <;> simp [groupsFrom, *]

/-- The groups hold every item, in order. -/
theorem flatten_groupsFrom (pending xs : List α) :
    (groupsFrom full pending xs).flatten = pending ++ xs := by
  induction xs generalizing pending with
  | nil => by_cases hp : pending = [] <;> simp [groupsFrom, hp]
  | cons x xs ih =>
    rw [groupsFrom]
    split_ifs
    · rw [flatten_cons, ih, singleton_append]
    · rw [ih, append_assoc, singleton_append]

theorem flatten_groups (xs : List α) : (groups full xs).flatten = xs :=
  flatten_groupsFrom [] xs

/-- What holds of a single item, and of a group with one more item as long as the group was not full
for it, holds of every group. -/
theorem forall_mem_groupsFrom (hs : ∀ x, P [x])
    (ha : ∀ pending x, pending ≠ [] → P pending → full pending x = false → P (pending ++ [x]))
    (hp : pending = [] ∨ P pending) (xs : List α) :
    ∀ group ∈ groupsFrom full pending xs, P group := by
  induction xs generalizing pending with
  | nil =>
    rcases hp with rfl | hp
    · simp [groupsFrom]
    · by_cases hne : pending = [] <;> simp [groupsFrom, hne, hp]
  | cons x xs ih =>
    by_cases hne : pending = []
    · rw [groupsFrom_cons_open (.inl hne), hne, nil_append]
      exact ih (.inr (hs x))
    · have hpending := hp.resolve_left hne
      cases hf : full pending x with
      | true =>
        rw [groupsFrom_cons_full hne hf, forall_mem_cons]
        exact ⟨hpending, ih (.inr (hs x))⟩
      | false =>
        rw [groupsFrom_cons_open (.inr hf)]
        exact ih (.inr (ha pending x hne hpending hf))

theorem forall_mem_groups (hs : ∀ x, P [x])
    (ha : ∀ pending x, pending ≠ [] → P pending → full pending x = false → P (pending ++ [x]))
    (xs : List α) : ∀ group ∈ groups full xs, P group :=
  forall_mem_groupsFrom hs ha (.inl rfl) xs

theorem ne_nil_of_mem_groups {group : List α} (h : group ∈ groups full xs) : group ≠ [] := by
  have hall : ∀ g ∈ groups full xs, g ≠ [] :=
    forall_mem_groups (fun x => cons_ne_nil x []) (fun pending x _ _ _ => by simp) xs
  exact hall group h

/-- There is a group as long as there is an item. -/
theorem groupsFrom_ne_nil (h : pending ++ xs ≠ []) : groupsFrom full pending xs ≠ [] := by
  intro he
  have hflat := @flatten_groupsFrom α full pending xs
  rw [he] at hflat
  exact h hflat.symm

/-- Items that never fill a group are one group. -/
theorem groups_eq_singleton (hx : xs ≠ [])
    (h : ∀ pending x rest, xs = pending ++ x :: rest → full pending x = false) :
    groups full xs = [xs] := by
  have hfrom : ∀ rest pending, xs = pending ++ rest → groupsFrom full pending rest = [xs] := by
    intro rest
    induction rest with
    | nil =>
      rintro pending rfl
      rw [append_nil] at hx ⊢
      exact groupsFrom_nil hx
    | cons x rest ih =>
      intro pending he
      rw [groupsFrom_cons_open (.inr (h pending x rest he))]
      exact ih _ (by rw [he, append_assoc, singleton_append])
  exact hfrom xs [] rfl

end Rules

/-! ## Groups that are closed once they are complete -/

section Complete

variable {complete : List α → Bool}

variable {xs : List α}

/-- Every group but the last is complete. -/
theorem complete_of_mem_dropLast {pending group : List α}
    (h : group ∈ (groupsFrom (fun g _ => complete g) pending xs).dropLast) :
    complete group = true := by
  induction xs generalizing pending with
  | nil =>
    by_cases hp : pending = [] <;> simp [groupsFrom, hp] at h
  | cons x xs ih =>
    rw [groupsFrom] at h
    split_ifs at h with hc
    · rw [dropLast_cons_of_ne_nil (groupsFrom_ne_nil (by simp))] at h
      rcases mem_cons.1 h with rfl | h
      · simp only [Bool.and_eq_true] at hc
        exact hc.2
      · exact ih h
    · exact ih h

variable (hnil : complete [] = false) (hleft : ∀ a b, complete b = true → complete (a ++ b) = true)

include hleft

/-- More pending items close a group more or less once. -/
theorem length_groupsFrom_append (a pending xs : List α) :
    (groupsFrom (fun g _ => complete g) pending xs).length ≤
        (groupsFrom (fun g _ => complete g) (a ++ pending) xs).length ∧
      (groupsFrom (fun g _ => complete g) (a ++ pending) xs).length ≤
        (groupsFrom (fun g _ => complete g) pending xs).length + 1 := by
  induction xs generalizing a pending with
  | nil =>
    by_cases ha : a = [] <;> by_cases hp : pending = [] <;> simp [groupsFrom, ha, hp]
  | cons x xs ih =>
    by_cases hp : pending ≠ [] ∧ complete pending = true
    · have hne : a ++ pending ≠ [] := append_ne_nil_of_right_ne_nil a hp.1
      rw [groupsFrom_cons_full hp.1 hp.2, groupsFrom_cons_full hne (hleft a pending hp.2),
        length_cons, length_cons]
      omega
    · have ho : pending = [] ∨ complete pending = false := by
        rw [← Bool.not_eq_true]
        tauto
      rw [groupsFrom_cons_open ho]
      by_cases hap : a ++ pending ≠ [] ∧ complete (a ++ pending) = true
      · -- only the longer group is closed, so the shorter one still has its items pending
        have h := ih pending [x]
        rw [groupsFrom_cons_full hap.1 hap.2, length_cons]
        omega
      · have hao : a ++ pending = [] ∨ complete (a ++ pending) = false := by
          rw [← Bool.not_eq_true]
          tauto
        rw [groupsFrom_cons_open hao, append_assoc]
        exact ih a (pending ++ [x])

/-- Items in front never lose a group. -/
theorem length_groups_le_append (pending q xs : List α) :
    (groups (fun g _ => complete g) xs).length ≤
      (groupsFrom (fun g _ => complete g) pending (q ++ xs)).length := by
  induction q generalizing pending with
  | nil =>
    have h := (length_groupsFrom_append hleft pending [] xs).1
    rwa [append_nil] at h
  | cons x q ih =>
    rw [cons_append, groupsFrom]
    split_ifs
    · rw [length_cons]
      exact (ih [x]).trans (Nat.le_succ _)
    · exact ih (pending ++ [x])

include hnil

/-- Items that complete the pending group close a group of their own. -/
theorem length_groups_lt_append {pending q : List α} (hx : xs ≠ [])
    (hc : complete (pending ++ q) = true) : (groups (fun g _ => complete g) xs).length <
      (groupsFrom (fun g _ => complete g) pending (q ++ xs)).length := by
  have hne : ∀ g, complete g = true → g ≠ [] := by
    rintro g hg rfl
    rw [hnil] at hg
    cases hg
  induction q generalizing pending with
  | nil =>
    obtain ⟨y, ys, rfl⟩ := exists_cons_of_ne_nil hx
    rw [append_nil] at hc
    rw [nil_append, groupsFrom_cons_full (hne _ hc) hc, groups, groupsFrom_cons_open (.inl rfl),
      length_cons]
    exact Nat.lt_succ_self _
  | cons x q ih =>
    rw [cons_append]
    cases hp : complete pending with
    | true =>
      rw [groupsFrom_cons_full (hne _ hp) hp, length_cons]
      exact Nat.lt_succ_of_le (length_groups_le_append hleft [x] q xs)
    | false =>
      rw [groupsFrom_cons_open (.inr hp)]
      apply ih
      rwa [append_assoc]

/-- However the items are cut into complete pieces and a last one, the loop makes as many groups. -/
theorem length_pieces_lt {pieces : List (List α)} {last : List α} (hlast : last ≠ [])
    (hpieces : ∀ piece ∈ pieces, complete piece = true) :
    pieces.length < (groups (fun g _ => complete g) (pieces.flatten ++ last)).length := by
  induction pieces with
  | nil => exact length_pos_iff.2 (groupsFrom_ne_nil (by simpa using hlast))
  | cons piece pieces ih =>
    rw [forall_mem_cons] at hpieces
    have hne : pieces.flatten ++ last ≠ [] := append_ne_nil_of_right_ne_nil _ hlast
    have hlt : (groups (fun g _ => complete g) (pieces.flatten ++ last)).length <
        (groups (fun g _ => complete g) (piece ++ (pieces.flatten ++ last))).length :=
      length_groups_lt_append hnil hleft hne hpieces.1
    have hrest := ih hpieces.2
    rw [flatten_cons, append_assoc, length_cons]
    exact lt_of_le_of_lt hrest hlt

/-- The loop makes at most `n` groups exactly when the items cannot be cut into `n` complete pieces
and something more. -/
theorem length_groups_le_iff {n : Nat} (hx : xs ≠ []) :
    (groups (fun g _ => complete g) xs).length ≤ n ↔
      ∀ (pieces : List (List α)) (last : List α), xs = pieces.flatten ++ last → last ≠ [] →
        (∀ piece ∈ pieces, complete piece = true) → pieces.length < n := by
  constructor
  · rintro h pieces last rfl hlast hpieces
    exact (length_pieces_lt hnil hleft hlast hpieces).trans_le h
  · intro h
    have hne : groups (fun g _ => complete g) xs ≠ [] := groupsFrom_ne_nil (by simpa using hx)
    have hsplit := dropLast_append_getLast hne
    have hcut : xs = (groups (fun g _ => complete g) xs).dropLast.flatten ++
        (groups (fun g _ => complete g) xs).getLast hne := by
      conv_lhs => rw [← @flatten_groups α (fun g _ => complete g) xs, ← hsplit]
      rw [flatten_append, flatten_singleton]
    have hlt := h _ _ hcut (ne_nil_of_mem_groups (getLast_mem hne))
      fun piece hm => complete_of_mem_dropLast hm
    rw [length_dropLast] at hlt
    omega

end Complete

end Riverhog.Core.Greedy
