import Riverhog.Core.Python

/-!
# Loops that accept items one by one

A loop that checks each item against the items it has accepted so far. When a check
amounts to a condition on the item alone and a relation to each accepted item, the
loop accepts a list exactly when every item meets the condition and the items are
pairwise related: for a symmetric relation the order of the list does not matter.
-/

namespace Riverhog.Core

open List

variable {ε α κ : Type}

/-- Check each item against the accepted ones and accept it. -/
def accept (check : List α → α → Except ε Unit) : List α → List α → Except ε (List α)
  | seen, [] => .ok seen
  | seen, x :: rest => do
    check seen x
    accept check (seen ++ [x]) rest

variable {check : List α → α → Except ε Unit} {P : α → Prop} {R : α → α → Prop}

/-- What a loop accepts after some items have been seen. -/
theorem accept_eq_ok_iff (hcheck : ∀ seen x, check seen x = .ok () ↔ P x ∧ ∀ y ∈ seen, R y x)
    {seen items out : List α} :
    accept check seen items = .ok out ↔
      out = seen ++ items ∧ (∀ x ∈ items, P x ∧ ∀ y ∈ seen, R y x) ∧ items.Pairwise R := by
  induction items generalizing seen with
  | nil =>
    simp only [accept, Except.ok.injEq, append_nil, not_mem_nil, false_imp_iff,
      implies_true, Pairwise.nil, and_true]
    exact eq_comm
  | cons x rest ih =>
    rw [accept, bind_eq_ok, pairwise_cons]
    simp only [hcheck, ih, mem_append, mem_cons, not_mem_nil, or_false,
      append_assoc, singleton_append]
    constructor
    · rintro ⟨_, hx, rfl, hrest, hpw⟩
      refine ⟨rfl, ?_, fun y hy => (hrest y hy).2 x (.inr rfl), hpw⟩
      rintro y (rfl | hy)
      · exact hx
      · exact ⟨(hrest y hy).1, fun z hz => (hrest y hy).2 z (.inl hz)⟩
    · rintro ⟨rfl, hall, hfirst, hpw⟩
      refine ⟨(), hall x (.inl rfl), rfl, fun y hy => ⟨(hall y (.inr hy)).1, ?_⟩, hpw⟩
      rintro z (hz | rfl)
      · exact (hall y (.inr hy)).2 z hz
      · exact hfirst y hy

/-- A loop that starts with nothing accepted. -/
theorem accept_nil_eq_ok_iff
    (hcheck : ∀ seen x, check seen x = .ok () ↔ P x ∧ ∀ y ∈ seen, R y x) {items out : List α} :
    accept check [] items = .ok out ↔ out = items ∧ (∀ x ∈ items, P x) ∧ items.Pairwise R := by
  rw [accept_eq_ok_iff hcheck]
  simp

end Riverhog.Core
