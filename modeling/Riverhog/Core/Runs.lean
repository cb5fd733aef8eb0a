import Mathlib.Logic.Function.Basic

/-!
# Properties along runs

A run is a list of steps. A property holds throughout a run if it holds in every state that the run
passes; a run is guarded if every step meets a condition in the state it is taken in. Where the
condition says exactly when one step keeps the property, the two agree.
-/

namespace Riverhog.Core

section Runs

variable {σ ι : Type} (step : σ → ι → σ)

/-- A property holds in every state that a run passes. -/
def Throughout (P : σ → Prop) : σ → List ι → Prop
  | s, [] => P s
  | s, i :: run => P s ∧ Throughout P (step s i) run

/-- Every step of a run meets a condition in the state it is taken in. -/
def Guarded (ok : σ → ι → Prop) : σ → List ι → Prop
  | _, [] => True
  | s, i :: run => ok s i ∧ Guarded ok (step s i) run

variable {step} {P Inv : σ → Prop} {ok : σ → ι → Prop}

variable {run : List ι} {s : σ}

theorem Throughout.start (h : Throughout step P s run) : P s := by
  cases run with
  | nil => exact h
  | cons i run => exact h.1

theorem Throughout.last (h : Throughout step P s run) : P (run.foldl step s) := by
  induction run generalizing s with
  | nil => exact h
  | cons i run ih => exact ih h.2

theorem guarded_true (s : σ) (run : List ι) : Guarded step (fun _ _ => True) s run := by
  induction run generalizing s with
  | nil => trivial
  | cons i run ih => exact ⟨trivial, ih (step s i)⟩

/-- Where an invariant holds, one condition on steps may imply another. -/
theorem Guarded.imp {ok' : σ → ι → Prop} (hinv : ∀ s i, Inv s → Inv (step s i))
    (himp : ∀ s i, Inv s → ok s i → ok' s i) (hs : Inv s) (h : Guarded step ok s run) :
    Guarded step ok' s run := by
  induction run generalizing s with
  | nil => trivial
  | cons i run ih => exact ⟨himp s i hs h.1, ih (hinv s i hs) h.2⟩

/-- What follows from an invariant that every step keeps under the condition holds throughout a
guarded run. -/
theorem throughout_of_guarded (hstep : ∀ s i, Inv s → ok s i → Inv (step s i))
    (hP : ∀ s, Inv s → P s) (hs : Inv s) (h : Guarded step ok s run) : Throughout step P s run := by
  induction run generalizing s with
  | nil => exact hP s hs
  | cons i run ih => exact ⟨hP s hs, ih (hstep s i hs h.1) h.2⟩

/-- If the condition says exactly when a step keeps the property, then the property holds throughout
exactly the guarded runs. -/
theorem throughout_iff_guarded (hinv : ∀ s i, Inv s → Inv (step s i))
    (hstep : ∀ s i, Inv s → P s → (P (step s i) ↔ ok s i)) (hs : Inv s) (hP : P s) (run : List ι) :
    Throughout step P s run ↔ Guarded step ok s run := by
  induction run generalizing s with
  | nil => exact iff_of_true hP trivial
  | cons i run ih =>
    constructor
    · intro h
      have hok := (hstep s i hs hP).1 h.2.start
      exact ⟨hok, (ih (hinv s i hs) h.2.start).1 h.2⟩
    · intro h
      have hnext := (hstep s i hs hP).2 h.1
      exact ⟨hP, (ih (hinv s i hs) hnext).2 h.2⟩

end Runs

/-- A property of the entries of a table, after one of them is replaced. -/
theorem forall_update_some {α β : Type} [DecidableEq α] {table : α → Option β} {a : α}
    {value : Option β} {P : α → β → Prop} (h : ∀ x b, table x = some b → P x b)
    (hvalue : ∀ b, value = some b → P a b) :
    ∀ x b, Function.update table a value x = some b → P x b :=
  (Function.forall_update_iff table fun x entry => ∀ b, entry = some b → P x b).2
    ⟨hvalue, fun x _ => h x⟩

end Riverhog.Core
