import Mathlib.Logic.Relation
import Mathlib.Order.Basic

/-!
# Interleaved compare-and-swap updates

Workers share a store of records, each under a key and with a revision. A worker loads a
record, computes a replacement from what it loaded, and the store accepts the replacement
only while the record has the revision that was loaded. Other operations change the store
in one step of their own.

Every revision is used once, so a replacement that is accepted replaces exactly the record
it was computed from. An interleaved run is therefore a run in which every update is one
atomic step, and whatever holds along atomic runs holds along interleaved ones.
-/

namespace Riverhog.Core

open Relation

/-- How the records of a store with states `σ` are reached: the key and the revision of a
record, the records of a state, and the state with one record replaced. -/
structure Versioned (σ κ α : Type) [DecidableEq κ] where
  key : α → κ
  revision : α → Nat
  records : σ → κ → Option α
  put : σ → α → σ
  records_put : ∀ s a, records (put s a) = Function.update (records s) (key a) (some a)

namespace Versioned

variable {σ κ α ω : Type} [DecidableEq κ] (v : Versioned σ κ α)

/-- The second record is the first one, or has a later revision. -/
def Later (a b : α) : Prop := a = b ∨ v.revision a < v.revision b

/-- Every record of the first state is kept by the second one, or a later revision of it is. -/
def Advances (s t : σ) : Prop :=
  ∀ k a, v.records s k = some a → ∃ b, v.records t k = some b ∧ v.Later a b

variable {v}

theorem Later.trans {a b c : α} (hab : v.Later a b) (hbc : v.Later b c) : v.Later a c := by
  rcases hab with rfl | hab
  · exact hbc
  · rcases hbc with rfl | hbc
    · exact Or.inr hab
    · exact Or.inr (Nat.lt_trans hab hbc)

/-- Replacing a record by a later revision of it advances the store. -/
theorem advances_put {s : σ} {a b : α} (ha : v.records s (v.key b) = some a)
    (hlt : v.revision a < v.revision b) : v.Advances s (v.put s b) := by
  intro k c hc
  rw [v.records_put]
  rcases eq_or_ne k (v.key b) with rfl | hne
  · obtain rfl : c = a := Option.some.inj (hc.symm.trans ha)
    exact ⟨b, Function.update_self .., Or.inr hlt⟩
  · exact ⟨c, by rw [Function.update_of_ne hne, hc], Or.inl rfl⟩

variable (v)

/-- One update as an atomic step: the replacement is computed from the record in the store,
or another operation runs. -/
inductive Atomic (update : α → α → Prop) (other : σ → σ → Prop) : σ → σ → Prop
  | update {s : σ} {a b : α} (current : v.records s (v.key a) = some a) (computed : update a b) :
      Atomic update other s (v.put s b)
  | other {s t : σ} (step : other s t) : Atomic update other s t

/-- The store with the record that each worker has loaded last. -/
structure Shared (σ ω α : Type) where
  store : σ
  held : ω → Option α

/-- What a worker holds is in the store, or a later revision of it is. -/
def Held (s : Shared σ ω α) : Prop :=
  ∀ worker a, s.held worker = some a → ∃ b, v.records s.store (v.key a) = some b ∧ v.Later a b

variable {v}

theorem Held.advances {s : Shared σ ω α} {t : σ} (hs : v.Held s) (ht : v.Advances s.store t) :
    v.Held { s with store := t } := by
  intro worker a ha
  obtain ⟨b, hb, hab⟩ := hs worker a ha
  obtain ⟨c, hc, hbc⟩ := ht _ b hb
  exact ⟨c, hc, hab.trans hbc⟩

/-- A held record whose revision is the current one is the current record. -/
theorem Held.eq_of_revision {s : Shared σ ω α} (hs : v.Held s) {worker : ω} {a c : α}
    (ha : s.held worker = some a) (hc : v.records s.store (v.key a) = some c)
    (hrev : v.revision c = v.revision a) : a = c := by
  obtain ⟨b, hb, hab⟩ := hs worker a ha
  obtain rfl : b = c := Option.some.inj (hb.symm.trans hc)
  rcases hab with hab | hab
  · exact hab
  · exact absurd hrev (Nat.ne_of_gt hab)

variable [DecidableEq ω] (v)

/-- The steps of the workers and of the other operations, in any order. -/
inductive Step (update : α → α → Prop) (other : σ → σ → Prop) :
    Shared σ ω α → Shared σ ω α → Prop
  | load {s : Shared σ ω α} (worker : ω) {a : α} (current : v.records s.store (v.key a) = some a) :
      Step update other s { s with held := Function.update s.held worker (some a) }
  | swap {s : Shared σ ω α} (worker : ω) {a b c : α} (loaded : s.held worker = some a)
      (computed : update a b) (current : v.records s.store (v.key a) = some c)
      (unchanged : v.revision c = v.revision a) :
      Step update other s { s with store := v.put s.store b }
  | other {s : Shared σ ω α} {t : σ} (step : other s.store t) :
      Step update other s { s with store := t }

variable {v} {update : α → α → Prop} {other : σ → σ → Prop}
variable {inv : σ → Prop}
  (hupdate : ∀ a b, update a b → v.key b = v.key a ∧ v.revision a < v.revision b)
  (hother : ∀ s t, inv s → other s t → v.Advances s t)
  (hinv : ∀ s t, inv s → v.Atomic update other s t → inv t)

include hupdate hother in
/-- An atomic step advances the store. -/
theorem Atomic.advances {s t : σ} (hs : inv s) (h : v.Atomic update other s t) :
    v.Advances s t := by
  cases h with
  | update hcur hcomp =>
    obtain ⟨hkey, hlt⟩ := hupdate _ _ hcomp
    exact advances_put (by rw [hkey, hcur]) hlt
  | other hstep => exact hother _ _ hs hstep

include hupdate hother in
/-- A step of a worker changes the store by at most one atomic step. -/
theorem Step.atomic {s t : Shared σ ω α} (hs : v.Held s) (hstore : inv s.store)
    (h : v.Step update other s t) : v.Held t ∧ ReflGen (v.Atomic update other) s.store t.store := by
  cases h with
  | @load worker c hcur =>
    refine ⟨fun w a ha => ?_, .refl⟩
    change Function.update s.held worker (some c) w = some a at ha
    rcases eq_or_ne w worker with rfl | hne
    · rw [Function.update_self, Option.some.injEq] at ha
      exact ha ▸ ⟨c, hcur, Or.inl rfl⟩
    · rw [Function.update_of_ne hne] at ha
      exact hs w a ha
  | @swap worker a b c hheld hcomp hcur hrev =>
    obtain rfl := hs.eq_of_revision hheld hcur hrev
    have hatomic : v.Atomic update other s.store (v.put s.store b) := .update hcur hcomp
    exact ⟨hs.advances (hatomic.advances hupdate hother hstore), .single hatomic⟩
  | other hstep =>
    exact ⟨hs.advances (hother _ _ hstore hstep), .single (.other hstep)⟩

variable (inv) in
include hupdate hother hinv in
/-- An interleaved run is a run of atomic steps. -/
theorem run_atomic {s t : Shared σ ω α} (hs : v.Held s) (hstore : inv s.store)
    (h : ReflTransGen (v.Step update other) s t) :
    v.Held t ∧ inv t.store ∧ ReflTransGen (v.Atomic update other) s.store t.store := by
  induction h with
  | refl => exact ⟨hs, hstore, .refl⟩
  | tail _ hstep ih =>
    obtain ⟨hheld, hkeep, hrun⟩ := ih
    obtain ⟨hheld', hlast⟩ := hstep.atomic hupdate hother hheld hkeep
    refine ⟨hheld', ?_, hrun.trans hlast.to_reflTransGen⟩
    rcases (reflGen_iff _ _ _).1 hlast with heq | hlast
    · exact heq ▸ hkeep
    · exact hinv _ _ hkeep hlast

end Versioned

end Riverhog.Core
