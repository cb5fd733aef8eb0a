import Mathlib.Data.Finset.Basic
import Riverhog.Core.Bytes
import Riverhog.Core.Runs

/-!
# Archive copy retirement

A retire call accepts a retirement of one archive copy, verifies a retained copy, deletes the
objects of the selected copy at its provider and settles the catalog, in separate transactions.
Calls run concurrently, may be repeated with the same challenge and may stop anywhere. All rows
belong to one collection, whose row lock serialises the acceptances.
-/

namespace Riverhog.Retirement

open Core Function

/-- A row of `CollectionArchiveCopyRecord` with its recorded objects. -/
structure ArchiveCopy where
  complete : Bool
  objects : Finset Nat

/-- A row of `ArchiveCopyRetirementRecord` with the retained copies of its plan. The field `passed`
is not a column: it records that some call has passed its verification under this row. -/
structure RetirementRecord where
  challenge : Text
  retained : List Text
  passed : Bool

/-- How far a retire call is. -/
inductive RetireStage where
  /-- It has still to verify one of these retained copies. -/
  | verifying (candidates : List Text)
  /-- The provider has verified this copy; the record is not checked yet. -/
  | checked (candidate : Text)
  /-- No retained copy was verified. -/
  | failed
  /-- `_clear_active` has read the record and will delete it. -/
  | clearing | verified
  /-- These objects are still to be deleted. -/
  | deleting (objects : Finset Nat)

/-- A retire call of a copy in a store. -/
structure RetireCall where
  store : Text
  challenge : Text
  stage : RetireStage

/-- The catalog rows of one collection, the objects that each store holds, and the calls. -/
structure Retirements where
  copies : Text → Option ArchiveCopy
  stored : Text → Finset Nat
  records : Text → Option RetirementRecord
  calls : Nat → Option RetireCall

/-- The steps of the retire calls, each with the number of its call. -/
inductive RetireStep where
  /-- The call's first transaction; `current` says that the supplied challenge is the one of the
  plan and has not expired, `blocked` that activity other than a retirement blocks the plan. -/
  | accept (call : Nat) (store challenge : Text) (current blocked : Bool)
  /-- The provider is asked to verify the next candidate; `answers` is false for an outage. -/
  | verifyCopy (call : Nat) (answers : Bool)
  | confirm (call : Nat)
  | readActive (call : Nat)
  | clearActive (call : Nat)
  | readTarget (call : Nat)
  | deleteObject (call object : Nat)
  | finish (call : Nat) (blocked : Bool)
  /-- The call stops: its process crashes or a provider fails. -/
  | stop (call : Nat)

namespace Retirements

section Model

variable (stores : List Text) (s : Retirements)

section

variable (store : Text)

/-- A store has a complete copy. -/
def hasComplete : Bool :=
  (s.copies store).any fun copy => copy.complete

/-- The complete copies other than the selected one, in the read order. -/
def retained : List Text :=
  stores.filter fun other => other ≠ store && s.hasComplete other

/-- Replaces a call. -/
def setCall (call : Nat) (value : Option RetireCall) : Retirements :=
  { s with calls := update s.calls call value }

/-- Replaces a retirement record. -/
def setRecord (value : Option RetirementRecord) : Retirements :=
  { s with records := update s.records store value }

/-- Deletes an object at its provider. -/
def eraseObject (object : Nat) : Retirements :=
  { s with stored := update s.stored store ((s.stored store).erase object) }

/-- Deletes the row of a copy. -/
def dropCopy : Retirements :=
  { s with copies := update s.copies store none }

/-- The plan of a new retirement has no blockers. -/
def acceptable (current blocked : Bool) : Bool :=
  stores.contains store && s.hasComplete store && current && !blocked &&
    !(s.retained stores store).isEmpty &&
    stores.all fun other => other = store || (s.records other).isNone

end

/-- One step. A step that the call is not ready for changes nothing. -/
def step : RetireStep → Retirements
  | .accept k store challenge current blocked =>
    match s.calls k, s.records store with
    | some _, _ => s
    | none, some record =>
      if record.challenge = challenge then
        s.setCall k (some ⟨store, challenge, .verifying record.retained⟩)
      else s
    | none, none =>
      if s.acceptable stores store current blocked then
        (s.setRecord store (some ⟨challenge, s.retained stores store, false⟩)).setCall k
          (some ⟨store, challenge, .verifying (s.retained stores store)⟩)
      else s
  | .verifyCopy k answers =>
    match s.calls k with
    | some ⟨store, challenge, .verifying []⟩ => s.setCall k (some ⟨store, challenge, .failed⟩)
    | some ⟨store, challenge, .verifying (candidate :: candidates)⟩ =>
      if answers && (s.copies candidate).any fun copy =>
          copy.complete && decide (copy.objects ⊆ s.stored candidate) then
        s.setCall k (some ⟨store, challenge, .checked candidate⟩)
      else s.setCall k (some ⟨store, challenge, .verifying candidates⟩)
    | _ => s
  | .confirm k =>
    match s.calls k with
    | some ⟨store, challenge, .checked candidate⟩ =>
      match s.records store with
      | some record =>
        if record.challenge = challenge && s.hasComplete candidate then
          (s.setRecord store (some { record with passed := true })).setCall k
            (some ⟨store, challenge, .verified⟩)
        else s.setCall k (some ⟨store, challenge, .failed⟩)
      | none => s.setCall k (some ⟨store, challenge, .failed⟩)
    | _ => s
  | .readActive k =>
    match s.calls k with
    | some ⟨store, challenge, .failed⟩ =>
      if (s.records store).any fun record => record.challenge = challenge then
        s.setCall k (some ⟨store, challenge, .clearing⟩)
      else s.setCall k none
    | _ => s
  | .clearActive k =>
    match s.calls k with
    | some ⟨store, _, .clearing⟩ => (s.setRecord store none).setCall k none
    | _ => s
  | .readTarget k =>
    match s.calls k with
    | some ⟨store, challenge, .verified⟩ =>
      match s.copies store with
      | some copy =>
        if copy.complete then s.setCall k (some ⟨store, challenge, .deleting copy.objects⟩)
        else s.setCall k none
      | none => s.setCall k none
    | _ => s
  | .deleteObject k object =>
    match s.calls k with
    | some ⟨store, challenge, .deleting objects⟩ =>
      if object ∈ objects then
        (s.eraseObject store object).setCall k
          (some ⟨store, challenge, .deleting (objects.erase object)⟩)
      else s
    | _ => s
  | .finish k blocked =>
    match s.calls k with
    | some ⟨store, challenge, .deleting objects⟩ =>
      if objects = ∅ && !blocked && (s.records store).any fun record =>
          record.challenge = challenge then
        ((s.dropCopy store).setRecord store none).setCall k none
      else s.setCall k none
    | _ => s
  | .stop k => s.setCall k none

end Model

/-- A complete copy without a retirement record whose recorded objects are all in its store. -/
def Whole (s : Retirements) (store : Text) : Prop :=
  ∃ copy, s.copies store = some copy ∧ copy.complete ∧ s.records store = none ∧
    copy.objects ⊆ s.stored store

/-- No complete copy without a retirement record is hollow, and one whole copy remains. -/
def NotHollow (s : Retirements) : Prop :=
  (∀ store copy, s.copies store = some copy → copy.complete → s.records store = none →
    copy.objects ⊆ s.stored store) ∧ ∃ store, s.Whole store

/-- A failed verification clears no record under which a call has passed its verification. -/
def ClearsUnused (s : Retirements) : RetireStep → Prop
  | .clearActive k => ∀ store challenge, s.calls k = some ⟨store, challenge, .clearing⟩ →
      ∀ record, s.records store = some record → record.passed = false
  | _ => True

/-- A collection with no retirement, whose copies are not hollow. -/
def Settled (s : Retirements) : Prop :=
  (∀ store, s.records store = none) ∧ (∀ k, s.calls k = none) ∧ s.NotHollow

end Retirements

/-- A call that has passed its verification and may delete objects. -/
def RetireStage.Past : RetireStage → Prop
  | .verified => True
  | .deleting _ => True
  | _ => False

namespace Retirements

variable {stores : List Text} {s : Retirements}

variable {call : RetireCall} {store : Text}

@[simp] theorem records_setRecord (value : Option RetirementRecord) (x : Text) :
    (s.setRecord store value).records x = if x = store then value else s.records x :=
  update_apply ..

theorem hasComplete_iff :
    s.hasComplete store ↔ ∃ copy, s.copies store = some copy ∧ copy.complete := by
  unfold hasComplete
  cases s.copies store <;> simp

/-- A call may delete objects of a copy: its record is passed, or the copy is gone. -/
def MayDelete (s : Retirements) (store : Text) : Prop :=
  (∃ record, s.records store = some record ∧ record.passed) ∨ s.copies store = none

/-- What guarded runs keep: at most one retirement, whose record is passed before any object goes,
and another complete copy. -/
structure Sound (stores : List Text) (s : Retirements) : Prop where
  known : ∀ store, s.records store ≠ none → store ∈ stores
  unique : ∀ a b, s.records a ≠ none → s.records b ≠ none → a = b
  whole : ∀ store copy, s.copies store = some copy → copy.complete →
    (∀ record, s.records store = some record → record.passed = false) →
    copy.objects ⊆ s.stored store
  remains : ∃ store, s.hasComplete store ∧ s.records store = none
  calls : ∀ k call, s.calls k = some call → call.stage.Past → s.MayDelete call.store

theorem Settled.sound (h : s.Settled) : s.Sound stores where
  known store hne := absurd (h.1 store) hne
  unique a b hne := absurd (h.1 a) hne
  whole store copy hcopy hcomplete _ := h.2.2.1 store copy hcopy hcomplete (h.1 store)
  remains := by
    obtain ⟨store, copy, hcopy, hcomplete, hnone, -⟩ := h.2.2.2
    exact ⟨store, by simp [hasComplete, hcopy, hcomplete], hnone⟩
  calls k call hcall := by
    rw [h.2.1 k] at hcall
    cases hcall

variable (hs : s.Sound stores)
include hs

/-- In a sound state no complete copy without a record is hollow, and one remains. -/
theorem Sound.notHollow : s.NotHollow := by
  have hfull : ∀ store copy, s.copies store = some copy → copy.complete →
      s.records store = none → copy.objects ⊆ s.stored store := by
    intro store copy hcopy hcomplete hnone
    apply hs.whole store copy hcopy hcomplete
    intro record hrecord
    rw [hnone] at hrecord
    cases hrecord
  refine ⟨hfull, ?_⟩
  obtain ⟨store, hcomplete, hnone⟩ := hs.remains
  obtain ⟨copy, hcopy, hc⟩ := hasComplete_iff.1 hcomplete
  exact ⟨store, copy, hcopy, hc, hnone, hfull store copy hcopy hc hnone⟩

/-- A call may be replaced by one that may delete, if it is past its verification. -/
theorem Sound.setCall {k : Nat} {value : Option RetireCall}
    (hvalue : ∀ call, value = some call → call.stage.Past → s.MayDelete call.store) :
    (s.setCall k value).Sound stores := by
  exact { hs with calls := forall_update_some hs.calls hvalue }

theorem Sound.setCall_before (k : Nat) (hbefore : ¬ call.stage.Past := by simp [RetireStage.Past]) :
    (s.setCall k (some call)).Sound stores := by
  apply hs.setCall
  intro call' heq hpast
  cases heq
  exact absurd hpast hbefore

theorem Sound.setCall_past (k : Nat) (hmay : s.MayDelete call.store) :
    (s.setCall k (some call)).Sound stores := by
  apply hs.setCall
  intro call' heq _
  cases heq
  exact hmay

/-- A retirement record of an acceptable plan is the only one, and leaves a complete copy. -/
theorem Sound.setRecord_new {challenge : Text} {list : List Text}
    {current blocked : Bool} (hnone : s.records store = none)
    (hacc : s.acceptable stores store current blocked) :
    (s.setRecord store (some ⟨challenge, list, false⟩)).Sound stores := by
  simp only [acceptable, Bool.and_eq_true, List.contains_iff_mem, List.all_eq_true,
    Bool.or_eq_true, decide_eq_true_eq, Option.isNone_iff_eq_none] at hacc
  obtain ⟨⟨⟨⟨⟨hmem, -⟩, -⟩, -⟩, hretained⟩, hothers⟩ := hacc
  have hfree : ∀ other, s.records other = none := by
    intro other
    by_contra hsome
    rcases hothers other (hs.known other hsome) with rfl | hnone'
    · exact hsome hnone
    · exact hsome hnone'
  have hkey : ∀ x, (s.setRecord store (some ⟨challenge, list, false⟩)).records x ≠ none →
      x = store := by
    intro x hx
    by_contra hne
    simp [hne, hfree x] at hx
  refine ⟨fun x hx => hkey x hx ▸ hmem, fun a b ha hb => (hkey a ha).trans (hkey b hb).symm,
    fun other copy hcopy hcomplete _ => hs.whole other copy hcopy hcomplete (by simp [hfree]), ?_, ?_⟩
  · obtain ⟨other, hin⟩ : ∃ other, other ∈ s.retained stores store := by
      apply List.exists_mem_of_ne_nil
      simpa using hretained
    obtain ⟨-, hother'⟩ := List.mem_filter.1 hin
    simp only [ne_eq, decide_not, Bool.and_eq_true, Bool.not_eq_true',
      decide_eq_false_iff_not] at hother'
    refine ⟨other, hother'.2, ?_⟩
    simp [hother'.1, hfree other]
  · intro k call hcall hpast
    rcases hs.calls k call hcall hpast with ⟨record, hrecord, -⟩ | hgone
    · rw [hfree] at hrecord
      cases hrecord
    · exact .inr hgone

/-- The verification of a call marks the record as passed. -/
theorem Sound.setRecord_passed {record : RetirementRecord}
    (hrecord : s.records store = some record) :
    (s.setRecord store (some { record with passed := true })).Sound stores := by
  have hsome : ∀ x, (s.setRecord store (some { record with passed := true })).records x ≠ none →
      s.records x ≠ none := by
    intro x hx
    by_cases hne : x = store
    · simp [hne, hrecord]
    · simpa [hne] using hx
  refine ⟨fun x hx => hs.known x (hsome x hx),
    fun a b ha hb => hs.unique a b (hsome a ha) (hsome b hb), ?_, ?_, ?_⟩
  · intro other copy hcopy hcomplete hpassed
    apply hs.whole other copy hcopy hcomplete
    intro record' hrecord'
    by_cases hne : other = store
    · subst hne
      have htrue := hpassed { record with passed := true } (by simp)
      cases htrue
    · exact hpassed record' (by simpa [hne])
  · obtain ⟨other, hcomplete, hnone⟩ := hs.remains
    have hne : other ≠ store := by
      intro heq
      rw [heq, hrecord] at hnone
      cases hnone
    exact ⟨other, hcomplete, by simpa [hne]⟩
  · intro k call hcall hpast
    by_cases hne : call.store = store
    · exact .inl ⟨{ record with passed := true }, by simp [hne], rfl⟩
    · rcases hs.calls k call hcall hpast with ⟨record', hrecord', hpassed⟩ | hgone
      · exact .inl ⟨record',
          by simpa [hne] using hrecord', hpassed⟩
      · exact .inr hgone

/-- A record that no call has passed may be cleared. -/
theorem Sound.clear (hunused : ∀ record, s.records store = some record → record.passed = false) :
    (s.setRecord store none).Sound stores := by
  have hsame : ∀ x record, (s.setRecord store none).records x = some record →
      x ≠ store ∧ s.records x = some record := by
    intro x record hx
    by_cases hne : x = store
    · simp [hne] at hx
    · exact ⟨hne, by simpa [hne] using hx⟩
  have hsome : ∀ x, (s.setRecord store none).records x ≠ none → s.records x ≠ none := by
    intro x hx
    obtain ⟨record, hrecord⟩ := Option.ne_none_iff_exists'.1 hx
    simp [(hsame x record hrecord).2]
  refine ⟨fun x hx => hs.known x (hsome x hx),
    fun a b ha hb => hs.unique a b (hsome a ha) (hsome b hb), ?_, ?_, ?_⟩
  · intro other copy hcopy hcomplete hpassed
    apply hs.whole other copy hcopy hcomplete
    intro record hrecord
    by_cases hne : other = store
    · exact hunused record (hne ▸ hrecord)
    · exact hpassed record (by simpa [hne])
  · obtain ⟨other, hcomplete, hnone⟩ := hs.remains
    refine ⟨other, hcomplete, ?_⟩
    by_contra hx
    exact hsome other hx hnone
  · intro k call hcall hpast
    rcases hs.calls k call hcall hpast with ⟨record, hrecord, hpassed⟩ | hgone
    · refine .inl ⟨record, ?_, hpassed⟩
      have hne : call.store ≠ store := by
        intro heq
        have hfalse := hunused record (heq ▸ hrecord)
        rw [hpassed] at hfalse
        cases hfalse
      simpa [hne] using hrecord
    · exact .inr hgone

/-- A call that may delete an object of its copy leaves the others whole. -/
theorem Sound.erase (hmay : s.MayDelete store) (object : Nat) :
    (s.eraseObject store object).Sound stores := by
  refine { hs with whole := ?_ }
  intro other copy hcopy hcomplete hpassed
  by_cases hne : other = store
  · subst hne
    rcases hmay with ⟨record, hrecord, hp⟩ | hgone
    · have hfalse := hpassed record hrecord
      rw [hp] at hfalse
      cases hfalse
    · rw [show s.copies other = some copy from hcopy] at hgone
      cases hgone
  · simpa [eraseObject, update_of_ne hne] using hs.whole other copy hcopy hcomplete hpassed

/-- The end of a retirement removes the copy with its record; another complete copy remains. -/
theorem Sound.finish (hrecord : s.records store ≠ none) :
    ((s.dropCopy store).setRecord store none).Sound stores := by
  have hother : ∀ x, x ≠ store → s.records x = none := by
    intro x hne
    by_contra hsome
    exact hne (hs.unique x store hsome hrecord)
  have hnone : ∀ x, ((s.dropCopy store).setRecord store none).records x = none := by
    intro x
    by_cases hne : x = store
    · simp [hne]
    · simp [dropCopy, hne, hother x hne]
  refine ⟨fun x hx => absurd (hnone x) hx, fun a _ ha => absurd (hnone a) ha, ?_, ?_, ?_⟩
  · intro other copy hcopy hcomplete _
    have hne : other ≠ store := by
      intro heq
      simp [Retirements.setRecord, dropCopy, heq] at hcopy
    have hold : s.copies other = some copy := by
      simpa [Retirements.setRecord, dropCopy, update_of_ne hne] using hcopy
    apply hs.whole other copy hold hcomplete
    intro record hrec
    rw [hother other hne] at hrec
    cases hrec
  · obtain ⟨other, hcomplete, hfree⟩ := hs.remains
    have hne : other ≠ store := by
      intro heq
      exact hrecord (heq ▸ hfree)
    refine ⟨other, ?_, hnone other⟩
    simpa [hasComplete, Retirements.setRecord, dropCopy, update_of_ne hne] using hcomplete
  · intro k call hcall hpast
    right
    by_cases hne : call.store = store
    · simp [Retirements.setRecord, dropCopy, hne]
    · rcases hs.calls k call hcall hpast with ⟨record, hrec, -⟩ | hgone
      · rw [hother call.store hne] at hrec
        cases hrec
      · simpa [Retirements.setRecord, dropCopy, update_of_ne hne] using hgone

/-- One guarded step keeps the soundness. -/
theorem Sound.step (i : RetireStep) (hi : s.ClearsUnused i) : (s.step stores i).Sound stores := by
  have hidle : ∀ k, (s.setCall k none).Sound stores := fun k => hs.setCall (by simp)
  cases i <;> simp only [Retirements.step]
  case accept k store challenge current blocked =>
    split
    · exact hs
    · split
      · exact hs.setCall_before k
      · exact hs
    · rename_i hnone
      split
      · rename_i hacc
        exact (hs.setRecord_new hnone hacc).setCall_before k
      · exact hs
  case verifyCopy k answers =>
    split
    · exact hs.setCall_before k
    · split <;>
      · exact hs.setCall_before k
    · exact hs
  case confirm k =>
    split
    · split
      · rename_i record hrecord
        split
        · apply (hs.setRecord_passed hrecord).setCall_past k
          exact .inl ⟨{ record with passed := true }, by simp, rfl⟩
        · exact hs.setCall_before k
      · exact hs.setCall_before k
    · exact hs
  case readActive k =>
    split
    · split
      · exact hs.setCall_before k
      · exact hidle k
    · exact hs
  case clearActive k =>
    split
    · rename_i store challenge hcall
      exact (hs.clear (hi store challenge hcall)).setCall (by simp)
    · exact hs
  case readTarget k =>
    split
    · rename_i store challenge hcall
      have hmay : s.MayDelete store := hs.calls k _ hcall trivial
      split
      · split
        · exact hs.setCall_past k hmay
        · exact hidle k
      · exact hidle k
    · exact hs
  case deleteObject k object =>
    split
    · rename_i store challenge objects hcall
      have hmay : s.MayDelete store := hs.calls k _ hcall trivial
      split
      · exact (hs.erase hmay object).setCall_past k hmay
      · exact hs
    · exact hs
  case finish k blocked =>
    split
    · rename_i store challenge objects hcall
      split
      · rename_i hready
        have hrecord : s.records store ≠ none := by
          intro hnone
          simp [hnone] at hready
        exact (hs.finish hrecord).setCall (by simp)
      · exact hidle k
    · exact hs
  case stop k => exact hidle k

end Retirements

/-- In every run from a settled collection in which no failed verification clears a record that a
call has passed, no copy is hollow and a whole copy remains, in every state. -/
theorem retirement_never_hollow {stores : List Text} {s : Retirements} (hs : s.Settled)
    {run : List RetireStep}
    (hrun : Guarded (Retirements.step stores) Retirements.ClearsUnused s run) :
    Throughout (Retirements.step stores) Retirements.NotHollow s run := by
  exact throughout_of_guarded (fun _ i hs hi => hs.step i hi) (fun _ hs => hs.notHollow) hs.sound hrun

namespace Samples

/-- Two stores with a complete copy of one object. -/
def twoCopies : Retirements where
  copies store := if store = "a" ∨ store = "b" then some ⟨true, {0}⟩ else none
  stored store := if store = "a" ∨ store = "b" then {0} else ∅
  records _ := none
  calls _ := none

theorem twoCopies_settled : twoCopies.Settled := by
  refine ⟨fun _ => rfl, fun _ => rfl, ?_, ?_⟩
  · intro store copy hcopy _ _
    simp only [twoCopies] at hcopy ⊢
    split at hcopy
    · rename_i hstore
      cases hcopy
      rw [if_pos hstore]
    · cases hcopy
  · exact ⟨"a", ⟨true, {0}⟩, rfl, rfl, rfl, by simp [twoCopies]⟩

/-- A call retires the copy in store `a` and is repeated after it is done. -/
def retireTwice : List RetireStep :=
  [.accept 0 "a" "plan" true false, .verifyCopy 0 true, .confirm 0, .readTarget 0,
    .deleteObject 0 0, .finish 0 false, .accept 1 "a" "plan" true false]

/-- A call deletes the object of store `a` and crashes; the repeated call finds store `b` out of
reach and clears the record. -/
def clearedRetirement : List RetireStep :=
  [.accept 0 "a" "plan" true false, .verifyCopy 0 true, .confirm 0, .readTarget 0,
    .deleteObject 0 0, .stop 0, .accept 1 "a" "plan" true false,
    .verifyCopy 1 false, .verifyCopy 1 true, .readActive 1, .clearActive 1]

/-- A repeated call clears the record after the first one has passed; then the copy in store `b` is
retired against the copy in store `a`, and both calls delete. -/
def crossedRetirements : List RetireStep :=
  [.accept 0 "a" "plan" true false, .verifyCopy 0 true, .confirm 0, .readTarget 0,
    .accept 1 "a" "plan" true false, .verifyCopy 1 false, .verifyCopy 1 true,
    .readActive 1, .clearActive 1, .accept 2 "b" "other" true false,
    .verifyCopy 2 true, .confirm 2, .readTarget 2, .deleteObject 0 0, .deleteObject 2 0]

/-- The two stores of the samples. -/
def abStores : List Text := ["a", "b"]

end Samples

open Samples in
theorem retire_twice_never_hollow :
    twoCopies.Settled ∧ Guarded (Retirements.step abStores) Retirements.ClearsUnused twoCopies
      retireTwice ∧ Throughout (Retirements.step abStores) Retirements.NotHollow twoCopies
      retireTwice := by
  have hrun : Guarded (Retirements.step abStores) Retirements.ClearsUnused twoCopies
      retireTwice := by
    simp [retireTwice, Guarded, Retirements.ClearsUnused]
  exact ⟨twoCopies_settled, hrun, retirement_never_hollow twoCopies_settled hrun⟩

open Samples in
theorem cleared_retirement_hollow :
    ¬ Throughout (Retirements.step abStores) Retirements.NotHollow twoCopies clearedRetirement ∧
      ¬ ∃ store, (crossedRetirements.foldl (Retirements.step abStores) twoCopies).Whole store := by
  constructor
  · intro h
    have hsub := h.last.1 "a" ⟨true, {0}⟩ rfl rfl rfl (Finset.mem_singleton_self 0)
    exact absurd hsub (by decide +kernel)
  · rintro ⟨store, copy, hcopy, -, -, hsub⟩
    have hsame : (crossedRetirements.foldl (Retirements.step abStores) twoCopies).copies =
        twoCopies.copies := rfl
    rw [hsame] at hcopy
    simp only [twoCopies] at hcopy
    split at hcopy
    · rename_i hstore
      cases hcopy
      have h0 := hsub (Finset.mem_singleton_self 0)
      rcases hstore with rfl | rfl
      · exact absurd h0 (by decide +kernel)
      · exact absurd h0 (by decide +kernel)
    · cases hcopy

end Riverhog.Retirement
