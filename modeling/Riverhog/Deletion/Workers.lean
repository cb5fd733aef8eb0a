import Riverhog.Core.Python
import Riverhog.Core.Runs

/-!
# Collection deletion

A deletion worker advances one step of a deletion at a time: it deletes one recorded provider object
and then its row, or one batch of catalog rows, or the membership rows with the shared tag counts,
and at the end publishes the deleted event with the removal of the collection. Any number of workers
may execute the same step. What a worker has read in an earlier transaction is part of its state.
-/

namespace Riverhog.Deletion

open Core List

/-- The kinds of provider objects, in the order in which a worker looks for them. -/
inductive ProviderKind where
  | cached | description | tags | archive
  deriving DecidableEq

/-- A recorded provider object of a collection. -/
structure ProviderObject where
  kind : ProviderKind
  id : Nat
  deriving DecidableEq

/-- How far a worker is in `_process_one`. -/
inductive DeletionStage (τ : Type) where
  /-- It has still to look for objects of these kinds. -/
  | scan (kinds : List ProviderKind)
  /-- It will delete an object at its provider, or has done so and will delete the row. -/
  | remove (object : ProviderObject)
  | removed (object : ProviderObject)
  /-- It has read the plan with the sequence of its event. -/
  | catalog (event : Option Nat)
  /-- Its catalog transaction has selected rows, or memberships. -/
  | rows (batch : Finset Nat)
  | members (event : Option Nat) (batch : List τ)
  | finish (event : Nat)
  deriving DecidableEq

/-- The deletion of one collection: its retrieval references, the rows of its provider objects, its
other catalog rows (claims and cascade tables), what all collections store, the event of the plan,
the deleted events created and published, and the memberships with the shared counts. -/
structure DeletionState (τ : Type) where
  active : Bool
  references : Finset Nat
  objects : Finset ProviderObject
  catalogRows : Finset Nat
  stored : Finset (Nat × ProviderObject)
  event : Option Nat
  events : List Nat
  published : List Nat
  memberships : Finset τ
  counts : τ → Nat
  workers : Nat → Option (DeletionStage τ)

/-- The steps of the workers. The choices are those of the database: the row that a select returns,
or none if every row is leased or locked, and whether activity blocks the end. -/
inductive DeletionStep where
  | start (worker : Nat) (batch : Finset Nat)
  | scan (worker : Nat) (choice : Option ProviderObject)
  | deleteObject (worker : Nat)
  | deleteRow (worker : Nat)
  | selectBatch (worker : Nat) (batch : Finset Nat)
  | commitBatch (worker : Nat)
  | finish (worker : Nat) (blocked : Bool)
  | crash (worker : Nat)

namespace DeletionState

section Model

variable {τ : Type} [LinearOrder τ] (collection : Nat)

/-- Moves a worker on. -/
def setWorker (s : DeletionState τ) (w : Nat) (stage : Option (DeletionStage τ)) :
    DeletionState τ :=
  { s with workers := Function.update s.workers w stage }

/-- The number of memberships of one batch. -/
def catalogDeleteBatch : Nat := 100

/-- The plan event after a transaction that creates one if its plan has none. -/
def eventAfter (s : DeletionState τ) : Option Nat → Nat
  | some event => event
  | none => s.events.length

/-- A catalog transaction that found no other rows: it creates the event if the plan it read has
none, and lowers the counts of the memberships it selected. `none` rolls back: the deletion or an
unpublished event is gone, or a count is zero. -/
def commitMembers (s : DeletionState τ) (event : Option Nat) (batch : List τ) :
    Option (DeletionState τ) :=
  if (event.isNone && !s.active) || s.published.contains (s.eventAfter event) ||
      batch.any fun tag => s.counts tag = 0 then none
  else some { s with
    event := if event.isNone then some s.events.length else s.event
    events := if event.isNone then s.events ++ [s.events.length] else s.events
    memberships := s.memberships \ batch.toFinset
    counts := fun tag => if tag ∈ batch.toFinset then s.counts tag - 1 else s.counts tag }

/-- One step. A step that the worker is not ready for changes nothing. -/
def step (s : DeletionState τ) : DeletionStep → DeletionState τ
  | .start w batch =>
    match s.workers w with
    | none =>
      if s.references = ∅ then
        s.setWorker w (some (.scan [.cached, .description, .tags, .archive]))
      else { s with references := s.references \ batch }
    | some _ => s
  | .scan w choice =>
    match s.workers w with
    | some (.scan (kind :: kinds)) =>
      if s.objects.filter (fun object => object.kind = kind) = ∅ then
        s.setWorker w (some (.scan kinds))
      else match choice with
        | some object =>
          if object ∈ s.objects ∧ object.kind = kind then s.setWorker w (some (.remove object))
          else s.setWorker w none
        | none => s.setWorker w none
    | some (.scan []) =>
      if s.active then s.setWorker w (some (.catalog s.event)) else s.setWorker w none
    | _ => s
  | .deleteObject w =>
    match s.workers w with
    | some (.remove object) =>
      { s with stored := s.stored.erase (collection, object) }.setWorker w (some (.removed object))
    | _ => s
  | .deleteRow w =>
    match s.workers w with
    | some (.removed object) =>
      { s with objects := s.objects.erase object }.setWorker w none
    | _ => s
  | .selectBatch w batch =>
    match s.workers w with
    | some (.catalog event) =>
      if s.catalogRows = ∅ then
        s.setWorker w (some (.members event ((sortedSet s.memberships).take catalogDeleteBatch)))
      else s.setWorker w (some (.rows (batch ∩ s.catalogRows)))
    | _ => s
  | .commitBatch w =>
    match s.workers w with
    | some (.rows batch) => { s with catalogRows := s.catalogRows \ batch }.setWorker w none
    | some (.members event batch) =>
      match s.commitMembers event batch with
      | none => s.setWorker w none
      | some s' =>
        match event, batch with
        | some event, [] => s'.setWorker w (some (.finish event))
        | _, _ => s'.setWorker w none
    | _ => s
  | .finish w blocked =>
    match s.workers w with
    | some (.finish event) =>
      if s.active && !blocked && !s.published.contains event then
        { s with active := false, published := s.published ++ [event] }.setWorker w none
      else s.setWorker w none
    | _ => s
  | .crash w => s.setWorker w none

end Model

section Property

variable {τ : Type} [LinearOrder τ] (collection : Nat) (initial : DeletionState τ) (others : τ → Nat)

/-- Every tag count is the number of the other collections' memberships and of this one's. -/
def CountsExact (s : DeletionState τ) : Prop :=
  ∀ tag, s.counts tag = others tag + if tag ∈ s.memberships then 1 else 0

/-- The deletion is exact: other collections keep their objects and counts, at most one deleted
event is created, and when the collection is gone, so are its objects and memberships, and exactly
that event is published. -/
structure Exact (s : DeletionState τ) : Prop where
  foreign : ∀ c object, c ≠ collection → ((c, object) ∈ s.stored ↔ (c, object) ∈ initial.stored)
  counts : s.CountsExact others
  created : s.events.length ≤ 1
  waiting : s.active → s.published = []
  done : s.active = false → (∀ object ∈ initial.objects, (collection, object) ∉ s.stored) ∧
    s.memberships = ∅ ∧ ∃ event, s.events = [event] ∧ s.published = [event]

/-- A catalog transaction that commits finds the memberships it selected, and creates an event only
if the stored plan has none. -/
def Fresh (s : DeletionState τ) : DeletionStep → Prop
  | .commitBatch w => ∀ event batch, s.workers w = some (.members event batch) →
      (s.commitMembers event batch).isSome →
      (∀ tag ∈ batch, tag ∈ s.memberships) ∧ (event = none → s.event = none)
  | _ => True

/-- A deletion that was just accepted. -/
structure Start : Prop where
  active : initial.active
  event : initial.event = none
  events : initial.events = []
  published : initial.published = []
  workers : ∀ w, initial.workers w = none
  counts : initial.CountsExact others

end Property

section Invariant

variable {τ : Type} [LinearOrder τ] {collection : Nat} {initial s : DeletionState τ}
  {others : τ → Nat}

/-- What a worker knows of the deletion at its stage. -/
def StageSound (collection : Nat) (s : DeletionState τ) : DeletionStage τ → Prop
  | .scan kinds => ∀ object ∈ s.objects, object.kind ∈ kinds
  | .remove _ => True
  | .removed object => (collection, object) ∉ s.stored
  | .catalog event => s.objects = ∅ ∧ ∀ e, event = some e → e ∈ s.events
  | .rows _ => True
  | .members event batch => s.objects = ∅ ∧ (∀ e, event = some e → e ∈ s.events) ∧
      (batch = [] → s.memberships = ∅)
  | .finish event => s.objects = ∅ ∧ s.memberships = ∅ ∧ event ∈ s.events

/-- What every run keeps: a row goes only after its object, other collections keep their objects,
and the collection goes only after its rows and memberships. -/
structure Sound (collection : Nat) (initial s : DeletionState τ) : Prop where
  objects : ∀ object ∈ initial.objects, object ∉ s.objects → (collection, object) ∉ s.stored
  foreign : ∀ c object, c ≠ collection → ((c, object) ∈ s.stored ↔ (c, object) ∈ initial.stored)
  event : ∀ e, s.event = some e → e ∈ s.events
  noEvent : s.event = none → s.events = []
  waiting : s.active → s.published = []
  done : s.active = false → s.objects = ∅ ∧ s.memberships = ∅ ∧ ∃ e ∈ s.events, s.published = [e]
  worker : ∀ w stage, s.workers w = some stage → StageSound collection s stage

variable {s' : DeletionState τ} {batch : List τ} {event : Option Nat} {stage : DeletionStage τ}

/-- What a worker knows stays true while rows, objects and memberships only go and events only
come. -/
theorem StageSound.mono (h : StageSound collection s stage)
    (hobjects : s'.objects ⊆ s.objects) (hstored : s'.stored ⊆ s.stored)
    (hmembers : s'.memberships ⊆ s.memberships) (hevents : ∀ e ∈ s.events, e ∈ s'.events) :
    StageSound collection s' stage := by
  have hnone : s.objects = ∅ → s'.objects = ∅ := fun h => Finset.subset_empty.1 (h ▸ hobjects)
  have hempty : s.memberships = ∅ → s'.memberships = ∅ :=
    fun h => Finset.subset_empty.1 (h ▸ hmembers)
  cases stage with
  | scan kinds => exact fun object hobject => h object (hobjects hobject)
  | remove object => trivial
  | removed object => exact fun hmem => h (hstored hmem)
  | catalog event => exact ⟨hnone h.1, fun e he => hevents e (h.2 e he)⟩
  | rows batch => trivial
  | members event batch =>
    exact ⟨hnone h.1, fun e he => hevents e (h.2.1 e he), fun hb => hempty (h.2.2 hb)⟩
  | finish event => exact ⟨hnone h.1, hempty h.2.1, hevents event h.2.2⟩

section

variable (hs : Sound collection initial s)
include hs

theorem Sound.setWorker {w : Nat} {stage : Option (DeletionStage τ)}
    (hstage : ∀ st, stage = some st → StageSound collection s st) :
    Sound collection initial (s.setWorker w stage) := by
  exact { hs with worker := forall_update_some hs.worker hstage }

theorem Sound.idle (w : Nat) :
    Sound collection initial (s.setWorker w none) := hs.setWorker (by simp)

theorem Sound.advance (w : Nat) (hstage : StageSound collection s stage) :
    Sound collection initial (s.setWorker w (some stage)) := by
  apply hs.setWorker
  rintro st ⟨⟩
  exact hstage

theorem Sound.eraseStored (object : ProviderObject) :
    Sound collection initial { s with stored := s.stored.erase (collection, object) } := by
  refine ⟨?_, ?_, hs.event, hs.noEvent, hs.waiting, hs.done, ?_⟩
  · intro o ho hgone hmem
    exact hs.objects o ho hgone (Finset.mem_of_mem_erase hmem)
  · intro c o hc
    rw [← hs.foreign c o hc]
    simp [hc]
  · intro w stage hw
    exact (hs.worker w stage hw).mono (by rfl) (Finset.erase_subset _ _) (by rfl) fun _ he => he

theorem Sound.eraseObject {object : ProviderObject} (hgone : (collection, object) ∉ s.stored) :
    Sound collection initial { s with objects := s.objects.erase object } := by
  refine ⟨?_, hs.foreign, hs.event, hs.noEvent, hs.waiting, ?_, ?_⟩
  · intro o ho hnot
    by_cases heq : o = object
    · exact heq ▸ hgone
    · exact hs.objects o ho fun hin => hnot (Finset.mem_erase.2 ⟨heq, hin⟩)
  · intro hdone
    obtain ⟨hobjects, hrest⟩ := hs.done hdone
    exact ⟨by simp [hobjects], hrest⟩
  · intro w stage hw
    exact (hs.worker w stage hw).mono (Finset.erase_subset _ _) (by rfl) (by rfl) fun _ he => he

end

/-- What a catalog transaction on memberships commits. -/
theorem commitMembers_eq_some (h : s.commitMembers event batch = some s') :
    (event = none → s.active) ∧ (∀ tag ∈ batch, s.counts tag ≠ 0) ∧ s' = { s with
        event := if event.isNone then some s.events.length else s.event
        events := if event.isNone then s.events ++ [s.events.length] else s.events
        memberships := s.memberships \ batch.toFinset
        counts := fun tag => if tag ∈ batch then s.counts tag - 1 else s.counts tag } := by
  unfold commitMembers at h
  split at h
  · cases h
  · rename_i hok
    cases h
    simp only [Bool.or_eq_true, not_or, any_eq_true, not_exists, not_and,
      decide_eq_true_eq, Bool.and_eq_true, Bool.not_eq_true'] at hok
    refine ⟨?_, fun tag htag => hok.2 tag htag, by simp only [mem_toFinset]⟩
    intro hnone
    have hactive := hok.1.1 (by simp [hnone])
    simpa using hactive

section

variable (hs : Sound collection initial s)
include hs

/-- A catalog transaction keeps the soundness, and the worker may finish when it found nothing. -/
theorem Sound.commitMembers
    (h : s.commitMembers event batch = some s') : Sound collection initial s' := by
  obtain ⟨hactive, -, rfl⟩ := commitMembers_eq_some h
  have hevents : ∀ e ∈ s.events,
      e ∈ (if event.isNone then s.events ++ [s.events.length] else s.events) := by
    intro e he
    split
    · exact mem_append_left _ he
    · exact he
  refine ⟨hs.objects, hs.foreign, ?_, ?_, hs.waiting, ?_, ?_⟩
  · intro e he
    cases event with
    | none =>
      simp only [Option.isNone_none, if_true, Option.some.injEq] at he ⊢
      simp [← he]
    | some _ => exact hs.event e he
  · intro hnone
    cases event with
    | none => simp at hnone
    | some _ => exact hs.noEvent hnone
  · intro hdone
    obtain ⟨hobjects, hmembers, e, he, hpublished⟩ := hs.done hdone
    exact ⟨hobjects, by simp [hmembers], e, hevents e he, hpublished⟩
  · intro w stage hw
    exact (hs.worker w stage hw).mono (by rfl) (by rfl) Finset.sdiff_subset hevents

/-- Every step keeps the soundness. -/
theorem Sound.step (i : DeletionStep) :
    Sound collection initial (s.step collection i) := by
  cases i <;> simp only [DeletionState.step]
  case start w batch =>
    split
    · split
      · apply hs.advance
        rintro ⟨kind, id⟩ -
        cases kind <;> simp
      · exact { hs with worker := fun v st hv =>
          (hs.worker v st hv).mono (by rfl) (by rfl) (by rfl) fun _ he => he }
    · exact hs
  case scan w choice =>
    split
    · rename_i kind kinds hw
      have hscan := hs.worker w _ hw
      split
      · rename_i hnone
        apply hs.advance
        intro object hobject
        rcases mem_cons.1 (hscan object hobject) with hkind | hrest
        · have hin : object ∈ s.objects.filter fun object => object.kind = kind := by
            simp [hobject, hkind]
          rw [hnone] at hin
          cases hin
        · exact hrest
      · split
        · split
          · exact hs.advance w trivial
          · exact hs.idle w
        · exact hs.idle w
    · rename_i hw
      have hscan := hs.worker w _ hw
      split
      · apply hs.advance
        refine ⟨Finset.eq_empty_of_forall_notMem fun object hobject => ?_, hs.event⟩
        exact absurd (hscan object hobject) (by simp)
      · exact hs.idle w
    · exact hs
  case deleteObject w =>
    split
    · rename_i object hw
      exact (hs.eraseStored object).advance w (Finset.notMem_erase _ _)
    · exact hs
  case deleteRow w =>
    split
    · rename_i object hw
      exact (hs.eraseObject (hs.worker w _ hw)).idle w
    · exact hs
  case selectBatch w batch =>
    split
    · rename_i event hw
      obtain ⟨hobjects, hevents⟩ := hs.worker w _ hw
      split
      · apply hs.advance
        refine ⟨hobjects, hevents, ?_⟩
        intro hnil
        have hsort : sortedSet s.memberships = [] := by
          rcases take_eq_nil_iff.1 hnil with h0 | h
          · exact absurd h0 (by decide)
          · exact h
        exact Finset.eq_empty_of_forall_notMem fun tag htag => by
          rw [← mem_sortedSet, hsort] at htag
          cases htag
      · exact hs.advance w trivial
    · exact hs
  case commitBatch w =>
    split
    · have hrows : ∀ batch, Sound collection initial
          { s with catalogRows := s.catalogRows \ batch } := fun batch =>
        { hs with worker := fun v st hv =>
          (hs.worker v st hv).mono (by rfl) (by rfl) (by rfl) fun _ he => he }
      exact (hrows _).idle w
    · rename_i event batch hw
      have hstage := hs.worker w _ hw
      split
      · exact hs.idle w
      · rename_i s' hcommit
        have hs' := hs.commitMembers hcommit
        split
        · rename_i e
          obtain ⟨-, -, rfl⟩ := commitMembers_eq_some hcommit
          apply hs'.advance
          exact ⟨hstage.1, by simp [hstage.2.2 rfl], by simpa using hstage.2.1 e rfl⟩
        · exact hs'.idle w
    · exact hs
  case finish w blocked =>
    split
    · rename_i event hw
      obtain ⟨hobjects, hmembers, hevent⟩ := hs.worker w _ hw
      split
      · rename_i hready
        simp only [Bool.and_eq_true] at hready
        have hpublished : s.published ++ [event] = [event] := by
          simp [hs.waiting hready.1.1]
        have hfinished : Sound collection initial
            { s with active := false, published := s.published ++ [event] } :=
          ⟨hs.objects, hs.foreign, hs.event, hs.noEvent, by simp,
            fun _ => ⟨hobjects, hmembers, event, hevent, hpublished⟩, fun v st hv =>
            (hs.worker v st hv).mono (by rfl) (by rfl) (by rfl) fun _ he => he⟩
        exact hfinished.idle w
      · exact hs.idle w
    · exact hs
  case crash w => exact hs.idle w

/-- A sound deletion is exact if its counts are and it has at most one event. -/
theorem Sound.exact_iff :
    Exact collection initial others s ↔ s.CountsExact others ∧ s.events.length ≤ 1 := by
  refine ⟨fun h => ⟨h.counts, h.created⟩, ?_⟩
  rintro ⟨hcounts, hcreated⟩
  refine ⟨hs.foreign, hcounts, hcreated, hs.waiting, ?_⟩
  intro hdone
  obtain ⟨hobjects, hmembers, e, he, hpublished⟩ := hs.done hdone
  refine ⟨?_, hmembers, e, ?_, hpublished⟩
  · intro object hobject
    exact hs.objects object hobject (by simp [hobjects])
  · obtain ⟨x, hx⟩ := length_eq_one_iff.1 (le_antisymm hcreated (length_pos_of_mem he))
    rw [hx] at he ⊢
    rw [mem_singleton.1 he]

/-- A catalog transaction that commits keeps the counts exact and the event single if and only if it
is fresh. -/
theorem commitMembers_exact_iff (hcounts : s.CountsExact others)
    (hcreated : s.events.length ≤ 1)
    (h : s.commitMembers event batch = some s') :
    s'.CountsExact others ∧ s'.events.length ≤ 1 ↔
      (∀ tag ∈ batch, tag ∈ s.memberships) ∧ (event = none → s.event = none) := by
  obtain ⟨-, hpos, rfl⟩ := commitMembers_eq_some h
  apply and_congr
  · constructor
    · intro hexact tag htag
      -- A membership that is gone would leave the count one too low.
      by_contra hgone
      have hafter := hexact tag
      have hbefore := hcounts tag
      have hne := hpos tag htag
      simp only [htag, if_true, Finset.mem_sdiff, hgone, false_and, if_false] at hafter hbefore
      omega
    · intro hall tag
      have hbefore := hcounts tag
      by_cases htag : tag ∈ batch
      · have hmember := hall tag htag
        simp only [htag, if_true, Finset.mem_sdiff, mem_toFinset, not_true, and_false,
          if_false, hmember] at hbefore ⊢
        omega
      · simp only [htag, if_false, Finset.mem_sdiff, mem_toFinset, not_false_eq_true, and_true]
        exact hbefore
  · cases event with
    | some e => simp [hcreated]
    | none =>
      simp only [Option.isNone_none, if_true, length_append, length_singleton, forall_const]
      constructor
      · intro hlength
        cases hevent : s.event with
        | none => rfl
        | some e =>
          have := length_pos_of_mem (hs.event e hevent)
          omega
      · intro hnone
        simp [hs.noEvent hnone]

/-- One step keeps the deletion exact if and only if it is fresh. -/
theorem exact_step_iff (hexact : Exact collection initial others s)
    (i : DeletionStep) : Exact collection initial others (s.step collection i) ↔ s.Fresh i := by
  rw [(hs.step i).exact_iff]
  have hkept : s.CountsExact others ∧ s.events.length ≤ 1 := ⟨hexact.counts, hexact.created⟩
  cases i with
  | commitBatch w =>
    simp only [step, DeletionState.Fresh]
    split
    · rename_i hw
      exact iff_of_true hkept (by simp [hw])
    · rename_i event batch hw
      cases hs' : s.commitMembers event batch with
      | none => exact iff_of_true hkept (by simp [hw, hs'])
      | some s' =>
        have hiff := commitMembers_exact_iff hs hexact.counts hexact.created hs'
        simp only [hw, hs', Option.some.injEq, DeletionStage.members.injEq, and_imp,
          forall_eq', forall_apply_eq_imp_iff, Option.isSome_some, forall_const]
        split <;> exact hiff
    · rename_i hother
      exact iff_of_true hkept fun event batch hw => absurd hw (hother event batch)
  | _ =>
    -- the other steps keep memberships, counts and events
    refine iff_of_true ?_ trivial
    simp only [step]
    repeat' split
    all_goals exact hkept

end

theorem Start.sound (h : Start initial others) : Sound collection initial initial := by
  refine ⟨fun _ hin hnot => absurd hin hnot, fun _ _ _ => Iff.rfl, ?_, fun _ => h.events,
    fun _ => h.published, ?_, ?_⟩
  · intro e he
    rw [h.event] at he
    cases he
  · intro hdone
    rw [h.active] at hdone
    cases hdone
  · intro w stage hw
    rw [h.workers w] at hw
    cases hw

end Invariant

end DeletionState

namespace Samples

/-- Collection 0 has the tag 7, which one other collection has too. -/
def taggedDeletion : DeletionState Nat where
  active := true
  references := ∅
  objects := ∅
  catalogRows := ∅
  stored := ∅
  event := none
  events := []
  published := []
  memberships := {7}
  counts tag := if tag = 7 then 2 else 0
  workers _ := none

/-- The memberships of the other collections. -/
def otherMemberships (tag : Nat) : Nat := if tag = 7 then 1 else 0

theorem taggedDeletion_start : taggedDeletion.Start otherMemberships := by
  refine ⟨rfl, rfl, rfl, rfl, fun _ => rfl, ?_⟩
  intro tag
  simp only [taggedDeletion, otherMemberships, Finset.mem_singleton]
  split <;> rfl

/-- A worker looks for provider objects, finds none and selects its catalog batch. -/
def selectCatalogBatch (worker : Nat) : List DeletionStep :=
  [.start worker ∅, .scan worker none, .scan worker none, .scan worker none, .scan worker none,
    .scan worker none, .selectBatch worker ∅]

/-- One worker after the other. -/
def sequentialWorkers : List DeletionStep :=
  selectCatalogBatch 0 ++ [.commitBatch 0] ++ selectCatalogBatch 1 ++
    [.commitBatch 1, .finish 1 false]

/-- Two workers select the same batch before either commits. -/
def concurrentWorkers : List DeletionStep :=
  selectCatalogBatch 0 ++ selectCatalogBatch 1 ++ [.commitBatch 0, .commitBatch 1]

end Samples

end Riverhog.Deletion
