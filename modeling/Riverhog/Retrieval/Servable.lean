import Mathlib.Data.Finset.Basic
import Riverhog.Core.Runs

/-!
# Retrieval jobs and the retrieval cache

A retrieval plan records how each archive object is to be read: at once, from the cache, or after a
restore. A job of the plan becomes ready when every object to be restored has been cached. The sweep
and the eviction take objects out of the cache. Planning, job creation, renewal and removal read
first and commit later; what they have read is a flight of its own.
-/

namespace Riverhog.Retrieval

open Core Function List

/-- The read modes of a plan object. -/
inductive ReadMode where
  | immediate | cache | restoreRequired
  deriving DecidableEq

/-- The state of an object's cache row; `leaving` stands for `deleting` and `delete_pending`. -/
inductive CacheState where
  | absent | ready | leaving
  deriving DecidableEq

/-- The states of a job; `over` stands for the terminal ones. -/
inductive JobState where
  | requested | ready | over
  deriving DecidableEq

/-- The states of a plan; `over` stands for `expired` and `failed`. -/
inductive PlanState where
  | planning | ready | consumed | over
  deriving DecidableEq

/-- A retrieval job with the objects whose progress is ready. -/
structure RetrievalJob (ω : Type) where
  state : JobState
  expires : Nat
  progress : Finset ω

/-- A retrieval plan with its objects and the job that consumed it. -/
structure RetrievalPlan (ω : Type) where
  objects : List (ω × ReadMode)
  state : PlanState
  expires : Nat
  lease : Nat
  job : Option (RetrievalJob ω)

/-- A transaction that has read and has still to commit. -/
inductive Flight (ω : Type) where
  | planning (plan : Nat) (object : ω) (mode : ReadMode)
  | creating (plan : Nat) (now : Nat)
  | renewing (plan : Nat) (expires : Nat)
  | removing (object : ω)

/-- The plans with their jobs, the cache rows, the transactions and the time. -/
structure RetrievalState (ω : Type) where
  now : Nat
  planCount : Nat
  plans : Nat → Option (RetrievalPlan ω)
  cache : ω → CacheState
  flights : Nat → Option (Flight ω)

/-- The steps of the services. -/
inductive RetrievalStep (ω : Type) where
  | tick
  | plan (timeout lease : Nat)
  /-- Planning reads the cache row of an object; `restores` is the read mode of the source store. -/
  | readObject (flight plan : Nat) (object : ω) (restores : Bool)
  | sealPlan (plan : Nat)
  | beginCreate (flight plan : Nat)
  /-- `_claim_restore_step` or `_cache_restored_object` finds the object cached. -/
  | observe (plan : Nat) (object : ω)
  /-- `register_cache_ready` after the restored object was put into the cache. -/
  | register (plan : Nat) (object : ω)
  | markReady (plan : Nat)
  | beginRenew (flight plan lease : Nat)
  | endJob (plan : Nat)
  | expirePlan (plan : Nat)
  | sweep (flight : Nat) (object : ω)
  | evict (flight : Nat) (object : ω)
  | forget (object : ω)
  | commit (flight : Nat)
  | abort (flight : Nat)

section Model

variable {ω : Type} [DecidableEq ω]

/-- An object of the plan that is read from the cache. -/
def RetrievalPlan.refersTo (plan : RetrievalPlan ω) (object : ω) : Bool :=
  plan.objects.any fun x => x.1 = object && x.2 ≠ .immediate

/-- The job that `create` makes of a plan: it is ready at once if nothing has to be restored. -/
def RetrievalPlan.newJob (plan : RetrievalPlan ω) (now : Nat) : RetrievalJob ω :=
  if plan.objects.any fun x => x.2 = .restoreRequired then ⟨.requested, 0, ∅⟩
  else ⟨.ready, now + plan.lease, ∅⟩

namespace RetrievalState

section

variable (s : RetrievalState ω)

/-- `_active_retrieval_cache_reference`: a requested job counts only while its plan has not
expired. -/
def activeReference (object : ω) : Bool :=
  (range s.planCount).any fun p => (s.plans p).any fun plan => plan.refersTo object &&
      (((plan.state = .planning || plan.state = .ready) && s.now < plan.expires) ||
        plan.job.any fun job => (job.state = .requested && s.now < plan.expires) ||
            (job.state = .ready && s.now < job.expires))

/-- Replaces a plan. -/
def setPlan (p : Nat) (plan : RetrievalPlan ω) : RetrievalState ω :=
  { s with plans := update s.plans p plan }

/-- Replaces a flight. -/
def setFlight (k : Nat) (flight : Option (Flight ω)) : RetrievalState ω :=
  { s with flights := update s.flights k flight }

/-- Replaces the state of a cache row. -/
def setCache (object : ω) (state : CacheState) : RetrievalState ω :=
  { s with cache := update s.cache object state }

/-- What a transaction commits. -/
def committed : Flight ω → RetrievalState ω
  | .planning p object mode =>
    match s.plans p with
    | some plan =>
      if plan.state = .planning then
        s.setPlan p { plan with objects := plan.objects ++ [(object, mode)] }
      else s
    | none => s
  | .creating p now =>
    match s.plans p with
    | some plan =>
      if plan.state = .ready then
        s.setPlan p { plan with state := .consumed, job := some (plan.newJob now) }
      else s
    | none => s
  | .renewing p expires =>
    match s.plans p with
    | some plan =>
      s.setPlan p { plan with job := plan.job.map fun job => { job with expires := expires } }
    | none => s
  | .removing object => s.setCache object .leaving

/-- Every object of the plan that is read from the cache is ready there. -/
def cached (plan : RetrievalPlan ω) : Bool :=
  plan.objects.all fun x => x.2 = .immediate || s.cache x.1 = .ready

/-- One step. A step that is not possible changes nothing. -/
def step : RetrievalStep ω → RetrievalState ω
  | .tick => { s with now := s.now + 1 }
  | .plan timeout lease =>
    { s.setPlan s.planCount ⟨[], .planning, s.now + timeout, lease, none⟩ with
      planCount := s.planCount + 1 }
  | .readObject k p object restores =>
    match s.plans p with
    | some plan =>
      if plan.state = .planning ∧ s.now < plan.expires ∧ ¬ object ∈ plan.objects.map Prod.fst then
        s.setFlight k (some (.planning p object (if s.cache object = .ready then .cache
            else if restores then .restoreRequired else .immediate)))
      else s
    | none => s
  | .sealPlan p =>
    match s.plans p with
    | some plan => if plan.state = .planning then s.setPlan p { plan with state := .ready } else s
    | none => s
  | .beginCreate k p =>
    match s.plans p with
    | some plan =>
      if plan.state = .ready ∧ s.now < plan.expires then
        s.setFlight k (some (.creating p s.now))
      else s
    | none => s
  | .observe p object =>
    match s.plans p with
    | some ⟨objects, state, expires, lease, some ⟨.requested, until_, progress⟩⟩ =>
      if (object, .restoreRequired) ∈ objects ∧ s.cache object = .ready then
        s.setPlan p ⟨objects, state, expires, lease,
          some ⟨.requested, until_, insert object progress⟩⟩
      else s
    | _ => s
  | .register p object =>
    match s.plans p with
    | some ⟨objects, state, expires, lease, some ⟨.requested, until_, progress⟩⟩ =>
      if (object, .restoreRequired) ∈ objects then
        -- A row that exists is kept as it is, also one that is being deleted.
        (if s.cache object = .absent then s.setCache object .ready else s).setPlan p
          ⟨objects, state, expires, lease, some ⟨.requested, until_, insert object progress⟩⟩
      else s
    | _ => s
  | .markReady p =>
    match s.plans p with
    | some ⟨objects, state, expires, lease, some ⟨.requested, _, progress⟩⟩ =>
      if objects.all fun x => x.2 ≠ .restoreRequired || x.1 ∈ progress then
        s.setPlan p ⟨objects, state, expires, lease, some ⟨.ready, s.now + lease, progress⟩⟩
      else s
    | _ => s
  | .beginRenew k p lease =>
    match s.plans p with
    | some plan =>
      if (plan.job.any fun job => job.state = .ready && s.now < job.expires) && s.cached plan then
        s.setFlight k (some (.renewing p (s.now + lease)))
      else s
    | none => s
  | .endJob p =>
    match s.plans p with
    | some plan => s.setPlan p
        { plan with job := plan.job.map fun job => { job with state := .over } }
    | none => s
  | .expirePlan p =>
    match s.plans p with
    | some plan =>
      if plan.state = .planning ∨ plan.state = .ready then s.setPlan p { plan with state := .over }
      else s
    | none => s
  | .sweep k object =>
    if s.cache object = .ready ∧ ¬ s.activeReference object then
      s.setFlight k (some (.removing object))
    else s
  | .evict k object =>
    if s.cache object = .ready then s.setFlight k (some (.removing object)) else s
  | .forget object => if s.cache object = .leaving then s.setCache object .absent else s
  | .commit k =>
    match s.flights k with
    | some flight => (s.committed flight).setFlight k none
    | none => s
  | .abort k => s.setFlight k none

/-- Every job that is ready and unexpired finds its objects ready in the cache. -/
def Servable : Prop :=
  ∀ p plan job, s.plans p = some plan → plan.job = some job → job.state = .ready →
    s.now < job.expires → ∀ x ∈ plan.objects, x.2 ≠ .immediate → s.cache x.1 = .ready

/-- A plan that is open and unexpired, or whose job is requested, or ready and unexpired. -/
def Live (now : Nat) (plan : RetrievalPlan ω) : Prop :=
  ((plan.state = .planning ∨ plan.state = .ready) ∧ now < plan.expires) ∨
    ∃ job, plan.job = some job ∧ (job.state = .requested ∨ job.state = .ready ∧ now < job.expires)

/-- A live plan, or a transaction that has read the object or a plan of it, refers to the object. -/
def LiveReference (object : ω) : Prop :=
  (∃ p plan, s.plans p = some plan ∧ plan.refersTo object ∧ Live s.now plan) ∨
  (∃ k p, s.flights k = some (.planning p object .cache)) ∨
  (∃ k p now plan, s.flights k = some (.creating p now) ∧ s.plans p = some plan ∧
    plan.refersTo object) ∨
  ∃ k p expires plan, s.flights k = some (.renewing p expires) ∧ s.plans p = some plan ∧
    plan.refersTo object

/-- A removal commits on an object without a live reference, and a registration does not find a row
that is being deleted. -/
def KeepsReferences : RetrievalStep ω → Prop
  | .commit k => ∀ object, s.flights k = some (.removing object) → ¬ s.LiveReference object
  | .register _ object => s.cache object ≠ .leaving
  | _ => True

/-- A cache and no plans. -/
def initial (cache : ω → CacheState) : RetrievalState ω :=
  ⟨0, 0, fun _ => none, cache, fun _ => none⟩

/-- What a plan may rely on: open plans find their cached objects ready, requested jobs also those
that were restored, and ready jobs all of them. -/
structure PlanSound (now : Nat) (cache : ω → CacheState) (plan : RetrievalPlan ω) : Prop where
  consumed : plan.job ≠ none → plan.state = .consumed
  opened : (plan.state = .planning ∨ plan.state = .ready) → now < plan.expires →
    ∀ x ∈ plan.objects, x.2 = .cache → cache x.1 = .ready
  requested : ∀ job, plan.job = some job → job.state = .requested → ∀ x ∈ plan.objects,
    x.2 = .cache ∨ x.2 = .restoreRequired ∧ x.1 ∈ job.progress → cache x.1 = .ready
  ready : ∀ job, plan.job = some job → job.state = .ready → now < job.expires →
    ∀ x ∈ plan.objects, x.2 ≠ .immediate → cache x.1 = .ready

/-- What a transaction may rely on until it commits. -/
def FlightSound : Flight ω → Prop
  | .planning _ object mode => mode = .cache → s.cache object = .ready
  | .creating p _ => ∃ plan, s.plans p = some plan ∧ plan.state ≠ .planning ∧
      ∀ x ∈ plan.objects, x.2 = .cache → s.cache x.1 = .ready
  | .renewing p _ => ∃ plan, s.plans p = some plan ∧ plan.state = .consumed ∧
      ∀ x ∈ plan.objects, x.2 ≠ .immediate → s.cache x.1 = .ready
  | .removing _ => True

end

/-- All plans and transactions find what they rely on, and plans are numbered in order. -/
structure Sound (s : RetrievalState ω) : Prop where
  numbered : ∀ p plan, s.plans p = some plan → p < s.planCount
  plan : ∀ p plan, s.plans p = some plan → PlanSound s.now s.cache plan
  flight : ∀ k flight, s.flights k = some flight → s.FlightSound flight

section Invariant

omit [DecidableEq ω]

variable {s : RetrievalState ω} {p : Nat} {plan : RetrievalPlan ω}

theorem initial_sound (cache : ω → CacheState) : (initial cache).Sound where
  numbered _ _ h := nomatch h
  plan _ _ h := nomatch h
  flight _ _ h := nomatch h

theorem Sound.servable (hs : s.Sound) : s.Servable :=
  fun p plan job hplan hjob => (hs.plan p plan hplan).ready job hjob

theorem PlanSound.mono {now now' : Nat} {cache cache' : ω → CacheState}
    (h : PlanSound now cache plan) (hnow : now ≤ now')
    (hcache : ∀ x ∈ plan.objects, cache x.1 = .ready → cache' x.1 = .ready) :
    PlanSound now' cache' plan where
  consumed := h.consumed
  opened hstate hlt x hx hmode := hcache x hx (h.opened hstate (hnow.trans_lt hlt) x hx hmode)
  requested job hjob hstate x hx hmode := hcache x hx (h.requested job hjob hstate x hx hmode)
  ready job hjob hstate hlt x hx hmode :=
    hcache x hx (h.ready job hjob hstate (hnow.trans_lt hlt) x hx hmode)

/-- A plan that keeps its objects may change its state, but not back to an open one, and not away
from a consumed one. -/
theorem Sound.setPlan (hs : s.Sound) (hplan : s.plans p = some plan)
    {plan' : RetrievalPlan ω} (hplan' : PlanSound s.now s.cache plan')
    (hopen : plan.state ≠ .planning → plan'.objects = plan.objects ∧ plan'.state ≠ .planning)
    (hconsumed : plan.state = .consumed → plan'.state = .consumed) : (s.setPlan p plan').Sound := by
  refine ⟨forall_update_some hs.numbered ?_, forall_update_some hs.plan ?_, ?_⟩
  · rintro _ ⟨⟩
    exact hs.numbered p plan hplan
  · rintro _ ⟨⟩
    exact hplan'
  · intro k flight hk
    have hf := hs.flight k flight hk
    cases flight with
    | planning q object mode => exact hf
    | creating q now =>
      obtain ⟨found, hq, hstate, hcached⟩ := hf
      by_cases hne : q = p
      · subst hne
        obtain rfl : plan = found := by simpa [hplan] using hq
        obtain ⟨hobjects, hstate'⟩ := hopen hstate
        exact ⟨plan', by simp [RetrievalState.setPlan], hstate', by rwa [hobjects]⟩
      · exact ⟨found, by simpa [RetrievalState.setPlan, update_of_ne hne] using hq, hstate, hcached⟩
    | renewing q expires =>
      obtain ⟨found, hq, hstate, hcached⟩ := hf
      by_cases hne : q = p
      · subst hne
        obtain rfl : plan = found := by simpa [hplan] using hq
        obtain ⟨hobjects, -⟩ := hopen (by simp [hstate])
        exact ⟨plan', by simp [RetrievalState.setPlan], hconsumed hstate, by rwa [hobjects]⟩
      · exact ⟨found, by simpa [RetrievalState.setPlan, update_of_ne hne] using hq, hstate, hcached⟩
    | removing object => trivial

theorem Sound.setFlight (hs : s.Sound) {k : Nat} {flight : Option (Flight ω)}
    (hflight : ∀ f, flight = some f → s.FlightSound f) : (s.setFlight k flight).Sound := by
  exact ⟨hs.numbered, hs.plan, forall_update_some hs.flight hflight⟩

end Invariant

variable {s : RetrievalState ω} {p : Nat} {plan : RetrievalPlan ω}

/-- A new plan has no objects and no transactions. -/
theorem Sound.stepPlan (hs : s.Sound) (timeout lease : Nat) :
    (s.step (.plan timeout lease)).Sound := by
  have hold : ∀ q found, s.plans q = some found →
      update s.plans s.planCount (some ⟨[], .planning, s.now + timeout, lease, none⟩) q =
        some found := by
    intro q found hq
    rw [update_of_ne (hs.numbered q found hq).ne]
    exact hq
  refine ⟨forall_update_some (fun q found hq => Nat.lt_succ_of_lt (hs.numbered q found hq))
    fun _ _ => Nat.lt_succ_self _, forall_update_some hs.plan ?_, ?_⟩
  · rintro _ ⟨⟩
    constructor <;> simp
  · intro k flight hk
    have hf := hs.flight k flight hk
    cases flight with
    | planning q object mode => exact hf
    | creating q now =>
      obtain ⟨found, hq, hrest⟩ := hf
      exact ⟨found, hold q found hq, hrest⟩
    | renewing q expires =>
      obtain ⟨found, hq, hrest⟩ := hf
      exact ⟨found, hold q found hq, hrest⟩
    | removing object => trivial

theorem refersTo_of_mem {x : ω × ReadMode} (hx : x ∈ plan.objects) (hmode : x.2 ≠ .immediate) :
    plan.refersTo x.1 :=
  any_eq_true.2 ⟨x, hx, by simp [hmode]⟩

/-- The cache may change where no plan and no transaction relies on it. -/
theorem Sound.setCache (hs : s.Sound) {object : ω} {state : CacheState}
    (h : s.cache object = .ready → state = .ready ∨ ¬ s.LiveReference object) :
    (s.setCache object state).Sound := by
  have hkeep : ∀ o, (o = object → s.LiveReference object) → s.cache o = .ready →
      (s.setCache object state).cache o = .ready := by
    intro o hlive ho
    by_cases hne : o = object
    · subst hne
      rcases h ho with hready | hfree
      · simp [RetrievalState.setCache, hready]
      · exact absurd (hlive rfl) hfree
    · simpa [RetrievalState.setCache, update_of_ne hne] using ho
  constructor
  · exact hs.numbered
  · intro q plan hq
    have hsound := hs.plan q plan hq
    have href : Live s.now plan → ∀ x ∈ plan.objects, x.2 ≠ .immediate →
        x.1 = object → s.LiveReference object := by
      intro hlive x hx hmode heq
      exact .inl ⟨q, plan, hq, heq ▸ refersTo_of_mem hx hmode, hlive⟩
    refine ⟨hsound.consumed, ?_, ?_, ?_⟩
    · intro hstate hlt x hx hmode
      have hlive := href (.inl ⟨hstate, hlt⟩) x hx (by simp [hmode])
      exact hkeep x.1 hlive (hsound.opened hstate hlt x hx hmode)
    · intro job hjob hstate x hx hmode
      have hread : x.2 ≠ .immediate := by
        rcases hmode with hmode | ⟨hmode, -⟩ <;> simp [hmode]
      have hlive := href (.inr ⟨job, hjob, .inl hstate⟩) x hx hread
      exact hkeep x.1 hlive (hsound.requested job hjob hstate x hx hmode)
    · intro job hjob hstate hlt x hx hmode
      have hlive := href (.inr ⟨job, hjob, .inr ⟨hstate, hlt⟩⟩) x hx hmode
      exact hkeep x.1 hlive (hsound.ready job hjob hstate hlt x hx hmode)
  · intro k flight hk
    have hf := hs.flight k flight hk
    cases flight with
    | planning q o mode =>
      intro hmode
      subst hmode
      exact hkeep o (fun heq => .inr (.inl ⟨k, q, heq ▸ hk⟩)) (hf rfl)
    | creating q now =>
      obtain ⟨plan, hq, hstate, hcached⟩ := hf
      refine ⟨plan, hq, hstate, ?_⟩
      intro x hx hmode
      have hrefers := refersTo_of_mem hx (by simp [hmode])
      exact hkeep x.1 (fun heq => .inr (.inr (.inl ⟨k, q, now, plan, hk, hq, heq ▸ hrefers⟩)))
        (hcached x hx hmode)
    | renewing q expires =>
      obtain ⟨plan, hq, hstate, hcached⟩ := hf
      refine ⟨plan, hq, hstate, ?_⟩
      intro x hx hmode
      have hrefers := refersTo_of_mem hx hmode
      exact hkeep x.1 (fun heq => .inr (.inr (.inr ⟨k, q, expires, plan, hk, hq, heq ▸ hrefers⟩)))
        (hcached x hx hmode)
    | removing o => trivial

theorem newJob_progress (plan : RetrievalPlan ω) (now : Nat) : (plan.newJob now).progress = ∅ := by
  unfold RetrievalPlan.newJob
  split <;> rfl

theorem newJob_ready {now : Nat} (h : (plan.newJob now).state = .ready) :
    ∀ x ∈ plan.objects, x.2 ≠ .restoreRequired := by
  intro x hx hmode
  have hany : (plan.objects.any fun x => decide (x.2 = .restoreRequired)) = true :=
    any_eq_true.2 ⟨x, hx, by simp [hmode]⟩
  simp [RetrievalPlan.newJob, hany] at h

/-- The plan a job is made of. -/
theorem PlanSound.create (now : Nat)
    (hcached : ∀ x ∈ plan.objects, x.2 = .cache → s.cache x.1 = .ready) :
    PlanSound s.now s.cache { plan with state := .consumed, job := some (plan.newJob now) } := by
  constructor
  · intro _
    rfl
  · intro hstate
    simp at hstate
  · rintro job ⟨⟩ - x hx hmode
    rw [newJob_progress] at hmode
    rcases hmode with hmode | ⟨-, hmode⟩
    · exact hcached x hx hmode
    · simp at hmode
  · rintro job ⟨⟩ hstate - x hx hmode
    have hrestore := newJob_ready hstate x hx
    have hcache : x.2 = .cache := by
      cases hx2 : x.2 <;> simp_all
    exact hcached x hx hcache

section

variable (hs : s.Sound)
include hs

/-- What every transaction but a removal commits. -/
theorem Sound.committed {flight : Flight ω} (hf : s.FlightSound flight)
    (hfree : ∀ object, flight = .removing object → ¬ s.LiveReference object) :
    (s.committed flight).Sound := by
  cases flight with
  | planning p object mode =>
    cases hplan : s.plans p with
    | none => simpa [RetrievalState.committed, hplan] using hs
    | some plan =>
      by_cases hstate : plan.state = .planning
      · have hsound := hs.plan p plan hplan
        have hjob : plan.job = none := by
          by_contra hjob
          simp [hsound.consumed hjob] at hstate
        simp only [RetrievalState.committed, hplan, if_pos hstate]
        apply hs.setPlan hplan
        · refine ⟨hsound.consumed, ?_, by simp [hjob], by simp [hjob]⟩
          intro hopen hlt x hx hmode
          rcases mem_append.1 hx with hx | hx
          · exact hsound.opened hopen hlt x hx hmode
          · obtain rfl := mem_singleton.1 hx
            exact hf hmode
        · exact fun h => absurd hstate h
        · exact fun h => h
      · simpa [RetrievalState.committed, hplan, hstate] using hs
  | creating p now =>
    obtain ⟨plan, hplan, -, hcached⟩ := hf
    by_cases hstate : plan.state = .ready
    · simp only [RetrievalState.committed, hplan, if_pos hstate]
      apply hs.setPlan hplan (.create now hcached)
      · exact fun _ => ⟨rfl, by simp⟩
      · exact fun _ => rfl
    · simpa [RetrievalState.committed, hplan, hstate] using hs
  | renewing p expires =>
    obtain ⟨plan, hplan, hstate, hcached⟩ := hf
    have hsound := hs.plan p plan hplan
    simp only [RetrievalState.committed, hplan]
    apply hs.setPlan hplan
    · refine ⟨fun _ => hstate, hsound.opened, ?_, fun _ _ _ _ => hcached⟩
      intro job hjob hrequested
      obtain ⟨old, hold, rfl⟩ := Option.map_eq_some_iff.1 hjob
      exact hsound.requested old hold hrequested
    · exact fun h => ⟨rfl, h⟩
    · exact fun h => h
  | removing object => exact hs.setCache fun _ => .inr (hfree object rfl)

/-- The job of a plan may record progress on objects that are ready, and may become ready when all
its objects are. -/
theorem Sound.setJob (hplan : s.plans p = some plan) {old job : RetrievalJob ω}
    (hold : plan.job = some old) (hrequested : job.state = .requested → ∀ x ∈ plan.objects,
      x.2 = .cache ∨ x.2 = .restoreRequired ∧ x.1 ∈ job.progress → s.cache x.1 = .ready)
    (hready : job.state = .ready → ∀ x ∈ plan.objects, x.2 ≠ .immediate → s.cache x.1 = .ready) :
    (s.setPlan p { plan with job := some job }).Sound := by
  have hsound := hs.plan p plan hplan
  have hconsumed := hsound.consumed (by simp [hold])
  apply hs.setPlan hplan
  · refine ⟨fun _ => hconsumed, hsound.opened, ?_, ?_⟩
    · rintro job' ⟨⟩ hstate
      exact hrequested hstate
    · rintro job' ⟨⟩ hstate -
      exact hready hstate
  · exact fun h => ⟨rfl, h⟩
  · exact fun h => h

/-- Progress on one more object that is ready. -/
theorem Sound.progress (hplan : s.plans p = some plan) {until_ : Nat}
    {progress : Finset ω} (hjob : plan.job = some ⟨.requested, until_, progress⟩) {object : ω}
    (hcache : s.cache object = .ready) :
    (s.setPlan p { plan with job := some ⟨.requested, until_, insert object progress⟩ }).Sound := by
  apply hs.setJob hplan hjob
  · intro _ x hx hmode
    by_cases heq : x.1 = object
    · rw [heq]
      exact hcache
    · have hmem : x.2 = .cache ∨ x.2 = .restoreRequired ∧ x.1 ∈ progress := by
        simpa [heq] using hmode
      exact (hs.plan p plan hplan).requested _ hjob rfl x hx hmem
  · intro hstate
    cases hstate

theorem Sound.stepObserve (p : Nat) (object : ω) : (s.step (.observe p object)).Sound := by
  simp only [step]
  split
  · rename_i objects state expires lease until_ progress hplan
    split_ifs with h
    · exact hs.progress hplan rfl h.2
    · exact hs
  · exact hs

theorem Sound.stepRegister (p : Nat) (object : ω)
    (hguard : s.cache object ≠ .leaving) : (s.step (.register p object)).Sound := by
  simp only [step]
  split
  · rename_i objects state expires lease until_ progress hplan
    split_ifs with hmem habsent
    · have hcache : (s.setCache object .ready).Sound := hs.setCache fun _ => .inl rfl
      exact hcache.progress hplan rfl (by simp [RetrievalState.setCache])
    · have hready : s.cache object = .ready := by
        cases h : s.cache object <;> simp_all
      exact hs.progress hplan rfl hready
    · exact hs
  · exact hs

theorem Sound.stepMarkReady (p : Nat) : (s.step (.markReady p)).Sound := by
  simp only [step]
  split
  · rename_i objects state expires lease until_ progress hplan
    split_ifs with hall
    · apply hs.setJob hplan rfl
      · intro hstate
        cases hstate
      · intro _ x hx hmode
        have hsettled := all_eq_true.1 hall x hx
        refine (hs.plan p _ hplan).requested _ rfl rfl x hx ?_
        cases hx2 : x.2 <;> simp_all
    · exact hs
  · exact hs

/-- The steps that begin a transaction read what it relies on. -/
theorem Sound.stepBegin :
    (∀ k p object restores, (s.step (.readObject k p object restores)).Sound) ∧
      (∀ k p, (s.step (.beginCreate k p)).Sound) ∧
      ∀ k p lease, (s.step (.beginRenew k p lease)).Sound := by
  refine ⟨fun k p object restores => ?_, fun k p => ?_, fun k p lease => ?_⟩
  · simp only [step]
    split
    · split_ifs with hopen hready hrestores
      · exact hs.setFlight (by rintro f ⟨⟩; exact fun _ => hready)
      · exact hs.setFlight (by rintro f ⟨⟩ ⟨⟩)
      · exact hs.setFlight (by rintro f ⟨⟩ ⟨⟩)
      · exact hs
    · exact hs
  · simp only [step]
    split
    · rename_i plan hplan
      split_ifs with hopen
      · apply hs.setFlight
        rintro f ⟨⟩
        exact ⟨plan, hplan, by simp [hopen.1], (hs.plan p plan hplan).opened (.inr hopen.1) hopen.2⟩
      · exact hs
    · exact hs
  · simp only [step]
    split
    · rename_i plan hplan
      split_ifs with hopen
      · rw [Bool.and_eq_true] at hopen
        have hjob : plan.job ≠ none := by
          intro hnone
          simp [hnone] at hopen
        apply hs.setFlight
        rintro f ⟨⟩
        refine ⟨plan, hplan, (hs.plan p plan hplan).consumed hjob, ?_⟩
        intro x hx hmode
        simpa [hmode] using all_eq_true.1 hopen.2 x hx
      · exact hs
    · exact hs

/-- The steps that end a plan or a job. -/
theorem Sound.stepEnd (p : Nat) :
    (s.step (.sealPlan p)).Sound ∧ (s.step (.endJob p)).Sound ∧ (s.step (.expirePlan p)).Sound := by
  cases hplan : s.plans p with
  | none => simpa [step, hplan] using hs
  | some plan =>
    have hsound := hs.plan p plan hplan
    refine ⟨?_, ?_, ?_⟩
    · simp only [step, hplan]
      split_ifs with hstate
      · apply hs.setPlan hplan
        · refine ⟨fun hjob => ?_, fun _ => hsound.opened (.inl hstate), hsound.requested,
            hsound.ready⟩
          simp [hsound.consumed hjob] at hstate
        · exact fun h => absurd hstate h
        · exact fun h => by simp [h] at hstate
      · exact hs
    · simp only [step, hplan]
      apply hs.setPlan hplan
      · refine ⟨fun hjob => hsound.consumed (by simpa using hjob), hsound.opened, ?_, ?_⟩
        · intro job hjob hstate
          obtain ⟨old, -, rfl⟩ := Option.map_eq_some_iff.1 hjob
          cases hstate
        · intro job hjob hstate
          obtain ⟨old, -, rfl⟩ := Option.map_eq_some_iff.1 hjob
          cases hstate
      · exact fun h => ⟨rfl, h⟩
      · exact fun h => h
    · simp only [step, hplan]
      split_ifs with hstate
      · apply hs.setPlan hplan
        · refine ⟨fun hjob => ?_, by simp, hsound.requested, hsound.ready⟩
          simp [hsound.consumed hjob] at hstate
        · exact fun _ => ⟨rfl, by simp⟩
        · exact fun h => by simp [h] at hstate
      · exact hs

/-- One step keeps the invariant where removals and registrations keep the references. -/
theorem Sound.step {i : RetrievalStep ω} (hguard : s.KeepsReferences i) : (s.step i).Sound := by
  cases i with
  | tick =>
    refine ⟨hs.numbered, fun q plan hq => ?_, fun k flight hk => ?_⟩
    · exact (hs.plan q plan hq).mono (Nat.le_succ _) fun _ _ h => h
    · have hf := hs.flight k flight hk
      cases flight <;> exact hf
  | plan timeout lease => exact hs.stepPlan timeout lease
  | readObject k p object restores => exact hs.stepBegin.1 k p object restores
  | sealPlan p => exact (hs.stepEnd p).1
  | beginCreate k p => exact hs.stepBegin.2.1 k p
  | observe p object => exact hs.stepObserve p object
  | register p object => exact hs.stepRegister p object hguard
  | markReady p => exact hs.stepMarkReady p
  | beginRenew k p lease => exact hs.stepBegin.2.2 k p lease
  | endJob p => exact (hs.stepEnd p).2.1
  | expirePlan p => exact (hs.stepEnd p).2.2
  | sweep k object =>
    simp only [RetrievalState.step]
    split_ifs
    · exact hs.setFlight (by rintro f ⟨⟩; trivial)
    · exact hs
  | evict k object =>
    simp only [RetrievalState.step]
    split_ifs
    · exact hs.setFlight (by rintro f ⟨⟩; trivial)
    · exact hs
  | forget object =>
    simp only [RetrievalState.step]
    split_ifs with hleaving
    · exact hs.setCache fun h => by simp [h] at hleaving
    · exact hs
  | commit k =>
    cases hflight : s.flights k with
    | none => simpa [RetrievalState.step, hflight] using hs
    | some flight =>
      simp only [RetrievalState.step, hflight]
      apply Sound.setFlight
      · exact hs.committed (hs.flight k flight hflight)
          fun object heq => hguard object (by rw [hflight, heq])
      · exact fun f h => nomatch h
  | abort k => exact hs.setFlight fun f h => nomatch h

end

theorem not_liveReference {object : ω}
    (hplans : ∀ p plan, s.plans p = some plan → ¬ plan.refersTo object)
    (hflights : ∀ k p, s.flights k ≠ some (.planning p object .cache)) :
    ¬ s.LiveReference object := by
  rintro (⟨p, plan, hp, href, -⟩ | ⟨k, p, hk⟩ | ⟨k, p, now, plan, -, hp, href⟩ |
    ⟨k, p, expires, plan, -, hp, href⟩)
  · exact hplans p plan hp href
  · exact hflights k p hk
  · exact hplans p plan hp href
  · exact hplans p plan hp href

end RetrievalState

/-- In every run whose removals and registrations keep the references, every job that is ready and
unexpired finds its objects ready in the cache. -/
theorem ready_jobs_stay_servable (cache : ω → CacheState) (run : List (RetrievalStep ω))
    (h : Guarded RetrievalState.step RetrievalState.KeepsReferences
      (RetrievalState.initial cache) run) :
    Throughout RetrievalState.step RetrievalState.Servable (RetrievalState.initial cache) run := by
  exact throughout_of_guarded (fun _ _ hs hok => hs.step hok) (fun _ hs => hs.servable)
    (RetrievalState.initial_sound cache) h

end Model

namespace Samples

/-- Objects 0 and 2 are cached, object 1 is not. -/
def cache (object : Nat) : CacheState :=
  if object = 1 then .absent else .ready

/-- A job on objects 0 and 1 becomes ready while object 2 is evicted, and is renewed. -/
def servedRun : List (RetrievalStep Nat) :=
  [.plan 10 5, .readObject 0 0 0 false, .commit 0, .readObject 0 0 1 true, .commit 0, .sealPlan 0,
    .beginCreate 0 0, .commit 0, .register 0 1, .evict 1 2, .commit 1, .markReady 0,
    .beginRenew 2 0 7, .commit 2]

/-- The job is created shortly before its plan expires, and object 0 is swept before the restore of
object 1 is done. -/
def expiredPlanRun : List (RetrievalStep Nat) :=
  [.plan 2 5, .readObject 0 0 0 false, .commit 0, .readObject 0 0 1 true, .commit 0, .sealPlan 0,
    .tick, .beginCreate 0 0, .commit 0, .tick, .sweep 1 0, .commit 1, .register 0 1, .markReady 0]

/-- Every step of the served run keeps the references: object 2 belongs to no plan. -/
theorem servedRun_guarded : Guarded RetrievalState.step RetrievalState.KeepsReferences
    (RetrievalState.initial cache) servedRun := by
  simp only [servedRun, Guarded]
  refine ⟨trivial, trivial, ?_, trivial, ?_, trivial, trivial, ?_, ?_, trivial, ?_, trivial,
    trivial, ?_, trivial⟩
  · exact fun object h => nomatch h
  · exact fun object h => nomatch h
  · exact fun object h => nomatch h
  · exact fun h => nomatch h
  · rintro object ⟨⟩
    apply RetrievalState.not_liveReference
    · intro p plan hplan
      cases p with
      | zero =>
        cases hplan
        decide
      | succ p => cases hplan
    · intro k p hflight
      match k, hflight with
      | 0, h => cases h
      | 1, h => cases h
      | k + 2, h => cases h
  · exact fun object h => nomatch h

end Samples

theorem served_run_servable :
    Guarded RetrievalState.step RetrievalState.KeepsReferences
        (RetrievalState.initial Samples.cache) Samples.servedRun ∧
      Throughout RetrievalState.step RetrievalState.Servable
        (RetrievalState.initial Samples.cache) Samples.servedRun :=
  ⟨Samples.servedRun_guarded, ready_jobs_stay_servable _ _ Samples.servedRun_guarded⟩

/-- A requested job protects its cached objects only until its plan expires, so that it can become
ready without them. -/
theorem swept_before_ready_not_servable :
    ¬ Throughout RetrievalState.step RetrievalState.Servable
      (RetrievalState.initial Samples.cache) Samples.expiredPlanRun := by
  intro h
  have hready := h.last 0 _ _ rfl rfl (by decide +kernel) (by decide +kernel) (0, .cache)
    (by decide +kernel) (by decide)
  revert hready
  decide +kernel

end Riverhog.Retrieval
