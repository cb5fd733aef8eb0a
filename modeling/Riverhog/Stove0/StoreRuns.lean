import Riverhog.Stove0.Acceptance
import Riverhog.Stove0.WorkStore

/-!
# Runs of the store

What one step of the system does to the rows of the store, whichever worker or transaction
makes it, and what therefore holds along every interleaving of compare-and-swap updates: a
row appears as a fresh record and from then on only moves.
-/

namespace Riverhog.Stove0

open Core Relation Store Except

/-- What a step does to the row of a work: nothing, the creation of a record, or a move. -/
inductive RowChange (x : External) (id : Digest) : Option WorkRecord → Option WorkRecord → Prop
  | same (row : Option WorkRecord) : RowChange x id row row
  | created {record : WorkRecord} (key : workId x.toDigests record = id)
      (fresh : record.Fresh x.toDigests) : RowChange x id none (some record)
  | moved {record stored : WorkRecord} (move : record.Moved x stored) :
      RowChange x id (some record) (some stored)

/-- Rows that a transaction inserts: a row that is there is not changed. -/
structure Store.Grows (x : External) (s t : Store) : Prop where
  works : ∀ id, t.works id = s.works id ∨ (s.works id = none ∧
    ∃ record, t.works id = some record ∧ workId x.toDigests record = id ∧ record.Fresh x.toDigests)
  selections : ∀ digest selection, s.selections digest = some selection →
    t.selections digest = some selection
  outputs : t.outputs = s.outputs
  seals : t.seals = s.seals

/-- Declarations of a job are closed once its production seal has left `receiving`. -/
def Store.Closed (s : Store) (id job : Digest) : Prop :=
  ∃ state, s.seals id job = some state ∧ state ≠ .receiving

/-- What one step does to the store. -/
structure Store.Advance (x : External) (s t : Store) : Prop where
  works : ∀ id, RowChange x id (s.works id) (t.works id)
  selections : ∀ digest selection, s.selections digest = some selection →
    t.selections digest = some selection
  outputs : ∀ id job, s.Closed id job → t.outputs id job = s.outputs id job
  closed : ∀ id job, s.Closed id job → t.Closed id job

namespace Store

variable {x : External} {s t u : Store}

theorem Grows.refl (s : Store) : Grows x s s :=
  ⟨fun _ => Or.inl rfl, fun _ _ h => h, rfl, rfl⟩

theorem Grows.trans (hst : Grows x s t) (htu : Grows x t u) : Grows x s u where
  works id := by
    rcases hst.works id with hs | ⟨hs, hcreated⟩
    · rcases htu.works id with ht | ⟨ht, hcreated⟩
      · exact Or.inl (ht.trans hs)
      · exact Or.inr ⟨hs ▸ ht, hcreated⟩
    · rcases htu.works id with ht | ⟨ht, -⟩
      · exact Or.inr ⟨hs, by rwa [ht]⟩
      · obtain ⟨record, hr, -⟩ := hcreated
        rw [ht] at hr
        cases hr
  selections digest selection h := htu.selections _ _ (hst.selections _ _ h)
  outputs := htu.outputs.trans hst.outputs
  seals := htu.seals.trans hst.seals

theorem Grows.foldlM {α : Type} {insert : Store → α → Service Store} {items : List α}
    (hinsert : ∀ s a t, a ∈ items → insert s a = .ok t → Grows x s t)
    (h : items.foldlM insert s = .ok t) : Grows x s t := by
  induction items generalizing s with
  | nil =>
    obtain rfl : s = t := ok.inj h
    exact Grows.refl s
  | cons a items ih =>
    rw [List.foldlM_cons, bind_eq_ok] at h
    obtain ⟨s', ha, hrest⟩ := h
    have hstep := hinsert s a s' List.mem_cons_self ha
    exact hstep.trans (ih (fun s b t hb => hinsert s b t (List.mem_cons_of_mem a hb)) hrest)

theorem Grows.advance (h : Grows x s t) : Advance x s t where
  works id := by
    rcases h.works id with hsame | ⟨hnone, record, hr, hkey, hfresh⟩
    · rw [hsame]
      exact .same _
    · rw [hnone, hr]
      exact .created hkey hfresh
  selections := h.selections
  outputs id job _ := by rw [h.outputs]
  closed id job hc := by rwa [Closed, h.seals]

/-- Inserting rows and then replacing a record by a move of it is one step. -/
theorem Grows.advance_put (record : WorkRecord) {stored : WorkRecord} (h : Grows x s t)
    (hrow : s.works (workId x.toDigests record) = some record) (hmove : record.Moved x stored)
    (hkey : workId x.toDigests stored = workId x.toDigests record) :
    Advance x s (t.putWork x.toDigests stored) where
  works id := by
    change RowChange x id _ (Function.update t.works (workId x.toDigests stored) (some stored) id)
    rcases eq_or_ne id (workId x.toDigests stored) with rfl | hne
    · rw [Function.update_self, hkey, hrow]
      exact .moved hmove
    · rw [Function.update_of_ne hne]
      exact h.advance.works id
  selections := h.selections
  outputs id job _ := by rw [putWork, h.outputs]
  closed id job hc := by
    have hseals : (t.putWork x.toDigests stored).seals = s.seals := h.seals
    rwa [Closed, hseals]

/-! ## Inserting rows -/

variable {decision : BranchSetDecision} {id job : Digest} {d : Digests} {record : WorkRecord}

theorem grows_putWork (hrow : s.works (workId x.toDigests record) = none)
    (hfresh : record.Fresh x.toDigests) : Grows x s (s.putWork x.toDigests record) where
  works id := by
    change Function.update s.works (workId x.toDigests record) (some record) id = _ ∨ _ ∧
      ∃ r, Function.update s.works (workId x.toDigests record) (some record) id = _ ∧ _
    rcases eq_or_ne id (workId x.toDigests record) with rfl | hne
    · exact Or.inr ⟨hrow, record, Function.update_self .., rfl, hfresh⟩
    · exact Or.inl (Function.update_of_ne hne ..)
  selections _ _ h := h
  outputs := rfl
  seals := rfl

theorem insertWork_grows {agrees : WorkRecord → Bool} {reused : String}
    (hfresh : record.Fresh x.toDigests)
    (h : s.insertWork x.toDigests record agrees reused = .ok t) : Grows x s t := by
  rw [insertWork] at h
  split at h
  · rename_i hrow
    obtain rfl := ok.inj h
    exact grows_putWork hrow hfresh
  · obtain rfl : s = t := ok.inj (require_bind_eq_ok.1 h).2
    exact Grows.refl s

theorem retainSelection_grows {selection : ArtifactSelection}
    (h : s.retainSelection x.toDigests selection = .ok t) : Grows x s t := by
  rw [retainSelection] at h
  split at h
  · rename_i hrow
    obtain rfl := ok.inj h
    refine ⟨fun _ => Or.inl rfl, fun digest known hknown => ?_, rfl, rfl⟩
    have hne : digest ≠ x.selection selection := by
      rintro rfl
      rw [hrow] at hknown
      cases hknown
    exact (Function.update_of_ne hne ..).trans hknown
  · obtain rfl : s = t := ok.inj (require_bind_eq_ok.1 h).2
    exact Grows.refl s

/-! ## Fresh records -/

theorem validate_eq_ok {stored : WorkRecord} :
    WorkRecord.validate d record = .ok stored ↔
      stored = record ∧ record.validateShape d = .ok () := by
  rw [WorkRecord.validate]
  split
  · rename_i h
    simp [h, eq_comm]
  · rename_i e h
    simp [h]

variable {branch : BranchDeclaration} {plan : JoinPlan}
  {expectations : List PreviewTargetExpectation} {state : SealState} {revision : Nat}

/-- A branch of a valid decision is a branch work. -/
theorem branchBinding_of_verify (h : decision.verify d = .ok ())
    (hb : branch ∈ decision.plans.flatMap (·.branches)) : branch.work.branchBinding.isSome := by
  simp only [BranchSetDecision.verify, bind_eq_ok, require_eq_ok, forM_eq_ok] at h
  obtain ⟨_, -, _, -, _, -, _, -, _, -, _, -, hplans⟩ := h
  obtain ⟨plan, hp, hb⟩ := List.mem_flatMap.1 hb
  have hplan := hplans plan hp
  simp only [validateBranchSetPlan, bind_eq_ok, forM_eq_ok] at hplan
  obtain ⟨_, hbranches, -⟩ := hplan
  have hbranch := hbranches branch hb
  simp only [validateBranch, bind_eq_ok, require_eq_ok] at hbranch
  obtain ⟨selection, -, _, -, _, -, _, hbinding, -⟩ := hbranch
  rw [validateBinding] at hbinding
  split at hbinding
  · cases hbinding
  · rename_i binding hbind
    rw [hbind]
    rfl

theorem forkJoin_of_branchBinding {work : WorkPayload} (h : work.branchBinding.isSome) :
    work.forkJoin.isSome := by
  rw [WorkPayload.branchBinding] at h
  split at h
  · rename_i hb
    rw [hb]
    rfl
  · cases h

theorem childRecord_fresh (hbranch : branch.work.branchBinding.isSome)
    (h : childRecord d decision expectations branch = .ok record) : record.Fresh d := by
  cases branch with
  | leaf branch =>
    obtain ⟨rfl, hshape⟩ := validate_eq_ok.1 h
    exact ⟨hshape, rfl, fun _ => forkJoin_of_branchBinding hbranch, nofun⟩
  | coordination branch =>
    rw [childRecord] at h
    split at h
    · cases h
    · obtain ⟨rfl, hshape⟩ := validate_eq_ok.1 h
      exact ⟨hshape, rfl, nofun, fun _ => hbranch⟩

theorem admittedChildRecords_fresh {records : List WorkRecord}
    (hverify : decision.verify d = .ok ())
    (h : admittedChildRecords d decision expectations = .ok records) (hr : record ∈ records) :
    record.Fresh d := by
  rw [admittedChildRecords, bind_eq_ok] at h
  obtain ⟨built, hbuilt, h⟩ := h
  obtain rfl := ok.inj h
  rw [(sortedBy_perm (workId d) built).mem_iff] at hr
  obtain ⟨branch, hb, hchild⟩ := forall₂_mem_right (mapM_eq_ok_iff.1 hbuilt) hr
  exact childRecord_fresh (branchBinding_of_verify hverify hb) hchild

/-- The work of a valid join plan is a join work. -/
theorem isJoin_of_verify (h : plan.verify = .ok ()) : plan.work.forkJoin.isSome := by
  simp only [JoinPlan.verify, bind_eq_ok, require_eq_ok] at h
  obtain ⟨_, -, _, -, _, -, _, -, _, -, _, -, h⟩ := h
  split at h
  · rename_i hb
    rw [hb]
    rfl
  · simp [throw, throwThe, MonadExceptOf.throw] at h

/-! ## Each transaction is one step -/

theorem load_eq_ok {s : Store} : s.load id = .ok record ↔ s.works id = some record := by
  rw [load]
  split
  · rename_i h
    simp [h]
  · rename_i h
    simp [h]

/-- Every row is under the id of its work. -/
def Keyed (d : Digests) (s : Store) : Prop :=
  ∀ id record, s.works id = some record → workId d record = id

theorem admitBranchSet_advance (hkeys : s.Keyed x.toDigests)
    (h : s.admitBranchSet x.toDigests id revision decision = .ok t) : Advance x s t := by
  rw [admitBranchSet, Service.ofPy_bind_eq_ok, bind_eq_ok] at h
  obtain ⟨hverify, current, hload, h⟩ := h
  rw [load_eq_ok] at hload
  split at h
  · obtain rfl : s = t := ok.inj h
    exact (Grows.refl s).advance
  · rw [require_bind_eq_ok, require_bind_eq_ok, decide_eq_true_eq, decide_eq_true_eq] at h
    obtain ⟨-, ⟨hphase, -⟩, h⟩ := h
    simp only [insertBranchSet, bind_eq_ok] at h
    obtain ⟨expectations, -, s₁, hselections, children, hchildren, s₂, hinserted,
      replacement, hreplace, h⟩ := h
    obtain rfl := ok.inj h
    have hgrows₁ : Grows x s s₁ :=
      Grows.foldlM (fun _ _ _ _ hi => retainSelection_grows hi) hselections
    have hgrows₂ : Grows x s₁ s₂ := Grows.foldlM
      (fun _ child _ hc hi => insertWork_grows (admittedChildRecords_fresh hverify hchildren hc) hi)
      hinserted
    obtain ⟨rfl, hshape⟩ := WorkRecord.replace_eq_ok.1 hreplace
    refine (hgrows₁.trans hgrows₂).advance_put current ?_
      ⟨_, .admitBranchSet decision.plan hphase, rfl, hshape⟩ rfl
    rw [hkeys id current hload, hload]

theorem admitJoin_advance {selections : List ArtifactSelection}
    (hkeys : s.Keyed x.toDigests)
    (h : s.admitJoin x.toDigests id revision plan selections = .ok t) : Advance x s t := by
  rw [admitJoin, Service.ofPy_bind_eq_ok, require_bind_eq_ok, bind_eq_ok] at h
  obtain ⟨hverify, -, current, hload, h⟩ := h
  rw [load_eq_ok] at hload
  split at h
  · obtain rfl : s = t := ok.inj h
    exact (Grows.refl s).advance
  · simp only [require_bind_eq_ok, decide_eq_true_eq, Option.any_eq_true,
      Option.isNone_iff_eq_none] at h
    obtain ⟨-, ⟨hphase, set, hset, hresolves⟩, hunjoined, h⟩ := h
    simp only [insertJoinPlan, bind_eq_ok] at h
    obtain ⟨s₁, hselections, child, hchild, s₂, hinserted, replacement, hreplace, h⟩ := h
    obtain rfl := ok.inj h
    have hgrows₁ : Grows x s s₁ :=
      Grows.foldlM (fun _ _ _ _ hi => retainSelection_grows hi) hselections
    obtain ⟨rfl, hchildShape⟩ := validate_eq_ok.1 hchild
    have hfresh : WorkRecord.Fresh x.toDigests
        { work := plan.work, workflowPlan := some plan.workflowPlan } :=
      ⟨hchildShape, rfl, fun _ => isJoin_of_verify hverify, nofun⟩
    obtain ⟨rfl, hshape⟩ := WorkRecord.replace_eq_ok.1 hreplace
    refine (hgrows₁.trans (insertWork_grows hfresh hinserted)).advance_put current ?_
      ⟨_, .admitJoin plan hphase hset hresolves hunjoined, rfl, hshape⟩ rfl
    rw [hkeys id current hload, hload]

theorem recordTargetOutput_advance {output : OutputArtifact}
    (h : s.recordTargetOutput x id job output = .ok t) : Advance x s t := by
  simp only [recordTargetOutput, bind_eq_ok, require_eq_ok] at h
  obtain ⟨_, -, _, hopen, outputs, -, h⟩ := h
  obtain rfl := ok.inj h
  refine ⟨fun _ => .same _, fun _ _ hs => hs, fun w j hclosed => ?_, fun _ _ hc => hc⟩
  -- a closed job is not the one that the output is declared for
  have hne : ¬(w = id ∧ j = job) := by
    rintro ⟨rfl, rfl⟩
    obtain ⟨state, hstate, hnot⟩ := hclosed
    rw [hstate, Option.all_some, decide_eq_true_eq] at hopen
    exact hnot hopen
  exact if_neg hne

theorem putSeal_advance (hopen : s.Closed id job → state ≠ .receiving) :
    Advance x s (s.putSeal id job state) := by
  refine ⟨fun _ => .same _, fun _ _ hs => hs, fun _ _ _ => rfl, fun w j hclosed => ?_⟩
  by_cases hkey : w = id ∧ j = job
  · obtain ⟨rfl, rfl⟩ := hkey
    exact ⟨state, if_pos ⟨rfl, rfl⟩, hopen hclosed⟩
  · obtain ⟨known, hknown, hnot⟩ := hclosed
    exact ⟨known, (if_neg hkey).trans hknown, hnot⟩

theorem ensureTargetProductionReceiving_advance
    (h : s.ensureTargetProductionReceiving x id job = .ok t) : Advance x s t := by
  rw [ensureTargetProductionReceiving, bind_eq_ok] at h
  obtain ⟨_, -, h⟩ := h
  split at h
  · obtain rfl : s = t := ok.inj h
    exact (Grows.refl s).advance
  · rename_i hnone
    obtain rfl := ok.inj h
    refine putSeal_advance ?_
    rintro ⟨state, hstate, -⟩
    rw [hnone] at hstate
    cases hstate

theorem replaceSeal_advance (h : s.replaceSeal id job state = .ok t) : Advance x s t := by
  rw [replaceSeal] at h
  split at h
  · cases h
  · rename_i current _
    obtain ⟨hfollows, h⟩ := require_bind_eq_ok.1 h
    obtain rfl := ok.inj h
    refine putSeal_advance fun _ hreceiving => ?_
    rw [hreceiving] at hfollows
    cases current <;> cases hfollows

end Store

variable {x : External} {s t : Store} {ω : Type} {record stored : WorkRecord}

/-- A transaction of the store is one step. -/
theorem StoreCall.advance {call : StoreCall} (hkeys : s.Keyed x.toDigests)
    (h : call.apply x s = .ok t) : s.Advance x t := by
  cases call with
  | createOrResume work acceptance =>
    simp only [StoreCall.apply, bind_eq_ok] at h
    obtain ⟨record, hrecord, h⟩ := h
    obtain ⟨rfl, hshape⟩ := validate_eq_ok.1 hrecord
    exact (insertWork_grows ⟨hshape, rfl, nofun, nofun⟩ h).advance
  | admitBranchSet => exact admitBranchSet_advance hkeys h
  | admitJoin => exact admitJoin_advance hkeys h
  | retainSelection => exact (retainSelection_grows h).advance
  | recordTargetOutput => exact recordTargetOutput_advance h
  | ensureTargetProductionReceiving => exact ensureTargetProductionReceiving_advance h
  | replaceSeal => exact replaceSeal_advance h

/-! ## Interleaved runs -/

/-- A move keeps the work of a record. -/
theorem WorkRecord.Moved.work (h : record.Moved x stored) : stored.work = record.work := by
  obtain ⟨replacement, hmove, rfl, -⟩ := h
  cases hmove with
  | observe result =>
    dsimp only [WorkService.observed]
    split <;> rfl
  | _ => rfl

/-- A move has the next revision. -/
theorem WorkRecord.Moved.revision (h : record.Moved x stored) :
    stored.revision = record.revision + 1 := by
  obtain ⟨replacement, -, rfl, -⟩ := h
  rfl

section

variable (x : External)

/-- A call of the service on a loaded record computes a replacement. -/
def Computes (record replacement : WorkRecord) : Prop :=
  replacement ≠ record ∧ ∃ transition : Transition, transition.apply x record = .ok replacement

/-- The store runs a transaction. -/
def Transacts (s t : Store) : Prop := ∃ call : StoreCall, call.apply x s = .ok t

/-- The workers and the store, one step at a time. -/
abbrev SystemStep {ω : Type} [DecidableEq ω] :
    Versioned.Shared Store ω WorkRecord → Versioned.Shared Store ω WorkRecord → Prop :=
  (versioned x.toDigests).Step (Computes x) (Transacts x)

/-- Nothing is stored and nothing is loaded. -/
def Initial {ω : Type} (system : Versioned.Shared Store ω WorkRecord) : Prop :=
  system.store = empty ∧ ∀ worker, system.held worker = none

end

variable {x : External}

theorem Computes.moved {record replacement : WorkRecord} (h : Computes x record replacement) :
    record.Moved x replacement := by
  obtain ⟨hne, transition, happly⟩ := h
  exact (apply_returned happly).resolve_left hne

/-- An atomic step of the system is an advance of the store. -/
theorem atomic_advance (hkeys : s.Keyed x.toDigests)
    (h : (versioned x.toDigests).Atomic (Computes x) (Transacts x) s t) : s.Advance x t := by
  cases h with
  | update hcur hcomp =>
    refine (Store.Grows.refl s).advance_put _ hcur hcomp.moved ?_
    rw [workId, hcomp.moved.work]
    rfl
  | other hstep =>
    obtain ⟨call, hcall⟩ := hstep
    exact StoreCall.advance hkeys hcall

theorem Store.Advance.keyed (hkeys : s.Keyed x.toDigests) (h : s.Advance x t) :
    t.Keyed x.toDigests := by
  intro id record hrow
  have hchange := h.works id
  rw [hrow] at hchange
  generalize hs : s.works id = row at hchange
  cases hchange with
  | same => exact hkeys id record hs
  | created hkey => exact hkey
  | moved hmove => rw [workId, hmove.work]; exact hkeys id _ hs

theorem WorkRecord.Moved.shaped (h : record.Moved x stored) : stored.Shaped x.toDigests := by
  obtain ⟨-, -, -, hshape⟩ := h
  exact WorkRecord.validateShape_eq_ok.1 hshape

/-- A move with the shape of what it computes. -/
theorem WorkRecord.Moved.inv (h : record.Moved x stored) :
    ∃ replacement, WorkMove x record replacement ∧
      stored = { replacement with revision := record.revision + 1 } ∧
        replacement.Shaped x.toDigests := by
  obtain ⟨replacement, hmove, rfl, hshape⟩ := h
  obtain ⟨h₁, h₂, h₃, h₄, h₅, h₆, h₇, h₈, h₉, h₁₀, h₁₁, h₁₂, h₁₃, h₁₄, h₁₅, h₁₆, h₁₇, h₁₈⟩ :=
    WorkRecord.validateShape_eq_ok.1 hshape
  exact ⟨replacement, hmove, rfl,
    ⟨h₁, h₂, h₃, h₄, h₅, h₆, h₇, h₈, h₉, h₁₀, h₁₁, h₁₂, h₁₃, h₁₄, h₁₅, h₁₆, h₁₇, h₁₈⟩⟩

/-- An advance keeps every record or moves it to a later revision. -/
theorem Store.Advance.advances (h : s.Advance x t) : (versioned x.toDigests).Advances s t := by
  intro id record hrow
  change s.works id = some record at hrow
  change ∃ b, t.works id = some b ∧ (record = b ∨ record.revision < b.revision)
  have hchange := h.works id
  rw [hrow] at hchange
  generalize t.works id = row at hchange
  cases hchange with
  | same => exact ⟨record, rfl, Or.inl rfl⟩
  | @moved _ stored hmove =>
    refine ⟨stored, rfl, Or.inr ?_⟩
    rw [hmove.revision]
    exact Nat.lt_succ_self _

theorem Computes.later {replacement : WorkRecord} (h : Computes x record replacement) :
    workId x.toDigests replacement = workId x.toDigests record ∧
      record.revision < replacement.revision := by
  refine ⟨by rw [workId, h.moved.work]; rfl, ?_⟩
  rw [h.moved.revision]
  exact Nat.lt_succ_self _

theorem atomic_run_advance (hkeys : s.Keyed x.toDigests)
    (h : ReflTransGen ((versioned x.toDigests).Atomic (Computes x) (Transacts x)) s t) :
    t.Keyed x.toDigests ∧ ReflTransGen (Store.Advance x) s t := by
  induction h with
  | refl => exact ⟨hkeys, .refl⟩
  | tail _ hstep ih =>
    obtain ⟨hmid, hrun⟩ := ih
    have hadvance := atomic_advance hmid hstep
    exact ⟨hadvance.keyed hmid, hrun.tail hadvance⟩

/-- An interleaved run advances the store step by step. -/
theorem run_advance [DecidableEq ω] {s t : Versioned.Shared Store ω WorkRecord}
    (hheld : (versioned x.toDigests).Held s) (hkeys : s.store.Keyed x.toDigests)
    (h : ReflTransGen (SystemStep x) s t) :
    (versioned x.toDigests).Held t ∧ t.store.Keyed x.toDigests ∧
      ReflTransGen (Store.Advance x) s.store t.store := by
  obtain ⟨hheld', -, hrun⟩ := Versioned.run_atomic (Store.Keyed x.toDigests)
    (fun _ _ hcomp => hcomp.later)
    (fun _ _ hk hstep => (atomic_advance hk (.other hstep)).advances)
    (fun _ _ hk hstep => (atomic_advance hk hstep).keyed hk) hheld hkeys h
  obtain ⟨hkeys', hadvance⟩ := atomic_run_advance hkeys hrun
  exact ⟨hheld', hkeys', hadvance⟩

/-- A run from the initial system advances the empty store. -/
theorem initial_run_advance [DecidableEq ω] {start t : Versioned.Shared Store ω WorkRecord}
    (hstart : Initial start) (h : ReflTransGen (SystemStep x) start t) :
    (versioned x.toDigests).Held t ∧ t.store.Keyed x.toDigests ∧
      ReflTransGen (Store.Advance x) empty t.store := by
  obtain ⟨hstore, hnone⟩ := hstart
  rw [← hstore]
  refine run_advance (fun worker a ha => ?_) (fun id record hrow => ?_) h
  · rw [hnone] at ha
    cases ha
  · rw [hstore] at hrow
    cases hrow

/-- One worker that makes call after call on a stored record replaces it as the calls do. -/
theorem solo_run [DecidableEq ω] (worker : ω) {transitions : List Transition}
    {s : Versioned.Shared Store ω WorkRecord} {id : Digest}
    (hkey : workId x.toDigests record = id) (hrow : s.store.works id = some record)
    (h : transitions.foldlM (fun r t => t.apply x r) record = .ok stored) :
    workId x.toDigests stored = id ∧ ∃ last, ReflTransGen (SystemStep x) s last ∧
      last.store = s.store.putWork x.toDigests stored := by
  induction transitions generalizing s record with
  | nil =>
    obtain rfl : record = stored := ok.inj h
    refine ⟨hkey, s, .refl, ?_⟩
    rw [putWork, hkey, ← hrow, Function.update_eq_self]
  | cons transition transitions ih =>
    rw [List.foldlM_cons, bind_eq_ok] at h
    obtain ⟨next, hnext, hrest⟩ := h
    by_cases hsame : next = record
    · exact ih hkey hrow (hsame ▸ hrest)
    · have hcomputes : Computes x record next := ⟨hsame, transition, hnext⟩
      have hkey' : workId x.toDigests next = id := hcomputes.later.1.trans hkey
      have hcurrent : (versioned x.toDigests).records s.store
          ((versioned x.toDigests).key record) = some record := by
        change s.store.works (workId x.toDigests record) = some record
        rw [hkey, hrow]
      have hload : SystemStep x s _ := .load worker hcurrent
      have hswap : SystemStep x
          { s with held := Function.update s.held worker (some record) } _ :=
        .swap worker (Function.update_self ..) hcomputes hcurrent rfl
      have hrow' : (s.store.putWork x.toDigests next).works id = some next := by
        rw [← hkey']
        exact Function.update_self ..
      obtain ⟨hkeys, last, hrun, hstore⟩ := ih (s := ⟨_, _⟩) hkey' hrow' hrest
      refine ⟨hkeys, last, .head hload (.head hswap hrun), hstore.trans ?_⟩
      -- both puts are under the id of the work, and the last one counts
      simp only [putWork, hkeys, hkey', Function.update_idem]

/-! ## Invariants of rows -/

/-- What fresh records satisfy and moves keep holds of every stored record. -/
theorem row_invariant {P : WorkRecord → Prop} (hfresh : ∀ r, r.Fresh x.toDigests → P r)
    (hmove : ∀ r r', P r → r.Moved x r' → P r') (hrun : ReflTransGen (Store.Advance x) empty s) :
    ∀ id record, s.works id = some record → P record := by
  induction hrun with
  | refl =>
    intro id record hrow
    cases hrow
  | tail _ hstep ih =>
    intro id record hrow
    have hchange := hstep.works id
    rw [hrow] at hchange
    generalize hs : works _ id = row at hchange
    cases hchange with
    | same => exact ih id record hs
    | created _ hf => exact hfresh record hf
    | moved hm => exact hmove _ record (ih id _ hs) hm

/-- A stored record stays stored and only moves. -/
theorem row_later (hrun : ReflTransGen (Store.Advance x) s t) {id : Digest}
    (hrow : s.works id = some record) :
    ∃ later, t.works id = some later ∧ ReflTransGen (WorkRecord.Moved x) record later := by
  induction hrun with
  | refl => exact ⟨record, hrow, .refl⟩
  | tail _ hstep ih =>
    obtain ⟨middle, hmiddle, hmoves⟩ := ih
    have hchange := hstep.works id
    rw [hmiddle] at hchange
    generalize works _ id = row at hchange
    cases hchange with
    | same => exact ⟨middle, rfl, hmoves⟩
    | moved hm => exact ⟨_, rfl, hmoves.tail hm⟩

end Riverhog.Stove0
