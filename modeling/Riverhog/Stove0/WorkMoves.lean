import Riverhog.Stove0.WorkService

/-!
# What a transition can do

`WorkMove` lists the changes that the service and the store make to a record, each with
the guards it was made under. Every call that returns either leaves the record as it was or is one of
these moves, with the next revision and a checked shape; the invariants of a record are
proved from this list.
-/

namespace Riverhog.Stove0

open Core WorkService

theorem require_bind_eq_ok {ε β : Type} {c : Bool} {e : ε} {f : Unit → Except ε β} {b : β} :
    (require c e >>= f) = .ok b ↔ c = true ∧ f () = .ok b := by
  cases c <;> simp [require]

theorem Service.ofPy_bind_eq_ok {β : Type} {result : Py Unit} {f : Unit → Service β} {b : β} :
    (Service.ofPy result >>= f) = .ok b ↔ result = .ok () ∧ f () = .ok b := by
  cases result <;> simp [Service.ofPy, Except.mapError]

/-- A replacement is stored when its shape is valid, under the next revision. -/
theorem WorkRecord.replace_eq_ok {d : Digests} {record replacement stored : WorkRecord} :
    record.replace d replacement = .ok stored ↔
      stored = { replacement with revision := record.revision + 1 } ∧
        stored.validateShape d = .ok () := by
  rw [WorkRecord.replace, WorkRecord.validate]
  split
  · rename_i h
    rw [Except.ok.injEq]
    exact ⟨fun e => ⟨e.symm, e ▸ h⟩, fun e => e.1.symm⟩
  · rename_i e h
    refine ⟨nofun, ?_⟩
    rintro ⟨rfl, hshape⟩
    rw [hshape] at h
    cases h

/-- The phases from which a claim may be bound again under a newer fence. -/
def WorkPhase.rebindable (phase : WorkPhase) : Prop :=
  phase ∉ [.eligible, .settled, .retirementPending, .abandonPending, .complete, .inapplicable,
    .failed, .canceled]

/-- The newer claim keeps the id of the older one and advances its fence. -/
def ClaimBinding.Advances (claim binding : ClaimBinding) : Prop :=
  binding.claimId = claim.claimId ∧ claim.fence < binding.fence

/-- The changes of a record. The revision of the result is set by the store. -/
inductive WorkMove (x : External) (record : WorkRecord) : WorkRecord → Prop
  | bindClaim (binding : ClaimBinding) (phase : record.phase ∈ [.eligible, .claimed])
      (same : ∀ claim, record.claim = some claim → claim = binding) :
      WorkMove x record { record with phase := .claimed, claim := some binding }
  | reclaim {claim : ClaimBinding} (binding : ClaimBinding) (held : record.claim = some claim)
      (advances : claim.Advances binding)
      (phase : record.phase.rebindable ∨
        (record.phase = .failed ∧ record.failure.any (·.retryable) = true)) :
      WorkMove x record (reclaimed record binding)
  | retryCoordination {claim : ClaimBinding} (binding : ClaimBinding)
      (held : record.claim = some claim) (advances : claim.Advances binding)
      (phase : record.phase = .failed) (retryable : record.failure.any (·.retryable) = true)
      (plan : record.branchSetPlan.isSome) :
      WorkMove x record
        { record with phase := .coordinating, claim := some binding, failure := none }
  | activatePreplanned (phase : record.phase = .claimed) (plan : record.workflowPlan.isSome)
      (derived : record.work.forkJoin.isSome) :
      WorkMove x record { record with phase := .targetPreflight }
  | activateCoordination (phase : record.phase = .claimed) (plan : record.branchSetPlan.isSome)
      (branch : record.work.branchBinding.isSome) :
      WorkMove x record { record with phase := .coordinating }
  | beginPlanning (phase : record.phase ∈ [.claimed, .planning])
      (unobserved : record.observationRequests = [] ∧ record.observationResults = []) :
      WorkMove x record { record with phase := .planning }
  | beginObservations (requests : List ObservationRequest)
      (phase : record.phase ∈ [.claimed, .observing]) :
      WorkMove x record { record with phase := .observing, observationRequests := requests }
  | observe (result : ObservationResult) (phase : record.phase = .observing) :
      WorkMove x record (observed x.toDigests record result)
  | sealWorkflowPlan (plan : WorkflowPlan) (phase : record.phase ∈ [.planning, .targetPreflight])
      (same : ∀ sealed, record.workflowPlan = some sealed → sealed = plan) :
      WorkMove x record { record with phase := .targetPreflight, workflowPlan := some plan }
  | sealTargetPlan {workflow : WorkflowPlan} {claim : ClaimBinding} (target : TargetContract)
      (plan : TargetPlan) (sealed : record.workflowPlan = some workflow)
      (phase : record.phase ∈ [.targetPreflight, .queued]) (held : record.claim = some claim)
      (same : record.targetPlan = none ∨ (record.targetPlan = some plan ∧
        record.controllerEvidence = some (controllerEvidence x claim workflow target plan))) :
      WorkMove x record
        { record with
          phase := .queued
          targetPlan := some plan
          controllerEvidence := some (controllerEvidence x claim workflow target plan) }
  | bindTargetRequest (declaration : TargetJobDeclaration)
      (valid : declaration.verify x = .ok ()) (phase : record.phase ∈ [.queued, .executing])
      (evidence : record.controllerEvidence = some declaration.controllerEvidence)
      (held : record.claim = some ⟨declaration.claimId, declaration.fence⟩)
      (same : ∀ request, record.targetRequest = some request → request = ⟨declaration⟩) :
      WorkMove x record { record with phase := .queued, targetRequest := some ⟨declaration⟩ }
  | report {request : AcceptedTargetJob} (status : TargetJobStatus) (operation : OperationContract)
      (accepted : record.targetRequest = some request)
      (phase : record.phase ∈ [.queued, .executing, .outputFinalizing, .verifying])
      (valid : validateStatusAgainstRequest x status.toTargetJobReport request operation = .ok ())
      (terminal : ∀ prior, record.targetStatus = some prior → prior.state.terminal = true →
        prior = status) :
      WorkMove x record (reported record status operation)
  | verifyOutput {status : TargetJobStatus} (output : OutputCollectionRef)
      (settlement : TargetSettlementAuthority) (phase : record.phase = .verifying)
      (succeeded : record.targetStatus = some status)
      (reported : status.outputCollection = some output) (held : record.output = some output)
      (settles : settlement.outputCollection = output) :
      WorkMove x record
        { record with
          phase := .settled, output := some output, targetSettlement := some settlement }
  | admitBranchSet (plan : BranchSetPlan) (phase : record.phase = .planning) :
      WorkMove x record { record with phase := .coordinating, branchSetPlan := some plan }
  | admitJoin {set : BranchSetPlan} (plan : JoinPlan) (phase : record.phase = .coordinating)
      (admitted : record.branchSetPlan = some set)
      (resolves : plan.branchSetSha256 = x.branchSet set) (unjoined : record.joinPlan = none) :
      WorkMove x record { record with joinPlan := some plan }
  | recordSettlement (settlement : CoordinationSettlement) (phase : record.phase = .coordinating)
      (unsettled : record.coordinationSettlement = none) :
      WorkMove x record { record with coordinationSettlement := some settlement }
  | requestCancel (phase : record.phase ∈ [.eligible, .claimed, .coordinating])
      (plan : record.branchSetPlan.isSome) :
      WorkMove x record { record with coordinationCancelRequested := true }
  | retain (phase : record.phase ∈ [.settled, .coordinating])
      (policy : sealedPolicy record = some .retain) :
      WorkMove x record { record with phase := .complete }
  | beginRetirement (ids : List Nat) (phase : record.phase ∈ [.settled, .coordinating])
      (policy : sealedPolicy record = some .retireAfterVerifiedOutput) :
      WorkMove x record { record with phase := .retirementPending, retirementRemaining := ids }
  | recordRetired (remaining : List Nat) (phase : record.phase = .retirementPending) :
      WorkMove x record
        { record with
          phase := if remaining = [] then .complete else .retirementPending
          retirementRemaining := remaining }
  | markInapplicable (outcome : Outcome)
      (phase : record.phase ∈ [.claimed, .observing, .planning, .targetPreflight, .coordinating]) :
      WorkMove x record
        { record with
          phase := .abandonPending
          inapplicable := some outcome
          abandonOutcome := some .inapplicable }
  | fail (failure : Failure)
      (phase : record.phase ∉
        [.abandonPending, .complete, .inapplicable, .failed, .canceled, .settled]) :
      WorkMove x record
        { record with
          phase := if failure.retryable then .failed else .abandonPending
          failure := some failure
          abandonOutcome := if failure.retryable then none else some .failed }
  | cancelEligible (phase : record.phase = .eligible) (unclaimed : record.claim = none) :
      WorkMove x record { record with phase := .canceled }
  | cancelFailed (phase : record.phase = .failed)
      (retryable : record.failure.any (·.retryable) = true) :
      WorkMove x record
        { record with
          phase := .abandonPending, failure := none, abandonOutcome := some .canceled }
  | cancelActive
      (phase : record.phase ∉
        [.abandonPending, .failed, .complete, .inapplicable, .canceled, .settled]) :
      WorkMove x record { record with phase := .abandonPending, abandonOutcome := some .canceled }
  | completeAbandon (outcome : AbandonOutcome) (phase : record.phase = .abandonPending)
      (pending : record.abandonOutcome = some outcome) :
      WorkMove x record { record with phase := outcome.phase, abandonOutcome := none }

/-- A record as it is created: eligible, with at most the plan that it was admitted with. -/
structure WorkRecord.Fresh (d : Digests) (record : WorkRecord) : Prop where
  shape : record.validateShape d = .ok ()
  initial : record =
    { work := record.work
      previewAcceptance := record.previewAcceptance
      expectedTargetPlanSha256 := record.expectedTargetPlanSha256
      workflowPlan := record.workflowPlan
      branchSetPlan := record.branchSetPlan }
  derived : record.workflowPlan.isSome → record.work.forkJoin.isSome
  nested : record.branchSetPlan.isSome → record.work.branchBinding.isSome

/-- A stored record: a move of another one, under the next revision, of a valid shape. -/
def WorkRecord.Moved (x : External) (record stored : WorkRecord) : Prop :=
  ∃ replacement, WorkMove x record replacement ∧
    stored = { replacement with revision := record.revision + 1 } ∧
      stored.validateShape x.toDigests = .ok ()

/-- What a call of the service returns: the record itself, or a move of it. -/
def WorkRecord.Returned (x : External) (record stored : WorkRecord) : Prop :=
  stored = record ∨ record.Moved x stored

variable {x : External} {record stored : WorkRecord}

theorem WorkMove.returned {replacement : WorkRecord} (hmove : WorkMove x record replacement)
    (h : record.replace x.toDigests replacement = .ok stored) : record.Returned x stored :=
  Or.inr ⟨replacement, hmove, WorkRecord.replace_eq_ok.1 h⟩

variable {binding : ClaimBinding}

theorem advanceClaim_bind_eq_ok {β : Type} {claim : ClaimBinding} {m₁ m₂ : String}
    {f : Unit → Service β} {b : β} :
    (advanceClaim claim binding m₁ m₂ >>= f) = .ok b ↔ claim.Advances binding ∧ f () = .ok b := by
  rw [advanceClaim, bind_assoc]
  simp only [require_bind_eq_ok, decide_eq_true_eq, ClaimBinding.Advances, and_assoc]

/-! ## Each transition is a move -/

theorem sealTargetPlan_returned {target : TargetContract} {plan : TargetPlan}
    (h : sealTargetPlan x record target plan = .ok stored) : record.Returned x stored := by
  rw [sealTargetPlan] at h
  split at h
  · cases h
  · rename_i workflow hw
    simp only [require_bind_eq_ok, decide_eq_true_eq] at h
    obtain ⟨hphase, -, h⟩ := h
    split at h
    · cases h
    · rename_i claim hc
      simp only [require_bind_eq_ok, Service.ofPy_bind_eq_ok, decide_eq_true_eq,
        Option.isNone_iff_eq_none] at h
      obtain ⟨-, hsame, h⟩ := h
      exact (WorkMove.sealTargetPlan target plan hw hphase hc hsame).returned h

theorem cancel_returned (h : cancel x.toDigests record = .ok stored) :
    record.Returned x stored := by
  rw [WorkService.cancel] at h
  split at h
  · exact Or.inl (Except.ok.inj h).symm
  · rename_i hnot
    split at h
    · rename_i heligible
      exact (WorkMove.cancelEligible heligible.1
        (Option.isNone_iff_eq_none.1 heligible.2)).returned h
    · split at h
      · rename_i hfailed
        obtain ⟨hretry, h⟩ := require_bind_eq_ok.1 h
        exact (WorkMove.cancelFailed hfailed hretry).returned h
      · rename_i hfailed
        rw [require_bind_eq_ok, decide_eq_true_eq] at h
        exact (WorkMove.cancelActive (List.not_mem_cons_of_ne_of_not_mem hnot
          (List.not_mem_cons_of_ne_of_not_mem hfailed h.1))).returned h.2

/-- A call of the service returns the record as it was, or a move of it. -/
theorem apply_returned {transition : Transition}
    (h : transition.apply x record = .ok stored) : record.Returned x stored := by
  cases transition <;> simp only [Transition.apply, bindClaim, rebindClaim, retryFailed,
    retryCoordination, activatePreplanned, activatePreplannedCoordination, beginPlanning,
    beginObservations, recordObservation, sealWorkflowPlan, bindTargetRequest,
    recordTargetStatus, verifyOutput, recordCoordinationSettlement, requestCoordinationCancel,
    beginRetirement, recordRetired, markInapplicable, fail, completeAbandon, require_bind_eq_ok,
    Service.ofPy_bind_eq_ok, decide_eq_true_eq] at h
  case bindClaim binding =>
    obtain ⟨hphase, hsame, h⟩ := h
    exact (WorkMove.bindClaim binding hphase fun claim hc => by simpa [hc] using hsame).returned h
  case rebindClaim binding =>
    split at h
    · cases h
    · rename_i claim hc
      simp only [require_bind_eq_ok, advanceClaim_bind_eq_ok, decide_eq_true_eq] at h
      obtain ⟨hphase, hadv, h⟩ := h
      exact (WorkMove.reclaim binding hc hadv (Or.inl hphase)).returned h
  case retryFailed binding =>
    obtain ⟨hphase, h⟩ := h
    split at h
    · cases h
    · rename_i claim hc
      obtain ⟨hadv, h⟩ := advanceClaim_bind_eq_ok.1 h
      exact (WorkMove.reclaim binding hc hadv (Or.inr hphase)).returned h
  case retryCoordination binding =>
    obtain ⟨⟨hphase, hretry, hplan, hclaim⟩, h⟩ := h
    obtain ⟨claim, hc⟩ := Option.isSome_iff_exists.1 hclaim
    rw [hc] at h
    obtain ⟨hadv, h⟩ := advanceClaim_bind_eq_ok.1 h
    exact (WorkMove.retryCoordination binding hc hadv hphase hretry hplan).returned h
  case activatePreplanned =>
    obtain ⟨⟨hphase, -, hplan⟩, hderived, h⟩ := h
    exact (WorkMove.activatePreplanned hphase hplan hderived).returned h
  case activatePreplannedCoordination =>
    obtain ⟨⟨hphase, -, hplan, hbranch⟩, h⟩ := h
    exact (WorkMove.activateCoordination hphase hplan hbranch).returned h
  case beginPlanning =>
    obtain ⟨hphase, hnone, h⟩ := h
    exact (WorkMove.beginPlanning hphase hnone).returned h
  case beginObservations requests =>
    obtain ⟨⟨hphase, -⟩, -, -, -, -, h⟩ := h
    exact (WorkMove.beginObservations _ hphase).returned h
  case recordObservation result =>
    obtain ⟨hphase, -, -, h⟩ := h
    exact (WorkMove.observe result hphase).returned h
  case sealWorkflowPlan plan =>
    obtain ⟨hphase, -, hsame, h⟩ := h
    exact (WorkMove.sealWorkflowPlan plan hphase
      fun sealed hs => by simpa [hs] using hsame).returned h
  case sealTargetPlan => exact sealTargetPlan_returned h
  case bindTargetRequest declaration =>
    obtain ⟨hvalid, ⟨hphase, -⟩, ⟨hevidence, hclaim⟩, hsame, h⟩ := h
    exact (WorkMove.bindTargetRequest declaration hvalid hphase hevidence hclaim
      fun request hr => by simpa [hr] using hsame).returned h
  case recordTargetStatus status operation =>
    split at h
    · cases h
    · rename_i request hr
      simp only [require_bind_eq_ok, Service.ofPy_bind_eq_ok, decide_eq_true_eq] at h
      obtain ⟨hphase, hvalid, hterminal, -, h⟩ := h
      exact (WorkMove.report status operation hr hphase hvalid
        fun prior hp ht => by simpa [hp, ht] using hterminal).returned h
  case verifyOutput output settlement =>
    split at h
    · cases h
    · rename_i status hs
      simp only [require_bind_eq_ok, decide_eq_true_eq] at h
      obtain ⟨hphase, ⟨hreported, hheld⟩, hsettles, h⟩ := h
      exact (WorkMove.verifyOutput output settlement hphase hs hreported hheld hsettles).returned h
  case recordCoordinationSettlement settlement =>
    obtain ⟨⟨hphase, -⟩, -, h⟩ := h
    split at h
    · obtain ⟨-, h⟩ := require_bind_eq_ok.1 h
      exact Or.inl (Except.ok.inj h).symm
    · rename_i hnone
      exact (WorkMove.recordSettlement settlement hphase hnone).returned h
  case requestCoordinationCancel =>
    obtain ⟨⟨hphase, hplan⟩, h⟩ := h
    split at h
    · exact Or.inl (Except.ok.inj h).symm
    · exact (WorkMove.requestCancel hphase hplan).returned h
  case beginRetirement ids =>
    obtain ⟨hphase, h⟩ := h
    split at h
    · cases h
    · rename_i hpolicy
      exact (WorkMove.retain hphase hpolicy).returned (require_bind_eq_ok.1 h).2
    · rename_i hpolicy
      exact (WorkMove.beginRetirement _ hphase hpolicy).returned (require_bind_eq_ok.1 h).2
  case recordRetired id =>
    obtain ⟨hphase, -, h⟩ := h
    exact (WorkMove.recordRetired _ hphase).returned h
  case markInapplicable outcome =>
    exact (WorkMove.markInapplicable outcome h.1).returned h.2
  case fail failure =>
    split at h
    · exact Or.inl (Except.ok.inj h).symm
    · rename_i hnot
      rw [require_bind_eq_ok, decide_eq_true_eq] at h
      exact (WorkMove.fail failure (List.not_mem_cons_of_ne_of_not_mem hnot h.1)).returned h.2
  case cancel => exact cancel_returned h
  case completeAbandon =>
    split at h
    · rename_i outcome hphase houtcome
      exact (WorkMove.completeAbandon outcome hphase houtcome).returned h
    · cases h

end Riverhog.Stove0
