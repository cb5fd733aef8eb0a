import Riverhog.Stove0.Fences
import Riverhog.Stove0.Coordinator

/-!
# Cancelling twice

A second cancellation takes the record that the first one stored and decides anew: it
repeats the first decision when that record is at rest, or when the target gives an answer
of the same phase again. Work that has been given up while a target request is bound to it
is not at rest, since the second call asks the target and cannot record its answer.
-/

namespace Riverhog.Stove0

open Core Relation WorkService WorkRecord List Option Coordinator

variable {x : External}

variable {record stored : WorkRecord} {d : Digests}

/-- A target status is recorded in an active phase, when it is an answer to the bound request
and follows the status before it. -/
theorem recordTargetStatus_eq_ok {status : TargetJobStatus} {operation : OperationContract} :
    recordTargetStatus x record status operation = .ok stored ↔
      ∃ request, record.targetRequest = some request ∧
        record.phase ∈ [.queued, .executing, .outputFinalizing, .verifying] ∧
        validateStatusAgainstRequest x status.toTargetJobReport request operation = .ok () ∧
        (∀ prior, record.targetStatus = some prior →
          (prior.state.terminal = true → prior = status) ∧ prior.attempt ≤ status.attempt) ∧
        record.replace x.toDigests (reported record status operation) = .ok stored := by
  rw [recordTargetStatus]
  cases hr : record.targetRequest with
  | none => simp
  | some request =>
    simp only [require_bind_eq_ok, Service.ofPy_bind_eq_ok, decide_eq_true_eq,
      Option.all_eq_true, Option.some.injEq, exists_eq_left']
    constructor
    · rintro ⟨hphase, hvalid, hterminal, hattempt, hreplace⟩
      exact ⟨hphase, hvalid, fun prior hp => ⟨hterminal prior hp, hattempt prior hp⟩, hreplace⟩
    · rintro ⟨hphase, hvalid, hprior, hreplace⟩
      exact ⟨hphase, hvalid, fun prior hp => (hprior prior hp).1,
        fun prior hp => (hprior prior hp).2, hreplace⟩

/-- The two records say the same about the work, besides what the target last reported. -/
structure WorkRecord.SameDecision (first second : WorkRecord) : Prop where
  phase : second.phase = first.phase
  abandonOutcome : second.abandonOutcome = first.abandonOutcome
  failure : second.failure = first.failure
  inapplicable : second.inapplicable = first.inapplicable
  output : second.output = first.output
  cancelRequested : second.coordinationCancelRequested = first.coordinationCancelRequested

theorem WorkRecord.SameDecision.refl (record : WorkRecord) : record.SameDecision record :=
  ⟨rfl, rfl, rfl, rfl, rfl, rfl⟩

/-! ## Records at rest -/

/-- The records that a cancellation returns as they are. -/
inductive WorkRecord.Inert (record : WorkRecord) : Prop
  | closed (phase : record.phase ∈ [.complete, .inapplicable, .canceled])
  | failed (phase : record.phase = .failed)
      (terminal : record.failure.any (·.retryable) = false)
  | abandoned (phase : record.phase = .abandonPending)
      (unsettled : record.coordinationSettlement = none)
      (untargeted : record.targetRequest = none ∨ record.workflowPlan = none)
  | requested (phase : record.phase ∈ [.eligible, .claimed, .coordinating])
      (unsettled : record.coordinationSettlement = none)
      (plan : record.branchSetPlan.isSome) (cancel : record.coordinationCancelRequested = true)

theorem WorkRecord.Inert.cancel (h : record.Inert) (ports : CancelPorts) :
    Coordinator.cancel x ports record = .ok record := by
  rw [Coordinator.cancel]
  cases h with
  | closed hphase => rw [if_pos hphase]
  | failed hphase hterminal => simp [hphase, hterminal]
  | abandoned hphase hunsettled huntargeted =>
    have hcancel : WorkService.cancel x.toDigests record = .ok record := by
      rw [WorkService.cancel, if_pos hphase]
      rfl
    simp only [hphase, hunsettled]
    rcases huntargeted with hnone | hnone
    · simp [hnone, hcancel]
    · cases hr : record.targetRequest <;> simp [hnone, hcancel]
  | requested hphase hunsettled hplan hcancel =>
    have hrequested : requestCoordinationCancel x.toDigests record = .ok record := by
      rw [requestCoordinationCancel, require_bind_eq_ok, if_pos hcancel]
      exact ⟨decide_eq_true ⟨hphase, hplan⟩, rfl⟩
    simp only [mem_cons, not_mem_nil, or_false] at hphase
    rcases hphase with hphase | hphase | hphase <;> simp [hphase, hunsettled, hplan, hrequested]

/-- What giving a work up makes of its record. -/
theorem workCancel_eq_ok (h : WorkService.cancel d record = .ok stored) :
    stored.phase = .canceled ∨ (stored.phase = .abandonPending ∧
      stored.coordinationSettlement = record.coordinationSettlement ∧
      stored.targetRequest = record.targetRequest ∧ stored.workflowPlan = record.workflowPlan) := by
  rw [WorkService.cancel] at h
  split at h
  · rename_i hphase
    obtain rfl := Except.ok.inj h
    exact Or.inr ⟨hphase, rfl, rfl, rfl⟩
  · split at h
    · obtain ⟨rfl, -⟩ := replace_eq_ok.1 h
      exact Or.inl rfl
    · split at h
      · obtain ⟨rfl, -⟩ := replace_eq_ok.1 (require_bind_eq_ok.1 h).2
        exact Or.inr ⟨rfl, rfl, rfl, rfl⟩
      · obtain ⟨rfl, -⟩ := replace_eq_ok.1 (require_bind_eq_ok.1 h).2
        exact Or.inr ⟨rfl, rfl, rfl, rfl⟩

/-- A work that has been given up is at rest, unless a target request is bound to it. -/
theorem workCancel_inert (h : WorkService.cancel d record = .ok stored)
    (hunsettled : record.coordinationSettlement = none)
    (huntargeted : record.targetRequest = none ∨ record.workflowPlan = none) : stored.Inert := by
  rcases workCancel_eq_ok h with hphase | ⟨hphase, hsettlement, hrequest, hplan⟩
  · exact .closed (by rw [hphase]; decide)
  · exact .abandoned hphase (hsettlement.trans hunsettled) (by rwa [hrequest, hplan])

/-! ## Records with a target request -/

/-- The phases in which a record with a target request asks the target. -/
theorem cancel_eq_cancelTarget {request : AcceptedTargetJob} {plan : WorkflowPlan}
    (ports : CancelPorts) (hphase : record.phase ∈
      [.queued, .executing, .outputFinalizing, .verifying, .abandonPending])
    (hunsettled : record.coordinationSettlement = none)
    (hrequest : record.targetRequest = some request) (hplan : record.workflowPlan = some plan) :
    Coordinator.cancel x ports record = Coordinator.cancelTarget x ports record request plan := by
  rw [Coordinator.cancel, hrequest, hplan, hunsettled]
  simp only [mem_cons, not_mem_nil, or_false] at hphase
  rcases hphase with hphase | hphase | hphase | hphase | hphase <;> simp [hphase]

theorem cancelTarget_eq_ok {ports : CancelPorts} {request : AcceptedTargetJob}
    {plan : WorkflowPlan} :
    cancelTarget x ports record request plan = .ok stored ↔
      ∃ operation status, ports.operationContract plan.operation = .ok operation ∧
        ports.cancelJob plan.targetRegistrationId request operation = .ok status ∧
        recordTargetStatus x record status operation = .ok stored := by
  have hlift : ∀ {α β : Type} {result : Py α} {f : α → Service β} {b : β},
      (Service.ofPy result >>= f) = .ok b ↔ ∃ a, result = .ok a ∧ f a = .ok b := by
    intro α β result f b
    cases result <;> simp [Service.ofPy, Except.mapError]
  simp only [cancelTarget, hlift]
  constructor
  · rintro ⟨operation, hoperation, status, hstatus, hrecord⟩
    exact ⟨operation, status, hoperation, hstatus, hrecord⟩
  · rintro ⟨operation, status, hoperation, hstatus, hrecord⟩
    exact ⟨operation, hoperation, status, hstatus, hrecord⟩

/-- A work that has been given up with a target request cannot be canceled again. -/
theorem cancel_abandoned_ne_ok (ports : CancelPorts) (hphase : record.phase = .abandonPending)
    (hrequest : record.targetRequest.isSome) (hplan : record.workflowPlan.isSome) :
    Coordinator.cancel x ports record ≠ .ok stored := by
  intro h
  obtain ⟨request, hrequest⟩ := isSome_iff_exists.1 hrequest
  obtain ⟨plan, hplan⟩ := isSome_iff_exists.1 hplan
  cases hsettlement : record.coordinationSettlement with
  | some settlement =>
    rw [Coordinator.cancel] at h
    simp [hphase, hsettlement] at h
  | none =>
    rw [cancel_eq_cancelTarget ports (by rw [hphase]; decide) hsettlement hrequest hplan,
      cancelTarget_eq_ok] at h
    obtain ⟨operation, status, -, -, hrecord⟩ := h
    obtain ⟨_, -, hactive, -⟩ := recordTargetStatus_eq_ok.1 hrecord
    simp [hphase] at hactive

/-- Only an inapplicable status has an outcome. -/
theorem TargetJobStatus.inapplicable_eq_none (status : TargetJobStatus)
    (h : status.state ≠ .inapplicable) : status.inapplicable = none := by
  have hvalid := status.valid
  rw [TargetJobReport.verify] at hvalid
  -- the last check is the same for every state
  split at hvalid
  all_goals
    simp only [bind_eq_ok, require_eq_ok, decide_eq_true_eq, isNone_iff_eq_none,
      exists_const] at hvalid
    tauto

/-- The phases that a status can lead to. -/
theorem statusPhase_spec (report : TargetJobReport) (operation : OperationContract) :
    (statusPhase report operation = .verifying ↔
        report.state = .succeeded ∧ operation.resultKind = .collection) ∧
      (statusPhase report operation = .failed ↔
        report.state = .failed ∧ report.failure.any (·.retryable) = true) ∧
      (statusPhase report operation ∈ [.queued, .executing, .verifying] ∨
        statusPhase report operation ∈ [.settled, .failed, .abandonPending]) := by
  rw [statusPhase]
  cases report.state with
  | succeeded => cases operation.resultKind <;> simp
  | failed => cases report.failure.any (·.retryable) <;> simp
  | _ => simp

/-- What a status records besides its phase while the work is still active. -/
theorem reported_active {status : TargetJobStatus} {operation : OperationContract}
    (h : statusPhase status.toTargetJobReport operation ∈ [.queued, .executing, .verifying]) :
    reported record status operation = { record with
        phase := statusPhase status.toTargetJobReport operation
        targetStatus := some status
        output := if statusPhase status.toTargetJobReport operation = .verifying then
          status.outputCollection else none
        failure := none
        abandonOutcome := none
        inapplicable := none } := by
  have hstate : status.state ∉ [.failed, .inapplicable] := by
    intro hmem
    rw [statusPhase] at h
    rcases mem_pair.1 hmem with hs | hs
    · simp only [hs] at h
      split at h <;> simp at h
    · simp [hs] at h
  have habandon : statusPhase status.toTargetJobReport operation ≠ .abandonPending := by
    intro he
    simp [he] at h
  simp only [mem_cons, not_mem_nil, or_false, not_or] at hstate
  simp only [reported, statusOutput, statusFailure, statusAbandon, if_neg hstate.1,
    if_neg habandon, (statusPhase_spec _ _).1, status.inapplicable_eq_none hstate.2]

/-- A second answer of the phase of the first one changes only the recorded status. -/
theorem reported_again (record : WorkRecord) {status status' : TargetJobStatus}
    {operation operation' : OperationContract}
    (hactive : statusPhase status.toTargetJobReport operation ∈ [.queued, .executing, .verifying])
    (hsame : statusPhase status'.toTargetJobReport operation' =
      statusPhase status.toTargetJobReport operation)
    (hterminal : status.state.terminal = true → status = status') (revision : Nat) :
    reported { reported record status operation with revision } status' operation' =
      { reported record status operation with revision, targetStatus := some status' } := by
  have hactive' : statusPhase status'.toTargetJobReport operation' ∈
      [.queued, .executing, .verifying] := by rwa [hsame]
  rw [reported_active hactive', reported_active hactive, hsame]
  -- the output is none, or that of the one status
  by_cases hverify : statusPhase status.toTargetJobReport operation = .verifying
  · have hend : status.state.terminal = true := by
      rw [((statusPhase_spec _ _).1.1 hverify).1]
      rfl
    rw [hterminal hend]
  · simp only [if_neg hverify]

/-! ## The second cancellation -/

/-- When a second cancellation repeats the first: no target is asked, the record is at rest, or
the target has given no terminal answer or a collection, and answers the second time with a
status that can follow the first one and leads to the same phase. -/
def CancelRepeats (x : External) (record : WorkRecord) (ports again : CancelPorts) : Prop :=
  ∀ request plan, record.targetRequest = some request → record.workflowPlan = some plan →
    record.Inert ∨ (record.phase ∈ [.queued, .executing, .outputFinalizing, .verifying] ∧
        ∃ operation status operation' status',
          ports.operationContract plan.operation = .ok operation ∧
          ports.cancelJob plan.targetRegistrationId request operation = .ok status ∧
          again.operationContract plan.operation = .ok operation' ∧
          again.cancelJob plan.targetRegistrationId request operation' = .ok status' ∧
          statusPhase status.toTargetJobReport operation ∈ [.queued, .executing, .verifying] ∧
          statusPhase status'.toTargetJobReport operation' =
            statusPhase status.toTargetJobReport operation ∧
          validateStatusAgainstRequest x status'.toTargetJobReport request operation' = .ok () ∧
          (status.state.terminal = true → status = status') ∧ status.attempt ≤ status'.attempt)

section Target

variable {again : CancelPorts} {record first : WorkRecord} {request : AcceptedTargetJob}
  {plan : WorkflowPlan} {status : TargetJobStatus} {operation : OperationContract}

/-- A second answer that can follow the first one is recorded. -/
theorem recordTargetStatus_again {status' : TargetJobStatus} {operation' : OperationContract}
    (hrequest : record.targetRequest = some request)
    (hfirst : record.replace x.toDigests (reported record status operation) = .ok first)
    (hactive : statusPhase status.toTargetJobReport operation ∈ [.queued, .executing, .verifying])
    (hsame : statusPhase status'.toTargetJobReport operation' =
      statusPhase status.toTargetJobReport operation)
    (hvalid : validateStatusAgainstRequest x status'.toTargetJobReport request operation' = .ok ())
    (hterminal : status.state.terminal = true → status = status')
    (hattempt : status.attempt ≤ status'.attempt) :
    ∃ second, recordTargetStatus x first status' operation' = .ok second ∧
      first.SameDecision second := by
  obtain ⟨rfl, hshape⟩ := replace_eq_ok.1 hfirst
  have hreported := reported_again record hactive hsame hterminal (record.revision + 1)
  refine ⟨_, recordTargetStatus_eq_ok.2 ⟨request, hrequest, ?_, hvalid, ?_,
    replace_eq_ok.2 ⟨rfl, ?_⟩⟩, ?_⟩
  · change statusPhase status.toTargetJobReport operation ∈ _
    simp only [mem_cons, not_mem_nil, or_false] at hactive ⊢
    tauto
  · intro prior hprior
    obtain rfl := Option.some.inj hprior
    exact ⟨hterminal, hattempt⟩
  · rw [hreported]
    exact hshape
  · rw [hreported]
    exact ⟨rfl, rfl, rfl, rfl, rfl, rfl⟩

/-- After an answer of the target, the second cancellation repeats the first exactly when the
target answers in kind. -/
theorem cancelTarget_repeats_iff (hunsettled : record.coordinationSettlement = none)
    (hrequest : record.targetRequest = some request) (hplan : record.workflowPlan = some plan)
    (hfirst : recordTargetStatus x record status operation = .ok first) :
    (∃ second, Coordinator.cancel x again first = .ok second ∧ first.SameDecision second) ↔
      ∃ operation' status', again.operationContract plan.operation = .ok operation' ∧
        again.cancelJob plan.targetRegistrationId request operation' = .ok status' ∧
        statusPhase status.toTargetJobReport operation ∈ [.queued, .executing, .verifying] ∧
        statusPhase status'.toTargetJobReport operation' =
          statusPhase status.toTargetJobReport operation ∧
        validateStatusAgainstRequest x status'.toTargetJobReport request operation' = .ok () ∧
        (status.state.terminal = true → status = status') ∧ status.attempt ≤ status'.attempt := by
  obtain ⟨_, hr, -, -, -, hreplace⟩ := recordTargetStatus_eq_ok.1 hfirst
  obtain rfl := Option.some.inj (hrequest.symm.trans hr)
  obtain ⟨hstored, -⟩ := replace_eq_ok.1 hreplace
  have hphase : first.phase = statusPhase status.toTargetJobReport operation := by rw [hstored]; rfl
  have hrequest' : first.targetRequest = some request := by rw [hstored]; exact hrequest
  have hplan' : first.workflowPlan = some plan := by rw [hstored]; exact hplan
  have hunsettled' : first.coordinationSettlement = none := by rw [hstored]; exact hunsettled
  have hdispatch : statusPhase status.toTargetJobReport operation ∈
      [.queued, .executing, .verifying] → Coordinator.cancel x again first =
        Coordinator.cancelTarget x again first request plan := by
    intro hactive
    refine cancel_eq_cancelTarget again ?_ hunsettled' hrequest' hplan'
    rw [hphase]
    simp only [mem_cons, not_mem_nil, or_false] at hactive ⊢
    tauto
  constructor
  · rintro ⟨second, hcancel, hsame⟩
    rcases (statusPhase_spec status.toTargetJobReport operation).2.2 with hactive | hended
    · rw [hdispatch hactive, cancelTarget_eq_ok] at hcancel
      obtain ⟨operation', status', hoperation', hstatus', hrecord⟩ := hcancel
      obtain ⟨_, hr', -, hvalid, hprior, hreplace'⟩ := recordTargetStatus_eq_ok.1 hrecord
      obtain rfl := Option.some.inj (hrequest'.symm.trans hr')
      obtain ⟨hterminal, hattempt⟩ := hprior status (by rw [hstored]; rfl)
      obtain ⟨hstored', -⟩ := replace_eq_ok.1 hreplace'
      refine ⟨operation', status', hoperation', hstatus', hactive, ?_, hvalid, hterminal, hattempt⟩
      have hphase' : second.phase = statusPhase status'.toTargetJobReport operation' := by
        rw [hstored']
        rfl
      rw [← hphase', hsame.phase, hphase]
    · exfalso
      simp only [mem_cons, not_mem_nil, or_false] at hended
      rcases hended with hended | hended | hended
      · -- the effect has settled the work
        rw [Coordinator.cancel] at hcancel
        simp [hphase, hended] at hcancel
      · -- the failure can be retried, and is given up by the second call
        have hretry : first.failure.any (·.retryable) = true := by
          obtain ⟨hstate, hretry⟩ := (statusPhase_spec _ _).2.1.1 hended
          rw [hstored]
          simp only [reported, statusFailure, if_pos hstate, hretry]
        rw [Coordinator.cancel] at hcancel
        simp only [hphase, hended, hretry] at hcancel
        have hgiven : WorkService.cancel x.toDigests first = .ok second := by simpa using hcancel
        have hkept : second.phase = .failed := hsame.phase.trans (hphase.trans hended)
        rcases workCancel_eq_ok hgiven with he | ⟨he, -⟩ <;> simp [hkept] at he
      · exact cancel_abandoned_ne_ok again (hphase.trans hended) (by rw [hrequest']; rfl)
          (by rw [hplan']; rfl) hcancel
  · rintro ⟨operation', status', hoperation', hstatus', hactive, hsame, hvalid, hterminal, hattempt⟩
    obtain ⟨second, hrecord, hdecision⟩ :=
      recordTargetStatus_again hrequest hreplace hactive hsame hvalid hterminal hattempt
    refine ⟨second, ?_, hdecision⟩
    rw [hdispatch hactive]
    exact cancelTarget_eq_ok.2 ⟨operation', status', hoperation', hstatus', hrecord⟩

end Target

/-- A record of a valid shape on which a cancellation succeeds is canceled again with the same
decision exactly under `CancelRepeats`. -/
theorem cancel_repeats_of_shaped {ports again : CancelPorts} {first : WorkRecord}
    (hshaped : record.Shaped x.toDigests) (h : Coordinator.cancel x ports record = .ok first) :
    (∃ second, Coordinator.cancel x again first = .ok second ∧ first.SameDecision second) ↔
      CancelRepeats x record ports again := by
  -- when the first record is at rest, both sides hold
  have hrest : first.Inert → CancelRepeats x record ports again →
      ((∃ second, Coordinator.cancel x again first = .ok second ∧ first.SameDecision second) ↔
        CancelRepeats x record ports again) := by
    intro hinert hrepeats
    exact iff_of_true ⟨first, hinert.cancel again, .refl first⟩ hrepeats
  have hkept : record.Inert → first = record →
      ((∃ second, Coordinator.cancel x again first = .ok second ∧ first.SameDecision second) ↔
        CancelRepeats x record ports again) := by
    intro hinert hsame
    exact hrest (hsame ▸ hinert) fun _ _ _ _ => Or.inl hinert
  have huntargeted : record.targetRequest = none ∨ record.workflowPlan = none →
      CancelRepeats x record ports again := by
    rintro (hnone | hnone) request plan hrequest hplan
    · rw [hnone] at hrequest
      cases hrequest
    · rw [hnone] at hplan
      cases hplan
  rw [Coordinator.cancel] at h
  split_ifs at h with hclosed hfailed hretry hsettled hsettlement hbranches
  · exact hkept (.closed hclosed) (Except.ok.inj h).symm
  · -- a retryable failure is given up
    have hunsettled : record.coordinationSettlement = none := by
      cases hsettlement : record.coordinationSettlement with
      | none => rfl
      | some settlement =>
        have hphases := (hshaped.settlement settlement hsettlement).2.2
        simp [hfailed] at hphases
    by_cases htargeted : record.targetRequest = none ∨ record.workflowPlan = none
    · exact hrest (workCancel_inert h hunsettled htargeted) (huntargeted htargeted)
    · rw [not_or, ← ne_eq, ← ne_eq, ← isSome_iff_ne_none, ← isSome_iff_ne_none] at htargeted
      obtain ⟨hrequest, hplan⟩ := htargeted
      refine iff_of_false ?_ fun hrepeats => ?_
      · rintro ⟨second, hsecond, -⟩
        rcases workCancel_eq_ok h with hphase | ⟨hphase, -, hrequest', hplan'⟩
        · rw [WorkService.cancel] at h
          simp only [hfailed, hretry] at h
          obtain ⟨rfl, -⟩ := replace_eq_ok.1 (by simpa using h)
          cases hphase
        · exact cancel_abandoned_ne_ok again hphase (hrequest' ▸ hrequest) (hplan' ▸ hplan) hsecond
      · obtain ⟨request, hrequest⟩ := isSome_iff_exists.1 hrequest
        obtain ⟨plan, hplan⟩ := isSome_iff_exists.1 hplan
        rcases hrepeats request plan hrequest hplan with hinert | ⟨hactive, -⟩
        · cases hinert with
          | closed hphase => simp [hfailed] at hphase
          | failed _ hterminal => simp [hretry] at hterminal
          | abandoned hphase => simp [hfailed] at hphase
          | requested hphase => simp [hfailed] at hphase
        · simp [hfailed] at hactive
  · exact hkept (.failed hfailed (by simpa using hretry)) (Except.ok.inj h).symm
  · -- the branches of a coordinator are asked to cancel
    obtain ⟨hplan, hphase⟩ := hbranches
    obtain ⟨plan, hbranch⟩ := isSome_iff_exists.1 hplan
    have hnone := (hshaped.branchSet plan hbranch).2.1
    have hunsettled : record.coordinationSettlement = none := by simpa using hsettlement
    refine hrest ?_ (huntargeted (Or.inr hnone))
    rw [requestCoordinationCancel, require_bind_eq_ok] at h
    obtain ⟨-, h⟩ := h
    split at h
    · rename_i hrequested
      obtain rfl := Except.ok.inj h
      exact .requested hphase hunsettled hplan hrequested
    · obtain ⟨rfl, -⟩ := replace_eq_ok.1 h
      exact .requested hphase hunsettled hplan rfl
  · have hunsettled : record.coordinationSettlement = none := by simpa using hsettlement
    split at h
    · -- the target is asked
      rename_i request plan hrequest hplan
      obtain ⟨operation, status, hoperation, hstatus, hrecord⟩ := cancelTarget_eq_ok.1 h
      rw [cancelTarget_repeats_iff hunsettled hrequest hplan hrecord]
      obtain ⟨_, -, hactive, -⟩ := recordTargetStatus_eq_ok.1 hrecord
      constructor
      · rintro ⟨operation', status', hoperation', hstatus', hrest⟩ request' plan' hr hp
        obtain rfl := Option.some.inj (hrequest.symm.trans hr)
        obtain rfl := Option.some.inj (hplan.symm.trans hp)
        exact Or.inr ⟨hactive, operation, status, operation', status', hoperation, hstatus,
          hoperation', hstatus', hrest⟩
      · intro hrepeats
        rcases hrepeats request plan hrequest hplan with hinert | ⟨-, answers⟩
        · exfalso
          cases hinert with
          | closed hphase => exact hclosed hphase
          | failed hphase => exact hfailed hphase
          | abandoned hphase => simp [hphase] at hactive
          | requested _ _ hbranch =>
            obtain ⟨set, hset⟩ := isSome_iff_exists.1 hbranch
            rw [(hshaped.branchSet set hset).2.1] at hplan
            cases hplan
        · obtain ⟨op, st, operation', status', hop, hst, hoperation', hstatus', hrest⟩ := answers
          obtain rfl := Except.ok.inj (hoperation.symm.trans hop)
          obtain rfl := Except.ok.inj (hstatus.symm.trans hst)
          exact ⟨operation', status', hoperation', hstatus', hrest⟩
    · rename_i hnone
      have htargeted : record.targetRequest = none ∨ record.workflowPlan = none := by
        cases hrequest : record.targetRequest with
        | none => exact Or.inl rfl
        | some request =>
          cases hplan : record.workflowPlan with
          | none => exact Or.inr rfl
          | some plan => exact (hnone request plan hrequest hplan).elim
      exact hrest (workCancel_inert h hunsettled htargeted) (huntargeted htargeted)

/-- A work record that the system reaches and on which a cancellation succeeds is canceled again
with the same decision exactly under `CancelRepeats`. -/
theorem cancel_repeats_iff {ω : Type} [DecidableEq ω]
    {start system : Versioned.Shared Store ω WorkRecord} (hstart : Initial start)
    (hrun : ReflTransGen (SystemStep x) start system) {id : Digest} {record first : WorkRecord}
    (hrow : system.store.works id = some record) {ports again : CancelPorts}
    (h : Coordinator.cancel x ports record = .ok first) :
    (∃ second, Coordinator.cancel x again first = .ok second ∧ first.SameDecision second) ↔
      CancelRepeats x record ports again := by
  obtain ⟨-, -, hadvance⟩ := initial_run_advance hstart hrun
  refine cancel_repeats_of_shaped ?_ h
  exact row_invariant (fun _ hfresh => validateShape_eq_ok.1 hfresh.shape)
    (fun _ _ _ hmove => hmove.shaped) hadvance id record hrow

namespace Sample

/-- The record of a leaf as its branch set creates it. -/
def freshLeaf (label : Text) : WorkRecord :=
  { work := (leaf none label).workflowPlan.work
    workflowPlan := some (leaf none label).workflowPlan }

/-- The job of a leaf, under the claim of its label. -/
def leafDeclaration (label : Text) : TargetJobDeclaration :=
  { declaration 1 with
    jobId := 'x' :: label ++ ['+']
    claimId := label
    controllerEvidence := WorkService.controllerEvidence external ⟨label, 1⟩
      (leaf none label).workflowPlan targetContract targetPlan }

/-- The production of the job of a leaf. -/
def leafProduction (label : Text) : TargetProductionAuthority where
  jobId := 'x' :: label ++ ['+']
  planSha256 := ['q', 'o', 'p']
  outputs := ⟨1, 1, [⟨['o', 'u', 't'], 1⟩], ['h']⟩
  dispositionCount := 1
  dispositionSha256 := ['h']
  sourceEdgeCount := 1
  sourceEdgeSha256 := ['h']
  riverhogDispositionSet := dispositions

/-- The output collection of a leaf. -/
def leafCollection (number : Nat) (label : Text) : OutputCollectionRef :=
  ⟨number, label, label, 'd' :: 'x' :: label ++ ['+']⟩

/-- The success of the job of a leaf. -/
def leafReport (number : Nat) (label : Text) : TargetJobReport :=
  { report 1 with
    jobId := 'x' :: label ++ ['+']
    requestSha256 := 'r' :: 'x' :: label ++ ['+']
    production := some (leafProduction label)
    outputCollection := some (leafCollection number label)
    derivation := (report 1).derivation.map fun derivation => { derivation with
        executionId := 'x' :: label ++ ['+']
        claimId := label
        recipe := ⟨label, 1, ['h']⟩
        executionEnvelopeSha256 := 'x' :: label ++ ['+'] } }

/-- The calls that settle a leaf. -/
def leafExecution (number : Nat) (label : Text) : List Transition :=
  [.bindClaim ⟨label, 1⟩, .activatePreplanned, .sealTargetPlan targetContract targetPlan,
    .bindTargetRequest (leafDeclaration label),
    .recordTargetStatus ⟨leafReport number label, rfl⟩ operation,
    .verifyOutput (leafCollection number label)
      ⟨'x' :: label ++ ['+'], 'o' :: 'x' :: label ++ ['+'], leafCollection number label,
        ⟨1, 1, ['h']⟩⟩]

/-- The record that calls make of another one. -/
def after (record : WorkRecord) (calls : List Transition) : WorkRecord :=
  (calls.foldlM (Transition.apply external) record).toOption.getD record

/-- The record of the root while it plans. -/
def planning : WorkRecord := after created [.bindClaim ⟨['w'], 1⟩, .beginPlanning]

/-- The store after the root has admitted its branches. -/
def admittedStore : Store :=
  ((createdSystem.store.putWork labelDigests planning).admitBranchSet labelDigests ['w']
    planning.revision twoLevels).toOption.getD Store.empty

/-- The record of the leaf `x` with an accepted target request. -/
def requestedLeaf : WorkRecord := after (freshLeaf ['x']) ((leafExecution 2 ['x']).take 4)

/-- The answer that the job of the leaf `x` has been canceled. -/
def canceledStatus : TargetJobStatus :=
  ⟨{ leafReport 2 ['x'] with
      state := .canceled
      production := none
      outputCollection := none
      derivation := none }, rfl⟩

/-- Ports of a target that gives one answer. -/
def answering (status : TargetJobStatus) : CancelPorts :=
  ⟨fun _ => .ok operation, fun _ _ _ => .ok status⟩

theorem after_eq_ok (record : WorkRecord) (calls : List Transition)
    (h : (calls.foldlM (Transition.apply external) record).toOption.isSome = true) :
    calls.foldlM (fun r t => t.apply external r) record = .ok (after record calls) :=
  eq_ok_getD h

theorem admittedStore_eq :
    (createdSystem.store.putWork labelDigests planning).admitBranchSet labelDigests ['w']
      planning.revision twoLevels = .ok admittedStore :=
  eq_ok_getD (by decide)

/-- The leaf with its target request is reached by the system. -/
theorem requestedLeaf_reached : ∃ system : Versioned.Shared Store Unit WorkRecord,
    ReflTransGen (SystemStep external) ⟨Store.empty, fun _ => none⟩ system ∧
      system.store.works ['x'] = some requestedLeaf := by
  have hroot : Store.workId labelDigests created = ['w'] := rfl
  obtain ⟨-, planned, hplanned, hstore⟩ := solo_run () (s := createdSystem) hroot rfl
    (after_eq_ok created [.bindClaim ⟨['w'], 1⟩, .beginPlanning] (by decide))
  have hjoined : SystemStep external planned { planned with store := admittedStore } := by
    refine .other ⟨.admitBranchSet ['w'] planning.revision twoLevels, ?_⟩
    rw [hstore]
    exact admittedStore_eq
  have hleaf : Store.workId labelDigests (freshLeaf ['x']) = ['x'] := rfl
  have hfresh : admittedStore.works ['x'] = some (freshLeaf ['x']) := by decide
  obtain ⟨hkey, system, hrun, hlast⟩ := solo_run () (s := ⟨admittedStore, planned.held⟩) hleaf
    hfresh (after_eq_ok (freshLeaf ['x']) ((leafExecution 2 ['x']).take 4) (by decide))
  refine ⟨system, createdSystem_run.trans (hplanned.trans (.head hjoined hrun)), ?_⟩
  rw [hlast, Store.putWork, hkey]
  exact Function.update_self (['x'] : Digest) (some requestedLeaf) admittedStore.works

end Sample

open Sample in
/-- A leaf whose job the target has canceled cannot be canceled again, whatever the target
answers the second time. -/
theorem cancel_repeats_broken :
    ∃ (system : Versioned.Shared Store Unit WorkRecord) (record first : WorkRecord),
      ReflTransGen (SystemStep external) ⟨Store.empty, fun _ => none⟩ system ∧
      system.store.works ['x'] = some record ∧
      Coordinator.cancel external (answering canceledStatus) record = .ok first ∧
      first.phase = .abandonPending ∧
      ∀ again second, Coordinator.cancel external again first ≠ .ok second := by
  obtain ⟨system, hrun, hrow⟩ := requestedLeaf_reached
  obtain ⟨first, hfirst, hfacts⟩ := exists_ok_of_elim
    (x := Coordinator.cancel external (answering canceledStatus) requestedLeaf)
    (p := fun r => r.phase = .abandonPending ∧ r.targetRequest.isSome ∧ r.workflowPlan.isSome)
    (by decide)
  obtain ⟨hphase, hrequest, hplan⟩ := of_decide_eq_true hfacts
  exact ⟨system, requestedLeaf, first, hrun, hrow, hfirst, hphase,
    fun again second => cancel_abandoned_ne_ok again hphase hrequest hplan⟩

open Sample in
/-- A leaf that the target is still canceling stays so when it is canceled again. -/
theorem cancel_repeats_canceling :
    ∃ (system : Versioned.Shared Store Unit WorkRecord) (record first second : WorkRecord)
      (ports : CancelPorts),
      ReflTransGen (SystemStep external) ⟨Store.empty, fun _ => none⟩ system ∧
      system.store.works ['x'] = some record ∧
      Coordinator.cancel external ports record = .ok first ∧
      Coordinator.cancel external ports first = .ok second ∧ first.SameDecision second := by
  obtain ⟨system, hrun, hrow⟩ := requestedLeaf_reached
  let ports := answering
    ⟨{ canceledStatus.toTargetJobReport with state := .canceling, executionEvidence := none }, rfl⟩
  obtain ⟨first, hfirst, -⟩ := exists_ok_of_elim
    (x := Coordinator.cancel external ports requestedLeaf) (p := fun _ => true) (by decide)
  have hrepeats : CancelRepeats external requestedLeaf ports ports := by
    intro request plan hrequest hplan
    refine Or.inr ⟨by decide, operation, _, operation, _, rfl, rfl, rfl, rfl, by decide, rfl, ?_,
      fun _ => rfl, le_rfl⟩
    have hbound : requestedLeaf.targetRequest = some ⟨leafDeclaration ['x']⟩ := by decide
    obtain rfl := Option.some.inj (hrequest.symm.trans hbound)
    rfl
  have hstart : Initial (⟨Store.empty, fun _ => none⟩ : Versioned.Shared Store Unit WorkRecord) :=
    ⟨rfl, fun _ => rfl⟩
  obtain ⟨second, hsecond, hsame⟩ := (cancel_repeats_iff hstart hrun hrow hfirst).2 hrepeats
  exact ⟨system, requestedLeaf, first, second, ports, hrun, hrow, hfirst, hsecond, hsame⟩

end Riverhog.Stove0
