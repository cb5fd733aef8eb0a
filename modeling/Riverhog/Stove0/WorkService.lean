import Riverhog.Stove0.WorkRecord

/-!
# Transitions of a work record

`Stove0WorkService` moves one record at a time. Each transition reads a loaded record and
computes its replacement, whose shape is checked again; the compare-and-swap of the
replacement belongs to the store.
-/

namespace Riverhog.Stove0

open Core

/-- What a service call raises. -/
inductive ServiceError where
  /-- `Stove0StateError`. -/
  | state (message : String)
  /-- `ConcurrentWorkUpdate`, a `Stove0StateError` of the store. -/
  | concurrent (message : String)
  /-- The validation error of a record that has not the shape of a work record. -/
  | shape (error : PyError)
  /-- Any other exception. -/
  | python (error : PyError)
  deriving DecidableEq

/-- The result of a service call. -/
abbrev Service := Except ServiceError

/-- Raise a Python exception in a service call. -/
def Service.ofPy {α : Type} (result : Py α) : Service α := result.mapError .python

/-- `raise Stove0StateError` with the phase of the record at the end of its message. -/
def stateErrorFrom (message : String) (record : WorkRecord) : ServiceError :=
  .state (message ++ record.phase.name)

section

variable (d : Digests)

/-- `WorkRecord.model_validate`. -/
def WorkRecord.validate (record : WorkRecord) : Service WorkRecord :=
  match record.validateShape d with
  | .ok () => .ok record
  | .error e => .error (.shape e)

/-- The replacement that `_replace` passes to the store. -/
def WorkRecord.replace (record replacement : WorkRecord) : Service WorkRecord :=
  { replacement with revision := record.revision + 1 }.validate d

end

namespace WorkService

/-! ## Claims -/

section

variable (d : Digests) (record : WorkRecord)

/-- `Stove0WorkService.bind_claim`. -/
def bindClaim (binding : ClaimBinding) : Service WorkRecord := do
  require (record.phase ∈ [.eligible, .claimed])
    (stateErrorFrom "work cannot bind a claim from " record)
  require (record.claim.all fun claim => claim = binding)
    (.state "work is already bound to another claim generation")
  record.replace d { record with phase := .claimed, claim := some binding }

/-- The reset of a record under a newer claim, as `rebind_claim` and `retry_failed` write it:
what a prior execution left is discarded, and only the plan of a branch or join is kept. -/
def reclaimed (binding : ClaimBinding) : WorkRecord :=
  { record with
    phase := .claimed
    claim := some binding
    observationRequests := []
    observationResults := []
    workflowPlan := if record.work.forkJoin.isSome then record.workflowPlan else none
    targetPlan := none
    controllerEvidence := none
    targetRequest := none
    targetStatus := none
    output := none
    retirementRemaining := []
    failure := none
    inapplicable := none
    abandonOutcome := none }

/-- The claim that replaces another one must keep its id and advance its fence. -/
def advanceClaim (claim binding : ClaimBinding) (anotherId staleFence : String) :
    Service Unit := do
  require (binding.claimId = claim.claimId) (.state anotherId)
  require (claim.fence < binding.fence) (.state staleFence)

/-- `Stove0WorkService.rebind_claim`. -/
def rebindClaim (binding : ClaimBinding) : Service WorkRecord :=
  match record.claim with
  | none => .error (stateErrorFrom "work cannot rebind a claim from " record)
  | some claim => do
    require (record.phase ∉ [.eligible, .settled, .retirementPending, .abandonPending, .complete,
        .inapplicable, .failed, .canceled])
      (stateErrorFrom "work cannot rebind a claim from " record)
    advanceClaim claim binding "Riverhog returned another processing claim identity"
      "replacement claim fence must advance"
    record.replace d (reclaimed record binding)

/-- `Stove0WorkService.retry_failed`. -/
def retryFailed (binding : ClaimBinding) : Service WorkRecord := do
  require (record.phase = .failed ∧ record.failure.any (·.retryable))
    (.state "only retryable failed work may be restarted")
  match record.claim with
  | none => .error (.state "retryable failed work has no claim binding")
  | some claim => do
    advanceClaim claim binding "retry must retain the same Riverhog claim identity"
      "retry must advance the Riverhog claim fence"
    record.replace d (reclaimed record binding)

/-- `Stove0WorkService.retry_coordination`. -/
def retryCoordination (binding : ClaimBinding) : Service WorkRecord := do
  require (record.phase = .failed ∧ record.failure.any (·.retryable) ∧ record.branchSetPlan.isSome
      ∧ record.claim.isSome)
    (.state "only retryable failed coordination may be restarted")
  record.claim.forM fun claim =>
    advanceClaim claim binding "coordination retry must retain the same claim identity"
      "coordination retry must advance the claim fence"
  record.replace d { record with phase := .coordinating, claim := some binding, failure := none }

/-! ## Planning -/

/-- `Stove0WorkService.activate_preplanned`. -/
def activatePreplanned : Service WorkRecord := do
  require (record.phase = .claimed ∧ record.claim.isSome ∧ record.workflowPlan.isSome)
    (stateErrorFrom "work cannot activate a sealed plan from " record)
  require record.work.forkJoin.isSome (.state "only branch or join work may be preplanned")
  record.replace d { record with phase := .targetPreflight }

/-- `Stove0WorkService.activate_preplanned_coordination`. -/
def activatePreplannedCoordination : Service WorkRecord := do
  require (record.phase = .claimed ∧ record.claim.isSome ∧ record.branchSetPlan.isSome
      ∧ record.work.branchBinding.isSome)
    (stateErrorFrom "work cannot activate sealed coordination from " record)
  record.replace d { record with phase := .coordinating }

/-- `Stove0WorkService.begin_planning`. -/
def beginPlanning : Service WorkRecord := do
  require (record.phase ∈ [.claimed, .planning])
    (stateErrorFrom "work cannot begin planning from " record)
  require (record.observationRequests = [] ∧ record.observationResults = [])
    (.state "observed work must complete its observation phase")
  record.replace d { record with phase := .planning }

/-- The checks of one observation request against the work. -/
def checkObservationRequest (request : ObservationRequest) : Py Unit := do
  require (request.workId = d.work record.work)
    (.valueError "observation request does not bind the current work")
  require (request.subjects.all fun subject => subject.collection ∈ record.work.inputs)
    (.valueError "observation request references an input outside the work")

/-- `Stove0WorkService.begin_observations`. -/
def beginObservations (requests : List ObservationRequest) : Service WorkRecord := do
  require (record.phase ∈ [.claimed, .observing] ∧ record.claim.isSome)
    (stateErrorFrom "work cannot begin observations from " record)
  let normalized := sortedBy d.observationRequest requests
  require (normalized ≠ [])
    (.python (.valueError "observation phase requires at least one request"))
  require (normalized.map d.observationRequest).Nodup
    (.python (.valueError "observation requests must be unique"))
  Service.ofPy (normalized.forM (checkObservationRequest d record))
  require (record.observationRequests = [] ∨ record.observationRequests = normalized)
    (.state "observation request set is already sealed")
  record.replace d { record with phase := .observing, observationRequests := normalized }

/-- The accepted results, of which each request has at most one, with one more. -/
def withResult (results : List ObservationResult) (result : ObservationResult) :
    List ObservationResult :=
  sortedBy (·.requestId) (results.filter (·.requestId ≠ result.requestId) ++ [result])

/-- The record after an accepted observation result, before its shape is checked. -/
def observed (result : ObservationResult) : WorkRecord :=
  let results := withResult record.observationResults result
  let accepted := { record with observationResults := results }
  match result.state with
  | .inapplicable outcome =>
    { accepted with
      phase := .abandonPending
      inapplicable := some outcome
      abandonOutcome := some .inapplicable }
  | .failed failure =>
    { accepted with
      phase := if failure.retryable then .failed else .abandonPending
      failure := some failure
      abandonOutcome := if failure.retryable then none else some .failed }
  | .canceled => { accepted with phase := .abandonPending, abandonOutcome := some .canceled }
  | .observed _ =>
    let requested := record.observationRequests.map d.observationRequest
    let received := results.map (·.requestId)
    let complete := received ⊆ requested ∧ requested ⊆ received
    { accepted with phase := if complete then .planning else .observing }

/-- `Stove0WorkService.record_observation`. -/
def recordObservation (result : ObservationResult) : Service WorkRecord := do
  require (record.phase = .observing)
    (stateErrorFrom "work cannot record observations from " record)
  require ((record.observationRequests.map d.observationRequest).contains result.requestId)
    (.python (.valueError "observation result was not requested by this work"))
  require (record.observationResults.all fun r => r.requestId = result.requestId → r = result)
    (.state "observation result identity changed")
  record.replace d (observed d record result)

/-- `Stove0WorkService.seal_workflow_plan`. -/
def sealWorkflowPlan (plan : WorkflowPlan) : Service WorkRecord := do
  require (record.phase ∈ [.planning, .targetPreflight])
    (stateErrorFrom "work cannot seal a workflow plan from " record)
  require (plan.work = record.work ∧ plan.observations.map (·.request) = record.observationRequests
      ∧ plan.observations.map (·.result) = record.observationResults)
    (.python (.valueError "workflow plan differs from the work or accepted observations"))
  require (record.workflowPlan.all fun sealed => sealed = plan)
    (.state "workflow plan is already sealed")
  record.replace d { record with phase := .targetPreflight, workflowPlan := some plan }

/-! ## Coordination -/

/-- `Stove0WorkService.record_coordination_settlement`. -/
def recordCoordinationSettlement (settlement : CoordinationSettlement) : Service WorkRecord := do
  require (record.phase = .coordinating ∧ record.branchSetPlan.isSome)
    (stateErrorFrom "work cannot record coordination settlement from " record)
  require
    (settlement.work = record.work ∧ record.branchSetPlan.all fun plan =>
      settlement.branchSetSha256 = d.branchSet plan)
    (.python (.valueError "coordination settlement differs from the admitted plan"))
  match record.coordinationSettlement with
  | some recorded => do
    require (recorded = settlement) (.state "coordination settlement identity changed")
    return record
  | none => record.replace d { record with coordinationSettlement := some settlement }

/-- `Stove0WorkService.request_coordination_cancel`. -/
def requestCoordinationCancel : Service WorkRecord := do
  require (record.phase ∈ [.eligible, .claimed, .coordinating] ∧ record.branchSetPlan.isSome)
    (.state "only coordinating branch-set work accepts parent cancellation")
  if record.coordinationCancelRequested then return record
  else record.replace d { record with coordinationCancelRequested := true }

/-! ## Retirement and outcomes -/

/-- The retirement policy of the plan that the record holds. -/
def sealedPolicy : Option RetirementPolicy :=
  match record.branchSetPlan with
  | some plan => some plan.retirementPolicy
  | none => record.workflowPlan.map (·.retirementPolicy)

/-- `Stove0WorkService.begin_retirement`. -/
def beginRetirement (collectionIds : List Nat) : Service WorkRecord := do
  require (record.phase ∈ [.settled, .coordinating])
    (stateErrorFrom "work cannot begin retirement from " record)
  match sealedPolicy record with
  | none => .error (.state "retirement work has no sealed policy")
  | some .retain => do
    require (collectionIds = [])
      (.python (.valueError "retained work cannot retire input collections"))
    record.replace d { record with phase := .complete }
  | some .retireAfterVerifiedOutput => do
    let normalized := sortedBy id collectionIds.dedup
    require (normalized = record.work.inputs.map (·.collectionId))
      (.python (.valueError "retirement must name every exact input collection"))
    record.replace d { record with phase := .retirementPending, retirementRemaining := normalized }

/-- `Stove0WorkService.record_retired`. -/
def recordRetired (collectionId : Nat) : Service WorkRecord := do
  require (record.phase = .retirementPending)
    (stateErrorFrom "work cannot record retirement from " record)
  let remaining := record.retirementRemaining.filter (· ≠ collectionId)
  require (remaining ≠ record.retirementRemaining)
    (.python (.valueError "collection is not pending retirement"))
  record.replace d
    { record with
      phase := if remaining = [] then .complete else .retirementPending
      retirementRemaining := remaining }

/-- `Stove0WorkService.mark_inapplicable`. -/
def markInapplicable (outcome : Outcome) : Service WorkRecord := do
  require (record.phase ∈ [.claimed, .observing, .planning, .targetPreflight, .coordinating])
    (stateErrorFrom "work cannot become inapplicable from " record)
  record.replace d
    { record with
      phase := .abandonPending
      inapplicable := some outcome
      abandonOutcome := some .inapplicable }

/-- `Stove0WorkService.fail`. -/
def fail (failure : Failure) : Service WorkRecord :=
  if record.phase = .abandonPending then return record
  else do
    require (record.phase ∉ [.complete, .inapplicable, .failed, .canceled, .settled])
      (stateErrorFrom "work cannot fail from " record)
    record.replace d
      { record with
        phase := if failure.retryable then .failed else .abandonPending
        failure := some failure
        abandonOutcome := if failure.retryable then none else some .failed }

/-- `Stove0WorkService.cancel`. -/
def cancel : Service WorkRecord :=
  if record.phase = .abandonPending then return record
  else if record.phase = .eligible ∧ record.claim.isNone then
    record.replace d { record with phase := .canceled }
  else if record.phase = .failed then do
    require (record.failure.any (·.retryable)) (.state "terminal failed work cannot be canceled")
    record.replace d
      { record with
        phase := .abandonPending, failure := none, abandonOutcome := some .canceled }
  else do
    require (record.phase ∉ [.complete, .inapplicable, .canceled, .settled])
      (stateErrorFrom "work cannot cancel from " record)
    record.replace d { record with phase := .abandonPending, abandonOutcome := some .canceled }

/-- `Stove0WorkService.complete_abandon`. -/
def completeAbandon : Service WorkRecord :=
  match record.phase, record.abandonOutcome with
  | .abandonPending, some outcome =>
    record.replace d { record with phase := outcome.phase, abandonOutcome := none }
  | _, _ => .error (stateErrorFrom "work cannot complete abandonment from " record)

end

/-! ## Targets -/

variable (x : External) (record : WorkRecord)

/-- The controller evidence that `seal_target_plan` seals under a claim. -/
def controllerEvidence (claim : ClaimBinding) (workflow : WorkflowPlan) (target : TargetContract)
    (plan : TargetPlan) : ControllerEvidence where
  executionEnvelope :=
    { claimId := claim.claimId
      fence := claim.fence
      workflowPlan := workflow
      targetPlan :=
        { protocol := target.protocol
          targetImplementationId := target.implementationId
          targetContractSha256 := target.contractSha256
          operationContractSha256 := plan.operationContractSha256
          plan := plan
          planSha256 := x.targetPlan plan } }

/-- `Stove0WorkService.seal_target_plan`. -/
def sealTargetPlan (target : TargetContract) (plan : TargetPlan) : Service WorkRecord :=
  match record.workflowPlan with
  | none => .error (stateErrorFrom "work cannot seal a target plan from " record)
  | some workflow => do
    require (record.phase ∈ [.targetPreflight, .queued])
      (stateErrorFrom "work cannot seal a target plan from " record)
    require (target.contractSha256 = workflow.targetContractSha256
        ∧ plan.targetContractSha256 = target.contractSha256
        ∧ plan.targetImplementationId = target.implementationId
        ∧ plan.operationId = workflow.operation.id
        ∧ plan.operationContractSha256 = workflow.operation.sha256)
      (.python (.valueError "target preflight does not match the stove0 workflow plan"))
    match record.claim with
    | none => .error (.state "target plan requires a live claim binding")
    | some claim => do
      let evidence := controllerEvidence x claim workflow target plan
      Service.ofPy evidence.executionEnvelope.verify
      require (record.targetPlan.isNone
          ∨ (record.targetPlan = some plan ∧ record.controllerEvidence = some evidence))
        (.state "target plan is already sealed")
      record.replace x.toDigests
        { record with
          phase := .queued, targetPlan := some plan, controllerEvidence := some evidence }

/-- `Stove0WorkService.bind_target_request` for the request of a valid declaration. -/
def bindTargetRequest (declaration : TargetJobDeclaration) : Service WorkRecord := do
  Service.ofPy (declaration.verify x)
  require (record.phase ∈ [.queued, .executing] ∧ record.controllerEvidence.isSome)
    (stateErrorFrom "work cannot bind a target request from " record)
  require (record.controllerEvidence = some declaration.controllerEvidence
      ∧ record.claim = some ⟨declaration.claimId, declaration.fence⟩)
    (.python (.valueError "target request does not bind the current stove0 work"))
  require (record.targetRequest.all fun request => request = ⟨declaration⟩)
    (.state "target request identity is already sealed")
  record.replace x.toDigests { record with phase := .queued, targetRequest := some ⟨declaration⟩ }

section

variable (status : TargetJobReport)

/-- The phase that a target status leads to. -/
def statusPhase (operation : OperationContract) : WorkPhase :=
  match status.state with
  | .queued | .interrupted => .queued
  | .running | .canceling => .executing
  | .succeeded =>
    match operation.resultKind with
    | .externalEffect => .settled
    | .collection => .verifying
  | .inapplicable => .abandonPending
  | .failed => if status.failure.any (·.retryable) then .failed else .abandonPending
  | .canceled => .abandonPending

/-- The output that a target status records. -/
def statusOutput (operation : OperationContract) :
    Option OutputCollectionRef :=
  if status.state = .succeeded ∧ operation.resultKind = .collection then status.outputCollection
  else none

/-- The failure that a target status records. -/
def statusFailure : Option Failure :=
  if status.state = .failed then status.failure else none

/-- The abandon outcome that a target status records. -/
def statusAbandon (operation : OperationContract) :
    Option AbandonOutcome :=
  if statusPhase status operation = .abandonPending then
    if status.inapplicable.isSome then some .inapplicable
    else if (statusFailure status).isSome then some .failed
    else some .canceled
  else none

end

/-- The record after an accepted target status, before its shape is checked. -/
def reported (status : TargetJobStatus) (operation : OperationContract) : WorkRecord :=
  { record with
    phase := statusPhase status.toTargetJobReport operation
    targetStatus := some status
    output := statusOutput status.toTargetJobReport operation
    failure := statusFailure status.toTargetJobReport
    abandonOutcome := statusAbandon status.toTargetJobReport operation
    inapplicable := status.inapplicable }

/-- `Stove0WorkService.record_target_status`. -/
def recordTargetStatus (status : TargetJobStatus) (operation : OperationContract) :
    Service WorkRecord :=
  match record.targetRequest with
  | none => .error (stateErrorFrom "work cannot record target status from " record)
  | some request => do
    require (record.phase ∈ [.queued, .executing, .outputFinalizing, .verifying])
      (stateErrorFrom "work cannot record target status from " record)
    Service.ofPy (validateStatusAgainstRequest x status.toTargetJobReport request operation)
    require (record.targetStatus.all fun prior => prior.state.terminal → prior = status)
      (.state "terminal target status is immutable")
    require (record.targetStatus.all fun prior => prior.attempt ≤ status.attempt)
      (.state "target attempt generation moved backward")
    record.replace x.toDigests (reported record status operation)

/-- `Stove0WorkService.verify_output`. -/
def verifyOutput (output : OutputCollectionRef) (settlement : TargetSettlementAuthority) :
    Service WorkRecord :=
  match record.targetStatus with
  | none => .error (stateErrorFrom "work cannot verify output from " record)
  | some status => do
    require (record.phase = .verifying) (stateErrorFrom "work cannot verify output from " record)
    require (status.outputCollection = some output ∧ record.output = some output) (.python
        (.valueError "Riverhog verification differs from the target output identity"))
    require (settlement.outputCollection = output)
      (.python (.valueError "target settlement differs from the verified output"))
    record.replace x.toDigests
      { record with
        phase := .settled, output := some output, targetSettlement := some settlement }

end WorkService

/-! ## One call -/

/-- A call of the service on a loaded record. -/
inductive Transition where
  | bindClaim (binding : ClaimBinding)
  | rebindClaim (binding : ClaimBinding)
  | retryFailed (binding : ClaimBinding)
  | retryCoordination (binding : ClaimBinding)
  | activatePreplanned | activatePreplannedCoordination | beginPlanning
  | beginObservations (requests : List ObservationRequest)
  | recordObservation (result : ObservationResult)
  | sealWorkflowPlan (plan : WorkflowPlan)
  | sealTargetPlan (target : TargetContract) (plan : TargetPlan)
  | bindTargetRequest (declaration : TargetJobDeclaration)
  | recordTargetStatus (status : TargetJobStatus) (operation : OperationContract)
  | verifyOutput (output : OutputCollectionRef) (settlement : TargetSettlementAuthority)
  | recordCoordinationSettlement (settlement : CoordinationSettlement)
  | requestCoordinationCancel
  | beginRetirement (collectionIds : List Nat)
  | recordRetired (collectionId : Nat)
  | markInapplicable (outcome : Outcome)
  | fail (failure : Failure)
  | cancel | completeAbandon
  deriving DecidableEq

/-- The record that a call of the service computes. -/
def Transition.apply (x : External) (record : WorkRecord) : Transition → Service WorkRecord
  | .bindClaim binding => WorkService.bindClaim x.toDigests record binding
  | .rebindClaim binding => WorkService.rebindClaim x.toDigests record binding
  | .retryFailed binding => WorkService.retryFailed x.toDigests record binding
  | .retryCoordination binding => WorkService.retryCoordination x.toDigests record binding
  | .activatePreplanned => WorkService.activatePreplanned x.toDigests record
  | .activatePreplannedCoordination =>
    WorkService.activatePreplannedCoordination x.toDigests record
  | .beginPlanning => WorkService.beginPlanning x.toDigests record
  | .beginObservations requests => WorkService.beginObservations x.toDigests record requests
  | .recordObservation result => WorkService.recordObservation x.toDigests record result
  | .sealWorkflowPlan plan => WorkService.sealWorkflowPlan x.toDigests record plan
  | .sealTargetPlan target plan => WorkService.sealTargetPlan x record target plan
  | .bindTargetRequest declaration => WorkService.bindTargetRequest x record declaration
  | .recordTargetStatus status operation =>
    WorkService.recordTargetStatus x record status operation
  | .verifyOutput output settlement =>
    WorkService.verifyOutput x record output settlement
  | .recordCoordinationSettlement settlement =>
    WorkService.recordCoordinationSettlement x.toDigests record settlement
  | .requestCoordinationCancel => WorkService.requestCoordinationCancel x.toDigests record
  | .beginRetirement collectionIds =>
    WorkService.beginRetirement x.toDigests record collectionIds
  | .recordRetired collectionId => WorkService.recordRetired x.toDigests record collectionId
  | .markInapplicable outcome => WorkService.markInapplicable x.toDigests record outcome
  | .fail failure => WorkService.fail x.toDigests record failure
  | .cancel => WorkService.cancel x.toDigests record
  | .completeAbandon => WorkService.completeAbandon x.toDigests record

end Riverhog.Stove0
