import Riverhog.Stove0.WorkService

/-!
# The coordinator and its ports

The coordinator asks its ports and passes what they answer to the work service. A port may
answer differently each time that it is asked, so the answers of one call are a parameter of
that call.
-/

namespace Riverhog.Stove0

open Core

/-- The answers of `PlanningPort` and `TargetPort` that a cancellation asks for. -/
structure CancelPorts where
  /-- `PlanningPort.operation_contract`. -/
  operationContract : OperationRef → Py OperationContract
  /-- `TargetPort.cancel_job`, by the registration, the accepted job and its operation. -/
  cancelJob : Text → AcceptedTargetJob → OperationContract → Py TargetJobStatus

namespace Coordinator

variable (x : External)

/-- The part of `cancel` that asks the target. -/
def cancelTarget (ports : CancelPorts) (record : WorkRecord) (request : AcceptedTargetJob)
    (plan : WorkflowPlan) : Service WorkRecord := do
  let operation ← Service.ofPy (ports.operationContract plan.operation)
  let status ← Service.ofPy (ports.cancelJob plan.targetRegistrationId request operation)
  WorkService.recordTargetStatus x record status operation

/-- `Stove0Coordinator.cancel` on the loaded record. -/
def cancel (ports : CancelPorts) (record : WorkRecord) : Service WorkRecord :=
  if record.phase ∈ [.complete, .inapplicable, .canceled] then .ok record
  else if record.phase = .failed then
    if record.failure.any (·.retryable) then WorkService.cancel x.toDigests record
    else .ok record
  else if record.phase ∈ [.settled, .retirementPending] then
    .error (.python (.runtimeError "settled work cannot be canceled"))
  else if record.coordinationSettlement.isSome then
    .error (.python (.runtimeError "successfully settled coordination cannot be canceled"))
  else if record.branchSetPlan.isSome ∧ record.phase ∈ [.eligible, .claimed, .coordinating] then
    WorkService.requestCoordinationCancel x.toDigests record
  else
    match record.targetRequest, record.workflowPlan with
    | some request, some plan => cancelTarget x ports record request plan
    | _, _ => WorkService.cancel x.toDigests record

end Coordinator

end Riverhog.Stove0
