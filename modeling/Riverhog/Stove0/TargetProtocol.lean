import Riverhog.Stove0.ForkJoinDocuments

/-!
# The target protocol

The documents that stove0 and a target exchange for one execution: the plan of a
preflight, the execution envelope under the claim and fence of the work, the job that is
accepted for it, and the status that reports its result. `validateStatusAgainstRequest`
binds a status to the accepted job and to the fence that the job was sealed under.
-/

namespace Riverhog.Stove0

open Core

/-! ## Plans and envelopes -/

/-- `TargetProtocol`. -/
inductive TargetProtocol where
  | transform | effect
  deriving DecidableEq

/-- The result kind of the operations of a protocol. -/
def TargetProtocol.resultKind : TargetProtocol → ResultKind
  | transform => .collection
  | effect => .externalEffect

/-- `TargetInputRoleCount` and `OutputArtifactRoleCount`. -/
structure RoleCount where
  role : Text
  count : Nat
  deriving DecidableEq

/-- `TargetInputAuthority`. -/
structure TargetInputAuthority where
  selection : ArtifactSelectionRef
  roles : List RoleCount
  deriving DecidableEq

/-- `TransformPlan` and `EffectPlan`. -/
structure TargetPlan where
  protocol : TargetProtocol
  operationId : Text
  operationContractSha256 : Digest
  inputs : TargetInputAuthority
  intent : Json
  targetOptions : Json
  targetImplementationId : Text
  targetContractSha256 : Digest
  observationResultSha256s : List Digest
  deriving DecidableEq

/-- `TargetPlanBinding`; the document in it is the plan. -/
structure TargetPlanBinding where
  protocol : TargetProtocol
  targetImplementationId : Text
  targetContractSha256 : Digest
  operationContractSha256 : Digest
  plan : TargetPlan
  planSha256 : Digest
  deriving DecidableEq

/-- `ExecutionEnvelope`. -/
structure ExecutionEnvelope where
  claimId : Text
  fence : Nat
  workflowPlan : WorkflowPlan
  targetPlan : TargetPlanBinding
  deriving DecidableEq

/-- `ControllerEvidence`. -/
structure ControllerEvidence where
  executionEnvelope : ExecutionEnvelope
  deriving DecidableEq

/-- `WorkspaceAssurance`. -/
inductive WorkspaceAssurance where
  | encrypted | ephemeral
  deriving DecidableEq

/-- `TargetJobDeclaration`. -/
structure TargetJobDeclaration where
  jobId : Digest
  claimId : Text
  fence : Nat
  controllerEvidence : ControllerEvidence
  plan : TargetPlan
  workspaceAssurance : WorkspaceAssurance
  deriving DecidableEq

/-- `AcceptedTargetJob`; a `TargetJobRequest` without its secrets. -/
structure AcceptedTargetJob where
  declaration : TargetJobDeclaration
  deriving DecidableEq

/-! ## Contracts -/

/-- `OutputArtifactContract` without the roles it derives from. -/
structure OutputArtifactContract where
  role : Text
  minimum : Nat
  maximum : Option Nat
  deriving DecidableEq

/-- `OperationContract`, as far as a status is checked against it. -/
structure OperationContract where
  id : Text
  resultKind : ResultKind
  outputs : List OutputArtifactContract
  effectReceiptSchema : Option Json
  sourceRetirementPermitted : Bool
  contractSha256 : Digest
  deriving DecidableEq

/-- `TargetOperationSupport`. -/
structure TargetOperationSupport where
  operationId : Text
  operationContractSha256 : Digest
  resultKind : ResultKind
  deriving DecidableEq

/-- `TargetContract`. -/
structure TargetContract where
  protocol : TargetProtocol
  implementationId : Text
  operations : List TargetOperationSupport
  contractSha256 : Digest
  deriving DecidableEq

/-! ## Results -/

/-- `ArtifactDispositionSetIdentity`. -/
structure DispositionSetIdentity where
  dispositionCount : Nat
  outputEdgeCount : Nat
  outputArtifactCount : Nat
  sha256 : Digest
  deriving DecidableEq

/-- `OutputArtifactSetIdentity`. -/
structure OutputArtifactSetIdentity where
  artifactCount : Nat
  totalBytes : Nat
  roles : List RoleCount
  sha256 : Digest
  deriving DecidableEq

/-- `TargetProductionAuthority`. -/
structure TargetProductionAuthority where
  jobId : Digest
  planSha256 : Digest
  outputs : OutputArtifactSetIdentity
  dispositionCount : Nat
  dispositionSha256 : Digest
  sourceEdgeCount : Nat
  sourceEdgeSha256 : Digest
  riverhogDispositionSet : DispositionSetIdentity
  deriving DecidableEq

/-- `OutputCollectionRef`. -/
structure OutputCollectionRef where
  collectionId : Nat
  archiveRootSha256 : Digest
  contentIdentity : Digest
  derivationSha256 : Digest
  deriving DecidableEq

/-- `CollectionDerivation`. -/
structure CollectionDerivation where
  executionId : Digest
  claimId : Text
  fence : Nat
  recipe : RecipeRef
  operation : OperationRef
  inputSetSha256 : Digest
  artifactSetSha256 : Digest
  executionEnvelopeSha256 : Digest
  executionSha256 : Digest
  controllerEvidence : Json
  controllerEvidenceSha256 : Digest
  dispositionSet : DispositionSetIdentity
  deriving DecidableEq

/-- `TargetExecutionEvidence`. -/
structure TargetExecutionEvidence where
  targetContractSha256 : Digest
  operationContractSha256 : Digest
  planSha256 : Digest
  executionSha256 : Digest
  runtime : Json
  deriving DecidableEq

/-- `ExternalEffectReceipt`. -/
structure ExternalEffectReceipt where
  jobId : Digest
  requestSha256 : Digest
  targetContractSha256 : Digest
  operationContractSha256 : Digest
  planSha256 : Digest
  executionSha256 : Digest
  result : Json
  deriving DecidableEq

/-- `TargetOutputBindingSetIdentity`. -/
structure OutputBindingSetIdentity where
  artifactCount : Nat
  totalBytes : Nat
  sha256 : Digest
  deriving DecidableEq

/-- `TargetSettlementAuthority`. -/
structure TargetSettlementAuthority where
  jobId : Digest
  productionSha256 : Digest
  outputCollection : OutputCollectionRef
  outputBindings : OutputBindingSetIdentity
  deriving DecidableEq

/-- `TargetJobState`. -/
inductive TargetJobState where
  | queued | running | canceling | interrupted | inapplicable | succeeded | failed | canceled
  deriving DecidableEq

/-- The terminal states of a job. -/
def TargetJobState.terminal : TargetJobState → Bool
  | succeeded | inapplicable | failed | canceled => true
  | _ => false

/-- `TargetProgress`. -/
structure TargetProgress where
  phase : Text
  completed : Nat
  total : Option Nat
  unit : Option Text
  bounded : total.all (completed ≤ ·) = true
  deriving DecidableEq

/-- The fields of `TargetJobStatus`. -/
structure TargetJobReport where
  protocol : TargetProtocol
  jobId : Digest
  state : TargetJobState
  attempt : Nat
  requestSha256 : Digest
  planSha256 : Digest
  progress : TargetProgress
  production : Option TargetProductionAuthority
  outputCollection : Option OutputCollectionRef
  executionEvidence : Option TargetExecutionEvidence
  derivation : Option CollectionDerivation
  effectReceipt : Option ExternalEffectReceipt
  failure : Option Failure
  inapplicable : Option Outcome
  deriving DecidableEq

/-- The report carries one of the results that only a success publishes. -/
def TargetJobReport.publishes (report : TargetJobReport) : Bool :=
  report.production.isSome ∨ report.outputCollection.isSome ∨ report.derivation.isSome
    ∨ report.effectReceipt.isSome

/-- `TargetJobStatus.validate_terminal_shape` for a success. -/
def TargetJobReport.verifySucceeded (report : TargetJobReport) : Py Unit := do
  match report.protocol with
  | .transform =>
    require (report.production.isSome ∧ report.outputCollection.isSome
        ∧ report.executionEvidence.isSome ∧ report.derivation.isSome)
      (.valueError "succeeded transform status requires outputs and final collection evidence")
    require report.effectReceipt.isNone
      (.valueError "succeeded transform status cannot include an effect receipt")
  | .effect =>
    require (report.production.isNone ∧ report.outputCollection.isNone ∧ report.derivation.isNone
        ∧ report.executionEvidence.isSome ∧ report.effectReceipt.isSome)
      (.valueError "succeeded effect status requires only execution evidence and an effect receipt")
  require report.failure.isNone
    (.valueError "succeeded target status cannot include failure details")
  require report.inapplicable.isNone (.valueError "succeeded target status cannot be inapplicable")

/-- `TargetJobStatus.validate_terminal_shape`. -/
def TargetJobReport.verify (report : TargetJobReport) : Py Unit := do
  match report.state with
  | .succeeded => report.verifySucceeded
  | .failed =>
    require report.failure.isSome (.valueError "failed target status requires failure details")
    require (!report.publishes) (.valueError "failed target status cannot publish a result")
    require report.inapplicable.isNone (.valueError "failed target status cannot be inapplicable")
  | .inapplicable =>
    require report.inapplicable.isSome
      (.valueError "inapplicable target status requires an outcome")
    require (!report.publishes) (.valueError "inapplicable target status cannot publish a result")
    require report.failure.isNone
      (.valueError "inapplicable target status cannot include failure details")
  | .canceled =>
    require (!report.publishes) (.valueError "canceled target status cannot publish a result")
    require report.failure.isNone
      (.valueError "canceled target status cannot include failure details")
  | _ =>
    require (!report.publishes ∧ report.executionEvidence.isNone)
      (.valueError "nonterminal target status cannot publish terminal evidence")
    require report.failure.isNone
      (.valueError "nonterminal target status cannot include failure details")
  require (report.state = .inapplicable ∨ report.inapplicable.isNone)
    (.valueError "only inapplicable target status may include an outcome")

/-- `TargetJobStatus`: a report of the shape its state requires. -/
structure TargetJobStatus extends TargetJobReport where
  valid : toTargetJobReport.verify = .ok ()
  deriving DecidableEq

/-! ## Identities -/

/-- The digests of the target protocol, and what canonical JSON and JSON schemas are to it. -/
structure External extends Digests where
  /-- `plan_sha256`. -/
  targetPlan : TargetPlan → Digest
  /-- `execution_envelope_sha256`. -/
  envelope : ExecutionEnvelope → Digest
  /-- `request_sha256`. -/
  jobRequest : TargetJobDeclaration → Digest
  /-- `CollectionDerivation.sha256`. -/
  derivation : CollectionDerivation → Digest
  /-- `production_sha256`. -/
  production : TargetProductionAuthority → Digest
  /-- `settlement_sha256` of a target settlement. -/
  targetSettlement : TargetSettlementAuthority → Digest
  /-- `receipt_sha256`. -/
  effectReceipt : ExternalEffectReceipt → Digest
  /-- The canonical JSON document of a controller evidence. -/
  controllerDocument : ControllerEvidence → Json
  /-- `canonical_json_sha256`. -/
  jsonSha256 : Json → Digest
  /-- `Draft202012Validator(schema).validate(document)` returns. -/
  schemaAccepts : Json → Json → Bool

variable (x : External)

/-- `ExecutionEnvelopePayload.bind_target`. -/
def ExecutionEnvelope.verify (envelope : ExecutionEnvelope) : Py Unit := do
  require (envelope.workflowPlan.targetContractSha256 = envelope.targetPlan.targetContractSha256)
    (.valueError "target plan differs from the workflow-selected target contract")
  require (envelope.workflowPlan.operation.sha256 = envelope.targetPlan.operationContractSha256)
    (.valueError "target plan differs from the workflow-selected operation contract")

/-- The result digests of the observations of a workflow plan, sorted. -/
def WorkflowPlan.observationDigests (d : Digests) (plan : WorkflowPlan) : List Digest :=
  sortedBy id (plan.observations.map fun e => d.observationResult e.result)

/-- `TargetJobDeclaration.bind_execution`. -/
def TargetJobDeclaration.verify (declaration : TargetJobDeclaration) : Py Unit := do
  let envelope := declaration.controllerEvidence.executionEnvelope
  let workflow := envelope.workflowPlan
  let target := envelope.targetPlan
  require (declaration.jobId = x.envelope envelope)
    (.valueError "target job id must equal the execution envelope identity")
  require (declaration.claimId = envelope.claimId ∧ declaration.fence = envelope.fence)
    (.valueError "target job claim differs from the execution envelope")
  require (x.targetPlan declaration.plan = target.planSha256)
    (.valueError "target job plan differs from the sealed execution envelope")
  require (declaration.plan = target.plan)
    (.valueError "target job plan document differs from the sealed binding")
  require (declaration.plan.targetContractSha256 = workflow.targetContractSha256
      ∧ declaration.plan.operationContractSha256 = workflow.operation.sha256
      ∧ declaration.plan.observationResultSha256s = workflow.observationDigests x.toDigests)
    (.valueError "target job plan differs from the stove0 workflow plan")
  require
    (workflow.work.branchBinding.all fun binding =>
      declaration.plan.inputs.selection.selectionSha256 = binding.artifactSelectionSha256)
    (.valueError "target plan references another branch input authority")

/-! ## A status under its request -/

/-- `{item.role: item.count for item in roles}.get(role, 0)`: the last entry of a role counts. -/
def roleCount (roles : List RoleCount) (role : Text) : Nat :=
  ((roles.reverse.find? (·.role = role)).map (·.count)).getD 0

/-- The check of one output contract against the outputs of a production. -/
def OutputArtifactContract.check (roles : List RoleCount) (contract : OutputArtifactContract) :
    Py Unit :=
  require (contract.minimum ≤ roleCount roles contract.role
      ∧ contract.maximum.all fun m => roleCount roles contract.role ≤ m)
    (.valueError (String.ofList ("output role cardinality is invalid: " ++ contract.role)))

variable (status : TargetJobReport)

/-- The checks of an external-effect success. -/
def validateReceipt (evidence : TargetExecutionEvidence)
    (declaration : TargetJobDeclaration) (operation : OperationContract) : Py Unit := do
  let bound := fun receipt : ExternalEffectReceipt =>
    receipt.jobId = declaration.jobId ∧ receipt.requestSha256 = x.jobRequest declaration
      ∧ receipt.targetContractSha256 = declaration.plan.targetContractSha256
      ∧ receipt.operationContractSha256 = operation.contractSha256
      ∧ receipt.planSha256 = x.targetPlan declaration.plan
      ∧ receipt.executionSha256 = evidence.executionSha256
  require (status.effectReceipt.any fun receipt => bound receipt)
    (.valueError "external-effect receipt differs from the accepted execution")
  match operation.effectReceiptSchema with
  | none => .error (.valueError "effect operation omitted its receipt schema")
  | some schema =>
    -- the error of the schema validator, without its text
    require (status.effectReceipt.all fun receipt => x.schemaAccepts schema receipt.result)
      (.valueError "")

/-- The derivation of a success is the one of the accepted execution. -/
def derivationBound (declaration : TargetJobDeclaration) (evidence : TargetExecutionEvidence)
    (derivation : CollectionDerivation) (output : OutputCollectionRef) : Bool :=
  let workflow := declaration.controllerEvidence.executionEnvelope.workflowPlan
  let document := x.controllerDocument declaration.controllerEvidence
  derivation.executionId = declaration.jobId ∧ derivation.claimId = declaration.claimId
    ∧ derivation.fence = declaration.fence
    ∧ derivation.recipe = workflow.work.recipe
    ∧ derivation.operation = workflow.operation
    ∧ derivation.executionEnvelopeSha256 = declaration.jobId
    ∧ derivation.executionSha256 = evidence.executionSha256
    ∧ derivation.controllerEvidence = document
    ∧ derivation.controllerEvidenceSha256 = x.jsonSha256 document
    ∧ output.derivationSha256 = x.derivation derivation

/-- The checks of the derivation of a collection success. -/
def validateDerivation (declaration : TargetJobDeclaration) (evidence : TargetExecutionEvidence)
    (production : TargetProductionAuthority) (derivation : CollectionDerivation)
    (output : OutputCollectionRef) : Py Unit := do
  require (derivationBound x declaration evidence derivation output)
    (.valueError "target derivation differs from the accepted execution envelope")
  require
    (derivation.dispositionSet.dispositionCount = declaration.plan.inputs.selection.artifactCount)
    (.valueError "target derivation does not account for every planned input artifact")
  require (derivation.dispositionSet.outputArtifactCount = production.outputs.artifactCount)
    (.valueError "target derivation output authority differs from terminal outputs")
  require (derivation.dispositionSet = production.riverhogDispositionSet)
    (.valueError "target derivation differs from its sealed production authority")
  require (production.outputs.artifactCount ≤ derivation.dispositionSet.outputEdgeCount)
    (.valueError "target derivation has incomplete output source relationships")

/-- The checks of a collection success. -/
def validateProduction (evidence : TargetExecutionEvidence)
    (declaration : TargetJobDeclaration) (operation : OperationContract) : Py Unit :=
  match status.production with
  | none => .error (.valueError "target success is missing its output authority")
  | some production => do
    require (production.jobId = declaration.jobId
        ∧ production.planSha256 = x.targetPlan declaration.plan)
      (.valueError "target production authority differs from the accepted plan")
    require (production.outputs.roles.all fun c => operation.outputs.any fun o => o.role = c.role)
      (.valueError "target produced an unsupported output role")
    operation.outputs.forM (OutputArtifactContract.check production.outputs.roles)
    match status.derivation, status.outputCollection with
    | some derivation, some output =>
      validateDerivation x declaration evidence production derivation output
    | _, _ => .error (.valueError "target success is missing derivation evidence")

/-- The checks of a success. -/
def validateSuccess (declaration : TargetJobDeclaration)
    (operation : OperationContract) : Py Unit :=
  match status.executionEvidence with
  | none => .error (.valueError "target execution evidence differs from the accepted plan")
  | some evidence => do
    require (evidence.targetContractSha256 = declaration.plan.targetContractSha256
        ∧ evidence.operationContractSha256 = operation.contractSha256
        ∧ evidence.planSha256 = x.targetPlan declaration.plan)
      (.valueError "target execution evidence differs from the accepted plan")
    match operation.resultKind with
    | .externalEffect => validateReceipt x status evidence declaration operation
    | .collection => validateProduction x status evidence declaration operation

/-- `validate_status_against_request`. -/
def validateStatusAgainstRequest (request : AcceptedTargetJob)
    (operation : OperationContract) : Py Unit := do
  let declaration := request.declaration
  require (status.jobId = declaration.jobId ∧ status.protocol = declaration.plan.protocol
      ∧ status.requestSha256 = x.jobRequest declaration
      ∧ status.planSha256 = x.targetPlan declaration.plan)
    (.valueError "target status does not bind the accepted request")
  require (operation.resultKind = declaration.plan.protocol.resultKind)
    (.valueError "target plan protocol differs from the operation result kind")
  if status.state = .succeeded then validateSuccess x status declaration operation
  else return ()

end Riverhog.Stove0
