import Riverhog.Stove0.Documents

/-!
# Fork and join documents

The documents that declare a set of branch works with an optional join, and those that
report what became of them: selections of artifacts, branch plans, the branch set,
settlements of branches, joins and whole coordinations, and the evaluation of a branch
set. A document refers to another one by its digest.
-/

namespace Riverhog.Stove0

open Core

/-! ## Selections -/

/-- `_artifact_key`. -/
def artifactKey (artifact : ArtifactSubject) :
    Nat ×ₗ Text ×ₗ Text ×ₗ Text ×ₗ Nat ×ₗ Text ×ₗ Text :=
  toLex (artifact.collection.collectionId, toLex (artifact.collection.archiveRootSha256,
    toLex (artifact.collection.contentIdentity, toLex (artifact.path, toLex (artifact.bytes,
      toLex (artifact.sha256, artifact.id))))))

/-- `ArtifactSelection.canonical_artifacts`. -/
def verifyArtifacts (artifacts : List ArtifactSubject) : Py Unit := do
  require (artifacts ≠ []) tooShort
  require (artifacts = sortedBy artifactKey artifacts)
    (.valueError "selection artifacts must be canonically ordered")
  require ((artifacts.map (·.id)).Nodup) (.valueError "selection artifact IDs must be unique")
  require ((artifacts.map fun a => (a.collection, a.path)).Nodup)
    (.valueError "selection cannot repeat an exact collection artifact")
  require
    (artifacts.all fun a =>
      (artifacts.find? fun first => first.collection.collectionId = a.collection.collectionId).map
        (·.collection) = some a.collection)
    (.valueError "selection contains conflicting roots for one collection ID")

/-- `ArtifactSelection`: a selection of immutable artifacts in canonical order. -/
structure ArtifactSelection where
  artifacts : List ArtifactSubject
  valid : verifyArtifacts artifacts = .ok ()
  deriving DecidableEq

/-- `ArtifactSelection.seal`. -/
def ArtifactSelection.seal (artifacts : List ArtifactSubject) : Py ArtifactSelection :=
  (validated verifyArtifacts (sortedBy artifactKey artifacts)).map fun a => ⟨a.1, a.2⟩

namespace ArtifactSelection

/-- The field `artifact_count`. -/
def artifactCount (selection : ArtifactSelection) : Nat := selection.artifacts.length

/-- The field `total_bytes`. -/
def totalBytes (selection : ArtifactSelection) : Nat := (selection.artifacts.map (·.bytes)).sum

/-- `ArtifactSelection.roots`. -/
def roots (selection : ArtifactSelection) : List CollectionRootRef :=
  distinctRoots (selection.artifacts.map (·.collection))

end ArtifactSelection

/-- `ArtifactSelectionRef`. -/
structure ArtifactSelectionRef where
  selectionSha256 : Digest
  artifactCount : Nat
  totalBytes : Nat
  deriving DecidableEq

/-! ## Declarations -/

/-- `BranchPlan`: a branch that is one target work. -/
structure BranchPlan where
  branchId : Text
  artifactSelection : ArtifactSelectionRef
  workflowPlan : WorkflowPlan
  deriving DecidableEq

/-- `CoordinationBranchPlan`: a branch that coordinates a branch set of its own. -/
structure CoordinationBranchPlan where
  branchId : Text
  artifactSelection : ArtifactSelectionRef
  work : WorkIdentity
  branchSetSha256 : Digest
  deriving DecidableEq

/-- `BranchDeclaration`. -/
inductive BranchDeclaration where
  | leaf (plan : BranchPlan)
  | coordination (plan : CoordinationBranchPlan)
  deriving DecidableEq

namespace BranchDeclaration

/-- The field `branch_id`. -/
def branchId : BranchDeclaration → Text
  | leaf plan => plan.branchId
  | coordination plan => plan.branchId

/-- The field `artifact_selection`. -/
def artifactSelection : BranchDeclaration → ArtifactSelectionRef
  | leaf plan => plan.artifactSelection
  | coordination plan => plan.artifactSelection

/-- `branch_work`. -/
def work : BranchDeclaration → WorkIdentity
  | leaf plan => plan.workflowPlan.work
  | coordination plan => plan.work

/-- A leaf whose operation has an effect outside Riverhog. -/
def isEffect : BranchDeclaration → Bool
  | leaf plan => plan.workflowPlan.resultKind = .externalEffect
  | coordination _ => false

end BranchDeclaration

/-- `JoinMemberDeclaration`. -/
structure JoinMemberDeclaration where
  branchId : Text
  outputRoles : List Text
  deriving DecidableEq

/-- `JoinDeclaration`. -/
structure JoinDeclaration where
  members : List JoinMemberDeclaration
  recipe : RecipeRef
  effectiveIntent : Json
  workflowIntent : WorkflowPlanIntent
  deriving DecidableEq

/-- `BranchSetPlan`. -/
structure BranchSetPlan where
  parentWork : WorkIdentity
  decisionSha256 : Digest
  evidenceSha256s : List Digest
  branches : List BranchDeclaration
  join : Option JoinDeclaration
  retirementPolicy : RetirementPolicy
  retirementGraceSeconds : Nat
  deriving DecidableEq

/-! ## Settlements and outcomes -/

/-- `BranchSettlement`. -/
structure BranchSettlement where
  branchId : Text
  workId : Digest
  workflowPlanSha256 : Digest
  derivationSha256 : Digest
  producerSettlementSha256 : Digest
  outputCollection : CollectionRootRef
  outputSelection : ArtifactSelectionRef
  deriving DecidableEq

/-- `BranchEffectSettlement`. -/
structure BranchEffectSettlement where
  branchId : Text
  workId : Digest
  workflowPlanSha256 : Digest
  effectReceiptSha256 : Digest
  deriving DecidableEq

/-- `BranchOutcomeState` and `JoinOutcomeState`. -/
inductive OutcomeState where
  | failed | inapplicable | interrupted | canceled
  deriving DecidableEq

/-- `BranchOutcome`. -/
structure BranchOutcome where
  branchId : Text
  workId : Digest
  workflowPlanSha256 : Option Digest
  branchSetSha256 : Option Digest
  state : OutcomeState
  deriving DecidableEq

/-- `JoinInputPlan`. -/
structure JoinInputPlan where
  branchId : Text
  settlementSha256 : Digest
  producerSettlementSha256 : Option Digest
  derivationSha256 : Digest
  outputCollection : CollectionRootRef
  artifactSelection : ArtifactSelectionRef
  deriving DecidableEq

/-- `JoinPlan`. -/
structure JoinPlan where
  parentWorkId : Digest
  branchSetSha256 : Digest
  declaration : JoinDeclaration
  inputs : List JoinInputPlan
  work : WorkIdentity
  workflowPlan : WorkflowPlan
  deriving DecidableEq

/-- `JoinSettlement`. -/
structure JoinSettlement where
  workId : Digest
  workflowPlanSha256 : Digest
  joinPlanSha256 : Digest
  derivationSha256 : Digest
  producerSettlementSha256 : Digest
  outputCollection : CollectionRootRef
  outputSelection : ArtifactSelectionRef
  deriving DecidableEq

/-- `JoinOutcome`. -/
structure JoinOutcome where
  workId : Digest
  workflowPlanSha256 : Digest
  joinPlanSha256 : Digest
  state : OutcomeState
  deriving DecidableEq

/-- The kinds of a direct child of a coordination. -/
inductive ChildKind where
  | collection | externalEffect | coordination
  deriving DecidableEq

/-- `CoordinationChildSettlementRef`. -/
structure ChildSettlementRef where
  branchId : Text
  kind : ChildKind
  settlementSha256 : Digest
  deriving DecidableEq

/-- `CoordinationCollectionResult`. -/
structure CollectionResult where
  producerWorkId : Digest
  joinSettlementSha256 : Digest
  derivationSha256 : Digest
  outputCollection : CollectionRootRef
  outputSelection : ArtifactSelectionRef
  deriving DecidableEq

/-- `CoordinationSettlement`. -/
structure CoordinationSettlement where
  work : WorkIdentity
  branchSetSha256 : Digest
  children : List ChildSettlementRef
  containsExternalEffects : Bool
  finalJoinSettlementSha256 : Option Digest
  collectionResult : Option CollectionResult
  deriving DecidableEq

/-- `JoinEvaluationState`. -/
inductive JoinState where
  | notDeclared | waiting | ready | succeeded
  | outcome (state : OutcomeState)
  deriving DecidableEq

/-- `BranchSetEvaluation`. -/
structure BranchSetEvaluation where
  branchSetSha256 : Digest
  succeededBranches : List BranchSettlement
  succeededEffects : List BranchEffectSettlement
  succeededCoordinations : List CoordinationSettlement
  unsettledBranchIds : List Text
  failedBranchIds : List Text
  inapplicableBranchIds : List Text
  interruptedBranchIds : List Text
  canceledBranchIds : List Text
  joinReady : Bool
  resolvedJoinPlan : Option JoinPlan
  joinState : JoinState
  joinSettlement : Option JoinSettlement
  unsettledWorkIds : List Digest
  branchSetSucceeded : Bool
  coordinationSettlement : Option CoordinationSettlement
  retirementRequested : Bool
  coordinationCompleteForRetirement : Bool
  deriving DecidableEq

/-! ## Digests -/

/-- The digests of the sealed documents, by kind. -/
structure Digests where
  /-- `request_id`. -/
  observationRequest : ObservationRequest → Digest
  /-- `result_sha256`. -/
  observationResult : ObservationResult → Digest
  /-- `work_id`. -/
  work : WorkIdentity → Digest
  /-- `workflow_plan_sha256`. -/
  workflowPlan : WorkflowPlan → Digest
  /-- `selection_sha256`. -/
  selection : ArtifactSelection → Digest
  /-- `branch_set_sha256`. -/
  branchSet : BranchSetPlan → Digest
  /-- `join_plan_sha256`. -/
  joinPlan : JoinPlan → Digest
  /-- `settlement_sha256` of a branch settlement. -/
  branchSettlement : BranchSettlement → Digest
  /-- `settlement_sha256` of an effect settlement. -/
  effectSettlement : BranchEffectSettlement → Digest
  /-- `settlement_sha256` of a join settlement. -/
  joinSettlement : JoinSettlement → Digest
  /-- `settlement_sha256` of a coordination settlement. -/
  coordinationSettlement : CoordinationSettlement → Digest

/-- Digests that spell the labels of a document: the recipe of a work, the artifacts of a
selection, the branch of a settlement. Documents with other labels have other digests. -/
def labelDigests : Digests where
  observationRequest request := request.observerContractId
  observationResult result := result.requestId
  work work := work.recipe.id
  workflowPlan plan := 'p' :: plan.work.recipe.id
  selection selection := selection.artifacts.flatMap (·.id)
  branchSet plan := 's' :: plan.parentWork.recipe.id
  joinPlan plan := 'j' :: plan.work.recipe.id
  branchSettlement settlement := 'b' :: settlement.branchId
  effectSettlement settlement := 'e' :: settlement.branchId
  joinSettlement settlement := 'k' :: settlement.workId
  coordinationSettlement settlement := 'c' :: settlement.branchSetSha256

/-- `ArtifactSelection.ref`. -/
def ArtifactSelection.ref (d : Digests) (selection : ArtifactSelection) : ArtifactSelectionRef where
  selectionSha256 := d.selection selection
  artifactCount := selection.artifactCount
  totalBytes := selection.totalBytes

end Riverhog.Stove0
