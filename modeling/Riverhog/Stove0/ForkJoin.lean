import Riverhog.Core.Accept
import Riverhog.Stove0.ForkJoinDocuments

/-!
# Fork and join

The kernel of stove0's coordination, as the protocol package computes it: building the
works of a branch set, validating a branch set against its documents, resolving the
join once every member has settled, and evaluating a branch set from the results that
have been recorded so far. A refusal is a `ValueError` with the message of the source.
-/

namespace Riverhog.Stove0

open Core

/-- `Mapping[str, ArtifactSelection]`. -/
abbrev SelectionDocuments := Digest → Option ArtifactSelection

/-- `Mapping[str, BranchSetPlan]`. -/
abbrev BranchSetDocuments := List (Digest × BranchSetPlan)

variable (d : Digests)

/-- `resolve_selection`. -/
def resolveSelection (reference : ArtifactSelectionRef) (selections : SelectionDocuments) :
    Py ArtifactSelection :=
  match selections reference.selectionSha256 with
  | none => .error (.valueError
      ("artifact selection is unavailable: " ++ String.ofList reference.selectionSha256))
  | some selection => do
    require (d.selection selection = reference.selectionSha256)
      (.valueError "selection document is stored under a mismatched digest")
    require (selection.artifactCount = reference.artifactCount
        ∧ selection.totalBytes = reference.totalBytes)
      (.valueError "selection reference summary does not match its document")
    return selection

/-! ## Building works and plans -/

/-- The validators of a workflow plan. -/
def WorkflowPlan.verify (plan : WorkflowPlan) : Py Unit := do
  require (uniqueOrdered (plan.observations.map fun e => d.observationRequest e.request))
    (.valueError "workflow observations must be unique and ordered by request id")
  require (plan.resultKind = .externalEffect → plan.retirementPolicy = .retain)
    (.valueError "external-effect workflow must retain source collections")
  require (plan.retirementPolicy = .retain → plan.retirementGraceSeconds = 0)
    (.valueError "retained workflow plans cannot declare a retirement grace period")
  require (plan.work.evaluation ≠ none → plan.retirementPolicy = .retain)
    (.valueError "evaluation and trial work must retain every source collection")

/-- `WorkflowPlanIntent.materialize`. -/
def WorkflowPlanIntent.materialize (intent : WorkflowPlanIntent) (work : WorkIdentity)
    (observations : List ObservationEvidence) : Py WorkflowPlan := do
  let plan : WorkflowPlan := { intent with work, observations }
  plan.verify d
  return plan

/-- The payload of a branch work, as `BranchPlan.build` and
`CoordinationBranchPlan.build_work` write it. -/
def branchPayload (parentWork : WorkIdentity) (branchId : Text) (decisionSha256 : Digest)
    (selection : ArtifactSelection) (recipe : RecipeRef) (effectiveIntent : Json) :
    WorkPayload where
  recipe := recipe
  inputs := selection.roots
  effectiveIntent := effectiveIntent
  evaluation := parentWork.evaluation
  forkJoin := some (.branch
    { parentWorkId := d.work parentWork
      branchId := branchId
      decisionSha256 := decisionSha256
      artifactSelectionSha256 := d.selection selection })

/-- `bind_child_work` of both kinds of branches, with the message for a mismatch. -/
def bindChildWork (work : WorkIdentity) (branchId : Text) (selection : ArtifactSelectionRef)
    (unbound mismatch : String) : Py Unit :=
  match work.branchBinding with
  | none => .error (.valueError unbound)
  | some binding => require
      (binding.branchId = branchId ∧ binding.artifactSelectionSha256 = selection.selectionSha256)
      (.valueError mismatch)

/-- The validators of a leaf branch. -/
def BranchPlan.verify (plan : BranchPlan) : Py Unit := do
  require (plan.workflowPlan.retirementPolicy = .retain)
    (.valueError "branch workflow plans must retain their source collections")
  bindChildWork plan.workflowPlan.work plan.branchId plan.artifactSelection
    "branch workflow work requires an explicit branch binding"
    "branch plan differs from its child work binding"

/-- The validators of a coordination branch. -/
def CoordinationBranchPlan.verify (plan : CoordinationBranchPlan) : Py Unit :=
  bindChildWork plan.work plan.branchId plan.artifactSelection
    "coordination branch work requires an explicit branch binding"
    "coordination branch differs from its child work binding"

/-- `BranchPlan.build`. -/
def BranchPlan.build (parentWork : WorkIdentity) (branchId : Text) (decisionSha256 : Digest)
    (selection : ArtifactSelection) (recipe : RecipeRef) (effectiveIntent : Json)
    (workflowIntent : WorkflowPlanIntent) (observations : List ObservationEvidence) :
    Py BranchPlan := do
  let childWork ← WorkIdentity.seal
    (branchPayload d parentWork branchId decisionSha256 selection recipe effectiveIntent)
  let workflowPlan ← workflowIntent.materialize d childWork observations
  let plan : BranchPlan := { branchId, artifactSelection := selection.ref d, workflowPlan }
  plan.verify
  return plan

/-- `CoordinationBranchPlan.build_work`. -/
def CoordinationBranchPlan.buildWork (parentWork : WorkIdentity) (branchId : Text)
    (decisionSha256 : Digest) (selection : ArtifactSelection) (recipe : RecipeRef)
    (effectiveIntent : Json) : Py WorkIdentity :=
  WorkIdentity.seal
    (branchPayload d parentWork branchId decisionSha256 selection recipe effectiveIntent)

/-! ## Validating a branch set -/

/-- The texts of a message, separated as `", ".join` does. -/
def commaSeparated (ids : List Text) : String := String.ofList (", ".toList.intercalate ids)

/-- The validators of a join member. -/
def JoinMemberDeclaration.verify (member : JoinMemberDeclaration) : Py Unit := do
  require (member.outputRoles ≠ []) tooShort
  require (uniqueOrdered member.outputRoles)
    (.valueError "join output roles must be unique and ordered")

/-- The validators of a join declaration and of its members. -/
def JoinDeclaration.verify (join : JoinDeclaration) : Py Unit := do
  join.members.forM JoinMemberDeclaration.verify
  require (2 ≤ join.members.length)
    (.valueError "Tuple should have at least 2 items after validation")
  require (uniqueOrdered (join.members.map (·.branchId)))
    (.valueError "join members must be unique and ordered by branch ID")
  require (join.workflowIntent.retirementPolicy = .retain)
    (.valueError "join workflow plans must retain every branch collection")
  require (join.workflowIntent.resultKind = .collection)
    (.valueError "a join must produce one derived collection")

/-- `_branch_plans(plan).get(branch_id)`. -/
def BranchSetPlan.branch (plan : BranchSetPlan) (branchId : Text) : Option BranchDeclaration :=
  plan.branches.find? fun branch => branch.branchId = branchId

/-- The validators of a join declaration inside a branch set. -/
def BranchSetPlan.verifyJoin (plan : BranchSetPlan) (join : JoinDeclaration) : Py Unit := do
  join.verify
  let unknown := (join.members.map (·.branchId)).filter fun id => plan.branch id = none
  require (unknown = [])
    (.valueError ("join references unknown branches: " ++ commaSeparated unknown))
  let effects := (join.members.map (·.branchId)).filter fun id =>
    (plan.branch id).any (·.isEffect)
  require (effects = []) (.valueError
    ("external-effect branches cannot be declared as join members: " ++ commaSeparated effects))

/-- The validator of a branch set on the binding of one branch. -/
def BranchSetPlan.verifyBranch (plan : BranchSetPlan) (branch : BranchDeclaration) : Py Unit :=
  match branch.work.branchBinding with
  | none => .error (.valueError "branch work is missing its branch binding")
  | some binding => require
      (binding.parentWorkId = d.work plan.parentWork ∧ binding.decisionSha256 = plan.decisionSha256)
      (.valueError "branch work differs from its parent decision")

/-- The validators of a branch by itself. -/
def BranchDeclaration.verify : BranchDeclaration → Py Unit
  | .leaf plan => do
    plan.workflowPlan.verify d
    plan.verify
  | .coordination plan => plan.verify

/-- The validators of a branch set. -/
def BranchSetPlan.verify (plan : BranchSetPlan) : Py Unit := do
  require (uniqueOrdered plan.evidenceSha256s)
    (.valueError "branch-set evidence identities must be unique and ordered")
  require (plan.branches ≠ []) tooShort
  plan.branches.forM (BranchDeclaration.verify d)
  require (uniqueOrdered (plan.branches.map (·.branchId)))
    (.valueError "branches must be unique and ordered by branch ID")
  require (!plan.parentWork.isJoin) (.valueError "join work cannot also be a coordination parent")
  require (plan.parentWork.branchBinding ≠ none → plan.retirementPolicy = .retain)
    (.valueError "nested coordination must retain its input collections")
  plan.branches.forM (plan.verifyBranch d)
  match plan.join with
  | none => pure ()
  | some join => plan.verifyJoin join
  require (plan.retirementPolicy = .retain ∨ ¬ plan.branches.any (·.isEffect))
    (.valueError "branch sets containing external effects must retain their sources")
  require (plan.parentWork.evaluation ≠ none → plan.retirementPolicy = .retain)
    (.valueError "evaluation-bound branch sets must retain their source collections")
  require (plan.retirementPolicy = .retain → plan.retirementGraceSeconds = 0)
    (.valueError "retained branch sets cannot declare a retirement grace period")

/-- `branch_result_kind`. -/
def branchResultKind (branch : BranchDeclaration) (branchSets : BranchSetDocuments) :
    Py ChildKind :=
  match branch with
  | .leaf plan => .ok (match plan.workflowPlan.resultKind with
    | .collection => .collection
    | .externalEffect => .externalEffect)
  | .coordination plan => match branchSets.lookup plan.branchSetSha256 with
    | none => .error (.valueError
        ("child branch-set document is unavailable: " ++ String.ofList plan.branchSetSha256))
    | some child => .ok (if child.join = none then .coordination else .collection)

/-- One round of `_plan_contains_effects`: `none` when a branch has an external effect,
else the stack with the child plans on it. -/
def pushChildPlans (branchSets : BranchSetDocuments) :
    List BranchDeclaration → List BranchSetPlan → Py (Option (List BranchSetPlan))
  | [], stack => .ok (some stack)
  | .leaf plan :: rest, stack =>
    if plan.workflowPlan.resultKind = .externalEffect then .ok none
    else pushChildPlans branchSets rest stack
  | .coordination plan :: rest, stack =>
    match branchSets.lookup plan.branchSetSha256 with
    | none => .error .keyError
    | some child => pushChildPlans branchSets rest (child :: stack)

/-- The loop of `_plan_contains_effects`. -/
def containsEffectsLoop (branchSets : BranchSetDocuments) : Nat → List BranchSetPlan → Py Bool
  | 0, _ => .error .diverges
  | _ + 1, [] => .ok false
  | fuel + 1, current :: stack => do
    match ← pushChildPlans branchSets current.branches stack with
    | none => return true
    | some stack => containsEffectsLoop branchSets fuel stack

/-- `_plan_contains_effects`. Documents without a cycle have no more paths than the
bound, so only a cycle exhausts it. -/
def planContainsEffects (root : BranchSetPlan) (branchSets : BranchSetDocuments) : Py Bool :=
  containsEffectsLoop branchSets
    ((1 + (branchSets.map (·.2.branches.length)).sum) ^ (branchSets.length + 1) + 1) [root]

/-- The check of `validate_branch_set_plan` on the binding of a branch. -/
def validateBinding (plan : BranchSetPlan) (branch : BranchDeclaration)
    (selection : ArtifactSelection) : Py Unit :=
  match branch.work.branchBinding with
  | none => .error (.valueError "branch work is missing its branch binding")
  | some binding => require
      (binding.parentWorkId = d.work plan.parentWork ∧ binding.branchId = branch.branchId
        ∧ binding.decisionSha256 = plan.decisionSha256
        ∧ binding.artifactSelectionSha256 = d.selection selection)
      (.valueError "branch work binding differs from the branch-set declaration")

/-- The check of `validate_branch_set_plan` on the child plan of a coordination branch. -/
def validateChild (branchSets : BranchSetDocuments) (branch : CoordinationBranchPlan) : Py Unit :=
  match branchSets.lookup branch.branchSetSha256 with
  | none => .error (.valueError
      ("child branch-set document is unavailable: " ++ String.ofList branch.branchSetSha256))
  | some child => require (child.parentWork = branch.work)
      (.valueError "coordination branch differs from its exact child plan")

/-- The checks of `validate_branch_set_plan` on one branch. -/
def validateBranch (plan : BranchSetPlan) (selections : SelectionDocuments)
    (branchSets : BranchSetDocuments) (branch : BranchDeclaration) : Py Unit := do
  let selection ← resolveSelection d branch.artifactSelection selections
  require (branch.work.inputs = selection.roots)
    (.valueError "branch work roots differ from its artifact selection")
  require (selection.roots.all fun root => root ∈ plan.parentWork.inputs)
    (.valueError "branch selection contains artifacts outside the parent work roots")
  validateBinding d plan branch selection
  match branch with
  | .leaf _ => pure ()
  | .coordination coordination => validateChild branchSets coordination

/-- The check of `validate_branch_set_plan` on the members of the join. -/
def validateMembers (plan : BranchSetPlan) (branchSets : BranchSetDocuments)
    (join : JoinDeclaration) : Py Unit := do
  let invalid ← join.members.filterM fun member =>
    match plan.branch member.branchId with
    | none => .error .keyError
    | some branch => (branchResultKind branch branchSets).map (· ≠ .collection)
  require (invalid = []) (.valueError ("join members require an exact collection result: "
      ++ commaSeparated (invalid.map (·.branchId))))

/-- The check of `validate_branch_set_plan` on a branch of a set that retires its
sources. -/
def validateRetiring (branchSets : BranchSetDocuments) : BranchDeclaration → Py Unit
  | .leaf plan => require (plan.workflowPlan.resultKind ≠ .externalEffect)
      (.valueError "branch sets containing external effects must retain sources")
  | .coordination plan => match branchSets.lookup plan.branchSetSha256 with
    | none => .error .keyError
    | some child => do
      require (!(← planContainsEffects child branchSets))
        (.valueError "branch sets containing nested effects must retain sources")

/-- `validate_branch_set_plan`. -/
def validateBranchSetPlan (plan : BranchSetPlan) (selections : SelectionDocuments)
    (documents : BranchSetDocuments) : Py Unit := do
  let branchSets := if documents = [] then [(d.branchSet plan, plan)] else documents
  plan.branches.forM (validateBranch d plan selections branchSets)
  match plan.join with
  | none => pure ()
  | some join => validateMembers plan branchSets join
  if plan.retirementPolicy ≠ .retain then
    plan.branches.forM (validateRetiring branchSets)

/-! ## Accepting results -/

/-- The results recorded for the branches of a set. -/
structure BranchResults where
  settlements : List BranchSettlement
  effects : List BranchEffectSettlement
  coordinations : List CoordinationSettlement
  outcomes : List BranchOutcome
  deriving DecidableEq

/-- The branch that a nested coordination settles. -/
def CoordinationSettlement.branchId? (settlement : CoordinationSettlement) : Option Text :=
  settlement.work.branchBinding.map (·.branchId)

/-- The collection that a coordination exposes to its parent. -/
def CoordinationSettlement.root? (settlement : CoordinationSettlement) :
    Option CollectionRootRef :=
  settlement.collectionResult.map (·.outputCollection)

/-- Every artifact of a selection lies in one collection. -/
def checkOutput (selections : SelectionDocuments) (reference : ArtifactSelectionRef)
    (collection : CollectionRootRef) (mismatch : String) : Py Unit := do
  let selection ← resolveSelection d reference selections
  require (selection.artifacts.all fun artifact => artifact.collection = collection)
    (.valueError mismatch)

/-- The checks of `_normalize_branch_results` on one collection settlement. -/
def checkSettlement (plan : BranchSetPlan) (selections : SelectionDocuments)
    (seen : List BranchSettlement) (settlement : BranchSettlement) : Py Unit :=
  match plan.branch settlement.branchId with
  | none => .error (.valueError
      ("settlement references unknown branch: " ++ String.ofList settlement.branchId))
  | some (.coordination _) => .error (.valueError
      "a collection settlement requires a collection-producing branch")
  | some (.leaf branch) => do
    require (branch.workflowPlan.resultKind = .collection)
      (.valueError "a collection settlement requires a collection-producing branch")
    require (settlement.branchId ∉ seen.map (·.branchId)) (.valueError
      ("duplicate settlement for branch: " ++ String.ofList settlement.branchId))
    require (settlement.workId = d.work branch.workflowPlan.work
        ∧ settlement.workflowPlanSha256 = d.workflowPlan branch.workflowPlan)
      (.valueError "branch settlement does not bind the declared workflow plan")
    checkOutput d selections settlement.outputSelection settlement.outputCollection
      "branch output selection differs from its output collection"
    require (settlement.outputCollection ∉ seen.map (·.outputCollection))
      (.valueError "two branches cannot settle to the same output collection root")

/-- The checks of `_normalize_branch_results` on one effect settlement. -/
def checkEffect (plan : BranchSetPlan) (settlements : List BranchSettlement)
    (seen : List BranchEffectSettlement) (settlement : BranchEffectSettlement) : Py Unit :=
  match plan.branch settlement.branchId with
  | none => .error (.valueError
      ("effect settlement references unknown branch: " ++ String.ofList settlement.branchId))
  | some (.coordination _) => .error (.valueError
      "an effect settlement requires an effect-producing branch")
  | some (.leaf branch) => do
    require (branch.workflowPlan.resultKind = .externalEffect)
      (.valueError "an effect settlement requires an effect-producing branch")
    require (settlement.branchId ∉ seen.map (·.branchId)
        ∧ settlement.branchId ∉ settlements.map (·.branchId)) (.valueError
      ("duplicate success settlement for branch: " ++ String.ofList settlement.branchId))
    require (settlement.workId = d.work branch.workflowPlan.work
        ∧ settlement.workflowPlanSha256 = d.workflowPlan branch.workflowPlan)
      (.valueError "branch effect settlement does not bind the declared workflow plan")

/-- The checks of `_normalize_branch_results` on the collection of a coordination. The
roots seen so far are those of the settlements and of the coordinations before it. -/
def checkResult (selections : SelectionDocuments) (settlements : List BranchSettlement)
    (seen : List CoordinationSettlement) : Option CollectionResult → Py Unit
  | none => .ok ()
  | some result => do
    checkOutput d selections result.outputSelection result.outputCollection
      "coordination output selection differs from its output collection"
    require (result.outputCollection ∉ settlements.map (·.outputCollection)
        ∧ some result.outputCollection ∉ seen.map (·.root?))
      (.valueError "two branches cannot expose the same output collection root")

/-- The checks of `_normalize_branch_results` on one coordination settlement. -/
def checkCoordination (plan : BranchSetPlan) (selections : SelectionDocuments)
    (settlements : List BranchSettlement) (effects : List BranchEffectSettlement)
    (seen : List CoordinationSettlement) (settlement : CoordinationSettlement) : Py Unit :=
  match settlement.branchId? with
  | none => .error (.valueError "a nested coordination settlement must be branch-bound")
  | some branchId => match plan.branch branchId with
    | none => .error (.valueError
        ("coordination settlement references unknown branch: " ++ String.ofList branchId))
    | some (.leaf _) => .error (.valueError
        "a coordination settlement requires a coordination branch")
    | some (.coordination branch) => do
      require (some branchId ∉ seen.map (·.branchId?)
          ∧ branchId ∉ settlements.map (·.branchId) ∧ branchId ∉ effects.map (·.branchId))
        (.valueError ("duplicate success settlement for branch: " ++ String.ofList branchId))
      require (settlement.work = branch.work ∧ settlement.branchSetSha256 = branch.branchSetSha256)
        (.valueError "coordination settlement does not bind the declared child plan")
      checkResult d selections settlements seen settlement.collectionResult

/-- The check of `_normalize_branch_results` on the binding of an outcome. -/
def checkOutcomeBinding (outcome : BranchOutcome) : BranchDeclaration → Py Unit
  | .leaf branch => require
      (outcome.workId = d.work branch.workflowPlan.work
        ∧ outcome.workflowPlanSha256 = some (d.workflowPlan branch.workflowPlan)
        ∧ outcome.branchSetSha256 = none)
      (.valueError "branch outcome does not bind the declared workflow plan")
  | .coordination branch => require
      (outcome.workId = d.work branch.work ∧ outcome.branchSetSha256 = some branch.branchSetSha256
        ∧ outcome.workflowPlanSha256 = none)
      (.valueError "branch outcome does not bind the declared coordination plan")

/-- The checks of `_normalize_branch_results` on one outcome. -/
def checkOutcome (plan : BranchSetPlan) (settlements : List BranchSettlement)
    (effects : List BranchEffectSettlement) (coordinations : List CoordinationSettlement)
    (seen : List BranchOutcome) (outcome : BranchOutcome) : Py Unit :=
  match plan.branch outcome.branchId with
  | none => .error (.valueError
      ("outcome references unknown branch: " ++ String.ofList outcome.branchId))
  | some branch => do
    require (outcome.branchId ∉ seen.map (·.branchId)) (.valueError
      ("duplicate outcome for branch: " ++ String.ofList outcome.branchId))
    require (outcome.branchId ∉ settlements.map (·.branchId)
        ∧ outcome.branchId ∉ effects.map (·.branchId)
        ∧ some outcome.branchId ∉ coordinations.map (·.branchId?))
      (.valueError "a branch cannot have both success settlement and terminal outcome")
    checkOutcomeBinding d outcome branch

/-- `_normalize_branch_results`. The dictionaries it returns have the results of one
kind in the order given, under distinct branches. -/
def normalizeBranchResults (plan : BranchSetPlan) (selections : SelectionDocuments)
    (results : BranchResults) : Py BranchResults := do
  let settlements ← accept (checkSettlement d plan selections) [] results.settlements
  let effects ← accept (checkEffect d plan settlements) [] results.effects
  let coordinations ← accept (checkCoordination d plan selections settlements effects) []
    results.coordinations
  let outcomes ← accept (checkOutcome d plan settlements effects coordinations) [] results.outcomes
  return { settlements, effects, coordinations, outcomes }

/-! ## Resolving the join -/

/-- `_join_member_selection`. -/
def joinMemberSelection (member : JoinMemberDeclaration) (outputSelection : ArtifactSelectionRef)
    (selections : SelectionDocuments) : Py ArtifactSelection := do
  let output ← resolveSelection d outputSelection selections
  let selected := output.artifacts.filter fun artifact => artifact.role ∈ member.outputRoles
  let missing := sortedBy id
    (member.outputRoles.dedup.filter fun role => role ∉ selected.map (·.role))
  require (missing = []) (.valueError
    ("branch " ++ String.ofList member.branchId ++ " output lacks declared join role(s): "
      ++ commaSeparated missing))
  ArtifactSelection.seal selected

/-- What a join reads of the result of one member. -/
structure MemberResult where
  settlementSha256 : Digest
  producerSettlementSha256 : Option Digest
  derivationSha256 : Digest
  outputCollection : CollectionRootRef
  outputSelection : ArtifactSelectionRef

/-- The result of a member in the accepted results: its settlement, else the collection
of its coordination. -/
def memberResult (results : BranchResults) (branchId : Text) : Py MemberResult :=
  match results.settlements.find? fun s => s.branchId = branchId with
  | some settlement => .ok
      { settlementSha256 := d.branchSettlement settlement
        producerSettlementSha256 := some settlement.producerSettlementSha256
        derivationSha256 := settlement.derivationSha256
        outputCollection := settlement.outputCollection
        outputSelection := settlement.outputSelection }
  | none => match results.coordinations.find? fun s => s.branchId? = some branchId with
    -- The assertion of the source: only members that were found are read.
    | none => .error .typeError
    | some coordination => match coordination.collectionResult with
      | none => .error (.valueError
          ("coordination branch " ++ String.ofList branchId ++ " has no collection result"))
      | some result => .ok
          { settlementSha256 := d.coordinationSettlement coordination
            producerSettlementSha256 := some result.joinSettlementSha256
            derivationSha256 := result.derivationSha256
            outputCollection := result.outputCollection
            outputSelection := result.outputSelection }

/-- One round of the loop of `resolve_join_plan`. -/
def joinInput (selections : SelectionDocuments) (results : BranchResults)
    (member : JoinMemberDeclaration) : Py (JoinInputPlan × ArtifactSelection) := do
  let result ← memberResult d results member.branchId
  let selection ← joinMemberSelection d member result.outputSelection selections
  return ({ branchId := member.branchId
            settlementSha256 := result.settlementSha256
            producerSettlementSha256 := result.producerSettlementSha256
            derivationSha256 := result.derivationSha256
            outputCollection := result.outputCollection
            artifactSelection := selection.ref d }, selection)

/-- The member binding of a join input. -/
def JoinInputPlan.binding (input : JoinInputPlan) : JoinWorkMemberBinding where
  branchId := input.branchId
  settlementSha256 := input.settlementSha256
  producerSettlementSha256 := input.producerSettlementSha256
  artifactSelectionSha256 := input.artifactSelection.selectionSha256

/-- The validators of a join plan. -/
def JoinPlan.verify (plan : JoinPlan) : Py Unit := do
  require (2 ≤ plan.inputs.length)
    (.valueError "Tuple should have at least 2 items after validation")
  require (uniqueOrdered (plan.inputs.map (·.branchId)))
    (.valueError "join inputs must be unique and ordered by branch ID")
  require (plan.workflowPlan.work = plan.work)
    (.valueError "join workflow plan does not bind the resolved join work")
  require (plan.workflowPlan.retirementPolicy = .retain)
    (.valueError "join workflow plan must retain branch collections")
  require (WorkflowPlanIntent.fromPlan plan.workflowPlan = plan.declaration.workflowIntent)
    (.valueError "join workflow plan differs from its declaration")
  require (plan.inputs.map (·.branchId) = plan.declaration.members.map (·.branchId))
    (.valueError "join inputs differ from the declared member set")
  match plan.work.forkJoin with
  | some (.join binding) =>
    require (binding.parentWorkId = plan.parentWorkId
        ∧ binding.branchSetSha256 = plan.branchSetSha256
        ∧ binding.members = plan.inputs.map (·.binding))
      (.valueError "join work binding differs from its exact inputs")
  | _ => throw (.valueError "join work requires an explicit join binding")
  require (plan.work.inputs = distinctRoots (plan.inputs.map (·.outputCollection)))
    (.valueError "join work roots differ from the resolved branch outputs")

/-- The payload of the join work over the inputs that were resolved. -/
def joinPayload (plan : BranchSetPlan) (join : JoinDeclaration) (inputs : List JoinInputPlan) :
    WorkPayload where
  recipe := join.recipe
  inputs := distinctRoots (inputs.map (·.outputCollection))
  effectiveIntent := join.effectiveIntent
  evaluation := none
  forkJoin := some (.join
    { parentWorkId := d.work plan.parentWork
      branchSetSha256 := d.branchSet plan
      members := inputs.map (·.binding) })

/-- The end of `resolve_join_plan`: the join plan over the inputs that were resolved. -/
def sealJoinPlan (plan : BranchSetPlan) (join : JoinDeclaration) (inputs : List JoinInputPlan) :
    Py JoinPlan := do
  let work ← WorkIdentity.seal (joinPayload d plan join inputs)
  let workflowPlan ← join.workflowIntent.materialize d work []
  let joinPlan : JoinPlan :=
    { parentWorkId := d.work plan.parentWork
      branchSetSha256 := d.branchSet plan
      declaration := join
      inputs := sortedBy (·.branchId) inputs
      work
      workflowPlan }
  joinPlan.verify
  return joinPlan

/-- `resolve_join_plan` once the results are accepted. -/
def resolveAccepted (plan : BranchSetPlan) (join : JoinDeclaration)
    (selections : SelectionDocuments) (results : BranchResults) :
    Py (Option (JoinPlan × List ArtifactSelection)) := do
  let effectMembers := sortedBy id ((join.members.map (·.branchId)).filter fun id =>
    id ∈ results.effects.map (·.branchId))
  require (effectMembers = []) (.valueError
    ("external-effect branches cannot be join inputs: " ++ commaSeparated effectMembers))
  if (join.members.map (·.branchId)).any fun id =>
      id ∉ results.settlements.map (·.branchId)
        ∧ some id ∉ results.coordinations.map (·.branchId?) then
    return none
  let resolved ← join.members.mapM (joinInput d selections results)
  let joinPlan ← sealJoinPlan d plan join (resolved.map (·.1))
  return some (joinPlan, resolved.map (·.2))

/-- `resolve_join_plan`. -/
def resolveJoinPlan (plan : BranchSetPlan) (selections : SelectionDocuments)
    (documents : BranchSetDocuments) (results : BranchResults) :
    Py (Option (JoinPlan × List ArtifactSelection)) := do
  validateBranchSetPlan d plan selections documents
  match plan.join with
  | none => return none
  | some join => do
    let accepted ← normalizeBranchResults d plan selections { results with outcomes := [] }
    resolveAccepted d plan join selections accepted

/-! ## Evaluating a branch set -/

/-- What has been recorded for the join. -/
structure JoinResults where
  settlement : Option JoinSettlement
  outcome : Option JoinOutcome
  deriving DecidableEq

/-- `_validate_join_result`. -/
def validateJoinResult (joinPlan : JoinPlan) (selections : SelectionDocuments)
    (results : BranchResults) (join : JoinResults) : Py Unit := do
  require (join.settlement = none ∨ join.outcome = none)
    (.valueError "join cannot have both success settlement and terminal outcome")
  match join.settlement with
  | none => pure ()
  | some settlement => do
    require (settlement.workId = d.work joinPlan.work
        ∧ settlement.workflowPlanSha256 = d.workflowPlan joinPlan.workflowPlan
        ∧ settlement.joinPlanSha256 = d.joinPlan joinPlan)
      (.valueError "join settlement does not bind the resolved join plan")
    checkOutput d selections settlement.outputSelection settlement.outputCollection
      "join output selection differs from its output collection"
    require (settlement.outputCollection ∉ results.settlements.map (·.outputCollection)
        ∧ some settlement.outputCollection ∉ results.coordinations.map (·.root?))
      (.valueError "join output must be an additional retained collection")
  match join.outcome with
  | none => pure ()
  | some outcome =>
    require (outcome.workId = d.work joinPlan.work
        ∧ outcome.workflowPlanSha256 = d.workflowPlan joinPlan.workflowPlan
        ∧ outcome.joinPlanSha256 = d.joinPlan joinPlan)
      (.valueError "join outcome does not bind the resolved join plan")

/-- The state that the results of a resolved join give it. -/
def JoinResults.state (join : JoinResults) : JoinState :=
  match join.settlement, join.outcome with
  | some _, _ => .succeeded
  | none, some outcome => .outcome outcome.state
  | none, none => .ready

/-- The part of `evaluate_branch_set` about the join: the resolved plan and the state. -/
def evaluateJoin (plan : BranchSetPlan) (selections : SelectionDocuments)
    (documents : BranchSetDocuments) (accepted : BranchResults) (join : JoinResults) :
    Py (Option JoinPlan × JoinState) :=
  match plan.join with
  | none => do
    require (join.settlement = none ∧ join.outcome = none)
      (.valueError "branch set has no join declaration")
    return (none, .notDeclared)
  | some _ => do
    match ← resolveJoinPlan d plan selections documents accepted with
    | none =>
      require (join.settlement = none ∧ join.outcome = none)
        (.valueError "join result exists before every named member succeeded")
      return (none, .waiting)
    | some (resolved, _) =>
      validateJoinResult d resolved selections accepted join
      return (some resolved, join.state)

/-- The reference of `CoordinationSettlement.seal` to a nested coordination. -/
def nestedReference (settlement : CoordinationSettlement) : Py ChildSettlementRef :=
  match settlement.branchId? with
  | none => .error (.valueError "a nested coordination settlement must be branch-bound")
  | some branchId => .ok (.mk branchId .coordination (d.coordinationSettlement settlement))

/-- The child references of `CoordinationSettlement.seal`. -/
def childReferences (results : BranchResults) : Py (List ChildSettlementRef) := do
  let nested ← results.coordinations.mapM (nestedReference d)
  return (results.settlements.map fun s =>
      ChildSettlementRef.mk s.branchId .collection (d.branchSettlement s))
    ++ (results.effects.map fun s =>
      ChildSettlementRef.mk s.branchId .externalEffect (d.effectSettlement s)) ++ nested

/-- `CoordinationSettlement.seal`. -/
def CoordinationSettlement.seal (plan : BranchSetPlan) (results : BranchResults)
    (join : Option JoinSettlement) : Py CoordinationSettlement := do
  let children ← childReferences d results
  let ordered := sortedBy (·.branchId) children
  require (ordered.map (·.branchId) = plan.branches.map (·.branchId))
    (.valueError "coordination settlement does not contain every exact child")
  require (plan.join = none ↔ join = none)
    (.valueError "coordination settlement differs from its declared final join")
  require (uniqueOrdered (ordered.map (·.branchId)))
    (.valueError "coordination child settlements must be unique and ordered")
  require (!plan.parentWork.isJoin)
    (.valueError "join work cannot produce a coordination settlement")
  return {
    work := plan.parentWork
    branchSetSha256 := d.branchSet plan
    children := ordered
    containsExternalEffects :=
      !results.effects.isEmpty || results.coordinations.any (·.containsExternalEffects)
    finalJoinSettlementSha256 := join.map d.joinSettlement
    collectionResult := join.map fun settlement =>
      { producerWorkId := settlement.workId
        joinSettlementSha256 := d.joinSettlement settlement
        derivationSha256 := settlement.derivationSha256
        outputCollection := settlement.outputCollection
        outputSelection := settlement.outputSelection } }

/-- The branches without a result, with the ones that were interrupted. -/
def unsettledBranchIds (plan : BranchSetPlan) (results : BranchResults) : List Text :=
  (plan.branches.map (·.branchId)).filter fun id =>
    id ∉ results.settlements.map (·.branchId) ∧ id ∉ results.effects.map (·.branchId)
      ∧ some id ∉ results.coordinations.map (·.branchId?)
      ∧ (id ∉ results.outcomes.map (·.branchId)
        ∨ ∃ outcome ∈ results.outcomes, outcome.branchId = id ∧ outcome.state = .interrupted)

/-- The branches with an outcome of one kind. -/
def branchIdsWith (state : OutcomeState) (plan : BranchSetPlan) (results : BranchResults) :
    List Text :=
  (plan.branches.map (·.branchId)).filter fun id =>
    ∃ outcome ∈ results.outcomes, outcome.branchId = id ∧ outcome.state = state

section

variable (plan : BranchSetPlan)

section

variable (results : BranchResults)

/-- `all_branches_succeeded`. -/
def allBranchesSucceeded : Bool :=
  results.settlements.length + results.effects.length + results.coordinations.length
    = plan.branches.length

/-- `branch_set_succeeded`. -/
def branchSetSucceeded (join : JoinResults) :
    Bool :=
  allBranchesSucceeded plan results && (plan.join = none || join.settlement ≠ none)

/-- The works that have not settled: of the branches, and of a join that is resolved. -/
def unsettledWorkIds (resolved : Option JoinPlan) (join : JoinResults) : List Digest :=
  let branches := (unsettledBranchIds plan results).filterMap fun id =>
    (plan.branch id).map fun branch => d.work branch.work
  let pending := resolved.filter fun _ =>
    join.settlement = none ∧ ∀ outcome ∈ join.outcome, outcome.state = .interrupted
  sortedBy id (branches ++ (pending.map fun joinPlan => d.work joinPlan.work).toList)

/-- The settlement of `evaluate_branch_set`: only a branch set that succeeded has one. -/
def sealSucceeded (join : JoinResults) :
    Py (Option CoordinationSettlement) :=
  if branchSetSucceeded plan results join then
    (CoordinationSettlement.seal d plan results join.settlement).map some
  else .ok none

end

/-- `evaluate_branch_set`. -/
def evaluateBranchSet (selections : SelectionDocuments)
    (documents : BranchSetDocuments) (results : BranchResults) (join : JoinResults) :
    Py BranchSetEvaluation := do
  validateBranchSetPlan d plan selections documents
  let accepted ← normalizeBranchResults d plan selections results
  let (resolved, joinState) ← evaluateJoin d plan selections documents accepted join
  let settlement ← sealSucceeded d plan accepted join
  let succeeded := branchSetSucceeded plan accepted join
  return {
    branchSetSha256 := d.branchSet plan
    succeededBranches := sortedBy (·.branchId) accepted.settlements
    succeededEffects := sortedBy (·.branchId) accepted.effects
    succeededCoordinations := sortedBy (fun s => s.branchId?.getD []) accepted.coordinations
    unsettledBranchIds := unsettledBranchIds plan accepted
    failedBranchIds := branchIdsWith .failed plan accepted
    inapplicableBranchIds := branchIdsWith .inapplicable plan accepted
    interruptedBranchIds := branchIdsWith .interrupted plan accepted
    canceledBranchIds := branchIdsWith .canceled plan accepted
    joinReady := resolved.isSome
    resolvedJoinPlan := resolved
    joinState
    joinSettlement := join.settlement
    unsettledWorkIds := unsettledWorkIds d plan accepted resolved join
    branchSetSucceeded := succeeded
    coordinationSettlement := settlement
    retirementRequested := plan.retirementPolicy = .retireAfterVerifiedOutput
    coordinationCompleteForRetirement :=
      succeeded && accepted.effects.isEmpty
        && !accepted.coordinations.any (·.containsExternalEffects) }

end

/-! ## Decisions -/

/-- `BranchSetDecision`: a branch set with its selections and its nested branch sets. -/
structure BranchSetDecision where
  plan : BranchSetPlan
  selections : List ArtifactSelection
  branchSets : List BranchSetPlan
  deriving DecidableEq

namespace BranchSetDecision

/-- `selection_documents`. -/
def selectionDocuments (decision : BranchSetDecision) : SelectionDocuments := fun digest =>
  decision.selections.find? fun selection => d.selection selection = digest

/-- The plans of a decision, the root first. -/
def plans (decision : BranchSetDecision) : List BranchSetPlan :=
  decision.plan :: decision.branchSets

/-- `branch_set_documents`. -/
def branchSetDocuments (decision : BranchSetDecision) : BranchSetDocuments :=
  decision.plans.map fun plan => (d.branchSet plan, plan)

end BranchSetDecision

/-- The digests of the nested branch sets that a branch set refers to. -/
def BranchSetPlan.childDigests (plan : BranchSetPlan) : List Digest :=
  plan.branches.filterMap fun
    | .leaf _ => none
    | .coordination branch => some branch.branchSetSha256

/-- The state of the loop of `_validate_branch_set_tree`. -/
structure TreeSearch where
  reachable : List Digest
  visiting : List Digest
  /-- The stack, its top first; a digest is left after its children. -/
  stack : List (Digest × Bool)

/-- The error for a cycle. -/
def coordinationCycle : PyError :=
  .valueError "branch-set documents contain a coordination cycle"

/-- The loop of `_validate_branch_set_tree`. -/
def treeSearchLoop (branchSets : BranchSetDocuments) : Nat → TreeSearch → Py (List Digest)
  | 0, _ => .error .diverges
  | fuel + 1, search => match search.stack with
    | [] => .ok search.reachable
    | (digest, true) :: stack => treeSearchLoop branchSets fuel
        { reachable := digest :: search.reachable
          visiting := search.visiting.filter (· ≠ digest)
          stack }
    | (digest, false) :: stack =>
      if digest ∈ search.reachable then treeSearchLoop branchSets fuel { search with stack }
      else if digest ∈ search.visiting then .error coordinationCycle
      else match branchSets.lookup digest with
        | none => .error (.valueError
            ("branch-set document is unavailable: " ++ String.ofList digest))
        | some plan =>
          let visiting := digest :: search.visiting
          if plan.childDigests.any (· ∈ visiting) then .error coordinationCycle
          else
            let children := plan.childDigests.filter (· ∉ search.reachable)
            treeSearchLoop branchSets fuel
              { search with
                visiting
                stack := children.map (·, false) ++ (digest, true) :: stack }

/-- `_validate_branch_set_tree`. A digest is entered once and pushed once for each
reference to it, which bounds the number of rounds. -/
def validateBranchSetTree (root : BranchSetPlan) (branchSets : BranchSetDocuments) : Py Unit := do
  let reachable ← treeSearchLoop branchSets
    (2 * branchSets.length + (branchSets.map (·.2.childDigests.length)).sum + 3)
    { reachable := [], visiting := [], stack := [(d.branchSet root, false)] }
  require ((branchSets.map (·.1)).all (· ∈ reachable))
    (.valueError "branch-set decision contains unreachable child documents")

/-- The validators of a decision, `complete_documents` last. -/
def BranchSetDecision.verify (decision : BranchSetDecision) : Py Unit := do
  decision.plans.forM (BranchSetPlan.verify d)
  require (uniqueOrdered (decision.selections.map d.selection))
    (.valueError "branch-set selections must be unique and ordered by digest")
  require (uniqueOrdered (decision.branchSets.map d.branchSet))
    (.valueError "child branch-set documents must be unique and ordered by digest")
  let referenced := decision.plans.flatMap fun plan =>
    plan.branches.map (·.artifactSelection.selectionSha256)
  require (referenced.dedup.Perm (decision.selections.map d.selection))
    (.valueError "branch-set decision must retain every exact selection once")
  let children := (decision.branchSets.map d.branchSet).filter (· ≠ d.branchSet decision.plan)
  require ((decision.plans.flatMap (·.childDigests)).dedup.Perm children)
    (.valueError "branch-set decision must retain every exact child plan once")
  let branchSets := decision.branchSetDocuments d
  validateBranchSetTree d decision.plan branchSets
  decision.plans.forM fun plan =>
    validateBranchSetPlan d plan (decision.selectionDocuments d) branchSets

end Riverhog.Stove0
