import Riverhog.Core.Json
import Mathlib.Data.List.Dedup
import Mathlib.Data.Prod.Lex

/-!
# Sealed documents of stove0

The works, observations and workflow plans of the stove0 protocol. Each of them is
sealed: it carries the SHA-256 of its canonical JSON, and a value whose digest differs
from its payload cannot be built. A digest is therefore a function of the payload and
is not kept as a field. The canonical JSON of a document is written by `pydantic` and
`rfc8785`, so the digests are a parameter, one function for each kind of document.

JSON values are taken in canonical form: the members of an object are in the order of
their names. Field patterns and length limits belong to the field types and are not
checked again.
-/

namespace Riverhog.Stove0

open Core

/-- A lower-case hexadecimal SHA-256. -/
abbrev Digest := Text

/-! ## Validators -/

/-- Run a validator and keep its success with the value. -/
def validated {α : Type} (check : α → Py Unit) (a : α) : Py {a // check a = .ok ()} :=
  match h : check a with
  | .ok () => .ok ⟨a, h⟩
  | .error e => .error e

/-- A validator returns exactly the value it was given. -/
theorem validated_eq_ok {α : Type} {check : α → Py Unit} {a : α} {v : {a // check a = .ok ()}} :
    validated check a = .ok v ↔ v.1 = a := by
  rw [validated]
  split
  · rw [Except.ok.injEq]
    exact ⟨fun h => h ▸ rfl, fun h => Subtype.ext h.symm⟩
  · rename_i e he
    refine ⟨nofun, fun h => ?_⟩
    have hv := v.2
    rw [h, he] at hv
    cases hv

/-- `ids == sorted(ids) and len(ids) == len(set(ids))`. -/
def uniqueOrdered {κ : Type} [LinearOrder κ] (ids : List κ) : Bool :=
  ids = sortedBy id ids ∧ ids.length = ids.dedup.length

/-- Unique and ordered identifiers are strictly increasing. -/
theorem uniqueOrdered_iff {κ : Type} [LinearOrder κ] {ids : List κ} :
    uniqueOrdered ids = true ↔ ids.Pairwise (· < ·) := by
  rw [uniqueOrdered, decide_eq_true_iff, eq_comm, sortedBy_eq_self_iff]
  constructor
  · rintro ⟨hle, hlen⟩
    have hn : ids.Nodup :=
      List.dedup_eq_self.1 ((List.dedup_sublist ids).eq_of_length hlen.symm)
    exact hle.imp₂ (fun _ _ h hne => lt_of_le_of_ne h hne) hn
  · intro hlt
    have hn : ids.Nodup := hlt.imp fun h => h.ne
    exact ⟨hlt.imp fun h => h.le, by rw [hn.dedup]⟩

/-- `pydantic`'s error for a sequence without items. -/
def tooShort : PyError := .valueError "Tuple should have at least 1 item after validation, not 0"

/-! ## Works -/

/-- `CollectionRootRef`. -/
structure CollectionRootRef where
  collectionId : Nat
  archiveRootSha256 : Digest
  contentIdentity : Digest
  deriving DecidableEq

/-- `_root_key`. -/
def rootKey (root : CollectionRootRef) : Nat ×ₗ Text ×ₗ Text :=
  toLex (root.collectionId, toLex (root.archiveRootSha256, root.contentIdentity))

/-- `tuple(sorted(set(roots), key=_root_key))`. -/
def distinctRoots (roots : List CollectionRootRef) : List CollectionRootRef :=
  sortedBy rootKey roots.dedup

/-- `RecipeRef`. -/
structure RecipeRef where
  id : Text
  revision : Nat
  sha256 : Digest
  deriving DecidableEq

/-- `OperationRef`. -/
structure OperationRef where
  id : Text
  sha256 : Digest
  deriving DecidableEq

/-- `ArtifactSubject`: one file of a collection under a role. -/
structure ArtifactSubject where
  id : Text
  role : Text
  collection : CollectionRootRef
  path : Text
  bytes : Nat
  sha256 : Digest
  mediaType : Option Text
  deriving DecidableEq

/-- `BranchWorkBinding`: the parent decision that a branch work comes from. -/
structure BranchWorkBinding where
  parentWorkId : Digest
  branchId : Text
  decisionSha256 : Digest
  artifactSelectionSha256 : Digest
  deriving DecidableEq

/-- `JoinWorkMemberBinding`: one branch result that a join work reads. -/
structure JoinWorkMemberBinding where
  branchId : Text
  settlementSha256 : Digest
  producerSettlementSha256 : Option Digest
  artifactSelectionSha256 : Digest
  deriving DecidableEq

/-- `JoinWorkBinding`: the branch set that a join work comes from. -/
structure JoinWorkBinding where
  parentWorkId : Digest
  branchSetSha256 : Digest
  members : List JoinWorkMemberBinding
  deriving DecidableEq

/-- `JoinWorkBinding.canonical_members`. -/
def JoinWorkBinding.verify (binding : JoinWorkBinding) : Py Unit := do
  require (2 ≤ binding.members.length)
    (.valueError "Tuple should have at least 2 items after validation")
  require (uniqueOrdered (binding.members.map (·.branchId)))
    (.valueError "join work members must be unique and ordered by branch ID")

/-- `ForkJoinBinding`. -/
inductive ForkJoinBinding where
  | branch (binding : BranchWorkBinding)
  | join (binding : JoinWorkBinding)
  deriving DecidableEq

/-- `EvaluationBinding`: the trial or evaluation variant that a work belongs to. -/
structure EvaluationBinding where
  evaluationId : Digest
  matrixSha256 : Digest
  variantId : Text
  parameters : Json
  deriving DecidableEq

/-- `WorkPayload`. -/
structure WorkPayload where
  recipe : RecipeRef
  inputs : List CollectionRootRef
  effectiveIntent : Json
  evaluation : Option EvaluationBinding
  forkJoin : Option ForkJoinBinding
  deriving DecidableEq

/-- The validators of a work payload and of the binding in it. -/
def WorkPayload.verify (payload : WorkPayload) : Py Unit := do
  require (payload.inputs ≠ []) tooShort
  require
    (payload.inputs = sortedBy (fun r => toLex (r.collectionId, r.archiveRootSha256)) payload.inputs
      ∧ payload.inputs.length = (payload.inputs.map (·.collectionId)).dedup.length)
    (.valueError "work inputs must be unique and canonically ordered")
  match payload.forkJoin with
  | some (.join binding) => binding.verify
  | _ => .ok ()

/-- `WorkIdentity`: a sealed work. -/
structure WorkIdentity extends WorkPayload where
  valid : toWorkPayload.verify = .ok ()
  deriving DecidableEq

/-- `WorkIdentity.seal`. -/
def WorkIdentity.seal (payload : WorkPayload) : Py WorkIdentity :=
  (validated WorkPayload.verify payload).map fun p => ⟨p.1, p.2⟩

/-- The branch binding of a work, if it has one. -/
def WorkPayload.branchBinding (work : WorkPayload) : Option BranchWorkBinding :=
  match work.forkJoin with
  | some (.branch binding) => some binding
  | _ => none

/-- `isinstance(work.fork_join, JoinWorkBinding)`. -/
def WorkPayload.isJoin (work : WorkPayload) : Bool :=
  match work.forkJoin with
  | some (.join _) => true
  | _ => false

/-- A seal returns the work with the payload it was given. -/
theorem WorkIdentity.seal_eq_ok {payload : WorkPayload} {work : WorkIdentity} :
    WorkIdentity.seal payload = .ok work ↔ work.toWorkPayload = payload := by
  rw [WorkIdentity.seal]
  constructor
  · intro h
    cases hv : validated WorkPayload.verify payload with
    | error e =>
      rw [hv] at h
      cases h
    | ok v =>
      rw [hv] at h
      cases h
      exact validated_eq_ok.1 hv
  · rintro rfl
    rw [(validated_eq_ok (v := ⟨work.toWorkPayload, work.valid⟩)).2 rfl]
    rfl

/-! ## Observations -/

/-- `RetrievalPolicy`. -/
inductive RetrievalPolicy where
  | availableOnly | allow
  deriving DecidableEq

/-- `RetirementPolicy`. -/
inductive RetirementPolicy where
  | retain | retireAfterVerifiedOutput
  deriving DecidableEq

/-- `OperationResultKind`. -/
inductive ResultKind where
  | collection | externalEffect
  deriving DecidableEq

/-- `ObservationRequest`. -/
structure ObservationRequest where
  workId : Digest
  observerRegistrationId : Text
  observerDescriptorSha256 : Digest
  observerContractId : Text
  observerContractSha256 : Digest
  subjects : List ArtifactSubject
  options : Json
  timeoutSeconds : Nat
  maximumResultBytes : Nat
  retrievalPolicy : RetrievalPolicy
  deriving DecidableEq

/-- The code and the message of an outcome that is not a success. -/
structure Outcome where
  code : Text
  message : Text
  deriving DecidableEq

/-- `ObservationFailure`, `TargetFailure` and `WorkFailure`. -/
structure Failure extends Outcome where
  retryable : Bool
  deriving DecidableEq

/-- The state of an observation result with the data that the state requires. -/
inductive ObservationState where
  /-- `observed`, with the facts. -/
  | observed (facts : Json)
  /-- `inapplicable`, with the outcome. -/
  | inapplicable (outcome : Outcome)
  /-- `failed`, with the failure. -/
  | failed (failure : Failure)
  /-- `canceled`. -/
  | canceled
  deriving DecidableEq

/-- `ObservationResult`. -/
structure ObservationResult where
  requestId : Digest
  state : ObservationState
  observerDescriptorSha256 : Digest
  observerContractId : Text
  observerContractSha256 : Digest
  subjects : List ArtifactSubject
  deriving DecidableEq

/-- `ObservationEvidence`: a request with the result that was accepted for it. -/
structure ObservationEvidence where
  request : ObservationRequest
  result : ObservationResult
  deriving DecidableEq

/-! ## Workflow plans -/

/-- `WorkflowPlanIntent`: the fields of a workflow plan that do not depend on a work. -/
structure WorkflowPlanIntent where
  operation : OperationRef
  resultKind : ResultKind
  targetRegistrationId : Text
  targetContractSha256 : Digest
  requestedTargetOptions : Json
  inputRetrievalPolicy : RetrievalPolicy
  retirementPolicy : RetirementPolicy
  retirementGraceSeconds : Nat
  outputPolicy : Json
  deriving DecidableEq

/-- `WorkflowPlan`. -/
structure WorkflowPlan extends WorkflowPlanIntent where
  work : WorkIdentity
  observations : List ObservationEvidence
  deriving DecidableEq

/-- `WorkflowPlanIntent.from_plan`. -/
def WorkflowPlanIntent.fromPlan (plan : WorkflowPlan) : WorkflowPlanIntent :=
  plan.toWorkflowPlanIntent

end Riverhog.Stove0
