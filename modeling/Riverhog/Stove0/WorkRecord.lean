import Riverhog.Stove0.TargetProtocol

/-!
# Work records

The durable record of one work and the relationships between its fields that every stored
record satisfies.
-/

namespace Riverhog.Stove0

open Core

/-- `WorkPhase`. -/
inductive WorkPhase where
  | eligible | claimed | observing | planning | targetPreflight | queued | executing
  | outputFinalizing | verifying | settled | retirementPending | coordinating | abandonPending
  | complete | inapplicable | failed | canceled
  deriving DecidableEq

/-- The name of a phase. -/
def WorkPhase.name : WorkPhase → String
  | eligible => "eligible"
  | claimed => "claimed"
  | observing => "observing"
  | planning => "planning"
  | targetPreflight => "target_preflight"
  | queued => "queued"
  | executing => "executing"
  | outputFinalizing => "output_finalizing"
  | verifying => "verifying"
  | settled => "settled"
  | retirementPending => "retirement_pending"
  | coordinating => "coordinating"
  | abandonPending => "abandon_pending"
  | complete => "complete"
  | inapplicable => "inapplicable"
  | failed => "failed"
  | canceled => "canceled"

/-- `AbandonOutcome`. -/
inductive AbandonOutcome where
  | inapplicable | failed | canceled
  deriving DecidableEq

/-- The terminal phase of an abandoned work. -/
def AbandonOutcome.phase : AbandonOutcome → WorkPhase
  | inapplicable => .inapplicable
  | failed => .failed
  | canceled => .canceled

/-- `ClaimBinding`. -/
structure ClaimBinding where
  claimId : Text
  fence : Nat
  deriving DecidableEq

/-- `PreviewTargetExpectation`. -/
structure PreviewTargetExpectation where
  branchId : Text
  workId : Digest
  planSha256 : Digest
  deriving DecidableEq

/-- `PreviewAcceptance`. -/
structure PreviewAcceptance where
  previewSha256 : Digest
  branchSetSha256 : Digest
  targetPlans : List PreviewTargetExpectation
  deriving DecidableEq

/-- `WorkRecord`. -/
structure WorkRecord where
  work : WorkIdentity
  phase : WorkPhase := .eligible
  revision : Nat := 1
  claim : Option ClaimBinding := none
  previewAcceptance : Option PreviewAcceptance := none
  expectedTargetPlanSha256 : Option Digest := none
  observationRequests : List ObservationRequest := []
  observationResults : List ObservationResult := []
  branchSetPlan : Option BranchSetPlan := none
  coordinationSettlement : Option CoordinationSettlement := none
  joinPlan : Option JoinPlan := none
  coordinationCancelRequested : Bool := false
  workflowPlan : Option WorkflowPlan := none
  targetPlan : Option TargetPlan := none
  controllerEvidence : Option ControllerEvidence := none
  targetRequest : Option AcceptedTargetJob := none
  targetStatus : Option TargetJobStatus := none
  output : Option OutputCollectionRef := none
  targetSettlement : Option TargetSettlementAuthority := none
  retirementRemaining : List Nat := []
  failure : Option Failure := none
  inapplicable : Option Outcome := none
  abandonOutcome : Option AbandonOutcome := none
  deriving DecidableEq

/-! ## Shape -/

namespace WorkRecord

variable (d : Digests) (record : WorkRecord)

/-- The phase is a failure: `failed`, or the abandonment of a failure. -/
def failurePhase : Bool :=
  record.phase = .failed ∨ (record.phase = .abandonPending ∧ record.abandonOutcome = some .failed)

/-- The phase is an inapplicable outcome, or the abandonment of one. -/
def inapplicablePhase : Bool :=
  record.phase = .inapplicable
    ∨ (record.phase = .abandonPending ∧ record.abandonOutcome = some .inapplicable)

/-- The checks of the claim and of the output against the phase. -/
def verifyClaim : Py Unit := do
  require (record.phase ≠ .eligible ∨ record.claim.isNone)
    (.valueError "eligible work cannot already hold a claim")
  require (record.phase ∈ [.eligible, .failed, .canceled, .inapplicable] ∨ record.claim.isSome)
    (.valueError "active work phases require a claim")
  require (record.output.isNone ∨ record.phase ∈
      [.verifying, .settled, .retirementPending, .abandonPending, .complete])
    (.valueError "output identity appears before verification")
  require
    (record.phase ∉ [.abandonPending, .failed, .canceled, .inapplicable] ∨ record.output.isNone)
    (.valueError "non-success terminal work cannot contain an output")

/-- The checks of the failure, the inapplicable outcome and the abandonment. -/
def verifyOutcome : Py Unit := do
  require (!record.failurePhase || record.failure.isSome)
    (.valueError "failed work requires failure details")
  require (record.failurePhase || record.failure.isNone)
    (.valueError "only failed work may retain failure details")
  require (!record.inapplicablePhase || record.inapplicable.isSome)
    (.valueError "inapplicable work requires a terminal outcome")
  require (record.inapplicablePhase || record.inapplicable.isNone)
    (.valueError "only inapplicable work may retain that outcome")
  require (record.phase ≠ .abandonPending ∨ record.abandonOutcome.isSome)
    (.valueError "abandon_pending work requires a terminal outcome")
  require (record.phase = .abandonPending ∨ record.abandonOutcome.isNone)
    (.valueError "only abandon_pending work may retain an abandon outcome")
  require (record.retirementRemaining = [] ∨ record.phase = .retirementPending)
    (.valueError "retirement work must remain in retirement_pending")

/-- The checks of a branch set against the work and the phase. -/
def verifyBranchSet (plan : BranchSetPlan) : Py Unit := do
  require (plan.parentWork = record.work)
    (.valueError "branch-set plan differs from its parent work record")
  require (record.workflowPlan.isNone ∧ !record.work.isJoin)
    (.valueError "coordination parents cannot also be target work")
  require (record.phase ∈ [.eligible, .claimed, .coordinating, .retirementPending, .complete,
      .abandonPending, .canceled, .failed, .inapplicable])
    (.valueError "branch-set plan appears in an invalid coordination phase")

/-- The check of a recorded coordination settlement. -/
def verifySettlement (settlement : CoordinationSettlement) : Py Unit :=
  require ((record.branchSetPlan.any fun plan => settlement.branchSetSha256 = d.branchSet plan)
      ∧ settlement.work = record.work
      ∧ record.phase ∈ [.claimed, .coordinating, .retirementPending, .complete])
    (.valueError "coordination settlement differs from its durable coordinator")

/-- The checks of an accepted preview. -/
def verifyPreview (acceptance : PreviewAcceptance) : Py Unit := do
  require record.work.forkJoin.isNone
    (.valueError "only parent work may retain a preview acceptance")
  require (record.branchSetPlan.all fun plan => d.branchSet plan = acceptance.branchSetSha256)
    (.valueError "admitted branch set differs from the accepted preview")

/-- The checks of the plans of a coordinator and of a target work. -/
def verifyPlans : Py Unit := do
  record.branchSetPlan.forM record.verifyBranchSet
  record.coordinationSettlement.forM (record.verifySettlement d)
  record.previewAcceptance.forM (record.verifyPreview d)
  require (record.expectedTargetPlanSha256.isNone ∨ record.workflowPlan.isSome)
    (.valueError "a target-plan expectation requires ordinary target work")
  require
    (record.joinPlan.all fun join =>
      record.branchSetPlan.any fun plan => join.branchSetSha256 = d.branchSet plan)
    (.valueError "resolved join plan differs from its branch set")
  require (record.phase ≠ .coordinating ∨ record.branchSetPlan.isSome)
    (.valueError "coordinating work requires an immutable branch-set plan")
  require (!record.coordinationCancelRequested ∨ (record.branchSetPlan.isSome ∧ record.phase ∈
      [.eligible, .claimed, .coordinating, .abandonPending, .canceled]))
    (.valueError "coordination cancellation belongs only to a branch-set parent")
  require (record.workflowPlan.all fun plan => plan.work = record.work)
    (.valueError "workflow plan differs from its ordinary work record")

/-- `validate_work_state_shape`. -/
def validateWorkStateShape : Py Unit := do
  record.verifyClaim
  record.verifyOutcome
  record.verifyPlans d

/-- `WorkRecord.validate_shape`. -/
def validateShape : Py Unit := do
  require
    (record.targetSettlement.all fun settlement => record.output = some settlement.outputCollection)
    (.valueError "work settlement differs from its output collection")
  require (record.output.isNone ∨ record.phase ∉ [.settled, .retirementPending, .complete]
      ∨ record.targetSettlement.isSome)
    (.valueError "settled collection work requires post-root target settlement")
  record.validateWorkStateShape d

/-- The relationships that `validate_shape` checks, as facts about the record. -/
structure Shaped : Prop where
  settlementOutput : ∀ settlement, record.targetSettlement = some settlement →
    record.output = some settlement.outputCollection
  outputSettled : record.output = none ∨ record.phase ∉ [.settled, .retirementPending, .complete]
    ∨ record.targetSettlement.isSome = true
  unclaimed : record.phase ≠ .eligible ∨ record.claim = none
  claimed : record.phase ∈ [.eligible, .failed, .canceled, .inapplicable]
    ∨ record.claim.isSome = true
  outputPhase : record.output = none ∨ record.phase ∈
    [.verifying, .settled, .retirementPending, .abandonPending, .complete]
  noOutput : record.phase ∉ [.abandonPending, .failed, .canceled, .inapplicable]
    ∨ record.output = none
  failure : record.failurePhase = record.failure.isSome
  inapplicable : record.inapplicablePhase = record.inapplicable.isSome
  abandon : record.phase = .abandonPending ↔ record.abandonOutcome.isSome = true
  retirement : record.retirementRemaining = [] ∨ record.phase = .retirementPending
  branchSet : ∀ plan, record.branchSetPlan = some plan →
    plan.parentWork = record.work ∧ record.workflowPlan = none ∧ record.work.isJoin = false
      ∧ record.phase ∈ [.eligible, .claimed, .coordinating, .retirementPending, .complete,
        .abandonPending, .canceled, .failed, .inapplicable]
  settlement : ∀ settlement, record.coordinationSettlement = some settlement →
    (∃ plan, record.branchSetPlan = some plan ∧ settlement.branchSetSha256 = d.branchSet plan)
      ∧ settlement.work = record.work
      ∧ record.phase ∈ [.claimed, .coordinating, .retirementPending, .complete]
  preview : ∀ acceptance, record.previewAcceptance = some acceptance →
    record.work.forkJoin = none ∧ ∀ plan, record.branchSetPlan = some plan →
      d.branchSet plan = acceptance.branchSetSha256
  expectation : record.expectedTargetPlanSha256 = none ∨ record.workflowPlan.isSome = true
  join : ∀ join, record.joinPlan = some join →
    ∃ plan, record.branchSetPlan = some plan ∧ join.branchSetSha256 = d.branchSet plan
  coordinating : record.phase ≠ .coordinating ∨ record.branchSetPlan.isSome = true
  cancel : record.coordinationCancelRequested = false ∨ (record.branchSetPlan.isSome = true ∧
    record.phase ∈ [.eligible, .claimed, .coordinating, .abandonPending, .canceled])
  workflow : ∀ plan, record.workflowPlan = some plan → plan.work = record.work

variable {d record} {α : Type} {o : Option α}

theorem option_forM_eq_ok {check : α → Py Unit} {u : Unit} :
    o.forM check = .ok u ↔ ∀ a, o = some a → check a = .ok () := by
  cases o with
  | none => simp [Option.forM, pure, Except.pure]
  | some a => simp [Option.forM]

/-- The two checks that keep a phase and an optional field together. -/
theorem present_iff {p : Prop} [Decidable p] :
    ((¬p ∨ o.isSome = true) ∧ (p ∨ o = none)) ↔ (p ↔ o.isSome = true) := by
  cases o <;> by_cases p <;> simp_all

theorem present_eq_iff {b : Bool} :
    ((b = false ∨ o.isSome = true) ∧ (b = true ∨ o = none)) ↔ b = o.isSome := by
  cases o <;> cases b <;> simp

/-- A record is valid exactly when the checked relationships hold. -/
theorem validateShape_eq_ok : record.validateShape d = .ok () ↔ record.Shaped d := by
  simp only [validateShape, validateWorkStateShape, verifyClaim, verifyOutcome, verifyPlans,
    verifyBranchSet, verifySettlement, verifyPreview, bind_eq_ok, require_eq_ok,
    option_forM_eq_ok, decide_eq_true_eq, exists_const, Option.all_eq_true, Option.any_eq_true,
    Option.isNone_iff_eq_none, Bool.or_eq_true, Bool.not_eq_true', and_assoc]
  constructor
  · rintro ⟨h₁, h₂, h₃, h₄, h₅, h₆, hf, hf', hi, hi', ha, ha', h₇, h₈, h₉, h₁₀, h₁₁, h₁₂, h₁₃,
      h₁₄, h₁₅⟩
    exact ⟨h₁, h₂, h₃, h₄, h₅, h₆, present_eq_iff.1 ⟨hf, hf'⟩, present_eq_iff.1 ⟨hi, hi'⟩,
      present_iff.1 ⟨ha, ha'⟩, h₇, h₈, h₉, h₁₀, h₁₁, h₁₂, h₁₃, h₁₄, h₁₅⟩
  · rintro ⟨h₁, h₂, h₃, h₄, h₅, h₆, hf, hi, ha, h₇, h₈, h₉, h₁₀, h₁₁, h₁₂, h₁₃, h₁₄, h₁₅⟩
    obtain ⟨hf, hf'⟩ := present_eq_iff.2 hf
    obtain ⟨hi, hi'⟩ := present_eq_iff.2 hi
    obtain ⟨ha, ha'⟩ := present_iff.2 ha
    exact ⟨h₁, h₂, h₃, h₄, h₅, h₆, hf, hf', hi, hi', ha, ha', h₇, h₈, h₉, h₁₀, h₁₁, h₁₂, h₁₃,
      h₁₄, h₁₅⟩

end WorkRecord

end Riverhog.Stove0
