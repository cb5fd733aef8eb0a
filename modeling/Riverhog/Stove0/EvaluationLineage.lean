import Riverhog.Stove0.RetirementReadiness

/-!
# The evaluation binding of derived works

A work that belongs to a trial or an evaluation variant passes the binding on to the
branch works that are built from it. The work of a resolved join is sealed without a
binding, so the binding reaches a derived work exactly when no join lies on the way.
-/

namespace Riverhog.Stove0

open Core

variable {d : Digests}

/-- The constructors that derive one work from another. -/
inductive Derivation where
  /-- `BranchPlan.build`. -/
  | branch
  /-- `CoordinationBranchPlan.build_work`. -/
  | coordination
  /-- `resolve_join_plan`. -/
  | join
  deriving DecidableEq

/-- A work derived from a parent work by one constructor. -/
inductive DerivedBy (d : Digests) : Derivation → WorkIdentity → WorkIdentity → Prop
  | branch {parent : WorkIdentity} {branchId : Text} {decisionSha256 : Digest}
      {selection : ArtifactSelection} {recipe : RecipeRef} {effectiveIntent : Json}
      {workflowIntent : WorkflowPlanIntent} {observations : List ObservationEvidence}
      {plan : BranchPlan}
      (built : BranchPlan.build d parent branchId decisionSha256 selection recipe effectiveIntent
        workflowIntent observations = .ok plan) :
      DerivedBy d .branch parent plan.workflowPlan.work
  | coordination {parent : WorkIdentity} {branchId : Text} {decisionSha256 : Digest}
      {selection : ArtifactSelection} {recipe : RecipeRef} {effectiveIntent : Json}
      {work : WorkIdentity}
      (built : CoordinationBranchPlan.buildWork d parent branchId decisionSha256 selection recipe
        effectiveIntent = .ok work) :
      DerivedBy d .coordination parent work
  | join {plan : BranchSetPlan} {selections : SelectionDocuments}
      {documents : BranchSetDocuments} {results : BranchResults} {joinPlan : JoinPlan}
      {chosen : List ArtifactSelection}
      (resolved : resolveJoinPlan d plan selections documents results =
        .ok (some (joinPlan, chosen))) :
      DerivedBy d .join plan.parentWork joinPlan.work

/-- A work derived from another through any number of constructors. -/
inductive Derived (d : Digests) (root : WorkIdentity) : List Derivation → WorkIdentity → Prop
  | root : Derived d root [] root
  | step {path : List Derivation} {derivation : Derivation} {parent work : WorkIdentity}
      (before : Derived d root path parent) (last : DerivedBy d derivation parent work) :
      Derived d root (path ++ [derivation]) work

variable {parent : WorkIdentity}

/-- The work of a resolved join has no binding. -/
theorem resolveJoinPlan_evaluation {plan : BranchSetPlan} {selections : SelectionDocuments}
    {documents : BranchSetDocuments} {results : BranchResults} {joinPlan : JoinPlan}
    {chosen : List ArtifactSelection}
    (h : resolveJoinPlan d plan selections documents results = .ok (some (joinPlan, chosen))) :
    joinPlan.work.evaluation = none := by
  rw [resolveJoinPlan] at h
  obtain ⟨_, _, h⟩ := bind_eq_ok.1 h
  split at h
  · cases h
  · obtain ⟨accepted, _, h⟩ := bind_eq_ok.1 h
    obtain ⟨_, _, resolved, sealed, _, hseal, he⟩ := resolveAccepted_eq_some.1 h
    cases he
    simp only [sealJoinPlan, bind_eq_ok] at hseal
    obtain ⟨work, hwork, _, _, _, _, hout⟩ := hseal
    cases hout
    rw [WorkIdentity.seal_eq_ok] at hwork
    rw [hwork, joinPayload]

/-- One derivation passes the binding on, unless it resolves a join. -/
theorem DerivedBy.evaluation {derivation : Derivation} {work : WorkIdentity}
    (h : DerivedBy d derivation parent work) :
    work.evaluation = if derivation = .join then none else parent.evaluation := by
  cases h with
  | branch built =>
    simp only [BranchPlan.build, bind_eq_ok] at built
    obtain ⟨work, hwork, workflowPlan, hplan, _, _, hout⟩ := built
    cases hout
    simp only [WorkflowPlanIntent.materialize, bind_eq_ok] at hplan
    obtain ⟨_, _, hout⟩ := hplan
    cases hout
    rw [WorkIdentity.seal_eq_ok] at hwork
    rw [hwork, branchPayload, if_neg nofun]
  | coordination built =>
    rw [CoordinationBranchPlan.buildWork, WorkIdentity.seal_eq_ok] at built
    rw [built, branchPayload, if_neg nofun]
  | join resolved => exact resolveJoinPlan_evaluation resolved

/-- A derived work has the binding of the root, or none after a join. -/
theorem Derived.evaluation {root work : WorkIdentity} {path : List Derivation}
    (h : Derived d root path work) :
    work.evaluation = if .join ∈ path then none else root.evaluation := by
  induction h with
  | root => rfl
  | @step path derivation parent work _ last ih =>
    rw [last.evaluation, ih]
    by_cases hj : derivation = .join
    · simp [hj]
    · simp [hj, Ne.symm hj]

/-- A work derived from one that is bound to an evaluation variant carries the same binding
exactly when no join was resolved on the way. -/
theorem derived_evaluation_iff {root work : WorkIdentity} {binding : EvaluationBinding}
    {path : List Derivation} (hroot : root.evaluation = some binding)
    (h : Derived d root path work) : work.evaluation = some binding ↔ .join ∉ path := by
  rw [h.evaluation, hroot]
  split <;> simp_all

namespace Sample

/-- A variant of an evaluation. -/
def variant : EvaluationBinding := ⟨['e'], ['m'], ['v'], .obj []⟩

end Sample

open Sample in
/-- The join of two branches of a work in an evaluation is not in the evaluation. -/
theorem derived_evaluation_lost :
    ∃ work, Derived labelDigests (nestedWork (some variant)) [.join] work ∧
      (nestedWork (some variant)).evaluation = some variant ∧ work.evaluation = none := by
  obtain ⟨resolution, hresolved, hsome⟩ := exists_ok_of_elim
    (x := resolveJoinPlan labelDigests (nestedPlan (some variant)) selections []
      nestedInputs.results) (p := fun r => r.isSome) (by decide)
  obtain ⟨⟨joinPlan, chosen⟩, rfl⟩ := Option.isSome_iff_exists.1 hsome
  exact ⟨joinPlan.work, .step .root (.join hresolved), rfl, resolveJoinPlan_evaluation hresolved⟩

open Sample in
/-- A branch of a coordination of a work in an evaluation is in the evaluation. -/
theorem derived_evaluation_branch :
    ∃ coordination leaf,
      Derived labelDigests (work (some variant) ['w'] none) [.coordination, .branch] leaf ∧
        Derived labelDigests (work (some variant) ['w'] none) [.coordination] coordination ∧
          leaf.evaluation = some variant := by
  have hc : CoordinationBranchPlan.buildWork labelDigests (work (some variant) ['w'] none) ['c']
      ['D'] (selectOne input) ⟨['c'], 1, ['h']⟩ (.obj []) = .ok (nestedWork (some variant)) := by
    rw [CoordinationBranchPlan.buildWork, WorkIdentity.seal_eq_ok]
    decide
  obtain ⟨plan, hplan, _⟩ := exists_ok_of_elim
    (x := BranchPlan.build labelDigests (nestedWork (some variant)) ['x'] ['E'] (selectOne input)
      ⟨['x'], 1, ['h']⟩ (.obj []) intent []) (p := fun _ => true) (by decide)
  have hleaf : Derived labelDigests (work (some variant) ['w'] none) [.coordination, .branch]
      plan.workflowPlan.work := .step (.step .root (.coordination hc)) (.branch hplan)
  exact ⟨_, _, hleaf, .step .root (.coordination hc),
    (derived_evaluation_iff rfl hleaf).2 (by decide)⟩

end Riverhog.Stove0
