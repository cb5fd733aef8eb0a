import Riverhog.Core.Table
import Riverhog.Stove0.Acceptance

/-!
# Join resolution and evaluation

What a resolved join has read of its members' results, and what an evaluation is made of.
-/

namespace Riverhog.Stove0

open Core

variable {d : Digests} {plan : BranchSetPlan} {selections : SelectionDocuments}
  {documents : BranchSetDocuments} {a : BranchResults}

/-! ## Resolving the join -/

/-- A member with a result, as `resolve_join_plan` tests it. -/
def HasResult (results : BranchResults) (branchId : Text) : Prop :=
  branchId ∈ results.settlements.map (·.branchId) ∨
    some branchId ∈ results.coordinations.map (·.branchId?)

/-- The members that an accepted resolution reads all have results. -/
theorem resolveAccepted_eq_some {join : JoinDeclaration}
    {resolution : JoinPlan × List ArtifactSelection} :
    resolveAccepted d plan join selections a = .ok (some resolution) ↔
      (∀ member ∈ join.members, member.branchId ∉ a.effects.map (·.branchId)) ∧
      (∀ member ∈ join.members, HasResult a member.branchId) ∧
      ∃ resolved joinPlan, join.members.mapM (joinInput d selections a) = .ok resolved ∧
        sealJoinPlan d plan join (resolved.map (·.1)) = .ok joinPlan ∧
        resolution = (joinPlan, resolved.map (·.2)) := by
  have hmissing : ((join.members.map (·.branchId)).any fun id =>
      id ∉ a.settlements.map (·.branchId) ∧ some id ∉ a.coordinations.map (·.branchId?)) = true ↔
      ¬ ∀ member ∈ join.members, HasResult a member.branchId := by
    simp only [HasResult, List.any_map, List.any_eq_true, Function.comp_apply, decide_eq_true_eq,
      not_forall, not_or]
    constructor
    · rintro ⟨m, hm, h⟩
      exact ⟨m, hm, h⟩
    · rintro ⟨m, hm, h⟩
      exact ⟨m, hm, h⟩
  have heffects : sortedBy id ((join.members.map (·.branchId)).filter fun id =>
      id ∈ a.effects.map (·.branchId)) = [] ↔
      ∀ member ∈ join.members, member.branchId ∉ a.effects.map (·.branchId) := by
    rw [← List.length_eq_zero_iff, (sortedBy_perm id _).length_eq, List.length_eq_zero_iff,
      List.filter_eq_nil_iff]
    simp
  simp only [resolveAccepted, bind_eq_ok, require_eq_ok, decide_eq_true_eq, exists_const, heffects]
  refine and_congr_right fun _ => ?_
  split
  · rename_i hany
    exact iff_of_false (by rintro ⟨⟩) fun h => hmissing.1 hany h.1
  · rename_i hany
    simp only [bind_eq_ok]
    constructor
    · rintro ⟨resolved, hr, joinPlan, hs, hres⟩
      exact ⟨not_not.1 fun hn => hany (hmissing.2 hn), resolved, joinPlan, hr, hs,
        (Option.some.inj (Except.ok.inj hres)).symm⟩
    · rintro ⟨_, resolved, joinPlan, hr, hs, rfl⟩
      exact ⟨resolved, hr, joinPlan, hs, rfl⟩

/-! ## Evaluations -/

variable {join : JoinResults}

/-- What an evaluation is made of. -/
structure EvaluatesTo (d : Digests) (plan : BranchSetPlan) (selections : SelectionDocuments)
    (documents : BranchSetDocuments) (results : BranchResults) (join : JoinResults)
    (evaluation : BranchSetEvaluation) : Prop where
  valid : validateBranchSetPlan d plan selections documents = .ok ()
  accepted : Accepted d plan selections results
  joins : evaluateJoin d plan selections documents results join =
    .ok (evaluation.resolvedJoinPlan, evaluation.joinState)
  settlement : sealSucceeded d plan results join = .ok evaluation.coordinationSettlement
  succeeded : evaluation.branchSetSucceeded = branchSetSucceeded plan results join
  complete : evaluation.coordinationCompleteForRetirement =
    (branchSetSucceeded plan results join && results.effects.isEmpty
      && !results.coordinations.any (·.containsExternalEffects))

theorem evaluatesTo_of_ok {evaluation : BranchSetEvaluation}
    (he : evaluateBranchSet d plan selections documents a join = .ok evaluation) :
    EvaluatesTo d plan selections documents a join evaluation := by
  rw [evaluateBranchSet] at he
  obtain ⟨u, hv, hn⟩ := bind_eq_ok.1 he
  obtain ⟨accepted, hn, hj⟩ := bind_eq_ok.1 hn
  obtain ⟨heq, ha⟩ := normalizeBranchResults_eq_ok.1 hn
  subst heq
  obtain ⟨⟨resolved, state⟩, hres, hs⟩ := bind_eq_ok.1 hj
  obtain ⟨settlement, hseal, hout⟩ := bind_eq_ok.1 hs
  cases hout
  exact ⟨hv, ha, hres, hseal, rfl, rfl⟩

end Riverhog.Stove0
