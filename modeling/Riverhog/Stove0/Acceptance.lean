import Riverhog.Stove0.ForkJoin
import Mathlib.Data.List.Perm.Subperm

/-!
# Accepted results of a branch set

What `_normalize_branch_results` accepts, said without its loops: every result is bound
to the branch that it names, no branch has two results, and no two results expose the
same collection. The condition does not depend on the order of the results and leaves
room for at most one success for each branch.
-/

namespace Riverhog.Stove0

open Core List

variable {d : Digests} {plan : BranchSetPlan} {selections : SelectionDocuments}
  {results : BranchResults} {u : Unit}

/-! ## The conditions on one result -/

/-- A reference resolves to a selection inside one collection. -/
def OutputIn (d : Digests) (selections : SelectionDocuments) (reference : ArtifactSelectionRef)
    (collection : CollectionRootRef) : Prop :=
  ∃ selection, resolveSelection d reference selections = .ok selection ∧
    ∀ artifact ∈ selection.artifacts, artifact.collection = collection

theorem checkOutput_eq_ok {reference : ArtifactSelectionRef} {collection : CollectionRootRef}
    {mismatch : String} :
    checkOutput d selections reference collection mismatch = .ok u ↔
      OutputIn d selections reference collection := by
  simp [checkOutput, bind_eq_ok, OutputIn]

/-- A settlement is bound to a collection leaf of the plan. -/
structure SettlementBound (d : Digests) (plan : BranchSetPlan) (selections : SelectionDocuments)
    (settlement : BranchSettlement) : Prop where
  branch : ∃ branch, plan.branch settlement.branchId = some (.leaf branch) ∧
    branch.workflowPlan.resultKind = .collection ∧
    settlement.workId = d.work branch.workflowPlan.work ∧
    settlement.workflowPlanSha256 = d.workflowPlan branch.workflowPlan
  output : OutputIn d selections settlement.outputSelection settlement.outputCollection

/-- Two settlements of different branches with different collections. -/
def SettlementsApart (a b : BranchSettlement) : Prop :=
  a.branchId ≠ b.branchId ∧ a.outputCollection ≠ b.outputCollection

theorem checkSettlement_eq_ok (seen : List BranchSettlement) (settlement : BranchSettlement) :
    checkSettlement d plan selections seen settlement = .ok () ↔
      SettlementBound d plan selections settlement ∧
        ∀ other ∈ seen, SettlementsApart other settlement := by
  rw [checkSettlement]
  split
  case h_1 hb => exact ⟨nofun, fun h => absurd h.1.branch (by simp [hb])⟩
  case h_2 hb => exact ⟨nofun, fun h => absurd h.1.branch (by simp [hb])⟩
  case h_3 branch hb =>
    simp only [bind_eq_ok, require_eq_ok, checkOutput_eq_ok, decide_eq_true_eq, mem_map,
      exists_const, not_exists, not_and]
    constructor
    · rintro ⟨hkind, hfresh, ⟨hwork, hplan⟩, hout, hroot⟩
      exact ⟨⟨⟨branch, hb, hkind, hwork, hplan⟩, hout⟩, fun o ho => ⟨hfresh o ho, hroot o ho⟩⟩
    · rintro ⟨⟨⟨branch', hb', hkind, hwork, hplan⟩, hout⟩, hapart⟩
      obtain rfl : branch = branch' := by simpa [hb] using hb'
      exact ⟨hkind, fun o ho => (hapart o ho).1, ⟨hwork, hplan⟩, hout, fun o ho => (hapart o ho).2⟩

/-- An effect settlement is bound to an effect leaf of the plan. -/
def EffectBound (d : Digests) (plan : BranchSetPlan) (settlement : BranchEffectSettlement) :
    Prop :=
  ∃ branch, plan.branch settlement.branchId = some (.leaf branch) ∧
    branch.workflowPlan.resultKind = .externalEffect ∧
    settlement.workId = d.work branch.workflowPlan.work ∧
    settlement.workflowPlanSha256 = d.workflowPlan branch.workflowPlan

theorem checkEffect_eq_ok (settlements : List BranchSettlement)
    (seen : List BranchEffectSettlement) (settlement : BranchEffectSettlement) :
    checkEffect d plan settlements seen settlement = .ok () ↔
      (EffectBound d plan settlement ∧ ∀ s ∈ settlements, s.branchId ≠ settlement.branchId) ∧
        ∀ other ∈ seen, other.branchId ≠ settlement.branchId := by
  rw [checkEffect]
  split
  case h_1 hb => exact ⟨nofun, fun h => absurd h.1.1 (by simp [EffectBound, hb])⟩
  case h_2 hb => exact ⟨nofun, fun h => absurd h.1.1 (by simp [EffectBound, hb])⟩
  case h_3 branch hb =>
    simp only [bind_eq_ok, require_eq_ok, decide_eq_true_eq, mem_map, exists_const,
      not_exists, not_and]
    constructor
    · rintro ⟨hkind, ⟨hfresh, hsettled⟩, hwork, hplan⟩
      exact ⟨⟨⟨branch, hb, hkind, hwork, hplan⟩, hsettled⟩, hfresh⟩
    · rintro ⟨⟨⟨branch', hb', hkind, hwork, hplan⟩, hsettled⟩, hfresh⟩
      obtain rfl : branch = branch' := by simpa [hb] using hb'
      exact ⟨hkind, ⟨hfresh, hsettled⟩, hwork, hplan⟩

/-- A coordination settlement is bound to a coordination branch of the plan. -/
structure CoordinationBound (d : Digests) (plan : BranchSetPlan) (selections : SelectionDocuments)
    (settlement : CoordinationSettlement) : Prop where
  branch : ∃ branchId branch, settlement.branchId? = some branchId ∧
    plan.branch branchId = some (.coordination branch) ∧ settlement.work = branch.work ∧
    settlement.branchSetSha256 = branch.branchSetSha256
  output : ∀ result ∈ settlement.collectionResult,
    OutputIn d selections result.outputSelection result.outputCollection

/-- Two coordinations of different branches that expose no common collection. -/
def CoordinationsApart (a b : CoordinationSettlement) : Prop :=
  a.branchId? ≠ b.branchId? ∧ (a.root? = b.root? → b.root? = none)

/-- A coordination of another branch than the leaves, exposing another collection. -/
structure ApartFromLeaves (settlements : List BranchSettlement)
    (effects : List BranchEffectSettlement) (settlement : CoordinationSettlement) : Prop where
  settlements : ∀ s ∈ settlements,
    some s.branchId ≠ settlement.branchId? ∧ some s.outputCollection ≠ settlement.root?
  effects : ∀ s ∈ effects, some s.branchId ≠ settlement.branchId?

theorem checkResult_eq_ok {settlements : List BranchSettlement}
    {seen : List CoordinationSettlement} {result : Option CollectionResult} :
    checkResult d selections settlements seen result = .ok u ↔
      (∀ r ∈ result, OutputIn d selections r.outputSelection r.outputCollection) ∧
        (∀ s ∈ settlements, some s.outputCollection ≠ result.map (·.outputCollection)) ∧
          ∀ other ∈ seen, other.root? = result.map (·.outputCollection) → result = none := by
  cases result with
  | none => simp [checkResult]
  | some r =>
    simp only [checkResult, bind_eq_ok, checkOutput_eq_ok, require_eq_ok, decide_eq_true_eq,
      mem_map, exists_const, not_exists, not_and, Option.mem_some_iff, forall_eq',
      Option.map_some, ne_eq, Option.some.injEq, reduceCtorEq, imp_false]

theorem checkCoordination_eq_ok (settlements : List BranchSettlement)
    (effects : List BranchEffectSettlement) (seen : List CoordinationSettlement)
    (settlement : CoordinationSettlement) :
    checkCoordination d plan selections settlements effects seen settlement = .ok () ↔
      (CoordinationBound d plan selections settlement ∧
        ApartFromLeaves settlements effects settlement) ∧
        ∀ other ∈ seen, CoordinationsApart other settlement := by
  rw [checkCoordination]
  split
  case h_1 hid => exact ⟨nofun, fun h => absurd h.1.1.branch (by simp [hid])⟩
  case h_2 branchId hid =>
    split
    case h_1 hb => exact ⟨nofun, fun h => absurd h.1.1.branch (by simp [hid, hb])⟩
    case h_2 hb => exact ⟨nofun, fun h => absurd h.1.1.branch (by simp [hid, hb])⟩
    case h_3 branch hb =>
      simp only [bind_eq_ok, require_eq_ok, checkResult_eq_ok, decide_eq_true_eq, mem_map,
        exists_const, not_exists, not_and]
      constructor
      · rintro ⟨⟨hseen, hleaf, heffect⟩, ⟨hwork, hset⟩, hout, hroots, hapart⟩
        refine ⟨⟨⟨⟨branchId, branch, hid, hb, hwork, hset⟩, hout⟩, ?_, ?_⟩, ?_⟩
        · exact fun s hs => ⟨fun h => hleaf s hs (by simpa [hid] using h), hroots s hs⟩
        · exact fun s hs h => heffect s hs (by simpa [hid] using h)
        · intro other ho
          refine ⟨fun h => hseen other ho (h.trans hid), fun h => ?_⟩
          rw [CoordinationSettlement.root?, hapart other ho h]
          rfl
      · rintro ⟨⟨⟨⟨branchId', branch', hid', hb', hwork, hset⟩, hout⟩, hleaf⟩, hapart⟩
        obtain rfl : branchId = branchId' := by simpa [hid] using hid'
        obtain rfl : branch = branch' := by simpa [hb] using hb'
        refine ⟨⟨fun o ho h => (hapart o ho).1 (h.trans hid.symm), fun s hs h => ?_,
          fun s hs h => ?_⟩, ⟨hwork, hset⟩, hout, fun s hs => (hleaf.settlements s hs).2,
          fun o ho h => ?_⟩
        · exact (hleaf.settlements s hs).1 (by rw [h, hid])
        · exact hleaf.effects s hs (by rw [h, hid])
        · simpa [CoordinationSettlement.root?] using (hapart o ho).2 h

/-- An outcome is bound to a branch of the plan that has not succeeded. -/
structure OutcomeBound (d : Digests) (plan : BranchSetPlan) (results : BranchResults)
    (outcome : BranchOutcome) : Prop where
  branch : ∃ branch, plan.branch outcome.branchId = some branch ∧
    checkOutcomeBinding d outcome branch = .ok ()
  settlements : ∀ s ∈ results.settlements, s.branchId ≠ outcome.branchId
  effects : ∀ s ∈ results.effects, s.branchId ≠ outcome.branchId
  coordinations : ∀ s ∈ results.coordinations, s.branchId? ≠ some outcome.branchId

theorem checkOutcome_eq_ok (seen : List BranchOutcome) (outcome : BranchOutcome) :
    checkOutcome d plan results.settlements results.effects results.coordinations seen outcome
        = .ok () ↔
      OutcomeBound d plan results outcome ∧ ∀ other ∈ seen, other.branchId ≠ outcome.branchId := by
  rw [checkOutcome]
  split
  case h_1 hb => exact ⟨nofun, fun h => absurd h.1.branch (by simp [hb])⟩
  case h_2 branch hb =>
    simp only [bind_eq_ok, require_eq_ok, decide_eq_true_eq, mem_map, exists_const,
      not_exists, not_and]
    constructor
    · rintro ⟨hfresh, ⟨hs, he, hc⟩, hbind⟩
      exact ⟨⟨⟨branch, hb, hbind⟩, hs, he, hc⟩, hfresh⟩
    · rintro ⟨⟨⟨branch', hb', hbind⟩, hs, he, hc⟩, hfresh⟩
      obtain rfl : branch = branch' := by simpa [hb] using hb'
      exact ⟨hfresh, ⟨hs, he, hc⟩, hbind⟩

/-! ## Accepted results -/

/-- Results that `_normalize_branch_results` accepts. -/
structure Accepted (d : Digests) (plan : BranchSetPlan) (selections : SelectionDocuments)
    (results : BranchResults) : Prop where
  settlement : ∀ s ∈ results.settlements, SettlementBound d plan selections s
  settlementsApart : results.settlements.Pairwise SettlementsApart
  effect : ∀ s ∈ results.effects, EffectBound d plan s
  effectApart : ∀ e ∈ results.effects, ∀ s ∈ results.settlements, s.branchId ≠ e.branchId
  effectsApart : results.effects.Pairwise fun a b => a.branchId ≠ b.branchId
  coordination : ∀ s ∈ results.coordinations, CoordinationBound d plan selections s
  coordinationApart : ∀ s ∈ results.coordinations,
    ApartFromLeaves results.settlements results.effects s
  coordinationsApart : results.coordinations.Pairwise CoordinationsApart
  outcome : ∀ o ∈ results.outcomes, OutcomeBound d plan results o
  outcomesApart : results.outcomes.Pairwise fun a b => a.branchId ≠ b.branchId

/-- Normalisation returns the results it was given, exactly when it accepts them. -/
theorem normalizeBranchResults_eq_ok {out : BranchResults} :
    normalizeBranchResults d plan selections results = .ok out ↔
      out = results ∧ Accepted d plan selections results := by
  rw [normalizeBranchResults]
  simp only [bind_eq_ok, accept_nil_eq_ok_iff checkSettlement_eq_ok]
  constructor
  · rintro ⟨s, ⟨rfl, hs, hspw⟩, h⟩
    simp only [accept_nil_eq_ok_iff (checkEffect_eq_ok _)] at h
    obtain ⟨e, ⟨rfl, he, hepw⟩, h⟩ := h
    simp only [accept_nil_eq_ok_iff (checkCoordination_eq_ok _ _)] at h
    obtain ⟨c, ⟨rfl, hc, hcpw⟩, h⟩ := h
    simp only [accept_nil_eq_ok_iff checkOutcome_eq_ok] at h
    obtain ⟨o, ⟨rfl, ho, hopw⟩, h⟩ := h
    cases h
    exact ⟨rfl, hs, hspw, fun e h => (he e h).1, fun e h => (he e h).2, hepw,
      fun c h => (hc c h).1, fun c h => (hc c h).2, hcpw, ho, hopw⟩
  · rintro ⟨rfl, h⟩
    refine ⟨_, ⟨rfl, h.settlement, h.settlementsApart⟩, ?_⟩
    refine ⟨_, (accept_nil_eq_ok_iff (checkEffect_eq_ok _)).2
      ⟨rfl, fun e he => ⟨h.effect e he, h.effectApart e he⟩, h.effectsApart⟩, ?_⟩
    refine ⟨_, (accept_nil_eq_ok_iff (checkCoordination_eq_ok _ _)).2
      ⟨rfl, fun c hc => ⟨h.coordination c hc, h.coordinationApart c hc⟩, h.coordinationsApart⟩, ?_⟩
    exact ⟨_, (accept_nil_eq_ok_iff checkOutcome_eq_ok).2 ⟨rfl, h.outcome, h.outcomesApart⟩, rfl⟩

/-- A loop of checks returns exactly when every check does. -/
theorem forM_eq_ok {α : Type} {check : α → Py Unit} {l : List α} :
    l.forM check = .ok u ↔ ∀ x ∈ l, check x = .ok () := by
  induction l with
  | nil => simp [List.forM, pure, Except.pure]
  | cons x l ih =>
    change (check x >>= fun _ => l.forM check) = .ok u ↔ _
    simp only [bind_eq_ok, ih, mem_cons, forall_eq_or_imp]
    exact ⟨fun ⟨_, hx, hl⟩ => ⟨hx, hl⟩, fun ⟨hx, hl⟩ => ⟨(), hx, hl⟩⟩

/-! ## Successes -/

/-- The branches that have succeeded. -/
def BranchResults.successIds (results : BranchResults) : List Text :=
  results.settlements.map (·.branchId) ++ results.effects.map (·.branchId)
    ++ results.coordinations.filterMap (·.branchId?)

theorem BranchSetPlan.mem_of_branch {branchId : Text} {branch : BranchDeclaration}
    (h : plan.branch branchId = some branch) :
    branch ∈ plan.branches ∧ branch.branchId = branchId :=
  ⟨mem_of_find?_eq_some h, by simpa using find?_some h⟩

namespace Accepted

variable (h : Accepted d plan selections results)

include h

/-- Every success names a branch of the plan. -/
theorem successIds_subset : results.successIds ⊆ plan.branches.map (·.branchId) := by
  intro id hid
  simp only [BranchResults.successIds, mem_append, mem_map, mem_filterMap] at hid
  have hmem : ∃ branch, plan.branch id = some branch := by
    rcases hid with (⟨s, hs, rfl⟩ | ⟨s, hs, rfl⟩) | ⟨s, hs, hid⟩
    · obtain ⟨branch, hb, _⟩ := (h.settlement s hs).branch
      exact ⟨_, hb⟩
    · obtain ⟨branch, hb, _⟩ := h.effect s hs
      exact ⟨_, hb⟩
    · obtain ⟨id', branch, hid', hb, _⟩ := (h.coordination s hs).branch
      obtain rfl : id = id' := by simpa [hid] using hid'
      exact ⟨_, hb⟩
  obtain ⟨branch, hb⟩ := hmem
  obtain ⟨hbranch, rfl⟩ := BranchSetPlan.mem_of_branch hb
  exact mem_map_of_mem hbranch

/-- No branch has succeeded twice. -/
theorem nodup_successIds : results.successIds.Nodup := by
  rw [BranchResults.successIds, nodup_append, nodup_append]
  refine ⟨⟨?_, ?_, ?_⟩, ?_, ?_⟩
  · rw [Nodup, pairwise_map]
    exact h.settlementsApart.imp fun hab => hab.1
  · rw [Nodup, pairwise_map]
    exact h.effectsApart
  · rintro a ha b hb rfl
    obtain ⟨s, hs, rfl⟩ := mem_map.1 ha
    obtain ⟨e, he, hes⟩ := mem_map.1 hb
    exact h.effectApart e he s hs hes.symm
  · rw [Nodup, pairwise_filterMap]
    exact h.coordinationsApart.imp fun hab x hx y hy hxy => hab.1 (by rw [hx, hy, hxy])
  · rintro a ha b hb rfl
    obtain ⟨c, hc, hid⟩ := mem_filterMap.1 hb
    have hleaf := h.coordinationApart c hc
    rcases mem_append.1 ha with ha | ha
    · obtain ⟨s, hs, rfl⟩ := mem_map.1 ha
      exact (hleaf.settlements s hs).1 hid.symm
    · obtain ⟨s, hs, rfl⟩ := mem_map.1 ha
      exact hleaf.effects s hs hid.symm

theorem length_successIds :
    results.successIds.length =
      results.settlements.length + results.effects.length + results.coordinations.length := by
  have hlen : (results.coordinations.filterMap (·.branchId?)).length =
      results.coordinations.length := by
    rw [length_filterMap_eq_countP, countP_eq_length]
    intro c hc
    obtain ⟨id, branch, hid, _⟩ := (h.coordination c hc).branch
    simp [hid]
  rw [BranchResults.successIds, length_append, length_append, length_map, length_map, hlen]

/-- When there are as many successes as branches, every branch has succeeded. -/
theorem mem_successIds_of_all (hall : allBranchesSucceeded plan results = true)
    {branch : BranchDeclaration} (hb : branch ∈ plan.branches) :
    branch.branchId ∈ results.successIds := by
  have hsub := subperm_of_subset h.nodup_successIds h.successIds_subset
  have hlen : (plan.branches.map (·.branchId)).length ≤ results.successIds.length := by
    rw [h.length_successIds, length_map]
    exact (of_decide_eq_true hall).ge
  exact (hsub.perm_of_length_le hlen).mem_iff.2 (mem_map_of_mem hb)

end Accepted

end Riverhog.Stove0
