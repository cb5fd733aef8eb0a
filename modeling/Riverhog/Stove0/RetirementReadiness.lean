import Riverhog.Stove0.JoinResolution

/-!
# Readiness for retirement on the whole tree

An evaluation that reports a coordination complete for retirement speaks for the whole
tree below it: every leaf has settled to a collection under its declared plan, every
join has settled under the plan resolved from its members, and there is no external
effect. A nested coordination reports only a digest and a flag to its parent, so the
fact is carried from one level to the next through the settlement that the parent
accepts.
-/

namespace Riverhog.Stove0

open Core List

variable {d : Digests} {decision : BranchSetDecision}

/-- What one evaluation of a branch set reads besides the plan and its documents. -/
structure EvaluationInputs where
  selections : SelectionDocuments
  results : BranchResults
  join : JoinResults

/-- `evaluate_branch_set` on a plan of a decision. -/
def BranchSetDecision.evaluate (d : Digests) (decision : BranchSetDecision) (plan : BranchSetPlan)
    (inputs : EvaluationInputs) : Py BranchSetEvaluation :=
  evaluateBranchSet d plan inputs.selections (decision.branchSetDocuments d) inputs.results
    inputs.join

/-- An evaluation from the bottom up: the settlement of every nested coordination that it
reads was produced by an evaluation of a nested plan of the decision. -/
inductive BottomUp (d : Digests) (decision : BranchSetDecision) :
    BranchSetPlan → EvaluationInputs → BranchSetEvaluation → Prop
  | intro {plan : BranchSetPlan} {inputs : EvaluationInputs} {evaluation : BranchSetEvaluation}
      (child : CoordinationSettlement → BranchSetPlan)
      (childInputs : CoordinationSettlement → EvaluationInputs)
      (childEvaluation : CoordinationSettlement → BranchSetEvaluation)
      (evaluated : decision.evaluate d plan inputs = .ok evaluation)
      (document : ∀ c ∈ inputs.results.coordinations,
        (decision.branchSetDocuments d).lookup (d.branchSet (child c)) = some (child c))
      (nested : ∀ c ∈ inputs.results.coordinations,
        BottomUp d decision (child c) (childInputs c) (childEvaluation c))
      (produced : ∀ c ∈ inputs.results.coordinations,
        (childEvaluation c).coordinationSettlement = some c) :
      BottomUp d decision plan inputs evaluation

/-- A leaf that is no external effect and has a settlement under its declared plan. -/
def LeafSettled (d : Digests) (results : BranchResults) (leaf : BranchPlan) : Prop :=
  leaf.workflowPlan.resultKind ≠ .externalEffect ∧
    ∃ s ∈ results.settlements, s.branchId = leaf.branchId ∧
      s.workId = d.work leaf.workflowPlan.work ∧
      s.workflowPlanSha256 = d.workflowPlan leaf.workflowPlan

/-- The join has a settlement under the plan resolved from the results of its members. -/
def JoinSettled (d : Digests) (decision : BranchSetDecision) (plan : BranchSetPlan)
    (inputs : EvaluationInputs) : Prop :=
  ∃ joinPlan chosen settlement,
    resolveJoinPlan d plan inputs.selections (decision.branchSetDocuments d) inputs.results =
      .ok (some (joinPlan, chosen)) ∧
    inputs.join.settlement = some settlement ∧
    settlement.workId = d.work joinPlan.work ∧
    settlement.workflowPlanSha256 = d.workflowPlan joinPlan.workflowPlan ∧
    settlement.joinPlanSha256 = d.joinPlan joinPlan

/-- A plan all of whose leaves and joins have settled, at every depth: each coordination
branch has a settlement that an evaluation of its nested plan produced, and that plan has
settled in the same sense. -/
inductive SettledTree (d : Digests) (decision : BranchSetDecision) :
    BranchSetPlan → EvaluationInputs → Prop
  | intro {plan : BranchSetPlan} {inputs : EvaluationInputs}
      (child : CoordinationBranchPlan → BranchSetPlan)
      (childInputs : CoordinationBranchPlan → EvaluationInputs)
      (leaf : ∀ branch, .leaf branch ∈ plan.branches → LeafSettled d inputs.results branch)
      (join : plan.join ≠ none → JoinSettled d decision plan inputs)
      (document : ∀ branch, .coordination branch ∈ plan.branches →
        (decision.branchSetDocuments d).lookup branch.branchSetSha256 = some (child branch))
      (settlement : ∀ branch, .coordination branch ∈ plan.branches →
        ∃ c ∈ inputs.results.coordinations, c.work = branch.work ∧
          c.branchSetSha256 = branch.branchSetSha256 ∧
          ∃ evaluation, decision.evaluate d (child branch) (childInputs branch) = .ok evaluation ∧
            evaluation.coordinationSettlement = some c)
      (nested : ∀ branch, .coordination branch ∈ plan.branches →
        SettledTree d decision (child branch) (childInputs branch)) :
      SettledTree d decision plan inputs

/-! ## One level -/

section Level

variable {plan : BranchSetPlan} {selections : SelectionDocuments} {documents : BranchSetDocuments}
  {results : BranchResults} {join : JoinResults} {evaluation : BranchSetEvaluation}

/-- A plan whose branches are told apart by their names. -/
theorem BranchSetPlan.branch_eq_of_mem (hn : (plan.branches.map (·.branchId)).Nodup)
    {branch : BranchDeclaration} (hb : branch ∈ plan.branches) :
    plan.branch branch.branchId = some branch :=
  (Table.get_eq_some_iff (t := ⟨_, hn⟩)).2 ⟨hb, rfl⟩

/-- The validators of a branch set make the names of its branches distinct. -/
theorem BranchSetPlan.nodup_of_verify {plan : BranchSetPlan} (h : plan.verify d = .ok ()) :
    (plan.branches.map (·.branchId)).Nodup := by
  simp only [BranchSetPlan.verify, bind_eq_ok, require_eq_ok] at h
  obtain ⟨_, _, _, _, _, _, _, hids, _⟩ := h
  exact (uniqueOrdered_iff.1 hids).imp fun hlt => hlt.ne

/-- A leaf of a branch set that succeeded without effects has settled. -/
theorem leafSettled_of_all (ha : Accepted d plan selections results)
    (hn : (plan.branches.map (·.branchId)).Nodup)
    (hall : allBranchesSucceeded plan results = true) (heffects : results.effects = [])
    {branch : BranchPlan} (hb : .leaf branch ∈ plan.branches) : LeafSettled d results branch := by
  have hfind := BranchSetPlan.branch_eq_of_mem hn hb
  have hmem := ha.mem_successIds_of_all hall hb
  simp only [BranchResults.successIds, heffects, map_nil, append_nil, mem_append,
    mem_map, mem_filterMap] at hmem
  rcases hmem with ⟨s, hs, hid⟩ | ⟨c, hc, hid⟩
  · obtain ⟨branch', hb', hkind, hwork, hplan⟩ := (ha.settlement s hs).branch
    rw [hid, hfind] at hb'
    cases hb'
    refine ⟨by rw [hkind]; decide, s, hs, hid, hwork, hplan⟩
  · obtain ⟨id, branch', hid', hb', _⟩ := (ha.coordination c hc).branch
    obtain rfl : id = branch.branchId := Option.some.inj (hid'.symm.trans hid)
    exact absurd (hfind.symm.trans hb') (by simp)

/-- A coordination branch of a branch set that succeeded has a settlement. -/
theorem coordinationSettled_of_all (ha : Accepted d plan selections results)
    (hn : (plan.branches.map (·.branchId)).Nodup)
    (hall : allBranchesSucceeded plan results = true) {branch : CoordinationBranchPlan}
    (hb : .coordination branch ∈ plan.branches) :
    ∃ c ∈ results.coordinations, c.work = branch.work ∧
      c.branchSetSha256 = branch.branchSetSha256 := by
  have hfind := BranchSetPlan.branch_eq_of_mem hn hb
  have hmem := ha.mem_successIds_of_all hall hb
  simp only [BranchResults.successIds, mem_append, mem_map, mem_filterMap] at hmem
  rcases hmem with (⟨s, hs, hid⟩ | ⟨s, hs, hid⟩) | ⟨c, hc, hid⟩
  · obtain ⟨branch', hb', _⟩ := (ha.settlement s hs).branch
    rw [hid, hfind] at hb'
    cases hb'
  · obtain ⟨branch', hb', _⟩ := ha.effect s hs
    rw [hid, hfind] at hb'
    cases hb'
  · obtain ⟨id, branch', hid', hb', hwork, hset⟩ := (ha.coordination c hc).branch
    obtain rfl : id = branch.branchId := Option.some.inj (hid'.symm.trans hid)
    cases hfind.symm.trans hb'
    exact ⟨c, hc, hwork, hset⟩

/-- A declared join of a branch set that succeeded has settled. -/
theorem joinSettled_of_succeeded (he : EvaluatesTo d plan selections documents results join
    evaluation) (hs : branchSetSucceeded plan results join = true) (hj : plan.join ≠ none) :
    ∃ joinPlan chosen settlement,
      resolveJoinPlan d plan selections documents results = .ok (some (joinPlan, chosen)) ∧
      join.settlement = some settlement ∧ settlement.workId = d.work joinPlan.work ∧
      settlement.workflowPlanSha256 = d.workflowPlan joinPlan.workflowPlan ∧
      settlement.joinPlanSha256 = d.joinPlan joinPlan := by
  obtain ⟨declaration, hd⟩ := Option.ne_none_iff_exists'.1 hj
  obtain ⟨settlement, hset⟩ : ∃ settlement, join.settlement = some settlement := by
    simp only [branchSetSucceeded, Bool.and_eq_true, Bool.or_eq_true, decide_eq_true_eq] at hs
    exact Option.ne_none_iff_exists'.1 (hs.2.resolve_left hj)
  have hjoin := he.joins
  rw [evaluateJoin, hd] at hjoin
  obtain ⟨resolution, hr, hjoin⟩ := bind_eq_ok.1 hjoin
  cases resolution with
  | none =>
    obtain ⟨_, hreq, _⟩ := bind_eq_ok.1 hjoin
    simp [hset] at hreq
  | some resolution =>
    obtain ⟨joinPlan, chosen⟩ := resolution
    obtain ⟨_, hvalid, _⟩ := bind_eq_ok.1 hjoin
    simp only [validateJoinResult, hset, bind_eq_ok, require_eq_ok, decide_eq_true_eq] at hvalid
    obtain ⟨_, _, _, ⟨hwork, hplan, hjoinPlan⟩, _⟩ := hvalid
    exact ⟨joinPlan, chosen, settlement, hr, hset, hwork, hplan, hjoinPlan⟩

/-- The settlement that an evaluation produces speaks for the evaluated plan, and without
external effects the evaluation is complete for retirement. -/
theorem complete_of_settlement (he : EvaluatesTo d plan selections documents results join
    evaluation) {c : CoordinationSettlement} (hc : evaluation.coordinationSettlement = some c) :
    c.branchSetSha256 = d.branchSet plan ∧ (c.containsExternalEffects = false →
        evaluation.coordinationCompleteForRetirement = true) := by
  have hseal := he.settlement
  rw [hc, sealSucceeded] at hseal
  split at hseal
  · rename_i hs
    cases hcs : CoordinationSettlement.seal d plan results join.settlement with
    | error e =>
      rw [hcs] at hseal
      cases hseal
    | ok c' =>
      rw [hcs] at hseal
      obtain rfl : c' = c := by simpa [Except.map] using hseal
      simp only [CoordinationSettlement.seal, bind_eq_ok] at hcs
      obtain ⟨children, _, _, _, _, _, _, _, _, _, hcs⟩ := hcs
      cases hcs
      refine ⟨rfl, fun hno => ?_⟩
      rw [Bool.or_eq_false_iff] at hno
      rw [he.complete, hs, hno.2]
      simpa using hno.1
  · cases hseal

end Level

/-! ## The whole tree -/

theorem mem_plans_of_lookup {digest : Digest} {plan : BranchSetPlan}
    (h : (decision.branchSetDocuments d).lookup digest = some plan) : plan ∈ decision.plans := by
  rw [BranchSetDecision.branchSetDocuments, lookup_eq_some_iff] at h
  obtain ⟨before, after, he, _⟩ := h
  have hmem : (digest, plan) ∈ decision.plans.map fun p => (d.branchSet p, p) := by
    rw [he]
    simp
  obtain ⟨p, hp, heq⟩ := mem_map.1 hmem
  cases heq
  exact hp

/-- Induction over the evaluation: whatever plan of the decision is reported complete,
its tree has settled. -/
theorem settledTree_of_bottomUp
    (hvalid : ∀ plan ∈ decision.plans, (plan.branches.map (·.branchId)).Nodup)
    {plan : BranchSetPlan} {inputs : EvaluationInputs} {evaluation : BranchSetEvaluation}
    (hplan : plan ∈ decision.plans) (h : BottomUp d decision plan inputs evaluation)
    (hc : evaluation.coordinationCompleteForRetirement = true) :
    SettledTree d decision plan inputs := by
  induction h with
  | @intro plan inputs evaluation child childInputs childEvaluation evaluated document nested
      produced ih =>
    have he := evaluatesTo_of_ok evaluated
    have hn := hvalid plan hplan
    rw [he.complete, Bool.and_eq_true, Bool.and_eq_true, List.isEmpty_iff] at hc
    obtain ⟨⟨hs, heffects⟩, hflags⟩ := hc
    have hall : allBranchesSucceeded plan inputs.results = true := (Bool.and_eq_true_iff.1 hs).1
    have hflag : ∀ c ∈ inputs.results.coordinations, c.containsExternalEffects = false := by
      simpa using hflags
    -- Each coordination branch has one of the settlements that the nested evaluations made.
    have hchoose : ∀ branch : CoordinationBranchPlan, ∃ c : CoordinationSettlement,
        .coordination branch ∈ plan.branches → c ∈ inputs.results.coordinations ∧
          c.work = branch.work ∧ c.branchSetSha256 = branch.branchSetSha256 := by
      intro branch
      by_cases hb : .coordination branch ∈ plan.branches
      · obtain ⟨c, hc, hwork, hset⟩ := coordinationSettled_of_all he.accepted hn hall hb
        exact ⟨c, fun _ => ⟨hc, hwork, hset⟩⟩
      · exact ⟨⟨plan.parentWork, [], [], false, none, none⟩, fun h => absurd h hb⟩
    choose c hc using hchoose
    have hmade : ∀ branch, .coordination branch ∈ plan.branches →
        EvaluatesTo d (child (c branch)) (childInputs (c branch)).selections
          (decision.branchSetDocuments d) (childInputs (c branch)).results
          (childInputs (c branch)).join (childEvaluation (c branch)) := by
      intro branch hb
      cases nested _ (hc branch hb).1 with
      | intro _ _ _ evaluated' _ _ _ => exact evaluatesTo_of_ok evaluated'
    have hdocument : ∀ branch, .coordination branch ∈ plan.branches →
        (decision.branchSetDocuments d).lookup branch.branchSetSha256 =
          some (child (c branch)) := by
      intro branch hb
      obtain ⟨hmem, _, hset⟩ := hc branch hb
      rw [← hset, (complete_of_settlement (hmade branch hb) (produced _ hmem)).1]
      exact document _ hmem
    refine .intro (fun branch => child (c branch)) (fun branch => childInputs (c branch))
      (fun branch hb => leafSettled_of_all he.accepted hn hall heffects hb)
      (joinSettled_of_succeeded he hs) hdocument (fun branch hb => ?_) fun branch hb => ?_
    · obtain ⟨hmem, hwork, hset⟩ := hc branch hb
      refine ⟨c branch, hmem, hwork, hset, childEvaluation (c branch), ?_, produced _ hmem⟩
      cases nested _ hmem with
      | intro _ _ _ evaluated' _ _ _ => exact evaluated'
    · obtain ⟨hmem, _, _⟩ := hc branch hb
      exact ih _ hmem (mem_plans_of_lookup (document _ hmem))
        ((complete_of_settlement (hmade branch hb) (produced _ hmem)).2 (hflag _ hmem))

theorem nodup_of_decision {plan : BranchSetPlan} (h : decision.verify d = .ok ())
    (hp : plan ∈ decision.plans) : (plan.branches.map (·.branchId)).Nodup := by
  simp only [BranchSetDecision.verify, bind_eq_ok] at h
  obtain ⟨_, hplans, _⟩ := h
  exact BranchSetPlan.nodup_of_verify (forM_eq_ok.1 hplans plan hp)

/-- An accepted decision whose root is reported complete for retirement by an evaluation
from the bottom up has settled as a whole. -/
theorem settledTree_of_complete (hd : decision.verify d = .ok ()) {inputs : EvaluationInputs}
    {evaluation : BranchSetEvaluation} (h : BottomUp d decision decision.plan inputs evaluation)
    (hc : evaluation.coordinationCompleteForRetirement = true) :
    SettledTree d decision decision.plan inputs :=
  settledTree_of_bottomUp (fun _ hp => nodup_of_decision hd hp) mem_cons_self h hc

/-! ## A decision of two levels -/

namespace Sample

/-- The collection that a label stands for. -/
def collection (number : Nat) (label : Text) : CollectionRootRef := ⟨number, label, label⟩

/-- The one file of the input collection. -/
def input : ArtifactSubject :=
  ⟨['i'], ['i', 'n'], collection 1 ['r'], ['f'], 1, ['h'], none⟩

/-- The output file of a work. -/
def output (number : Nat) (label : Text) : ArtifactSubject :=
  ⟨label, ['o', 'u', 't'], collection number label, ['f'], 1, ['h'], none⟩

/-- The selection of one artifact. -/
def selectOne (artifact : ArtifactSubject) : ArtifactSelection :=
  ⟨[artifact], by simp [verifyArtifacts, sortedBy, insertionSort]⟩

section

variable (evaluation : Option EvaluationBinding)

/-- A work on the input collection. -/
def work (label : Text) (binding : Option BranchWorkBinding) : WorkIdentity where
  recipe := ⟨label, 1, ['h']⟩
  inputs := [collection 1 ['r']]
  effectiveIntent := .obj []
  evaluation := evaluation
  forkJoin := binding.map .branch
  valid := by cases binding <;> rfl

/-- An operation that produces a collection. -/
def intent : WorkflowPlanIntent :=
  ⟨⟨['o', 'p'], ['h']⟩, .collection, ['t'], ['h'], .obj [], .availableOnly, .retain, 0, .obj []⟩

/-- A coordination branch of the root work `w`. -/
def nestedWork : WorkIdentity :=
  work evaluation ['c'] (some ⟨['w'], ['c'], ['D'], ['i']⟩)

/-- A leaf of the nested branch set. -/
def leaf (label : Text) : BranchPlan where
  branchId := label
  artifactSelection := ⟨['i'], 1, 1⟩
  workflowPlan :=
    { intent with
      work := work evaluation label (some ⟨['c'], label, ['E'], ['i']⟩)
      observations := [] }

/-- Two leaves and their join. -/
def nestedPlan : BranchSetPlan where
  parentWork := nestedWork evaluation
  decisionSha256 := ['E']
  evidenceSha256s := []
  branches := [.leaf (leaf evaluation ['x']), .leaf (leaf evaluation ['y'])]
  join := some
    { members := [⟨['x'], [['o', 'u', 't']]⟩, ⟨['y'], [['o', 'u', 't']]⟩]
      recipe := ⟨['j'], 1, ['h']⟩
      effectiveIntent := .obj []
      workflowIntent := intent }
  retirementPolicy := .retain
  retirementGraceSeconds := 0

end

/-- A root whose only branch is the nested branch set. -/
def twoLevels : BranchSetDecision where
  plan :=
    { parentWork := work none ['w'] none
      decisionSha256 := ['D']
      evidenceSha256s := []
      branches := [.coordination ⟨['c'], ⟨['i'], 1, 1⟩, nestedWork none, ['s', 'c']⟩]
      join := none
      retirementPolicy := .retireAfterVerifiedOutput
      retirementGraceSeconds := 0 }
  selections := [selectOne input]
  branchSets := [nestedPlan none]

/-- The settlement of a leaf. -/
def settlement (number : Nat) (label : Text) : BranchSettlement where
  branchId := label
  workId := label
  workflowPlanSha256 := 'p' :: label
  derivationSha256 := ['h']
  producerSettlementSha256 := ['h']
  outputCollection := collection number label
  outputSelection := ⟨label, 1, 1⟩

/-- The settlement of the join. -/
def joinSettlement : JoinSettlement where
  workId := ['j']
  workflowPlanSha256 := ['p', 'j']
  joinPlanSha256 := ['j', 'j']
  derivationSha256 := ['h']
  producerSettlementSha256 := ['h']
  outputCollection := collection 4 ['j']
  outputSelection := ⟨['j'], 1, 1⟩

/-- The selections of the input and of every output. -/
def selections : SelectionDocuments := fun digest =>
  ([selectOne input, selectOne (output 2 ['x']), selectOne (output 3 ['y']),
    selectOne (output 4 ['j'])]).find? fun s => labelDigests.selection s = digest

/-- Both leaves and the join have settled. -/
def nestedInputs : EvaluationInputs where
  selections := selections
  results := ⟨[settlement 2 ['x'], settlement 3 ['y']], [], [], []⟩
  join := ⟨some joinSettlement, none⟩

/-- What the nested branch set reports to the root. -/
def nestedSettlement : CoordinationSettlement where
  work := nestedWork none
  branchSetSha256 := ['s', 'c']
  children := [⟨['x'], .collection, ['b', 'x']⟩, ⟨['y'], .collection, ['b', 'y']⟩]
  containsExternalEffects := false
  finalJoinSettlementSha256 := some ['k', 'j']
  collectionResult := some ⟨['j'], ['k', 'j'], ['h'], collection 4 ['j'], ⟨['j'], 1, 1⟩⟩

/-- The root has the settlement of its branch. -/
def rootInputs : EvaluationInputs where
  selections := selections
  results := ⟨[], [], [nestedSettlement], []⟩
  join := ⟨none, none⟩

end Sample

open Sample in
/-- The decision of two levels is complete and has settled. -/
theorem settledTree_of_complete_nested :
    SettledTree labelDigests twoLevels twoLevels.plan rootInputs := by
  obtain ⟨nestedEvaluation, hnested, hsettlement⟩ :=
    exists_ok_of_elim (x := twoLevels.evaluate labelDigests (nestedPlan none) nestedInputs)
      (p := fun e => e.coordinationSettlement = some nestedSettlement) (by decide)
  obtain ⟨evaluation, hroot, hcomplete⟩ :=
    exists_ok_of_elim (x := twoLevels.evaluate labelDigests twoLevels.plan rootInputs)
      (p := fun e => e.coordinationCompleteForRetirement) (by decide)
  have hbottom : BottomUp labelDigests twoLevels (nestedPlan none) nestedInputs
      nestedEvaluation :=
    .intro (fun _ => nestedPlan none) (fun _ => nestedInputs) (fun _ => nestedEvaluation) hnested
      (fun _ hc => absurd hc not_mem_nil) (fun _ hc => absurd hc not_mem_nil)
      fun _ hc => absurd hc not_mem_nil
  refine settledTree_of_complete (by decide)
    (.intro (fun _ => nestedPlan none) (fun _ => nestedInputs) (fun _ => nestedEvaluation) hroot
      (fun _ _ => by decide) (fun _ _ => hbottom) fun c hc => ?_) hcomplete
  rw [mem_singleton.1 hc]
  exact of_decide_eq_true hsettlement

end Riverhog.Stove0
