import Riverhog.Stove0.RetirementReadiness
import Riverhog.Stove0.StoreRuns

/-!
# Settlement under the current fence

A work is claimed under a fence, and a newer fence discards what was executed under the
older one. Along every interleaving of workers, whatever a record keeps of an execution is
bound to the claim that the record holds, so an output that is settled comes from an
execution under that claim and under no other one.
-/

namespace Riverhog.Stove0

open Core Relation WorkService List Option

variable {x : External}

/-! ## A successful status -/

/-- The execution that a successful collection status reports: its production and its
derivation belong to the accepted job, and the output is derived by it. -/
structure Produced (x : External) (status : TargetJobReport) (declaration : TargetJobDeclaration)
    (production : TargetProductionAuthority) (derivation : CollectionDerivation)
    (output : OutputCollectionRef) : Prop where
  reportsProduction : status.production = some production
  productionJob : production.jobId = declaration.jobId
  reportsDerivation : status.derivation = some derivation
  derivationJob : derivation.executionId = declaration.jobId
  derivationClaim : derivation.claimId = declaration.claimId
  derivationFence : derivation.fence = declaration.fence
  reportsOutput : status.outputCollection = some output
  derives : output.derivationSha256 = x.derivation derivation

/-- A status that is valid for a request names the job of the request. -/
theorem jobId_of_validateStatus {status : TargetJobReport} {request : AcceptedTargetJob}
    {operation : OperationContract}
    (h : validateStatusAgainstRequest x status request operation = .ok ()) :
    status.jobId = request.declaration.jobId := by
  simp only [validateStatusAgainstRequest, bind_eq_ok, require_eq_ok, decide_eq_true_eq] at h
  obtain ⟨_, ⟨hjob, -⟩, -⟩ := h
  exact hjob

/-- A successful status with an output is one of a collection operation. -/
theorem protocol_of_output (status : TargetJobStatus) (hs : status.state = .succeeded)
    (ho : status.outputCollection.isSome) : status.protocol = .transform := by
  have hvalid := status.valid
  cases hp : status.protocol with
  | transform => rfl
  | effect =>
    simp only [TargetJobReport.verify, hs, TargetJobReport.verifySucceeded, hp, bind_eq_ok,
      require_eq_ok, decide_eq_true_eq] at hvalid
    obtain ⟨_, ⟨_, ⟨-, hnone, -⟩, -⟩, -⟩ := hvalid
    rw [isNone_iff_eq_none.1 hnone] at ho
    cases ho

/-- What a valid successful status with an output says about the execution. -/
theorem produced_of_validateStatus {status : TargetJobStatus} {request : AcceptedTargetJob}
    {operation : OperationContract} {output : OutputCollectionRef}
    (h : validateStatusAgainstRequest x status.toTargetJobReport request operation = .ok ())
    (hs : status.state = .succeeded) (ho : status.outputCollection = some output) :
    ∃ production derivation, Produced x status.toTargetJobReport request.declaration production
      derivation output := by
  have htransform := protocol_of_output status hs (by rw [ho]; rfl)
  simp only [validateStatusAgainstRequest, bind_eq_ok, require_eq_ok, decide_eq_true_eq] at h
  obtain ⟨_, ⟨-, hprotocol, -⟩, _, hkind, h⟩ := h
  rw [if_pos hs, validateSuccess] at h
  split at h
  · cases h
  · rename_i evidence _
    obtain ⟨-, h⟩ := require_bind_eq_ok.1 h
    have hcollection : operation.resultKind = .collection := by
      rw [hkind, ← hprotocol, htransform]
      rfl
    rw [hcollection] at h
    simp only [validateProduction] at h
    split at h
    · cases h
    · rename_i production hproduction
      simp only [bind_eq_ok, require_eq_ok, decide_eq_true_eq] at h
      obtain ⟨_, ⟨hjob, -⟩, _, -, _, -, h⟩ := h
      split at h
      · rename_i derivation output' hderivation houtput
        obtain rfl : output' = output := some.inj (houtput.symm.trans ho)
        rw [validateDerivation] at h
        have hbound := (require_bind_eq_ok.1 h).1
        simp only [derivationBound, decide_eq_true_eq] at hbound
        obtain ⟨hid, hclaim, hfence, -, -, -, -, -, -, hderives⟩ := hbound
        exact ⟨production, derivation,
          ⟨hproduction, hjob, hderivation, hid, hclaim, hfence, ho, hderives⟩⟩
      · cases h

/-! ## The invariant of a record -/

/-- What a record keeps of an execution is bound to the claim that it holds. -/
structure WorkRecord.FenceBound (x : External) (record : WorkRecord) : Prop where
  planned : record.controllerEvidence.isSome → record.workflowPlan.isSome
  preflighted : record.controllerEvidence.isSome → record.targetPlan.isSome
  evidence : ∀ evidence, record.controllerEvidence = some evidence → record.claim =
      some ⟨evidence.executionEnvelope.claimId, evidence.executionEnvelope.fence⟩
  request : ∀ request, record.targetRequest = some request →
    record.controllerEvidence = some request.declaration.controllerEvidence ∧
      request.declaration.verify x = .ok ()
  status : ∀ status, record.targetStatus = some status →
    ∃ request operation, record.targetRequest = some request ∧
      validateStatusAgainstRequest x status.toTargetJobReport request operation = .ok ()
  output : ∀ output, record.output = some output →
    ∃ status, record.targetStatus = some status ∧ status.state = .succeeded ∧
      status.outputCollection = some output

namespace WorkRecord.FenceBound

variable {record stored : WorkRecord}

/-- The invariant reads only the claim and what was sealed under it. -/
theorem congr (h : record.FenceBound x) (hclaim : stored.claim = record.claim)
    (hworkflow : stored.workflowPlan = record.workflowPlan)
    (htarget : stored.targetPlan = record.targetPlan)
    (hevidence : stored.controllerEvidence = record.controllerEvidence)
    (hrequest : stored.targetRequest = record.targetRequest)
    (hstatus : stored.targetStatus = record.targetStatus)
    (houtput : stored.output = record.output) : stored.FenceBound x := by
  constructor
  · rw [hevidence, hworkflow]
    exact h.planned
  · rw [hevidence, htarget]
    exact h.preflighted
  · rw [hevidence, hclaim]
    exact h.evidence
  · rw [hrequest, hevidence]
    exact h.request
  · rw [hstatus, hrequest]
    exact h.status
  · rw [houtput, hstatus]
    exact h.output

/-- A record that keeps nothing of an execution satisfies the invariant. -/
theorem of_none (hevidence : record.controllerEvidence = none)
    (hrequest : record.targetRequest = none) (hstatus : record.targetStatus = none)
    (houtput : record.output = none) : record.FenceBound x := by
  constructor
  · simp [hevidence]
  · simp [hevidence]
  · simp [hevidence]
  · simp [hrequest]
  · simp [hstatus]
  · simp [houtput]

section

variable (h : record.FenceBound x)
include h

/-- Without controller evidence nothing of an execution is kept. -/
theorem none_of_evidence (hevidence : record.controllerEvidence = none) :
    record.targetRequest = none ∧ record.targetStatus = none ∧ record.output = none := by
  have hrequest : record.targetRequest = none := by
    refine eq_none_iff_forall_ne_some.2 fun request hr => ?_
    have hsome := (h.request request hr).1
    rw [hevidence] at hsome
    cases hsome
  have hstatus : record.targetStatus = none := by
    refine eq_none_iff_forall_ne_some.2 fun status hs => ?_
    obtain ⟨request, -, hr, -⟩ := h.status status hs
    rw [hrequest] at hr
    cases hr
  refine ⟨hrequest, hstatus, eq_none_iff_forall_ne_some.2 fun output ho => ?_⟩
  obtain ⟨status, hs, -⟩ := h.output output ho
  rw [hstatus] at hs
  cases hs

theorem bindClaim {binding : ClaimBinding}
    (hsame : ∀ claim, record.claim = some claim → claim = binding) :
    { record with phase := .claimed, claim := some binding }.FenceBound x := by
  refine { h with evidence := fun evidence he => ?_ }
  rw [hsame _ (h.evidence evidence he)]

/-- A coordinator keeps nothing of an execution, so its claim may be replaced. -/
theorem coordinator (hworkflow : record.workflowPlan = none) :
    record.controllerEvidence = none := by
  refine not_isSome_iff_eq_none.1 fun hsome => ?_
  have hplan := h.planned hsome
  rw [hworkflow] at hplan
  cases hplan

theorem sealTargetPlan {workflow : WorkflowPlan} {claim : ClaimBinding}
    {target : TargetContract} {plan : TargetPlan} (hworkflow : record.workflowPlan = some workflow)
    (hclaim : record.claim = some claim)
    (hsame : record.targetPlan = none ∨ (record.targetPlan = some plan ∧ record.controllerEvidence =
        some (WorkService.controllerEvidence x claim workflow target plan))) :
    { record with
      phase := .queued
      targetPlan := some plan
      controllerEvidence :=
        some (WorkService.controllerEvidence x claim workflow target plan) }.FenceBound x := by
  refine ⟨fun _ => by rw [hworkflow]; rfl, fun _ => rfl, fun evidence he => ?_, ?_, h.status,
    h.output⟩
  · obtain rfl := some.inj he
    exact hclaim
  · intro request hr
    obtain ⟨hevidence, hverify⟩ := h.request request hr
    refine ⟨?_, hverify⟩
    rcases hsame with hnone | ⟨-, hsealed⟩
    · have hplan := h.preflighted (by rw [hevidence]; rfl)
      rw [hnone] at hplan
      cases hplan
    · exact hsealed.symm.trans hevidence

theorem bindTargetRequest {declaration : TargetJobDeclaration}
    (hvalid : declaration.verify x = .ok ())
    (hevidence : record.controllerEvidence = some declaration.controllerEvidence)
    (hsame : ∀ request, record.targetRequest = some request → request = ⟨declaration⟩) :
    { record with phase := .queued, targetRequest := some ⟨declaration⟩ }.FenceBound x := by
  refine { h with request := fun request hr => ?_, status := fun status hs => ?_ }
  · obtain rfl := some.inj hr
    exact ⟨hevidence, hvalid⟩
  · obtain ⟨request, operation, hr, hstatus⟩ := h.status status hs
    exact ⟨request, operation, by rw [hsame request hr], hstatus⟩

theorem report {request : AcceptedTargetJob} {status : TargetJobStatus}
    {operation : OperationContract} (haccepted : record.targetRequest = some request)
    (hvalid : validateStatusAgainstRequest x status.toTargetJobReport request operation = .ok ()) :
    (reported record status operation).FenceBound x := by
  refine { h with status := fun status' hs => ?_, output := fun output ho => ?_ }
  · obtain rfl := some.inj hs
    exact ⟨request, operation, haccepted, hvalid⟩
  · change statusOutput status.toTargetJobReport operation = some output at ho
    rw [statusOutput] at ho
    split at ho
    · rename_i hsucceeded
      exact ⟨status, rfl, hsucceeded.1, ho⟩
    · cases ho

/-- Every move keeps the invariant. -/
theorem move {replacement : WorkRecord}
    (hmove : WorkMove x record replacement) (hshaped : replacement.Shaped x.toDigests) :
    replacement.FenceBound x := by
  cases hmove with
  | bindClaim binding _ hsame => exact h.bindClaim hsame
  | reclaim => exact of_none rfl rfl rfl rfl
  | retryCoordination _ _ _ _ _ hplan =>
    obtain ⟨plan, hp⟩ := isSome_iff_exists.1 hplan
    have hevidence := h.coordinator (hshaped.branchSet plan hp).2.1
    obtain ⟨hrequest, hstatus, houtput⟩ := h.none_of_evidence hevidence
    exact of_none hevidence hrequest hstatus houtput
  | observe result =>
    dsimp only [observed]
    split <;> exact h.congr rfl rfl rfl rfl rfl rfl rfl
  | sealWorkflowPlan plan => exact { h with planned := fun _ => rfl }
  | sealTargetPlan target plan hworkflow _ hclaim hsame =>
    exact h.sealTargetPlan hworkflow hclaim hsame
  | bindTargetRequest declaration hvalid _ hevidence _ hsame =>
    exact h.bindTargetRequest hvalid hevidence hsame
  | report status operation haccepted _ hvalid => exact h.report haccepted hvalid
  | verifyOutput _ _ _ _ _ hheld => exact h.congr rfl rfl rfl rfl rfl rfl hheld.symm
  | _ => exact h.congr rfl rfl rfl rfl rfl rfl rfl

theorem moved (hmoved : record.Moved x stored) : stored.FenceBound x := by
  obtain ⟨replacement, hmove, rfl, hshaped⟩ := hmoved.inv
  exact (h.move hmove hshaped).congr rfl rfl rfl rfl rfl rfl rfl

end

theorem fresh (h : record.Fresh x.toDigests) : record.FenceBound x := by
  rw [h.initial]
  exact of_none rfl rfl rfl rfl

end WorkRecord.FenceBound

/-! ## Claims along a run -/

/-- A move keeps the id of a claim and never lowers its fence. -/
theorem WorkRecord.Moved.claim {record stored : WorkRecord} (h : record.Moved x stored)
    {claim : ClaimBinding} (hclaim : record.claim = some claim) :
    ∃ later, stored.claim = some later ∧ later.claimId = claim.claimId ∧
      claim.fence ≤ later.fence := by
  obtain ⟨replacement, hmove, rfl, -⟩ := h
  cases hmove with
  | bindClaim binding _ hsame =>
    obtain rfl := hsame claim hclaim
    exact ⟨claim, rfl, rfl, le_rfl⟩
  | reclaim binding hheld hadvances =>
    obtain rfl := some.inj (hheld.symm.trans hclaim)
    exact ⟨binding, rfl, hadvances.1, hadvances.2.le⟩
  | retryCoordination binding hheld hadvances =>
    obtain rfl := some.inj (hheld.symm.trans hclaim)
    exact ⟨binding, rfl, hadvances.1, hadvances.2.le⟩
  | observe result =>
    refine ⟨claim, ?_, rfl, le_rfl⟩
    dsimp only [observed]
    split <;> exact hclaim
  | _ => exact ⟨claim, hclaim, rfl, le_rfl⟩

theorem claim_later {record later : WorkRecord}
    (h : ReflTransGen (WorkRecord.Moved x) record later) {claim : ClaimBinding}
    (hclaim : record.claim = some claim) :
    ∃ binding, later.claim = some binding ∧ binding.claimId = claim.claimId ∧
      claim.fence ≤ binding.fence := by
  induction h with
  | refl => exact ⟨claim, hclaim, rfl, le_rfl⟩
  | tail _ hstep ih =>
    obtain ⟨middle, hmiddle, hid, hfence⟩ := ih
    obtain ⟨binding, hbinding, hid', hfence'⟩ := hstep.claim hmiddle
    exact ⟨binding, hbinding, hid'.trans hid, hfence.trans hfence'⟩

/-! ## Settled outputs -/

/-- The output of a record comes from an execution under the claim: the controller evidence,
the accepted request, the status, its production and its derivation all carry it. -/
structure WorkRecord.ExecutedUnder (x : External) (record : WorkRecord) (claim : ClaimBinding)
    (request : AcceptedTargetJob) (status : TargetJobStatus)
    (production : TargetProductionAuthority) (derivation : CollectionDerivation)
    (output : OutputCollectionRef) : Prop where
  held : record.claim = some claim
  evidence : record.controllerEvidence = some request.declaration.controllerEvidence
  evidenceClaim : claim = ⟨request.declaration.controllerEvidence.executionEnvelope.claimId,
    request.declaration.controllerEvidence.executionEnvelope.fence⟩
  accepted : record.targetRequest = some request
  requestClaim : claim = ⟨request.declaration.claimId, request.declaration.fence⟩
  job : request.declaration.jobId =
    x.envelope request.declaration.controllerEvidence.executionEnvelope
  recorded : record.targetStatus = some status
  statusJob : status.jobId = request.declaration.jobId
  produced : Produced x status.toTargetJobReport request.declaration production derivation output

/-- A declaration that was accepted carries the claim and the job of its evidence. -/
theorem declaration_of_verify {declaration : TargetJobDeclaration}
    (h : declaration.verify x = .ok ()) :
    declaration.jobId = x.envelope declaration.controllerEvidence.executionEnvelope ∧
      declaration.claimId = declaration.controllerEvidence.executionEnvelope.claimId ∧
        declaration.fence = declaration.controllerEvidence.executionEnvelope.fence := by
  simp only [TargetJobDeclaration.verify, bind_eq_ok, require_eq_ok, decide_eq_true_eq] at h
  obtain ⟨_, hjob, _, hclaim, -⟩ := h
  exact ⟨hjob, hclaim⟩

theorem WorkRecord.FenceBound.executedUnder {record : WorkRecord} (h : record.FenceBound x)
    {output : OutputCollectionRef} (ho : record.output = some output) :
    ∃ claim request status production derivation,
      record.ExecutedUnder x claim request status production derivation output := by
  obtain ⟨status, hstatus, hsucceeded, hreported⟩ := h.output output ho
  obtain ⟨request, operation, hrequest, hvalid⟩ := h.status status hstatus
  obtain ⟨hevidence, hverify⟩ := h.request request hrequest
  obtain ⟨hjob, hid, hfence⟩ := declaration_of_verify hverify
  obtain ⟨production, derivation, hproduced⟩ :=
    produced_of_validateStatus hvalid hsucceeded hreported
  exact ⟨_, request, status, production, derivation,
    ⟨h.evidence _ hevidence, hevidence, rfl, hrequest, by rw [hid, hfence], hjob, hstatus,
      jobId_of_validateStatus hvalid, hproduced⟩⟩

/-- Only the current fence settles. In every state that an interleaving of workers reaches,
the output of a record, settled or still to be verified, was executed under the claim that
the record holds, every claim it held before has a fence that is not newer, and no
execution under another claim has this output unless two derivations have one digest. -/
theorem settled_under_current_fence {ω : Type} [DecidableEq ω]
    {start before system : Versioned.Shared Store ω WorkRecord} (hstart : Initial start)
    (hbefore : ReflTransGen (SystemStep x) start before)
    (hafter : ReflTransGen (SystemStep x) before system) {id : Digest} {record : WorkRecord}
    (hrow : system.store.works id = some record)
    {output : OutputCollectionRef} (houtput : record.output = some output) :
    ∃ claim request status production derivation,
      record.ExecutedUnder x claim request status production derivation output ∧
        (∀ earlier binding, before.store.works id = some earlier → earlier.claim = some binding →
            binding.claimId = claim.claimId ∧ binding.fence ≤ claim.fence) ∧
        ∀ (request' : AcceptedTargetJob) (status' : TargetJobStatus)
          (operation : OperationContract),
          validateStatusAgainstRequest x status'.toTargetJobReport request' operation = .ok () →
            status'.state = .succeeded → status'.outputCollection = some output →
              (⟨request'.declaration.claimId, request'.declaration.fence⟩ : ClaimBinding) ≠ claim →
                ∃ other, other ≠ derivation ∧ x.derivation other = x.derivation derivation := by
  obtain ⟨hheld, hkeys, hrun⟩ := initial_run_advance hstart hbefore
  obtain ⟨-, -, hlater⟩ := run_advance hheld hkeys hafter
  have hbound := row_invariant (fun _ hf => WorkRecord.FenceBound.fresh hf)
    (fun _ _ hr hm => WorkRecord.FenceBound.moved hr hm) (hrun.trans hlater) id record hrow
  obtain ⟨claim, request, status, production, derivation, hexec⟩ := hbound.executedUnder houtput
  refine ⟨claim, request, status, production, derivation, hexec, ?_, ?_⟩
  · intro earlier binding hearlier hbinding
    obtain ⟨later, hlast, hmoves⟩ := row_later hlater hearlier
    obtain rfl := some.inj (hlast.symm.trans hrow)
    obtain ⟨current, hcurrent, hid, hfence⟩ := claim_later hmoves hbinding
    obtain rfl := some.inj (hcurrent.symm.trans hexec.held)
    exact ⟨hid.symm, hfence⟩
  · intro request' status' operation hvalid hsucceeded hreported hother
    obtain ⟨_, other, hproduced⟩ := produced_of_validateStatus hvalid hsucceeded hreported
    refine ⟨other, ?_, hproduced.derives.symm.trans hexec.produced.derives⟩
    rintro rfl
    refine hother ?_
    rw [← hproduced.derivationClaim, ← hproduced.derivationFence, hexec.requestClaim,
      hexec.produced.derivationClaim, hexec.produced.derivationFence]

namespace Sample

/-- Digests that spell the labels of the documents of an execution. -/
def external : External where
  toDigests := labelDigests
  targetPlan plan := 'q' :: plan.operationId
  envelope envelope := 'x' :: envelope.claimId ++ replicate envelope.fence '+'
  jobRequest declaration := 'r' :: declaration.jobId
  derivation derivation := 'd' :: derivation.executionId
  production production := 'o' :: production.jobId
  targetSettlement settlement := 't' :: settlement.jobId
  effectReceipt receipt := 'e' :: receipt.jobId
  controllerDocument _ := .obj []
  jsonSha256 _ := ['h']
  schemaAccepts _ _ := true

/-- The workflow plan of the root work `w`. -/
def workflowPlan : WorkflowPlan := { intent with work := work none ['w'] none, observations := [] }

/-- The contract of the target. -/
def targetContract : TargetContract := ⟨.transform, ['t'], [], ['h']⟩

/-- The contract of the operation: one output. -/
def operation : OperationContract :=
  ⟨['o', 'p'], .collection, [⟨['o', 'u', 't'], 1, none⟩], none, false, ['h']⟩

/-- The plan of the target for the one input. -/
def targetPlan : TargetPlan :=
  ⟨.transform, ['o', 'p'], ['h'], ⟨⟨['i'], 1, 1⟩, [⟨['i', 'n'], 1⟩]⟩, .obj [], .obj [], ['t'],
    ['h'], []⟩

/-- The job that is declared under a fence of the claim `c`. -/
def declaration (fence : Nat) : TargetJobDeclaration where
  jobId := ['x', 'c'] ++ replicate fence '+'
  claimId := ['c']
  fence := fence
  controllerEvidence := controllerEvidence external ⟨['c'], fence⟩ workflowPlan targetContract
    targetPlan
  plan := targetPlan
  workspaceAssurance := .encrypted

/-- The output collection of the job under a fence. -/
def outputCollection (fence : Nat) : OutputCollectionRef :=
  ⟨2, ['o'], ['o'], ['d', 'x', 'c'] ++ replicate fence '+'⟩

/-- The dispositions of the job: the input is transformed into the output. -/
def dispositions : DispositionSetIdentity := ⟨1, 1, 1, ['h']⟩

/-- The success of the job under a fence. -/
def report (fence : Nat) : TargetJobReport where
  protocol := .transform
  jobId := ['x', 'c'] ++ replicate fence '+'
  state := .succeeded
  attempt := 1
  requestSha256 := ['r', 'x', 'c'] ++ replicate fence '+'
  planSha256 := ['q', 'o', 'p']
  progress := ⟨['d'], 1, some 1, none, rfl⟩
  production := some
    { jobId := ['x', 'c'] ++ replicate fence '+'
      planSha256 := ['q', 'o', 'p']
      outputs := ⟨1, 1, [⟨['o', 'u', 't'], 1⟩], ['h']⟩
      dispositionCount := 1
      dispositionSha256 := ['h']
      sourceEdgeCount := 1
      sourceEdgeSha256 := ['h']
      riverhogDispositionSet := dispositions }
  outputCollection := some (outputCollection fence)
  executionEvidence := some ⟨['h'], ['h'], ['q', 'o', 'p'], ['h'], .obj []⟩
  derivation := some
    { executionId := ['x', 'c'] ++ replicate fence '+'
      claimId := ['c']
      fence := fence
      recipe := ⟨['w'], 1, ['h']⟩
      operation := ⟨['o', 'p'], ['h']⟩
      inputSetSha256 := ['h']
      artifactSetSha256 := ['h']
      executionEnvelopeSha256 := ['x', 'c'] ++ replicate fence '+'
      executionSha256 := ['h']
      controllerEvidence := .obj []
      controllerEvidenceSha256 := ['h']
      dispositionSet := dispositions }
  effectReceipt := none
  failure := none
  inapplicable := none

/-- The status that reports the success. -/
def status (fence : Nat) : TargetJobStatus := ⟨report fence, rfl⟩

/-- The calls that execute and settle the work under a fence of the claim `c`. -/
def execution (fence : Nat) : List Transition :=
  [.beginPlanning, .sealWorkflowPlan workflowPlan, .sealTargetPlan targetContract targetPlan,
    .bindTargetRequest (declaration fence), .recordTargetStatus (status fence) operation,
    .verifyOutput (outputCollection fence)
      ⟨['x', 'c'] ++ replicate fence '+', ['h'], outputCollection fence, ⟨1, 1, ['h']⟩⟩]

/-- The work as it is created. -/
def created : WorkRecord := { work := work none ['w'] none }

/-- One worker and a store that holds the created work. -/
def createdSystem : Versioned.Shared Store Unit WorkRecord :=
  ⟨Store.empty.putWork labelDigests created, fun _ => none⟩

theorem createdSystem_run :
    ReflTransGen (SystemStep external) ⟨Store.empty, fun _ => none⟩ createdSystem :=
  .single (.other ⟨.createOrResume (work none ['w'] none) none, rfl⟩)

end Sample

open Sample in
/-- A work that is executed under fence 1, claimed again under fence 2 and executed again
settles the output of the second execution. -/
theorem settled_under_current_fence_rebound :
    ∃ (system : Versioned.Shared Store Unit WorkRecord) (record : WorkRecord),
      system.store.works ['w'] = some record ∧ record.phase = .settled ∧
        record.output = some (outputCollection 2) ∧
          ∃ claim request status production derivation, record.ExecutedUnder external claim
            request status production derivation (outputCollection 2) := by
  obtain ⟨record, hcalls, hsettled⟩ := exists_ok_of_elim
    (x := (Transition.bindClaim ⟨['c'], 1⟩ :: (execution 1).take 5
      ++ .rebindClaim ⟨['c'], 2⟩ :: execution 2).foldlM (fun r t => t.apply external r) created)
    (p := fun r => r.phase = .settled ∧ r.output = some (outputCollection 2)) (by decide)
  rw [decide_eq_true_eq] at hsettled
  have hkey : Store.workId external.toDigests created = ['w'] := rfl
  obtain ⟨hkey', system, hrun, hstore⟩ := solo_run () (s := createdSystem) hkey rfl hcalls
  have hrow : system.store.works ['w'] = some record := by
    rw [hstore, ← hkey']
    exact Function.update_self ..
  obtain ⟨claim, request, status, production, derivation, hexec, -⟩ :=
    settled_under_current_fence ⟨rfl, fun _ => rfl⟩ createdSystem_run hrun hrow hsettled.2
  exact ⟨system, record, hrow, hsettled.1, hsettled.2, claim, request, status, production,
    derivation, hexec⟩

/-! ## The history of a record -/

/-- The phases that no call leaves: a failure ends the work unless it may be retried. -/
def WorkRecord.Finished (record : WorkRecord) : Prop :=
  record.phase ∈ [.complete, .inapplicable, .canceled] ∨
    record.phase = .failed ∧ record.failure.any (·.retryable) = false

theorem WorkRecord.Moved.not_finished {record stored : WorkRecord} (h : record.Moved x stored) :
    ¬ record.Finished := by
  obtain ⟨replacement, hmove, -⟩ := h
  cases hmove <;> grind [Finished, WorkPhase.rebindable]

end Riverhog.Stove0
