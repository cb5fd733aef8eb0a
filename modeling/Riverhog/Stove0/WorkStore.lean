import Riverhog.Core.CompareAndSwap
import Riverhog.Stove0.ForkJoin
import Riverhog.Stove0.WorkMoves

/-!
# The state store

The durable store of stove0: work records by work id, artifact selections by digest, and
the outputs that a target declares for a job until its production is sealed. A record is
replaced by compare-and-swap; admitting a branch set or a join inserts the child works in
the same transaction.
-/

namespace Riverhog.Stove0

open Core

/-- `OutputArtifact`. -/
structure OutputArtifact where
  id : Text
  role : Text
  path : Text
  bytes : Nat
  sha256 : Digest
  mediaType : Option Text
  deriving DecidableEq

/-- `TargetProductionSealState`. -/
inductive SealState where
  | receiving | sealing | sealed | failed
  deriving DecidableEq

/-- The rows of the store that works depend on. Outputs are in the order of their ids. -/
structure Store where
  works : Digest → Option WorkRecord
  selections : Digest → Option ArtifactSelection
  outputs : Digest → Digest → List OutputArtifact
  seals : Digest → Digest → Option SealState

namespace Store

variable (d : Digests) (store : Store)

/-- The store before anything was created. -/
def empty : Store where
  works _ := none
  selections _ := none
  outputs _ _ := []
  seals _ _ := none

/-- `WorkRecord.work_id`. -/
def workId (record : WorkRecord) : Digest := d.work record.work

/-- The row of a record is written. -/
def putWork (record : WorkRecord) : Store :=
  { store with works := Function.update store.works (workId d record) (some record) }

/-- The row of a selection is written. -/
def putSelection (selection : ArtifactSelection) : Store :=
  { store with
    selections := Function.update store.selections (d.selection selection) (some selection) }

/-- The works of a store are versioned records. -/
def versioned : Versioned Store Digest WorkRecord where
  key := workId d
  revision := (·.revision)
  records := works
  put := putWork d
  records_put _ _ := rfl

/-- `KeyError(work_id)`. -/
def load (id : Digest) : Service WorkRecord :=
  match store.works id with
  | none => .error (.python .keyError)
  | some record => .ok record

/-- Insert a record, or find a row in its place that agrees with it. -/
def insertWork (record : WorkRecord) (agrees : WorkRecord → Bool) (reused : String) :
    Service Store :=
  match store.works (workId d record) with
  | none => .ok (store.putWork d record)
  | some existing => do
    require (agrees existing) (.concurrent reused)
    return store

/-- `create`. -/
def create (record : WorkRecord) : Service Store :=
  store.insertWork d record (fun existing => existing.work = record.work
      ∧ (record.previewAcceptance.isNone ∨ existing.previewAcceptance = record.previewAcceptance)
      ∧ (record.expectedTargetPlanSha256.isNone
        ∨ existing.expectedTargetPlanSha256 = record.expectedTargetPlanSha256))
    "work identity was reused with another payload"

/-- `_insert_or_verify_selection`. -/
def retainSelection (selection : ArtifactSelection) : Service Store :=
  match store.selections (d.selection selection) with
  | none => .ok (store.putSelection d selection)
  | some existing => do
    require (existing = selection) (.concurrent "artifact selection identity was reused")
    return store

/-! ## Admitting a branch set -/

/-- `BranchSetDecision.leaf_branches`, as the ids of their works. -/
def leafWorkIds (decision : BranchSetDecision) : List Digest :=
  decision.plans.flatMap fun plan => plan.branches.filterMap fun
    | .leaf branch => some (d.work branch.workflowPlan.work)
    | .coordination _ => none

/-- `_preview_target_expectations`; without an accepted preview nothing is expected. -/
def previewTargetExpectations (record : WorkRecord) (decision : BranchSetDecision) :
    Service (List PreviewTargetExpectation) :=
  match record.previewAcceptance with
  | none => .ok []
  | some acceptance => do
    require (d.branchSet decision.plan = acceptance.branchSetSha256)
      (.state "planned branch set differs from the accepted workflow preview")
    let expected := acceptance.targetPlans.map (·.workId)
    let actual := leafWorkIds d decision
    require (expected ⊆ actual ∧ actual ⊆ expected)
      (.state "planned branches differ from the accepted workflow preview")
    return acceptance.targetPlans

/-- `expectations.get(work_id)`. -/
def expectedPlan (expectations : List PreviewTargetExpectation) (id : Digest) : Option Digest :=
  (expectations.find? (·.workId = id)).map (·.planSha256)

/-- The record that one branch is admitted with. -/
def childRecord (decision : BranchSetDecision) (expectations : List PreviewTargetExpectation) :
    BranchDeclaration → Service WorkRecord
  | .leaf branch => WorkRecord.validate d
      { work := branch.workflowPlan.work
        workflowPlan := some branch.workflowPlan
        expectedTargetPlanSha256 := expectedPlan expectations (d.work branch.workflowPlan.work) }
  | .coordination branch =>
    match (decision.branchSetDocuments d).lookup branch.branchSetSha256 with
    | none => .error (.python .keyError)
    | some plan => WorkRecord.validate d { work := branch.work, branchSetPlan := some plan }

/-- `_admitted_child_records`. -/
def admittedChildRecords (decision : BranchSetDecision)
    (expectations : List PreviewTargetExpectation) : Service (List WorkRecord) := do
  let records ← (decision.plans.flatMap (·.branches)).mapM (childRecord d decision expectations)
  return sortedBy (workId d) records

/-- Insert an admitted branch work, or find it as it would be inserted. -/
def insertChild (child : WorkRecord) : Service Store :=
  store.insertWork d child
    (fun existing => existing.work = child.work ∧ existing.workflowPlan = child.workflowPlan
      ∧ existing.branchSetPlan = child.branchSetPlan
      ∧ existing.expectedTargetPlanSha256 = child.expectedTargetPlanSha256)
    "branch child identity was reused"

/-- A stale expectation of the store. -/
def staleRevision (expected : Nat) (record : WorkRecord) : ServiceError :=
  .concurrent s!"stale stove0 work revision: {expected} != {record.revision}"

/-- The rest of `admit_branch_set` for a work that may take the branch set. -/
def insertBranchSet (current : WorkRecord) (decision : BranchSetDecision) : Service Store := do
  let expectations ← previewTargetExpectations d current decision
  let store ← decision.selections.foldlM (retainSelection d) store
  let children ← admittedChildRecords d decision expectations
  let store ← children.foldlM (insertChild d) store
  let replacement ← current.replace d
    { current with phase := .coordinating, branchSetPlan := some decision.plan }
  return store.putWork d replacement

/-- `admit_branch_set`. -/
def admitBranchSet (id : Digest) (expectedRevision : Nat) (decision : BranchSetDecision) :
    Service Store := do
  Service.ofPy (decision.verify d)
  let current ← store.load id
  if current.branchSetPlan = some decision.plan then return store
  else do
    require (current.revision = expectedRevision) (staleRevision expectedRevision current)
    require (current.phase = .planning ∧ decision.plan.parentWork = current.work)
      (.state "work cannot admit this branch set")
    store.insertBranchSet d current decision

/-! ## Admitting a join -/

/-- Insert the join work, or find it as it would be inserted. -/
def insertJoin (child : WorkRecord) : Service Store :=
  store.insertWork d child
    (fun existing => existing.work = child.work ∧ existing.workflowPlan = child.workflowPlan)
    "join work identity was reused"

/-- The rest of `admit_join` for a coordinator without a join. -/
def insertJoinPlan (current : WorkRecord) (plan : JoinPlan) (selections : List ArtifactSelection) :
    Service Store := do
  let store ← selections.foldlM (retainSelection d) store
  let child ← WorkRecord.validate d { work := plan.work, workflowPlan := some plan.workflowPlan }
  let store ← store.insertJoin d child
  let replacement ← current.replace d { current with joinPlan := some plan }
  return store.putWork d replacement

/-- `admit_join`. -/
def admitJoin (id : Digest) (expectedRevision : Nat) (plan : JoinPlan)
    (selections : List ArtifactSelection) : Service Store := do
  Service.ofPy plan.verify
  require (selections.map d.selection).Nodup
    (.python (.valueError "resolved join selections must be unique"))
  let current ← store.load id
  if current.joinPlan = some plan then return store
  else do
    require (current.revision = expectedRevision) (staleRevision expectedRevision current)
    require
      (current.phase = .coordinating ∧ current.branchSetPlan.any fun set =>
        plan.branchSetSha256 = d.branchSet set)
      (.state "work cannot admit this resolved join")
    require current.joinPlan.isNone (.concurrent "branch set already resolved another join plan")
    store.insertJoinPlan d current plan selections

end Store

/-! ## Target declarations -/

namespace Store

variable (x : External) (store : Store)

/-- The job of the execution that a record has sealed, if it has sealed one. -/
def currentJob (record : WorkRecord) : Option Digest :=
  record.controllerEvidence.map fun evidence => x.envelope evidence.executionEnvelope

variable (id job : Digest)

/-- `_require_target_generation`. -/
def requireTargetGeneration : Service Unit := do
  let record ← store.load id
  require (currentJob x record = some job) (.state "target execution generation is stale")

/-- The declared outputs with one more, in the order of their ids. -/
def insertOutput (outputs : List OutputArtifact) (output : OutputArtifact) :
    Service (List OutputArtifact) :=
  match outputs.find? (·.id = output.id) with
  | some existing => do
    require (existing = output) (.concurrent "target output declaration changed")
    return outputs
  | none => .ok (sortedBy (·.id) (outputs ++ [output]))

/-- `record_target_output`. -/
def recordTargetOutput (output : OutputArtifact) : Service Store := do
  store.requireTargetGeneration x id job
  require ((store.seals id job).all fun state => state = .receiving)
    (.state "target production declarations are closed")
  let outputs ← insertOutput (store.outputs id job) output
  return { store with
    outputs := fun w j => if w = id ∧ j = job then outputs else store.outputs w j }

/-- The state of the production seal of a job is written. -/
def putSeal (state : SealState) : Store :=
  { store with seals := fun w j => if w = id ∧ j = job then some state else store.seals w j }

/-- `ensure_target_production_receiving`. -/
def ensureTargetProductionReceiving : Service Store := do
  store.requireTargetGeneration x id job
  match store.seals id job with
  | some _ => return store
  | none => return store.putSeal id job .receiving

/-- The replacements that the callback authority makes of a production seal. -/
def SealState.Follows : SealState → SealState → Bool
  | .receiving, .sealing => true
  | .sealing, .sealing | .sealing, .sealed | .sealing, .failed => true
  | _, _ => false

/-- `_replace_seal`, with the compare-and-swap that it ends in. -/
def replaceSeal (state : SealState) : Service Store :=
  match store.seals id job with
  | none => .error (.python .keyError)
  | some current => do
    require (SealState.Follows current state) (.concurrent "stale target production seal revision")
    return store.putSeal id job state

end Store

/-- A call that the store runs as one transaction of its own. -/
inductive StoreCall where
  | createOrResume (work : WorkIdentity) (acceptance : Option PreviewAcceptance)
  | admitBranchSet (id : Digest) (expectedRevision : Nat) (decision : BranchSetDecision)
  | admitJoin (id : Digest) (expectedRevision : Nat) (plan : JoinPlan)
      (selections : List ArtifactSelection)
  | retainSelection (selection : ArtifactSelection)
  | recordTargetOutput (id job : Digest) (output : OutputArtifact)
  | ensureTargetProductionReceiving (id job : Digest)
  | replaceSeal (id job : Digest) (state : SealState)

/-- The store after a call. -/
def StoreCall.apply (x : External) (store : Store) : StoreCall → Service Store
  | .createOrResume work acceptance => do
    let record ← WorkRecord.validate x.toDigests { work, previewAcceptance := acceptance }
    store.create x.toDigests record
  | .admitBranchSet id revision decision => store.admitBranchSet x.toDigests id revision decision
  | .admitJoin id revision plan selections =>
    store.admitJoin x.toDigests id revision plan selections
  | .retainSelection selection => store.retainSelection x.toDigests selection
  | .recordTargetOutput id job output => store.recordTargetOutput x id job output
  | .ensureTargetProductionReceiving id job => store.ensureTargetProductionReceiving x id job
  | .replaceSeal id job state => store.replaceSeal id job state

end Riverhog.Stove0
