import Riverhog.Core.Paging
import Riverhog.Core.Table
import Riverhog.Stove0.RecordCommitment

/-!
# Settling a target's outputs

When a target has succeeded, its output collection is final. Settlement reads the inventory of the
collection page by page, sets every file beside the next declared output, and commits to the
bindings; a checkpoint is stored after every page. Several workers may run the same call, and each
may stop at any point.
-/

namespace Riverhog.Stove0

open Core

/-! ## The portable inventory -/

/-- `ImmutableFileIdentityDocument`. -/
structure FileIdentity where
  path : Text
  bytes : Nat
  sha256 : Digest
  deriving DecidableEq

/-- `path_sort_key`. -/
def FileIdentity.sortKey (file : FileIdentity) : Bytes := encodeUtf8 file.path

/-- A file that Riverhog itself put into the collection. -/
def FileIdentity.isControl (file : FileIdentity) : Bool := "riverhog/".toList.isPrefixOf file.path

/-- The rows of one finalized collection. -/
structure FinalCollection where
  contentIdentity : Digest
  inventoryIdentity : Digest
  files : Table FileIdentity.path

/-- The files in the order of the inventory. -/
def FinalCollection.inventory (c : FinalCollection) : List FileIdentity :=
  sortedBy FileIdentity.sortKey c.files.rows

/-- A decoded inventory cursor. -/
structure InventoryCursor where
  collection : Nat
  inventoryIdentity : Digest
  after : Text
  deriving DecidableEq

/-- `PortableCollectionInventoryPage` with the fields of its authority. -/
structure InventoryPage where
  collection : Nat
  contentIdentity : Digest
  inventoryIdentity : Digest
  files : List FileIdentity
  nextCursor : Option InventoryCursor
  complete : Bool
  deriving DecidableEq

/-- What a call of settlement can raise. -/
inductive SettlementError where
  | runtimeError (message : String)
  | valueError (message : String)
  /-- Another built-in exception. -/
  | python (error : PyError)
  /-- An error of the Riverhog API. -/
  | riverhog (message : String)
  /-- `Stove0StateError`. -/
  | state (message : String)
  /-- `ConcurrentWorkUpdate`. -/
  | concurrent (message : String)
  deriving DecidableEq

/-- `get_portable_collection_inventory`. -/
def getPortableCollectionInventory (catalog : Nat → Option FinalCollection) (id : Nat)
    (cursor : Option InventoryCursor) (limit : Nat) (expected : Option Digest) :
    Except SettlementError InventoryPage := do
  require (cursor.isNone || expected.isSome)
    (.riverhog "inventory continuation requires its exact identity")
  require (1 ≤ limit && limit ≤ 1000)
    (.riverhog "collection inventory limit must be between 1 and 1000")
  require (cursor.all fun c => c.collection = id)
    (.riverhog "collection inventory cursor belongs to another collection")
  match catalog id with
  | none => throw (.riverhog "collection not found")
  | some collection =>
    require (expected.all fun e => e = collection.inventoryIdentity)
      (.riverhog "collection inventory identity changed")
    require (cursor.all fun c => c.inventoryIdentity = collection.inventoryIdentity)
      (.riverhog "collection inventory cursor is stale")
    let rows := pageAfter FileIdentity.sortKey collection.files.rows
      (cursor.map fun c => encodeUtf8 c.after) (limit + 1)
    let hasMore := decide (limit < rows.length)
    let files := rows.take limit
    return {
      collection := id
      contentIdentity := collection.contentIdentity
      inventoryIdentity := collection.inventoryIdentity
      files := files
      nextCursor :=
        if hasMore then files.getLast?.map fun f => ⟨id, collection.inventoryIdentity, f.path⟩
        else none
      complete := !hasMore }

/-! ## The seal -/

/-- `TargetSettlementSealCheckpoint`. -/
structure SettlementCheckpoint where
  inventoryIdentity : Option Digest
  inventoryCursor : Option InventoryCursor
  outputPathCursor : Option Text
  bindingHash : CheckpointSHA256
  artifactCount : Nat
  totalBytes : Nat
  deriving DecidableEq

/-- The checkpoint of a new seal. -/
def SettlementCheckpoint.start : SettlementCheckpoint := ⟨none, none, none, .new, 0, 0⟩

/-- The state of a seal with the column that belongs to it. -/
inductive SettlementStatus where
  | binding (checkpoint : SettlementCheckpoint)
  | sealed (settlement : TargetSettlementAuthority)
  | failed (failure : String)
  deriving DecidableEq

/-- The `settlement` column. -/
def SettlementStatus.settlement : SettlementStatus → Option TargetSettlementAuthority
  | sealed settlement => some settlement
  | binding _ | failed _ => none

/-- `TargetSettlementSealRecord`. -/
structure SettlementSeal where
  outputCollection : OutputCollectionRef
  productionSha256 : Digest
  revision : Nat
  status : SettlementStatus
  deriving DecidableEq

/-! ## One page -/

/-- `TargetOutputBinding`. -/
structure TargetOutputBinding where
  outputId : Text
  role : Text
  collection : OutputCollectionRef
  path : Text
  bytes : Nat
  sha256 : Digest
  mediaType : Option Text
  deriving DecidableEq

/-- The binding of a declared output to the output collection. -/
def OutputArtifact.binding (collection : OutputCollectionRef) (declared : OutputArtifact) :
    TargetOutputBinding :=
  ⟨declared.id, declared.role, collection, declared.path, declared.bytes, declared.sha256,
    declared.mediaType⟩

/-- The canonical JSON of the documents, `error` with the text of the `ValueError` where there is
none. -/
structure SettlementCodec where
  binding : TargetOutputBinding → Except String Bytes
  /-- `settlement_sha256`. -/
  settlementSha256 : TargetSettlementAuthority → Except String Digest
  /-- The text of the error for a set without bindings. -/
  emptyBindings : String

/-- What a call of settlement reads of the work record. -/
structure SettlementCall where
  output : OutputCollectionRef
  production : TargetProductionAuthority
  productionSha256 : Digest
  deriving DecidableEq

/-- The Riverhog collections and the declared outputs of one execution. -/
structure SettlementScope where
  jobId : Digest
  catalog : Nat → Option FinalCollection
  declared : Table OutputArtifact.id

/-- The domain of the commitment to the bindings. -/
def bindingDomain : String := "stove0-target-output-bindings/v1"

section

variable (scope : SettlementScope)

/-- `target_output_path_page`. -/
def SettlementScope.targetOutputPathPage (afterPath : Option Text)
    (limit : Nat) : List OutputArtifact :=
  pageAfter OutputArtifact.path scope.declared.rows afterPath limit

/-- The outputs that are read beside the files of a page. -/
def SettlementScope.declarations (c : SettlementCheckpoint)
    (files : List FileIdentity) : List OutputArtifact :=
  if files = [] then [] else scope.targetOutputPathPage c.outputPathCursor files.length

/-- The loop body of `_advance_settlement`. -/
def bindOutput (codec : SettlementCodec) (output : OutputCollectionRef)
    (checkpoint : SettlementCheckpoint) (pair : OutputArtifact × FileIdentity) :
    Except SettlementError SettlementCheckpoint := do
  let (declared, file) := pair
  require (declared.path = file.path && declared.bytes = file.bytes &&
      declared.sha256 = file.sha256)
    (.runtimeError "Riverhog artifact differs from its target declaration")
  let encoded ← (codec.binding (declared.binding output)).mapError .valueError
  return { checkpoint with
    bindingHash :=
      commitRecord bindingDomain checkpoint.bindingHash checkpoint.artifactCount encoded
    artifactCount := checkpoint.artifactCount + 1
    totalBytes := checkpoint.totalBytes + declared.bytes
    outputPathCursor := some declared.path }

/-- `TargetSettlementAuthority.seal` over the bindings of a checkpoint. -/
def sealSettlement (codec : SettlementCodec) (call : SettlementCall)
    (checkpoint : SettlementCheckpoint) : Except SettlementError TargetSettlementAuthority := do
  let sha256 ← checkpoint.bindingHash.hexdigest.mapError .python
  require (1 ≤ checkpoint.artifactCount) (.valueError codec.emptyBindings)
  let settlement : TargetSettlementAuthority := {
    jobId := scope.jobId
    productionSha256 := call.productionSha256
    outputCollection := call.output
    outputBindings := ⟨checkpoint.artifactCount, checkpoint.totalBytes, sha256⟩ }
  let _ ← (codec.settlementSha256 settlement).mapError .valueError
  return settlement

/-- The part of `_advance_settlement` from the inventory page to the replacement. -/
def advanceSettlement (codec : SettlementCodec) (call : SettlementCall)
    (limit : Nat) (checkpoint : SettlementCheckpoint) :
    Except SettlementError SettlementStatus := do
  let page ← getPortableCollectionInventory scope.catalog call.output.collectionId
    checkpoint.inventoryCursor limit checkpoint.inventoryIdentity
  let inventoryIdentity := checkpoint.inventoryIdentity.getD page.inventoryIdentity
  require (page.inventoryIdentity = inventoryIdentity &&
      page.collection = call.output.collectionId &&
      page.contentIdentity = call.output.contentIdentity)
    (.runtimeError "Riverhog output inventory changed during settlement")
  let files := page.files.filter fun f => !f.isControl
  let declarations := scope.declarations checkpoint files
  require (declarations.length = files.length)
    (.runtimeError "Riverhog output collection differs from target production")
  let next ← (declarations.zip files).foldlM (bindOutput codec call.output) checkpoint
  require (page.complete || page.nextCursor.isSome)
    (.runtimeError "Riverhog output inventory ended without completion")
  if page.complete then
    require ((scope.targetOutputPathPage next.outputPathCursor 1).isEmpty &&
        next.artifactCount = call.production.outputs.artifactCount &&
        next.totalBytes = call.production.outputs.totalBytes)
      (.runtimeError "post-root output bindings differ from target production")
    let settlement ← sealSettlement scope codec call next
    return .sealed settlement
  else
    return .binding { next with
      inventoryIdentity := some inventoryIdentity
      inventoryCursor := page.nextCursor }

end

/-! ## The store and the workers -/

/-- Where a worker is in `_advance_settlement`. -/
inductive SettlementWorker where
  | idle
  /-- The seal was read and is binding. -/
  | loaded (call : SettlementCall) (record : SettlementSeal) (checkpoint : SettlementCheckpoint)
  /-- The replacement was computed. -/
  | computed (call : SettlementCall) (expected : Nat) (replacement : SettlementSeal)
  /-- The call returned. -/
  | returned (settlement : Option TargetSettlementAuthority)
  deriving DecidableEq

/-- The job of the work record, the seal of the execution and the workers. -/
structure SettlementSystem where
  currentJob : Option Digest
  record : Option SettlementSeal
  workers : Nat → SettlementWorker

/-- `ensure_target_settlement_binding`: the existing record, or the new one. -/
def SettlementSystem.ensureTargetSettlementBinding (s : SettlementSystem) (scope : SettlementScope)
    (record : SettlementSeal) : Except SettlementError SettlementSeal := do
  require (s.currentJob = some scope.jobId) (.state "target execution generation is stale")
  let existing := s.record.getD record
  require (existing.outputCollection = record.outputCollection &&
      existing.productionSha256 = record.productionSha256)
    (.concurrent "target settlement binding changed")
  return existing

/-- The seal that a call starts with. -/
def SettlementCall.newSeal (call : SettlementCall) : SettlementSeal :=
  ⟨call.output, call.productionSha256, 1, .binding .start⟩

/-- What a worker goes on with once it has the seal. -/
def SettlementCall.resume (call : SettlementCall) (record : SettlementSeal) : SettlementWorker :=
  match record.status with
  | .failed _ => .idle
  | .sealed settlement => .returned (some settlement)
  | .binding checkpoint => .loaded call record checkpoint

/-- What a worker that lost the update returns: the settlement of the record it finds. -/
def SettlementCall.concurrent (call : SettlementCall) (record : SettlementSeal) :
    SettlementWorker :=
  if record.outputCollection = call.output && record.productionSha256 = call.productionSha256 then
    .returned record.status.settlement
  else .idle

/-- One step of the system. -/
inductive SettlementStep where
  /-- A worker starts a call and reads the seal. -/
  | start (worker : Nat) (call : SettlementCall)
  /-- A worker reads a page of the given size and computes the replacement. -/
  | compute (worker limit : Nat)
  /-- A worker replaces the seal. -/
  | replace (worker : Nat)
  /-- A worker stops. -/
  | crash (worker : Nat)
  /-- The work moves to another execution, or back to this one. -/
  | generation (job : Option Digest)

namespace SettlementSystem

/-- The system with one worker at another point. -/
def setWorker (s : SettlementSystem) (worker : Nat) (w : SettlementWorker) : SettlementSystem :=
  { s with workers := Function.update s.workers worker w }

/-- A worker reads the seal, which exists from then on. -/
def start (s : SettlementSystem) (scope : SettlementScope) (worker : Nat) (call : SettlementCall) :
    SettlementSystem :=
  match s.ensureTargetSettlementBinding scope call.newSeal with
  | .ok record => { s with record := some record }.setWorker worker (call.resume record)
  | .error _ => s.setWorker worker .idle

/-- A worker computes the replacement of the seal it has read. -/
def compute (s : SettlementSystem) (scope : SettlementScope) (codec : SettlementCodec)
    (worker limit : Nat) : SettlementSystem :=
  match s.workers worker with
  | .loaded call record checkpoint =>
    match advanceSettlement scope codec call limit checkpoint with
    | .ok status =>
      s.setWorker worker (.computed call record.revision
          { record with revision := record.revision + 1, status := status })
    | .error _ => s.setWorker worker .idle
  | _ => s

/-- `compare_and_swap_target_settlement_seal` and what `_advance_settlement` returns after it. -/
def replace (s : SettlementSystem) (scope : SettlementScope) (worker : Nat) : SettlementSystem :=
  match s.workers worker, s.record with
  | .computed call expected replacement, some current =>
    if s.currentJob = some scope.jobId then
      if current.revision = expected then
        { s with record := some replacement }.setWorker worker
          (.returned replacement.status.settlement)
      else s.setWorker worker (call.concurrent current)
    else s.setWorker worker .idle
  | .computed _ _ _, none => s.setWorker worker .idle
  | _, _ => s

/-- One step of the system. -/
def step (scope : SettlementScope) (codec : SettlementCodec) (s : SettlementSystem) :
    SettlementStep → SettlementSystem
  | .start worker call => s.start scope worker call
  | .compute worker limit => s.compute scope codec worker limit
  | .replace worker => s.replace scope worker
  | .crash worker => s.setWorker worker .idle
  | .generation job => { s with currentJob := job }

/-- Before the first call. -/
def initial (job : Option Digest) : SettlementSystem := ⟨job, none, fun _ => .idle⟩

/-- The system after some steps. -/
def run (scope : SettlementScope) (codec : SettlementCodec) (job : Option Digest)
    (steps : List SettlementStep) : SettlementSystem :=
  steps.foldl (step scope codec) (initial job)

end SettlementSystem

end Riverhog.Stove0
