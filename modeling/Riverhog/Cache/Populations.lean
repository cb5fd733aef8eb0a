import Riverhog.Core.Sha256
import Riverhog.Core.Utf8
import Riverhog.Core.Table

/-!
# Admission to the retrieval cache

The transactions of `riverhog_core.services.retrieval_cache` on the populations of the
cache, their claims and the accounting row of each cache store, and the workers that
run them one after another. A worker keeps what it read in an earlier transaction while
others commit in between, so each worker is a task with a program counter.

Left out: the times of last change and the failure text, which no transaction reads;
the leases and the choice of a victim in `_evict_one`, so that a ready object may go at
any time; and the order and limit of the reaper's query, so that it may take any of the
populations without a claim.
-/

namespace Riverhog.Cache

open Core

/-! ## Rows -/

/-- The key of a cached object. -/
structure CacheKey where
  sourceStore : Text
  collectionId : Nat
  objectId : Text
  deriving DecidableEq

/-- The state of a population. -/
inductive PopulationState where
  | waiting | admitting | admitted | writing | abandoning
  deriving DecidableEq

/-- `RetrievalCachePopulationRecord`. -/
structure PopulationRecord where
  key : CacheKey
  cacheStore : Option Text
  objectPath : Option Text
  writeToken : Option Text
  expectedBytes : Nat
  state : PopulationState
  initiatedAt : Text

/-- `RetrievalCacheStoreAccountingRecord`. -/
structure AccountingRecord where
  cacheStore : Text
  reservedBytes : Nat
  committedBytes : Nat

/-- `RetrievalCacheReceipt`, without its times. -/
structure Receipt where
  cacheStore : Text
  objectPath : Text
  revision : Option Text
  storedBytes : Nat
  storedSha256 : Option Text
  deriving DecidableEq

/-- `RetrievalCacheObjectRecord`. -/
structure ObjectRecord where
  key : CacheKey
  receipt : Receipt

/-- The tables of the cache. -/
structure CacheDb where
  populations : Table PopulationRecord.key
  claims : List (Text × CacheKey)
  accounting : Table AccountingRecord.cacheStore
  objects : Table ObjectRecord.key

/-- The configuration of a cache store. -/
structure Registration where
  name : Text
  admissionEnabled : Bool
  admissionBudgetBytes : Option Nat
  deriving DecidableEq

/-- `RetrievalCacheAdmission` with a write token. -/
structure Admission where
  owner : Text
  key : CacheKey
  cacheStore : Text
  objectPath : Text
  writeToken : Text
  expectedBytes : Nat
  admittedAt : Text
  deriving DecidableEq

/-- The exceptions of the cache service. -/
inductive CacheError where
  | runtime (message : String)
  | value (message : String)
  /-- A constraint of the database. -/
  | integrity
  deriving DecidableEq

/-- One transaction; an exception rolls it back. -/
abbrev Txn := Except CacheError

namespace CacheDb

/-! ## Transactions -/

section

variable (db : CacheDb)

/-- `_accounting`. -/
def accountingRow (cacheStore : Text) : Txn AccountingRecord :=
  match db.accounting.get cacheStore with
  | some row => .ok row
  | none => .error (.runtime "retrieval cache accounting is unavailable")

/-- Change the accounting row of a store. -/
def setAccounting (row : AccountingRecord) : CacheDb :=
  { db with
    accounting := db.accounting.update row.cacheStore
      (fun r => { row with cacheStore := r.cacheStore }) fun _ => rfl }

/-- Change the population of a key. -/
def setPopulation (p : PopulationRecord) : CacheDb :=
  { db with
    populations := db.populations.update p.key (fun r => { p with key := r.key }) fun _ => rfl }

/-- Delete a population; its claims go with it. -/
def deletePopulation (key : CacheKey) : CacheDb :=
  { db with
    populations := db.populations.delete key
    claims := db.claims.filter fun claim => claim.2 ≠ key }

/-- A population with a claim on it. -/
def claimed (key : CacheKey) : Bool := db.claims.any fun claim => claim.2 = key

/-- `_claim`. -/
def claim (owner : Text) (key : CacheKey) : CacheDb :=
  if (owner, key) ∈ db.claims then db else { db with claims := db.claims ++ [(owner, key)] }

/-- What the first transaction of `_admit` leads to. -/
inductive Opened where
  /-- The worker returns: the object is ready, is being abandoned or is admitted. -/
  | finished
  /-- The worker goes on, with the store that was selected before, if any. -/
  | selected (cacheStore : Option Text)
  deriving DecidableEq

/-- Read the population of a key, or start one that waits. -/
def establish (key : CacheKey) (expectedBytes : Nat) (now : Text) :
    Txn (CacheDb × PopulationRecord) :=
  match db.populations.get key with
  | some p =>
    if p.expectedBytes ≠ expectedBytes then
      .error (.runtime "retrieval cache population byte identity changed")
    else .ok (db, p)
  | none =>
    let p : PopulationRecord :=
      { key, cacheStore := none, objectPath := none, writeToken := none, expectedBytes
        state := .waiting, initiatedAt := now }
    match db.populations.insert p with
    | some populations => .ok ({ db with populations }, p)
    | none => .error .integrity

/-- The first transaction of `_admit`. -/
def admitOpen (owner : Text) (key : CacheKey) (expectedBytes : Nat) (now : Text) :
    Txn (CacheDb × Opened) :=
  match db.objects.get key with
  | some ready =>
    if ready.receipt.storedBytes ≠ expectedBytes then
      .error (.runtime "retrieval cache object byte identity changed")
    else .ok (db, .finished)
  | none => do
    let (db, p) ← db.establish key expectedBytes now
    if p.state = .abandoning then .ok (db, .finished)
    else if p.state = .admitted ∨ p.state = .writing then .ok (db.claim owner key, .finished)
    else .ok (db.claim owner key, .selected p.cacheStore)

/-- `_reserve_and_claim`: `none` asks the worker to start again. -/
def reserveAndClaim (store : Registration) (key : CacheKey)
    (expectedBytes : Nat) (objectPath : Text) : Txn (CacheDb × Option Bool) :=
  match db.populations.get key with
  | none => .ok (db, some false)
  | some p =>
    if p.cacheStore.isSome ∨ p.state ≠ .waiting then .ok (db, none)
    else do
      let row ← db.accountingRow store.name
      if store.admissionBudgetBytes.any fun budget =>
          row.reservedBytes + row.committedBytes + expectedBytes > budget then
        .ok (db, some false)
      else
        let db := db.setAccounting { row with reservedBytes := row.reservedBytes + expectedBytes }
        let db := db.setPopulation { p with
          cacheStore := some store.name
          objectPath := some objectPath
          writeToken := none
          state := .admitting }
        .ok (db, some true)

/-- Take bytes from the reserved ones; the database refuses to go below zero. -/
def unreserve (row : AccountingRecord) (bytes : Nat) : Txn CacheDb :=
  if row.reservedBytes < bytes then .error .integrity
  else .ok (db.setAccounting { row with reservedBytes := row.reservedBytes - bytes })

/-- `_release_reservation` with `waiting=True`, as `_admit` calls it. -/
def releaseReservation (cacheStore : Text) (key : CacheKey)
    (expectedBytes : Nat) : Txn CacheDb := do
  let row ← db.accountingRow cacheStore
  let db ← db.unreserve row expectedBytes
  match db.populations.get key with
  | none => .ok db
  | some p => .ok (db.setPopulation { p with
      cacheStore := none
      objectPath := none
      writeToken := none
      state := .waiting })

/-- The last transaction of `_admit`. -/
def admitFinish (owner : Text) (key : CacheKey) (cacheStore : Text)
    (objectPath writeToken : Text) : Txn CacheDb :=
  match db.populations.get key with
  | none => .error (.runtime "retrieval cache admission ownership changed")
  | some p =>
    if p.cacheStore ≠ some cacheStore then
      .error (.runtime "retrieval cache admission ownership changed")
    else if (owner, key) ∈ db.claims then
      .ok (db.setPopulation { p with
        objectPath := some objectPath
        writeToken := some writeToken
        state := .admitted })
    else .error (.runtime "retrieval cache admission claim was released")

/-- `_admission`. -/
def admission (p : PopulationRecord) (owner : Text) : Option Admission := do
  let cacheStore ← p.cacheStore
  let objectPath ← p.objectPath
  let writeToken ← p.writeToken
  some
    { owner, key := p.key, cacheStore, objectPath, writeToken
      expectedBytes := p.expectedBytes, admittedAt := p.initiatedAt }

/-- The transaction of `put`. -/
def putWriting (a : Admission) : Txn CacheDb :=
  match db.populations.get a.key with
  | none => .error (.runtime "retrieval cache admission is no longer current")
  | some p =>
    if (a.owner, a.key) ∈ db.claims ∧ admission p a.owner = some a then
      .ok (db.setPopulation { p with state := .writing })
    else .error (.runtime "retrieval cache admission is no longer current")

/-- The transaction of `release`. -/
def releaseOwner (owner : Text) : CacheDb :=
  { db with claims := db.claims.filter fun claim => claim.1 ≠ owner }

/-- What the reaper keeps of a population between its transactions. -/
structure Cleanup where
  key : CacheKey
  cacheStore : Option Text
  size : Nat

/-- The first transaction of `reap_abandoned_populations`, on one population. -/
def reapMark (key : CacheKey) : CacheDb × List Cleanup :=
  match db.populations.get key with
  | none => (db, [])
  | some p =>
    if db.claimed key then (db, [])
    else (db.setPopulation { p with state := .abandoning }, [⟨key, p.cacheStore, p.expectedBytes⟩])

end

/-- The first transaction of `reap_abandoned_populations`. -/
def reapMarkAll (db : CacheDb) : List CacheKey → CacheDb × List Cleanup
  | [] => (db, [])
  | key :: keys =>
    let (db, first) := db.reapMark key
    let (db, rest) := db.reapMarkAll keys
    (db, first ++ rest)

variable (db : CacheDb)

/-- The bytes that the reaper frees are those it saw in its first transaction. -/
def reapUnreserve (c : Cleanup) : Txn CacheDb :=
  match c.cacheStore with
  | none => .ok db
  | some cacheStore => do
    let row ← db.accountingRow cacheStore
    if row.reservedBytes < c.size then
      .error (.runtime "retrieval cache reservation accounting is inconsistent")
    else .ok (db.setAccounting { row with reservedBytes := row.reservedBytes - c.size })

/-- The transaction of `reap_abandoned_populations` for one population. A population
that was claimed again is put back; with a write token it would be admitting with a
token, which the database refuses. -/
def reapFinish (c : Cleanup) : Txn CacheDb :=
  match db.populations.get c.key with
  | none => .ok db
  | some p =>
    if p.state ≠ .abandoning then .ok db
    else if db.claimed c.key then
      match p.cacheStore with
      | none => .ok (db.setPopulation { p with state := .waiting })
      | some _ =>
        if p.writeToken.isSome then .error .integrity
        else .ok (db.setPopulation { p with state := .admitting })
    else do
      let db ← db.reapUnreserve c
      .ok (db.deletePopulation c.key)

/-- The accounting row of a store, made if it is not there. -/
def ensureAccounting (cacheStore : Text) (committedBytes : Nat) :
    Txn (CacheDb × AccountingRecord) :=
  match db.accounting.get cacheStore with
  | some row => .ok (db, row)
  | none =>
    let row : AccountingRecord := { cacheStore, reservedBytes := 0, committedBytes }
    match db.accounting.insert row with
    | some accounting => .ok ({ db with accounting }, row)
    | none => .error .integrity

/-- The population of a key gives its reservation back and goes. -/
def settlePopulation (row : AccountingRecord) (p : PopulationRecord) :
    Txn CacheDb := do
  let db ← db.unreserve row p.expectedBytes
  .ok (db.deletePopulation p.key)

/-- `register_cache_ready`. -/
def registerCacheReady (key : CacheKey) (receipt : Receipt) : Txn CacheDb :=
  match db.objects.get key with
  | some existing =>
    if existing.receipt ≠ receipt then
      .error (.runtime "retrieval cache ready placement changed")
    else match db.populations.get key with
      | none => .ok db
      | some p =>
        if p.cacheStore ≠ some receipt.cacheStore then
          .error (.runtime "retrieval cache store changed after admission")
        else do
          let (db, row) ← db.ensureAccounting receipt.cacheStore existing.receipt.storedBytes
          db.settlePopulation row p
  | none =>
    if (db.populations.get key).any fun p => p.expectedBytes ≠ receipt.storedBytes then
      .error (.runtime "retrieval cache ready byte identity changed")
    else match db.objects.insert ⟨key, receipt⟩ with
      | none => .error .integrity
      | some objects => do
        let (db, row) ← { db with objects }.ensureAccounting receipt.cacheStore 0
        let row := { row with committedBytes := row.committedBytes + receipt.storedBytes }
        let db := db.setAccounting row
        match db.populations.get key with
        | none => .ok db
        | some p =>
          if p.cacheStore ≠ some receipt.cacheStore then
            .error (.runtime "retrieval cache store changed after admission")
          else db.settlePopulation row p

/-- The last transaction of `_evict_one`. -/
def evict (key : CacheKey) : Txn CacheDb :=
  match db.objects.get key with
  | none => .ok db
  | some object => do
    let row ← db.accountingRow object.receipt.cacheStore
    if row.committedBytes < object.receipt.storedBytes then
      .error (.runtime "retrieval cache committed accounting is inconsistent")
    else
      let db := db.setAccounting
        { row with committedBytes := row.committedBytes - object.receipt.storedBytes }
      .ok { db with objects := db.objects.delete key }

end CacheDb

/-! ## Workers -/

/-- The arguments of `_admit`, and the time of its first transaction. -/
structure Job where
  owner : Text
  key : CacheKey
  expectedBytes : Nat
  now : Text

/-- Where a worker stands between two transactions. -/
inductive Task where
  /-- `_admit` is called. -/
  | admitting (job : Job)
  /-- The loop of `_admit` with no store selected, at the candidates that are left. -/
  | choose (job : Job) (candidates : List Registration)
  /-- A store is selected and is asked to begin the population. -/
  | populate (job : Job) (store : Registration) (rest : List Registration)
  /-- The store answered that its storage is insufficient. -/
  | refused (job : Job) (store : Registration) (rest : List Registration)
  /-- The store has begun a write. -/
  | begun (job : Job) (store : Registration) (objectPath writeToken : Text)
  /-- The reaper, with the populations it still has to remove. -/
  | reap (cleanup : List CacheDb.Cleanup)

/-- What a cache store answers, or how `_evict_one` ends. -/
inductive Reply where
  /-- A population is found completed. -/
  | completed
  | began (objectPath writeToken : Text)
  | insufficientStorage
  /-- Any other exception. -/
  | raised
  /-- A victim was evicted, so that the worker returns. -/
  | evicted
  /-- Nothing to report. -/
  | done
  deriving DecidableEq

/-- The candidates from a selected store on. -/
def selectedFrom (stores : List Registration) (cacheStore : Text) : List Registration :=
  stores.dropWhile fun store => store.name ≠ cacheStore

/-- `StorageAdapterRetrievalCache.object_path`. -/
def objectPathOf (key : CacheKey) : Text :=
  let identity := key.sourceStore ++ '\x00' :: (decimal key.collectionId ++ '\x00' :: key.objectId)
  let digest := sha256Hex (encodeUtf8 identity)
  "objects/" ++ digest.take 2 ++ '/' :: digest

/-- One turn of a worker: at most one transaction. A worker that returns or raises has
no task left. -/
def Task.advance (stores : List Registration) (db : CacheDb) (reply : Reply) :
    Task → CacheDb × Option Task
  | admitting job =>
    match db.admitOpen job.owner job.key job.expectedBytes job.now with
    | .error _ => (db, none)
    | .ok (db, .finished) => (db, none)
    | .ok (db, .selected none) => (db, some (choose job stores))
    | .ok (db, .selected (some cacheStore)) =>
      match selectedFrom stores cacheStore with
      | [] => (db, none)
      | store :: rest => (db, some (populate job store rest))
  | choose _ [] => (db, none)
  | choose job (store :: rest) =>
    if !store.admissionEnabled ||
        store.admissionBudgetBytes.any (fun budget => job.expectedBytes > budget) then
      (db, some (choose job rest))
    else
      match db.reserveAndClaim store job.key job.expectedBytes (objectPathOf job.key) with
      | .error _ => (db, none)
      | .ok (db, none) => (db, some (admitting job))
      | .ok (db, some true) => (db, some (populate job store rest))
      | .ok (db, some false) =>
        if reply = .evicted then (db, none) else (db, some (choose job rest))
  | populate job store rest =>
    match reply with
    | .began objectPath writeToken => (db, some (begun job store objectPath writeToken))
    | .insufficientStorage => (db, some (refused job store rest))
    | _ => (db, none)
  | refused job store rest =>
    match db.releaseReservation store.name job.key job.expectedBytes with
    | .error _ => (db, none)
    | .ok db => if reply = .evicted then (db, none) else (db, some (choose job rest))
  | begun job store objectPath writeToken =>
    match db.admitFinish job.owner job.key store.name objectPath writeToken with
    | .error _ => (db, none)
    | .ok db => (db, none)
  | reap [] => (db, none)
  | reap (c :: cleanup) =>
    if reply = .raised then (db, none)
    else match db.reapFinish c with
      | .error _ => (db, none)
      | .ok db => (db, some (reap cleanup))

/-- The database with the workers that run on it. -/
structure World where
  db : CacheDb
  tasks : List Task

/-- What can happen next. -/
inductive Event where
  /-- A worker calls `admit`; expected bytes must be positive. -/
  | call (job : Job)
  /-- The reaper runs its first transaction on some of the populations. -/
  | reap (keys : List CacheKey)
  /-- A worker takes its next turn. -/
  | turn (worker : Nat) (reply : Reply)
  | releaseOwner (owner : Text)
  | put (admission : Admission)
  | register (key : CacheKey) (receipt : Receipt)
  | evict (key : CacheKey)
  /-- A reconciliation sets the committed bytes of a store. -/
  | reconcile (cacheStore : Text) (committedBytes : Nat)

/-- A transaction whose exception changes nothing. -/
def World.transact (w : World) (txn : Txn CacheDb) : World :=
  match txn with
  | .error _ => w
  | .ok db => { w with db }

/-- One event. -/
def World.step (stores : List Registration) (w : World) : Event → World
  | .call job => if job.expectedBytes < 1 then w else { w with tasks := w.tasks ++ [.admitting job] }
  | .reap keys =>
    let (db, cleanup) := w.db.reapMarkAll keys
    { db, tasks := w.tasks ++ [.reap cleanup] }
  | .turn worker reply =>
    match w.tasks[worker]? with
    | none => w
    | some task =>
      let (db, next) := task.advance stores w.db reply
      { db, tasks := match next with
          | none => w.tasks.eraseIdx worker
          | some task => w.tasks.set worker task }
  | .releaseOwner owner => { w with db := w.db.releaseOwner owner }
  | .put admission => w.transact (w.db.putWriting admission)
  | .register key receipt => w.transact (w.db.registerCacheReady key receipt)
  | .evict key => w.transact (w.db.evict key)
  | .reconcile cacheStore committedBytes => w.transact do
      let row ← w.db.accountingRow cacheStore
      .ok (w.db.setAccounting { row with committedBytes })

end Riverhog.Cache
