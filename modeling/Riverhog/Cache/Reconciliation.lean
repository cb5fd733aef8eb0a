import Riverhog.Cache.Accounting
import Riverhog.Core.Paging
import Mathlib.Data.Prod.Lex

/-!
# Reconciling the committed bytes of a cache store

`request_accounting_reconciliation_for_startup` and `process_accounting_reconciliation`
of `riverhog_core.services.retrieval_cache`, which add the objects of a store up in
bounded batches while other transactions register and evict objects. Every change of a
store's objects moves the generation of its accounting row; a batch of another
generation starts over. While the generation stands still, the rows that were added up
are a beginning of the sorted rows of the store (`Summed`), so an empty batch means that
all of them were.

Two columns that the admission of populations does not read are kept beside its tables:
the generation of an accounting row and the state of an object. An eviction is a task
between its transactions: it keeps what it read when it marked its object. Left out are
the leases and the order by which a victim is chosen, so any ready object may be taken,
the calls of the store, which may fail or not, and the times of last change.
-/

namespace Riverhog.Cache

open Core Function Table CacheDb List Except

/-! ## Rows -/

/-- The state of a cached object. -/
inductive ObjectState where
  | ready | deleting | deletePending
  deriving DecidableEq

/-- The order of `source_store, collection_id, object_id`. -/
def CacheKey.order (k : CacheKey) : Lex (Text × Lex (Nat × Text)) :=
  toLex (k.sourceStore, toLex (k.collectionId, k.objectId))

theorem CacheKey.order_injective : Injective CacheKey.order := by
  rintro ⟨s, c, o⟩ ⟨s', c', o'⟩ h
  obtain ⟨rfl, h⟩ := Prod.mk.inj (toLex.injective h)
  obtain ⟨rfl, rfl⟩ := Prod.mk.inj (toLex.injective h)
  rfl

/-- `RetrievalCacheAccountingReconciliationRecord`; the three cursor columns are set together. -/
structure ReconciliationRecord where
  cacheStore : Text
  generation : Nat
  after : Option CacheKey
  accumulatedBytes : Nat

/-- The tables of the cache with the columns that reconciliation reads. -/
structure LedgerDb where
  cache : CacheDb
  objectState : CacheKey → ObjectState
  generation : Text → Nat
  reconciliations : Table ReconciliationRecord.cacheStore

/-- What `_evict_one` keeps between its transactions. -/
structure Eviction where
  cacheStore : Text
  key : CacheKey
  objectPath : Text
  storedBytes : Nat
  deriving DecidableEq

namespace CacheDb

/-- The objects on a store. -/
def objectsOn (db : CacheDb) (cacheStore : Text) : List ObjectRecord :=
  db.objects.rows.filter fun o => o.receipt.cacheStore = cacheStore

/-- The bytes of the objects on a store. -/
def storedOn (db : CacheDb) (cacheStore : Text) : Nat :=
  db.objects.sumWhere (fun o => o.receipt.cacheStore = cacheStore) fun o => o.receipt.storedBytes

/-- The committed bytes of a store with an accounting row. -/
def committedOn (db : CacheDb) (cacheStore : Text) : Option Nat :=
  (db.accounting.get cacheStore).map AccountingRecord.committedBytes

end CacheDb

namespace LedgerDb

/-! ## Transactions -/

variable (db : LedgerDb)

/-- The generation of a store; a new accounting row starts with zero. -/
def generationOf (cacheStore : Text) : Nat :=
  if (db.cache.accounting.get cacheStore).isSome then db.generation cacheStore else 0

/-- One turn of `request_accounting_reconciliation_for_startup`. -/
def requestOne (cacheStore : Text) : Txn LedgerDb :=
  match db.reconciliations.get cacheStore with
  | some _ => .ok db
  | none => do
    let _ ← db.cache.accountingRow cacheStore
    match db.reconciliations.insert ⟨cacheStore, db.generation cacheStore, none, 0⟩ with
    | none => .error .integrity
    | some reconciliations => .ok { db with reconciliations }

/-- `request_accounting_reconciliation_for_startup`. -/
def requestReconciliation (stores : List Text) : Txn LedgerDb :=
  stores.foldlM requestOne db

/-- Change the reconciliation of a store. -/
def setReconciliation (r : ReconciliationRecord) : LedgerDb :=
  { db with
    reconciliations := db.reconciliations.update r.cacheStore
      (fun old => { r with cacheStore := old.cacheStore }) fun _ => rfl }

/-- The next objects of a store in the order of their keys. -/
def nextRows (cacheStore : Text) (after : Option CacheKey) (limit : Nat) :
    List ObjectRecord :=
  pageAfter (fun o => o.key.order) (db.cache.objectsOn cacheStore) (after.map CacheKey.order) limit

/-- `process_accounting_reconciliation`, once it has chosen a reconciliation. -/
def processReconciliation (r : ReconciliationRecord) (limit : Nat) :
    Txn LedgerDb := do
  let row ← db.cache.accountingRow r.cacheStore
  if r.generation ≠ db.generation r.cacheStore then
    return db.setReconciliation
      { r with generation := db.generation r.cacheStore, after := none, accumulatedBytes := 0 }
  else match db.nextRows r.cacheStore r.after limit with
    | [] =>
      return { db with
        cache := db.cache.setAccounting { row with committedBytes := r.accumulatedBytes }
        reconciliations := db.reconciliations.delete r.cacheStore }
    | first :: rest =>
      return db.setReconciliation { r with
        after := (first :: rest).getLast?.map ObjectRecord.key
        accumulatedBytes := r.accumulatedBytes +
          ((first :: rest).map fun o => o.receipt.storedBytes).sum }

/-- `process_accounting_reconciliation`; which of the unlocked reconciliations it chooses depends on
the other transactions. -/
def processAccountingReconciliation (cacheStore : Text) (limit : Int) :
    Txn LedgerDb :=
  if limit < 1 then .ok db
  else match db.reconciliations.get cacheStore with
    | none => .ok db
    | some r => db.processReconciliation r limit.toNat

/-- `register_cache_ready` with the columns kept here. -/
def registerReady (key : CacheKey) (receipt : Receipt) : Txn LedgerDb := do
  let cache ← db.cache.registerCacheReady key receipt
  match db.cache.objects.get key with
  | some _ =>
    return { db with
      cache
      generation :=
        update db.generation receipt.cacheStore (db.generationOf receipt.cacheStore) }
  | none =>
    return { db with
      cache
      objectState := update db.objectState key .ready
      generation :=
        update db.generation receipt.cacheStore (db.generationOf receipt.cacheStore + 1) }

/-- The first transaction of `_evict_one`, for the object that its query chooses. -/
def evictMark (cacheStore : Text) (key : CacheKey) : Option (LedgerDb × Eviction) :=
  match db.cache.objects.get key with
  | none => none
  | some cached =>
    if cached.receipt.cacheStore = cacheStore ∧ db.objectState key = .ready then
      some ({ db with objectState := update db.objectState key .deleting },
        ⟨cacheStore, key, cached.receipt.objectPath, cached.receipt.storedBytes⟩)
    else none

/-- The transaction of `_evict_one` after the store has failed to delete. -/
def evictFailed (e : Eviction) : LedgerDb :=
  if (db.cache.objects.get e.key).isSome ∧ db.objectState e.key = .deleting then
    { db with objectState := update db.objectState e.key .deletePending }
  else db

/-- `adjust_cache_committed_bytes` with a negative delta. -/
def takeCommitted (row : AccountingRecord) (bytes : Nat) : Txn LedgerDb :=
  if row.committedBytes < bytes then
    .error (.runtime "retrieval cache committed accounting is inconsistent")
  else .ok { db with
    cache := db.cache.setAccounting { row with committedBytes := row.committedBytes - bytes }
    generation := update db.generation row.cacheStore (db.generation row.cacheStore + 1) }

/-- The last transaction of `_evict_one`, after the store has deleted the object. -/
def evictFinish (e : Eviction) : Txn LedgerDb :=
  match db.cache.objects.get e.key with
  | none => .ok db
  | some current =>
    if db.objectState e.key ≠ .deleting ∨ current.receipt.objectPath ≠ e.objectPath then
      .error (.runtime "retrieval cache eviction ownership changed")
    else do
      let row ← db.cache.accountingRow e.cacheStore
      let db ← db.takeCommitted row e.storedBytes
      return { db with cache := { db.cache with objects := db.cache.objects.delete e.key } }

end LedgerDb

/-! ## Runs -/

/-- The database and the evictions between their transactions. -/
structure LedgerWorld where
  db : LedgerDb
  evictions : List Eviction

/-- What can happen next. -/
inductive LedgerEvent where
  | request (stores : List Text)
  | reconcile (cacheStore : Text) (limit : Int)
  | register (key : CacheKey) (receipt : Receipt)
  | evict (cacheStore : Text) (key : CacheKey)
  /-- The store fails to delete the object of an eviction. -/
  | evictionFailed (e : Eviction)
  /-- The store has deleted the object of an eviction. -/
  | evictionDone (e : Eviction)
  deriving DecidableEq

namespace LedgerWorld

/-- Commit a transaction, or roll it back. -/
def transact (w : LedgerWorld) (txn : Txn LedgerDb) : LedgerWorld :=
  match txn with
  | .ok db => { w with db }
  | .error _ => w

/-- One transaction. -/
def step (w : LedgerWorld) : LedgerEvent → LedgerWorld
  | .request stores => w.transact (w.db.requestReconciliation stores)
  | .reconcile cacheStore limit =>
    w.transact (w.db.processAccountingReconciliation cacheStore limit)
  | .register key receipt => w.transact (w.db.registerReady key receipt)
  | .evict cacheStore key =>
    match w.db.evictMark cacheStore key with
    | none => w
    | some (db, e) => ⟨db, e :: w.evictions⟩
  | .evictionFailed e =>
    if e ∈ w.evictions then ⟨w.db.evictFailed e, w.evictions.erase e⟩ else w
  | .evictionDone e =>
    if e ∈ w.evictions then { w.transact (w.db.evictFinish e) with evictions := w.evictions.erase e }
    else w

/-- A sequence of transactions in the order of their commits. -/
def run (w : LedgerWorld) (events : List LedgerEvent) : LedgerWorld := events.foldl step w

/-- Before the first reconciliation: nothing is known of the committed bytes. -/
structure Fresh (w : LedgerWorld) : Prop where
  reconciliations : w.db.reconciliations.rows = []
  evictions : w.evictions = []

/-- The committed bytes of a store are those of the objects on it. -/
def Exact (w : LedgerWorld) (cacheStore : Text) : Prop :=
  w.db.cache.committedOn cacheStore = some (w.db.cache.storedOn cacheStore)

/-- An event completes the reconciliation of a store. -/
def Completes (w : LedgerWorld) (event : LedgerEvent) (cacheStore : Text) : Prop :=
  (w.db.reconciliations.get cacheStore).isSome ∧
    (w.step event).db.reconciliations.get cacheStore = none

end LedgerWorld

/-! ## What the transactions change -/

namespace CacheDb

theorem storedOn_eq (db : CacheDb) (cacheStore : Text) :
    db.storedOn cacheStore = ((db.objectsOn cacheStore).map fun o => o.receipt.storedBytes).sum :=
  db.objects.sumWhere_eq_sum_filter _ _

variable {row : AccountingRecord} {db' : CacheDb}

variable {db : CacheDb} {old : AccountingRecord}

theorem committedOn_setAccounting
    (h : db.accounting.get row.cacheStore = some old) (s : Text) :
    (db.setAccounting row).committedOn s =
      if s = row.cacheStore then some row.committedBytes else db.committedOn s := by
  rw [committedOn, get_setAccounting h]
  split <;> rfl

/-- A row is there or is made; the others stay. -/
theorem ensureAccounting_spec {store : Text} {bytes : Nat}
    (h : db.ensureAccounting store bytes = .ok (db', row)) :
    db'.objects = db.objects ∧ db'.populations = db.populations ∧
      db'.accounting.get store = some row ∧ row.cacheStore = store ∧
      ∀ s c, db.committedOn s = some c → db'.committedOn s = some c := by
  unfold ensureAccounting at h
  split at h
  · rename_i row' hrow
    obtain ⟨rfl, rfl⟩ := Prod.mk.inj (ok.inj h)
    exact ⟨rfl, rfl, hrow, (get_eq_some_iff.1 hrow).2, fun _ _ => id⟩
  · rename_i hnone
    dsimp only at h
    split at h
    · rename_i accounting hinsert
      obtain ⟨rfl, rfl⟩ := Prod.mk.inj (ok.inj h)
      refine ⟨rfl, rfl, get_insert_self hinsert, rfl, fun s c hc => ?_⟩
      have hne : s ≠ store := by
        rintro rfl
        simp [committedOn, hnone] at hc
      have hget := get_insert_of_ne hinsert hne
      rwa [committedOn, hget]
    · cases h

/-- Settling a population leaves the committed bytes that the row states. -/
theorem settlePopulation_spec {p : PopulationRecord}
    (hrow : db.accounting.get row.cacheStore = some old) (h : db.settlePopulation row p = .ok db') :
    db'.objects = db.objects ∧
      ∀ s, db'.committedOn s = if s = row.cacheStore then some row.committedBytes
        else db.committedOn s := by
  rw [settlePopulation, bind_eq_ok] at h
  obtain ⟨db₁, h₁, h⟩ := h
  obtain ⟨-, rfl⟩ := unreserve_eq_ok h₁
  obtain rfl := ok.inj h
  have hold : db.accounting.get
      { row with reservedBytes := row.reservedBytes - p.expectedBytes }.cacheStore = some old := hrow
  exact ⟨rfl, fun s => committedOn_setAccounting hold s⟩

/-- What a registration changes: nothing for an object that is there; otherwise it adds the object and
its bytes. -/
theorem registerCacheReady_spec {key : CacheKey} {receipt : Receipt}
    (h : db.registerCacheReady key receipt = .ok db') :
    ((db.objects.get key).isSome ∧ db'.objects = db.objects ∧
      ∀ s c, db.committedOn s = some c → db'.committedOn s = some c) ∨
    (db.objects.get key = none ∧ db.objects.insert ⟨key, receipt⟩ = some db'.objects ∧
      ∀ s c, db.committedOn s = some c → db'.committedOn s =
        some (c + if receipt.cacheStore = s then receipt.storedBytes else 0)) := by
  unfold registerCacheReady at h
  split at h
  · rename_i existing hexisting
    refine .inl ⟨by simp [hexisting], ?_⟩
    split at h
    · cases h
    · split at h
      · obtain rfl := ok.inj h
        exact ⟨rfl, fun _ _ => id⟩
      · split at h
        · cases h
        · rw [bind_eq_ok] at h
          obtain ⟨⟨db₁, row⟩, h₁, h⟩ := h
          obtain ⟨hobjects, -, hrow, hstore, hkeep⟩ := ensureAccounting_spec h₁
          obtain ⟨hobjects', hcommitted⟩ := settlePopulation_spec (hstore ▸ hrow) h
          refine ⟨hobjects'.trans hobjects, fun s c hc => ?_⟩
          have hc₁ := hkeep s c hc
          rw [hcommitted]
          split
          · rename_i hs
            rw [hs, hstore, committedOn, hrow] at hc₁
            exact hc₁
          · exact hc₁
  · rename_i hnone
    refine .inr ⟨hnone, ?_⟩
    split at h
    · cases h
    · split at h
      · cases h
      · rename_i objects hinsert
        rw [bind_eq_ok] at h
        obtain ⟨⟨db₁, row⟩, h₁, h⟩ := h
        obtain ⟨hobjects, -, hrow, hstore, hkeep⟩ := ensureAccounting_spec h₁
        set row' : AccountingRecord :=
          { row with committedBytes := row.committedBytes + receipt.storedBytes } with hrow'
        have hget : db₁.accounting.get row'.cacheStore = some row := hstore ▸ hrow
        have hset := committedOn_setAccounting hget
        -- the committed bytes of the row that is written
        have hadd : ∀ s c, db.committedOn s = some c →
            (if s = row'.cacheStore then some row'.committedBytes else db₁.committedOn s) =
              some (c + if receipt.cacheStore = s then receipt.storedBytes else 0) := by
          intro s c hc
          have hc₁ := hkeep s c hc
          by_cases hs : s = receipt.cacheStore
          · subst hs
            rw [committedOn, hrow] at hc₁
            rw [if_pos (hstore : row'.cacheStore = _).symm, if_pos rfl, hrow', Option.some.inj hc₁]
          · rw [if_neg fun he => hs (he.trans hstore), if_neg fun he => hs he.symm, hc₁,
              Nat.add_zero]
        simp only at h
        split at h
        · obtain rfl := ok.inj h
          exact ⟨hinsert.trans (congrArg some hobjects.symm),
            fun s c hc => (hset s).trans (hadd s c hc)⟩
        · split at h
          · cases h
          · have hget' : (db₁.setAccounting row').accounting.get row'.cacheStore = some row' :=
              get_update_self hget (fun r => { row' with cacheStore := r.cacheStore }) fun _ => rfl
            obtain ⟨hobjects', hcommitted⟩ := settlePopulation_spec hget' h
            refine ⟨hinsert.trans (congrArg some (hobjects'.trans hobjects).symm), fun s c hc => ?_⟩
            rw [hcommitted, hset, ← hadd s c hc]
            split_ifs <;> rfl

end CacheDb

namespace LedgerDb

/-! ## Changes of the objects -/

/-- A change of objects: on each store either nothing that reconciliation reads changes, or the
generation moves on and the committed bytes change by as much as the bytes of the objects. -/
structure Advances (db db' : LedgerDb) : Prop where
  reconciliations : db'.reconciliations = db.reconciliations
  store : ∀ s c, db.cache.committedOn s = some c →
    (db'.generation s = db.generation s ∧ db'.cache.objectsOn s = db.cache.objectsOn s ∧
      db'.cache.committedOn s = some c) ∨
    (db.generation s < db'.generation s ∧ ∃ c', db'.cache.committedOn s = some c' ∧
      c' + db.cache.storedOn s = c + db'.cache.storedOn s)

theorem Advances.refl (db : LedgerDb) : Advances db db :=
  ⟨rfl, fun _ _ hc => .inl ⟨rfl, rfl, hc⟩⟩

variable {db : LedgerDb}

theorem generationOf_eq {s : Text} {c : Nat} (h : db.cache.committedOn s = some c) :
    db.generationOf s = db.generation s := by
  refine if_pos ?_
  cases hg : db.cache.accounting.get s with
  | none => simp [committedOn, hg] at h
  | some row => rfl

variable {key : CacheKey} {e : Eviction} {db' : LedgerDb} {r : ReconciliationRecord}

theorem Advances.registerReady {receipt : Receipt} (h : db.registerReady key receipt = .ok db') :
    Advances db db' := by
  rw [LedgerDb.registerReady, bind_eq_ok] at h
  obtain ⟨cache, hcache, h⟩ := h
  rcases registerCacheReady_spec hcache with
    ⟨hsome, hobjects, hkeep⟩ | ⟨hnone, hinsert, hadd⟩
  · obtain ⟨o, ho⟩ := Option.isSome_iff_exists.1 hsome
    rw [ho] at h
    obtain rfl := ok.inj h
    refine ⟨rfl, fun s c hc => .inl ⟨?_, ?_, hkeep s c hc⟩⟩
    · by_cases hs : s = receipt.cacheStore
      · subst hs
        simp only [update_self, generationOf_eq hc]
      · simp only [update_of_ne hs]
    · simp only [objectsOn, hobjects]
  · rw [hnone] at h
    obtain rfl := ok.inj h
    refine ⟨rfl, fun s c hc => ?_⟩
    have hc' := hadd s c hc
    by_cases hs : receipt.cacheStore = s
    · subst hs
      refine .inr ⟨?_, _, hc', ?_⟩
      · simp only [update_self, generationOf_eq hc, Nat.lt_succ_self]
      · have hsum := sum_insert hinsert fun o =>
          if decide (o.receipt.cacheStore = receipt.cacheStore) then o.receipt.storedBytes else 0
        simp only [storedOn, sumWhere, hsum, decide_true, if_true]
        omega
    · refine .inl ⟨?_, ?_, ?_⟩
      · simp only [update_of_ne (Ne.symm hs)]
      · simp [objectsOn, (insert_eq_some hinsert).2, filter_append, hs]
      · rwa [if_neg hs] at hc'

/-- The object of an eviction is still the one that it marked. -/
def Owned (db : LedgerDb) (e : Eviction) : Prop :=
  ∃ o, db.cache.objects.get e.key = some o ∧ o.receipt.cacheStore = e.cacheStore ∧
    o.receipt.storedBytes = e.storedBytes ∧ db.objectState e.key = .deleting

theorem takeCommitted_eq_ok {row : AccountingRecord} {bytes : Nat}
    (h : db.takeCommitted row bytes = .ok db') :
    bytes ≤ row.committedBytes ∧ db' = { db with
      cache := db.cache.setAccounting { row with committedBytes := row.committedBytes - bytes }
      generation :=
        update db.generation row.cacheStore (db.generation row.cacheStore + 1) } := by
  unfold takeCommitted at h
  split at h
  · cases h
  · exact ⟨Nat.not_lt.1 ‹_›, (ok.inj h).symm⟩

/-- What the last transaction of an eviction does with the object that it owns. -/
theorem evictFinish_eq_ok {o : ObjectRecord} (ho : db.cache.objects.get e.key = some o)
    (h : db.evictFinish e = .ok db') :
    ∃ row, db.cache.accounting.get e.cacheStore = some row ∧ e.storedBytes ≤ row.committedBytes ∧
      db' = { db with
        cache := { db.cache.setAccounting
            { row with committedBytes := row.committedBytes - e.storedBytes } with
          objects := db.cache.objects.delete e.key }
        generation :=
          update db.generation row.cacheStore (db.generation row.cacheStore + 1) } := by
  unfold LedgerDb.evictFinish at h
  rw [ho] at h
  dsimp only at h
  split at h
  · cases h
  · simp only [bind_eq_ok, accountingRow_eq_ok] at h
    obtain ⟨row, hrow, db₁, h₁, h⟩ := h
    obtain ⟨hle, rfl⟩ := takeCommitted_eq_ok h₁
    exact ⟨row, hrow, hle, (ok.inj h).symm⟩

theorem Advances.evictFinish (howned : db.Owned e) (h : db.evictFinish e = .ok db') :
    Advances db db' := by
  obtain ⟨o, ho, hstore, hbytes, -⟩ := howned
  obtain ⟨row, hrow, hle, rfl⟩ := evictFinish_eq_ok ho h
  have hrs : row.cacheStore = e.cacheStore := (get_eq_some_iff.1 hrow).2
  have hget : db.cache.accounting.get
      { row with committedBytes := row.committedBytes - e.storedBytes }.cacheStore = some row :=
    hrs ▸ hrow
  refine ⟨rfl, fun s c hc => ?_⟩
  have hset := committedOn_setAccounting hget s
  by_cases hs : s = e.cacheStore
  · subst hs
    rw [committedOn, hrow, Option.map_some] at hc
    rw [if_pos hrs.symm] at hset
    refine .inr ⟨?_, _, hset, ?_⟩
    · simp only [hrs, update_self, Nat.lt_succ_self]
    · have hsum := sum_delete ho fun o =>
        if decide (o.receipt.cacheStore = e.cacheStore) then o.receipt.storedBytes else 0
      simp only [hstore, decide_true, if_true] at hsum
      simp only [storedOn, sumWhere]
      have := Option.some.inj hc
      omega
  · rw [if_neg fun he => hs (he.trans hrs)] at hset
    refine .inl ⟨?_, ?_, hset.trans hc⟩
    · simp only [hrs, update_of_ne hs]
    · -- the deleted object is on another store
      simp only [objectsOn, delete, deleteWhere, filter_filter]
      refine filter_congr fun o' ho' => ?_
      by_cases hk : o'.key = e.key
      · obtain rfl : o' = o := by
          have := get_eq_some_iff.2 ⟨ho', hk⟩
          exact Option.some.inj (this.symm.trans ho)
        have hne : o'.receipt.cacheStore ≠ s := fun he => hs (he.symm.trans hstore)
        simp [hne]
      · simp [hk]

/-! ## Evictions that own their object -/

theorem Owned.registerReady {receipt : Receipt} (howned : db.Owned e)
    (h : db.registerReady key receipt = .ok db') : db'.Owned e := by
  obtain ⟨o, ho, hstore, hbytes, hstate⟩ := howned
  rw [LedgerDb.registerReady, bind_eq_ok] at h
  obtain ⟨cache, hcache, h⟩ := h
  rcases registerCacheReady_spec hcache with ⟨hsome, hobjects, -⟩ | ⟨hnone, hinsert, -⟩
  · obtain ⟨o', ho'⟩ := Option.isSome_iff_exists.1 hsome
    rw [ho'] at h
    obtain rfl := ok.inj h
    exact ⟨o, by rw [← ho]; simp only [hobjects], hstore, hbytes, hstate⟩
  · have hne : e.key ≠ key := by
      rintro rfl
      rw [ho] at hnone
      cases hnone
    rw [hnone] at h
    obtain rfl := ok.inj h
    exact ⟨o, (get_insert_of_ne hinsert hne).trans ho, hstore, hbytes,
      (update_of_ne hne _ _).trans hstate⟩

/-- Other evictions keep their object. -/
theorem Owned.evictFinish {e' : Eviction} (howned : db.Owned e) (hne : e.key ≠ e'.key)
    (h : db.evictFinish e' = .ok db') : db'.Owned e := by
  obtain ⟨o, ho, hrest⟩ := howned
  cases hobject : db.cache.objects.get e'.key with
  | none =>
    unfold LedgerDb.evictFinish at h
    rw [hobject] at h
    obtain rfl := ok.inj h
    exact ⟨o, ho, hrest⟩
  | some o' =>
    obtain ⟨row, -, -, rfl⟩ := evictFinish_eq_ok hobject h
    obtain ⟨hmem, hkey⟩ := get_eq_some_iff.1 ho
    exact ⟨o, get_eq_some_iff.2 ⟨mem_delete.2 ⟨hmem, hkey ▸ hne⟩, hkey⟩, hrest⟩

theorem evictMark_eq_some {cacheStore : Text} (h : db.evictMark cacheStore key = some (db', e)) :
    e.key = key ∧ db.objectState key = .ready ∧
      db' = { db with objectState := update db.objectState key .deleting } ∧
      db'.Owned e := by
  unfold evictMark at h
  split at h
  · cases h
  · rename_i cached hcached
    split at h
    · rename_i hcond
      obtain ⟨rfl, rfl⟩ := Prod.mk.inj (Option.some.inj h)
      exact ⟨rfl, hcond.2, rfl, cached, hcached, hcond.1, rfl, update_self ..⟩
    · cases h

theorem evictFailed_cases (db : LedgerDb) (e : Eviction) :
    db.evictFailed e = db ∨ db.evictFailed e =
      { db with objectState := update db.objectState e.key .deletePending } := by
  unfold evictFailed
  split
  · exact .inr rfl
  · exact .inl rfl

/-- A change of the state of another object. -/
theorem Owned.update (howned : db.Owned e) (hne : e.key ≠ key) (state : ObjectState) :
    { db with objectState := update db.objectState key state }.Owned e := by
  obtain ⟨o, ho, hstore, hbytes, hstate⟩ := howned
  exact ⟨o, ho, hstore, hbytes, (update_of_ne hne _ _).trans hstate⟩

/-! ## Reconciliations -/

/-- The rows added up so far are a beginning of the sorted rows of the store. -/
def Summed (db : LedgerDb) (r : ReconciliationRecord) : Prop :=
  ∃ read rest, sortedBy (fun o => o.key.order) (db.cache.objectsOn r.cacheStore) = read ++ rest ∧
    r.after.map CacheKey.order = lastKey (fun o : ObjectRecord => o.key.order) read ∧
    r.accumulatedBytes = (read.map fun o => o.receipt.storedBytes).sum

/-- What holds of every reconciliation: its store has an accounting row, its generation is not ahead,
and while it is current its sum is right. -/
structure Reconciling (db : LedgerDb) (r : ReconciliationRecord) : Prop where
  accounted : ∃ c, db.cache.committedOn r.cacheStore = some c
  behind : r.generation ≤ db.generation r.cacheStore
  summed : r.generation = db.generation r.cacheStore → db.Summed r

theorem summed_start (db : LedgerDb) (cacheStore : Text) (generation : Nat) :
    db.Summed ⟨cacheStore, generation, none, 0⟩ := ⟨[], _, rfl, rfl, rfl⟩

/-- A reconciliation outlives a change of objects: either its store is as before, or it is no longer
current. -/
theorem Reconciling.advance (h : db.Reconciling r) (ha : Advances db db') : db'.Reconciling r := by
  obtain ⟨c, hc⟩ := h.accounted
  rcases ha.store _ c hc with ⟨hgen, hobjects, hc'⟩ | ⟨hgen, c', hc', -⟩
  · refine ⟨⟨c, hc'⟩, hgen ▸ h.behind, fun he => ?_⟩
    obtain ⟨read, rest, hs, hlast, hsum⟩ := h.summed (he.trans hgen)
    exact ⟨read, rest, hobjects ▸ hs, hlast, hsum⟩
  · have := h.behind
    exact ⟨⟨c', hc'⟩, by omega, fun he => by omega⟩

theorem nodup_objectsOn (db : CacheDb) (cacheStore : Text) :
    ((db.objectsOn cacheStore).map fun o => o.key.order).Nodup := by
  have hkeys : ((db.objectsOn cacheStore).map ObjectRecord.key).Nodup :=
    db.objects.nodup.sublist (filter_sublist.map _)
  have hcomp := hkeys.map CacheKey.order_injective
  rwa [map_map] at hcomp

/-- A batch is the next part of the sorted rows. -/
theorem nextRows_of_summed (limit : Nat) {read rest : List ObjectRecord}
    (hs : sortedBy (fun o => o.key.order) (db.cache.objectsOn r.cacheStore) = read ++ rest)
    (hlast : r.after.map CacheKey.order = lastKey (fun o : ObjectRecord => o.key.order) read) :
    db.nextRows r.cacheStore r.after limit = rest.take limit := by
  rw [nextRows, hlast]
  exact pageAfter_lastKey (nodup_objectsOn db.cache r.cacheStore) hs limit

theorem mem_setReconciliation {r' : ReconciliationRecord}
    (h : r' ∈ (db.setReconciliation r).reconciliations.rows) :
    r' = r ∨ r' ∈ db.reconciliations.rows := by
  obtain ⟨old, hold, rfl⟩ := mem_map.1 h
  by_cases hk : old.cacheStore = r.cacheStore
  · left
    rw [if_pos hk]
    simp only [hk]
  · right
    rwa [if_neg hk]

/-- What one batch does: it starts over, completes with the right sum, or moves on. -/
theorem processReconciliation_cases {limit : Nat} (hlimit : 1 ≤ limit) (hr : db.Reconciling r)
    (h : db.processReconciliation r limit = .ok db') :
    (∃ r', r'.cacheStore = r.cacheStore ∧ db' = db.setReconciliation r' ∧ db.Reconciling r') ∨
    (∃ row, db.cache.accounting.get r.cacheStore = some row ∧ db' = { db with
      cache := db.cache.setAccounting { row with committedBytes := db.cache.storedOn r.cacheStore }
      reconciliations := db.reconciliations.delete r.cacheStore }) := by
  simp only [processReconciliation, bind_eq_ok, accountingRow_eq_ok] at h
  obtain ⟨row, hrow, h⟩ := h
  split at h
  · obtain rfl := ok.inj h
    exact .inl ⟨⟨r.cacheStore, db.generation r.cacheStore, none, 0⟩, rfl, rfl, hr.accounted, le_rfl,
      fun _ => db.summed_start _ _⟩
  · rename_i hgen
    obtain ⟨read, rest, hs, hlast, hsum⟩ := hr.summed (not_not.1 hgen)
    rw [nextRows_of_summed limit hs hlast] at h
    have hcut : sortedBy (fun o => o.key.order) (db.cache.objectsOn r.cacheStore) =
        (read ++ rest.take limit) ++ rest.drop limit := by
      rw [append_assoc, take_append_drop, hs]
    split at h
    · -- no row is left: the sum is over all of them
      rename_i hnil
      obtain rfl := ok.inj h
      have hrest : rest = [] := by
        rcases take_eq_nil_iff.1 hnil with hz | hr
        · omega
        · exact hr
      have hperm := sortedBy_perm (fun o : ObjectRecord => o.key.order)
        (db.cache.objectsOn r.cacheStore)
      rw [hs, hrest, append_nil] at hperm
      have hall : r.accumulatedBytes = db.cache.storedOn r.cacheStore := by
        rw [hsum, storedOn_eq, (hperm.map _).sum_eq]
      exact .inr ⟨row, hrow, by rw [hall]⟩
    · rename_i first page hpage
      obtain rfl := ok.inj h
      refine .inl ⟨⟨r.cacheStore, r.generation, (first :: page).getLast?.map ObjectRecord.key,
        r.accumulatedBytes + ((first :: page).map fun o => o.receipt.storedBytes).sum⟩, rfl, rfl,
        hr.accounted, hr.behind, fun _ => ⟨_, _, hcut, ?_, ?_⟩⟩
      · rw [hpage, lastKey_append (cons_ne_nil _ _), lastKey, Option.map_map]
        rfl
      · rw [hpage, map_append, sum_append, ← hsum]

end LedgerDb

namespace LedgerWorld

/-! ## Every run -/

/-- The invariant of all runs. -/
structure Inv (w : LedgerWorld) : Prop where
  owned : ∀ e ∈ w.evictions, w.db.Owned e
  distinct : (w.evictions.map Eviction.key).Nodup
  reconciling : ∀ r ∈ w.db.reconciliations.rows, w.db.Reconciling r

variable {db' : LedgerDb} {w w' : LedgerWorld} {s : Text}

theorem Fresh.inv (h : w.Fresh) : w.Inv where
  owned := by simp [h.evictions]
  distinct := by simp [h.evictions]
  reconciling := by simp [h.reconciliations]

/-- A change of objects keeps what the reconciliations know and the exact stores exact. -/
theorem Exact.advance (h : w.Exact s) (ha : LedgerDb.Advances w.db w'.db) : w'.Exact s := by
  rcases ha.store s _ h with ⟨-, hobjects, hc⟩ | ⟨-, c', hc, hsum⟩
  · rw [Exact, hc, storedOn_eq, storedOn_eq, hobjects]
  · rw [Exact, hc]
    congr 1
    omega

/-- A step keeps the invariant and every exact store, and a completed reconciliation leaves its store
exact. -/
structure Keeps (w w' : LedgerWorld) : Prop where
  inv : w'.Inv
  exact : ∀ s, w.Exact s → w'.Exact s
  completed : ∀ s, (w.db.reconciliations.get s).isSome → w'.db.reconciliations.get s = none →
    w'.Exact s

theorem Keeps.refl (h : w.Inv) : Keeps w w :=
  ⟨h, fun _ => id, fun s hs hnone => by rw [hnone] at hs; cases hs⟩

/-- A change of objects. -/
theorem Keeps.advance (h : w.Inv) (ha : LedgerDb.Advances w.db w'.db)
    (howned : ∀ e ∈ w'.evictions, w'.db.Owned e)
    (hdistinct : (w'.evictions.map Eviction.key).Nodup) :
    Keeps w w' where
  inv := ⟨howned, hdistinct, fun r hr => (h.reconciling r (ha.reconciliations ▸ hr)).advance ha⟩
  exact := fun _ hs => hs.advance ha
  completed := fun s hs hnone => by
    rw [ha.reconciliations] at hnone
    rw [hnone] at hs
    cases hs

/-- A change of the reconciliations alone. -/
theorem Keeps.reconciliations (h : w.Inv) {table : Table ReconciliationRecord.cacheStore}
    (hrows : ∀ r ∈ table.rows, w.db.Reconciling r)
    (hkeys : ∀ s, (w.db.reconciliations.get s).isSome → (table.get s).isSome) :
    Keeps w { w with db := { w.db with reconciliations := table } } where
  inv := ⟨h.owned, h.distinct, fun r hr => ⟨(hrows r hr).accounted, (hrows r hr).behind,
    (hrows r hr).summed⟩⟩
  exact := fun _ => id
  completed := fun s hs hnone => by
    have hsome := hkeys s hs
    rw [show table.get s = none from hnone] at hsome
    cases hsome

theorem Keeps.trans {w'' : LedgerWorld} (h : Keeps w w') (h' : Keeps w' w'') :
    Keeps w w'' where
  inv := h'.inv
  exact := fun s hs => h'.exact s (h.exact s hs)
  completed := fun s hs hnone => by
    cases hmid : w'.db.reconciliations.get s with
    | none => exact h'.exact s (h.completed s hs hmid)
    | some r => exact h'.completed s (by simp [hmid]) hnone

variable {store : Text}

theorem keeps_requestOne (h : w.Inv) (hreq : w.db.requestOne store = .ok db') :
    Keeps w { w with db := db' } := by
  unfold LedgerDb.requestOne at hreq
  split at hreq
  · obtain rfl := ok.inj hreq
    exact .refl h
  · rw [bind_eq_ok] at hreq
    obtain ⟨row, hrow, hreq⟩ := hreq
    split at hreq
    · cases hreq
    · rename_i table hinsert
      obtain rfl := ok.inj hreq
      have hget := accountingRow_eq_ok.1 hrow
      refine Keeps.reconciliations h (fun r hr => ?_) fun s hs => ?_
      · rw [(insert_eq_some hinsert).2, mem_append, mem_singleton] at hr
        rcases hr with hr | rfl
        · exact h.reconciling r hr
        · exact ⟨⟨row.committedBytes, by simp [committedOn, hget]⟩, le_rfl,
            fun _ => w.db.summed_start _ _⟩
      · by_cases hs' : s = store
        · subst hs'
          simp [get_insert_self hinsert]
        · rwa [get_insert_of_ne hinsert hs']

theorem keeps_request (h : w.Inv) {stores : List Text}
    (hreq : w.db.requestReconciliation stores = .ok db') : Keeps w { w with db := db' } := by
  induction stores generalizing w with
  | nil =>
    obtain rfl := ok.inj hreq
    exact .refl h
  | cons store rest ih =>
    rw [LedgerDb.requestReconciliation, foldlM_cons, bind_eq_ok] at hreq
    obtain ⟨db₁, h₁, hrest⟩ := hreq
    have hone := keeps_requestOne h h₁
    exact hone.trans (ih hone.inv hrest)

theorem isSome_get_setReconciliation {db : LedgerDb} {r : ReconciliationRecord}
    (h : (db.reconciliations.get s).isSome) :
    ((db.setReconciliation r).reconciliations.get s).isSome := by
  rw [Option.isSome_iff_ne_none, ne_eq, get_eq_none_iff] at h ⊢
  rwa [LedgerDb.setReconciliation, keys_update]

section

variable (h : w.Inv)
include h

/-- The last batch of a reconciliation. -/
theorem keeps_completed {row : AccountingRecord}
    (hrow : w.db.cache.accounting.get store = some row) :
    Keeps w { w with
      db := { w.db with
        cache := w.db.cache.setAccounting { row with committedBytes := w.db.cache.storedOn store }
        reconciliations := w.db.reconciliations.delete store } } := by
  obtain ⟨-, rfl⟩ := get_eq_some_iff.1 hrow
  set completed : AccountingRecord :=
    { row with committedBytes := w.db.cache.storedOn row.cacheStore } with hcompleted
  have hget : w.db.cache.accounting.get completed.cacheStore = some row := hrow
  have hset := committedOn_setAccounting hget
  have hexact : (w.db.cache.setAccounting completed).committedOn row.cacheStore =
      some (w.db.cache.storedOn row.cacheStore) := (hset row.cacheStore).trans (if_pos rfl)
  refine ⟨⟨h.owned, h.distinct, fun r hr => ?_⟩, fun s hs => ?_, fun s hs hnone => ?_⟩
  · obtain ⟨hmem, hne⟩ := mem_delete.1 hr
    have hr := h.reconciling r hmem
    obtain ⟨c, hc⟩ := hr.accounted
    exact ⟨⟨c, (hset r.cacheStore).trans ((if_neg hne).trans hc)⟩, hr.behind, hr.summed⟩
  · by_cases he : s = row.cacheStore
    · subst he
      exact hexact
    · exact ((hset s).trans (if_neg he)).trans hs
  · by_cases he : s = row.cacheStore
    · subst he
      exact hexact
    · obtain ⟨r, hr⟩ := Option.isSome_iff_exists.1 hs
      obtain ⟨hmem, hkey⟩ := get_eq_some_iff.1 hr
      have hkept : (w.db.reconciliations.delete row.cacheStore).get s = some r :=
        get_eq_some_iff.2 ⟨mem_delete.2 ⟨hmem, hkey ▸ he⟩, hkey⟩
      rw [show (w.db.reconciliations.delete row.cacheStore).get s = none from hnone] at hkept
      cases hkept

theorem keeps_reconcile {limit : Int}
    (hstep : w.db.processAccountingReconciliation store limit = .ok db') :
    Keeps w { w with db := db' } := by
  unfold LedgerDb.processAccountingReconciliation at hstep
  split at hstep
  · obtain rfl := ok.inj hstep
    exact .refl h
  · rename_i hlimit
    split at hstep
    · obtain rfl := ok.inj hstep
      exact .refl h
    · rename_i r hr
      obtain ⟨hmem, rfl⟩ := get_eq_some_iff.1 hr
      rcases LedgerDb.processReconciliation_cases (by omega) (h.reconciling r hmem) hstep with
        ⟨r', hstore, rfl, hr'⟩ | ⟨row, hrow, rfl⟩
      · refine Keeps.reconciliations h (fun q hq => ?_) fun s => isSome_get_setReconciliation
        rcases LedgerDb.mem_setReconciliation hq with rfl | hq
        · exact hr'
        · exact h.reconciling q hq
      · exact keeps_completed h hrow

/-- A transaction that keeps everything whenever it commits. -/
theorem Keeps.transact {txn : Txn LedgerDb}
    (hok : ∀ db', txn = .ok db' → Keeps w { w with db := db' }) : Keeps w (w.transact txn) := by
  cases txn with
  | ok db' => exact hok db' rfl
  | error e => exact .refl h

/-- The transactions of evictions. -/
theorem keeps_evict (store : Text) (key : CacheKey) :
    Keeps w (w.step (.evict store key)) := by
  rw [step]
  split
  · exact .refl h
  · rename_i db' e hmark
    obtain ⟨rfl, hready, rfl, howned⟩ := LedgerDb.evictMark_eq_some hmark
    -- the marked object was ready, so no other eviction has it
    have hne : ∀ e' ∈ w.evictions, e'.key ≠ e.key := by
      intro e' he' hkey
      obtain ⟨_, -, -, -, hstate⟩ := h.owned e' he'
      rw [hkey, hready] at hstate
      cases hstate
    refine .advance h ⟨rfl, fun s c hc => .inl ⟨rfl, rfl, hc⟩⟩ ?_ ?_
    · intro e' he'
      rcases mem_cons.1 he' with rfl | he'
      · exact howned
      · exact (h.owned e' he').update (hne e' he') _
    · rw [map_cons, nodup_cons]
      refine ⟨fun hmem => ?_, h.distinct⟩
      obtain ⟨e', he', hkey⟩ := mem_map.1 hmem
      exact hne e' he' hkey

/-- The other evictions, when one ends. -/
theorem Inv.erase {e : Eviction} (he : e ∈ w.evictions) :
    ((w.evictions.erase e).map Eviction.key).Nodup ∧
      ∀ e' ∈ w.evictions.erase e, e' ∈ w.evictions ∧ e'.key ≠ e.key := by
  refine ⟨h.distinct.sublist (erase_sublist.map _), fun e' he' => ?_⟩
  have hnodup : w.evictions.Nodup := Nodup.of_map _ h.distinct
  obtain ⟨hne, hmem⟩ := (Nodup.mem_erase_iff hnodup).1 he'
  exact ⟨hmem, fun hkey => hne (inj_on_of_nodup_map h.distinct hmem he hkey)⟩

theorem keeps_evictionFailed (e : Eviction) : Keeps w (w.step (.evictionFailed e)) := by
  rw [step]
  split
  · rename_i he
    obtain ⟨hnodup, hothers⟩ := h.erase he
    rcases w.db.evictFailed_cases e with heq | heq
    · rw [heq]
      exact .advance h (.refl _) (fun e' he' => h.owned e' (hothers e' he').1) hnodup
    · refine .advance h ⟨by rw [heq], fun s c hc => .inl ⟨by rw [heq], by rw [heq], ?_⟩⟩
        (fun e' he' => ?_) hnodup
      · rw [heq]
        exact hc
      · obtain ⟨hmem, hne⟩ := hothers e' he'
        rw [heq]
        exact (h.owned e' hmem).update hne _
  · exact .refl h

theorem keeps_evictionDone (e : Eviction) : Keeps w (w.step (.evictionDone e)) := by
  rw [step]
  split
  · rename_i he
    obtain ⟨hnodup, hothers⟩ := h.erase he
    cases hfinish : w.db.evictFinish e with
    | error err =>
      exact .advance h (.refl _) (fun e' he' => h.owned e' (hothers e' he').1) hnodup
    | ok db' =>
      refine .advance h (.evictFinish (h.owned e he) hfinish) (fun e' he' => ?_) hnodup
      obtain ⟨hmem, hne⟩ := hothers e' he'
      exact (h.owned e' hmem).evictFinish hne hfinish
  · exact .refl h

/-- Every transaction keeps the invariant and the exact stores. -/
theorem keeps_step (event : LedgerEvent) : Keeps w (w.step event) := by
  cases event with
  | request stores => exact .transact h fun _ => keeps_request h
  | reconcile store limit => exact .transact h fun _ => keeps_reconcile h
  | register key receipt =>
    refine .transact h fun db' hreg => ?_
    exact .advance h (.registerReady hreg) (fun e he => (h.owned e he).registerReady hreg) h.distinct
  | evict store key => exact keeps_evict h store key
  | evictionFailed e => exact keeps_evictionFailed h e
  | evictionDone e => exact keeps_evictionDone h e

theorem inv_run (events : List LedgerEvent) : (w.run events).Inv := by
  induction events generalizing w with
  | nil => exact h
  | cons event rest ih => exact ih (keeps_step h event).inv

theorem Exact.run (hs : w.Exact s) (events : List LedgerEvent) : (w.run events).Exact s := by
  induction events generalizing w with
  | nil => exact hs
  | cons event rest ih => exact ih (keeps_step h event).inv ((keeps_step h event).exact s hs)

end

/-- When a reconciliation completes, the committed bytes of its store are those of the objects on it,
and they stay so. -/
theorem reconciliation_exact {w : LedgerWorld} (h : w.Fresh) (before : List LedgerEvent)
    (event : LedgerEvent) (s : Text) (hc : (w.run before).Completes event s)
    (after : List LedgerEvent) : (((w.run before).step event).run after).Exact s := by
  have hinv := inv_run h.inv before
  have hkeep := keeps_step hinv event
  exact Exact.run hkeep.inv (hkeep.completed s hc.1 hc.2) after

/-- A store with a wrong counter: an object is registered during the reconciliation, which starts over
and completes, and the object is evicted. -/
theorem reconciliation_exact_example :
    ∃ (w : LedgerWorld) (before : List LedgerEvent) (event : LedgerEvent) (after : List LedgerEvent),
      w.Fresh ∧ ¬ w.Exact ['s'] ∧ (w.run before).Completes event ['s'] ∧
      (((w.run before).step event).run after).Exact ['s'] := by
  let key : CacheKey := ⟨['a'], 1, ['o']⟩
  let receipt : Receipt := ⟨['s'], ['p'], none, 5, none⟩
  let db : CacheDb := ⟨empty, [], ⟨[⟨['s'], 0, 99⟩], by decide⟩, empty⟩
  let w : LedgerWorld := ⟨⟨db, fun _ => .ready, fun _ => 0, empty⟩, []⟩
  let before : List LedgerEvent :=
    [.request [['s']], .register key receipt, .reconcile ['s'] 10, .reconcile ['s'] 10]
  let after : List LedgerEvent := [.evict ['s'] key, .evictionDone ⟨['s'], key, ['p'], 5⟩]
  have hfresh : w.Fresh := ⟨rfl, rfl⟩
  have hc : (w.run before).Completes (.reconcile ['s'] 10) ['s'] :=
    ⟨by decide +kernel, by decide +kernel⟩
  have hwrong : ¬ w.Exact ['s'] := by
    unfold Exact
    decide +kernel
  exact ⟨w, before, _, after, hfresh, hwrong, hc, reconciliation_exact hfresh before _ _ hc after⟩

end LedgerWorld

end Riverhog.Cache
