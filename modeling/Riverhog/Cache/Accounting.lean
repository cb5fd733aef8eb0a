import Riverhog.Cache.Populations

/-!
# The reserved bytes of the cache stores

Each store's reserved bytes should be the sum of the bytes of the populations that hold
a reservation on it. Three transactions can break that sum: a reservation made for
another number of bytes than the population's, a release by a worker whose reservation
is no longer there, and a removal by a reaper that saw another reservation. Each keeps
the sum exactly when it concerns the reservation that the population holds; every other
transaction keeps it always.
-/

namespace Riverhog.Cache

open Core Table List Option

/-- The bytes that a population holds on a store. -/
def PopulationRecord.heldOn (cacheStore : Text) (p : PopulationRecord) : Nat :=
  if p.cacheStore = some cacheStore then p.expectedBytes else 0

namespace CacheDb

/-- The bytes of the populations that hold a reservation on a store. -/
def held (db : CacheDb) (cacheStore : Text) : Nat :=
  db.populations.sum (PopulationRecord.heldOn cacheStore)

/-- The reserved bytes of a store with an accounting row. -/
def reservedOn (db : CacheDb) (cacheStore : Text) : Option Nat :=
  (db.accounting.get cacheStore).map AccountingRecord.reservedBytes

/-- Every accounting row has the bytes of the populations that hold a reservation. -/
def Exact (db : CacheDb) : Prop :=
  ∀ row ∈ db.accounting.rows, row.reservedBytes = db.held row.cacheStore

instance (db : CacheDb) : Decidable db.Exact :=
  inferInstanceAs (Decidable (∀ row ∈ db.accounting.rows, _))

/-- What every transaction keeps: a store that is selected has an accounting row, and
populations have bytes. -/
structure Sound (db : CacheDb) : Prop where
  covered : ∀ p ∈ db.populations.rows, ∀ s ∈ p.cacheStore, s ∈ db.accounting.keys
  positive : ∀ p ∈ db.populations.rows, 1 ≤ p.expectedBytes

variable {row : AccountingRecord} {db db' : CacheDb} {key : CacheKey} {c : Cleanup}
  {bytes expected : Nat} {p : PopulationRecord} {path s store : Text} {claimed : Option Bool}
  {e : CacheError}

theorem exact_iff : db.Exact ↔ ∀ s n, db.reservedOn s = some n → n = db.held s := by
  constructor
  · intro h s n hn
    obtain ⟨row, hrow, rfl⟩ := map_eq_some_iff.1 hn
    obtain ⟨hmem, rfl⟩ := get_eq_some_iff.1 hrow
    exact h row hmem
  · intro h row hrow
    refine h row.cacheStore row.reservedBytes ?_
    rw [reservedOn, get_eq_some_iff.2 ⟨hrow, rfl⟩, map_some]

/-! ## Changes of single rows -/

theorem accountingRow_eq_ok : db.accountingRow s = .ok row ↔ db.accounting.get s = some row := by
  unfold accountingRow
  split <;> simp [*]

/-- An accounting row is replaced in its place. -/
theorem get_setAccounting {old : AccountingRecord}
    (h : db.accounting.get row.cacheStore = some old) (s : Text) :
    (db.setAccounting row).accounting.get s =
      if s = row.cacheStore then some row else db.accounting.get s := by
  unfold setAccounting
  split_ifs with hs
  · rw [hs, get_update_self h, (get_eq_some_iff.1 h).2]
  · rw [get_update_of_ne hs]

theorem reservedOn_setAccounting {old : AccountingRecord}
    (h : db.accounting.get row.cacheStore = some old) (s : Text) :
    (db.setAccounting row).reservedOn s =
      if s = row.cacheStore then some row.reservedBytes else db.reservedOn s := by
  rw [reservedOn, get_setAccounting h]
  split <;> rfl

/-- A population is replaced in its place. -/
theorem held_setPopulation {db : CacheDb} {p old : PopulationRecord}
    (h : db.populations.get p.key = some old) (s : Text) :
    (db.setPopulation p).held s + old.heldOn s = db.held s + p.heldOn s := by
  have hsum := sum_update h (fun r => { p with key := r.key }) (fun _ => rfl)
    (PopulationRecord.heldOn s)
  exact hsum

theorem held_deletePopulation {old : PopulationRecord} (h : db.populations.get key = some old)
    (s : Text) : (db.deletePopulation key).held s + old.heldOn s = db.held s :=
  sum_delete h (PopulationRecord.heldOn s)

theorem Sound.setAccounting {db : CacheDb} (h : db.Sound) (row : AccountingRecord) :
    (db.setAccounting row).Sound := by
  refine ⟨fun p hp s hs => ?_, h.positive⟩
  rw [CacheDb.setAccounting, keys_update]
  exact h.covered p hp s hs

theorem mem_setPopulation {q : PopulationRecord} (h : q ∈ (db.setPopulation p).populations.rows) :
    q ∈ db.populations.rows ∨ q.cacheStore = p.cacheStore ∧ q.expectedBytes = p.expectedBytes := by
  have hrows := mem_of_mem_update
    (fun r : PopulationRecord => (rfl : { p with key := r.key }.key = r.key)) h
  rcases hrows with hq | ⟨_, -, -, rfl⟩
  · exact .inl hq
  · exact .inr ⟨rfl, rfl⟩

theorem Sound.setPopulation {db : CacheDb} (h : db.Sound) {p : PopulationRecord}
    (hcovered : ∀ s ∈ p.cacheStore, s ∈ db.accounting.keys) (hpositive : 1 ≤ p.expectedBytes) :
    (db.setPopulation p).Sound := by
  refine ⟨fun q hq => ?_, fun q hq => ?_⟩
  · rcases mem_setPopulation hq with hq | ⟨hstore, -⟩
    · exact h.covered q hq
    · rw [hstore]
      exact hcovered
  · rcases mem_setPopulation hq with hq | ⟨-, hbytes⟩
    · exact h.positive q hq
    · rw [hbytes]
      exact hpositive

theorem Sound.deletePopulation (h : db.Sound) (key : CacheKey) : (db.deletePopulation key).Sound :=
  ⟨fun p hp => h.covered p (mem_delete.1 hp).1, fun p hp => h.positive p (mem_delete.1 hp).1⟩

theorem Sound.of_get (h : db.Sound) (hp : db.populations.get key = some p) :
    (∀ s ∈ p.cacheStore, s ∈ db.accounting.keys) ∧ 1 ≤ p.expectedBytes :=
  ⟨h.covered p (get_eq_some_iff.1 hp).1, h.positive p (get_eq_some_iff.1 hp).1⟩

/-! ## Transactions that keep the sum -/

/-- A transaction that keeps the sum and what goes with it. -/
structure Keeps (db db' : CacheDb) : Prop where
  sound : db'.Sound
  exact : db.Exact → db'.Exact

theorem Keeps.refl (h : db.Sound) : Keeps db db := ⟨h, id⟩

theorem Keeps.trans {db'' : CacheDb} (h : Keeps db db') (h' : Keeps db' db'') :
    Keeps db db'' := ⟨h'.sound, h'.exact ∘ h.exact⟩

theorem Exact.congr (hreserved : ∀ s, db'.reservedOn s = db.reservedOn s)
    (hheld : ∀ s, db'.held s = db.held s) (h : db.Exact) : db'.Exact := by
  simpa only [exact_iff, hreserved, hheld] using h

/-- A population changes in other columns than its reservation. -/
theorem Keeps.setPopulation {db : CacheDb} (h : db.Sound) {p old : PopulationRecord}
    (hold : db.populations.get p.key = some old) (hstore : p.cacheStore = old.cacheStore)
    (hbytes : p.expectedBytes = old.expectedBytes) : Keeps db (db.setPopulation p) := by
  obtain ⟨hcovered, hpositive⟩ := h.of_get hold
  refine ⟨h.setPopulation (hstore ▸ hcovered) (hbytes ▸ hpositive),
    Exact.congr (fun _ => rfl) fun s => ?_⟩
  have hsum := held_setPopulation hold s
  have hsame : p.heldOn s = old.heldOn s := by
    rw [PopulationRecord.heldOn, PopulationRecord.heldOn, hstore, hbytes]
  omega

/-- An accounting row changes in its committed bytes. -/
theorem Keeps.setAccounting {db : CacheDb} (h : db.Sound) {row old : AccountingRecord}
    (hold : db.accounting.get row.cacheStore = some old)
    (hreserved : row.reservedBytes = old.reservedBytes) : Keeps db (db.setAccounting row) := by
  refine ⟨h.setAccounting row, Exact.congr (fun s => ?_) fun s => rfl⟩
  rw [reservedOn_setAccounting hold]
  split
  · subst_vars
    rw [reservedOn, hold, map_some, hreserved]
  · rfl

theorem Keeps.claim (h : db.Sound) (owner : Text) (key : CacheKey) :
    Keeps db (db.claim owner key) := by
  unfold CacheDb.claim
  split
  · exact .refl h
  · exact ⟨⟨h.covered, h.positive⟩, id⟩

theorem Keeps.releaseOwner (h : db.Sound) (owner : Text) :
    Keeps db (db.releaseOwner owner) := ⟨⟨h.covered, h.positive⟩, id⟩

theorem get_key (h : db.populations.get key = some p) : p.key = key := (get_eq_some_iff.1 h).2

section

variable (h : db.Sound) {now : Text}
include h

theorem Keeps.establish (hpositive : 1 ≤ expected)
    (hok : db.establish key expected now = .ok (db', p)) : Keeps db db' := by
  unfold CacheDb.establish at hok
  split at hok
  · split at hok
    · cases hok
    · cases hok
      exact .refl h
  · dsimp only at hok
    split at hok
    · rename_i populations hinsert
      cases hok
      refine ⟨⟨fun q hq => ?_, fun q hq => ?_⟩, Exact.congr (fun _ => rfl) fun s => ?_⟩
      · simp only [(insert_eq_some hinsert).2, mem_append, mem_singleton] at hq
        rcases hq with hq | rfl
        · exact h.covered q hq
        · rintro _ ⟨⟩
      · simp only [(insert_eq_some hinsert).2, mem_append, mem_singleton] at hq
        rcases hq with hq | rfl
        · exact h.positive q hq
        · exact hpositive
      · exact (sum_insert hinsert (PopulationRecord.heldOn s)).trans (Nat.add_zero _)
    · cases hok

theorem Keeps.admitOpen {owner : Text} {opened : Opened}
    (hpositive : 1 ≤ expected) (hok : db.admitOpen owner key expected now = .ok (db', opened)) :
    Keeps db db' := by
  unfold CacheDb.admitOpen at hok
  split at hok
  · split at hok
    · cases hok
    · cases hok
      exact .refl h
  · obtain ⟨⟨db₁, p⟩, hestablish, hok⟩ := bind_eq_ok.1 hok
    have hkept := Keeps.establish h hpositive hestablish
    dsimp only at hok
    split at hok
    · cases hok
      exact hkept
    · split at hok
      · cases hok
        exact hkept.trans (.claim hkept.sound owner key)
      · cases hok
        exact hkept.trans (.claim hkept.sound owner key)

theorem Keeps.admitFinish {owner cacheStore : Text} {objectPath writeToken : Text}
    (hok : db.admitFinish owner key cacheStore objectPath writeToken = .ok db') : Keeps db db' := by
  unfold CacheDb.admitFinish at hok
  split at hok
  · cases hok
  · rename_i p hp
    split at hok
    · cases hok
    · split at hok
      · cases hok
        exact @Keeps.setPopulation db h { p with
          objectPath := some objectPath, writeToken := some writeToken, state := .admitted } p
          ((get_key hp).symm ▸ hp) rfl rfl
      · cases hok

theorem Keeps.putWriting {a : Admission} (hok : db.putWriting a = .ok db') :
    Keeps db db' := by
  unfold CacheDb.putWriting at hok
  split at hok
  · cases hok
  · rename_i p hp
    split at hok
    · cases hok
      exact @Keeps.setPopulation db h { p with state := .writing } p
        ((get_key hp).symm ▸ hp) rfl rfl
    · cases hok

theorem Keeps.reapMark (key : CacheKey) : Keeps db (db.reapMark key).1 := by
  unfold CacheDb.reapMark
  split
  · exact .refl h
  · rename_i p hp
    split
    · exact .refl h
    · exact @Keeps.setPopulation db h { p with state := .abandoning } p
        ((get_key hp).symm ▸ hp) rfl rfl

theorem Keeps.reapMarkAll (keys : List CacheKey) :
    Keeps db (db.reapMarkAll keys).1 := by
  induction keys generalizing db with
  | nil => exact .refl h
  | cons key keys ih =>
    have hfirst := Keeps.reapMark h key
    exact hfirst.trans (ih hfirst.sound)

theorem Keeps.evict (hok : db.evict key = .ok db') : Keeps db db' := by
  unfold CacheDb.evict at hok
  split at hok
  · cases hok
    exact .refl h
  · rename_i object _
    obtain ⟨row, hrow, hok⟩ := bind_eq_ok.1 hok
    rw [accountingRow_eq_ok] at hrow
    split at hok
    · cases hok
    · cases hok
      have hkey : row.cacheStore = object.receipt.cacheStore := (get_eq_some_iff.1 hrow).2
      have hkept := @Keeps.setAccounting db h
        { row with committedBytes := row.committedBytes - object.receipt.storedBytes } row
        (hkey.symm ▸ hrow) rfl
      exact ⟨⟨hkept.sound.covered, hkept.sound.positive⟩, hkept.exact⟩

end

/-! ## Transactions that free a reservation -/

/-- The bytes that the population of a key holds on a store. -/
def heldBy (db : CacheDb) (key : CacheKey) (cacheStore : Text) : Nat :=
  (db.populations.get key).elim 0 (PopulationRecord.heldOn cacheStore)

/-- Bytes are taken from one accounting row and from the populations: the sum is kept
exactly when they are the same. -/
theorem exact_freed_iff {r : Nat} {freed : Text → Nat} (hrow : db.reservedOn store = some r)
    (hle : bytes ≤ r)
    (hreserved : ∀ s, db'.reservedOn s = if s = store then some (r - bytes) else db.reservedOn s)
    (hheld : ∀ s, db'.held s + freed s = db.held s) (h : db.Exact) :
    db'.Exact ↔ freed store = bytes ∧ ∀ s ≠ store, ∀ n, db.reservedOn s = some n → freed s = 0 := by
  rw [exact_iff] at h ⊢
  have hr := h store r hrow
  have hstore := hheld store
  constructor
  · intro h'
    refine ⟨?_, fun s hs n hn => ?_⟩
    · have hnew := h' store (r - bytes) (by rw [hreserved, if_pos rfl])
      omega
    · have hnew := h' s n (by rw [hreserved, if_neg hs, hn])
      have hold := h s n hn
      have hsum := hheld s
      omega
  · rintro ⟨hsame, hothers⟩ s n hn
    rw [hreserved] at hn
    split at hn
    · subst_vars
      cases hn
      omega
    · rename_i hs
      have hzero := hothers s hs n hn
      have hold := h s n hn
      have hsum := hheld s
      omega

/-- A population holds bytes on one store only. -/
theorem heldOn_eq_zero (hb : 1 ≤ bytes) (h : p.heldOn store = bytes) (hs : s ≠ store) :
    p.heldOn s = 0 := by
  unfold PopulationRecord.heldOn at h ⊢
  split at h
  · rename_i hstore
    refine if_neg fun hstore' => hs ?_
    exact Option.some.inj (hstore'.symm.trans hstore)
  · omega

theorem unreserve_eq_ok (h : db.unreserve row bytes = .ok db') :
    bytes ≤ row.reservedBytes ∧
      db' = db.setAccounting { row with reservedBytes := row.reservedBytes - bytes } := by
  unfold unreserve at h
  split at h
  · cases h
  · cases h
    exact ⟨Nat.not_lt.1 ‹_›, rfl⟩

theorem reservedOn_unreserved (h : db.accounting.get store = some row) (bytes : Nat) (s : Text) :
    (db.setAccounting { row with reservedBytes := row.reservedBytes - bytes }).reservedOn s =
      if s = store then some (row.reservedBytes - bytes) else db.reservedOn s := by
  obtain rfl : row.cacheStore = store := (get_eq_some_iff.1 h).2
  exact reservedOn_setAccounting
    (show db.accounting.get { row with reservedBytes := row.reservedBytes - bytes }.cacheStore =
      some row from h) s

/-- Bytes are taken from an accounting row and a population goes: the sum is kept exactly when the
population holds them there. -/
theorem unreserve_delete_exact_iff (hexact : db.Exact) (hrow : db.accounting.get store = some row)
    (hle : bytes ≤ row.reservedBytes) (hpositive : 1 ≤ bytes)
    (hp : db.populations.get key = some p) :
    ((db.setAccounting { row with reservedBytes :=
      row.reservedBytes - bytes }).deletePopulation key).Exact ↔ p.heldOn store = bytes := by
  have hreserved : db.reservedOn store = some row.reservedBytes := congrArg (Option.map _) hrow
  have hfreed (s : Text) := @held_deletePopulation (db.setAccounting { row with reservedBytes :=
    row.reservedBytes - bytes }) key p hp s
  refine (exact_freed_iff hreserved hle ?_ hfreed hexact).trans ?_
  · exact reservedOn_unreserved hrow bytes
  · exact and_iff_left_of_imp fun hsame s hs n _ => heldOn_eq_zero hpositive hsame hs

/-- A release that commits takes its bytes from the accounting row and the reservation,
if there is one, from the population. -/
theorem releaseReservation_cases (h : db.releaseReservation store key expected = .ok db') :
    ∃ row, db.accounting.get store = some row ∧ expected ≤ row.reservedBytes ∧
      (∀ s, db'.reservedOn s =
        if s = store then some (row.reservedBytes - expected) else db.reservedOn s) ∧
      (∀ s, db'.held s + db.heldBy key s = db.held s) ∧ (db.Sound → db'.Sound) := by
  obtain ⟨row, hrow, h⟩ := bind_eq_ok.1 h
  obtain ⟨db₁, hdb₁, h⟩ := bind_eq_ok.1 h
  rw [accountingRow_eq_ok] at hrow
  obtain ⟨hle, rfl⟩ := unreserve_eq_ok hdb₁
  refine ⟨row, hrow, hle, ?_⟩
  have hreserved := reservedOn_unreserved hrow expected
  cases hp : db.populations.get key with
  | none =>
    have hp₁ : (db.setAccounting { row with reservedBytes :=
      row.reservedBytes - expected }).populations.get key = none := hp
    simp only [hp₁] at h
    cases h
    refine ⟨hreserved, fun s => ?_, fun hs => hs.setAccounting _⟩
    rw [heldBy, hp]
    rfl
  | some p =>
    have hp₁ : (db.setAccounting { row with reservedBytes :=
      row.reservedBytes - expected }).populations.get key = some p := hp
    simp only [hp₁] at h
    cases h
    refine ⟨hreserved, fun s => ?_, fun hs => ?_⟩
    · rw [heldBy, hp]
      have hset := @held_setPopulation (db.setAccounting { row with reservedBytes :=
        row.reservedBytes - expected }) { p with
          cacheStore := none, objectPath := none, writeToken := none, state := .waiting } p
        ((get_key hp).symm ▸ hp) s
      exact hset
    · exact (hs.setAccounting _).setPopulation (by rintro _ ⟨⟩) (hs.of_get hp).2

/-- A release keeps the sum exactly when the population holds those bytes there. -/
theorem releaseReservation_exact_iff (hpositive : 1 ≤ expected) (hexact : db.Exact)
    (h : db.releaseReservation store key expected = .ok db') :
    db'.Exact ↔ db.heldBy key store = expected := by
  obtain ⟨row, hrow, hle, hreserved, hheld, -⟩ := releaseReservation_cases h
  have hrow' : db.reservedOn store = some row.reservedBytes := by
    rw [reservedOn, hrow, map_some]
  rw [exact_freed_iff hrow' hle hreserved hheld hexact]
  refine and_iff_left_of_imp fun hsame s hs n _ => ?_
  unfold heldBy at hsame ⊢
  cases hp : db.populations.get key with
  | none => rfl
  | some p =>
    rw [hp] at hsame
    exact heldOn_eq_zero hpositive hsame hs

/-- If a release goes through, the population holds the released bytes on the store. -/
def ReleaseMatches (db : CacheDb) (store : Text) (key : CacheKey) (expected : Nat) : Prop :=
  ∀ reserved ∈ db.reservedOn store, expected ≤ reserved → db.heldBy key store = expected

/-- If a removal goes through, the population holds what the reaper saw. -/
def ReapMatches (db : CacheDb) (c : Cleanup) : Prop :=
  ∀ p ∈ db.populations.get c.key, p.state = .abandoning → db.claimed c.key = false →
    match c.cacheStore with
    | none => p.cacheStore = none
    | some store => ∀ reserved ∈ db.reservedOn store, c.size ≤ reserved → p.heldOn store = c.size

/-- If a reservation goes through, it is for the bytes of the population. -/
def ReserveMatches (db : CacheDb) (store : Registration) (key : CacheKey) (expected : Nat) :
    Prop :=
  ∀ p ∈ db.populations.get key, p.cacheStore = none → p.state = .waiting →
    ∀ row ∈ db.accounting.get store.name, (∀ budget ∈ store.admissionBudgetBytes,
        row.reservedBytes + row.committedBytes + expected ≤ budget) →
      p.expectedBytes = expected

/-- The database after a transaction, whether or not it raised. -/
def after (db : CacheDb) : Txn CacheDb → CacheDb
  | .error _ => db
  | .ok db' => db'

theorem Sound.release (h : db.Sound) (store : Text) (key : CacheKey) (expected : Nat) :
    (db.after (db.releaseReservation store key expected)).Sound := by
  cases hok : db.releaseReservation store key expected with
  | error e => exact h
  | ok db' =>
    obtain ⟨_, -, -, -, -, hsound⟩ := releaseReservation_cases hok
    exact hsound h

theorem release_exact_iff (hpositive : 1 ≤ expected) (hexact : db.Exact) :
    (db.after (db.releaseReservation store key expected)).Exact ↔
      db.ReleaseMatches store key expected := by
  cases hok : db.releaseReservation store key expected with
  | error e =>
    refine iff_of_true hexact fun reserved hreserved hle => ?_
    obtain ⟨row, hrow, rfl⟩ := map_eq_some_iff.1 hreserved
    have hrow' := accountingRow_eq_ok.2 hrow
    simp only [releaseReservation, hrow', unreserve, ok_bind, if_neg (Nat.not_lt.2 hle)] at hok
    split at hok <;> cases hok
  | ok db' =>
    obtain ⟨row, hrow, hle, -, -, -⟩ := releaseReservation_cases hok
    have hreserved : db.reservedOn store = some row.reservedBytes := by
      rw [reservedOn, hrow, map_some]
    rw [after, releaseReservation_exact_iff hpositive hexact hok]
    exact ⟨fun hsame _ _ _ => hsame, fun hmatch => hmatch _ hreserved hle⟩

/-- A population that goes without freeing bytes held none. -/
theorem deletePopulation_exact_iff (h : db.Sound) (hexact : db.Exact)
    (hp : db.populations.get key = some p) :
    (db.deletePopulation key).Exact ↔ p.cacheStore = none := by
  obtain ⟨hcovered, hpositive⟩ := h.of_get hp
  rw [exact_iff] at hexact ⊢
  constructor
  · intro hnew
    cases hstore : p.cacheStore with
    | none => rfl
    | some s =>
      exfalso
      obtain ⟨row, hrow⟩ := ne_none_iff_exists'.1
        (mt get_eq_none_iff.1 (not_not.2 (hcovered s hstore)))
      have hreserved : db.reservedOn s = some row.reservedBytes := by
        rw [reservedOn, hrow, map_some]
      have hbefore := hexact s _ hreserved
      have hafter := hnew s _ hreserved
      have hsum := held_deletePopulation hp s
      have hheld : p.heldOn s = p.expectedBytes := if_pos hstore
      omega
  · intro hstore s n hn
    have hsum := held_deletePopulation hp s
    have hheld : p.heldOn s = 0 := if_neg (by rw [hstore]; nofun)
    have hbefore := hexact s n hn
    omega

theorem reapUnreserve_eq_error (h : db.reapUnreserve c = .error e) :
    c.cacheStore ≠ none ∧ ∀ store ∈ c.cacheStore, ∀ reserved ∈ db.reservedOn store,
      reserved < c.size := by
  unfold reapUnreserve at h
  split at h
  · cases h
  · rename_i store hstore
    refine ⟨by rw [hstore]; nofun, fun store' hstore' reserved hreserved => ?_⟩
    obtain rfl : store = store' := Option.some.inj (hstore.symm.trans hstore')
    obtain ⟨row, hrow, rfl⟩ := map_eq_some_iff.1 hreserved
    rw [accountingRow_eq_ok.2 hrow, ok_bind] at h
    split at h
    · assumption
    · cases h

theorem reapUnreserve_eq_ok (h : db.reapUnreserve c = .ok db')
    (hstore : c.cacheStore = some store) : ∃ reserved ∈ db.reservedOn store, c.size ≤ reserved := by
  unfold reapUnreserve at h
  rw [hstore] at h
  obtain ⟨row, hrow, h⟩ := bind_eq_ok.1 h
  rw [accountingRow_eq_ok] at hrow
  refine ⟨row.reservedBytes, congrArg (Option.map _) hrow, ?_⟩
  split at h
  · cases h
  · exact Nat.not_lt.1 ‹_›

/-- A removal takes the bytes that the reaper saw. -/
theorem reapUnreserve_delete_exact_iff (h : db.Sound) (hexact : db.Exact)
    (hsize : c.cacheStore ≠ none → 1 ≤ c.size) (hp : db.populations.get c.key = some p)
    (hok : db.reapUnreserve c = .ok db') :
    (db'.deletePopulation c.key).Sound ∧ ((db'.deletePopulation c.key).Exact ↔
      match c.cacheStore with
      | none => p.cacheStore = none
      | some store => p.heldOn store = c.size) := by
  unfold reapUnreserve at hok
  cases hstore : c.cacheStore with
  | none =>
    rw [hstore] at hok
    cases hok
    exact ⟨h.deletePopulation _, deletePopulation_exact_iff h hexact hp⟩
  | some store =>
    rw [hstore] at hok
    obtain ⟨row, hrow, hok⟩ := bind_eq_ok.1 hok
    rw [accountingRow_eq_ok] at hrow
    split at hok
    · cases hok
    · rename_i hle
      cases hok
      refine ⟨(h.setAccounting _).deletePopulation _, ?_⟩
      exact unreserve_delete_exact_iff hexact hrow (Nat.not_lt.1 hle)
        (hsize (by rw [hstore]; nofun)) hp

/-- A turn of the reaper keeps the sum exactly when the population it removes, if it
removes one, holds what the reaper saw. -/
theorem reap_exact_iff (h : db.Sound) (hexact : db.Exact)
    (hsize : c.cacheStore ≠ none → 1 ≤ c.size) : (db.after (db.reapFinish c)).Sound ∧
      ((db.after (db.reapFinish c)).Exact ↔ db.ReapMatches c) := by
  unfold reapFinish ReapMatches
  cases hp : db.populations.get c.key with
  | none => exact ⟨h, iff_of_true hexact nofun⟩
  | some p =>
    have hget : db.populations.get p.key = some p := (get_key hp).symm ▸ hp
    -- The cases that change no reservation meet the condition vacuously.
    have hkept {db' : CacheDb} (hkeeps : Keeps db db')
        (hskip : p.state = .abandoning → db.claimed c.key = true) :
        db'.Sound ∧ (db'.Exact ↔ ∀ q ∈ some p, q.state = .abandoning → db.claimed c.key = false →
          match c.cacheStore with
          | none => q.cacheStore = none
          | some store => ∀ reserved ∈ db.reservedOn store, c.size ≤ reserved →
            q.heldOn store = c.size) := by
      refine ⟨hkeeps.sound, iff_of_true (hkeeps.exact hexact) ?_⟩
      rintro q ⟨⟩ hstate hclaimed
      rw [hskip hstate] at hclaimed
      cases hclaimed
    dsimp only
    split
    · rename_i hstate
      exact hkept (.refl h) fun hs => absurd hs hstate
    · rename_i hstate
      split
      · rename_i hclaimed
        split
        · exact hkept (@Keeps.setPopulation db h { p with state := .waiting } p hget rfl rfl)
            fun _ => hclaimed
        · split
          · exact hkept (.refl h) fun _ => hclaimed
          · exact hkept (@Keeps.setPopulation db h { p with state := .admitting } p hget rfl rfl)
              fun _ => hclaimed
      · rename_i hclaimed
        rw [Bool.not_eq_true] at hclaimed
        cases hok : db.reapUnreserve c with
        | error e =>
          refine ⟨h, iff_of_true hexact ?_⟩
          rintro q ⟨⟩ - -
          have hrefused := reapUnreserve_eq_error hok
          split
          · rename_i hnone
            exact absurd hnone hrefused.1
          · rename_i store hstore
            intro reserved hreserved hle
            exact absurd hle (Nat.not_le.2 (hrefused.2 store hstore reserved hreserved))
        | ok db' =>
          obtain ⟨hsound, hiff⟩ := reapUnreserve_delete_exact_iff h hexact hsize hp hok
          refine ⟨hsound, hiff.trans ⟨?_, fun hall => ?_⟩⟩
          · rintro hmatch q ⟨⟩ - -
            split
            · rename_i hnone
              rwa [hnone] at hmatch
            · rename_i store hstore
              rw [hstore] at hmatch
              exact fun _ _ _ => hmatch
          · have hmatch := hall p rfl (not_not.1 hstate) hclaimed
            split
            · rename_i hnone
              rwa [hnone] at hmatch
            · rename_i store hstore
              rw [hstore] at hmatch
              obtain ⟨reserved, hreserved, hle⟩ := reapUnreserve_eq_ok hok hstore
              exact hmatch reserved hreserved hle

/-! ## Making a reservation -/

/-- A reservation goes through or nothing changes. -/
theorem reserveAndClaim_cases {store : Registration}
    (h : db.reserveAndClaim store key expected path = .ok (db', claimed)) :
    (db' = db ∧ db.ReserveMatches store key expected) ∨
      ∃ p row, db.populations.get key = some p ∧ p.cacheStore = none ∧ p.state = .waiting ∧
        db.accounting.get store.name = some row ∧
        (∀ budget ∈ store.admissionBudgetBytes,
          row.reservedBytes + row.committedBytes + expected ≤ budget) ∧
        db' = (db.setAccounting { row with reservedBytes := row.reservedBytes +
          expected }).setPopulation { p with
            cacheStore := some store.name, objectPath := some path, writeToken := none
            state := .admitting } := by
  unfold reserveAndClaim at h
  split at h
  · rename_i hp
    cases h
    exact .inl ⟨rfl, by rw [ReserveMatches, hp]; rintro _ ⟨⟩⟩
  · rename_i p hp
    split at h
    · rename_i hbusy
      cases h
      refine .inl ⟨rfl, fun q hq hnone hwaiting => ?_⟩
      obtain rfl : p = q := Option.some.inj (hp.symm.trans hq)
      rcases hbusy with hsome | hother
      · rw [hnone] at hsome
        cases hsome
      · exact absurd hwaiting hother
    · rename_i hfree
      rw [not_or, not_not, Bool.not_eq_true, isSome_eq_false_iff, isNone_iff_eq_none] at hfree
      obtain ⟨row, hrow, h⟩ := bind_eq_ok.1 h
      rw [accountingRow_eq_ok] at hrow
      split at h
      · rename_i hover
        cases h
        refine .inl ⟨rfl, fun q _ _ _ row' hrow' hfits => ?_⟩
        obtain rfl : row = row' := Option.some.inj (hrow.symm.trans hrow')
        obtain ⟨budget, hbudget, hover⟩ := (any_eq_true _ _).1 hover
        have := hfits budget hbudget
        rw [decide_eq_true_eq] at hover
        omega
      · rename_i hfits
        cases h
        refine .inr ⟨p, row, hp, hfree.1, hfree.2, hrow, fun budget hbudget => ?_, rfl⟩
        by_contra hover
        refine hfits ?_
        rw [mem_def.1 hbudget, any_some]
        exact decide_eq_true (Nat.not_le.1 hover)

/-- A reservation that raises lacks its accounting row. -/
theorem reserveMatches_of_error {store : Registration}
    (h : db.reserveAndClaim store key expected path = .error e) :
    db.ReserveMatches store key expected := by
  intro p hp hnone hwaiting row hrow
  have hfree : ¬(p.cacheStore.isSome ∨ p.state ≠ .waiting) := by simp [hnone, hwaiting]
  simp only [reserveAndClaim, mem_def.1 hp, if_neg hfree, accountingRow_eq_ok.2 hrow, ok_bind] at h
  split at h <;> cases h

/-- A reservation keeps the sum exactly when it is for the bytes of the population. -/
theorem reserve_exact_iff (h : db.Sound) (hexact : db.Exact) {store : Registration}
    (hok : db.reserveAndClaim store key expected path = .ok (db', claimed)) :
    db'.Sound ∧ (db'.Exact ↔ db.ReserveMatches store key expected) := by
  rcases reserveAndClaim_cases hok with ⟨rfl, hmatch⟩ |
    ⟨p, row, hp, hnone, hwaiting, hrow, hfits, rfl⟩
  · exact ⟨h, iff_of_true hexact hmatch⟩
  · obtain rfl : p.key = key := get_key hp
    have hstore : row.cacheStore = store.name := (get_eq_some_iff.1 hrow).2
    have hmatches : db.ReserveMatches store p.key expected ↔ p.expectedBytes = expected := by
      refine ⟨fun hm => hm p hp hnone hwaiting row hrow hfits, fun he q hq _ _ _ _ _ => ?_⟩
      obtain rfl : p = q := Option.some.inj (hp.symm.trans hq)
      exact he
    let reserved := { row with reservedBytes := row.reservedBytes + expected }
    let placed := { p with
      cacheStore := some store.name, objectPath := some path, writeToken := none
      state := .admitting }
    have hset := reservedOn_setAccounting
      (show db.accounting.get reserved.cacheStore = some row from hstore ▸ hrow)
    have hheld (s : Text) : ((db.setAccounting reserved).setPopulation placed).held s +
        p.heldOn s = db.held s + placed.heldOn s :=
      @held_setPopulation (db.setAccounting reserved) placed p hp s
    have hbefore (s : Text) : p.heldOn s = 0 := if_neg (by rw [hnone]; nofun)
    have hrow' : db.reservedOn store.name = some row.reservedBytes := congrArg (Option.map _) hrow
    refine ⟨(h.setAccounting _).setPopulation ?_ (h.of_get hp).2, ?_⟩
    · rintro s ⟨⟩
      rw [setAccounting, keys_update, ← hstore]
      exact mem_map_of_mem (get_eq_some_iff.1 hrow).1
    · rw [hmatches]
      rw [exact_iff] at hexact ⊢
      have hrowExact := hexact store.name _ hrow'
      have hplaced : placed.heldOn store.name = p.expectedBytes := if_pos rfl
      have hstoreHeld := hheld store.name
      rw [hbefore] at hstoreHeld
      constructor
      · intro hnew
        have hrowNew := hnew store.name (row.reservedBytes + expected)
          ((hset store.name).trans (if_pos hstore.symm))
        change row.reservedBytes + expected =
          ((db.setAccounting reserved).setPopulation placed).held store.name at hrowNew
        omega
      · intro hsame s n hn
        have hsum := hheld s
        rw [hbefore] at hsum
        change n = ((db.setAccounting reserved).setPopulation placed).held s
        have hn' := (hset s).symm.trans hn
        by_cases hs : s = store.name
        · subst hs
          rw [if_pos hstore.symm] at hn'
          cases hn'
          change row.reservedBytes + expected = _
          omega
        · rw [if_neg (fun he => hs (he.trans hstore))] at hn'
          have hother : placed.heldOn s = 0 := if_neg fun he => hs (Option.some.inj he).symm
          have hold := hexact s n hn'
          omega

/-! ## Registering a finished object -/

/-- No population holds bytes on a store without an accounting row. -/
theorem Sound.held_eq_zero (h : db.Sound) (hs : s ∉ db.accounting.keys) : db.held s = 0 := by
  refine sum_eq_zero_iff.2 fun p hp => if_neg fun hstore => hs ?_
  exact h.covered p hp s hstore

theorem Keeps.ensureAccounting (h : db.Sound) {committed : Nat}
    (hok : db.ensureAccounting store committed = .ok (db', row)) :
    Keeps db db' ∧ db'.accounting.get store = some row ∧ db'.populations = db.populations := by
  unfold CacheDb.ensureAccounting at hok
  split at hok
  · rename_i row' hrow
    cases hok
    exact ⟨.refl h, hrow, rfl⟩
  · rename_i hnone
    dsimp only at hok
    split at hok
    · rename_i accounting hinsert
      cases hok
      have hkeys := keys_insert hinsert
      refine ⟨⟨⟨fun p hp s hs => ?_, h.positive⟩, fun hexact => ?_⟩, get_insert_self hinsert, rfl⟩
      · rw [hkeys]
        exact mem_append_left _ (h.covered p hp s hs)
      · intro row hrow
        simp only [(insert_eq_some hinsert).2, mem_append, mem_singleton] at hrow
        rcases hrow with hrow | rfl
        · exact hexact row hrow
        · exact (h.held_eq_zero (get_eq_none_iff.1 hnone)).symm
    · cases hok

/-- A population that is settled on its own store gives back what it holds. -/
theorem Keeps.settlePopulation (h : db.Sound) (hrow : db.accounting.get store = some row)
    (hp : db.populations.get key = some p) (hstore : p.cacheStore = some store)
    (hok : db.settlePopulation row p = .ok db') : Keeps db db' := by
  obtain rfl : p.key = key := get_key hp
  obtain ⟨db₁, hdb₁, hok⟩ := bind_eq_ok.1 hok
  obtain ⟨hle, rfl⟩ := unreserve_eq_ok hdb₁
  cases hok
  refine ⟨(h.setAccounting _).deletePopulation _, fun hexact => ?_⟩
  exact (unreserve_delete_exact_iff hexact hrow hle (h.of_get hp).2 hp).2 (if_pos hstore)

theorem Keeps.registerCacheReady (h : db.Sound) {receipt : Receipt}
    (hok : db.registerCacheReady key receipt = .ok db') : Keeps db db' := by
  unfold CacheDb.registerCacheReady at hok
  split at hok
  · split at hok
    · cases hok
    · split at hok
      · cases hok
        exact .refl h
      · rename_i p hp
        split at hok
        · cases hok
        · rename_i hstore
          obtain ⟨⟨db₁, row⟩, hensure, hok⟩ := bind_eq_ok.1 hok
          obtain ⟨hkept, hrow, hpopulations⟩ := Keeps.ensureAccounting h hensure
          rw [← hpopulations] at hp
          exact hkept.trans (.settlePopulation hkept.sound hrow hp (not_not.1 hstore) hok)
  · split at hok
    · cases hok
    · split at hok
      · cases hok
      · rename_i objects hinsert
        have hobjects : Keeps db { db with objects } := ⟨⟨h.covered, h.positive⟩, id⟩
        obtain ⟨⟨db₁, row⟩, hensure, hok⟩ := bind_eq_ok.1 hok
        obtain ⟨hkept, hrow, hpopulations⟩ := Keeps.ensureAccounting hobjects.sound hensure
        have hrowKey : row.cacheStore = receipt.cacheStore := (get_eq_some_iff.1 hrow).2
        let committed := { row with committedBytes := row.committedBytes + receipt.storedBytes }
        have hcommitted := @Keeps.setAccounting db₁ hkept.sound committed row (hrowKey ▸ hrow) rfl
        have hrowAfter : (db₁.setAccounting committed).accounting.get receipt.cacheStore =
            some committed := by
          rw [← hrowKey] at hrow ⊢
          exact get_update_self hrow
            (fun r => { committed with cacheStore := r.cacheStore }) (fun _ => rfl)
        have hall := hobjects.trans (hkept.trans hcommitted)
        dsimp only at hok
        split at hok
        · cases hok
          exact hall
        · rename_i p hp
          split at hok
          · cases hok
          · rename_i hstore
            exact hall.trans (.settlePopulation hall.sound hrowAfter hp (not_not.1 hstore) hok)

end CacheDb

end Riverhog.Cache
