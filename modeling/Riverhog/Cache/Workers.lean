import Riverhog.Cache.Accounting
import Mathlib.Data.List.Dedup

/-!
# Runs of the cache workers

Admissions, reapers and registrations interleave at the granularity of their
transactions. Along every run the reserved bytes are the held ones as long as each
worker frees the reservation that the population still holds; a worker that frees one
twice, or a reaper that frees another one, breaks the sum at once.
-/

namespace Riverhog.Cache

open Core List

/-- The bytes a task still may take from a store are positive. -/
def Task.Positive : Task → Prop
  | admitting job | choose job _ | populate job _ _ | refused job _ _ | begun job _ _ _ =>
    1 ≤ job.expectedBytes
  | reap cleanup => ∀ c ∈ cleanup, c.cacheStore ≠ none → 1 ≤ c.size

/-- What every event keeps. -/
structure World.Sound (w : World) : Prop where
  db : w.db.Sound
  tasks : ∀ task ∈ w.tasks, task.Positive

/-- The condition on a turn: a reservation it makes, frees or removes is the one that
the population holds. -/
def Task.Matches (db : CacheDb) (reply : Reply) : Task → Prop
  | choose job (store :: _) =>
    store.admissionEnabled = true →
      (∀ budget ∈ store.admissionBudgetBytes, job.expectedBytes ≤ budget) →
      db.ReserveMatches store job.key job.expectedBytes
  | refused job store _ => db.ReleaseMatches store.name job.key job.expectedBytes
  | reap (c :: _) => reply ≠ .raised → db.ReapMatches c
  | _ => True

/-- The condition on an event. -/
def World.Matches (w : World) : Event → Prop
  | .turn worker reply => ∀ task ∈ w.tasks[worker]?, task.Matches w.db reply
  | _ => True

/-- One turn of a worker keeps the sum exactly when it meets its condition. -/
theorem Task.advance_exact_iff (stores : List Registration) {db : CacheDb} (h : db.Sound)
    (hexact : db.Exact) (reply : Reply) {task : Task} (hpositive : task.Positive) :
    (task.advance stores db reply).1.Sound ∧
      ((task.advance stores db reply).1.Exact ↔ task.Matches db reply) := by
  have hkept {db' : CacheDb} (hkeeps : db.Keeps db') : db'.Sound ∧ (db'.Exact ↔ True) :=
    ⟨hkeeps.sound, iff_of_true (hkeeps.exact hexact) trivial⟩
  cases task with
  | admitting job =>
    simp only [Task.advance, Task.Matches]
    repeat' split
    · exact hkept (.refl h)
    all_goals exact hkept (.admitOpen h hpositive ‹_›)
  | choose job candidates =>
    cases candidates with
    | nil => exact hkept (.refl h)
    | cons store rest =>
      simp only [Task.advance, Task.Matches]
      split
      · rename_i hskip
        refine ⟨h, iff_of_true hexact fun henabled hfits => ?_⟩
        rw [henabled, Bool.not_true, Bool.false_or] at hskip
        obtain ⟨budget, hbudget, hover⟩ := (Option.any_eq_true _ _).1 hskip
        exact absurd (hfits budget hbudget) (Nat.not_le.2 (of_decide_eq_true hover))
      · rename_i htry
        rw [Bool.or_eq_true, not_or, Bool.not_eq_true', Bool.not_eq_false] at htry
        have hopen : ∀ budget ∈ store.admissionBudgetBytes, job.expectedBytes ≤ budget := by
          intro budget hbudget
          by_contra hover
          refine htry.2 ((Option.any_eq_true _ _).2 ⟨budget, hbudget, ?_⟩)
          exact decide_eq_true (Nat.not_le.1 hover)
        have hcondition : (store.admissionEnabled = true →
            (∀ budget ∈ store.admissionBudgetBytes, job.expectedBytes ≤ budget) →
            db.ReserveMatches store job.key job.expectedBytes) ↔
            db.ReserveMatches store job.key job.expectedBytes :=
          ⟨fun hall => hall htry.1 hopen, fun hmatch _ _ => hmatch⟩
        rw [hcondition]
        repeat' split
        · rename_i herror
          exact ⟨h, iff_of_true hexact (CacheDb.reserveMatches_of_error herror)⟩
        all_goals exact CacheDb.reserve_exact_iff h hexact ‹_›
  | populate job store rest =>
    simp only [Task.advance, Task.Matches]
    split <;> exact hkept (.refl h)
  | refused job store rest =>
    have hsound := h.release store.name job.key job.expectedBytes
    have hiff : (db.after (db.releaseReservation store.name job.key job.expectedBytes)).Exact ↔
        db.ReleaseMatches store.name job.key job.expectedBytes :=
      CacheDb.release_exact_iff hpositive hexact
    simp only [Task.advance, Task.Matches]
    split
    · rename_i hok
      rw [hok] at hsound hiff
      exact ⟨hsound, hiff⟩
    · rename_i hok
      rw [hok] at hsound hiff
      split
      · exact ⟨hsound, hiff⟩
      · exact ⟨hsound, hiff⟩
  | begun job store objectPath writeToken =>
    simp only [Task.advance, Task.Matches]
    split
    · exact hkept (.refl h)
    · rename_i hok
      exact hkept (.admitFinish h hok)
  | reap cleanup =>
    cases cleanup with
    | nil => exact hkept (.refl h)
    | cons c cleanup =>
      have hreap := CacheDb.reap_exact_iff h hexact (hpositive c mem_cons_self)
      simp only [Task.advance, Task.Matches]
      split
      · rename_i hraised
        exact ⟨h, iff_of_true hexact fun hne => absurd hraised hne⟩
      · rename_i hraised
        have hcondition : (reply ≠ .raised → db.ReapMatches c) ↔ db.ReapMatches c :=
          ⟨fun hall => hall hraised, fun hmatch _ => hmatch⟩
        rw [hcondition]
        split
        all_goals
          rename_i hok
          rw [hok] at hreap
          exact hreap

theorem Task.advance_positive {stores : List Registration} {db : CacheDb} {reply : Reply}
    {task next : Task} (h : task.Positive)
    (hnext : (task.advance stores db reply).2 = some next) : next.Positive := by
  cases task with
  | choose job candidates =>
    cases candidates with
    | nil => cases hnext
    | cons store rest =>
      simp only [Task.advance] at hnext
      repeat' split at hnext
      all_goals cases hnext <;> exact h
  | reap cleanup =>
    cases cleanup with
    | nil => cases hnext
    | cons c cleanup =>
      simp only [Task.advance] at hnext
      repeat' split at hnext
      all_goals cases hnext <;> exact fun c hc => h c (mem_cons_of_mem _ hc)
  | _ =>
    -- a task that follows is for the same job
    simp only [Task.advance] at hnext
    repeat' split at hnext
    all_goals cases hnext <;> exact h

/-- The reaper sees populations with bytes. -/
theorem CacheDb.reapMarkAll_positive {db : CacheDb} (h : db.Sound) (keys : List CacheKey) :
    ∀ c ∈ (db.reapMarkAll keys).2, 1 ≤ c.size := by
  induction keys generalizing db with
  | nil => nofun
  | cons key keys ih =>
    intro c hc
    simp only [CacheDb.reapMarkAll, mem_append] at hc
    rcases hc with hc | hc
    · unfold CacheDb.reapMark at hc
      split at hc
      · cases hc
      · rename_i p hp
        split at hc
        · cases hc
        · obtain rfl := mem_singleton.1 hc
          exact (h.of_get hp).2
    · exact ih (CacheDb.Keeps.reapMark h key).sound c hc

/-- One event keeps the sum exactly when it meets its condition. -/
theorem World.step_exact_iff (stores : List Registration) {w : World} (h : w.Sound)
    (hexact : w.db.Exact) (e : Event) :
    (w.step stores e).Sound ∧ ((w.step stores e).db.Exact ↔ w.Matches e) := by
  have htransact {txn : Txn CacheDb} (hkeeps : ∀ db', txn = .ok db' → w.db.Keeps db') :
      (w.transact txn).Sound ∧ ((w.transact txn).db.Exact ↔ True) := by
    cases htxn : txn with
    | error e => exact ⟨h, iff_of_true hexact trivial⟩
    | ok db' =>
      have hkept := hkeeps db' htxn
      exact ⟨⟨hkept.sound, h.tasks⟩, iff_of_true (hkept.exact hexact) trivial⟩
  cases e with
  | call job =>
    simp only [World.step, World.Matches]
    split
    · exact ⟨h, iff_of_true hexact trivial⟩
    · rename_i hbytes
      refine ⟨⟨h.db, fun task htask => ?_⟩, iff_of_true hexact trivial⟩
      rcases mem_append.1 htask with htask | htask
      · exact h.tasks task htask
      · rw [mem_singleton.1 htask]
        exact Nat.not_lt.1 hbytes
  | reap keys =>
    have hkept := CacheDb.Keeps.reapMarkAll h.db keys
    refine ⟨⟨hkept.sound, fun task htask => ?_⟩, iff_of_true (hkept.exact hexact) trivial⟩
    rcases mem_append.1 htask with htask | htask
    · exact h.tasks task htask
    · rw [mem_singleton.1 htask]
      exact fun c hc _ => CacheDb.reapMarkAll_positive h.db keys c hc
  | turn worker reply =>
    simp only [World.step, World.Matches]
    split
    · rename_i hnone
      exact ⟨h, iff_of_true hexact (by rw [hnone]; nofun)⟩
    · rename_i task htask
      have hmem : task ∈ w.tasks := mem_of_getElem? htask
      obtain ⟨hsound, hiff⟩ := Task.advance_exact_iff stores h.db hexact reply (h.tasks task hmem)
      refine ⟨⟨hsound, fun next hnext => ?_⟩, hiff.trans ?_⟩
      · dsimp only at hnext
        split at hnext
        · exact h.tasks next (mem_of_mem_eraseIdx hnext)
        · rename_i after hafter
          rcases mem_or_eq_of_mem_set hnext with hnext | rfl
          · exact h.tasks next hnext
          · exact Task.advance_positive (h.tasks task hmem) hafter
      · rw [htask]
        exact ⟨fun hmatch other hother => (Option.mem_some.1 hother) ▸ hmatch,
          fun hall => hall task rfl⟩
  | releaseOwner owner =>
    have hkept := CacheDb.Keeps.releaseOwner h.db owner
    exact ⟨⟨hkept.sound, h.tasks⟩, iff_of_true (hkept.exact hexact) trivial⟩
  | put admission => exact htransact fun db' hok => .putWriting h.db hok
  | register key receipt => exact htransact fun db' hok => .registerCacheReady h.db hok
  | evict key => exact htransact fun db' hok => .evict h.db hok
  | reconcile cacheStore committed =>
    refine htransact fun db' hok => ?_
    obtain ⟨row, hrow, hok⟩ := bind_eq_ok.1 hok
    rw [CacheDb.accountingRow_eq_ok] at hrow
    cases hok
    have hkey : row.cacheStore = cacheStore := (Table.get_eq_some_iff.1 hrow).2
    exact @CacheDb.Keeps.setAccounting w.db h.db { row with committedBytes := committed } row
      (hkey ▸ hrow) rfl

/-- Every event of a run meets its condition in the state it happens in. -/
def World.AllMatch (stores : List Registration) : World → List Event → Prop
  | _, [] => True
  | w, e :: events => w.Matches e ∧ AllMatch stores (w.step stores e) events

section

variable (stores : List Registration)

/-- A run from an exact state stays exact exactly as long as its events meet their
conditions. -/
theorem World.run_exact_iff {w : World} (h : w.Sound) (hexact : w.db.Exact) (events : List Event) :
    (∀ state ∈ events.scanl (World.step stores) w, state.db.Exact) ↔ w.AllMatch stores events := by
  induction events generalizing w with
  | nil => exact iff_of_true (fun state hstate => mem_singleton.1 hstate ▸ hexact) trivial
  | cons e events ih =>
    obtain ⟨hsound, hiff⟩ := World.step_exact_iff stores h hexact e
    rw [scanl_cons]
    constructor
    · intro hall
      have hstep : (w.step stores e).db.Exact := by
        refine hall _ (mem_cons_of_mem _ ?_)
        cases events with
        | nil => exact mem_cons_self
        | cons e' events =>
          rw [scanl_cons]
          exact mem_cons_self
      exact ⟨hiff.1 hstep, (ih hsound hstep).1 fun state hstate =>
        hall state (mem_cons_of_mem _ hstate)⟩
    · rintro ⟨hmatch, hrest⟩ state hstate
      rcases mem_cons.1 hstate with rfl | hstate
      · exact hexact
      · exact (ih hsound (hiff.2 hmatch)).2 hrest state hstate

/-! ## From the start -/

/-- `_ensure_accounting_rows`: one empty row for each configured store. -/
def freshAccounting : Table AccountingRecord.cacheStore where
  rows := (stores.map Registration.name).dedup.map fun name => ⟨name, 0, 0⟩
  nodup := by
    rw [map_map]
    exact (map_id _).symm ▸ nodup_dedup _

/-- No population, no object and no worker. -/
def World.fresh : World :=
  ⟨⟨.empty, [], freshAccounting stores, .empty⟩, []⟩

theorem World.fresh_sound : (World.fresh stores).Sound :=
  ⟨⟨nofun, nofun⟩, nofun⟩

theorem World.fresh_exact : (World.fresh stores).db.Exact := by
  intro row hrow
  obtain ⟨name, -, rfl⟩ := mem_map.1 hrow
  rfl

end

/-- In every run of the cache, the reserved bytes of each store are those of the
populations that hold a reservation on it in all states, if and only if every
reservation that a turn makes, frees or removes is the one that the population holds
at that moment. -/
theorem World.reserved_exact_iff (stores : List Registration) (events : List Event) :
    (∀ state ∈ events.scanl (World.step stores) (World.fresh stores), state.db.Exact) ↔
      (World.fresh stores).AllMatch stores events :=
  World.run_exact_iff stores (World.fresh_sound stores) (World.fresh_exact stores) events

/-- A cache store without a budget. -/
def localStore : Registration := ⟨"local", true, none⟩

/-- An admission of five bytes. -/
def jobOf (owner object : String) : Job :=
  ⟨owner.toList, ⟨"glacier", 1, object.toList⟩, 5, "2026-05-04T12:00:00.000000Z"⟩

/-- Two workers admit one object while a third admits another. Both workers see the
reservation of the first, both are refused by the store and both release it. -/
def releasedTwice : List Event :=
  [.call (jobOf "w1" "a"), .turn 0 .done, .turn 0 .done, .call (jobOf "w2" "a"), .turn 1 .done,
   .call (jobOf "w3" "b"), .turn 2 .done, .turn 2 .done,
   .turn 0 .insufficientStorage, .turn 1 .insufficientStorage,
   .turn 0 .evicted, .turn 0 .evicted]

/-- The second release takes the bytes that the other object has reserved. -/
theorem not_exact_releasedTwice :
    ¬∀ state ∈ releasedTwice.scanl (World.step [localStore]) (World.fresh [localStore]),
      state.db.Exact := by decide +kernel

end Riverhog.Cache
