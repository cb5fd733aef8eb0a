import Riverhog.Allowance.Store
import Mathlib.Algebra.Order.BigOperators.Group.List
import Mathlib.Data.Fintype.EquivFin

/-!
# Runs of the operations on one store

Every operation is described once by what it admits and settles. From that, for every
interleaving and whatever times the operations read: the accounted bytes of a month
and the live reservations together stay within the limit of the last admission, and
an admitted reservation is settled once.

What a store publishes about its allowance and what its admission computes are
compared at the end.
-/

namespace Riverhog.Allowance

open Core Table List
open ReservationRecord (expired reservedBytes)

/-! ## One operation -/

/-- The operations on the rows of one store, each at the time it reads. -/
inductive StoreOp where
  | ensure (now : Datetime)
  | reserve (policy : StorePolicy) (now : Datetime) (id : Text) (expectedBytes : Nat)
  | heartbeat (now : Datetime) (id : Text)
  | finish (now : Datetime) (id : Text) (transferredBytes : Nat)
  | release (id : Text)

/-- A reservation that leaves the table: its bytes, and those of them moved to the
accounted ones. A released reservation moves none. -/
structure Settlement where
  id : Text
  reservedBytes : Nat
  accountedBytes : Nat
  deriving DecidableEq

namespace StoreOp

/-- The transaction of an operation. -/
def perform : StoreOp → StoreRows → Answer StoreRows
  | ensure now, rows => .ok (rows.ensureUsageRow now)
  | reserve policy now id expected, rows => rows.reserve policy now id expected
  | heartbeat now id, rows => rows.heartbeat now id
  | finish now id transferred, rows => .ok (rows.finish now id transferred)
  | release id, rows => .ok (rows.releaseStoreReservation id)

/-- The reservations that an operation admits. -/
def admits : StoreOp → List (Text × Nat)
  | reserve _ _ id expected => [(id, expected)]
  | _ => []

/-- The limit of the last admission after an operation. -/
def lastLimit (before : Option Nat) : StoreOp → Option Nat
  | reserve policy _ _ _ => some policy.effectiveLimit
  | _ => before

/-- The reservations that an operation settles. -/
def settles : StoreOp → StoreRows → List Settlement
  | reserve _ now _ _, rows =>
    (rows.reservations.rows.filter (ReservationRecord.expired now)).map fun r =>
      ⟨r.id, r.reservedBytes, r.reservedBytes⟩
  | finish now id transferred, rows =>
    match rows.reservations.get id with
    | none => []
    | some r =>
      [⟨id, r.reservedBytes,
        StoreRows.finishCharge r.monthStartedAt (rows.lockedUsage now) r.reservedBytes transferred⟩]
  | release id, rows =>
    match rows.reservations.get id with
    | none => []
    | some r => [⟨id, r.reservedBytes, 0⟩]
  | _, _ => []

end StoreOp

namespace StoreRows

/-- The bytes on the usage row. -/
def accounted (rows : StoreRows) : Nat := rows.usage.elim 0 UsageRecord.accountedBytes

/-- The month on the usage row. -/
def month (rows : StoreRows) : Option Text := rows.usage.map UsageRecord.monthStartedAt

/-- The bytes of all live reservations. -/
def reserved (rows : StoreRows) : Nat := reservedBytes rows.reservations

end StoreRows

/-- What a committed operation does: reservations are admitted and settled, the
accounted bytes grow by what is settled, from zero when the month changes, and an
admission leaves the sum within the limit. -/
structure StoreStep (rows : StoreRows) (op : StoreOp) (rows' : StoreRows) : Prop where
  ids : (rows.reservations.keys ++ op.admits.map Prod.fst).Perm
    (rows'.reservations.keys ++ (op.settles rows).map Settlement.id)
  reserved : rows'.reserved + ((op.settles rows).map Settlement.reservedBytes).sum =
    rows.reserved + (op.admits.map Prod.snd).sum
  accounted : rows'.accounted = (if rows'.month = rows.month then rows.accounted else 0) +
    ((op.settles rows).map Settlement.accountedBytes).sum
  admission : ∀ policy now id expected, op = .reserve policy now id expected →
    rows'.accounted + rows'.reserved ≤ policy.effectiveLimit

/-! ### Each operation -/

theorem rolledUsage_month (usage : Option UsageRecord) (now : Datetime) :
    (rolledUsage usage now).monthStartedAt = monthOf now := by
  cases usage with
  | none => rfl
  | some usage =>
    simp only [rolledUsage]
    split
    · rfl
    · exact not_not.1 ‹_›

/-- Locking the usage row resets it exactly when the month is another one. -/
theorem StoreRows.lockedUsage_accounted (rows : StoreRows) (now : Datetime) :
    (rows.lockedUsage now).accountedBytes =
      if some (monthOf now) = rows.month then rows.accounted else 0 := by
  obtain ⟨usage, reservations⟩ := rows
  cases usage with
  | none => rfl
  | some usage =>
    simp only [StoreRows.lockedUsage, rolledUsage, StoreRows.month, StoreRows.accounted,
      Option.map_some, Option.elim_some, Option.some.injEq]
    by_cases h : usage.monthStartedAt = monthOf now
    · simp [h]
    · rw [if_pos h, if_neg (Ne.symm h)]

variable {now : Datetime} {policy : StorePolicy} {rows' : StoreRows} {id : Text}

/-- Reaping moves the bytes of the expired reservations to the accounted ones. -/
theorem StoreRows.reapExpired_spec {usage usage' : UsageRecord}
    {reservations reservations' : Table ReservationRecord.id}
    (h : StoreRows.reapExpired usage reservations now = (usage', reservations')) :
    usage'.monthStartedAt = usage.monthStartedAt ∧ usage'.accountedBytes = usage.accountedBytes +
        reservations.sumWhere (ReservationRecord.expired now) ReservationRecord.reservedBytes ∧
      reservations' = reservations.deleteWhere (ReservationRecord.expired now) := by
  simp only [StoreRows.reapExpired] at h
  split at h
  · rename_i hnone
    cases h
    have hnil := eq_nil_of_length_eq_zero hnone
    refine ⟨rfl, ?_, ?_⟩
    · rw [sumWhere_eq_sum_filter, hnil]
      rfl
    · apply ext
      refine (filter_eq_self.2 fun r hr => ?_).symm
      have hp := filter_eq_nil_iff.1 hnil r hr
      simpa using hp
  · cases h
    exact ⟨rfl, rfl, rfl⟩

theorem StoreStep.ensure (rows : StoreRows) (now : Datetime) :
    StoreStep rows (.ensure now) (rows.ensureUsageRow now) := by
  obtain ⟨usage, reservations⟩ := rows
  cases usage with
  | none => exact ⟨Perm.refl _, rfl, rfl, nofun⟩
  | some usage => exact ⟨Perm.refl _, rfl, (if_pos rfl).symm, nofun⟩

variable {rows : StoreRows}

/-- An admission first settles what has expired. -/
theorem StoreStep.reserve {expected : Nat} (h : rows.reserve policy now id expected = .ok rows') :
    StoreStep rows (.reserve policy now id expected) rows' := by
  rw [StoreRows.reserve] at h
  cases hreap : StoreRows.reapExpired (rows.lockedUsage now) rows.reservations now with
  | mk usage reservations =>
  rw [hreap] at h
  obtain ⟨hmonth, haccounted, rfl⟩ := StoreRows.reapExpired_spec hreap
  have hsettled := rows.reservations.sum_deleteWhere (ReservationRecord.expired now)
    ReservationRecord.reservedBytes
  rw [sumWhere_eq_sum_filter] at haccounted hsettled
  rw [StoreRows.lockedUsage, rolledUsage_month] at hmonth
  rw [StoreRows.lockedUsage_accounted] at haccounted
  dsimp only at h
  split at h
  · obtain ⟨_, -, h⟩ := bind_eq_ok.1 h
    cases h
  · rename_i hlimit
    obtain ⟨lease, -, h⟩ := bind_eq_ok.1 h
    obtain ⟨reservations, hadd, h⟩ := bind_eq_ok.1 h
    rw [addRow_eq_ok] at hadd
    have hsum := sum_insert hadd ReservationRecord.reservedBytes
    cases h
    refine ⟨?_, ?_, ?_, ?_⟩
    · have hkeys := rows.reservations.keys_deleteWhere (ReservationRecord.expired now)
      simp only [StoreOp.admits, StoreOp.settles, map_map, map_cons, map_nil, keys_insert hadd]
      refine (hkeys.append_right [id]).trans ?_
      rw [append_assoc]
      exact perm_append_comm
    · simp only [StoreRows.reserved, StoreRows.reservedBytes, StoreOp.settles, StoreOp.admits,
        map_map, map_cons, map_nil, sum_cons, sum_nil, hsum]
      have hbytes : Settlement.reservedBytes ∘ (fun r : ReservationRecord =>
        (⟨r.id, r.reservedBytes, r.reservedBytes⟩ : Settlement)) =
        ReservationRecord.reservedBytes := rfl
      rw [hbytes]
      omega
    · simp only [StoreRows.accounted, StoreRows.month, Option.elim_some, Option.map_some,
        StoreOp.settles, map_map, hmonth, haccounted]
      rfl
    · rintro _ _ _ _ ⟨⟩
      simp only [StoreRows.accounted, StoreRows.reserved, StoreRows.reservedBytes,
        Option.elim_some, hsum] at hlimit ⊢
      omega

theorem StoreStep.heartbeat (h : rows.heartbeat now id = .ok rows') :
    StoreStep rows (.heartbeat now id) rows' := by
  rw [StoreRows.heartbeat] at h
  split at h
  · cases h
    exact ⟨Perm.refl _, rfl, (if_pos rfl).symm, nofun⟩
  · rename_i r hget
    obtain ⟨lease, -, h⟩ := bind_eq_ok.1 h
    cases h
    refine ⟨?_, ?_, (if_pos rfl).symm, nofun⟩
    · simp [StoreOp.admits, StoreOp.settles]
    · have hsum := sum_update hget
        (fun r => { r with expiresAt := lease.formatUtcTimestamp }) (fun _ => rfl)
        reservedBytes
      exact Nat.add_right_cancel hsum

/-- A stream that finishes settles its own reservation, if it is still there. -/
theorem StoreStep.finish (rows : StoreRows) (now : Datetime) (id : Text) (transferred : Nat) :
    StoreStep rows (.finish now id transferred) (rows.finish now id transferred) := by
  have hlocked := rows.lockedUsage_accounted now
  have hmonth : (rows.lockedUsage now).monthStartedAt = monthOf now := rolledUsage_month _ _
  cases hget : rows.reservations.get id with
  | none =>
    refine ⟨?_, ?_, ?_, nofun⟩
    · simp [StoreOp.admits, StoreOp.settles, StoreRows.finish, hget]
    · simp [StoreOp.admits, StoreOp.settles, StoreRows.finish, hget, StoreRows.reserved]
    · simpa [StoreOp.settles, StoreRows.finish, hget, StoreRows.accounted, StoreRows.month,
        hmonth] using hlocked
  | some r =>
    refine ⟨?_, ?_, ?_, nofun⟩
    · simp only [StoreOp.admits, StoreOp.settles, StoreRows.finish, hget, map_nil,
        append_nil, map_cons]
      exact (keys_delete hget).trans (perm_append_singleton id _).symm
    · have hsum := sum_delete hget reservedBytes
      simpa [StoreOp.admits, StoreOp.settles, StoreRows.finish, hget, StoreRows.reserved,
        StoreRows.reservedBytes] using hsum
    · simp only [StoreOp.settles, StoreRows.finish, hget, StoreRows.accounted, StoreRows.month,
        Option.elim_some, Option.map_some, hmonth, map_cons, map_nil, sum_cons, sum_nil]
      rw [hlocked]
      rfl

/-- A release drops the reservation without a charge. -/
theorem StoreStep.release (rows : StoreRows) (id : Text) :
    StoreStep rows (.release id) (rows.releaseStoreReservation id) := by
  cases hget : rows.reservations.get id with
  | none =>
    simp only [StoreRows.releaseStoreReservation, hget]
    refine ⟨?_, ?_, ?_, by rintro _ _ _ _ ⟨⟩⟩ <;> simp [StoreOp.admits, StoreOp.settles, hget]
  | some r =>
    simp only [StoreRows.releaseStoreReservation, hget]
    refine ⟨?_, ?_, ?_, by rintro _ _ _ _ ⟨⟩⟩
    · simp only [StoreOp.admits, StoreOp.settles, hget, map_nil, append_nil, map_cons]
      exact (keys_delete hget).trans (perm_append_singleton id _).symm
    · have hsum := sum_delete hget reservedBytes
      simpa [StoreOp.admits, StoreOp.settles, hget, StoreRows.reserved,
        StoreRows.reservedBytes] using hsum
    · simp [StoreOp.settles, hget, StoreRows.accounted, StoreRows.month]

/-- Every committed operation is a step. -/
theorem StoreOp.perform_step {op : StoreOp} (h : op.perform rows = .ok rows') :
    StoreStep rows op rows' := by
  cases op with
  | ensure now => cases h; exact .ensure rows now
  | reserve policy now id expected => exact .reserve h
  | heartbeat now id => exact .heartbeat h
  | finish now id transferred => cases h; exact .finish rows now id transferred
  | release id => cases h; exact .release rows id

/-! ## Runs -/

/-- A settlement under the number of the usage period that it was made in. -/
structure SettledIn where
  period : Nat
  settlement : Settlement

/-- The rows of a store with the history of the operations on them. A usage period
ends when the month on the usage row changes. -/
structure StoreLedger where
  rows : StoreRows
  /-- The limit of the last admission. -/
  limit : Option Nat
  admitted : List Text
  settled : List SettledIn
  period : Nat

namespace StoreLedger

/-- No row and no history. -/
def start : StoreLedger := ⟨⟨none, .empty⟩, none, [], [], 0⟩

/-- The history after a committed operation. -/
def record (l : StoreLedger) (op : StoreOp) (rows : StoreRows) : StoreLedger :=
  let period := if rows.month = l.rows.month then l.period else l.period + 1
  { rows
    limit := op.lastLimit l.limit
    admitted := l.admitted ++ op.admits.map Prod.fst
    settled := l.settled ++ (op.settles l.rows).map (⟨period, ·⟩)
    period }

/-- An operation on the rows, recorded; one that raises is rolled back. -/
def step (l : StoreLedger) (op : StoreOp) : StoreLedger :=
  match op.perform l.rows with
  | .error _ => l
  | .ok rows => l.record op rows

/-- A stream transfers at most what it reserved, and identifiers are not drawn twice. -/
def Permits (l : StoreLedger) : StoreOp → Prop
  | .reserve _ _ id _ => id ∉ l.admitted
  | .finish _ id transferred =>
    ∀ r, l.rows.reservations.get id = some r → transferred ≤ r.reservedBytes
  | _ => True

/-- The ledgers that the permitted operations lead to, in any order and at any times. -/
inductive Reached : StoreLedger → Prop
  | start : Reached start
  | step {l : StoreLedger} {op : StoreOp} : Reached l → l.Permits op → Reached (l.step op)

/-- The charges of the current usage period. -/
def charges (l : StoreLedger) : Nat :=
  ((l.settled.filter fun s => s.period = l.period).map fun s => s.settlement.accountedBytes).sum

/-- What holds between operations. -/
structure Inv (l : StoreLedger) : Prop where
  within : ∀ limit ∈ l.limit, l.rows.accounted + l.rows.reserved ≤ limit
  nodup : l.admitted.Nodup
  ids : l.admitted.Perm (l.rows.reservations.keys ++ l.settled.map fun s => s.settlement.id)
  periods : ∀ s ∈ l.settled, s.period ≤ l.period
  accounted : l.rows.accounted = l.charges

theorem inv_start : Inv start :=
  ⟨nofun, nodup_nil, Perm.refl _, nofun, rfl⟩

variable {l : StoreLedger} {op : StoreOp}

/-- No permitted settlement moves more than it frees. -/
theorem Permits.accounted_le (h : l.Permits op) {s : Settlement} (hs : s ∈ op.settles l.rows) :
    s.accountedBytes ≤ s.reservedBytes := by
  cases op with
  | ensure now => cases hs
  | heartbeat now id => cases hs
  | reserve policy now id expected =>
    obtain ⟨r, -, rfl⟩ := mem_map.1 hs
    exact le_rfl
  | finish now id transferred =>
    simp only [StoreOp.settles] at hs
    split at hs
    · cases hs
    · rename_i r hget
      obtain rfl := mem_singleton.1 hs
      have htransferred := h r hget
      simp only [StoreRows.finishCharge]
      split
      · exact htransferred
      · exact max_le htransferred le_rfl
  | release id =>
    simp only [StoreOp.settles] at hs
    split at hs
    · cases hs
    · obtain rfl := mem_singleton.1 hs
      exact Nat.zero_le _

/-- The charges grow by those of the operation, from zero in a new period. -/
theorem charges_record (h : Inv l) (op : StoreOp) (rows : StoreRows) :
    (l.record op rows).charges = (if rows.month = l.rows.month then l.charges else 0) +
      ((op.settles l.rows).map Settlement.accountedBytes).sum := by
  have hnew (period : Nat) (settlements : List Settlement) :
      (settlements.map (SettledIn.mk period)).filter (fun s => s.period = period) =
        settlements.map (SettledIn.mk period) := by
    refine filter_eq_self.2 fun s hs => ?_
    obtain ⟨_, -, rfl⟩ := mem_map.1 hs
    exact decide_eq_true rfl
  by_cases hmonth : rows.month = l.rows.month
  · simp only [record, charges, hmonth, if_true, filter_append, map_append,
      sum_append, hnew, map_map]
    rfl
  · have hold : l.settled.filter (fun s => s.period = l.period + 1) = [] := by
      refine filter_eq_nil_iff.2 fun s hs => ?_
      have := h.periods s hs
      simp only [decide_eq_true_eq]
      omega
    simp only [record, charges, hmonth, if_false, filter_append, hold, nil_append,
      hnew, map_map, Nat.zero_add]
    rfl

/-- Without an admission the sum of accounted and reserved bytes does not grow. -/
theorem StoreStep.total_le {rows : StoreRows} (h : StoreStep l.rows op rows) (hp : l.Permits op)
    (hnone : op.admits = []) :
    rows.accounted + rows.reserved ≤ l.rows.accounted + l.rows.reserved := by
  have hmoved : ((op.settles l.rows).map Settlement.accountedBytes).sum ≤
      ((op.settles l.rows).map Settlement.reservedBytes).sum :=
    sum_le_sum fun s hs => hp.accounted_le hs
  have hreserved := h.reserved
  have haccounted := h.accounted
  rw [hnone, map_nil, sum_nil] at hreserved
  split at haccounted <;> omega

/-- A permitted operation that commits keeps the invariant. -/
theorem Inv.record {rows : StoreRows} (h : Inv l) (hp : l.Permits op)
    (hstep : StoreStep l.rows op rows) : Inv (l.record op rows) where
  within := by
    intro limit hlimit
    have hkept (hnone : op.admits = []) (hlimit : limit ∈ l.limit) :
        rows.accounted + rows.reserved ≤ limit :=
      (StoreStep.total_le hstep hp hnone).trans (h.within limit hlimit)
    cases op with
    | reserve policy now id expected =>
      cases hlimit
      exact hstep.admission policy now id expected rfl
    | ensure now => exact hkept rfl hlimit
    | heartbeat now id => exact hkept rfl hlimit
    | finish now id transferred => exact hkept rfl hlimit
    | release id => exact hkept rfl hlimit
  nodup := by
    cases op with
    | reserve policy now id expected =>
      refine nodup_append.2 ⟨h.nodup, nodup_singleton id, ?_⟩
      rintro a ha b hb rfl
      obtain rfl : a = id := mem_singleton.1 hb
      exact hp ha
    | _ => simpa [StoreLedger.record, StoreOp.admits] using h.nodup
  ids := by
    have hswap : (l.admitted ++ op.admits.map Prod.fst).Perm
        (l.rows.reservations.keys ++ op.admits.map Prod.fst ++
          l.settled.map fun s => s.settlement.id) := by
      refine (h.ids.append_right _).trans ?_
      rw [append_assoc, append_assoc]
      exact perm_append_comm.append_left _
    refine hswap.trans ((hstep.ids.append_right _).trans ?_)
    simp only [StoreLedger.record, map_append, map_map, append_assoc]
    exact perm_append_comm.append_left _
  periods := by
    intro s hs
    rcases mem_append.1 hs with hs | hs
    · have := h.periods s hs
      simp only [StoreLedger.record]
      split <;> omega
    · obtain ⟨_, -, rfl⟩ := mem_map.1 hs
      exact le_rfl
  accounted := by
    rw [charges_record h, ← h.accounted]
    exact hstep.accounted

/-- One permitted operation keeps the invariant. -/
theorem Inv.step {l : StoreLedger} {op : StoreOp} (h : Inv l) (hp : l.Permits op) :
    Inv (l.step op) := by
  unfold StoreLedger.step
  split
  · exact h
  · rename_i rows hop
    exact h.record hp (StoreOp.perform_step hop)

theorem Reached.inv (h : Reached l) : Inv l := by
  induction h with
  | start => exact inv_start
  | step _ hp ih => exact ih.step hp

end StoreLedger

theorem StoreRows.accountedAt_eq (rows : StoreRows) (now : Datetime) :
    rows.accountedAt now = if some (monthOf now) = rows.month then rows.accounted else 0 := by
  obtain ⟨usage, reservations⟩ := rows
  cases usage with
  | none => rfl
  | some usage =>
    simp only [StoreRows.accountedAt, StoreRows.month, StoreRows.accounted, Option.map_some,
      Option.elim_some, Option.some.injEq, eq_comm (a := monthOf now)]

/-- After any run of permitted operations, at any time: what is accounted to the month
and all live reservations together are within the limit of the last admission; every
admitted reservation is either live or was settled, once; and the accounted bytes are
exactly those that the settlements since the month changed have moved. -/
theorem StoreLedger.Reached.allowance {l : StoreLedger} (h : l.Reached) :
    (∀ limit ∈ l.limit, ∀ now, l.rows.accountedAt now + l.rows.reserved ≤ limit) ∧
      (l.rows.reservations.keys ++ l.settled.map fun s => s.settlement.id).Nodup ∧
      l.admitted.Perm (l.rows.reservations.keys ++ l.settled.map fun s => s.settlement.id) ∧
      l.rows.accounted = l.charges := by
  have hinv := h.inv
  refine ⟨fun limit hlimit now => ?_, hinv.ids.nodup_iff.1 hinv.nodup, hinv.ids, hinv.accounted⟩
  have hwithin := hinv.within limit hlimit
  rw [StoreRows.accountedAt_eq]
  split <;> omega

/-- A store with an allowance of 110 bytes, 10 of them kept back. -/
def glacier : StorePolicy := ⟨"glacier", 110, 10, by decide⟩

/-- 23:30 on the last day of January. -/
def lateJanuary : Datetime :=
  ⟨2026, 1, 31, 23, 30, 0, 0, (by decide : 0 < 2026 ∧ _), (by decide : 0 < 1 ∧ _), by decide, by decide⟩

/-- Forty minutes later. -/
def earlyFebruary : Datetime :=
  ⟨2026, 2, 1, 0, 10, 0, 0, (by decide : 0 < 2026 ∧ _), by decide, by decide, by decide⟩

/-- A stream of 60 bytes admitted just before the month ends. -/
def streamOverMonthEnd : StoreLedger :=
  StoreLedger.start.step (.reserve glacier lateJanuary "a" 60)

theorem streamOverMonthEnd_reached : streamOverMonthEnd.Reached :=
  .step .start (by simp [StoreLedger.Permits, StoreLedger.start])

theorem streamOverMonthEnd_get :
    (streamOverMonthEnd.rows.reservations.get "a").map reservedBytes =
      some 60 := by decide +kernel

/-- The stream finishes in February after 40 bytes and is charged the 60 it reserved. -/
theorem allowance_of_stream_over_month_end :
    let l := streamOverMonthEnd.step (.finish earlyFebruary "a" 40)
    l.limit = some 100 ∧ l.rows.accounted = 60 ∧ l.rows.reserved = 0 ∧
      (∀ limit ∈ l.limit, ∀ now, l.rows.accountedAt now + l.rows.reserved ≤ limit) ∧
      (l.rows.reservations.keys ++ l.settled.map fun s => s.settlement.id).Nodup ∧
      l.admitted.Perm (l.rows.reservations.keys ++ l.settled.map fun s => s.settlement.id) ∧
      l.rows.accounted = l.charges := by
  refine ⟨by decide +kernel, by decide +kernel, by decide +kernel,
    StoreLedger.Reached.allowance (.step streamOverMonthEnd_reached ?_)⟩
  intro r hr
  have hbytes := streamOverMonthEnd_get
  rw [hr, Option.map_some, Option.some.injEq] at hbytes
  omega

/-! ## Published and admitted -/

/-- The bytes in use at a time, as an admission counts them. -/
def StoreRows.usedAt (rows : StoreRows) (now : Datetime) : Nat :=
  rows.accountedAt now + rows.reserved

/-- An admission succeeds exactly when its bytes fit beside those in use. -/
theorem StoreRows.exists_reserve_iff {lease : Datetime} {expected : Nat}
    (hlease : now.addHour = .ok lease) (hid : id ∉ rows.reservations.keys) :
    (∃ rows', rows.reserve policy now id expected = .ok rows') ↔
      rows.usedAt now + expected ≤ policy.effectiveLimit := by
  rw [StoreRows.reserve]
  cases hreap : StoreRows.reapExpired (rows.lockedUsage now) rows.reservations now with
  | mk usage reservations =>
  obtain ⟨-, haccounted, rfl⟩ := StoreRows.reapExpired_spec hreap
  have hsettled := rows.reservations.sum_deleteWhere (ReservationRecord.expired now)
    ReservationRecord.reservedBytes
  have hused : usage.accountedBytes + StoreRows.reservedBytes
      (rows.reservations.deleteWhere (ReservationRecord.expired now)) = rows.usedAt now := by
    rw [StoreRows.lockedUsage_accounted] at haccounted
    rw [StoreRows.usedAt, StoreRows.accountedAt_eq, StoreRows.reserved, StoreRows.reservedBytes,
      StoreRows.reservedBytes, haccounted]
    omega
  simp only [hused]
  split
  · rename_i hlimit
    refine iff_of_false ?_ (Nat.not_le.2 hlimit)
    rintro ⟨rows', h⟩
    obtain ⟨_, -, h⟩ := bind_eq_ok.1 h
    cases h
  · rename_i hlimit
    refine iff_of_true ?_ (Nat.not_lt.1 hlimit)
    have hkept : id ∉ (rows.reservations.deleteWhere (ReservationRecord.expired now)).keys :=
      fun hmem => hid (((rows.reservations.keys_deleteWhere _).mem_iff).2 (mem_append_right _ hmem))
    have hinsert : ∃ t', (rows.reservations.deleteWhere (ReservationRecord.expired now)).insert
        ⟨id, usage.monthStartedAt, expected, now.formatUtcTimestamp,
          lease.formatUtcTimestamp⟩ = some t' := insert_of_not_mem hkept
    obtain ⟨reservations, hinsert⟩ := hinsert
    exact ⟨_, bind_eq_ok.2 ⟨lease, congrArg uncaught hlease,
      bind_eq_ok.2 ⟨reservations, addRow_eq_ok.2 hinsert, rfl⟩⟩⟩

/-- A reservation of the month of a time. -/
def ReservationRecord.inMonth (now : Datetime) (r : ReservationRecord) : Bool :=
  r.monthStartedAt = monthOf now

/-- What is published leaves out the reservations of other months. -/
theorem StoreRows.status_remaining {s : StoreRows.Status} (h : rows.status policy now = .ok s) :
    s.remainingBytes = policy.effectiveLimit - (rows.accountedAt now +
      rows.reservations.sumWhere (ReservationRecord.inMonth now)
        ReservationRecord.reservedBytes) := by
  obtain ⟨resets, -, h⟩ := bind_eq_ok.1 h
  cases h
  have hparts := rows.reservations.sumWhere_and (ReservationRecord.inMonth now)
    (ReservationRecord.expired now) ReservationRecord.reservedBytes
  rw [← hparts]
  simp only [ReservationRecord.inMonth]
  omega

/-- Whenever a store publishes its remaining bytes, a fresh reservation is admitted
for exactly the amounts up to it if and only if no live reservation of another month
holds bytes and the bytes in use are within the limit. -/
theorem StoreRows.status_iff_reserve {rows : StoreRows} {policy : StorePolicy} {now : Datetime}
    {s : StoreRows.Status} (h : rows.status policy now = .ok s) :
    (∀ id ∉ rows.reservations.keys, ∀ expected, expected ≤ s.remainingBytes ↔
        ∃ rows', rows.reserve policy now id expected = .ok rows') ↔
      (∀ r ∈ rows.reservations.rows, r.monthStartedAt ≠ monthOf now → r.reservedBytes = 0) ∧
        rows.usedAt now ≤ policy.effectiveLimit := by
  have hremaining := status_remaining h
  obtain ⟨next, hnext, -⟩ := bind_eq_ok.1 h
  have hnext : ∃ next, now.nextMonthStart = .ok next := by
    cases hn : now.nextMonthStart with
    | ok next => exact ⟨next, rfl⟩
    | error e => rw [hn] at hnext; cases hnext
  obtain ⟨next, hnext⟩ := hnext
  obtain ⟨lease, hlease⟩ := Datetime.exists_addHour hnext
  -- The bytes in use are those published and those that other months still hold.
  have hsplit := rows.reservations.sumWhere_add_sumWhere_not (ReservationRecord.inMonth now)
    ReservationRecord.reservedBytes
  have hothers : (∀ r ∈ rows.reservations.rows, r.monthStartedAt ≠ monthOf now →
      r.reservedBytes = 0) ↔
      rows.reservations.sumWhere (fun r => !r.inMonth now) ReservationRecord.reservedBytes = 0 := by
    simp [sumWhere_eq_zero_iff, ReservationRecord.inMonth]
  have hused : rows.usedAt now = rows.accountedAt now + rows.reservations.sum
    ReservationRecord.reservedBytes := rfl
  rw [hothers]
  constructor
  · intro hagree
    obtain ⟨id, hid⟩ := Infinite.exists_notMem_finset rows.reservations.keys.toFinset
    rw [mem_toFinset] at hid
    have hnone := (hagree id hid 0).1 (Nat.zero_le _)
    have hall := (hagree id hid s.remainingBytes).1 le_rfl
    rw [exists_reserve_iff hlease hid] at hnone hall
    omega
  · rintro ⟨hzero, hlimit⟩ id hid expected
    rw [exists_reserve_iff hlease hid]
    omega

/-- While the stream of January runs, the store publishes 100 bytes for February and
refuses a reservation of them. -/
theorem status_ne_reserve_over_month_end :
    streamOverMonthEnd.Reached ∧ ∃ s, streamOverMonthEnd.rows.status glacier earlyFebruary = .ok s ∧
        100 ≤ s.remainingBytes ∧
        ¬∃ rows', streamOverMonthEnd.rows.reserve glacier earlyFebruary "b" 100 = .ok rows' := by
  obtain ⟨s, hs, hremaining⟩ := exists_ok_of_elim
    (show ((streamOverMonthEnd.rows.status glacier earlyFebruary).toOption.elim false
      fun s => decide (100 ≤ s.remainingBytes)) = true by decide +kernel)
  have hrefused : ((streamOverMonthEnd.rows.reserve glacier earlyFebruary "b"
    100).toOption.isSome) = false := by decide +kernel
  refine ⟨streamOverMonthEnd_reached, s, hs, of_decide_eq_true hremaining, ?_⟩
  rintro ⟨rows', h⟩
  rw [h] at hrefused
  cases hrefused

/-- Before the month ends the two agree on the 40 bytes that are left. -/
theorem status_iff_reserve_in_january :
    ∃ s, streamOverMonthEnd.rows.status glacier lateJanuary = .ok s ∧ s.remainingBytes = 40 ∧
      ∀ id ∉ streamOverMonthEnd.rows.reservations.keys, ∀ expected, expected ≤ s.remainingBytes ↔
          ∃ rows', streamOverMonthEnd.rows.reserve glacier lateJanuary id expected = .ok rows' := by
  obtain ⟨s, hs, hremaining⟩ := exists_ok_of_elim
    (show ((streamOverMonthEnd.rows.status glacier lateJanuary).toOption.elim false
      fun s => decide (s.remainingBytes = 40)) = true by decide +kernel)
  exact ⟨s, hs, of_decide_eq_true hremaining,
    (StoreRows.status_iff_reserve hs).2 ⟨by decide +kernel, by decide +kernel⟩⟩

end Riverhog.Allowance
