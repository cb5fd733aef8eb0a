import Riverhog.Core.Datetime
import Riverhog.Core.Table

/-!
# The download allowance of an archive store

`riverhog_core.services.download_allowances` for one archive store with a monthly
allowance. A stream reserves the bytes it may transfer, extends its lease while it
runs and finishes with the bytes it did transfer; an expired reservation is charged
in full by the next admission. Each operation holds the lock of the store for one
transaction, so an operation that raises changes nothing.

The rows of the other stores are left out, and so is the store column: a stream
finishes under the store it was reserved on.
-/

namespace Riverhog.Allowance

open Core

/-- The exceptions of the allowance service. -/
inductive AllowanceError where
  /-- `DownloadAllowanceExceeded`. -/
  | exceeded (message : Text)
  | notFound (message : Text)
  /-- A constraint of the database. -/
  | integrity
  /-- An exception that is not turned into a response of its own. -/
  | python (e : PyError)
  deriving DecidableEq

/-- An operation of the allowance service. -/
abbrev Answer := Except AllowanceError

/-- A Python exception that is not caught. -/
def uncaught {α : Type} : Py α → Answer α
  | .ok a => .ok a
  | .error e => .error (.python e)

/-- Add a row, or raise the error of a violated constraint. -/
def addRow {α : Type} {key : α → Text} (t : Table key) (r : α) : Answer (Table key) :=
  match t.insert r with
  | some t' => .ok t'
  | none => .error .integrity

theorem addRow_eq_ok {α : Type} {key : α → Text} {t t' : Table key} {r : α} :
    addRow t r = .ok t' ↔ t.insert r = some t' := by
  unfold addRow
  split <;> simp [*]

/-- The text of the start of the month of a time. -/
def monthOf (now : Datetime) : Text := now.monthStart.formatUtcTimestamp

/-- `f"{...} monthly download {...} has {remaining} bytes remaining; ..."`. -/
def exceededMessage (holder : String) (name : Text) (limit : String)
    (remaining expected : Nat) (resetsAt : Text) : Text :=
  holder.toList ++ name ++ limit.toList ++ decimal remaining ++ " bytes remaining; " ++
    decimal expected ++ " bytes were requested; resets at " ++ resetsAt

/-! ## Rows and policy -/

/-- The configuration of a store with a download allowance. -/
structure StorePolicy where
  name : Text
  monthlyDownloadAllowanceBytes : Nat
  downloadSafetyBufferBytes : Nat
  buffer_lt : downloadSafetyBufferBytes < monthlyDownloadAllowanceBytes

/-- `_effective_limit`. -/
def StorePolicy.effectiveLimit (policy : StorePolicy) : Nat :=
  policy.monthlyDownloadAllowanceBytes - policy.downloadSafetyBufferBytes

/-- `ArchiveDownloadUsageRecord`, and `KeyDownloadUsageRecord` without its key. -/
structure UsageRecord where
  monthStartedAt : Text
  accountedBytes : Nat
  updatedAt : Text
  deriving DecidableEq

/-- `ArchiveDownloadReservationRecord`. -/
structure ReservationRecord where
  id : Text
  monthStartedAt : Text
  reservedBytes : Nat
  createdAt : Text
  expiresAt : Text

/-- The rows of one store. -/
structure StoreRows where
  usage : Option UsageRecord
  reservations : Table ReservationRecord.id

/-- A usage row for the month of a time: a new one, or the row of another month reset. -/
def rolledUsage (usage : Option UsageRecord) (now : Datetime) : UsageRecord :=
  let fresh : UsageRecord :=
    { monthStartedAt := monthOf now, accountedBytes := 0, updatedAt := now.formatUtcTimestamp }
  match usage with
  | none => fresh
  | some usage => if usage.monthStartedAt ≠ monthOf now then fresh else usage

/-- The lease of a reservation has run out. -/
def ReservationRecord.expired (now : Datetime) (r : ReservationRecord) : Bool :=
  r.expiresAt ≤ now.formatUtcTimestamp

/-! ## Operations -/

namespace StoreRows

variable (rows : StoreRows)

/-- `_ensure_usage_rows` for the store. -/
def ensureUsageRow (now : Datetime) : StoreRows :=
  match rows.usage with
  | some _ => rows
  | none => { rows with usage := some (rolledUsage none now) }

/-- `_locked_usage`. -/
def lockedUsage (now : Datetime) : UsageRecord := rolledUsage rows.usage now

/-- `_reap_expired`: charge the expired reservations in full and delete them. -/
def reapExpired (usage : UsageRecord) (reservations : Table ReservationRecord.id)
    (now : Datetime) : UsageRecord × Table ReservationRecord.id :=
  let expired := reservations.rows.filter (ReservationRecord.expired now)
  if expired.length = 0 then (usage, reservations)
  else
    ({ usage with
        accountedBytes := usage.accountedBytes +
          reservations.sumWhere (ReservationRecord.expired now) ReservationRecord.reservedBytes
        updatedAt := now.formatUtcTimestamp },
      reservations.deleteWhere (ReservationRecord.expired now))

/-- `_reserved_bytes`. -/
def reservedBytes (reservations : Table ReservationRecord.id) : Nat :=
  reservations.sum ReservationRecord.reservedBytes

/-- `_reserve`, with the identifier that `secrets.token_hex` draws. -/
def reserve (policy : StorePolicy) (now : Datetime) (reservationId : Text)
    (expectedBytes : Nat) : Answer StoreRows := do
  let usage := rows.lockedUsage now
  let (usage, reservations) := reapExpired usage rows.reservations now
  let reserved := reservedBytes reservations
  let projected := usage.accountedBytes + reserved + expectedBytes
  if projected > policy.effectiveLimit then
    let resets ← uncaught now.nextMonthStart
    let remaining := policy.effectiveLimit - usage.accountedBytes - reserved
    .error (.exceeded (exceededMessage "archive store " policy.name
      " monthly download allowance has " remaining expectedBytes resets.formatUtcTimestamp))
  else
    let lease ← uncaught now.addHour
    let reservations ← addRow reservations
      { id := reservationId
        monthStartedAt := usage.monthStartedAt
        reservedBytes := expectedBytes
        createdAt := now.formatUtcTimestamp
        expiresAt := lease.formatUtcTimestamp }
    .ok
      { usage := some { usage with updatedAt := now.formatUtcTimestamp }
        reservations }

/-- `_heartbeat`. -/
def heartbeat (now : Datetime) (reservationId : Text) :
    Answer StoreRows :=
  match rows.reservations.get reservationId with
  | none => .ok rows
  | some _ => do
    let lease ← uncaught now.addHour
    .ok { rows with
      reservations := rows.reservations.update reservationId
        (fun r => { r with expiresAt := lease.formatUtcTimestamp }) fun _ => rfl }

/-- The bytes that a finished stream is charged: what it transferred, but the whole
reservation when it was admitted in another month. -/
def finishCharge (month : Text) (usage : UsageRecord) (reserved transferred : Nat) : Nat :=
  if month = usage.monthStartedAt then transferred else max transferred reserved

/-- `_finish`. -/
def finish (now : Datetime) (reservationId : Text) (transferredBytes : Nat) : StoreRows :=
  let usage := rows.lockedUsage now
  match rows.reservations.get reservationId with
  | none => { rows with usage := some usage }
  | some r =>
    { usage := some
        { usage with
          accountedBytes := usage.accountedBytes +
            finishCharge r.monthStartedAt usage r.reservedBytes transferredBytes
          updatedAt := now.formatUtcTimestamp }
      reservations := rows.reservations.delete reservationId }

/-- `_release_store_reservation`. -/
def releaseStoreReservation (reservationId : Text) : StoreRows :=
  match rows.reservations.get reservationId with
  | none => rows
  | some _ => { rows with reservations := rows.reservations.delete reservationId }

/-- `ArchiveDownloadAllowance`. -/
structure Status where
  store : Text
  isOpen : Bool
  monthStartedAt : Text
  resetsAt : Text
  allowanceBytes : Nat
  safetyBufferBytes : Nat
  effectiveLimitBytes : Nat
  accountedBytes : Nat
  reservedBytes : Nat
  remainingBytes : Nat
  deriving DecidableEq

/-- The bytes accounted to the month of a time. -/
def accountedAt (now : Datetime) : Nat :=
  match rows.usage with
  | some usage => if usage.monthStartedAt = monthOf now then usage.accountedBytes else 0
  | none => 0

/-- `_status`. Only reservations made in the month of `now` are read. -/
def status (policy : StorePolicy) (now : Datetime) : Answer Status := do
  let month := monthOf now
  let accounted := rows.accountedAt now
  let expired := rows.reservations.sumWhere
    (fun r => r.monthStartedAt = month && r.expired now) ReservationRecord.reservedBytes
  let reserved := rows.reservations.sumWhere
    (fun r => r.monthStartedAt = month && !r.expired now) ReservationRecord.reservedBytes
  let accounted := accounted + expired
  let remaining := policy.effectiveLimit - accounted - reserved
  let resets ← uncaught now.nextMonthStart
  .ok
    { store := policy.name
      isOpen := remaining > 0
      monthStartedAt := month
      resetsAt := resets.formatUtcTimestamp
      allowanceBytes := policy.monthlyDownloadAllowanceBytes
      safetyBufferBytes := policy.downloadSafetyBufferBytes
      effectiveLimitBytes := policy.effectiveLimit
      accountedBytes := accounted
      reservedBytes := reserved
      remainingBytes := remaining }

end StoreRows

end Riverhog.Allowance
