import Riverhog.Allowance.Store

/-!
# The download quota of an application key

`riverhog_core.services.download_allowances` for application keys. A retrieval job
reserves the bytes it will download; a stream of the job turns them into a reservation
of its own, which is charged when the stream finishes or expires. The usage and the
reservations of all keys are modelled, since a job is looked up by its identifier
alone. Byte counts are never negative, and identifiers are given as `set_key_quota`
normalises them.
-/

namespace Riverhog.Allowance

open Core

/-- The columns of `AppKeyRecord` that the quota reads. -/
structure AppKeyRecord where
  id : Text
  app : Text
  monthlyDownloadQuotaBytes : Option Nat
  expiresAt : Option Text
  revokedAt : Option Text

/-- The kind of a key reservation. -/
inductive ReservationKind where
  | job | stream
  deriving DecidableEq

/-- `KeyDownloadReservationRecord`. -/
structure KeyReservationRecord where
  id : Text
  keyId : Text
  jobId : Text
  kind : ReservationKind
  monthStartedAt : Text
  reservedBytes : Nat
  createdAt : Text
  expiresAt : Text

/-- The reservations of all keys. -/
abbrev KeyReservations := Table KeyReservationRecord.id

/-- The tables of the quota; the usage rows by their key. -/
structure KeyTables where
  keys : Table AppKeyRecord.id
  usage : Text → Option UsageRecord
  reservations : KeyReservations

/-- `_job_reservation_id`. -/
def jobReservationId (jobId : Text) : Text := "job:" ++ jobId

/-- An active key: neither revoked nor expired. -/
def AppKeyRecord.active (key : AppKeyRecord) (now : Datetime) : Bool :=
  key.revokedAt.isNone && key.expiresAt.all fun expires => !(expires ≤ now.formatUtcTimestamp)

/-- A reservation of a key. -/
def KeyReservationRecord.ofKey (keyId : Text) (r : KeyReservationRecord) : Bool :=
  r.keyId = keyId

/-- A reservation of a key whose lease has run out. -/
def KeyReservationRecord.expired (keyId : Text) (now : Datetime) (r : KeyReservationRecord) :
    Bool :=
  r.keyId = keyId && r.expiresAt ≤ now.formatUtcTimestamp

/-- What an expired reservation is charged: a stream its bytes, a job nothing. -/
def KeyReservationRecord.expiryCharge (r : KeyReservationRecord) : Nat :=
  if r.kind = .stream then r.reservedBytes else 0

/-! ## Shared steps -/

/-- `_locked_key_usage`. -/
def lockedKeyUsage (t : KeyTables) (keyId : Text) (now : Datetime) (requireActive : Bool) :
    Answer (UsageRecord × AppKeyRecord) :=
  match t.keys.get keyId with
  | none => .error (.notFound ("app key not found: " ++ keyId))
  | some key =>
    if requireActive && !key.active now then
      .error (.exceeded "application key is not active")
    else .ok (rolledUsage (t.usage keyId) now, key)

/-- `_reserved_key_bytes`. -/
def reservedKeyBytes (reservations : KeyReservations) (keyId : Text) : Nat :=
  reservations.sumWhere (KeyReservationRecord.ofKey keyId) KeyReservationRecord.reservedBytes

/-- `_reap_expired_key_reservations`. -/
def reapExpiredKeyReservations (keyId : Text) (usage : UsageRecord)
    (reservations : KeyReservations) (now : Datetime) : UsageRecord × KeyReservations :=
  let expired := reservations.rows.filter (KeyReservationRecord.expired keyId now)
  let usage := { usage with
    accountedBytes := usage.accountedBytes + reservations.sumWhere
      (KeyReservationRecord.expired keyId now) KeyReservationRecord.expiryCharge }
  if expired.length = 0 then (usage, reservations)
  else
    ({ usage with updatedAt := now.formatUtcTimestamp },
      reservations.deleteWhere (KeyReservationRecord.expired keyId now))

/-- `_require_key_capacity`. -/
def requireKeyCapacity (key : AppKeyRecord) (usage : UsageRecord)
    (reservations : KeyReservations) (expectedBytes : Nat) (now : Datetime) : Answer Unit :=
  match key.monthlyDownloadQuotaBytes with
  | none => .ok ()
  | some quota =>
    let reserved := reservedKeyBytes reservations key.id
    let projected := usage.accountedBytes + reserved + expectedBytes
    if projected > quota then do
      let remaining := quota - usage.accountedBytes - reserved
      let resets ← uncaught now.nextMonthStart
      .error (.exceeded (exceededMessage "application key " key.id " monthly download quota has "
        remaining expectedBytes resets.formatUtcTimestamp))
    else .ok ()

/-- `_key_status`. -/
inductive KeyStatus where
  | revoked | expired | active
  deriving DecidableEq

/-- `_key_status` of a key record. -/
def keyStatus (key : AppKeyRecord) (nowText : Text) : KeyStatus :=
  if key.revokedAt.isSome then .revoked
  else if key.expiresAt.any fun expires => expires ≤ nowText then .expired
  else .active

/-- The answer of `_key_quota_payload`. -/
structure KeyQuota where
  app : Text
  keyId : Text
  keyStatus : KeyStatus
  monthlyBytes : Option Nat
  monthStartedAt : Text
  resetsAt : Text
  accountedBytes : Nat
  reservedBytes : Nat
  remainingBytes : Option Nat

/-- `_key_quota_payload`. -/
def keyQuotaPayload (key : AppKeyRecord) (usage : UsageRecord) (reservations : KeyReservations)
    (now : Datetime) : Answer KeyQuota := do
  let reserved := reservedKeyBytes reservations key.id
  let resets ← uncaught now.nextMonthStart
  .ok
    { app := key.app
      keyId := key.id
      keyStatus := keyStatus key now.formatUtcTimestamp
      monthlyBytes := key.monthlyDownloadQuotaBytes
      monthStartedAt := usage.monthStartedAt
      resetsAt := resets.formatUtcTimestamp
      accountedBytes := usage.accountedBytes
      reservedBytes := reserved
      remainingBytes := key.monthlyDownloadQuotaBytes.map fun quota =>
        quota - usage.accountedBytes - reserved }

namespace KeyTables

variable (t : KeyTables)

/-- Write the usage row of a key. -/
def setUsage (keyId : Text) (usage : UsageRecord) (reservations : KeyReservations) : KeyTables :=
  { t with usage := Function.update t.usage keyId (some usage), reservations }

/-! ## Operations -/

/-- `reserve_retrieval`. -/
def reserveRetrieval (now : Datetime) (keyId jobId : Text) (expectedBytes : Nat)
    (expiresAt : Text) : Answer KeyTables :=
  if expectedBytes = 0 then .ok t
  else do
    let (usage, key) ← lockedKeyUsage t keyId now true
    let (usage, reservations) := reapExpiredKeyReservations keyId usage t.reservations now
    match reservations.get (jobReservationId jobId) with
    | some _ => .ok (t.setUsage keyId usage reservations)
    | none => do
      requireKeyCapacity key usage reservations expectedBytes now
      let reservations ← addRow reservations
        { id := jobReservationId jobId
          keyId
          jobId
          kind := .job
          monthStartedAt := usage.monthStartedAt
          reservedBytes := expectedBytes
          createdAt := now.formatUtcTimestamp
          expiresAt }
      .ok (t.setUsage keyId { usage with updatedAt := now.formatUtcTimestamp } reservations)

/-- `release_retrieval`. -/
def releaseRetrieval (jobId : Text) : KeyTables :=
  { t with reservations := t.reservations.deleteWhere fun r => r.jobId = jobId && r.kind = .job }

/-- The bytes that a job reservation, if it is one of the key, has for a stream. -/
def jobAvailable (reservations : KeyReservations) (keyId jobId : Text) : Nat :=
  match reservations.get (jobReservationId jobId) with
  | none => 0
  | some job => if job.keyId = keyId then job.reservedBytes else 0

/-- Take the bytes of a stream from the reservation of its job, which goes when it is
used up. -/
def drawOnJob (reservations : KeyReservations) (keyId jobId : Text) (expectedBytes : Nat) :
    KeyReservations :=
  match reservations.get (jobReservationId jobId) with
  | none => reservations
  | some job =>
    let taken := min (jobAvailable reservations keyId jobId) expectedBytes
    let reservations := reservations.update (jobReservationId jobId)
      (fun r => { r with reservedBytes := r.reservedBytes - taken }) fun _ => rfl
    if job.reservedBytes - taken = 0 then reservations.delete (jobReservationId jobId)
    else reservations

/-- The capacity check of a stream, made only for bytes its job does not hold. -/
def requireExtraCapacity (key : AppKeyRecord) (usage : UsageRecord)
    (reservations : KeyReservations) (extra : Nat) (now : Datetime) : Answer Unit :=
  if extra ≠ 0 then requireKeyCapacity key usage reservations extra now else .ok ()

/-- `_begin_key_stream`, with the identifier that `secrets.token_hex` draws. -/
def beginKeyStream (now : Datetime) (keyId jobId streamId : Text)
    (expectedBytes : Nat) : Answer KeyTables := do
  let (usage, key) ← lockedKeyUsage t keyId now true
  let (usage, reservations) := reapExpiredKeyReservations keyId usage t.reservations now
  let extra := expectedBytes - jobAvailable reservations keyId jobId
  requireExtraCapacity key usage reservations extra now
  let month := match reservations.get (jobReservationId jobId) with
    | some job => job.monthStartedAt
    | none => usage.monthStartedAt
  let lease ← uncaught now.addHour
  let reservations ← addRow (drawOnJob reservations keyId jobId expectedBytes)
    { id := streamId
      keyId
      jobId
      kind := .stream
      monthStartedAt := month
      reservedBytes := expectedBytes
      createdAt := now.formatUtcTimestamp
      expiresAt := lease.formatUtcTimestamp }
  .ok (t.setUsage keyId { usage with updatedAt := now.formatUtcTimestamp } reservations)

/-- `_heartbeat_key_stream`. -/
def heartbeatKeyStream (now : Datetime) (reservationId : Text) :
    Answer KeyTables :=
  match t.reservations.get reservationId with
  | none => .ok t
  | some r =>
    if r.kind = .stream then do
      let lease ← uncaught now.addHour
      .ok { t with
        reservations := t.reservations.update reservationId
          (fun r => { r with expiresAt := lease.formatUtcTimestamp }) fun _ => rfl }
    else .ok t

/-- `_finish_key_stream`. -/
def finishKeyStream (now : Datetime) (keyId reservationId : Text)
    (transferredBytes : Nat) : Answer KeyTables := do
  let (usage, _) ← lockedKeyUsage t keyId now false
  match t.reservations.get reservationId with
  | none => .ok (t.setUsage keyId usage t.reservations)
  | some r =>
    let charge :=
      StoreRows.finishCharge r.monthStartedAt usage r.reservedBytes transferredBytes
    .ok (t.setUsage keyId
      { usage with
        accountedBytes := usage.accountedBytes + charge
        updatedAt := now.formatUtcTimestamp }
      (t.reservations.delete reservationId))

/-- `get_key_quota`, which rolls and reaps before it answers. -/
def getKeyQuota (now : Datetime) (keyId : Text) :
    Answer (KeyTables × KeyQuota) := do
  let (usage, key) ← lockedKeyUsage t keyId now false
  let (usage, reservations) := reapExpiredKeyReservations keyId usage t.reservations now
  let payload ← keyQuotaPayload key usage reservations now
  .ok (t.setUsage keyId usage reservations, payload)

/-- `set_key_quota`. -/
def setKeyQuota (now : Datetime) (app keyId : Text) (monthlyBytes : Option Nat) :
    Answer (KeyTables × KeyQuota) :=
  match t.keys.get keyId with
  | none => .error (.notFound ("app key not found: " ++ keyId))
  | some key =>
    if key.app = app then
      let keys := t.keys.update keyId
        (fun key => { key with monthlyDownloadQuotaBytes := monthlyBytes }) fun _ => rfl
      getKeyQuota { t with keys } now keyId
    else .error (.notFound ("app key not found: " ++ keyId))

end KeyTables

end Riverhog.Allowance
