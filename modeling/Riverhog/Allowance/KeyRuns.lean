import Riverhog.Allowance.Key
import Mathlib.Algebra.Order.BigOperators.Group.List

/-!
# Runs of the operations on key quotas

No operation admits work that takes a key beyond its quota: whatever an operation
does to the bytes a key uses, they do not grow, or they end within the quota. A stream
takes the bytes of its job with it, so only what the job did not hold is new.
-/

namespace Riverhog.Allowance

open Core KeyReservationRecord KeyTables Table

/-- The operations on the quota tables, each at the time it reads. -/
inductive KeyOp where
  | reserve (now : Datetime) (keyId jobId : Text) (expectedBytes : Nat) (expiresAt : Text)
  | release (jobId : Text)
  | beginStream (now : Datetime) (keyId jobId streamId : Text) (expectedBytes : Nat)
  | heartbeat (now : Datetime) (reservationId : Text)
  | finish (now : Datetime) (keyId reservationId : Text) (transferredBytes : Nat)
  | getQuota (now : Datetime) (keyId : Text)
  | setQuota (now : Datetime) (app keyId : Text) (monthlyBytes : Option Nat)

/-- The transaction of an operation. -/
def KeyOp.perform : KeyOp → KeyTables → Answer KeyTables
  | reserve now keyId jobId expected expiresAt, t =>
    t.reserveRetrieval now keyId jobId expected expiresAt
  | release jobId, t => .ok (t.releaseRetrieval jobId)
  | beginStream now keyId jobId streamId expected, t =>
    t.beginKeyStream now keyId jobId streamId expected
  | heartbeat now reservationId, t => t.heartbeatKeyStream now reservationId
  | finish now keyId reservationId transferred, t =>
    t.finishKeyStream now keyId reservationId transferred
  | getQuota now keyId, t => Prod.fst <$> t.getKeyQuota now keyId
  | setQuota now app keyId monthly, t => Prod.fst <$> t.setKeyQuota now app keyId monthly

namespace KeyTables

/-- The bytes of a key that are accounted or reserved. -/
def used (t : KeyTables) (keyId : Text) : Nat :=
  (t.usage keyId).elim 0 UsageRecord.accountedBytes + reservedKeyBytes t.reservations keyId

/-- The quota of a key, if it has one. -/
def quota (t : KeyTables) (keyId : Text) : Option Nat :=
  (t.keys.get keyId).bind AppKeyRecord.monthlyDownloadQuotaBytes

/-- A key that uses no more than its quota. -/
def Within (t : KeyTables) (keyId : Text) : Prop := ∀ quota ∈ t.quota keyId, t.used keyId ≤ quota

/-- A stream finishes under the key it was begun for and transfers at most what it was
admitted for; a drawn identifier is not that of a job. -/
def Permits (t : KeyTables) : KeyOp → Prop
  | .beginStream _ _ jobId streamId _ => streamId ≠ jobReservationId jobId
  | .finish _ keyId reservationId transferred =>
    ∀ r, t.reservations.get reservationId = some r → r.keyId = keyId ∧ transferred ≤ r.reservedBytes
  | _ => True

end KeyTables

/-! ## What the shared steps do to the bytes of a key -/

/-- The bytes that one reservation counts for a key. -/
def KeyReservationRecord.bytesFor (keyId : Text) (r : KeyReservationRecord) : Nat :=
  if r.ofKey keyId then r.reservedBytes else 0

theorem reservedKeyBytes_eq (reservations : KeyReservations) (keyId : Text) :
    reservedKeyBytes reservations keyId = reservations.sum (bytesFor keyId) := rfl

theorem rolledUsage_accounted_le (usage : Option UsageRecord) (now : Datetime) :
    (rolledUsage usage now).accountedBytes ≤ usage.elim 0 UsageRecord.accountedBytes := by
  cases usage with
  | none => exact le_rfl
  | some usage =>
    simp only [rolledUsage]
    split
    · exact Nat.zero_le _
    · exact le_rfl

variable {op : KeyOp} {t t' : KeyTables} {k : Text}

variable {key : AppKeyRecord}

theorem lockedKeyUsage_eq_ok {keyId : Text} {now : Datetime} {active : Bool} {usage : UsageRecord}
    (h : lockedKeyUsage t keyId now active = .ok (usage, key)) :
    usage = rolledUsage (t.usage keyId) now ∧ t.keys.get keyId = some key := by
  unfold lockedKeyUsage at h
  split at h
  · cases h
  · rename_i key' hkey
    split at h
    · cases h
    · cases h
      exact ⟨rfl, hkey⟩

/-- The rows of the expired reservations go, whether or not there are any. -/
theorem reapExpiredKeyReservations_eq (keyId : Text) (usage : UsageRecord)
    (reservations : KeyReservations) (now : Datetime) :
    (reapExpiredKeyReservations keyId usage reservations now).2 =
        reservations.deleteWhere (expired keyId now) ∧
      (reapExpiredKeyReservations keyId usage reservations now).1.accountedBytes =
        usage.accountedBytes + reservations.sumWhere (expired keyId now)
          expiryCharge := by
  unfold reapExpiredKeyReservations
  dsimp only
  split
  · rename_i hnone
    refine ⟨?_, rfl⟩
    apply ext
    refine (List.filter_eq_self.2 fun r hr => ?_).symm
    have hp := List.filter_eq_nil_iff.1 (List.eq_nil_of_length_eq_zero hnone) r hr
    simpa using hp
  · exact ⟨rfl, rfl⟩

/-- Reaping the reservations of a key does not raise what it uses. -/
theorem used_reap_le (t : KeyTables) (keyId : Text) (now : Datetime) {usage : UsageRecord}
    {reservations : KeyReservations}
    (h : reapExpiredKeyReservations keyId (rolledUsage (t.usage keyId) now) t.reservations now =
      (usage, reservations)) :
    usage.accountedBytes + reservedKeyBytes reservations keyId ≤ t.used keyId := by
  obtain ⟨hrows, haccounted⟩ := reapExpiredKeyReservations_eq keyId
    (rolledUsage (t.usage keyId) now) t.reservations now
  rw [h] at hrows haccounted
  have hrolled := rolledUsage_accounted_le (t.usage keyId) now
  have hsplit := t.reservations.sum_deleteWhere (expired keyId now) (bytesFor keyId)
  -- An expired reservation is one of the key, and is charged at most its bytes.
  have hcharge : t.reservations.sumWhere (expired keyId now) expiryCharge ≤
      t.reservations.sumWhere (expired keyId now)
        (bytesFor keyId) := by
    refine List.sum_le_sum fun r _ => ?_
    split
    · rename_i hexpired
      have hkey := (Bool.and_eq_true_iff.1 hexpired).1
      rw [bytesFor, ofKey, if_pos hkey, expiryCharge]
      split
      · exact le_rfl
      · exact Nat.zero_le _
    · exact le_rfl
  simp only [] at hrows haccounted
  rw [KeyTables.used, reservedKeyBytes_eq, reservedKeyBytes_eq, hrows, haccounted]
  omega

/-- Reaping the reservations of a key leaves those of the others. -/
theorem reservedKeyBytes_reap {keyId : Text} (hk : k ≠ keyId) (usage : UsageRecord)
    (reservations : KeyReservations) (now : Datetime) :
    reservedKeyBytes (reapExpiredKeyReservations keyId usage reservations now).2 k =
      reservedKeyBytes reservations k := by
  rw [(reapExpiredKeyReservations_eq keyId usage reservations now).1, reservedKeyBytes_eq,
    reservedKeyBytes_eq]
  have hsplit := reservations.sum_deleteWhere (expired keyId now) (bytesFor k)
  have hnone : reservations.sumWhere (expired keyId now)
      (bytesFor k) = 0 := by
    refine sumWhere_eq_zero_iff.2 fun r _ hexpired => ?_
    have hkey : r.keyId = keyId := of_decide_eq_true (Bool.and_eq_true_iff.1 hexpired).1
    simp [bytesFor, ofKey, hkey, Ne.symm hk]
  omega

/-- What passes the capacity check fits within the quota. -/
theorem requireKeyCapacity_eq_ok {usage : UsageRecord} {reservations : KeyReservations}
    {expected : Nat} {now : Datetime}
    (h : requireKeyCapacity key usage reservations expected now = .ok ()) :
    ∀ quota ∈ key.monthlyDownloadQuotaBytes,
      usage.accountedBytes + reservedKeyBytes reservations key.id + expected ≤ quota := by
  intro quota hquota
  rw [requireKeyCapacity, Option.mem_def.1 hquota] at h
  dsimp only at h
  split at h
  · obtain ⟨_, -, h⟩ := bind_eq_ok.1 h
    cases h
  · exact Nat.not_lt.1 ‹_›

/-! ## The bytes that a stream takes from its job -/

/-- Drawing on a job takes the drawn bytes from its key and nothing from the others. -/
theorem reservedKeyBytes_drawOnJob (reservations : KeyReservations) (keyId jobId : Text)
    (expected : Nat) (k : Text) :
    reservedKeyBytes (drawOnJob reservations keyId jobId expected) k +
        (if k = keyId then min (jobAvailable reservations keyId jobId) expected else 0) =
      reservedKeyBytes reservations k := by
  unfold drawOnJob
  cases hjob : reservations.get (jobReservationId jobId) with
  | none => simp [jobAvailable, hjob]
  | some job =>
    generalize htaken : min (jobAvailable reservations keyId jobId) expected = taken
    have hdrawn : job.bytesFor k - (if k = keyId then taken else 0) =
        bytesFor k { job with reservedBytes := job.reservedBytes - taken } ∧
        (if k = keyId then taken else 0) ≤ job.bytesFor k := by
      simp only [jobAvailable, hjob] at htaken
      simp only [bytesFor, ofKey, decide_eq_true_eq]
      by_cases hjobKey : job.keyId = keyId
      · rw [if_pos hjobKey] at htaken
        by_cases hk : k = keyId
        · rw [if_pos hk, if_pos (hjobKey.trans hk.symm), if_pos (hjobKey.trans hk.symm)]
          omega
        · have hne : job.keyId ≠ k := fun he => hk (he.symm.trans hjobKey)
          simp [hk, hne]
      · rw [if_neg hjobKey, Nat.zero_min] at htaken
        subst htaken
        simp
    have hupdate := sum_update hjob
      (fun r => { r with reservedBytes := r.reservedBytes - taken }) (fun _ => rfl)
      (bytesFor k)
    have hget := get_update_self hjob
      (fun r => { r with reservedBytes := r.reservedBytes - taken }) (fun _ => rfl)
    have hdelete := sum_delete hget (bytesFor k)
    simp only [reservedKeyBytes_eq]
    split
    · rename_i hzero
      have hnothing : bytesFor k
          { job with reservedBytes := job.reservedBytes - taken } = 0 := by
        simp [bytesFor, hzero]
      omega
    · omega

/-- What is left of a job's reservation. -/
theorem jobAvailable_drawOnJob (reservations : KeyReservations) (keyId jobId : Text)
    (expected : Nat) :
    jobAvailable (drawOnJob reservations keyId jobId expected) keyId jobId =
      jobAvailable reservations keyId jobId - expected := by
  unfold drawOnJob
  cases hjob : reservations.get (jobReservationId jobId) with
  | none => simp [jobAvailable, hjob]
  | some job =>
    have havailable : jobAvailable reservations keyId jobId =
        if job.keyId = keyId then job.reservedBytes else 0 := by
      simp only [jobAvailable, hjob]
    dsimp only
    split
    · rename_i hzero
      rw [havailable] at hzero ⊢
      simp only [jobAvailable, get_delete_self]
      split at hzero
      · rw [if_pos ‹_›]
        omega
      · rw [if_neg ‹_›, Nat.zero_sub]
    · simp only [jobAvailable, get_update_self hjob, hjob]
      split
      · omega
      · exact (Nat.zero_sub _).symm

/-! ## Each operation -/

namespace KeyTables

/-- The key uses no more than before, or is within its quota. -/
def Kept (t t' : KeyTables) (keyId : Text) : Prop :=
  t'.used keyId ≤ t.used keyId ∨ t'.Within keyId

theorem used_setUsage_self (t : KeyTables) (keyId : Text) (usage : UsageRecord)
    (reservations : KeyReservations) : (t.setUsage keyId usage reservations).used keyId =
      usage.accountedBytes + reservedKeyBytes reservations keyId := by
  simp [used, setUsage]

variable {now : Datetime} {t t' : KeyTables} {expected : Nat} {jobId keyId : Text}

theorem used_setUsage_of_ne (t : KeyTables) {k : Text} (hk : k ≠ keyId) (usage : UsageRecord)
    {reservations : KeyReservations}
    (h : reservedKeyBytes reservations k = reservedKeyBytes t.reservations k) :
    (t.setUsage keyId usage reservations).used k = t.used k := by
  simp [used, setUsage, Function.update_of_ne hk, h]

theorem quota_eq {key : AppKeyRecord} (h : t.keys.get keyId = some key) :
    t.quota keyId = key.monthlyDownloadQuotaBytes := by
  rw [quota, h, Option.bind_some]

/-- A new reservation counts for its own key. -/
theorem reservedKeyBytes_insert {reservations reservations' : KeyReservations}
    {r : KeyReservationRecord} (h : reservations.insert r = some reservations') (k : Text) :
    reservedKeyBytes reservations' k = reservedKeyBytes reservations k + r.bytesFor k :=
  sum_insert h (bytesFor k)

/-- The tables after the usage row of a key is rolled and its reservations reaped. -/
def reaped (t : KeyTables) (now : Datetime) (keyId : Text) : KeyTables :=
  let (usage, reservations) :=
    reapExpiredKeyReservations keyId (rolledUsage (t.usage keyId) now) t.reservations now
  t.setUsage keyId usage reservations

theorem used_reaped_le (t : KeyTables) (now : Datetime) (keyId k : Text) :
    (t.reaped now keyId).used k ≤ t.used k := by
  unfold reaped
  cases hreap : reapExpiredKeyReservations keyId (rolledUsage (t.usage keyId) now)
    t.reservations now with
  | mk usage reservations =>
  by_cases hk : k = keyId
  · subst hk
    rw [used_setUsage_self]
    exact used_reap_le t k now hreap
  · have hothers := reservedKeyBytes_reap hk (rolledUsage (t.usage keyId) now) t.reservations now
    rw [hreap] at hothers
    exact (used_setUsage_of_ne t hk usage hothers).le

/-- New bytes for one key: on top of what it uses after the reaping, and only if they
fit within its quota. -/
structure Admission (t t' : KeyTables) (now : Datetime) (keyId : Text) (extra : Nat) : Prop where
  keys : t'.keys = t.keys
  grows : t'.used keyId = (t.reaped now keyId).used keyId + extra
  others : ∀ k ≠ keyId, t'.used k = t.used k
  fits : extra = 0 ∨ ∀ quota ∈ t.quota keyId, (t.reaped now keyId).used keyId + extra ≤ quota

theorem Admission.kept {extra : Nat} (h : Admission t t' now keyId extra) (k : Text) :
    t.Kept t' k := by
  by_cases hk : k = keyId
  · subst hk
    rcases h.fits with hnone | hfits
    · refine .inl ?_
      rw [h.grows, hnone]
      exact t.used_reaped_le now k k
    · refine .inr fun quota hquota => ?_
      rw [KeyTables.quota, h.keys] at hquota
      rw [h.grows]
      exact hfits quota hquota
  · exact .inl (h.others k hk).le

/-- The common end of an admission: a reservation of the key is added to rows that hold
what the reaping left, less what the job gave. -/
theorem admission_of_insert {t : KeyTables} {now : Datetime} {keyId : Text}
    {usage : UsageRecord} {reaped drawn reservations : KeyReservations} {taken : Nat}
    {r : KeyReservationRecord} (updatedAt : Text)
    (hreap : reapExpiredKeyReservations keyId (rolledUsage (t.usage keyId) now) t.reservations
      now = (usage, reaped))
    (hdrawn : ∀ k, reservedKeyBytes drawn k + (if k = keyId then taken else 0) =
      reservedKeyBytes reaped k)
    (hkey : r.keyId = keyId) (htaken : taken ≤ r.reservedBytes)
    (hinsert : drawn.insert r = some reservations)
    (hfits : r.reservedBytes - taken = 0 ∨ ∀ quota ∈ t.quota keyId,
      usage.accountedBytes + reservedKeyBytes reaped keyId + (r.reservedBytes - taken) ≤ quota) :
    Admission t (t.setUsage keyId { usage with updatedAt } reservations) now keyId
      (r.reservedBytes - taken) := by
  have hbase : (t.reaped now keyId).used keyId =
      usage.accountedBytes + reservedKeyBytes reaped keyId := by
    simp only [KeyTables.reaped, hreap]
    exact used_setUsage_self t keyId usage reaped
  refine ⟨rfl, ?_, fun k hk => ?_, hbase ▸ hfits⟩
  · have hself := hdrawn keyId
    rw [if_pos rfl] at hself
    rw [used_setUsage_self, reservedKeyBytes_insert hinsert, hbase]
    have hbytes : r.bytesFor keyId = r.reservedBytes := if_pos (decide_eq_true hkey)
    dsimp only
    omega
  · refine used_setUsage_of_ne t hk _ ?_
    have hothers := reservedKeyBytes_reap hk (rolledUsage (t.usage keyId) now) t.reservations now
    rw [hreap] at hothers
    have hrest := hdrawn k
    rw [if_neg hk] at hrest
    have hbytes : r.bytesFor k = 0 :=
      if_neg (by simpa [ofKey, hkey] using Ne.symm hk)
    rw [reservedKeyBytes_insert hinsert, hbytes, ← hothers]
    exact hrest

theorem reserveRetrieval_cases {expiresAt : Text}
    (h : t.reserveRetrieval now keyId jobId expected expiresAt = .ok t') :
    t' = t ∨ t' = t.reaped now keyId ∨ Admission t t' now keyId expected := by
  unfold reserveRetrieval at h
  split at h
  · cases h
    exact .inl rfl
  · obtain ⟨⟨usage, key⟩, hlocked, h⟩ := bind_eq_ok.1 h
    obtain ⟨rfl, hkey⟩ := lockedKeyUsage_eq_ok hlocked
    cases hreap : reapExpiredKeyReservations keyId (rolledUsage (t.usage keyId) now)
      t.reservations now with
    | mk usage reservations =>
    simp only [hreap] at h
    split at h
    · cases h
      refine .inr (.inl ?_)
      simp only [reaped, hreap]
    · obtain ⟨_, hcapacity, h⟩ := bind_eq_ok.1 h
      obtain ⟨reservations', hadd, h⟩ := bind_eq_ok.1 h
      cases h
      refine .inr (.inr ?_)
      have hid : key.id = keyId := (get_eq_some_iff.1 hkey).2
      refine @admission_of_insert t now keyId usage reservations reservations reservations' 0 _ _
        hreap (fun k => by simp) rfl (Nat.zero_le _) (addRow_eq_ok.1 hadd) (.inr ?_)
      intro quota hquota
      rw [quota_eq hkey] at hquota
      have hfits := requireKeyCapacity_eq_ok hcapacity quota hquota
      rwa [hid] at hfits

variable {payload : KeyQuota} {reservationId streamId : Text}

/-- A stream takes over what its job holds for it; only the rest is new. -/
theorem beginKeyStream_admission (h : t.beginKeyStream now keyId jobId streamId expected = .ok t') :
    Admission t t' now keyId
      (expected - jobAvailable (t.reaped now keyId).reservations keyId jobId) := by
  unfold beginKeyStream at h
  obtain ⟨⟨usage, key⟩, hlocked, h⟩ := bind_eq_ok.1 h
  obtain ⟨rfl, hkey⟩ := lockedKeyUsage_eq_ok hlocked
  cases hreap : reapExpiredKeyReservations keyId (rolledUsage (t.usage keyId) now)
    t.reservations now with
  | mk usage reservations =>
  have hreaped : (t.reaped now keyId).reservations = reservations := by
    simp only [reaped, hreap, setUsage]
  rw [hreaped]
  simp only [hreap] at h
  obtain ⟨_, hcapacity, h⟩ := bind_eq_ok.1 h
  obtain ⟨lease, -, h⟩ := bind_eq_ok.1 h
  obtain ⟨reservations', hadd, h⟩ := bind_eq_ok.1 h
  cases h
  have hextra : expected - jobAvailable reservations keyId jobId =
      expected - min (jobAvailable reservations keyId jobId) expected := by omega
  have hid : key.id = keyId := (get_eq_some_iff.1 hkey).2
  rw [hextra] at hcapacity ⊢
  refine @admission_of_insert t now keyId usage reservations _ reservations' _ _ _
    hreap (reservedKeyBytes_drawOnJob reservations keyId jobId expected) rfl
    (Nat.min_le_right _ _) (addRow_eq_ok.1 hadd) ?_
  unfold requireExtraCapacity at hcapacity
  split at hcapacity
  · refine .inr fun quota hquota => ?_
    rw [quota_eq hkey] at hquota
    have hfits := requireKeyCapacity_eq_ok hcapacity quota hquota
    rwa [hid] at hfits
  · exact .inl (not_not.1 ‹_›)

/-- The rows after a conversion: the job keeps what the stream did not take, and the
stream holds its bytes. -/
theorem beginKeyStream_rows (hid : streamId ≠ jobReservationId jobId)
    (h : t.beginKeyStream now keyId jobId streamId expected = .ok t') :
    jobAvailable t'.reservations keyId jobId =
        jobAvailable (t.reaped now keyId).reservations keyId jobId - expected ∧
      ∃ r, t'.reservations.get streamId = some r ∧ r.kind = .stream ∧ r.keyId = keyId ∧
        r.reservedBytes = expected := by
  unfold beginKeyStream at h
  obtain ⟨⟨usage, key⟩, hlocked, h⟩ := bind_eq_ok.1 h
  obtain ⟨rfl, -⟩ := lockedKeyUsage_eq_ok hlocked
  obtain ⟨_, -, h⟩ := bind_eq_ok.1 h
  obtain ⟨lease, -, h⟩ := bind_eq_ok.1 h
  obtain ⟨reservations, hadd, h⟩ := bind_eq_ok.1 h
  rw [addRow_eq_ok] at hadd
  cases h
  refine ⟨?_, _, get_insert_self hadd, rfl, rfl, rfl⟩
  have hjob := get_insert_of_ne hadd (Ne.symm hid)
  have hdrawn := jobAvailable_drawOnJob (t.reaped now keyId).reservations keyId jobId expected
  rw [← hdrawn]
  simp only [jobAvailable, setUsage, hjob]
  rfl

/-- A finished stream frees at least what it is charged. -/
theorem finishKeyStream_used_le {transferred : Nat}
    (hp : t.Permits (.finish now keyId reservationId transferred))
    (h : t.finishKeyStream now keyId reservationId transferred = .ok t') :
    t'.keys = t.keys ∧ ∀ k, t'.used k ≤ t.used k := by
  unfold finishKeyStream at h
  obtain ⟨⟨usage, key⟩, hlocked, h⟩ := bind_eq_ok.1 h
  obtain ⟨rfl, -⟩ := lockedKeyUsage_eq_ok hlocked
  have hrolled := rolledUsage_accounted_le (t.usage keyId) now
  dsimp only at h
  split at h
  · cases h
    refine ⟨rfl, fun k => ?_⟩
    by_cases hk : k = keyId
    · subst hk
      rw [used_setUsage_self, used]
      omega
    · exact (used_setUsage_of_ne t hk _ rfl).le
  · rename_i r hget
    obtain ⟨hkey, htransferred⟩ := hp r hget
    cases h
    refine ⟨rfl, fun k => ?_⟩
    have hdelete := sum_delete hget (bytesFor k)
    by_cases hk : k = keyId
    · subst hk
      have hbytes : r.bytesFor k = r.reservedBytes := if_pos (decide_eq_true hkey)
      have hcharge : StoreRows.finishCharge r.monthStartedAt (rolledUsage (t.usage k) now)
          r.reservedBytes transferred ≤ r.reservedBytes := by
        unfold StoreRows.finishCharge
        split <;> omega
      rw [used_setUsage_self, used, reservedKeyBytes_eq, reservedKeyBytes_eq]
      dsimp only
      omega
    · have hbytes : r.bytesFor k = 0 :=
        if_neg (by simpa [ofKey, hkey] using Ne.symm hk)
      refine (used_setUsage_of_ne t hk _ ?_).le
      rw [reservedKeyBytes_eq, reservedKeyBytes_eq]
      omega

/-- A heartbeat changes no byte. -/
theorem heartbeatKeyStream_used (h : t.heartbeatKeyStream now reservationId = .ok t') :
    t'.keys = t.keys ∧ ∀ k, t'.used k ≤ t.used k := by
  unfold heartbeatKeyStream at h
  split at h
  · cases h
    exact ⟨rfl, fun k => le_rfl⟩
  · rename_i r hget
    split at h
    · obtain ⟨lease, -, h⟩ := bind_eq_ok.1 h
      cases h
      refine ⟨rfl, fun k => ?_⟩
      have hsum := sum_update hget
        (fun r => { r with expiresAt := lease.formatUtcTimestamp }) (fun _ => rfl)
        (bytesFor k)
      exact Nat.add_le_add_left (Nat.add_right_cancel hsum).le _
    · cases h
      exact ⟨rfl, fun k => le_rfl⟩

/-- A released job gives its bytes back. -/
theorem releaseRetrieval_used_le (t : KeyTables) (jobId k : Text) :
    (t.releaseRetrieval jobId).used k ≤ t.used k := by
  have hsum := t.reservations.sum_deleteWhere (fun r => r.jobId = jobId && r.kind = .job)
    (bytesFor k)
  exact Nat.add_le_add_left ((Nat.le_add_right _ _).trans hsum.le) _

theorem getKeyQuota_eq_ok (h : t.getKeyQuota now keyId = .ok (t', payload)) :
    t' = t.reaped now keyId := by
  unfold getKeyQuota at h
  obtain ⟨⟨usage, key⟩, hlocked, h⟩ := bind_eq_ok.1 h
  obtain ⟨rfl, -⟩ := lockedKeyUsage_eq_ok hlocked
  obtain ⟨_, -, h⟩ := bind_eq_ok.1 h
  cases h
  rfl

theorem setKeyQuota_eq_ok {app : Text} {monthly : Option Nat}
    (h : t.setKeyQuota now app keyId monthly = .ok (t', payload)) :
    (∀ k, t'.used k ≤ t.used k) ∧ ∀ k ≠ keyId, t'.quota k = t.quota k := by
  unfold setKeyQuota at h
  split at h
  · cases h
  · split at h
    · have hreaped := getKeyQuota_eq_ok h
      subst hreaped
      refine ⟨fun k => used_reaped_le _ now keyId k, fun k hk => ?_⟩
      have hother : (t.keys.update keyId (fun key =>
          { key with monthlyDownloadQuotaBytes := monthly }) fun _ => rfl).get k = t.keys.get k :=
        get_update_of_ne hk _ _
      exact congrArg (Option.bind · AppKeyRecord.monthlyDownloadQuotaBytes) hother
    · cases h

end KeyTables

theorem fst_map_eq_ok {α β : Type} {x : Answer (α × β)} {a : α}
    (h : Prod.fst <$> x = .ok a) : ∃ b, x = .ok (a, b) := by
  cases x with
  | error e => cases h
  | ok ab =>
    cases h
    exact ⟨ab.2, rfl⟩

/-- Every operation keeps every key within its quota or does not raise what it uses. -/
theorem KeyOp.perform_kept (hp : t.Permits op) (h : op.perform t = .ok t') (k : Text) :
    t.Kept t' k := by
  cases op with
  | reserve now keyId jobId expected expiresAt =>
    obtain rfl | rfl | hadmission := reserveRetrieval_cases h
    · exact .inl le_rfl
    · exact .inl (t.used_reaped_le now keyId k)
    · exact hadmission.kept k
  | release jobId =>
    cases h
    exact .inl (t.releaseRetrieval_used_le jobId k)
  | beginStream now keyId jobId streamId expected =>
    exact (beginKeyStream_admission h).kept k
  | heartbeat now reservationId => exact .inl ((heartbeatKeyStream_used h).2 k)
  | finish now keyId reservationId transferred =>
    exact .inl ((finishKeyStream_used_le hp h).2 k)
  | getQuota now keyId =>
    obtain ⟨payload, h⟩ := fst_map_eq_ok h
    rw [getKeyQuota_eq_ok h]
    exact .inl (t.used_reaped_le now keyId k)
  | setQuota now app keyId monthly =>
    obtain ⟨payload, h⟩ := fst_map_eq_ok h
    exact .inl ((setKeyQuota_eq_ok h).1 k)

/-- Only `set_key_quota` changes a quota, and only that of its key. -/
theorem KeyOp.perform_quota (hp : t.Permits op) (h : op.perform t = .ok t')
    (hk : ∀ now app keyId monthly, op = .setQuota now app keyId monthly → k ≠ keyId) :
    t'.quota k = t.quota k := by
  have hsame {t t' : KeyTables} (hkeys : t'.keys = t.keys) : t'.quota k = t.quota k := by
    rw [KeyTables.quota, KeyTables.quota, hkeys]
  cases op with
  | reserve now keyId jobId expected expiresAt =>
    obtain rfl | rfl | hadmission := reserveRetrieval_cases h
    · rfl
    · rfl
    · exact hsame hadmission.keys
  | release jobId =>
    cases h
    rfl
  | beginStream now keyId jobId streamId expected =>
    exact hsame (beginKeyStream_admission h).keys
  | heartbeat now reservationId => exact hsame (heartbeatKeyStream_used h).1
  | finish now keyId reservationId transferred =>
    exact hsame (finishKeyStream_used_le hp h).1
  | getQuota now keyId =>
    obtain ⟨payload, h⟩ := fst_map_eq_ok h
    rw [getKeyQuota_eq_ok h]
    rfl
  | setQuota now app keyId monthly =>
    obtain ⟨payload, h⟩ := fst_map_eq_ok h
    exact (setKeyQuota_eq_ok h).2 k (hk now app keyId monthly rfl)

/-! ## Runs -/

/-- The tables that permitted operations lead to, in any order and at any times; a
quota is only set to what the key then is within. -/
inductive KeyRun (start : KeyTables) : KeyTables → Prop
  | start : KeyRun start start
  | step {t t' : KeyTables} {op : KeyOp} : KeyRun start t → t.Permits op → op.perform t = .ok t' →
      (∀ now app keyId monthly, op = .setQuota now app keyId monthly → t'.Within keyId) →
      KeyRun start t'

/-- One operation keeps every key within its quota. -/
theorem KeyOp.perform_within (hp : t.Permits op) (h : op.perform t = .ok t')
    (hset : ∀ now app keyId monthly, op = .setQuota now app keyId monthly → t'.Within keyId)
    (hk : t.Within k) : t'.Within k := by
  by_cases hother : ∀ now app keyId monthly, op = .setQuota now app keyId monthly → k ≠ keyId
  · rcases op.perform_kept hp h k with hle | hwithin
    · intro quota hquota
      rw [op.perform_quota hp h hother] at hquota
      exact hle.trans (hk quota hquota)
    · exact hwithin
  · push Not at hother
    obtain ⟨now, app, keyId, monthly, hop, rfl⟩ := hother
    exact hset now app k monthly hop

theorem KeyRun.within {start : KeyTables} (h : KeyRun start t) (hstart : ∀ k, start.Within k)
    (k : Text) : t.Within k := by
  induction h with
  | start => exact hstart k
  | step _ hp hop hset ih => exact KeyOp.perform_within hp hop hset ih

/-- From tables within all quotas, along every run: the tables stay within all quotas;
and whatever operation comes next, quotas changed at will included, it does not take
a key that uses more than before beyond its quota. A stream that begins adds to what
its key uses only what its job does not hold: the job keeps the rest, the stream has
its bytes, and no other key is touched. -/
theorem KeyRun.quota_kept {start t : KeyTables} (h : KeyRun start t)
    (hstart : ∀ k, start.Within k) :
    (∀ k, t.Within k) ∧ ∀ op t', t.Permits op → op.perform t = .ok t' →
      (∀ k, t'.used k ≤ t.used k ∨ t'.Within k) ∧
      ∀ now keyId jobId streamId expected, op = .beginStream now keyId jobId streamId expected →
        let reaped := t.reaped now keyId
        let available := jobAvailable reaped.reservations keyId jobId
        t'.used keyId = reaped.used keyId + (expected - available) ∧
          jobAvailable t'.reservations keyId jobId = available - expected ∧
          (∃ r, t'.reservations.get streamId = some r ∧ r.kind = .stream ∧ r.keyId = keyId ∧
            r.reservedBytes = expected) ∧
          ∀ k ≠ keyId, t'.used k = t.used k := by
  refine ⟨h.within hstart, fun op t' hp hop => ⟨op.perform_kept hp hop, ?_⟩⟩
  rintro now keyId jobId streamId expected rfl
  have hadmission := beginKeyStream_admission hop
  obtain ⟨hjob, hstream⟩ := KeyTables.beginKeyStream_rows hp hop
  exact ⟨hadmission.grows, hjob, hstream, hadmission.others⟩

/-- One key with a quota of 100 bytes that has used none. -/
def oneKey : KeyTables where
  keys := ⟨[⟨"k", "app", some 100, none, none⟩], by decide⟩
  usage := fun _ => none
  reservations := .empty

/-- Noon on a day in May. -/
def mayNoon : Datetime := ⟨2026, 5, 4, 12, 0, 0, 0, by decide, by decide, by decide, by decide⟩

/-- A job of 60 bytes whose stream takes 80: the key then uses 80. -/
theorem quota_kept_by_stream_of_job :
    ∃ t t', KeyRun oneKey t ∧ t.beginKeyStream mayNoon "k" "j" "s" 80 = .ok t' ∧
      t.used "k" = 60 ∧ t'.used "k" = 80 ∧ (∀ k, t.Within k) ∧
      ∀ k, t'.used k ≤ t.used k ∨ t'.Within k := by
  obtain ⟨t, ht, hp⟩ := exists_ok_of_elim (show ((oneKey.reserveRetrieval mayNoon "k"
    "j" 60 "2026-05-05T12:00:00.000000Z").toOption.elim false fun t => decide (t.used "k" = 60) &&
        (t.beginKeyStream mayNoon "k" "j" "s" 80).toOption.elim false
          fun t' => decide (t'.used "k" = 80)) = true by decide +kernel)
  obtain ⟨hused, hbegin⟩ := Bool.and_eq_true_iff.1 hp
  obtain ⟨t', ht', hused'⟩ := exists_ok_of_elim hbegin
  have hstart : ∀ k, oneKey.Within k := fun k quota _ => Nat.zero_le quota
  have hrun : KeyRun oneKey t :=
    @KeyRun.step oneKey oneKey t (.reserve mayNoon "k" "j" 60 "2026-05-05T12:00:00.000000Z")
      .start trivial ht nofun
  have hkept := KeyRun.quota_kept hrun hstart
  have hstep := hkept.2 (.beginStream mayNoon "k" "j" "s" 80) t'
    (by decide : "s" ≠ jobReservationId "j") ht'
  exact ⟨t, t', hrun, ht', of_decide_eq_true hused, of_decide_eq_true hused', hkept.1, hstep.1⟩

end Riverhog.Allowance
