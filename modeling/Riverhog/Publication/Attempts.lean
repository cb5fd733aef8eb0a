import Mathlib.Data.Finset.Basic
import Riverhog.Core.Bytes
import Riverhog.Core.Runs

/-!
# Mutable document publication attempts

A store holds one description and one tag head of a collection, each replaced under the condition
that the store still holds the expected document. Replicas and tag heads are published through a
recorded attempt. The replacement of a description is published on one store without an attempt.
A document is identified by its revision; every write stores it under a new digest, numbered in the
order of the writes. Digest 0 with revision 0 is the absence of a document.
-/

namespace Riverhog.Publication

open Core

/-- The mutable documents of a collection. -/
inductive DocumentKind where
  | description | tagHead
  deriving DecidableEq

/-- A store and a kind of document. -/
abbrev DocumentKey := Text × DocumentKind

/-- The states of a publication row; `pending` also stands for `retry_wait`. -/
inductive PublicationState where
  | published | pending | publishing
  deriving DecidableEq

/-- A document on a store: its revision and its stored digest. -/
structure StoredDocument where
  revision : Nat
  sha : Nat
  deriving DecidableEq

/-- A row of `CollectionMutableDocumentPublicationAttemptRecord`: the document's revision and the
stored digest of the prior receipt. Its identity is fixed by the two. -/
structure DocumentAttempt where
  revision : Nat
  prior : Nat
  deriving DecidableEq

/-- One document of a store: the stored digest of the publication row's receipt, its wanted revision
and state, the attempt, and the document on the store. The field `selected` is not a column: it has
the revisions of the replacements that selected the store since the receipt last changed. -/
structure DocumentSlot where
  receipt : Nat
  desired : Nat
  state : PublicationState
  attempt : Option DocumentAttempt
  stored : StoredDocument
  selected : Finset Nat

/-- A running publication: of the replacement of a description, or of an attempt. It holds the
digest it expects on the store, and the digest of its receipt once the store has answered. -/
structure PublicationCall where
  key : DocumentKey
  replacement : Bool
  expected : Nat
  revision : Nat
  receipt : Option Nat

/-- The documents of one collection, its description revision, the revision of the active
replacement, whether its state is `publishing`, the running calls and the next digest. -/
structure MutableDocuments where
  slots : DocumentKey → DocumentSlot
  revision : Nat
  replacing : Bool
  publishing : Bool
  calls : Nat → Option PublicationCall
  next : Nat

/-- The steps: transactions, provider effects and the ends of calls. -/
inductive DocumentStep where
  /-- `replace` accepts a new description. -/
  | replace
  /-- The first transaction of `_publish_mutation` selects a store. -/
  | selectReplacement (call : Nat) (store : Text)
  /-- `_claim_due_replica`. -/
  | claimReplica (call : Nat) (store : Text)
  /-- The first transaction of `_process_publication_step`, when all nodes are published. -/
  | claimHead (call : Nat) (store : Text)
  | scheduleHead (store : Text) (revision : Nat)
  /-- The store is asked to publish; `answers` is false if the caller does not learn the result. -/
  | write (call : Nat) (answers : Bool)
  | settle (call : Nat)
  /-- The call raises and its failure is recorded. -/
  | fail (call : Nat)
  | crash (call : Nat)
  /-- A startup requeue, or the failure of another call, returns the replacement to the queue. -/
  | requeueReplacement
  | requeuePublication (key : DocumentKey)

namespace MutableDocuments

section

variable (s : MutableDocuments)

/-- Replaces a slot. -/
def setSlot (key : DocumentKey) (slot : DocumentSlot) : MutableDocuments :=
  { s with slots := Function.update s.slots key slot }

/-- Replaces a call. -/
def setCall (k : Nat) (call : Option PublicationCall) : MutableDocuments :=
  { s with calls := Function.update s.calls k call }

/-- `ensure_description_publication_for_copy` for a description that was replaced elsewhere. -/
def scheduled (slot : DocumentSlot) (revision : Nat) : DocumentSlot :=
  { slot with
    desired := revision
    state := if slot.desired ≠ revision ∧ slot.attempt = none ∧ slot.state ≠ .publishing then
      .pending else slot.state }

/-- Records a receipt in a publication row. -/
def recorded (slot : DocumentSlot) (receipt desired : Nat) (state : PublicationState) :
    DocumentSlot :=
  { slot with
    receipt := receipt
    desired := desired
    state := state
    attempt := none
    selected := if receipt = slot.receipt then slot.selected else ∅ }

/-- Claims the attempt of a slot, with a new one if there is none. -/
def claimed (k : Nat) (key : DocumentKey) (attempt : DocumentAttempt) :
    MutableDocuments :=
  (s.setSlot key { s.slots key with attempt := some attempt, state := .publishing }).setCall k
    (some ⟨key, false, attempt.prior, attempt.revision, none⟩)

/-- The store publishes a document: one of the same revision is kept, and another is replaced only
if it is the expected one. -/
def publish (key : DocumentKey) (expected revision : Nat) :
    Option (MutableDocuments × Nat) :=
  let slot := s.slots key
  if slot.stored.revision = revision then some (s, slot.stored.sha)
  else if slot.stored.sha = expected then
    some ({ s.setSlot key { slot with stored := ⟨revision, s.next⟩ } with next := s.next + 1 },
      s.next)
  else none

/-- The last transaction of a call that has its receipt; `none` raises. -/
def settled (call : PublicationCall) (receipt : Nat) :
    Option MutableDocuments :=
  let slot := s.slots call.key
  if call.replacement then
    if s.publishing ∧ s.replacing ∧ call.revision = s.revision + 1 ∧ slot.attempt = none then
      some { s with
        slots := fun key => if key = call.key then recorded slot receipt call.revision .published
          else if key.2 = .description then scheduled (s.slots key) call.revision
          else s.slots key
        revision := call.revision
        replacing := false
        publishing := false }
    else none
  else if slot.attempt = some ⟨call.revision, call.expected⟩ then
    if slot.receipt = call.expected then
      some (s.setSlot call.key (recorded slot receipt slot.desired
        (if slot.desired = call.revision then .published else .pending)))
    else none
  else some s

/-- The record of a call's failure. -/
def failed (call : PublicationCall) : MutableDocuments :=
  if call.replacement then { s with publishing := false }
  else if (s.slots call.key).attempt = some ⟨call.revision, call.expected⟩ then
    s.setSlot call.key { s.slots call.key with state := .pending }
  else s

/-- One step. A step that is not possible changes nothing. -/
def step : DocumentStep → MutableDocuments
  | .replace => if s.replacing then s else { s with replacing := true, publishing := false }
  | .selectReplacement k store =>
    let slot := s.slots (store, .description)
    if s.replacing ∧ ¬ s.publishing ∧ slot.attempt = none ∧ slot.state ≠ .publishing ∧
        s.calls k = none then
      { (s.setSlot (store, .description)
          { slot with selected := insert (s.revision + 1) slot.selected }).setCall k
          (some ⟨(store, .description), true, slot.receipt, s.revision + 1, none⟩) with
        publishing := true }
    else s
  | .claimReplica k store =>
    let slot := s.slots (store, .description)
    if slot.state = .pending ∧ s.calls k = none then
      match slot.attempt with
      | some attempt => s.claimed k (store, .description) attempt
      | none =>
        if s.revision = slot.desired ∧ slot.desired ≠ 0 then
          s.claimed k (store, .description) ⟨slot.desired, slot.receipt⟩
        else s
    else s
  | .claimHead k store =>
    let slot := s.slots (store, .tagHead)
    if slot.state ≠ .published ∧ s.calls k = none then
      s.claimed k (store, .tagHead) (slot.attempt.getD ⟨slot.desired, slot.receipt⟩)
    else s
  | .scheduleHead store revision =>
    let slot := s.slots (store, .tagHead)
    s.setSlot (store, .tagHead) { slot with
      desired := revision
      state := if slot.attempt = none then .pending else slot.state }
  | .write k answers =>
    match s.calls k with
    | some ⟨key, replacement, expected, revision, none⟩ =>
      match s.publish key expected revision with
      | some (s', sha) =>
        if answers then s'.setCall k (some ⟨key, replacement, expected, revision, some sha⟩)
        else s'
      | none => s
    | _ => s
  | .settle k =>
    match s.calls k with
    | some ⟨key, replacement, expected, revision, some receipt⟩ =>
      ((s.settled ⟨key, replacement, expected, revision, some receipt⟩ receipt).getD
        (s.failed ⟨key, replacement, expected, revision, some receipt⟩)).setCall k none
    | _ => s
  | .fail k =>
    match s.calls k with
    | some call => (s.failed call).setCall k none
    | none => s
  | .crash k => s.setCall k none
  | .requeueReplacement => { s with publishing := false }
  | .requeuePublication key =>
    if (s.slots key).state = .publishing then
      s.setSlot key { s.slots key with state := .pending }
    else s

/-- The document on the store is the prior receipt of the attempt, or the attempt's own. -/
def Completable : Prop :=
  ∀ key attempt, (s.slots key).attempt = some attempt →
    (s.slots key).stored.sha = attempt.prior ∨ (s.slots key).stored.revision = attempt.revision

/-- A new attempt for a description is made on no store that a replacement of another revision has
selected since the store's receipt last changed. -/
def ClaimsUnselected : DocumentStep → Prop
  | .claimReplica _ store => (s.slots (store, .description)).attempt = none →
      ∀ revision ∈ (s.slots (store, .description)).selected,
        revision = (s.slots (store, .description)).desired
  | _ => True

end

/-- What guarded runs keep of one document: the store never falls behind the receipt, and a document
that is not the recorded one was put there by a selecting replacement or by the attempt. -/
structure SlotSound (next revision : Nat) (kind : DocumentKind) (slot : DocumentSlot) : Prop where
  receipt_le : slot.receipt ≤ slot.stored.sha
  sha_lt : slot.stored.sha < next
  prior : ∀ a, slot.attempt = some a → a.prior = slot.receipt
  origin : slot.stored.sha = slot.receipt ∨ slot.stored.revision ∈ slot.selected ∨
    ∃ a, slot.attempt = some a ∧ slot.stored.revision = a.revision
  only : ∀ a, slot.attempt = some a → ∀ r ∈ slot.selected, r = a.revision
  heads : kind = .tagHead → slot.selected = ∅
  stored_le : kind = .description → slot.stored.sha = slot.receipt → slot.stored.revision ≤ revision
  attempt_le : kind = .description → ∀ a, slot.attempt = some a → a.revision ≤ revision

/-- What guarded runs keep of a call: the digest it expects is not ahead of the receipt, and while
it is the receipt, the call's own document is accounted for. -/
structure CallSound (replacing : Bool) (revision : Nat) (slot : DocumentSlot)
    (call : PublicationCall) : Prop where
  expected_le : call.expected ≤ slot.receipt
  kind : call.replacement → call.key.2 = .description
  revision_le : call.replacement →
    call.revision ≤ revision ∨ replacing ∧ call.revision = revision + 1
  selected : call.replacement → call.expected = slot.receipt → call.revision ∈ slot.selected
  active : call.replacement → replacing → call.revision = revision + 1 →
    call.expected = slot.receipt ∧
      ∀ sha, call.receipt = some sha → slot.stored = ⟨call.revision, sha⟩
  replica : call.replacement = false → call.expected = slot.receipt →
    slot.attempt = some ⟨call.revision, call.expected⟩ ∨
      (slot.stored.sha = call.expected → slot.stored.revision = call.revision)
  written : call.replacement = false → call.expected = slot.receipt →
    ∀ sha, call.receipt = some sha → slot.stored = ⟨call.revision, sha⟩ ∨
      (∃ r ∈ slot.selected, r ≠ call.revision) ∨
      ∃ a, slot.attempt = some a ∧ a.revision ≠ call.revision

/-- All documents and calls are sound. -/
structure Sound (s : MutableDocuments) : Prop where
  slot : ∀ key, SlotSound s.next s.revision key.2 (s.slots key)
  call : ∀ k call, s.calls k = some call → CallSound s.replacing s.revision (s.slots call.key) call

/-- A collection with no replacement and no attempt, whose receipts are those of its stores. -/
structure Start (s : MutableDocuments) : Prop where
  idle : s.replacing = false
  calls : ∀ k, s.calls k = none
  attempt : ∀ key, (s.slots key).attempt = none
  selected : ∀ key, (s.slots key).selected = ∅
  receipt : ∀ key, (s.slots key).receipt = (s.slots key).stored.sha
  next : ∀ key, (s.slots key).stored.sha < s.next
  revision : ∀ store, (s.slots (store, .description)).stored.revision ≤ s.revision

variable {s : MutableDocuments} {key : DocumentKey} {k : Nat}

theorem Start.sound (h : s.Start) : s.Sound := by
  constructor
  · rintro ⟨store, kind⟩
    refine ⟨(h.receipt _).le, h.next _, ?_, .inl (h.receipt _).symm, ?_, fun _ => h.selected _,
      ?_, ?_⟩
    · simp [h.attempt]
    · simp [h.attempt]
    · rintro rfl _
      exact h.revision store
    · simp [h.attempt]
  · intro k call hcall
    rw [h.calls k] at hcall
    cases hcall

/-- In a sound state every attempt can be completed. -/
theorem Sound.completable (hs : s.Sound) : s.Completable := by
  intro key a ha
  have hslot := hs.slot key
  rcases hslot.origin with hrecorded | hselected | ⟨b, hb, hrevision⟩
  · exact .inl (hrecorded.trans (hslot.prior a ha).symm)
  · exact .inr (hslot.only a ha _ hselected)
  · rw [ha] at hb
    cases hb
    exact .inr hrevision

variable {slot : DocumentSlot} {receipt revision next : Nat} {call : PublicationCall}
  {s' : MutableDocuments} {kind : DocumentKind}

theorem SlotSound.withState
    (h : SlotSound next revision kind slot) (desired : Nat) (state : PublicationState) :
    SlotSound next revision kind { slot with desired := desired, state := state } :=
  { h with }

theorem CallSound.withState {replacing : Bool} (h : CallSound replacing revision slot call)
    (desired : Nat) (state : PublicationState) :
    CallSound replacing revision { slot with desired := desired, state := state } call :=
  { h with }

section

variable (hs : s.Sound)
include hs

/-- A slot may be replaced by a sound one that fits the calls on it. -/
theorem Sound.setSlot (hslot : SlotSound s.next s.revision key.2 slot)
    (hcalls : ∀ k call, s.calls k = some call → call.key = key →
      CallSound s.replacing s.revision slot call) : (s.setSlot key slot).Sound := by
  constructor
  · exact (Function.forall_update_iff s.slots fun key => SlotSound s.next s.revision key.2).2
      ⟨hslot, fun other _ => hs.slot other⟩
  · intro k call hcall
    by_cases hne : call.key = key
    · simpa [MutableDocuments.setSlot, hne] using hcalls k call hcall hne
    · simpa [MutableDocuments.setSlot, Function.update_of_ne hne] using hs.call k call hcall

theorem Sound.setState (key : DocumentKey) (desired : Nat) (state : PublicationState) :
    (s.setSlot key { s.slots key with desired := desired, state := state }).Sound := by
  apply hs.setSlot ((hs.slot key).withState desired state)
  rintro k call hcall rfl
  exact (hs.call k call hcall).withState desired state

theorem Sound.setCall {value : Option PublicationCall} (hvalue : ∀ call, value = some call →
      CallSound s.replacing s.revision (s.slots call.key) call) : (s.setCall k value).Sound := by
  exact ⟨hs.slot, forall_update_some hs.call hvalue⟩

theorem Sound.setPublishing (publishing : Bool) :
    ({ s with publishing := publishing } : MutableDocuments).Sound := ⟨hs.slot, hs.call⟩

/-- A replacement that starts finds no call for its revision. -/
theorem Sound.startReplacing (hidle : s.replacing = false) (publishing : Bool) :
    ({ s with replacing := true, publishing := publishing } : MutableDocuments).Sound := by
  refine ⟨hs.slot, ?_⟩
  intro k call hcall
  have h := hs.call k call hcall
  have hle : call.replacement → call.revision ≤ s.revision := by
    intro hr
    rcases h.revision_le hr with hle | ⟨hreplacing, -⟩
    · exact hle
    · rw [hidle] at hreplacing
      cases hreplacing
  refine { h with revision_le := fun hr => .inl (hle hr), active := ?_ }
  intro hr _ hrevision
  have hrevision' : call.revision = s.revision + 1 := hrevision
  have := hle hr
  omega

theorem Sound.failed (call : PublicationCall) : (s.failed call).Sound := by
  unfold MutableDocuments.failed
  split
  · exact hs.setPublishing false
  · split
    · exact hs.setState call.key (s.slots call.key).desired .pending
    · exact hs

/-- A replacement selects a store without an attempt. -/
theorem Sound.select {store : Text} (hattempt : (s.slots (store, .description)).attempt = none) :
    (s.setSlot (store, .description) { s.slots (store, .description) with
      selected := insert (s.revision + 1) (s.slots (store, .description)).selected }).Sound := by
  have h := hs.slot (store, .description)
  apply hs.setSlot
  · refine { h with origin := ?_, only := by simp [hattempt], heads := by simp }
    exact h.origin.imp_right (Or.imp_left (Finset.mem_insert_of_mem ·))
  · intro k call hcall hkey
    have hc := hs.call k call hcall
    rw [hkey] at hc
    refine { hc with
      selected := fun hr he => Finset.mem_insert_of_mem (hc.selected hr he), written := ?_ }
    intro hr he sha hsha
    rcases hc.written hr he sha hsha with hstored | ⟨r, hr', hne⟩ | hother
    · exact .inl hstored
    · exact .inr (.inl ⟨r, Finset.mem_insert_of_mem hr', hne⟩)
    · exact .inr (.inr hother)

/-- An attempt may be made, or be claimed again, on a slot whose selecting replacements are all for
its revision. -/
theorem Sound.claimed {a : DocumentAttempt}
    (ha : (s.slots key).attempt = none ∨ (s.slots key).attempt = some a)
    (hprior : a.prior = (s.slots key).receipt)
    (honly : ∀ r ∈ (s.slots key).selected, r = a.revision)
    (hle : key.2 = .description → a.revision ≤ s.revision) : (s.claimed k key a).Sound := by
  have h := hs.slot key
  have hold : ∀ b, (s.slots key).attempt = some b → b = a := by
    intro b hb
    rcases ha with hnone | hsome
    · rw [hnone] at hb
      cases hb
    · rw [hsome] at hb
      exact (Option.some.inj hb).symm
  have hslot : (s.setSlot key
      { s.slots key with attempt := some a, state := .publishing }).Sound := by
    apply hs.setSlot
    · refine { h with prior := ?_, origin := ?_, only := ?_, attempt_le := ?_ }
      · rintro b ⟨⟩
        exact hprior
      · rcases h.origin with hr | hr | ⟨b, hb, hr⟩
        · exact .inl hr
        · exact .inr (.inl hr)
        · exact .inr (.inr ⟨a, rfl, hold b hb ▸ hr⟩)
      · rintro b ⟨⟩
        exact honly
      · rintro hkind b ⟨⟩
        exact hle hkind
    · rintro j call hcall rfl
      have hc := hs.call j call hcall
      refine { hc with replica := ?_, written := ?_ }
      · intro hr he
        rcases hc.replica hr he with hsome | hstored
        · exact .inl (congrArg some (hold _ hsome).symm)
        · exact .inr hstored
      · intro hr he sha hsha
        rcases hc.written hr he sha hsha with hstored | hsel | ⟨b, hb, hne⟩
        · exact .inl hstored
        · exact .inr (.inl hsel)
        · exact .inr (.inr ⟨a, rfl, hold b hb ▸ hne⟩)
  unfold MutableDocuments.claimed
  apply hslot.setCall
  rintro call ⟨⟩
  have hself : (s.setSlot key { s.slots key with
      attempt := some a, state := .publishing }).slots key =
      { s.slots key with attempt := some a, state := .publishing } := by
    simp [MutableDocuments.setSlot]
  rw [hself]
  exact ⟨hprior.le, by simp, by simp, by simp, by simp, fun _ _ => .inl rfl, by simp⟩

end

/-- What the store does when it is asked to publish. -/
theorem publish_eq_some {expected sha : Nat}
    (h : s.publish key expected revision = some (s', sha)) :
    (s' = s ∧ (s.slots key).stored = ⟨revision, sha⟩) ∨
    ((s.slots key).stored.revision ≠ revision ∧ (s.slots key).stored.sha = expected ∧
      sha = s.next ∧ s' = { s.setSlot key { s.slots key with stored := ⟨revision, s.next⟩ } with
        next := s.next + 1 }) := by
  unfold publish at h
  simp only at h
  split at h
  · rename_i hsame
    cases h
    exact .inl ⟨rfl, by rw [← hsame]⟩
  · rename_i hother
    split at h
    · rename_i hexpected
      cases h
      exact .inr ⟨hother, hexpected, rfl, rfl⟩
    · cases h

/-- A sound call that replaces a document finds the recorded one, and its own is accounted for. -/
theorem CallSound.replaces
    (h : CallSound s.replacing s.revision slot call) (hslot : SlotSound next s.revision kind slot)
    (hexpected : slot.stored.sha = call.expected) (hother : slot.stored.revision ≠ call.revision) :
    call.expected = slot.receipt ∧ (call.revision ∈ slot.selected ∨
      call.replacement = false ∧ slot.attempt = some ⟨call.revision, call.expected⟩) := by
  have he : call.expected = slot.receipt := by
    have := h.expected_le
    have := hslot.receipt_le
    omega
  refine ⟨he, ?_⟩
  cases hr : call.replacement with
  | true => exact .inl (h.selected hr he)
  | false =>
    rcases h.replica hr he with hsome | hstored
    · exact .inr ⟨rfl, hsome⟩
    · exact absurd (hstored hexpected) hother

variable (hs : s.Sound)
include hs

/-- A document that a sound call puts on the store keeps the soundness of the slot and of every
call. -/
theorem Sound.replaced (hcall : s.calls k = some call)
    (hexpected : (s.slots call.key).stored.sha = call.expected)
    (hother : (s.slots call.key).stored.revision ≠ call.revision) : ({ s.setSlot call.key
        { s.slots call.key with stored := ⟨call.revision, s.next⟩ } with
      next := s.next + 1 } : MutableDocuments).Sound := by
  have h := hs.slot call.key
  obtain ⟨he, horigin⟩ := (hs.call k call hcall).replaces h hexpected hother
  have hlt : (s.slots call.key).receipt < s.next := h.receipt_le.trans_lt h.sha_lt
  have hrecorded : (s.slots call.key).stored.sha = (s.slots call.key).receipt :=
    hexpected.trans he
  have hgrown : ({ s with next := s.next + 1 } : MutableDocuments).Sound :=
    ⟨fun other => { hs.slot other with
      sha_lt := Nat.lt_succ_of_lt (hs.slot other).sha_lt }, hs.call⟩
  apply hgrown.setSlot
  · refine ⟨hlt.le, Nat.lt_succ_self _, h.prior, ?_, h.only, h.heads, ?_, h.attempt_le⟩
    · rcases horigin with hsel | ⟨-, hattempt⟩
      · exact .inr (.inl hsel)
      · exact .inr (.inr ⟨_, hattempt, rfl⟩)
    · intro _ hsha
      exact absurd hsha hlt.ne'
  · intro j other hj hkey
    have hc := hs.call j other hj
    rw [hkey] at hc
    refine { hc with active := ?_, replica := ?_, written := ?_ }
    · intro hr hreplacing hrevision
      obtain ⟨hreceipt, hstored⟩ := hc.active hr hreplacing hrevision
      refine ⟨hreceipt, ?_⟩
      intro sha hsha
      -- The document of an active replacement is ahead of the collection, so it is not recorded.
      have hdoc := hstored sha hsha
      have hle := h.stored_le (hkey ▸ hc.kind hr) hrecorded
      rw [hdoc] at hle
      have hrevision' : other.revision = s.revision + 1 := hrevision
      simp only at hle
      omega
    · intro hr hreceipt
      refine .inr fun hsha => ?_
      have hnext : s.next = other.expected := hsha
      have := hc.expected_le
      omega
    · intro hr hreceipt sha hsha
      rcases hc.written hr hreceipt sha hsha with hdoc | hsel | hatt
      · have hdiffers : call.revision ≠ other.revision := by
          intro heq
          apply hother
          rw [hdoc, heq]
        rcases horigin with hsel | ⟨-, hattempt⟩
        · exact .inr (.inl ⟨call.revision, hsel, hdiffers⟩)
        · exact .inr (.inr ⟨_, hattempt, hdiffers⟩)
      · exact .inr (.inl hsel)
      · exact .inr (.inr hatt)

/-- A provider write keeps the soundness, whether or not the caller learns of it. -/
theorem Sound.write (k : Nat) (answers : Bool) : (s.step (.write k answers)).Sound := by
  simp only [MutableDocuments.step]
  split
  · rename_i key replacement expected revision hcall
    split
    · rename_i s' sha hpublish
      have hanswer : s'.Sound ∧ s'.calls = s.calls ∧ (s'.slots key).stored = ⟨revision, sha⟩ := by
        rcases publish_eq_some hpublish with ⟨rfl, hstored⟩ | ⟨hother, hexpected, rfl, rfl⟩
        · exact ⟨hs, rfl, hstored⟩
        · exact ⟨hs.replaced hcall hexpected hother, rfl, by simp [MutableDocuments.setSlot]⟩
      obtain ⟨hs', hcalls, hstored⟩ := hanswer
      split
      · apply hs'.setCall
        rintro call ⟨⟩
        have hc := hs'.call k _ (hcalls ▸ hcall)
        refine { hc with active := ?_, written := ?_ }
        · intro hr hreplacing hrevision
          refine ⟨(hc.active hr hreplacing hrevision).1, ?_⟩
          rintro sha' ⟨⟩
          exact hstored
        · rintro hr he sha' ⟨⟩
          exact .inl hstored
      · exact hs'
    · exact hs
  · exact hs

/-- A receipt that is the store's document may be recorded, when it is not behind the collection and
no active replacement waits for the old receipt. -/
theorem Sound.recorded (desired : Nat) (state : PublicationState)
    (hreceipt : (s.slots key).stored.sha = receipt)
    (hle : key.2 = .description → (s.slots key).stored.revision ≤ s.revision)
    (hactive : ∀ r ∈ (s.slots key).selected, s.replacing → r ≠ s.revision + 1)
    (hsame : receipt = (s.slots key).receipt → ∀ a, (s.slots key).attempt = some a →
      (s.slots key).stored.revision = a.revision) :
    (s.setSlot key (MutableDocuments.recorded (s.slots key) receipt desired state)).Sound := by
  have h := hs.slot key
  apply hs.setSlot
  · refine ⟨hreceipt.ge, h.sha_lt, by simp [MutableDocuments.recorded], .inl hreceipt,
      by simp [MutableDocuments.recorded], ?_, fun hkind _ => hle hkind,
      by simp [MutableDocuments.recorded]⟩
    intro hkind
    simp [MutableDocuments.recorded, h.heads hkind]
  · rintro j call hcall rfl
    have hc := hs.call j call hcall
    have hback : call.expected = receipt → receipt = (s.slots call.key).receipt := by
      intro he
      have := hc.expected_le
      have := h.receipt_le
      omega
    refine ⟨hc.expected_le.trans (h.receipt_le.trans hreceipt.le), hc.kind, hc.revision_le,
      ?_, ?_, ?_, ?_⟩
    · intro hr he
      have hunchanged := hback he
      simp only [MutableDocuments.recorded, if_pos hunchanged]
      exact hc.selected hr (he.trans hunchanged)
    · intro hr hreplacing hrevision
      have hold := (hc.active hr hreplacing hrevision).1
      exact absurd hrevision (hactive _ (hc.selected hr hold) hreplacing)
    · intro hr he
      have hunchanged := hback he
      right
      intro hsha
      rcases hc.replica hr (he.trans hunchanged) with hattempt | hstored
      · exact hsame hunchanged _ hattempt
      · exact hstored hsha
    · intro hr he sha hsha
      have hunchanged := hback he
      simp only [MutableDocuments.recorded, if_pos hunchanged]
      rcases hc.written hr (he.trans hunchanged) sha hsha with hstored | hsel | ⟨a, ha, hne⟩
      · exact .inl hstored
      · exact .inr (.inl hsel)
      · -- The recorded document is that of the attempt, and of the call if its attempt is gone.
        have hrevision := hsame hunchanged a ha
        rcases hc.replica hr (he.trans hunchanged) with hattempt | hstored
        · rw [ha] at hattempt
          cases hattempt
          exact absurd rfl hne
        · exact absurd (hrevision ▸ hstored (hreceipt.trans he.symm)) hne

/-- The collection takes the revision of its active replacement. -/
theorem Sound.advance : ({ s with
    revision := s.revision + 1
    replacing := false
    publishing := false } : MutableDocuments).Sound := by
  constructor
  · intro key
    have h := hs.slot key
    exact { h with
      stored_le := fun hkind hsha => (h.stored_le hkind hsha).trans (Nat.le_succ _)
      attempt_le := fun hkind a ha => (h.attempt_le hkind a ha).trans (Nat.le_succ _) }
  · intro k call hcall
    have hc := hs.call k call hcall
    refine { hc with revision_le := ?_, active := ?_ }
    · intro hr
      left
      rcases hc.revision_le hr with hle | ⟨-, heq⟩
      · exact hle.trans (Nat.le_succ _)
      · exact heq.le
    · intro _ hreplacing
      cases hreplacing

/-- Wanted revisions and states do not matter to the soundness. -/
theorem Sound.restate {slots : DocumentKey → DocumentSlot} (h : ∀ key, ∃ desired state,
      slots key = { s.slots key with desired := desired, state := state }) :
    ({ s with slots := slots } : MutableDocuments).Sound := by
  constructor
  · intro key
    obtain ⟨desired, state, heq⟩ := h key
    simpa [heq] using (hs.slot key).withState desired state
  · intro k call hcall
    obtain ⟨desired, state, heq⟩ := h call.key
    simpa [heq] using (hs.call k call hcall).withState desired state

/-- A replacement that is the store's document may be settled. -/
theorem Sound.settleReplacement (hstored : (s.slots key).stored = ⟨s.revision + 1, receipt⟩)
    (hnone : (s.slots key).attempt = none) : ({ s with
      slots := fun other => if other = key then
          MutableDocuments.recorded (s.slots key) receipt (s.revision + 1) .published
        else if other.2 = .description then scheduled (s.slots other) (s.revision + 1)
        else s.slots other
      revision := s.revision + 1
      replacing := false
      publishing := false } : MutableDocuments).Sound := by
  have hrevision : (s.slots key).stored.revision ≤ s.revision + 1 := by rw [hstored]
  have hsha : (s.slots key).stored.sha = receipt := by rw [hstored]
  have hrecorded := hs.advance.recorded (s.revision + 1) .published hsha (fun _ => hrevision)
    (by simp) (by simp [hnone])
  refine hrecorded.restate ?_
  intro other
  by_cases hkey : other = key
  · subst hkey
    simp only [MutableDocuments.setSlot, Function.update_self, if_pos]
    exact ⟨_, _, rfl⟩
  · simp only [MutableDocuments.setSlot, Function.update_of_ne hkey, if_neg hkey]
    split
    · exact ⟨_, _, rfl⟩
    · exact ⟨_, _, rfl⟩

/-- The last transaction of a sound call keeps the soundness. -/
theorem Sound.settled (hcall : s.calls k = some call)
    (hreceipt : call.receipt = some receipt)
    (h : s.settled call receipt = some s') : s'.Sound := by
  have hc := hs.call k call hcall
  have hslot := hs.slot call.key
  unfold MutableDocuments.settled at h
  simp only at h
  split at h
  · rename_i hr
    split at h
    · rename_i hready
      obtain ⟨-, hreplacing, hrevision, hnone⟩ := hready
      obtain ⟨-, hstored⟩ := hc.active hr hreplacing hrevision
      have hdoc := hstored receipt hreceipt
      cases h
      rw [hrevision] at hdoc ⊢
      exact hs.settleReplacement hdoc hnone
    · cases h
  · rename_i hr
    have hr' : call.replacement = false := by simpa using hr
    split at h
    · rename_i hattempt
      split at h
      · rename_i hold
        cases h
        have hdoc : (s.slots call.key).stored = ⟨call.revision, receipt⟩ := by
          rcases hc.written hr' hold.symm receipt hreceipt with hdoc | ⟨r, hr, hne⟩ | ⟨a, ha, hne⟩
          · exact hdoc
          · exact absurd (hslot.only _ hattempt r hr) hne
          · rw [hattempt] at ha
            cases ha
            exact absurd rfl hne
        apply hs.recorded
        · rw [hdoc]
        · intro hkind
          rw [hdoc]
          exact hslot.attempt_le hkind _ hattempt
        · intro r hr _ heq
          -- Selecting replacements are for the attempt's revision, which is not ahead.
          have hrevision : r = call.revision := hslot.only _ hattempt r hr
          have hkind : call.key.2 = .description := by
            cases hk : call.key.2 with
            | description => rfl
            | tagHead =>
              rw [hslot.heads hk] at hr
              cases hr
          have hle : call.revision ≤ s.revision := hslot.attempt_le hkind _ hattempt
          omega
        · intro _ a ha
          rw [hattempt] at ha
          cases ha
          rw [hdoc]
      · cases h
    · cases h
      exact hs

/-- One guarded step keeps the soundness. -/
theorem Sound.step (i : DocumentStep) (hi : s.ClaimsUnselected i) : (s.step i).Sound := by
  have hidle : ∀ k, (s.setCall k none).Sound := fun k => hs.setCall (by simp)
  cases i <;> simp only [MutableDocuments.step]
  case replace =>
    split
    · exact hs
    · rename_i hreplacing
      exact hs.startReplacing (by simpa using hreplacing) false
  case selectReplacement k store =>
    split
    · rename_i hready
      obtain ⟨hreplacing, -, hnone, -, -⟩ := hready
      have hselected := hs.select hnone
      apply Sound.setPublishing
      apply hselected.setCall
      rintro call ⟨⟩
      have hself : ∀ slot, (s.setSlot (store, .description) slot).slots (store, .description) =
          slot := by simp [MutableDocuments.setSlot]
      simp only [hself]
      exact ⟨le_refl _, fun _ => rfl, fun _ => .inr ⟨hreplacing, rfl⟩,
        fun _ _ => Finset.mem_insert_self _ _, fun _ _ _ => ⟨rfl, by simp⟩, by simp, by simp⟩
    · exact hs
  case claimReplica k store =>
    have h := hs.slot (store, .description)
    split
    · split
      · rename_i a ha
        exact hs.claimed (.inr ha) (h.prior a ha) (h.only a ha) fun hkind => h.attempt_le hkind a ha
      · rename_i hnone
        split
        · rename_i hcurrent
          exact hs.claimed (.inl hnone) rfl (hi hnone) fun _ => hcurrent.1.ge
        · exact hs
    · exact hs
  case claimHead k store =>
    have h := hs.slot (store, .tagHead)
    split
    · cases ha : (s.slots (store, .tagHead)).attempt with
      | none =>
        apply hs.claimed (.inl ha) rfl _ (by simp)
        simp [h.heads rfl]
      | some a => exact hs.claimed (.inr ha) (h.prior a ha) (h.only a ha) (by simp)
    · exact hs
  case scheduleHead store revision => exact hs.setState (store, .tagHead) revision _
  case write k answers => exact hs.write k answers
  case settle k =>
    split
    · rename_i key replacement expected revision receipt hcall
      cases hsettled : s.settled ⟨key, replacement, expected, revision, some receipt⟩ receipt with
      | none => exact (hs.failed _).setCall (by simp)
      | some s' => exact (hs.settled hcall rfl hsettled).setCall (by simp)
    · exact hs
  case fail k =>
    split
    · exact (hs.failed _).setCall (by simp)
    · exact hs
  case crash k => exact hidle k
  case requeueReplacement => exact hs.setPublishing false
  case requeuePublication key =>
    split
    · exact hs.setState key (s.slots key).desired .pending
    · exact hs

end MutableDocuments

/-- In every run in which a new attempt for a description is made only on stores that no replacement
of another revision has selected since their receipt last changed, every outstanding attempt can be
completed in every state. -/
theorem attempts_stay_completable {s : MutableDocuments} (hs : s.Start) {run : List DocumentStep}
    (hrun : Guarded MutableDocuments.step MutableDocuments.ClaimsUnselected s run) :
    Throughout MutableDocuments.step MutableDocuments.Completable s run := by
  exact throughout_of_guarded (fun _ i hs hi => hs.step i hi) (fun _ hs => hs.completable) hs.sound hrun

namespace Samples

/-- A collection at description revision 1, published in store `b` and wanted in store `a`. -/
def wantedReplica : MutableDocuments where
  slots key :=
    if key = ("a".toList, .description) then ⟨0, 1, .pending, none, ⟨0, 0⟩, ∅⟩
    else if key = ("b".toList, .description) then ⟨1, 1, .published, none, ⟨1, 1⟩, ∅⟩
    else ⟨0, 0, .published, none, ⟨0, 0⟩, ∅⟩
  revision := 1
  replacing := false
  publishing := false
  calls _ := none
  next := 2

theorem wantedReplica_start : wantedReplica.Start := by
  refine ⟨rfl, fun _ => rfl, ?_, ?_, ?_, ?_, ?_⟩
  all_goals
    intro key
    simp only [wantedReplica]
    split
    · simp
    · split <;> simp

/-- The replica is published, and then a replacement on the same store. -/
def replicaThenReplacement : List DocumentStep :=
  [.claimReplica 0 "a", .write 0 true, .settle 0, .replace,
    .selectReplacement 1 "a", .write 1 true, .settle 1]

/-- A replacement reaches store `a` and its call crashes; then the replica is claimed. -/
def interruptedReplacement : List DocumentStep :=
  [.replace, .selectReplacement 0 "a", .write 0 false, .crash 0, .requeueReplacement,
    .claimReplica 1 "a"]

end Samples

open Samples in
theorem replica_then_replacement_completable :
    wantedReplica.Start ∧
      Guarded MutableDocuments.step MutableDocuments.ClaimsUnselected wantedReplica
        replicaThenReplacement ∧
      Throughout MutableDocuments.step MutableDocuments.Completable wantedReplica
        replicaThenReplacement := by
  have hrun : Guarded MutableDocuments.step MutableDocuments.ClaimsUnselected wantedReplica
      replicaThenReplacement := by
    refine ⟨?_, trivial, trivial, trivial, trivial, trivial, trivial, trivial⟩
    intro _ revision hmem
    simp [wantedReplica] at hmem
  exact ⟨wantedReplica_start, hrun, attempts_stay_completable wantedReplica_start hrun⟩

open Samples in
theorem interrupted_replacement_blocks_attempt :
    ¬ Throughout MutableDocuments.step MutableDocuments.Completable wantedReplica
      interruptedReplacement := by
  intro h
  let slot := (interruptedReplacement.foldl MutableDocuments.step wantedReplica).slots
    ("a".toList, .description)
  have hattempt : slot.attempt = some ⟨1, 0⟩ := by decide +kernel
  have hstored : slot.stored = ⟨2, 2⟩ := by decide +kernel
  have hdoc : slot.stored.sha = 0 ∨ slot.stored.revision = 1 :=
    h.last ("a".toList, .description) ⟨1, 0⟩ hattempt
  rw [hstored] at hdoc
  simp at hdoc

end Riverhog.Publication
