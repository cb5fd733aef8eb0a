import Riverhog.Stove0.Admission
import Mathlib.Data.List.Induction

/-!
# Admission follows tag transitions

One worker commits the pages of a baseline and then pages of changes. Whatever they hold, the
match state of a collection is its newest delivered state, and while the catalog is followed an
intent is recorded exactly for the steps from not matching to matching.
-/

namespace Riverhog.Stove0

open Core Catalog List

/-! ## Delivered states -/

/-- A delivered state of a collection, with its evaluation. -/
structure Delivery where
  change : Change
  matched : Bool
  deriving DecidableEq

namespace Delivery

/-- The collection is there and matches. -/
def holds (item : Delivery) : Bool := !item.change.isDelete && item.matched

/-- The match row that a delivered state leaves. -/
def matchRow : Delivery → Option MatchRow
  | ⟨.upsert descriptor, matched⟩ => some ⟨matched, descriptor⟩
  | ⟨.delete .., _⟩ => none

/-- A delivered state is newer than every one kept before it. -/
def newer (kept : List Delivery) (item : Delivery) : Bool :=
  kept.getLast?.all fun last => last.change.revision < item.change.revision

section

variable (collectionId : Nat)

/-- Keep a delivered state of a collection, unless it is stale or a repetition. -/
def keep (kept : List Delivery) (item : Delivery) : List Delivery :=
  if item.change.collectionId = collectionId ∧ newer kept item then kept ++ [item] else kept

/-- The states of a collection in a delivered history, without the stale and repeated ones. -/
def kept (history : List Delivery) : List Delivery :=
  history.foldl (keep collectionId) []

/-- The collection matches in the last of some states. -/
def lastHolds (states : List Delivery) : Bool := states.getLast?.elim false holds

/-- Among the states of a collection, after the first `before` ones, there is a step from not
matching, absent or deleted to a matching descriptor. -/
def Rises (before : Nat) (states : List Delivery) (descriptor : Descriptor) : Prop :=
  ∃ pre post, states = pre ++ ⟨.upsert descriptor, true⟩ :: post ∧ before ≤ pre.length ∧
    lastHolds pre = false

theorem kept_append_singleton (history : List Delivery) (item : Delivery) :
    kept collectionId (history ++ [item]) = keep collectionId (kept collectionId history) item := by
  rw [kept, foldl_append]
  rfl

/-- A longer history only adds states. -/
theorem kept_prefix (history later : List Delivery) :
    kept collectionId history <+: kept collectionId (history ++ later) := by
  induction later generalizing history with
  | nil => simp
  | cons item later ih =>
    have hone : kept collectionId history <+: kept collectionId (history ++ [item]) := by
      rw [kept_append_singleton, keep]
      split
      · exact prefix_append ..
      · exact prefix_rfl
    have hrest := ih (history ++ [item])
    rw [append_assoc] at hrest
    exact hone.trans hrest

/-- The states of a collection that are kept have increasing revisions. -/
theorem kept_pairwise (history : List Delivery) :
    (kept collectionId history).Pairwise fun a b => a.change.revision < b.change.revision := by
  induction history using reverseRecOn with
  | nil => exact Pairwise.nil
  | append_singleton history item ih =>
    rw [kept_append_singleton, keep]
    split
    · rename_i hkeep
      refine pairwise_append.2 ⟨ih, pairwise_singleton .., fun a ha b hb => ?_⟩
      obtain rfl := mem_singleton.1 hb
      obtain ⟨init, last, hsplit⟩ := (eq_nil_or_concat _).resolve_left (ne_nil_of_mem ha)
      have hnewer := hkeep.2
      rw [concat_eq_append] at hsplit
      rw [newer, hsplit, getLast?_concat, Option.all_some, decide_eq_true_eq] at hnewer
      rw [hsplit] at ha ih
      rcases mem_append.1 ha with ha | ha
      · exact ((pairwise_append.1 ih).2.2 a ha last (mem_singleton_self _)).trans hnewer
      · rwa [mem_singleton.1 ha]
    · exact ih

end

/-- A state that is not newer than one that was kept is stale or a repetition. -/
theorem newer_eq_false {collectionId : Nat} {history : List Delivery} {old item : Delivery}
    (hold : old ∈ kept collectionId history) (hle : item.change.revision ≤ old.change.revision) :
    newer (kept collectionId history) item = false := by
  obtain ⟨init, last, hsplit⟩ := (eq_nil_or_concat _).resolve_left (ne_nil_of_mem hold)
  have hincreasing := kept_pairwise collectionId history
  rw [concat_eq_append] at hsplit
  rw [hsplit] at hold hincreasing
  rw [newer, hsplit, getLast?_concat, Option.all_some, decide_eq_false_iff_not, not_lt]
  rcases mem_append.1 hold with hold | hold
  · exact hle.trans ((pairwise_append.1 hincreasing).2.2 old hold last (mem_singleton_self _)).le
  · rwa [mem_singleton.1 hold] at hle

/-- A state that was kept last is not a step when only later states count. -/
theorem not_rises {states : List Delivery} {descriptor : Descriptor} :
    ¬ Rises states.length states descriptor := by
  rintro ⟨pre, post, heq, hbefore, -⟩
  have hlength := congrArg length heq
  rw [length_append, length_cons] at hlength
  omega

/-- One more state is a step to matching, or the steps are those before it. -/
theorem rises_append_singleton {before : Nat} {states : List Delivery} {item : Delivery}
    {descriptor : Descriptor} :
    Rises before (states ++ [item]) descriptor ↔ Rises before states descriptor ∨
        item = ⟨.upsert descriptor, true⟩ ∧ before ≤ states.length ∧ lastHolds states = false := by
  constructor
  · rintro ⟨pre, post, heq, hbefore, hlast⟩
    rcases eq_nil_or_concat post with rfl | ⟨post, last, rfl⟩
    · obtain ⟨rfl, hitem⟩ := append_inj' heq rfl
      exact Or.inr ⟨singleton_inj.1 hitem, hbefore, hlast⟩
    · rw [concat_eq_append, ← cons_append, ← append_assoc] at heq
      obtain ⟨rfl, -⟩ := append_inj' heq rfl
      exact Or.inl ⟨pre, post, rfl, hbefore, hlast⟩
  · rintro (⟨pre, post, rfl, hbefore, hlast⟩ | ⟨rfl, hbefore, hlast⟩)
    · exact ⟨pre, post ++ [item], by simp, hbefore, hlast⟩
    · exact ⟨states, [], rfl, hbefore, hlast⟩

end Delivery

namespace Admissions

open Delivery

variable {d : AdmissionDigests} {policy : AdmissionPolicy} {s t : Admissions}

/-! ## One delivery -/

/-- No revision as new as that of a change was observed of its collection. -/
def unobserved (s : Admissions) (change : Change) : Bool :=
  (s.observed change.collectionId).all fun row => row.descriptorRevision < change.revision

/-- A delivered state is written to both memories. -/
def take (d : AdmissionDigests) (s : Admissions) (item : Delivery) : Admissions :=
  { s.putObserved d item.change with
    matchRows := Function.update s.matchRows item.change.collectionId item.matchRow }

/-- The intent of a delivered state is recorded when it matches. -/
def admitItem (d : AdmissionDigests) (policy : AdmissionPolicy) (s : Admissions)
    (item : Delivery) : Admissions :=
  match item.change with
  | .upsert descriptor => if item.matched then s.recordIntent d policy descriptor else s
  | .delete .. => s

/-- What one delivery does: a new state is written, and its intent is recorded when `record`
asks for it. -/
def deliver (d : AdmissionDigests) (policy : AdmissionPolicy) (s : Admissions) (record : Bool)
    (item : Delivery) : Admissions :=
  if s.unobserved item.change then
    if record then (s.take d item).admitItem d policy item else s.take d item
  else s

variable {change : Change} {cursor : Cursor} {recorded : Recorded}

theorem observeRevision_eq_ok
    (h : s.observeRevision d change = .ok (recorded, t)) :
    (s.unobserved change = true ∧ recorded = .applied ∧ t = s.putObserved d change) ∨
      (s.unobserved change = false ∧ recorded ≠ .applied ∧ t = s) := by
  rw [observeRevision] at h
  rw [unobserved]
  cases hobserved : s.observed change.collectionId with
  | none =>
    rw [hobserved] at h
    cases h
    exact Or.inl ⟨rfl, rfl, rfl⟩
  | some row =>
    simp only [hobserved] at h
    rw [Option.all_some]
    split_ifs at h with hstale hequal hchanged <;> cases h
    · exact Or.inr ⟨by simpa using hstale.le, nofun, rfl⟩
    · exact Or.inr ⟨by simpa using hequal.le, nofun, rfl⟩
    · exact Or.inl ⟨by simp; omega, rfl, rfl⟩

variable {e : AdmissionError} {advanced record : Bool} {page : CollectionPage} {item : Delivery}
  {descriptor : Descriptor} {items : List (Descriptor × Bool)} {history : List Delivery}
  {evaluated : Option (Descriptor × Bool)} {matched : Bool}

theorem recordMatch_eq_ok
    (h : s.recordMatch d descriptor matched = .ok (recorded, t)) :
    (s.unobserved (.upsert descriptor) = true ∧ recorded = .applied ∧
        t = s.take d ⟨.upsert descriptor, matched⟩) ∨
      (s.unobserved (.upsert descriptor) = false ∧ recorded ≠ .applied ∧ t = s) := by
  rw [recordMatch, bind_eq_ok] at h
  obtain ⟨⟨first, u⟩, hobserve, h⟩ := h
  dsimp only at h
  rcases observeRevision_eq_ok hobserve with ⟨hnew, rfl, rfl⟩ | ⟨hold, hne, rfl⟩
  · rw [if_pos rfl] at h
    cases h
    exact Or.inl ⟨hnew, rfl, rfl⟩
  · rw [if_neg hne] at h
    cases h
    exact Or.inr ⟨hold, hne, rfl⟩

theorem recordBaseline_eq_ok {item : Descriptor × Bool}
    (h : recordBaseline d policy s item = .ok t) :
    t = s.deliver d policy (s.row.baselineMode = .backfill) ⟨.upsert item.1, item.2⟩ := by
  obtain ⟨descriptor, matched⟩ := item
  rw [recordBaseline, bind_eq_ok] at h
  obtain ⟨⟨recorded, u⟩, hmatch, h⟩ := h
  dsimp only at h
  rcases recordMatch_eq_ok hmatch with ⟨hnew, rfl, rfl⟩ | ⟨hold, hne, rfl⟩
  · rw [deliver, if_pos hnew]
    rcases eq_or_ne s.row.baselineMode .backfill with hmode | hmode
    · cases matched <;> simp_all [admitItem]
    · simp_all
  · rw [deliver, hold]
    rw [if_neg fun hc => hne hc.1] at h
    exact (Except.ok.inj h).symm

theorem recordChange_eq_ok (h : s.recordChange d policy change evaluated = .ok t) :
    t = s.deliver d policy (!(s.matchRows change.collectionId).elim false MatchRow.matched)
      ⟨change, evaluated.elim false Prod.snd⟩ := by
  cases change with
  | delete collectionId revision =>
    rw [recordChange.eq_def, bind_eq_ok] at h
    obtain ⟨⟨recorded, u⟩, hobserve, h⟩ := h
    dsimp only at h
    rcases observeRevision_eq_ok hobserve with ⟨hnew, rfl, rfl⟩ | ⟨hold, hne, rfl⟩
    · rw [deliver, if_pos hnew]
      rw [if_pos rfl] at h
      obtain rfl := Except.ok.inj h
      split <;> rfl
    · rw [deliver, hold]
      rw [if_neg hne] at h
      exact (Except.ok.inj h).symm
  | upsert descriptor =>
    cases evaluated with
    | none => cases h
    | some evaluation =>
      obtain ⟨subject, matched⟩ := evaluation
      simp only [recordChange] at h
      split at h
      · cases h
      rw [bind_eq_ok] at h
      obtain ⟨⟨recorded, u⟩, hmatch, h⟩ := h
      dsimp only at h
      rcases recordMatch_eq_ok hmatch with ⟨hnew, rfl, rfl⟩ | ⟨hold, hne, rfl⟩
      · rw [deliver, if_pos hnew]
        cases hprior : (s.matchRows descriptor.collectionId).elim false MatchRow.matched <;>
          cases matched <;> simp_all [admitItem, Change.collectionId]
      · rw [deliver, hold]
        rw [if_neg fun hc => hne hc.1] at h
        exact (Except.ok.inj h).symm

/-! ## The two memories -/

/-- Both memories of the rows hold the newest delivered state of every collection. -/
structure Remembers (d : AdmissionDigests) (history : List Delivery) (s : Admissions) : Prop where
  observed : ∀ c, s.observed c =
    (kept c history).getLast?.map fun item => .of d item.change
  matchRows : ∀ c, s.matchRows c = (kept c history).getLast?.bind matchRow

/-- What was not observed is newer than what was kept. -/
theorem Remembers.unobserved (h : s.Remembers d history) (item : Delivery) :
    s.unobserved item.change = newer (kept item.change.collectionId history) item := by
  rw [Admissions.unobserved, h.observed, Option.all_map]
  rfl

/-- The match row of a collection says whether it matches in its newest state. -/
theorem Remembers.priorMatched (h : s.Remembers d history) (c : Nat) :
    (s.matchRows c).elim false MatchRow.matched = lastHolds (kept c history) := by
  rw [h.matchRows, lastHolds]
  cases (kept c history).getLast? with
  | none => rfl
  | some item => obtain ⟨_ | _, matched⟩ := item <;> simp [matchRow, holds, Change.isDelete]

/-- Recording an intent changes neither memory. -/
theorem admitItem_memories (item : Delivery) : (s.admitItem d policy item).observed = s.observed ∧
      (s.admitItem d policy item).matchRows = s.matchRows ∧
      (s.admitItem d policy item).row = s.row := by
  rw [admitItem]
  split
  · split <;> exact ⟨rfl, rfl, rfl⟩
  · exact ⟨rfl, rfl, rfl⟩

/-- A delivery leaves the memories alone, or writes its state to both. -/
theorem deliver_memories (record : Bool) (item : Delivery) :
    (s.deliver d policy record item).observed =
        (if s.unobserved item.change then s.take d item else s).observed ∧
      (s.deliver d policy record item).matchRows =
        (if s.unobserved item.change then s.take d item else s).matchRows ∧
      (s.deliver d policy record item).row = s.row := by
  rw [deliver]
  split
  · split
    · exact admitItem_memories item
    · exact ⟨rfl, rfl, rfl⟩
  · exact ⟨rfl, rfl, rfl⟩

/-- One delivery keeps both memories at the newest states. -/
theorem Remembers.deliver (h : s.Remembers d history) (record : Bool) (item : Delivery) :
    (s.deliver d policy record item).Remembers d (history ++ [item]) := by
  obtain ⟨hobserved, hmatches, -⟩ :
      _ ∧ _ ∧ (s.deliver d policy record item).row = s.row := deliver_memories record item
  rw [h.unobserved item] at hobserved hmatches
  constructor
  · intro c
    rw [hobserved, kept_append_singleton, keep]
    rcases eq_or_ne item.change.collectionId c with rfl | hne
    · cases hnew : newer (kept item.change.collectionId history) item
      · simpa [hnew] using h.observed _
      · simp [take, putObserved]
    · have hkeep : ¬ (item.change.collectionId = c ∧
          newer (kept c history) item = true) := fun hc => hne hc.1
      rw [if_neg hkeep]
      split
      · exact (Function.update_of_ne hne.symm _ _).trans (h.observed c)
      · exact h.observed c
  · intro c
    rw [hmatches, kept_append_singleton, keep]
    rcases eq_or_ne item.change.collectionId c with rfl | hne
    · cases hnew : newer (kept item.change.collectionId history) item
      · simpa [hnew] using h.matchRows _
      · simp [take]
    · have hkeep : ¬ (item.change.collectionId = c ∧
          newer (kept c history) item = true) := fun hc => hne hc.1
      rw [if_neg hkeep]
      split
      · exact (Function.update_of_ne hne.symm _ _).trans (h.matchRows c)
      · exact h.matchRows c

/-! ## The recorded intents -/

/-- The candidates after an intent was recorded, unless its identity was there. -/
theorem mem_recordIntent {row : CandidateRow} :
    row ∈ (s.recordIntent d policy descriptor).candidates.rows ↔ row ∈ s.candidates.rows ∨
        row = .of d policy descriptor ∧ row.admissionId ∉ s.candidates.keys := by
  rw [recordIntent]
  by_cases hkey : (CandidateRow.of d policy descriptor).admissionId ∈ s.candidates.keys
  · have hnone : s.candidates.insert (.of d policy descriptor) = none := dif_pos hkey
    rw [hnone, Option.getD_none]
    refine ⟨Or.inl, ?_⟩
    rintro (hrow | ⟨rfl, habsent⟩)
    · exact hrow
    · exact (habsent hkey).elim
  · obtain ⟨candidates, hinsert⟩ := Table.insert_of_not_mem hkey
    rw [hinsert, Option.getD_some, (Table.insert_eq_some hinsert).2, mem_append, mem_singleton]
    exact or_congr_right ⟨fun h => ⟨h, h ▸ hkey⟩, And.left⟩

theorem keys_recordIntent {id : Digest} :
    id ∈ (s.recordIntent d policy descriptor).candidates.keys ↔
      id ∈ s.candidates.keys ∨ id = (CandidateRow.of d policy descriptor).admissionId := by
  constructor
  · intro hid
    obtain ⟨row, hrow, rfl⟩ := mem_map.1 hid
    rcases mem_recordIntent.1 hrow with hrow | ⟨rfl, -⟩
    · exact Or.inl (mem_map_of_mem hrow)
    · exact Or.inr rfl
  · intro hid
    by_cases hkey : id ∈ s.candidates.keys
    · obtain ⟨row, hrow, rfl⟩ := mem_map.1 hkey
      exact mem_map_of_mem (mem_recordIntent.2 (Or.inl hrow))
    · obtain rfl := hid.resolve_left hkey
      exact mem_map_of_mem (mem_recordIntent.2 (Or.inr ⟨rfl, hkey⟩))

/-- A delivery records the intent of a descriptor. -/
structure Records (s : Admissions) (record : Bool) (item : Delivery) (descriptor : Descriptor) :
    Prop where
  unobserved : s.unobserved item.change = true
  asked : record = true
  matching : item = ⟨.upsert descriptor, true⟩

/-- A delivery records one intent, or leaves the candidates alone. -/
theorem deliver_candidates (record : Bool) (item : Delivery) :
    (∃ descriptor, s.Records record item descriptor ∧ (s.deliver d policy record item).candidates =
          (s.recordIntent d policy descriptor).candidates) ∨
      ((∀ descriptor, ¬ s.Records record item descriptor) ∧
        (s.deliver d policy record item).candidates = s.candidates) := by
  rw [deliver]
  split
  · rename_i hnew
    split
    · rename_i hrecord
      obtain ⟨change, matched⟩ := item
      cases change with
      | delete collectionId revision => exact Or.inr ⟨fun _ h => (nomatch h.matching), rfl⟩
      | upsert descriptor =>
        cases matched with
        | false => exact Or.inr ⟨fun _ h => (nomatch h.matching), rfl⟩
        | true => exact Or.inl ⟨descriptor, ⟨hnew, hrecord, rfl⟩, rfl⟩
    · rename_i hrecord
      exact Or.inr ⟨fun _ h => hrecord h.asked, rfl⟩
  · rename_i hnew
    exact Or.inr ⟨fun _ h => hnew h.unobserved, rfl⟩

theorem mem_deliver {row : CandidateRow} :
    row ∈ (s.deliver d policy record item).candidates.rows → row ∈ s.candidates.rows ∨
        ∃ descriptor, s.Records record item descriptor ∧ row = .of d policy descriptor := by
  intro hrow
  rcases deliver_candidates record item with ⟨descriptor, hrecords, heq⟩ | ⟨-, heq⟩
  · rw [heq] at hrow
    exact (mem_recordIntent.1 hrow).imp_right fun h => ⟨descriptor, hrecords, h.1⟩
  · exact Or.inl (heq ▸ hrow)

theorem keys_deliver {id : Digest} :
    id ∈ (s.deliver d policy record item).candidates.keys ↔
      id ∈ s.candidates.keys ∨ ∃ descriptor, s.Records record item descriptor ∧
        id = (CandidateRow.of d policy descriptor).admissionId := by
  rcases deliver_candidates record item with ⟨descriptor, hrecords, heq⟩ | ⟨hnone, heq⟩
  · rw [heq, keys_recordIntent]
    refine or_congr_right ⟨fun h => ⟨descriptor, hrecords, h⟩, ?_⟩
    rintro ⟨other, hother, h⟩
    obtain ⟨rfl⟩ : descriptor = other := by
      have := hrecords.matching.symm.trans hother.matching
      injection this with hchange
      injection hchange
    exact h
  · rw [heq]
    exact ⟨Or.inl, fun h => h.resolve_right fun ⟨descriptor, hrecords, _⟩ =>
      hnone descriptor hrecords⟩

/-! ## Whole histories -/

/-- The intents of a delivered history: those of the matching collections of the baseline when
it is backfilled, and those of the steps to matching after it. -/
def Admits (mode : BaselineMode) (base follow : List Delivery) (descriptor : Descriptor) : Prop :=
  mode = .backfill ∧
      (⟨.upsert descriptor, true⟩ : Delivery) ∈ Delivery.kept descriptor.collectionId base ∨
    Delivery.Rises (Delivery.kept descriptor.collectionId base).length
      (Delivery.kept descriptor.collectionId (base ++ follow)) descriptor

theorem admits_baseline {mode : BaselineMode} {base : List Delivery} :
    Admits mode (base ++ [item]) [] descriptor ↔ Admits mode base [] descriptor ∨
        newer (kept item.change.collectionId base) item = true ∧
          mode = .backfill ∧ item = ⟨.upsert descriptor, true⟩ := by
  simp only [Admits, append_nil, not_rises, or_false]
  rw [kept_append_singleton, keep]
  constructor
  · rintro ⟨hmode, hmem⟩
    split at hmem
    · rename_i hkeep
      rcases mem_append.1 hmem with hmem | hmem
      · exact Or.inl ⟨hmode, hmem⟩
      · obtain rfl := mem_singleton.1 hmem
        exact Or.inr ⟨hkeep.2, hmode, rfl⟩
    · exact Or.inl ⟨hmode, hmem⟩
  · rintro (⟨hmode, hmem⟩ | ⟨hnew, hmode, rfl⟩)
    · refine ⟨hmode, ?_⟩
      split
      · exact mem_append_left _ hmem
      · exact hmem
    · rw [if_pos ⟨rfl, hnew⟩]
      exact ⟨hmode, mem_append_right _ (mem_singleton_self _)⟩

theorem admits_following {mode : BaselineMode} {base follow : List Delivery} :
    Admits mode base (follow ++ [item]) descriptor ↔ Admits mode base follow descriptor ∨
        newer (kept item.change.collectionId (base ++ follow)) item = true ∧
          lastHolds (kept item.change.collectionId (base ++ follow)) = false ∧
          item = ⟨.upsert descriptor, true⟩ := by
  rw [Admits, Admits, ← append_assoc, kept_append_singleton, keep, or_assoc]
  refine or_congr_right ?_
  constructor
  · intro hrises
    split at hrises
    · rename_i hkeep
      rcases rises_append_singleton.1 hrises with hrises | ⟨rfl, -, hlast⟩
      · exact Or.inl hrises
      · exact Or.inr ⟨hkeep.2, hlast, rfl⟩
    · exact Or.inl hrises
  · rintro (hrises | ⟨hnew, hlast, rfl⟩)
    · split
      · exact rises_append_singleton.2 (Or.inl hrises)
      · exact hrises
    · rw [if_pos ⟨rfl, hnew⟩]
      have hlength := ( kept_prefix descriptor.collectionId base follow).length_le
      exact rises_append_singleton.2 (Or.inr ⟨rfl, hlength, hlast⟩)

/-- The rows after a delivered history, from a fresh generation. -/
structure Tracks (d : AdmissionDigests) (policy : AdmissionPolicy) (mode : BaselineMode)
    (start : Table CandidateRow.admissionId) (base follow : List Delivery) (s : Admissions) :
    Prop where
  baselineMode : s.row.baselineMode = mode
  remembers : s.Remembers d (base ++ follow)
  rows : ∀ row ∈ s.candidates.rows, row ∈ start.rows ∨
    ∃ descriptor, Admits mode base follow descriptor ∧ row = .of d policy descriptor
  keys : ∀ id, id ∈ s.candidates.keys ↔ id ∈ start.keys ∨
    ∃ descriptor, Admits mode base follow descriptor ∧
      id = (CandidateRow.of d policy descriptor).admissionId

variable {mode : BaselineMode} {start : Table CandidateRow.admissionId}
  {base follow : List Delivery}

/-- A delivery whose recorded intents are the ones its history adds keeps the rows in step. -/
theorem Tracks.deliver {base' follow' : List Delivery}
    (h : s.Tracks d policy mode start base follow)
    (hhistory : base' ++ follow' = base ++ follow ++ [item])
    (hadmits : ∀ descriptor, Admits mode base' follow' descriptor ↔
      Admits mode base follow descriptor ∨ s.Records record item descriptor) :
    (s.deliver d policy record item).Tracks d policy mode start base' follow' := by
  refine ⟨?_, hhistory ▸ h.remembers.deliver record item, fun row hrow => ?_, fun id => ?_⟩
  · rw [(deliver_memories record item).2.2, h.baselineMode]
  · rcases mem_deliver hrow with hrow | ⟨descriptor, hrecords, rfl⟩
    · refine (h.rows row hrow).imp_right ?_
      rintro ⟨descriptor, hin, rfl⟩
      exact ⟨descriptor, (hadmits descriptor).2 (Or.inl hin), rfl⟩
    · exact Or.inr ⟨descriptor, (hadmits descriptor).2 (Or.inr hrecords), rfl⟩
  · rw [keys_deliver, h.keys, or_assoc]
    simp only [hadmits, or_and_right, exists_or]

/-- A collection of a baseline page is delivered. -/
theorem Tracks.recordBaseline {item : Descriptor × Bool} (h : s.Tracks d policy mode start base [])
    (hrecord : Admissions.recordBaseline d policy s item = .ok t) :
    t.Tracks d policy mode start (base ++ [⟨.upsert item.1, item.2⟩]) [] := by
  rw [recordBaseline_eq_ok hrecord]
  refine h.deliver (by simp) fun descriptor => ?_
  rw [admits_baseline]
  refine or_congr_right ?_
  have hnew := h.remembers.unobserved ⟨.upsert item.1, item.2⟩
  rw [append_nil] at hnew
  constructor
  · rintro ⟨hnewer, hmode, heq⟩
    exact ⟨hnew.trans hnewer, by rw [h.baselineMode, hmode]; rfl, heq⟩
  · rintro ⟨hunobserved, hasked, heq⟩
    refine ⟨hnew.symm.trans hunobserved, ?_, heq⟩
    rw [← h.baselineMode]
    exact of_decide_eq_true hasked

/-- The collections of a baseline page are delivered one after another. -/
theorem Tracks.foldlM_recordBaseline (h : s.Tracks d policy mode start base [])
    (hrecord : items.foldlM (Admissions.recordBaseline d policy) s = .ok t) :
    t.Tracks d policy mode start
      (base ++ items.map fun item => ⟨.upsert item.1, item.2⟩) [] := by
  induction items generalizing base s with
  | nil =>
    obtain rfl := Except.ok.inj hrecord
    simpa using h
  | cons item items ih =>
    rw [foldlM_cons, bind_eq_ok] at hrecord
    obtain ⟨u, hitem, hrest⟩ := hrecord
    have hlater := ih (h.recordBaseline hitem) hrest
    rwa [append_assoc] at hlater

/-- The change of a following page is delivered. -/
theorem Tracks.recordChange (h : s.Tracks d policy mode start base follow)
    (hrecord : s.recordChange d policy change evaluated = .ok t) :
    t.Tracks d policy mode start base
      (follow ++ [⟨change, evaluated.elim false Prod.snd⟩]) := by
  rw [recordChange_eq_ok hrecord]
  refine h.deliver (by simp) fun descriptor => ?_
  rw [admits_following]
  refine or_congr_right ?_
  have hnew := h.remembers.unobserved ⟨change, evaluated.elim false Prod.snd⟩
  have hprior := h.remembers.priorMatched change.collectionId
  constructor
  · rintro ⟨hnewer, hlast, heq⟩
    exact ⟨hnew.trans hnewer, by rw [hprior, hlast]; rfl, heq⟩
  · rintro ⟨hunobserved, hasked, heq⟩
    rw [hprior, Bool.not_eq_true'] at hasked
    exact ⟨hnew.symm.trans hunobserved, hasked, heq⟩

/-- The policy's row plays no part in what was delivered. -/
theorem Tracks.withRow (h : s.Tracks d policy mode start base follow) (row : AdmissionPolicyRow)
    (hmode : row.baselineMode = s.row.baselineMode) :
    Tracks d policy mode start base follow { s with row } :=
  ⟨hmode.trans h.baselineMode, ⟨h.remembers.observed, h.remembers.matchRows⟩, h.rows, h.keys⟩

/-! ## Runs of one worker -/

/-- What one worker does with a bound checkpoint: it reads a page at the row's cursor, evaluates
it and commits it. The histories are what the pages of the baseline and the pages of changes
delivered; a page that raises leaves the rows as they are. A page that holds something moves the
cursor it was read at, as Riverhog's pages do. -/
inductive Run (d : AdmissionDigests) (policy : AdmissionPolicy) (start : Admissions) :
    List Delivery → List Delivery → Admissions → Prop
  | bound : Run d policy start [] [] start
  | baseline {base : List Delivery} {s t : Admissions} {cursor : Cursor} {contains : TagAnswers}
      {page : CollectionPage} {items : List (Descriptor × Bool)} {advanced : Bool}
      (run : Run d policy start base [] s)
      (phase : s.row.phase = .baseline) (reads : s.row.cursor = some cursor)
      (moves : page.continuation ≠ .next cursor)
      (evaluated : evaluateCollections contains policy page = .ok items)
      (commit : s.commitBaselinePage d policy cursor page items = .ok (advanced, t)) :
      Run d policy start (base ++ items.map fun item => ⟨.upsert item.1, item.2⟩) [] t
  | following {base follow : List Delivery} {s t : Admissions} {cursor : Cursor}
      {contains : TagAnswers} {page : ChangePage} {evaluation : Option (Descriptor × Bool)}
      {advanced : Bool} (run : Run d policy start base follow s)
      (phase : s.row.phase = .following) (reads : s.row.cursor = some cursor)
      (moves : page.changes ≠ [] → page.nextCursor ≠ cursor)
      (evaluated : evaluateChange contains policy page = .ok evaluation)
      (commit : s.commitChangePage d policy cursor page evaluation = .ok (advanced, t)) :
      Run d policy start base
        (follow ++ page.changes.map fun change => ⟨change, evaluation.elim false Prod.snd⟩) t

/-- A committed page of collections that moves the cursor is recorded. -/
theorem commitBaselinePage_eq_ok
    (h : s.commitBaselinePage d policy cursor page items = .ok (advanced, t)) :
    (s.baselineCommitted d policy page = true ∧ t = s) ∨
      ∃ u, items.foldlM (recordBaseline d policy) s = .ok u ∧
        s.requirePageAuthority d policy cursor page.toEnvelope = .ok () ∧
        t = { u with row := { u.row with
          cursor := some page.continuation.cursor
          phase := nextPhase page.continuation } } := by
  rw [commitBaselinePage] at h
  split at h
  · rename_i hcommitted
    cases h
    exact Or.inl ⟨hcommitted, rfl⟩
  · simp only [bind_eq_ok] at h
    obtain ⟨_, hauthority, u, hrecord, h⟩ := h
    cases h
    exact Or.inr ⟨u, hrecord, hauthority, rfl⟩

/-- A committed page of changes is the one that brought the row where it stands, or it is
recorded. -/
theorem commitChangePage_eq_ok {page : ChangePage}
    (h : s.commitChangePage d policy cursor page evaluated = .ok (advanced, t)) :
    (s.changeCommitted d policy page = true ∧ t = s) ∨
      s.requirePageAuthority d policy cursor page.toEnvelope = .ok () ∧
        ((page.changes = [] ∧ t = s.follow page) ∨ ∃ change u, page.changes = [change] ∧
            s.recordChange d policy change evaluated = .ok u ∧ t = u.follow page) := by
  rw [commitChangePage] at h
  split at h
  · rename_i hcommitted
    cases h
    exact Or.inl ⟨hcommitted, rfl⟩
  · rw [bind_eq_ok] at h
    obtain ⟨_, hauthority, h⟩ := h
    refine Or.inr ⟨hauthority, ?_⟩
    rcases hchanges : page.changes with _ | ⟨change, _ | ⟨_, _⟩⟩ <;> rw [hchanges] at h
    · cases h
      exact Or.inl ⟨rfl, rfl⟩
    · rw [bind_eq_ok] at h
      obtain ⟨u, hrecord, h⟩ := h
      cases h
      exact Or.inr ⟨change, u, rfl, hrecord, rfl⟩
    · cases h

theorem deliver_row (record : Bool) (item : Delivery) :
    (s.deliver d policy record item).row = s.row :=
  (deliver_memories record item).2.2

theorem foldlM_recordBaseline_row (h : items.foldlM (recordBaseline d policy) s = .ok t) :
    t.row = s.row := by
  induction items generalizing s with
  | nil => rw [Except.ok.inj h]
  | cons item items ih =>
    rw [foldlM_cons, bind_eq_ok] at h
    obtain ⟨u, hitem, hrest⟩ := h
    rw [ih hrest, recordBaseline_eq_ok hitem, deliver_row]

theorem requirePageAuthority_eq_ok {page : Envelope} :
    s.requirePageAuthority d policy cursor page = .ok () ↔
      s.row.policySha256 = d.policy policy ∧ s.row.cursor = some cursor ∧
        s.row.sourceIdentity = some page.sourceIdentity ∧
        s.row.authorizationViewIdentity = some page.authorizationViewIdentity := by
  rw [requirePageAuthority]
  split_ifs with h
  · refine iff_of_false nofun ?_
    rintro ⟨hpolicy, hcursor, hsource, hview⟩
    rcases h with h | h | h | h
    · exact h hpolicy
    · exact h hcursor
    · exact h hsource
    · exact h hview
  · simp only [not_or, not_not] at h
    exact iff_of_true rfl h

theorem requirePageAuthority_eq_error {page : Envelope}
    (h : s.requirePageAuthority d policy cursor page ≠ .ok ()) :
    s.requirePageAuthority d policy cursor page = .error .authorityChanged := by
  rw [requirePageAuthority] at h ⊢
  split at h
  · rename_i hchanged
    rw [if_pos hchanged]
  · exact (h rfl).elim

section Raises

variable {α β : Type} {first : Except AdmissionError α} {rest : α → Except AdmissionError β}

theorem bind_ne_authorityChanged (hfirst : first ≠ .error .authorityChanged)
    (hrest : ∀ a, rest a ≠ .error .authorityChanged) :
    (first >>= rest) ≠ .error .authorityChanged := by
  intro h
  rcases bind_eq_error.1 h with h | ⟨a, -, h⟩
  · exact hfirst h
  · exact hrest a h

end Raises

/-- Recording a change raises no error that requires a new baseline. -/
theorem observeRevision_ne : s.observeRevision d change ≠ .error .authorityChanged := by
  rw [observeRevision]
  split
  · simp
  · split_ifs <;> simp

theorem recordMatch_ne : s.recordMatch d descriptor matched ≠ .error .authorityChanged := by
  refine bind_ne_authorityChanged observeRevision_ne fun _ => ?_
  dsimp only
  split <;> simp

theorem recordBaseline_ne {item : Descriptor × Bool} :
    recordBaseline d policy s item ≠ .error .authorityChanged := by
  refine bind_ne_authorityChanged recordMatch_ne fun _ => ?_
  dsimp only
  split <;> simp

theorem recordChange_ne : s.recordChange d policy change evaluated ≠ .error .authorityChanged := by
  rw [recordChange.eq_def]
  split
  · refine bind_ne_authorityChanged observeRevision_ne fun _ => ?_
    dsimp only
    split <;> simp
  · split
    · simp
    · split
      · simp
      · refine bind_ne_authorityChanged recordMatch_ne fun _ => ?_
        dsimp only
        split <;> simp

theorem foldlM_recordBaseline_ne :
    items.foldlM (recordBaseline d policy) s ≠ .error .authorityChanged := by
  induction items generalizing s with
  | nil => simp [pure, Except.pure]
  | cons item items ih =>
    rw [foldlM_cons]
    exact bind_ne_authorityChanged recordBaseline_ne fun _ => ih

/-- A commit takes the authority for changed exactly when the row neither stands at the
continuation of the page nor where the page was read. -/
theorem commit_authorityChanged {committed : Bool} {page : Envelope} {done : Bool × Admissions}
    {rest : Unit → Except AdmissionError (Bool × Admissions)}
    (hrest : ∀ u, rest u ≠ .error .authorityChanged) :
    (if committed then .ok done else s.requirePageAuthority d policy cursor page >>= rest) =
        .error .authorityChanged ↔
      committed = false ∧ s.requirePageAuthority d policy cursor page ≠ .ok () := by
  cases committed with
  | true => simp
  | false =>
    rw [if_neg Bool.false_ne_true, bind_eq_error]
    refine ⟨?_, fun h => Or.inl (requirePageAuthority_eq_error h.2)⟩
    rintro (h | ⟨u, -, h⟩)
    · exact ⟨rfl, by simp [h]⟩
    · exact (hrest u h).elim

theorem commitBaselinePage_authorityChanged :
    s.commitBaselinePage d policy cursor page items = .error .authorityChanged ↔
      s.baselineCommitted d policy page = false ∧
        s.requirePageAuthority d policy cursor page.toEnvelope ≠ .ok () :=
  commit_authorityChanged fun _ => bind_ne_authorityChanged foldlM_recordBaseline_ne (by simp)

theorem commitChangePage_authorityChanged {page : ChangePage} :
    s.commitChangePage d policy cursor page evaluated = .error .authorityChanged ↔
      s.changeCommitted d policy page = false ∧
        s.requirePageAuthority d policy cursor page.toEnvelope ≠ .ok () := by
  refine commit_authorityChanged fun _ => ?_
  dsimp only
  split
  · simp
  · exact bind_ne_authorityChanged recordChange_ne (by simp)
  · simp

theorem standsAt_eq_true {page : Envelope} {phase : AdmissionPhase}
    (h : s.standsAt d policy page cursor phase = true) :
    s.row.cursor = some cursor ∧ s.row.phase = phase :=
  (of_decide_eq_true h).2.2.2

/-- Along a run of one worker the rows follow the delivered history. -/
theorem Run.tracks {rows : Admissions} {checkpoint : Checkpoint}
    (run : Run d policy (rows.bindCheckpoint checkpoint mode) base follow s) :
    s.Tracks d policy mode rows.candidates base follow := by
  induction run with
  | bound =>
    refine ⟨rfl, ⟨fun _ => rfl, fun _ => rfl⟩, fun row hrow => Or.inl hrow, fun id => ?_⟩
    refine ⟨Or.inl, fun h => h.resolve_right ?_⟩
    rintro ⟨descriptor, ⟨-, hmem⟩ | hrises, -⟩
    · cases hmem
    · exact not_rises hrises
  | @baseline _ _ _ _ _ page _ _ _ phase reads moves _ commit ih =>
    rcases commitBaselinePage_eq_ok commit with ⟨hcommitted, rfl⟩ | ⟨u, hrecord, -, rfl⟩
    · -- a row in the baseline stands at the continuation only if the page does not move
      obtain ⟨hcursor, hphase⟩ := standsAt_eq_true hcommitted
      rw [phase] at hphase
      rw [reads] at hcursor
      cases hcontinuation : page.continuation with
      | next next =>
        rw [hcontinuation] at hcursor
        exact (moves (hcontinuation.trans (congrArg _ (Option.some.inj hcursor).symm))).elim
      | changes next =>
        rw [hcontinuation] at hphase
        cases hphase
    · exact (ih.foldlM_recordBaseline hrecord).withRow _ rfl
  | @following _ _ s _ _ _ page _ _ _ phase reads moves _ commit ih =>
    rcases commitChangePage_eq_ok commit with
      ⟨hcommitted, rfl⟩ | ⟨-, ⟨hnone, rfl⟩ | ⟨change, u, hone, hrecord, rfl⟩⟩
    · -- a page that ends where it was read holds nothing
      rw [changeCommitted, Bool.and_eq_true] at hcommitted
      obtain ⟨hcursor, -⟩ := standsAt_eq_true hcommitted.1
      have hnone : page.changes = [] := by
        by_contra hsome
        rw [reads] at hcursor
        exact moves hsome (Option.some.inj hcursor).symm
      simpa [hnone] using ih
    · rw [hnone, map_nil, append_nil]
      exact ih.withRow (s.follow page).row rfl
    · rw [hone]
      exact (ih.recordChange hrecord).withRow _ rfl

/-- A delivery that is not newer than what was kept changes nothing. -/
theorem Remembers.deliver_of_old {old : Delivery} (h : s.Remembers d history) (record : Bool)
    (hold : old ∈ kept item.change.collectionId history)
    (hle : item.change.revision ≤ old.change.revision) : s.deliver d policy record item = s := by
  have hnew := h.unobserved item
  rw [newer_eq_false hold hle] at hnew
  rw [Admissions.deliver, hnew]
  rfl

/-- No change of a page is newer than what was kept of its collection. -/
def Old (history : List Delivery) (changes : List Change) : Prop :=
  ∀ change ∈ changes, ∃ old ∈ Delivery.kept change.collectionId history,
    change.revision ≤ old.change.revision

theorem foldlM_recordBaseline_of_old (h : s.Remembers d history)
    (hold : Old history (items.map fun item => .upsert item.1))
    (hrecord : items.foldlM (recordBaseline d policy) s = .ok t) : t = s := by
  induction items with
  | nil => exact (Except.ok.inj hrecord).symm
  | cons item items ih =>
    rw [foldlM_cons, bind_eq_ok] at hrecord
    obtain ⟨u, hitem, hrest⟩ := hrecord
    obtain ⟨old, hmem, hle⟩ := hold _ (mem_cons_self ..)
    have hsame := recordBaseline_eq_ok hitem
    rw [h.deliver_of_old _ hmem hle] at hsame
    rw [hsame] at hrest
    exact ih (fun change hchange => hold change (mem_cons_of_mem _ hchange)) hrest

/-- A page without anything new changes neither the match state nor the intents. -/
theorem commitBaselinePage_of_old (h : s.Remembers d history)
    (hold : Old history (items.map fun item => .upsert item.1))
    (hcommit : s.commitBaselinePage d policy cursor page items = .ok (advanced, t)) :
    t.matchRows = s.matchRows ∧ t.candidates = s.candidates := by
  rcases commitBaselinePage_eq_ok hcommit with ⟨-, rfl⟩ | ⟨u, hrecord, -, rfl⟩
  · exact ⟨rfl, rfl⟩
  · obtain rfl := foldlM_recordBaseline_of_old h hold hrecord
    exact ⟨rfl, rfl⟩

theorem commitChangePage_of_old {page : ChangePage} (h : s.Remembers d history)
    (hold : Old history page.changes)
    (hcommit : s.commitChangePage d policy cursor page evaluated = .ok (advanced, t)) :
    t.matchRows = s.matchRows ∧ t.candidates = s.candidates := by
  rcases commitChangePage_eq_ok hcommit with
    ⟨-, rfl⟩ | ⟨-, ⟨-, rfl⟩ | ⟨change, u, hone, hrecord, rfl⟩⟩
  · exact ⟨rfl, rfl⟩
  · exact ⟨rfl, rfl⟩
  · obtain ⟨old, hmem, hle⟩ := hold change (hone ▸ mem_singleton_self _)
    have hsame := recordChange_eq_ok hrecord
    rw [h.deliver_of_old _ hmem hle] at hsame
    obtain rfl := hsame
    exact ⟨rfl, rfl⟩

/-- **Admission follows tag transitions.** After every delivered history the match state of each
collection is its newest delivered state. While the catalog is followed, the identities that are
recorded are those of the steps from not matching, absent or deleted to matching, and every new
row is the intent of such a step (or, before, of a matching collection of a backfilled baseline).
Stale and repeated revisions change neither the match state nor the intents, and no identity is
recorded twice. -/
theorem admission_follows_transitions (rows : Admissions) (checkpoint : Checkpoint)
    (run : Run d policy (rows.bindCheckpoint checkpoint mode) base follow s) :
    (∀ b, Run d policy (rows.bindCheckpoint checkpoint mode) base [] b → ∀ id,
      id ∈ s.candidates.keys ↔ id ∈ b.candidates.keys ∨
        ∃ descriptor, Delivery.Rises (Delivery.kept descriptor.collectionId base).length
            (Delivery.kept descriptor.collectionId (base ++ follow)) descriptor ∧
          id = (CandidateRow.of d policy descriptor).admissionId) ∧
    (∀ row ∈ s.candidates.rows, row ∈ rows.candidates.rows ∨
      ∃ descriptor, Admits mode base follow descriptor ∧ row = .of d policy descriptor) ∧
    (∀ c, s.matchRows c = (Delivery.kept c (base ++ follow)).getLast?.bind Delivery.matchRow) ∧
    (∀ cursor page items advanced t, Old (base ++ follow) (items.map fun item => .upsert item.1) →
      s.commitBaselinePage d policy cursor page items = .ok (advanced, t) →
      t.matchRows = s.matchRows ∧ t.candidates = s.candidates) ∧
    (∀ cursor page evaluated advanced t, Old (base ++ follow) page.changes →
      s.commitChangePage d policy cursor page evaluated = .ok (advanced, t) →
      t.matchRows = s.matchRows ∧ t.candidates = s.candidates) ∧
    s.candidates.keys.Nodup := by
  have htracks := run.tracks
  refine ⟨fun b hb id => ?_, htracks.rows, htracks.remembers.matchRows,
    fun _ _ _ _ _ hold hcommit => commitBaselinePage_of_old htracks.remembers hold hcommit,
    fun _ _ _ _ _ hold hcommit => commitChangePage_of_old htracks.remembers hold hcommit,
    s.candidates.nodup⟩
  rw [htracks.keys, hb.tracks.keys, or_assoc]
  refine or_congr_right ?_
  simp only [Admits, Delivery.not_rises, append_nil, or_false, or_and_right, exists_or]

end Admissions

/-! ## A collection that gains its tag -/

namespace Admissions.Sample

/-- Digests that name the content and the revision of a document. -/
def digests : AdmissionDigests where
  policy policy := policy.id
  intent intent := intent.policyId ++ intent.collection.contentIdentity
  change change := replicate change.revision 'r'

/-- A policy with one required tag. -/
def policy : AdmissionPolicy where
  id := ['p']
  revision := 1
  requiredTags := [['t']]
  recipeId := ['m']
  recipeRevision := 1
  recipeSha256 := ['h']
  effectiveIntent := .null

/-- A collection at a revision of its tags and of the catalog. -/
def collection (tagRevision revision : Nat) : Descriptor where
  collectionId := 1
  archiveRootSha256 := ['a']
  contentIdentity := ['c']
  description := none
  descriptionRevision := 0
  descriptionIdentity := ['d']
  tagRevision
  tagSetIdentity := ['s']
  revision

/-- Riverhog's answers while the tag is or is not there. -/
def answers (present : Bool) : TagAnswers := fun descriptor tag =>
  .ok ⟨descriptor.collectionId, descriptor.tagRevision, descriptor.tagSetIdentity, tag, present⟩

/-- The rows of the policy before its baseline. -/
def rows : Admissions where
  row := ⟨digests.policy policy, .new, none, none, none, .observe, 0⟩
  observed _ := none
  matchRows _ := none
  candidates := .empty

/-- A cursor at a position of the log. -/
def cursor (after : Nat) : Cursor := .changes after false 100 none ['s'] ['v']

/-- A checkpoint of the catalog. -/
def checkpoint : Checkpoint := ⟨⟨['s'], ['v']⟩, .catalog 0 100 1 1 ['s'] ['v']⟩

/-- The baseline shows the collection without the tag. -/
def collections : CollectionPage := ⟨⟨['s'], ['v']⟩, [collection 1 1], .changes (cursor 1)⟩

/-- The collection gains the tag. -/
def changes : ChangePage := ⟨⟨['s'], ['v']⟩, [.upsert (collection 2 2)], cursor 2, true, 2⟩

/-- The rows that a commit leaves. -/
def committed (result : Except AdmissionError (Bool × Admissions)) : Admissions :=
  result.toOption.elim rows Prod.snd

/-- The rows after the baseline. -/
def observed : Admissions :=
  committed ((rows.bindCheckpoint checkpoint .observe).commitBaselinePage digests policy
    checkpoint.catalogCursor collections [(collection 1 1, false)])

/-- The rows after the change. -/
def followed : Admissions :=
  committed (observed.commitChangePage digests policy (cursor 1) changes
    (some (collection 2 2, true)))

theorem observed_run : Run digests policy (rows.bindCheckpoint checkpoint .observe)
    [⟨.upsert (collection 1 1), false⟩] [] observed :=
  have evaluated : evaluateCollections (answers false) policy collections =
      .ok [(collection 1 1, false)] := rfl
  .baseline .bound rfl rfl (by decide) evaluated rfl

theorem followed_run : Run digests policy (rows.bindCheckpoint checkpoint .observe)
    [⟨.upsert (collection 1 1), false⟩] [⟨.upsert (collection 2 2), true⟩] followed :=
  have evaluated : evaluateChange (answers true) policy changes =
      .ok (some (collection 2 2, true)) := rfl
  .following observed_run rfl rfl (by decide) evaluated rfl

end Admissions.Sample

namespace Admissions

/-- A collection that gains the tag of a policy while it is followed is admitted. -/
theorem admission_follows_transitions_tagged :
    (CandidateRow.of Sample.digests Sample.policy (Sample.collection 2 2)).admissionId ∈
      Sample.followed.candidates.keys :=
  ((admission_follows_transitions Sample.rows Sample.checkpoint Sample.followed_run).1 _
    Sample.observed_run _).2
    (Or.inr ⟨Sample.collection 2 2,
      ⟨[⟨.upsert (Sample.collection 1 1), false⟩], [], by decide, by decide, by decide⟩, rfl⟩)

end Admissions

end Riverhog.Stove0
