import Riverhog.Core.Bytes
import Riverhog.Core.Runs

/-!
# Tag mutations and archive copy retirement

A tag mutation is settled by the publication of its head on one archive copy, chosen when the
mutation starts. A retirement is refused while a mutation is active, but a mutation may start while
a retirement is active. A tag head is identified with its revision: the head of the active mutation
has the revision after the collection's. All rows belong to one collection.
-/

namespace Riverhog.Retirement

open Core Function

/-- A row of `CollectionTagPublicationRecord`: the revision that is wanted and the one that is
published, whether its state is `published`, and the revision of its outstanding attempt. -/
structure TagPublication where
  desired : Nat
  published : Nat
  settled : Bool
  attempt : Option Nat

/-- The rows that tag mutations, copy finalisations and retirements share. The field `finalizing`
holds the revision that a finalisation of a copy has read. -/
structure TagAuthority where
  revision : Nat
  mutating : Bool
  complete : Text → Bool
  publications : Text → Option TagPublication
  retiring : Text → Bool
  finalizing : Text → Option Nat

/-- The committed transactions of the services. `permitted` stands for the checks of a transaction
that read nothing of this state. -/
inductive TagAuthorityStep where
  | mutate (permitted : Bool)
  | beginPublication (store : Text)
  | settlePublication (store : Text)
  | acceptRetirement (store : Text) (permitted : Bool)
  | clearRetirement (store : Text)
  | finishRetirement (store : Text)
  | readAuthority (store : Text)
  | finalizeCopy (store : Text)

/-- `_schedule_publication`: an outstanding attempt keeps the row's state. -/
def TagPublication.schedule (p : TagPublication) (revision : Nat) : TagPublication :=
  { p with desired := revision, settled := p.settled && p.attempt.isSome }

/-- The row of a copy after a revision is scheduled on it. -/
def schedulePublication (row : Option TagPublication) (revision : Nat) : TagPublication :=
  (row.getD ⟨revision, 0, false, none⟩).schedule revision

namespace TagAuthority

section Model

variable (stores : List Text)

variable (s : TagAuthority)

/-- A published row at the collection's revision on an uploaded copy. -/
def isCurrent (store : Text) : Bool :=
  s.complete store && (s.publications store).any fun p => p.settled && p.published = s.revision

/-- `_current_publication_candidate`: the first current row in the order of the stores. -/
def currentPublicationCandidate : Option Text :=
  stores.find? s.isCurrent

/-- Replaces the publication of a store. -/
def setPublication (store : Text) (row : Option TagPublication) :
    TagAuthority :=
  { s with publications := update s.publications store row }

/-- `_settle_mutation`: the collection takes the published revision, which is scheduled on every
other uploaded copy. -/
def settleMutation (store : Text) (revision : Nat) : TagAuthority :=
  { s with
    revision := revision
    mutating := false
    publications := fun other => if other ≠ store && s.complete other then
        some (schedulePublication (s.publications other) revision)
      else s.publications other }

/-- The plan of a retirement has no blockers. -/
def retirable (store : Text) (permitted : Bool) : Bool :=
  permitted && s.complete store && !s.mutating && !s.retiring store &&
    stores.all (fun other => other = store || !s.retiring other) &&
    (s.publications store).all (fun p => p.attempt.isNone) &&
    stores.any fun other => other ≠ store && s.isCurrent other

/-- One step. A transaction that raises changes nothing. -/
def step : TagAuthorityStep → TagAuthority
  | .mutate permitted =>
    match s.currentPublicationCandidate stores with
    | some store =>
      if permitted && !s.mutating then
        { s.setPublication store
            (some (schedulePublication (s.publications store) (s.revision + 1))) with
          mutating := true }
      else s
    | none => s
  | .beginPublication store =>
    match s.publications store with
    | some p =>
      if !p.settled && s.complete store && !s.retiring store then
        s.setPublication store (some { p with attempt := some (p.attempt.getD p.desired) })
      else s
    | none => s
  | .settlePublication store =>
    match s.publications store with
    | some ⟨desired, _, _, some revision⟩ =>
      let published := s.setPublication store
        (some ⟨desired, revision, decide (desired = revision), none⟩)
      if desired = revision ∧ s.mutating ∧ revision = s.revision + 1 then
        published.settleMutation store revision
      else published
    | _ => s
  | .acceptRetirement store permitted =>
    if s.retirable stores store permitted then
      { s with retiring := update s.retiring store true }
    else s
  | .clearRetirement store => { s with retiring := update s.retiring store false }
  | .finishRetirement store =>
    if s.retiring store then
      { s.setPublication store none with
        complete := update s.complete store false
        retiring := update s.retiring store false }
    else s
  | .readAuthority store =>
    { s with finalizing := update s.finalizing store (some s.revision) }
  | .finalizeCopy store =>
    match s.finalizing store with
    | some revision =>
      if s.complete store then s
      else
        { s.setPublication store (some (schedulePublication (s.publications store) revision)) with
          complete := update s.complete store true
          finalizing := update s.finalizing store none }
    | none => s

end Model

/-- A publication of the active mutation's head is scheduled on a complete copy that is not under
retirement. -/
def Scheduled (s : TagAuthority) : Prop :=
  ∃ store p, s.publications store = some p ∧ p.desired = s.revision + 1 ∧ p.settled = false ∧
    s.complete store ∧ s.retiring store = false

/-- An active mutation has a scheduled publication, and a run exists that settles it. -/
def Finishable (stores : List Text) (s : TagAuthority) : Prop :=
  s.mutating → s.Scheduled ∧ ∃ run : List TagAuthorityStep,
    (run.foldl (step stores) s).mutating = false ∧
      (run.foldl (step stores) s).revision = s.revision + 1

/-- A mutation that starts is given a copy that is not under retirement. -/
def StartsClear (stores : List Text) (s : TagAuthority) : TagAuthorityStep → Prop
  | .mutate permitted => permitted → s.mutating = false →
      ∀ store, s.currentPublicationCandidate stores = some store → s.retiring store = false
  | _ => True

/-- What every run keeps: rows belong to complete copies, and no row is ahead of the collection but
that of the active mutation, whose attempt is for its own head. -/
structure Sound (s : TagAuthority) : Prop where
  complete : ∀ store p, s.publications store = some p → s.complete store
  ahead : ∀ store p, s.publications store = some p →
    p.desired ≤ s.revision ∨ s.mutating ∧ p.desired = s.revision + 1
  attempt : ∀ store p, s.publications store = some p → ∀ revision, p.attempt = some revision →
    p.settled = false ∧ (p.desired = s.revision + 1 → revision = p.desired)
  finalizing : ∀ store revision, s.finalizing store = some revision → revision ≤ s.revision

/-- A published collection without an active mutation. -/
structure Start (s : TagAuthority) : Prop where
  idle : s.mutating = false
  sound : s.Sound

variable {stores : List Text} {s : TagAuthority}

theorem setPublication_self (store : Text) (row : Option TagPublication) :
    (s.setPublication store row).publications store = row := by
  simp [setPublication]

variable {store other : Text}

theorem setPublication_of_ne (h : other ≠ store) (row : Option TagPublication) :
    (s.setPublication store row).publications other = s.publications other := by
  simp [setPublication, update_of_ne h]

theorem setPublication_eq_some {row : Option TagPublication} {q : TagPublication}
    (h : (s.setPublication store row).publications other = some q) :
    other = store ∧ row = some q ∨ other ≠ store ∧ s.publications other = some q := by
  by_cases hne : other = store <;> simpa [setPublication, hne] using h

/-- The row of a complete copy may be replaced by one that is not ahead on its own. -/
theorem Sound.setPublication (hs : s.Sound) (hstore : s.complete store) {p : TagPublication}
    (hahead : p.desired ≤ s.revision ∨ s.mutating ∧ p.desired = s.revision + 1)
    (hattempt : ∀ revision, p.attempt = some revision →
      p.settled = false ∧ (p.desired = s.revision + 1 → revision = p.desired)) :
    (s.setPublication store (some p)).Sound := by
  refine ⟨forall_update_some hs.complete ?_, forall_update_some hs.ahead ?_,
    forall_update_some hs.attempt ?_, hs.finalizing⟩ <;> rintro _ ⟨⟩
  · exact hstore
  · exact hahead
  · exact hattempt

/-- The candidate of a mutation is a published row of a complete copy. -/
theorem currentPublicationCandidate_eq_some
    (h : s.currentPublicationCandidate stores = some store) :
    s.complete store ∧ ∃ p, s.publications store = some p ∧ p.settled := by
  have hcurrent : s.isCurrent store := List.find?_some h
  simp only [isCurrent, Bool.and_eq_true] at hcurrent
  refine ⟨hcurrent.1, ?_⟩
  cases hp : s.publications store with
  | none => simp [hp] at hcurrent
  | some p => exact ⟨p, rfl, by simp [hp] at hcurrent; exact hcurrent.2.1⟩

variable (hs : s.Sound)
include hs

/-- A published row that is scheduled becomes pending. -/
theorem schedule_of_settled {p : TagPublication} (hp : s.publications store = some p)
    (hsettled : p.settled) (revision : Nat) :
    schedulePublication (s.publications store) revision = ⟨revision, p.published, false, none⟩ := by
  have hnone : p.attempt = none := by
    cases hattempt : p.attempt with
    | none => rfl
    | some a =>
      have hfalse := (hs.attempt store p hp a hattempt).1
      rw [hsettled] at hfalse
      cases hfalse
  simp [schedulePublication, hp, TagPublication.schedule, hnone]

/-- Settling the active mutation leaves no row ahead. -/
theorem Sound.settleMutation : (s.settleMutation store (s.revision + 1)).Sound := by
  have hrow : ∀ other q, (s.settleMutation store (s.revision + 1)).publications other = some q →
      s.complete other ∧ q.desired ≤ s.revision + 1 ∧ (q.attempt.isSome → q.settled = false) := by
    intro other q hq
    simp only [TagAuthority.settleMutation] at hq
    split at hq
    · rename_i hother
      simp only [Bool.and_eq_true] at hother
      cases hq
      refine ⟨hother.2, by simp [schedulePublication, TagPublication.schedule], ?_⟩
      cases hold : s.publications other with
      | none => simp [schedulePublication, TagPublication.schedule]
      | some p =>
        intro hsome
        simp only [schedulePublication, TagPublication.schedule, Option.getD_some] at hsome ⊢
        obtain ⟨a, ha⟩ := Option.isSome_iff_exists.1 hsome
        rw [(hs.attempt other p hold a ha).1, Bool.false_and]
    · refine ⟨hs.complete other q hq, ?_, ?_⟩
      · rcases hs.ahead other q hq with h | ⟨-, h⟩ <;> omega
      · intro hsome
        obtain ⟨a, ha⟩ := Option.isSome_iff_exists.1 hsome
        exact (hs.attempt other q hq a ha).1
  refine ⟨fun other q hq => (hrow other q hq).1, fun other q hq => .inl (hrow other q hq).2.1,
    ?_, ?_⟩
  · intro other q hq a ha
    obtain ⟨-, hle, hfalse⟩ := hrow other q hq
    refine ⟨hfalse (by simp [ha]), ?_⟩
    intro hahead
    have : q.desired = s.revision + 1 + 1 := hahead
    omega
  · intro other revision hread
    exact Nat.le_succ_of_le (hs.finalizing other revision hread)

/-- Every step keeps the soundness. -/
theorem Sound.step (i : TagAuthorityStep) : (s.step stores i).Sound := by
  cases i <;> simp only [TagAuthority.step]
  case mutate permitted =>
    split
    · rename_i store hcandidate
      split
      · rename_i hstart
        simp only [Bool.and_eq_true, Bool.not_eq_true'] at hstart
        obtain ⟨hcomplete, p, hp, hsettled⟩ := currentPublicationCandidate_eq_some hcandidate
        rw [schedule_of_settled hs hp hsettled]
        -- No row is ahead before, so only the candidate's is after.
        have hstarted : ({ s with mutating := true } : TagAuthority).Sound :=
          { hs with ahead := fun other q hq => (hs.ahead other q hq).imp_right fun h => ⟨rfl, h.2⟩ }
        exact hstarted.setPublication hcomplete (.inr ⟨rfl, rfl⟩) (by simp)
      · exact hs
    · exact hs
  case beginPublication store =>
    split
    · rename_i p hp
      split
      · rename_i hready
        simp only [Bool.and_eq_true, Bool.not_eq_true'] at hready
        have hahead := hs.ahead store p hp
        refine hs.setPublication hready.1.2 hahead ?_
        intro revision hrevision
        refine ⟨hready.1.1, ?_⟩
        intro hahead
        cases hattempt : p.attempt with
        | none => simpa [hattempt] using hrevision.symm
        | some a =>
          have ha := (hs.attempt store p hp a hattempt).2 hahead
          simp only [hattempt, Option.getD_some, Option.some.injEq] at hrevision
          exact hrevision ▸ ha
      · exact hs
    · exact hs
  case settlePublication store =>
    split
    · rename_i desired published settled revision hp
      have hahead := hs.ahead store _ hp
      have hpublished : (s.setPublication store
          (some ⟨desired, revision, decide (desired = revision), none⟩)).Sound :=
        hs.setPublication (hs.complete store _ hp) hahead (by simp)
      split
      · rename_i hsettle
        obtain rfl : revision = s.revision + 1 := hsettle.2.2
        exact hpublished.settleMutation
      · exact hpublished
    · exact hs
  case acceptRetirement store permitted =>
    split
    · exact { hs with }
    · exact hs
  case clearRetirement store => exact { hs with }
  case finishRetirement store =>
    split
    · refine ⟨?_, forall_update_some hs.ahead (by simp), forall_update_some hs.attempt (by simp),
        hs.finalizing⟩
      intro other q hq
      obtain ⟨hne, hq⟩ := (setPublication_eq_some hq).resolve_left nofun
      simpa [update_of_ne hne] using hs.complete other q hq
    · exact hs
  case readAuthority store =>
    refine ⟨hs.complete, hs.ahead, hs.attempt, forall_update_some hs.finalizing ?_⟩
    rintro _ ⟨⟩
    exact le_rfl
  case finalizeCopy store =>
    split
    · rename_i revision hread
      split
      · exact hs
      · rename_i hcopy
        -- A copy that is not complete has no row yet.
        have hnone : s.publications store = none := by
          cases hp : s.publications store with
          | none => rfl
          | some p => exact absurd (hs.complete store p hp) hcopy
        have hle := hs.finalizing store revision hread
        have hcompleted : ({ s with
            complete := update s.complete store true
            finalizing := update s.finalizing store none } : TagAuthority).Sound := by
          refine ⟨?_, hs.ahead, hs.attempt, forall_update_some hs.finalizing (by simp)⟩
          intro other q hq
          by_cases hne : other = store
          · simp [hne]
          · simpa [update_of_ne hne] using hs.complete other q hq
        rw [hnone]
        exact hcompleted.setPublication (by simp) (.inl hle) (by simp [schedulePublication,
          TagPublication.schedule])
    · exact hs

/-- A scheduled publication of the active mutation settles it in two steps. -/
theorem Sound.finishable (h : s.mutating → s.Scheduled) : s.Finishable stores := by
  intro hmutating
  obtain ⟨store, p, hp, hdesired, hsettled, hcomplete, hretiring⟩ := h hmutating
  refine ⟨⟨store, p, hp, hdesired, hsettled, hcomplete, hretiring⟩,
    [.beginPublication store, .settlePublication store], ?_⟩
  have hattempt : p.attempt.getD p.desired = p.desired := by
    cases ha : p.attempt with
    | none => rfl
    | some a => exact (hs.attempt store p hp a ha).2 hdesired
  have hbegin : s.step stores (.beginPublication store) =
      s.setPublication store (some { p with attempt := some p.desired }) := by
    simp [TagAuthority.step, hp, hsettled, hcomplete, hretiring, hattempt]
  simp only [List.foldl_cons, List.foldl_nil, hbegin]
  obtain ⟨desired, published, settled, attempt⟩ := p
  simp only at hdesired
  subst hdesired
  simp [TagAuthority.step, TagAuthority.setPublication, hmutating, TagAuthority.settleMutation]

/-- A mutation that starts has a scheduled publication if and only if its candidate is not under
retirement. -/
theorem scheduled_mutate_iff (hidle : s.mutating = false)
    (hcandidate : s.currentPublicationCandidate stores = some store) :
    (s.step stores (.mutate true)).Scheduled ↔ s.retiring store = false := by
  obtain ⟨hcomplete, p, hp, hsettled⟩ := currentPublicationCandidate_eq_some hcandidate
  have hstep : s.step stores (.mutate true) =
      { s.setPublication store (some ⟨s.revision + 1, p.published, false, none⟩) with
        mutating := true } := by
    simp [step, hcandidate, hidle, schedule_of_settled hs hp hsettled]
  rw [hstep]
  constructor
  · rintro ⟨other, q, hq, hdesired, -, -, hretiring⟩
    rcases setPublication_eq_some hq with ⟨rfl, -⟩ | ⟨-, hold⟩
    · exact hretiring
    · -- No other row is ahead of the collection.
      have hdesired' : q.desired = s.revision + 1 := hdesired
      rcases hs.ahead other q hold with hle | ⟨hmutating, -⟩
      · omega
      · rw [hidle] at hmutating
        cases hmutating
  · intro hretiring
    exact ⟨store, _, setPublication_self store _, rfl, rfl, hcomplete, hretiring⟩

/-- Every step but the start of a mutation keeps an active mutation scheduled. -/
theorem scheduled_step (hsched : s.mutating → s.Scheduled) (i : TagAuthorityStep)
    (hi : ∀ permitted, i ≠ .mutate permitted) :
    (s.step stores i).mutating → (s.step stores i).Scheduled := by
  intro hafter
  have hmutating : s.mutating := by
    cases i with
    | mutate permitted => exact absurd rfl (hi permitted)
    | _ =>
      simp only [step] at hafter
      repeat' split at hafter
      all_goals first | exact hafter | cases hafter
  obtain ⟨other, q, hq, hdesired, hsettled, hcomplete, hretiring⟩ := hsched hmutating
  cases i with
  | mutate permitted => exact absurd rfl (hi permitted)
  | beginPublication store =>
    simp only [step]
    split
    · rename_i p hp
      split
      · by_cases hne : other = store
        · subst hne
          obtain rfl : p = q := Option.some.inj (hp.symm.trans hq)
          exact ⟨other, _, setPublication_self other _, hdesired, hsettled, hcomplete, hretiring⟩
        · exact ⟨other, q, by rw [setPublication_of_ne hne]; exact hq, hdesired, hsettled,
            hcomplete, hretiring⟩
      · exact hsched hmutating
    · exact hsched hmutating
  | settlePublication store =>
    simp only [step]
    split
    · rename_i desired published settled revision hp
      split
      · rename_i hsettle
        simp [step, hp, hsettle, settleMutation] at hafter
      · rename_i hother
        by_cases hne : other = store
        · -- The attempt of the mutation's row is for its head, so it would have settled it.
          subst hne
          rw [hp] at hq
          cases hq
          have hhead := (hs.attempt other _ hp revision rfl).2 hdesired
          exact absurd ⟨hhead.symm, hmutating, hhead.trans hdesired⟩ hother
        · exact ⟨other, q, by rw [setPublication_of_ne hne]; exact hq, hdesired, hsettled,
            hcomplete, hretiring⟩
    · exact hsched hmutating
  | acceptRetirement store permitted =>
    simp only [step]
    split
    · rename_i hretirable
      simp [retirable, hmutating] at hretirable
    · exact hsched hmutating
  | clearRetirement store =>
    refine ⟨other, q, hq, hdesired, hsettled, hcomplete, ?_⟩
    simp only [step, update_apply]
    split
    · rfl
    · exact hretiring
  | finishRetirement store =>
    simp only [step]
    split
    · rename_i hretired
      have hne : other ≠ store := by
        intro heq
        rw [heq, hretired] at hretiring
        cases hretiring
      refine ⟨other, q, by simpa [setPublication_of_ne hne] using hq, hdesired, hsettled, ?_, ?_⟩
      · simpa [update_of_ne hne] using hcomplete
      · simpa [update_of_ne hne] using hretiring
    · exact hsched hmutating
  | readAuthority store => exact hsched hmutating
  | finalizeCopy store =>
    simp only [step]
    split
    · split
      · exact hsched hmutating
      · rename_i hcopy
        have hne : other ≠ store := by
          intro heq
          exact hcopy (heq ▸ hcomplete)
        refine ⟨other, q, by simpa [setPublication_of_ne hne] using hq, hdesired, hsettled, ?_,
          hretiring⟩
        simpa [update_of_ne hne] using hcomplete
    · exact hsched hmutating

/-- One step keeps every active mutation finishable if and only if it starts none on a copy under
retirement. -/
theorem finishable_step_iff (hfin : s.Finishable stores) (i : TagAuthorityStep) :
    (s.step stores i).Finishable stores ↔ s.StartsClear stores i := by
  have hsched : s.mutating → s.Scheduled := fun h => (hfin h).1
  cases i with
  | mutate permitted =>
    by_cases hstart : permitted = true ∧ s.mutating = false ∧
        (s.currentPublicationCandidate stores).isSome
    · obtain ⟨rfl, hidle, hsome⟩ := hstart
      obtain ⟨store, hcandidate⟩ := Option.isSome_iff_exists.1 hsome
      have hiff := scheduled_mutate_iff hs hidle hcandidate
      have hactive : (s.step stores (.mutate true)).mutating = true := by
        simp [step, hcandidate, hidle]
      constructor
      · intro h _ _ store' hstore'
        rw [hcandidate] at hstore'
        cases hstore'
        exact hiff.1 (h hactive).1
      · intro h
        exact (hs.step _).finishable fun _ => hiff.2 (h rfl hidle store hcandidate)
    · have hsame : s.step stores (.mutate permitted) = s := by
        simp only [step]
        split
        · rename_i store hcandidate
          split
          · rename_i hboth
            simp only [Bool.and_eq_true, Bool.not_eq_true'] at hboth
            exact absurd ⟨hboth.1, hboth.2, by simp [hcandidate]⟩ hstart
          · rfl
        · rfl
      rw [hsame]
      refine iff_of_true hfin ?_
      intro hp hidle store hcandidate
      exact absurd ⟨hp, hidle, by simp [hcandidate]⟩ hstart
  | _ => exact iff_of_true ((hs.step _).finishable (scheduled_step hs hsched _ nofun)) trivial

end TagAuthority

/-- Along a run every active tag mutation can finish if and only if no mutation of the run starts
on a copy that is under retirement. -/
theorem mutations_finishable_iff_start_clear {stores : List Text} {s : TagAuthority}
    (hs : s.Start) (run : List TagAuthorityStep) :
    Throughout (TagAuthority.step stores) (TagAuthority.Finishable stores) s run ↔
      Guarded (TagAuthority.step stores) (TagAuthority.StartsClear stores) s run := by
  have hinv : ∀ (s : TagAuthority) i, s.Sound → (s.step stores i).Sound := fun s i hs => hs.step i
  have hstep : ∀ (s : TagAuthority) i, s.Sound → s.Finishable stores →
      ((s.step stores i).Finishable stores ↔ s.StartsClear stores i) :=
    fun s i hs hfin => TagAuthority.finishable_step_iff hs hfin i
  have hfin : s.Finishable stores := by
    intro hmutating
    rw [hs.idle] at hmutating
    cases hmutating
  exact throughout_iff_guarded hinv hstep hs.sound hfin run

namespace Samples

/-- A collection at revision 1 with published copies in the stores `a` and `b`. -/
def publishedTwice : TagAuthority where
  revision := 1
  mutating := false
  complete store := store = "a" || store = "b"
  publications store :=
    if store = "a" ∨ store = "b" then some ⟨1, 1, true, none⟩ else none
  retiring _ := false
  finalizing _ := none

theorem publishedTwice_start : publishedTwice.Start := by
  have hrow : ∀ store p, publishedTwice.publications store = some p →
      publishedTwice.complete store ∧ p = ⟨1, 1, true, none⟩ := by
    intro store p hp
    simp only [publishedTwice] at hp ⊢
    split at hp
    · rename_i hstore
      cases hp
      exact ⟨by simpa using hstore, rfl⟩
    · cases hp
  refine ⟨rfl, fun store p hp => (hrow store p hp).1, ?_, ?_, nofun⟩
  · intro store p hp
    rw [(hrow store p hp).2]
    exact .inl (le_refl _)
  · intro store p hp
    rw [(hrow store p hp).2]
    nofun

/-- The two stores of the samples, in their order. -/
def mutationStores : List Text := ["a", "b"]

/-- A mutation starts while the copy in store `a` is being retired. -/
def mutationDuringRetirement : List TagAuthorityStep :=
  [.acceptRetirement "a" true, .mutate true]

/-- A mutation is settled, and then the copy in store `b` is retired. -/
def mutationBeforeRetirement : List TagAuthorityStep :=
  [.mutate true, .beginPublication "a", .settlePublication "a",
    .acceptRetirement "b" true, .finishRetirement "b"]

end Samples

open Samples in
theorem mutation_before_retirement_finishable :
    publishedTwice.Start ∧
      Throughout (TagAuthority.step mutationStores) (TagAuthority.Finishable mutationStores)
        publishedTwice mutationBeforeRetirement := by
  refine ⟨publishedTwice_start, (mutations_finishable_iff_start_clear publishedTwice_start _).2 ?_⟩
  refine ⟨?_, trivial, trivial, trivial, trivial, trivial⟩
  intro _ _ store _
  rfl

open Samples in
theorem mutation_during_retirement_stuck :
    ¬ Throughout (TagAuthority.step mutationStores) (TagAuthority.Finishable mutationStores)
      publishedTwice mutationDuringRetirement := by
  intro h
  let retiring := publishedTwice.step mutationStores (.acceptRetirement "a" true)
  have hsound : retiring.Sound := publishedTwice_start.sound.step _
  have hcandidate : retiring.currentPublicationCandidate mutationStores = some "a" := by
    decide +kernel
  have hscheduled : (retiring.step mutationStores (.mutate true)).Scheduled :=
    (h.last (by decide +kernel)).1
  have hfalse := (TagAuthority.scheduled_mutate_iff hsound rfl hcandidate).1 hscheduled
  exact absurd hfalse (by decide +kernel)

end Riverhog.Retirement
