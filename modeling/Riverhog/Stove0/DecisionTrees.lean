import Mathlib.Data.Fintype.EquivFin
import Riverhog.Stove0.RetirementReadiness

/-!
# Accepted decisions are trees

The search of a decision keeps its own stack: a document is entered, its children are
pushed above a marker, and popping the marker leaves it. The search raises exactly when
a cycle or a missing document can be reached from the root. That every document has one
reference is not checked by the search at all; it follows from the digests by which the
work of a branch names the work of its parent.
-/

namespace Riverhog.Stove0

open Relation (ReflTransGen TransGen)
open Core List

/-! ## The document graph -/

section Search

variable {docs : BranchSetDocuments}

/-- A document has a coordination branch that refers to another digest. -/
def Child (docs : BranchSetDocuments) (parent child : Digest) : Prop :=
  ∃ plan, docs.lookup parent = some plan ∧ child ∈ plan.childDigests

/-- Something is wrong at a digest: it has no document, or it lies on a cycle. -/
def Broken (docs : BranchSetDocuments) (digest : Digest) : Prop :=
  docs.lookup digest = none ∨ TransGen (Child docs) digest digest

variable {plan : BranchSetPlan} {digest root : Digest}

theorem mem_of_lookup (h : docs.lookup digest = some plan) : (digest, plan) ∈ docs := by
  obtain ⟨before, after, rfl, -⟩ := lookup_eq_some_iff.1 h
  exact mem_append_right _ mem_cons_self

theorem exists_lookup_of_mem {entry : Digest × BranchSetPlan} (h : entry ∈ docs) :
    ∃ plan, docs.lookup entry.1 = some plan := by
  rw [← Option.ne_none_iff_exists']
  intro hnone
  have hall := lookup_eq_none_iff.1 hnone entry h
  simp at hall

/-! ## The invariant of the search -/

/-- The digests are closed under children, and no descent from one of them is infinite. -/
def Settled (docs : BranchSetDocuments) (done : List Digest) : Prop :=
  ∀ digest ∈ done, (docs.lookup digest).isSome ∧ (∀ child, Child docs digest child → child ∈ done)
    ∧ Acc (fun child parent => Child docs parent child) digest

/-- When a marker of the stack is popped, the children of its document have been seen: they
are done or stand above it. -/
def Covers (docs : BranchSetDocuments) : List Digest → List (Digest × Bool) → Prop
  | _, [] => True
  | seen, (digest, false) :: stack => Covers docs (digest :: seen) stack
  | seen, (digest, true) :: stack =>
    ((docs.lookup digest).isSome ∧ ∀ child, Child docs digest child → child ∈ seen)
      ∧ Covers docs (digest :: seen) stack

variable {done seen : List Digest}

theorem Covers.mono {more : List Digest} {stack : List (Digest × Bool)} (hsub : seen ⊆ more)
    (h : Covers docs seen stack) : Covers docs more stack := by
  induction stack generalizing seen more with
  | nil => trivial
  | cons entry stack ih =>
    obtain ⟨digest, leaving⟩ := entry
    have hcons := cons_subset_cons digest hsub
    cases leaving with
    | false => exact ih hcons h
    | true =>
      obtain ⟨⟨hsome, hchildren⟩, hrest⟩ := h
      exact ⟨⟨hsome, fun child hc => hsub (hchildren child hc)⟩, ih hcons hrest⟩

theorem covers_pushed {children : List Digest} {stack : List (Digest × Bool)} :
    Covers docs seen (children.map (·, false) ++ stack)
      ↔ Covers docs (children.reverse ++ seen) stack := by
  induction children generalizing seen with
  | nil => rfl
  | cons child children ih =>
    rw [map_cons, cons_append, Covers, ih, reverse_cons, append_assoc,
      singleton_append]

/-- What holds of the search from the root at every round. -/
structure SearchInv (docs : BranchSetDocuments) (root : Digest) (s : TreeSearch) : Prop where
  settled : Settled docs s.reachable
  found : ∀ digest ∈ s.reachable, ReflTransGen (Child docs) root digest
  covers : Covers docs s.reachable s.stack
  fromRoot : ∀ entry ∈ s.stack, ReflTransGen (Child docs) root entry.1
  /-- A marker is an ancestor of every entry above it. -/
  ancestors : s.stack.Pairwise fun upper lower =>
    lower.2 = true → TransGen (Child docs) lower.1 upper.1
  marked : ∀ digest ∈ s.visiting, (digest, true) ∈ s.stack
  kept : root ∈ s.reachable ∨ root ∈ s.stack.map Prod.fst

theorem searchInv_start (root : Digest) :
    SearchInv docs root { reachable := [], visiting := [], stack := [(root, false)] } where
  settled := nofun
  found := nofun
  covers := trivial
  fromRoot := by
    rintro entry hentry
    rw [mem_singleton.1 hentry]
  ancestors := pairwise_singleton _ _
  marked := nofun
  kept := .inr (mem_singleton_self root)

variable {reachable visiting : List Digest} {stack : List (Digest × Bool)}

/-- Popping a marker settles its digest. -/
theorem SearchInv.leave (h : SearchInv docs root ⟨reachable, visiting, (digest, true) :: stack⟩) :
    SearchInv docs root ⟨digest :: reachable, visiting.filter (· ≠ digest), stack⟩ := by
  obtain ⟨hsettled, hfound, ⟨⟨hsome, hchildren⟩, hcovers⟩, hroot, hancestors, hmarked, hkept⟩ := h
  have hacc : Acc (fun child parent => Child docs parent child) digest :=
    ⟨digest, fun child hc => (hsettled child (hchildren child hc)).2.2⟩
  refine ⟨?_, ?_, hcovers, ?_, (pairwise_cons.1 hancestors).2, ?_, ?_⟩
  · intro other hother
    rcases mem_cons.1 hother with rfl | hold
    · exact ⟨hsome, fun child hc => mem_cons_of_mem _ (hchildren child hc), hacc⟩
    · obtain ⟨hother, hclosed, hacc⟩ := hsettled other hold
      exact ⟨hother, fun child hc => mem_cons_of_mem _ (hclosed child hc), hacc⟩
  -- the rest is about which digests are on the stack
  all_goals grind

section

variable (h : SearchInv docs root ⟨reachable, visiting, (digest, false) :: stack⟩)
include h

/-- An entry whose digest is settled is dropped. -/
theorem SearchInv.skip
    (hdone : digest ∈ reachable) : SearchInv docs root ⟨reachable, visiting, stack⟩ := by
  obtain ⟨hsettled, hfound, hcovers, hroot, hancestors, hmarked, hkept⟩ := h
  refine ⟨hsettled, hfound, ?_, ?_, (pairwise_cons.1 hancestors).2, ?_, ?_⟩
  · rw [Covers] at hcovers
    exact hcovers.mono (cons_subset.2 ⟨hdone, List.Subset.refl _⟩)
  all_goals grind

/-- Entering a document puts its marker under its children. -/
theorem SearchInv.enter (hplan : docs.lookup digest = some plan) :
    SearchInv docs root ⟨reachable, digest :: visiting,
      (plan.childDigests.filter (· ∉ reachable)).map (·, false) ++ (digest, true) :: stack⟩ := by
  obtain ⟨hsettled, hfound, hcovers, hfrom, hancestors, hmarked, hkept⟩ := h
  have hroot := hfrom _ mem_cons_self
  have hchild : ∀ entry ∈ (plan.childDigests.filter (· ∉ reachable)).map (·, false),
      Child docs digest entry.1 := by
    intro entry he
    obtain ⟨child, hc, rfl⟩ := mem_map.1 he
    exact ⟨plan, hplan, (mem_filter.1 hc).1⟩
  obtain ⟨habove, hbelow⟩ := pairwise_cons.1 hancestors
  refine ⟨hsettled, hfound, covers_pushed.2 ⟨⟨by rw [hplan]; rfl, ?_⟩, ?_⟩, ?_, ?_, ?_, ?_⟩
  · rintro child ⟨found, hfound, hc⟩
    rw [hplan] at hfound
    cases hfound
    grind
  · rw [Covers] at hcovers
    exact hcovers.mono (cons_subset_cons _ (subset_append_right _ _))
  · intro entry he
    rcases mem_append.1 he with hpushed | hrest
    · exact hroot.tail (hchild entry hpushed)
    · rcases mem_cons.1 hrest with rfl | hold
      · exact hroot
      · exact hfrom entry (mem_cons_of_mem _ hold)
  · refine pairwise_append.2 ⟨?_, pairwise_cons.2 ⟨habove, hbelow⟩, ?_⟩
    · refine pairwise_map.2 (pairwise_of_forall fun _ _ hmarker => ?_)
      cases hmarker
    · intro upper hupper lower hlower hmarker
      rcases mem_cons.1 hlower with rfl | hold
      · exact .single (hchild upper hupper)
      · exact (habove lower hold hmarker).tail (hchild upper hupper)
  all_goals grind

/-- A digest in the course of being visited is an ancestor of the entry on top. -/
theorem SearchInv.ancestor
    {other : Digest} (hother : other ∈ visiting) : TransGen (Child docs) other digest := by
  rcases mem_cons.1 (h.marked other hother) with heq | hmem
  · cases heq
  · exact (pairwise_cons.1 h.ancestors).1 _ hmem rfl

/-- A child that is being visited closes a cycle through the entry on top. -/
theorem SearchInv.cycle (hplan : docs.lookup digest = some plan)
    (hany : plan.childDigests.any (· ∈ digest :: visiting) = true) :
    TransGen (Child docs) digest digest := by
  obtain ⟨child, hc, hseen⟩ := any_eq_true.1 hany
  have hstep : Child docs digest child := ⟨plan, hplan, hc⟩
  rcases mem_cons.1 (of_decide_eq_true hseen) with rfl | hold
  · exact .single hstep
  · exact .head hstep (h.ancestor hold)

end

/-! ## The rounds of the search -/

/-- The rounds that the documents not yet entered can still cost. -/
def unentered (docs : BranchSetDocuments) (entered : List Digest) : Nat :=
  ((docs.filter (!entered.contains ·.1)).map (·.2.childDigests.length + 1)).sum

theorem unentered_cons (entry : Digest × BranchSetPlan) (entered : List Digest) :
    unentered (entry :: docs) entered = unentered docs entered
      + if entry.1 ∈ entered then 0 else entry.2.childDigests.length + 1 := by
  unfold unentered
  by_cases h : entry.1 ∈ entered
  · simp [h]
  · simp [h, Nat.add_comm]

theorem unentered_anti {entered more : List Digest} (hsub : entered ⊆ more) :
    unentered docs more ≤ unentered docs entered := by
  induction docs with
  | nil => exact Nat.le_refl _
  | cons entry docs ih =>
    rw [unentered_cons, unentered_cons]
    refine Nat.add_le_add ih ?_
    by_cases h : entry.1 ∈ entered
    · rw [if_pos (hsub h)]
      exact Nat.zero_le _
    · rw [if_neg h]
      split <;> omega

/-- Entering a document pays for its marker and its children. -/
theorem unentered_enter {entered : List Digest} (hplan : docs.lookup digest = some plan)
    (hnew : digest ∉ entered) :
    unentered docs (digest :: entered) + (plan.childDigests.length + 1)
      ≤ unentered docs entered := by
  induction docs with
  | nil => cases hplan
  | cons entry docs ih =>
    obtain ⟨key, found⟩ := entry
    rw [unentered_cons, unentered_cons]
    rw [lookup_cons] at hplan
    cases hkey : digest == key with
    | true =>
      rw [hkey] at hplan
      cases hplan
      obtain rfl := eq_of_beq hkey
      have hanti : unentered docs (digest :: entered) ≤ unentered docs entered :=
        unentered_anti (subset_cons_self digest entered)
      rw [if_pos mem_cons_self, if_neg hnew]
      dsimp only
      omega
    | false =>
      rw [hkey] at hplan
      have hne : key ≠ digest := fun heq => by simp [heq] at hkey
      have hmem : key ∈ digest :: entered ↔ key ∈ entered := by simp [hne]
      have hrest := ih hplan
      simp only [hmem]
      omega

/-- The search ends in enough rounds: with the digests found from the root, all of them
settled, or at something broken. -/
theorem treeSearchLoop_spec {fuel : Nat} {s : TreeSearch} (h : SearchInv docs root s)
    (hfuel : s.stack.length + unentered docs (s.reachable ++ s.visiting) < fuel) :
    (∃ reachable, treeSearchLoop docs fuel s = .ok reachable ∧ Settled docs reachable
        ∧ root ∈ reachable ∧ ∀ digest ∈ reachable, ReflTransGen (Child docs) root digest)
      ∨ (∃ message, treeSearchLoop docs fuel s = .error (.valueError message))
        ∧ ∃ digest, ReflTransGen (Child docs) root digest ∧ Broken docs digest := by
  induction fuel generalizing s with
  | zero => omega
  | succ fuel ih =>
    obtain ⟨reachable, visiting, stack⟩ := s
    match stack with
    | [] =>
      refine .inl ⟨reachable, rfl, h.settled, ?_, h.found⟩
      exact h.kept.resolve_right not_mem_nil
    | (digest, true) :: stack =>
      have hsub : reachable ++ visiting
          ⊆ digest :: reachable ++ visiting.filter (· ≠ digest) := by
        intro other hother
        by_cases heq : other = digest
        · exact heq ▸ mem_cons_self
        · rcases mem_append.1 hother with hdone | hvisiting
          · exact mem_append_left _ (mem_cons_of_mem _ hdone)
          · exact mem_append_right _ (mem_filter.2 ⟨hvisiting, decide_eq_true heq⟩)
      have hanti := @unentered_anti docs _ _ hsub
      simp only [length_cons] at hfuel
      refine ih h.leave ?_
      dsimp only
      omega
    | (digest, false) :: stack =>
      have hroot := h.fromRoot _ mem_cons_self
      simp only [length_cons] at hfuel
      simp only [treeSearchLoop]
      by_cases hdone : digest ∈ reachable
      · rw [if_pos hdone]
        exact ih (h.skip hdone) (by dsimp only; omega)
      rw [if_neg hdone]
      by_cases hvisiting : digest ∈ visiting
      · rw [if_pos hvisiting]
        exact .inr ⟨⟨_, rfl⟩, digest, hroot, .inr (h.ancestor hvisiting)⟩
      rw [if_neg hvisiting]
      cases hplan : docs.lookup digest with
      | none => exact .inr ⟨⟨_, rfl⟩, digest, hroot, .inl hplan⟩
      | some plan =>
        by_cases hany : plan.childDigests.any (· ∈ digest :: visiting) = true
        · simp only [hany, if_true]
          exact .inr ⟨⟨_, rfl⟩, digest, hroot, .inr (h.cycle hplan hany)⟩
        · simp only [hany]
          refine ih (h.enter hplan) ?_
          have hnew : digest ∉ reachable ++ visiting := by simp [hdone, hvisiting]
          have hsub : digest :: (reachable ++ visiting) ⊆ reachable ++ digest :: visiting := by
            simp
          have hcost := unentered_enter hplan hnew
          have hanti := @unentered_anti docs _ _ hsub
          have hpushed := length_filter_le (fun child => decide (child ∉ reachable))
            plan.childDigests
          simp only [length_append, length_map, length_cons]
          omega

/-! ## What the check raises for -/

theorem not_self_of_acc {α : Type} {r : α → α → Prop} {a : α} (h : Acc r a) : ¬ r a a := by
  intro hself
  induction h with
  | intro b _ ih => exact ih b hself hself

/-- A settled digest is not broken. -/
theorem Settled.not_broken (h : Settled docs done) (hd : digest ∈ done) :
    ¬ Broken docs digest := by
  rintro (hnone | hcycle)
  · have hsome := (h digest hd).1
    rw [hnone] at hsome
    cases hsome
  · exact not_self_of_acc (h digest hd).2.2.transGen (Relation.transGen_swap.2 hcycle)

theorem Settled.reaches (h : Settled docs done) (hroot : root ∈ done)
    (hreach : ReflTransGen (Child docs) root digest) : digest ∈ done := by
  induction hreach with
  | refl => exact hroot
  | tail _ hstep ih => exact (h _ ih).2.1 _ hstep

/-- The check raises for what is broken in reach of the root and for what is out of its
reach. -/
theorem validateBranchSetTree_raises_iff {d : Digests} {root : BranchSetPlan} :
    (∃ message, validateBranchSetTree d root docs = .error (.valueError message)) ↔
      (∃ digest, ReflTransGen (Child docs) (d.branchSet root) digest ∧ Broken docs digest)
        ∨ ∃ entry ∈ docs, ¬ ReflTransGen (Child docs) (d.branchSet root) entry.1 := by
  have hfuel : 1 + unentered docs ([] ++ [])
      < 2 * docs.length + (docs.map (·.2.childDigests.length)).sum + 3 := by
    have hsum : unentered docs [] = (docs.map (·.2.childDigests.length)).sum + docs.length := by
      simp [unentered, sum_map_add]
    rw [append_nil, hsum]
    omega
  unfold validateBranchSetTree
  rcases treeSearchLoop_spec (searchInv_start (d.branchSet root)) hfuel with
    ⟨reachable, hok, hsettled, hroot, hfound⟩ | ⟨⟨message, herror⟩, hbroken⟩
  · have hno : ¬ ∃ digest, ReflTransGen (Child docs) (d.branchSet root) digest
        ∧ Broken docs digest := by
      rintro ⟨digest, hreach, hbad⟩
      exact hsettled.not_broken (hsettled.reaches hroot hreach) hbad
    have hmem : ∀ digest, digest ∈ reachable
        ↔ ReflTransGen (Child docs) (d.branchSet root) digest := fun digest =>
      ⟨hfound digest, hsettled.reaches hroot⟩
    rw [hok]
    by_cases hall : (docs.map (·.1)).all (· ∈ reachable) = true
    · have hreached : ∀ entry ∈ docs, ReflTransGen (Child docs) (d.branchSet root) entry.1 := by
        intro entry he
        exact (hmem _).1 (of_decide_eq_true (all_eq_true.1 hall _ (mem_map_of_mem he)))
      refine iff_of_false ?_ ?_
      · simp [bind, Except.bind, require, hall]
      · rintro (hbroken | ⟨entry, he, hunreached⟩)
        · exact hno hbroken
        · exact hunreached (hreached entry he)
    · have hmissed : ∃ entry ∈ docs, ¬ ReflTransGen (Child docs) (d.branchSet root) entry.1 := by
        simpa [hmem] using hall
      simp only [bind, Except.bind, require, hall, hmissed, or_true, iff_true]
      exact ⟨_, rfl⟩
  · rw [herror]
    exact iff_of_true ⟨message, rfl⟩ (.inl hbroken)

/-- Without a cycle, a root that everything else descends from reaches everything. -/
theorem reaches_of_referenced
    (hreferenced : ∀ entry ∈ docs, entry.1 ≠ root → ∃ parent, Child docs parent entry.1)
    (hacyclic : ∀ digest, ¬ TransGen (Child docs) digest digest) :
    ∀ entry ∈ docs, ReflTransGen (Child docs) root entry.1 := by
  let below (a b : {key // key ∈ docs.map Prod.fst}) : Prop := TransGen (Child docs) a.1 b.1
  have hirrefl : Std.Irrefl below := ⟨fun a => hacyclic a.1⟩
  have hwf : WellFounded below := Finite.wellFounded_of_trans_of_irrefl below
  have hall : ∀ key : {key // key ∈ docs.map Prod.fst}, ReflTransGen (Child docs) root key.1 := by
    intro key
    induction key using hwf.induction with
    | _ key ih =>
      by_cases heq : key.1 = root
      · rw [heq]
      · obtain ⟨entry, he, hkey⟩ := mem_map.1 key.2
        obtain ⟨parent, plan, hplan, hc⟩ := hreferenced entry he (hkey ▸ heq)
        have hstep : Child docs parent key.1 := hkey ▸ ⟨plan, hplan, hc⟩
        have hparent : parent ∈ docs.map Prod.fst := mem_map_of_mem (mem_of_lookup hplan)
        exact (ih ⟨parent, hparent⟩ (.single hstep)).tail hstep
  exact fun entry he => hall ⟨entry.1, mem_map_of_mem he⟩

/-- The document graph below a root has a cycle, or refers to a document that is missing. -/
def Defective (docs : BranchSetDocuments) (root : Digest) : Prop :=
  (∃ digest, TransGen (Child docs) digest digest)
    ∨ ∃ digest, (digest = root ∨ ∃ parent, Child docs parent digest) ∧ docs.lookup digest = none

theorem validateBranchSetTree_raises_iff_defective {d : Digests} {root : BranchSetPlan}
    (hreferenced : ∀ entry ∈ docs, entry.1 ≠ d.branchSet root →
      ∃ parent, Child docs parent entry.1) :
    (∃ message, validateBranchSetTree d root docs = .error (.valueError message))
      ↔ Defective docs (d.branchSet root) := by
  rw [validateBranchSetTree_raises_iff]
  constructor
  · rintro (⟨digest, hreach, hnone | hcycle⟩ | ⟨entry, he, hunreached⟩)
    · refine .inr ⟨digest, ?_, hnone⟩
      rcases hreach.cases_tail with heq | ⟨parent, -, hstep⟩
      · exact .inl heq
      · exact .inr ⟨parent, hstep⟩
    · exact .inl ⟨digest, hcycle⟩
    · left
      by_contra hacyclic
      exact hunreached (reaches_of_referenced hreferenced (not_exists.1 hacyclic) entry he)
  · intro hdefect
    by_contra hnone
    obtain ⟨hsound, hreached⟩ := not_or.1 hnone
    push Not at hsound hreached
    have hknown : ∀ {parent child}, Child docs parent child →
        ReflTransGen (Child docs) (d.branchSet root) parent := by
      rintro parent child ⟨plan, hplan, -⟩
      exact hreached _ (mem_of_lookup hplan)
    rcases hdefect with ⟨digest, hcycle⟩ | ⟨digest, rfl | ⟨parent, hstep⟩, hmissing⟩
    · obtain ⟨next, hstep, -⟩ := TransGen.head'_iff.1 hcycle
      exact hsound digest (hknown hstep) (.inr hcycle)
    · exact hsound _ .refl (.inl hmissing)
    · exact hsound digest ((hknown hstep).tail hstep) (.inl hmissing)

end Search

/-! ## Trees of documents -/

section Trees

variable {d : Digests} {decision : BranchSetDecision}

/-- The works that a decision names. -/
def BranchSetDecision.works (decision : BranchSetDecision) : List WorkIdentity :=
  decision.plans.flatMap fun plan => plan.parentWork :: plan.branches.map (·.work)

/-- What is assumed of SHA-256 on the documents of a decision: no two of them have one digest,
and a digest is only named in documents made after it. -/
structure CollisionFree (d : Digests) (decision : BranchSetDecision) : Prop where
  branchSets : ∀ p ∈ decision.plans, ∀ q ∈ decision.plans, d.branchSet p = d.branchSet q → p = q
  works : ∀ v ∈ decision.works, ∀ w ∈ decision.works, d.work v = d.work w → v = w
  grounded : ∃ made : Digest → Nat, ∀ work ∈ decision.works, ∀ binding,
    work.branchBinding = some binding → made binding.parentWorkId < made (d.work work)

/-- A coordination branch of a document refers to another document. -/
def Refers (d : Digests) (site : BranchSetPlan × CoordinationBranchPlan) (child : BranchSetPlan) :
    Prop :=
  .coordination site.2 ∈ site.1.branches ∧ site.2.branchSetSha256 = d.branchSet child

/-- The documents of a decision are a tree below its plan. -/
structure IsTree (d : Digests) (decision : BranchSetDecision) : Prop where
  /-- Every document supplied is reached from the plan. -/
  rooted : ∀ plan ∈ decision.plans, ReflTransGen (Child (decision.branchSetDocuments d))
    (d.branchSet decision.plan) (d.branchSet plan)
  /-- What is reached from the plan is a document supplied. -/
  supplied : ∀ digest, ReflTransGen (Child (decision.branchSetDocuments d))
    (d.branchSet decision.plan) digest → ∃ plan ∈ decision.plans, d.branchSet plan = digest
  acyclic : ∀ digest, ¬ TransGen (Child (decision.branchSetDocuments d)) digest digest
  root : ∀ plan ∈ decision.plans, d.branchSet decision.plan ∉ plan.childDigests
  oneReference : ∀ child ∈ decision.branchSets, child ≠ decision.plan →
    ∃! site : BranchSetPlan × CoordinationBranchPlan, site.1 ∈ decision.plans ∧ Refers d site child
  /-- Every selection supplied is the one of a branch. -/
  selections : ∀ selection ∈ decision.selections, ∃ plan ∈ decision.plans,
    ∃ branch ∈ plan.branches, branch.artifactSelection.selectionSha256 = d.selection selection
  /-- No two leaves have one work. -/
  leaves : ∀ p ∈ decision.plans, ∀ q ∈ decision.plans, ∀ a b,
    .leaf a ∈ p.branches → .leaf b ∈ q.branches →
      d.work a.workflowPlan.work = d.work b.workflowPlan.work → p = q ∧ a = b

variable {plan : BranchSetPlan}

theorem mem_childDigests {digest : Digest} :
    digest ∈ plan.childDigests ↔
      ∃ branch, .coordination branch ∈ plan.branches ∧ branch.branchSetSha256 = digest := by
  unfold BranchSetPlan.childDigests
  rw [mem_filterMap]
  constructor
  · rintro ⟨branch, hb, hdigest⟩
    cases branch with
    | leaf branch => cases hdigest
    | coordination branch => exact ⟨branch, hb, Option.some.inj hdigest⟩
  · rintro ⟨branch, hb, rfl⟩
    exact ⟨.coordination branch, hb, rfl⟩

variable {a b branch : BranchDeclaration} {child : BranchSetPlan}

theorem branch_work_mem (hp : plan ∈ decision.plans) (hb : branch ∈ plan.branches) :
    branch.work ∈ decision.works :=
  mem_flatMap.2 ⟨plan, hp, mem_cons_of_mem _ (mem_map_of_mem hb)⟩

theorem parentWork_mem (hp : plan ∈ decision.plans) : plan.parentWork ∈ decision.works :=
  mem_flatMap.2 ⟨plan, hp, mem_cons_self⟩

/-- Under its digest a document is found. -/
theorem CollisionFree.lookup (hfree : CollisionFree d decision) (hp : plan ∈ decision.plans) :
    (decision.branchSetDocuments d).lookup (d.branchSet plan) = some plan := by
  obtain ⟨found, hfound⟩ := exists_lookup_of_mem
    (mem_map_of_mem (f := fun plan => (d.branchSet plan, plan)) hp)
  obtain ⟨other, hother, heq⟩ := mem_map.1 (mem_of_lookup hfound)
  obtain ⟨hdigest, rfl⟩ := Prod.mk.inj heq
  rw [← hfree.branchSets _ hother _ hp hdigest]
  exact hdigest ▸ hfound

/-- What the validators of a decision say about one branch: its work names the work of the
parent and the branch, and a nested branch set is about that work. -/
theorem branch_of_verify (h : decision.verify d = .ok ()) (hp : plan ∈ decision.plans)
    (hb : branch ∈ plan.branches) : (∃ binding, branch.work.branchBinding = some binding
        ∧ binding.parentWorkId = d.work plan.parentWork ∧ binding.branchId = branch.branchId)
      ∧ ∀ nested, branch = .coordination nested →
        ∃ child, (decision.branchSetDocuments d).lookup nested.branchSetSha256 = some child
          ∧ child.parentWork = nested.work := by
  simp only [BranchSetDecision.verify, bind_eq_ok, require_eq_ok, forM_eq_ok] at h
  obtain ⟨_, -, _, -, _, -, _, -, _, -, _, -, hplans⟩ := h
  have hplan := hplans plan hp
  have hdocs : decision.branchSetDocuments d ≠ [] := by
    simp [BranchSetDecision.branchSetDocuments, BranchSetDecision.plans]
  simp only [validateBranchSetPlan, if_neg hdocs, bind_eq_ok, forM_eq_ok] at hplan
  obtain ⟨_, hbranches, -⟩ := hplan
  have hbranch := hbranches branch hb
  simp only [validateBranch, bind_eq_ok, require_eq_ok] at hbranch
  obtain ⟨selection, -, _, -, _, -, _, hbinding, hchild⟩ := hbranch
  constructor
  · rw [validateBinding] at hbinding
    split at hbinding
    · cases hbinding
    · rename_i binding hbind
      rw [require_eq_ok, decide_eq_true_iff] at hbinding
      exact ⟨binding, hbind, hbinding.1, hbinding.2.1⟩
  · rintro nested rfl
    simp only [validateChild] at hchild
    split at hchild
    · cases hchild
    · rename_i child hlookup
      rw [require_eq_ok, decide_eq_true_iff] at hchild
      exact ⟨child, hlookup, hchild⟩

/-- What the checks of a decision before the search say about its references. -/
theorem references_of_verify (h : decision.verify d = .ok ()) :
    (∀ digest, (∃ plan ∈ decision.plans, digest ∈ plan.childDigests) ↔
        digest ∈ decision.branchSets.map d.branchSet ∧ digest ≠ d.branchSet decision.plan)
      ∧ (∀ selection ∈ decision.selections, ∃ plan ∈ decision.plans, ∃ branch ∈ plan.branches,
        branch.artifactSelection.selectionSha256 = d.selection selection)
      ∧ validateBranchSetTree d decision.plan (decision.branchSetDocuments d) = .ok () := by
  simp only [BranchSetDecision.verify, bind_eq_ok, require_eq_ok, decide_eq_true_iff] at h
  obtain ⟨_, -, _, -, _, -, _, hselections, _, hchildren, _, htree, -⟩ := h
  refine ⟨fun digest => ?_, fun selection hs => ?_, htree⟩
  · rw [← mem_flatMap, ← mem_dedup, hchildren.mem_iff, mem_filter,
      decide_eq_true_iff]
  · have hmem := hselections.mem_iff.2 (mem_map_of_mem hs)
    obtain ⟨plan, hp, hbranch⟩ := mem_flatMap.1 (mem_dedup.1 hmem)
    obtain ⟨branch, hb, heq⟩ := mem_map.1 hbranch
    exact ⟨plan, hp, branch, hb, heq⟩

/-- An accepted decision, with an order in which its works have been made. -/
structure Ordered (d : Digests) (decision : BranchSetDecision) (made : Digest → Nat) : Prop where
  free : CollisionFree d decision
  verified : decision.verify d = .ok ()
  grounded : ∀ work ∈ decision.works, ∀ binding, work.branchBinding = some binding →
    made binding.parentWorkId < made (d.work work)

namespace Ordered

variable {made : Digest → Nat} {p q : BranchSetPlan}
  {site : BranchSetPlan × CoordinationBranchPlan} (h : Ordered d decision made)

include h

/-- A nested document is about the work of the branch that refers to it. -/
theorem parentWork_of_refers (hsite : site.1 ∈ decision.plans) (hchild : child ∈ decision.plans)
    (hrefers : Refers d site child) : child.parentWork = site.2.work := by
  obtain ⟨hbranch, hdigest⟩ := hrefers
  obtain ⟨found, hfound, hwork⟩ := (branch_of_verify h.verified hsite hbranch).2 _ rfl
  rw [hdigest, h.free.lookup hchild] at hfound
  cases hfound
  exact hwork

/-- Branches with one work name one parent work and one branch. -/
theorem branch_of_work (hp : p ∈ decision.plans) (hq : q ∈ decision.plans) (ha : a ∈ p.branches)
    (hb : b ∈ q.branches) (hwork : a.work = b.work) :
    p.parentWork = q.parentWork ∧ a.branchId = b.branchId := by
  obtain ⟨binding, hbind, hparent, hid⟩ := (branch_of_verify h.verified hp ha).1
  obtain ⟨binding', hbind', hparent', hid'⟩ := (branch_of_verify h.verified hq hb).1
  rw [hwork, hbind'] at hbind
  cases hbind
  refine ⟨h.free.works _ (parentWork_mem hp) _ (parentWork_mem hq) ?_, hid.symm.trans hid'⟩
  exact hparent.symm.trans hparent'

/-- The branches of one document differ in their ids. -/
theorem branch_of_branchId (hp : plan ∈ decision.plans) (ha : a ∈ plan.branches)
    (hb : b ∈ plan.branches) (hid : a.branchId = b.branchId) : a = b :=
  inj_on_of_nodup_map (nodup_of_decision h.verified hp) ha hb hid

/-- A document other than the plan has a reference. -/
theorem exists_refers (hchild : child ∈ decision.plans) (hne : child ≠ decision.plan) :
    ∃ site : BranchSetPlan × CoordinationBranchPlan, site.1 ∈ decision.plans
      ∧ Refers d site child := by
  have hnested : child ∈ decision.branchSets := (mem_cons.1 hchild).resolve_left hne
  have hdigest : d.branchSet child ≠ d.branchSet decision.plan := fun heq =>
    hne (h.free.branchSets _ hchild _ mem_cons_self heq)
  obtain ⟨plan, hp, hmem⟩ := ((references_of_verify h.verified).1 _).2
    ⟨mem_map_of_mem hnested, hdigest⟩
  obtain ⟨branch, hb, heq⟩ := mem_childDigests.1 hmem
  exact ⟨(plan, branch), hp, hb, heq⟩

/-- The work of a nested document is made after the work of its parent. -/
theorem made_of_refers (hsite : site.1 ∈ decision.plans) (hchild : child ∈ decision.plans)
    (hrefers : Refers d site child) :
    made (d.work site.1.parentWork) < made (d.work child.parentWork) := by
  obtain ⟨binding, hbind, hparent, -⟩ := (branch_of_verify h.verified hsite hrefers.1).1
  have hlt := h.grounded _ (branch_work_mem hsite hrefers.1) binding hbind
  rw [hparent] at hlt
  rw [h.parentWork_of_refers hsite hchild hrefers]
  exact hlt

/-- A document other than the plan is about a work made after that of the plan. -/
theorem made_plan_lt (hp : p ∈ decision.plans) (hne : p ≠ decision.plan) :
    made (d.work decision.plan.parentWork) < made (d.work p.parentWork) := by
  -- up the references, which are made earlier and earlier
  induction hn : made (d.work p.parentWork) using Nat.strong_induction_on generalizing p with
  | _ n ih =>
    obtain ⟨site, hsite, hrefers⟩ := h.exists_refers hp hne
    have hlt := h.made_of_refers hsite hp hrefers
    rw [hn] at hlt
    by_cases heq : site.1 = decision.plan
    · rwa [heq] at hlt
    · exact (ih _ hlt hsite heq rfl).trans hlt

/-- Documents about one work are one document. -/
theorem plan_of_parentWork (hp : p ∈ decision.plans) (hq : q ∈ decision.plans)
    (hwork : p.parentWork = q.parentWork) : p = q := by
  induction hn : made (d.work p.parentWork) using Nat.strong_induction_on generalizing p q with
  | _ n ih =>
    by_cases hproot : p = decision.plan
    · by_contra hne
      have hlt := h.made_plan_lt hq fun heq => hne (hproot.trans heq.symm)
      rw [← hwork, hproot] at hlt
      exact hlt.false
    by_cases hqroot : q = decision.plan
    · have hlt := h.made_plan_lt hp hproot
      rw [hwork, hqroot] at hlt
      exact hlt.false.elim
    obtain ⟨⟨p', a⟩, hp', hpa⟩ := h.exists_refers hp hproot
    obtain ⟨⟨q', b⟩, hq', hqb⟩ := h.exists_refers hq hqroot
    have hbranches : a.work = b.work := by
      rw [← h.parentWork_of_refers hp' hp hpa, hwork]
      exact h.parentWork_of_refers hq' hq hqb
    obtain ⟨hparents, hid⟩ := h.branch_of_work hp' hq' hpa.1 hqb.1 hbranches
    obtain rfl := ih _ (hn ▸ h.made_of_refers hp' hp hpa) hp' hq' hparents rfl
    have hsame := h.branch_of_branchId hp' hpa.1 hqb.1 hid
    cases hsame
    exact h.free.branchSets _ hp _ hq (hpa.2.symm.trans hqb.2)

/-- The work of a branch determines the branch and its document. -/
theorem site_of_work (hp : p ∈ decision.plans) (hq : q ∈ decision.plans) (ha : a ∈ p.branches)
    (hb : b ∈ q.branches) (hwork : d.work a.work = d.work b.work) : p = q ∧ a = b := by
  have hsame := h.free.works _ (branch_work_mem hp ha) _ (branch_work_mem hq hb) hwork
  obtain ⟨hparents, hid⟩ := h.branch_of_work hp hq ha hb hsame
  obtain rfl := h.plan_of_parentWork hp hq hparents
  exact ⟨rfl, h.branch_of_branchId hp ha hb hid⟩

end Ordered

/-- The documents of an accepted decision are a tree. -/
theorem isTree_of_verify (hfree : CollisionFree d decision) (h : decision.verify d = .ok ()) :
    IsTree d decision := by
  obtain ⟨made, hmade⟩ := hfree.grounded
  have hordered : Ordered d decision made := ⟨hfree, h, hmade⟩
  obtain ⟨hreferences, hselections, hsearch⟩ := references_of_verify h
  have hraises : ¬ ∃ message, validateBranchSetTree d decision.plan
      (decision.branchSetDocuments d) = .error (.valueError message) := by
    rw [hsearch]
    rintro ⟨_, herror⟩
    cases herror
  rw [validateBranchSetTree_raises_iff, not_or] at hraises
  obtain ⟨hsound, hreached⟩ := hraises
  push Not at hsound hreached
  refine ⟨fun plan hp => hreached _ (mem_map_of_mem hp), fun digest hreach => ?_,
    fun digest hcycle => ?_, fun plan hp hroot => ?_, fun child hchild hne => ?_, hselections,
    fun p hp q hq a b ha hb hwork => ?_⟩
  · have hsome := fun hnone => hsound digest hreach (.inl hnone)
    obtain ⟨plan, hplan⟩ := Option.ne_none_iff_exists'.1 hsome
    obtain ⟨found, hfound, heq⟩ := mem_map.1 (mem_of_lookup hplan)
    exact ⟨found, hfound, congrArg Prod.fst heq⟩
  · obtain ⟨_, ⟨plan, hplan, -⟩, -⟩ := TransGen.head'_iff.1 hcycle
    exact hsound digest (hreached _ (mem_of_lookup hplan)) (.inr hcycle)
  · exact ((hreferences _).1 ⟨plan, hp, hroot⟩).2 rfl
  · have hmem : child ∈ decision.plans := mem_cons_of_mem _ hchild
    obtain ⟨site, hsite, hrefers⟩ := hordered.exists_refers hmem hne
    refine ⟨site, ⟨hsite, hrefers⟩, ?_⟩
    rintro other ⟨hother, hrefers'⟩
    have hwork : other.2.work = site.2.work := by
      rw [← hordered.parentWork_of_refers hother hmem hrefers']
      exact hordered.parentWork_of_refers hsite hmem hrefers
    obtain ⟨hplan, hbranch⟩ := hordered.site_of_work hother hsite hrefers'.1 hrefers.1
      (congrArg d.work hwork)
    exact Prod.ext hplan (BranchDeclaration.coordination.inj hbranch)
  · obtain ⟨hplan, hleaf⟩ := hordered.site_of_work hp hq ha hb hwork
    exact ⟨hplan, BranchDeclaration.leaf.inj hleaf⟩

/-- Accepted decisions are trees, and the check of the tree raises exactly for a cycle or a
missing document when every document supplied is referenced, as the checks before it ensure;
without them it also raises for a document that is out of reach. -/
theorem accepted_decisions_are_trees (d : Digests) :
    (∀ decision, CollisionFree d decision → decision.verify d = .ok () → IsTree d decision)
      ∧ ∀ root docs,
        ((∃ message, validateBranchSetTree d root docs = .error (.valueError message)) ↔
          (∃ digest, ReflTransGen (Child docs) (d.branchSet root) digest ∧ Broken docs digest)
            ∨ ∃ entry ∈ docs, ¬ ReflTransGen (Child docs) (d.branchSet root) entry.1)
        ∧ ((∀ entry ∈ docs, entry.1 ≠ d.branchSet root → ∃ parent, Child docs parent entry.1) →
          ((∃ message, validateBranchSetTree d root docs = .error (.valueError message))
            ↔ Defective docs (d.branchSet root))) := by
  refine ⟨fun decision hfree h => isTree_of_verify hfree h, fun root docs => ⟨?_, ?_⟩⟩
  · exact validateBranchSetTree_raises_iff
  · exact validateBranchSetTree_raises_iff_defective

open Sample in
/-- The decision of two levels is a tree. -/
theorem twoLevels_isTree : IsTree labelDigests twoLevels := by
  refine (accepted_decisions_are_trees labelDigests).1 twoLevels ⟨?_, ?_, ?_⟩ (by decide)
  · decide
  · decide
  · refine ⟨fun digest => if digest = ['w'] then 0 else if digest = ['c'] then 1 else 2, ?_⟩
    decide

end Trees

end Riverhog.Stove0
