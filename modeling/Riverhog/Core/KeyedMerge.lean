import Riverhog.Core.Python

/-!
# Merging sequences with keys

Items in ascending order of a key, and the merge of two such sequences through a
dictionary: an item of the second under a key of the first has to be the same item.
The result is the sequence in ascending order with the items of both, so whatever is
true of unions of sets is true of merges.
-/

namespace Riverhog.Core

open List

/-! ## Agreement -/

section

variable {α κ : Type*} {key : α → κ} {a b : List α}

/-- No key stands for two different items. -/
def Agree (key : α → κ) (a b : List α) : Prop := ∀ x ∈ a, ∀ y ∈ b, key x = key y → x = y

theorem Agree.symm (h : Agree key a b) : Agree key b a :=
  fun x hx y hy hk => (h y hy x hx hk.symm).symm

theorem nodup_map_append_singleton {d : List α} (hd : (d.map key).Nodup) {x : α}
    (hx : key x ∉ d.map key) : ((d ++ [x]).map key).Nodup := by
  rw [map_append, nodup_append]
  refine ⟨hd, nodup_singleton _, fun k hk k' hk' hkk => hx ?_⟩
  rw [map_singleton, mem_singleton] at hk'
  exact hk' ▸ hkk ▸ hk

end

variable {α κ ε : Type} [LinearOrder κ]

/-! ## Ascending sequences -/

section

variable {key : α → κ} {a r r' : List α}

/-- Strictly ascending keys. -/
def Ascending (key : α → κ) (l : List α) : Prop := l.Pairwise fun a b => key a < key b

theorem Ascending.nodup (h : Ascending key a) : (a.map key).Nodup := by
  rw [Nodup, pairwise_map]
  exact h.imp fun hlt => hlt.ne

theorem agree_self (h : Ascending key a) : Agree key a a :=
  fun _ hx _ hy hk => inj_on_of_nodup_map h.nodup hx hy hk

/-- An ascending sequence is determined by its items. -/
theorem Ascending.ext (h : Ascending key r) (h' : Ascending key r')
    (hmem : ∀ x, x ∈ r ↔ x ∈ r') : r = r' := by
  have hperm : r.Perm r' :=
    (perm_ext_iff_of_nodup h.nodup.of_map h'.nodup.of_map).2 hmem
  refine hperm.eq_of_pairwise ?_ h h'
  exact fun x y _ _ hxy hyx => absurd (hxy.trans hyx) (lt_irrefl _)

end

/-- Ascending sequences whose items correspond to each other do so in order. -/
theorem forall₂_of_ascending {α β : Type} {key : α → κ} {key' : β → κ} {R : α → β → Prop}
    (hR : ∀ x y, R x y → key x = key' y) {a : List α} {b : List β} (ha : Ascending key a)
    (hb : Ascending key' b) (hab : ∀ x ∈ a, ∃ y ∈ b, R x y) (hba : ∀ y ∈ b, ∃ x ∈ a, R x y) :
    Forall₂ R a b := by
  induction a generalizing b with
  | nil =>
    cases b with
    | nil => exact .nil
    | cons y b => exact absurd (hba y mem_cons_self) (by simp)
  | cons x a ih =>
    cases b with
    | nil => exact absurd (hab x mem_cons_self) (by simp)
    | cons y b =>
      rw [Ascending, pairwise_cons] at ha hb
      -- The first items have the least keys, so they correspond to each other.
      have hxy : R x y := by
        obtain ⟨y', hy', hxy'⟩ := hab x mem_cons_self
        obtain ⟨x', hx', hx'y⟩ := hba y mem_cons_self
        rcases mem_cons.1 hy' with rfl | hy'
        · exact hxy'
        rcases mem_cons.1 hx' with rfl | hx'
        · exact hx'y
        have h₁ := hb.1 y' hy'
        have h₂ := ha.1 x' hx'
        rw [hR x' y hx'y, hR x y' hxy'] at h₂
        exact absurd (h₁.trans h₂) (lt_irrefl _)
      refine .cons hxy (ih ha.2 hb.2 (fun x' hx' => ?_) fun y' hy' => ?_)
      · obtain ⟨y', hy', hR'⟩ := hab x' (mem_cons_of_mem _ hx')
        rcases mem_cons.1 hy' with rfl | hy'
        · exact absurd ((hR _ _ hxy).trans (hR _ _ hR').symm) (ha.1 x' hx').ne
        · exact ⟨y', hy', hR'⟩
      · obtain ⟨x', hx', hR'⟩ := hba y' (mem_cons_of_mem _ hy')
        rcases mem_cons.1 hx' with rfl | hx'
        · exact absurd ((hR _ _ hxy).symm.trans (hR _ _ hR')) (hb.1 y' hy').ne
        · exact ⟨x', hx', hR'⟩

/-- What corresponding items have in common, all along. -/
theorem map_eq_of_forall₂ {α β γ : Type} {R : α → β → Prop} {g : α → γ} {g' : β → γ}
    (hR : ∀ x y, R x y → g' y = g x) {a : List α} {b : List β} (h : Forall₂ R a b) :
    b.map g' = a.map g := by
  induction h with
  | nil => rfl
  | cons hxy _ ih => rw [map_cons, map_cons, hR _ _ hxy, ih]

/-! ## Dictionaries -/

/-- `d[key(x)] = x` for a dictionary as the sequence of its values. -/
def assign (key : α → κ) (d : List α) (x : α) : List α :=
  if key x ∈ d.map key then d.map fun y => if key y = key x then x else y else d ++ [x]

/-- `{key(x): x for x in items}`. -/
def dictOf (key : α → κ) (items : List α) : List α := items.foldl (assign key) []

section

variable {key : α → κ} {a : List α}

/-- Assigning an item that is there changes nothing. -/
theorem assign_of_mem {d : List α} (hn : (d.map key).Nodup) {x : α} (hx : x ∈ d) :
    assign key d x = d := by
  rw [assign, if_pos (mem_map_of_mem hx)]
  refine (map_congr_left fun y hy => ?_).trans (map_id d)
  split
  · exact inj_on_of_nodup_map hn hx hy (Eq.symm ‹_›)
  · rfl

theorem assign_of_notMem {d : List α} {x : α} (hx : key x ∉ d.map key) :
    assign key d x = d ++ [x] := if_neg hx

/-- A dictionary of an ascending sequence has its values in that order. -/
theorem dictOf_eq (h : Ascending key a) : dictOf key a = a := by
  have hfold (rest done : List α) (hd : ((done ++ rest).map key).Nodup) :
      rest.foldl (assign key) done = done ++ rest := by
    induction rest generalizing done with
    | nil => exact (append_nil done).symm
    | cons x rest ih =>
      have hx : key x ∉ done.map key := by
        rw [map_append, nodup_append] at hd
        exact fun hmem => hd.2.2 _ hmem _ mem_cons_self rfl
      rw [foldl_cons, assign_of_notMem hx, ih (done ++ [x]) (by simpa using hd),
        append_assoc, singleton_append]
  exact hfold a [] h.nodup

end

/-! ## The merge -/

variable [DecidableEq α]

/-- Assign every item, or raise where another one stands under its key. -/
def mergeInto (key : α → κ) (conflict : ε) : List α → List α → Except ε (List α)
  | d, [] => .ok d
  | d, x :: rest =>
    match d.find? fun y => key y = key x with
    | some existing =>
      if existing ≠ x then .error conflict else mergeInto key conflict (assign key d x) rest
    | none => mergeInto key conflict (assign key d x) rest

/-- Merge two sequences of items by their key and sort the result. -/
def mergeKeyed (key : α → κ) (conflict : ε) (current candidate : List α) :
    Except ε (List α) := do
  let merged ← mergeInto key conflict (dictOf key current) candidate
  .ok (sortedBy key merged)

variable {key : α → κ} {a b r : List α} {conflict : ε}

/-- What the loop leaves in the dictionary. -/
theorem mergeInto_eq_ok {d : List α} (hd : (d.map key).Nodup)
    (h : mergeInto key conflict d b = .ok r) :
    Agree key d b ∧ (r.map key).Nodup ∧ ∀ x, x ∈ r ↔ x ∈ d ∨ x ∈ b := by
  induction b generalizing d with
  | nil =>
    cases h
    exact ⟨fun _ _ _ hy => absurd hy not_mem_nil, hd, fun x => by simp⟩
  | cons y rest ih =>
    rw [mergeInto] at h
    split at h
    · rename_i existing hfind
      split at h
      · cases h
      · rename_i heq
        obtain rfl : existing = y := not_not.1 heq
        have hy : existing ∈ d := mem_of_find?_eq_some hfind
        rw [assign_of_mem hd hy] at h
        obtain ⟨hagree, hnodup, hmem⟩ := ih hd h
        refine ⟨fun x hx z hz hk => ?_, hnodup, fun x => ?_⟩
        · rcases mem_cons.1 hz with rfl | hz
          · exact inj_on_of_nodup_map hd hx hy hk
          · exact hagree x hx z hz hk
        · rw [hmem, mem_cons]
          exact ⟨fun hx => hx.imp_right .inr,
            fun hx => hx.elim .inl fun hx => hx.elim (fun he => .inl (he ▸ hy)) .inr⟩
    · rename_i hfind
      have hy : key y ∉ d.map key := by
        rintro hmem
        obtain ⟨x, hx, hk⟩ := mem_map.1 hmem
        exact absurd hk (by simpa using find?_eq_none.1 hfind x hx)
      rw [assign_of_notMem hy] at h
      obtain ⟨hagree, hnodup, hmem⟩ := ih (nodup_map_append_singleton hd hy) h
      refine ⟨fun x hx z hz hk => ?_, hnodup, fun x => ?_⟩
      · rcases mem_cons.1 hz with rfl | hz
        · exact absurd (mem_map.2 ⟨x, hx, hk⟩) hy
        · exact hagree x (mem_append_left _ hx) z hz hk
      · rw [hmem, mem_append, mem_singleton, mem_cons, or_assoc]

/-- The loop raises only at a conflict. -/
theorem mergeInto_of_agree (conflict : ε) {d : List α} (hd : (d.map key).Nodup)
    (hb : (b.map key).Nodup) (h : Agree key d b) : ∃ r, mergeInto key conflict d b = .ok r := by
  induction b generalizing d with
  | nil => exact ⟨d, rfl⟩
  | cons y rest ih =>
    rw [map_cons, nodup_cons] at hb
    rw [mergeInto]
    split
    · rename_i existing hfind
      have hexisting : existing ∈ d := mem_of_find?_eq_some hfind
      have hkey := find?_some hfind
      obtain rfl : existing = y :=
        h existing hexisting y mem_cons_self (of_decide_eq_true hkey)
      rw [if_neg (not_not.2 rfl), assign_of_mem hd hexisting]
      exact ih hd hb.2 fun x hx z hz => h x hx z (mem_cons_of_mem _ hz)
    · rename_i hfind
      have hy : key y ∉ d.map key := by
        rintro hmem
        obtain ⟨x, hx, hk⟩ := mem_map.1 hmem
        exact absurd hk (by simpa using find?_eq_none.1 hfind x hx)
      rw [assign_of_notMem hy]
      refine ih (nodup_map_append_singleton hd hy) hb.2 fun x hx z hz hk => ?_
      rcases mem_append.1 hx with hx | hx
      · exact h x hx z (mem_cons_of_mem _ hz) hk
      · rw [mem_singleton.1 hx] at hk
        exact absurd (mem_map.2 ⟨z, hz, hk.symm⟩) hb.1

/-- The merge of two ascending sequences is the ascending sequence of the items of
both, and it raises exactly where they disagree. -/
theorem mergeKeyed_eq_ok_iff (ha : Ascending key a) (hb : Ascending key b) :
    mergeKeyed key conflict a b = .ok r ↔
      Agree key a b ∧ Ascending key r ∧ ∀ x, x ∈ r ↔ x ∈ a ∨ x ∈ b := by
  have hsorted {d : List α} (hd : (d.map key).Nodup) (hmem : ∀ x, x ∈ d ↔ x ∈ a ∨ x ∈ b) :
      Ascending key (sortedBy key d) ∧ ∀ x, x ∈ sortedBy key d ↔ x ∈ a ∨ x ∈ b :=
    ⟨pairwise_lt_sortedBy key hd, fun x => (sortedBy_perm key d).mem_iff.trans (hmem x)⟩
  rw [mergeKeyed, dictOf_eq ha]
  constructor
  · intro h
    obtain ⟨d, hd, h⟩ := bind_eq_ok.1 h
    cases h
    obtain ⟨hagree, hnodup, hmem⟩ := mergeInto_eq_ok ha.nodup hd
    exact ⟨hagree, hsorted hnodup hmem⟩
  · rintro ⟨hagree, hr, hmem⟩
    obtain ⟨d, hd⟩ := mergeInto_of_agree conflict ha.nodup hb.nodup hagree
    obtain ⟨-, hnodup, hdmem⟩ := mergeInto_eq_ok ha.nodup hd
    have hs := hsorted hnodup hdmem
    rw [hd]
    exact congrArg Except.ok (hs.1.ext hr fun x => (hs.2 x).trans (hmem x).symm)

/-- Sequences that agree can be merged. -/
theorem exists_mergeKeyed (conflict : ε) (ha : Ascending key a) (hb : Ascending key b)
    (h : Agree key a b) : ∃ r, mergeKeyed key conflict a b = .ok r := by
  obtain ⟨d, hd⟩ := mergeInto_of_agree conflict ha.nodup hb.nodup h
  refine ⟨sortedBy key d, ?_⟩
  rw [mergeKeyed, dictOf_eq ha, hd]
  rfl

end Riverhog.Core
