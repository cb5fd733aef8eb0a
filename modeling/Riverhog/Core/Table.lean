import Mathlib.Algebra.BigOperators.Group.List.Basic
import Mathlib.Algebra.GroupWithZero.Nat
import Mathlib.Data.List.Nodup

/-!
# Tables with a primary key

The rows of one database table under their primary key, as the statements of a
service read and change them: lookup and deletion by key, insertion, a change of one
row, deletion and sums under a condition. A key never repeats, so a change of one row
changes every sum by that row alone.
-/

namespace Riverhog.Core

open List

/-- The rows of a table whose primary key is `key`. -/
structure Table {α κ : Type*} (key : α → κ) where
  rows : List α
  nodup : (rows.map key).Nodup

namespace Table

variable {α κ : Type*} {key : α → κ}

variable {t t' : Table key} {r : α} {k : κ}

@[ext] theorem ext (h : t.rows = t'.rows) : t = t' := by
  cases t
  cases t'
  cases h
  rfl

section

variable (t : Table key)

/-- The keys in use. -/
def keys : List κ := t.rows.map key

/-- The table without rows. -/
def empty : Table key := ⟨[], nodup_nil⟩

/-- The sum of a column. -/
def sum (amount : α → Nat) : Nat := (t.rows.map amount).sum

section

variable (p : α → Bool)

/-- The sum of a column over the rows that meet a condition. -/
def sumWhere (amount : α → Nat) : Nat :=
  t.sum fun r => if p r then amount r else 0

/-- Delete the rows that meet a condition. -/
def deleteWhere : Table key where
  rows := t.rows.filter fun r => !p r
  nodup := t.nodup.sublist (filter_sublist.map key)

/-- Every row lies on one side of a condition. -/
theorem sum_deleteWhere (amount : α → Nat) :
    (t.deleteWhere p).sum amount + t.sumWhere p amount = t.sum amount := by
  obtain ⟨rows, hn⟩ := t
  simp only [sum, sumWhere, deleteWhere]
  clear hn
  induction rows with
  | nil => rfl
  | cons r rows ih =>
    cases hp : p r <;>
    · simp only [filter_cons, hp, Bool.not_true, Bool.not_false, Bool.false_eq_true, if_false,
        if_true, map_cons, sum_cons]
      omega

theorem sumWhere_eq_sum_filter (amount : α → Nat) :
    t.sumWhere p amount = ((t.rows.filter p).map amount).sum := by
  obtain ⟨rows, hn⟩ := t
  simp only [sum, sumWhere]
  clear hn
  induction rows with
  | nil => rfl
  | cons r rows ih => cases hp : p r <;> simp [hp, ih]

/-- The deleted keys and the kept ones are the keys of the table. -/
theorem keys_deleteWhere :
    t.keys.Perm ((t.rows.filter p).map key ++ (t.deleteWhere p).keys) := by
  rw [keys, keys, deleteWhere, ← map_append]
  exact ((filter_append_perm p t.rows).map key).symm

end

theorem sum_congr {f g : α → Nat} (h : ∀ r ∈ t.rows, f r = g r) :
    t.sum f = t.sum g := by
  rw [sum, sum, List.map_congr_left h]

theorem sum_add (f g : α → Nat) : (t.sum fun r => f r + g r) = t.sum f + t.sum g := sum_map_add

/-- A second condition splits a sum under the first. -/
theorem sumWhere_and (p q : α → Bool) (amount : α → Nat) :
    t.sumWhere (fun r => p r && q r) amount + t.sumWhere (fun r => p r && !q r) amount =
      t.sumWhere p amount := by
  rw [sumWhere, sumWhere, sumWhere, ← sum_add]
  refine t.sum_congr fun r _ => ?_
  cases p r <;> cases q r <;> simp

/-- A condition splits a sum. -/
theorem sumWhere_add_sumWhere_not (p : α → Bool) (amount : α → Nat) :
    t.sumWhere p amount + t.sumWhere (fun r => !p r) amount = t.sum amount :=
  t.sumWhere_and (fun _ => true) p amount

end

variable {p : α → Bool} {amount : α → Nat} {f : α → α} {k' : κ}

theorem sum_eq_zero_iff : t.sum amount = 0 ↔ ∀ r ∈ t.rows, amount r = 0 := by
  rw [sum, List.sum_eq_zero_iff_forall_eq_nat, List.forall_mem_map]

theorem sumWhere_eq_zero_iff :
    t.sumWhere p amount = 0 ↔ ∀ r ∈ t.rows, p r = true → amount r = 0 := by
  rw [sumWhere, sum_eq_zero_iff]
  simp

theorem mem_deleteWhere : r ∈ (t.deleteWhere p).rows ↔ r ∈ t.rows ∧ p r = false := by
  simp [deleteWhere]

variable [DecidableEq κ]

/-- The row of a key. -/
def get (t : Table key) (k : κ) : Option α := t.rows.find? fun r => key r = k

/-- Add a row; a key in use violates the constraint. -/
def insert (t : Table key) (r : α) : Option (Table key) :=
  if h : key r ∈ t.keys then none
  else some
    { rows := t.rows ++ [r]
      nodup := by
        rw [map_append, nodup_append]
        refine ⟨t.nodup, nodup_singleton _, fun a ha b hb => ?_⟩
        rw [map_singleton, mem_singleton] at hb
        exact fun hab => h ((hab.trans hb) ▸ ha) }

/-- Delete the row of a key. -/
def delete (t : Table key) (k : κ) : Table key := t.deleteWhere fun r => key r = k

/-- Change the row of a key. -/
def update (t : Table key) (k : κ) (f : α → α) (hf : ∀ r, key (f r) = key r) : Table key where
  rows := t.rows.map fun r => if key r = k then f r else r
  nodup := by
    rw [map_map]
    have hkeys : key ∘ (fun r => if key r = k then f r else r) = key := by
      funext r
      simp only [Function.comp_apply]
      split <;> simp [hf]
    rw [hkeys]
    exact t.nodup

theorem get_eq_some_iff : t.get k = some r ↔ r ∈ t.rows ∧ key r = k := by
  constructor
  · intro h
    have hk := find?_some h
    exact ⟨mem_of_find?_eq_some h, of_decide_eq_true hk⟩
  · rintro ⟨hr, rfl⟩
    cases hg : t.get (key r) with
    | none => exact absurd (find?_eq_none.1 hg r hr) (by simp)
    | some r' =>
      have hk := find?_some hg
      rw [inj_on_of_nodup_map t.nodup (mem_of_find?_eq_some hg) hr (of_decide_eq_true hk)]

theorem get_eq_none_iff : t.get k = none ↔ k ∉ t.keys := by
  rw [get, find?_eq_none, keys, mem_map]
  simp

theorem insert_eq_some (h : t.insert r = some t') : key r ∉ t.keys ∧ t'.rows = t.rows ++ [r] := by
  rw [insert] at h
  split at h
  · cases h
  · cases h
    exact ⟨‹_›, rfl⟩

theorem insert_of_not_mem (h : key r ∉ t.keys) : ∃ t', t.insert r = some t' := by
  rw [insert, dif_neg h]
  exact ⟨_, rfl⟩

section

variable (h : t.insert r = some t')
include h

theorem keys_insert : t'.keys = t.keys ++ [key r] := by
  rw [keys, (insert_eq_some h).2, map_append]
  rfl

theorem sum_insert (amount : α → Nat) :
    t'.sum amount = t.sum amount + amount r := by
  simp [sum, (insert_eq_some h).2]

theorem get_insert_self : t'.get (key r) = some r := by
  refine get_eq_some_iff.2 ⟨?_, rfl⟩
  rw [(insert_eq_some h).2]
  exact mem_append_right _ (mem_singleton.2 rfl)

/-- A new row leaves the others. -/
theorem get_insert_of_ne (hk : k ≠ key r) : t'.get k = t.get k := by
  refine Option.ext fun s => ?_
  rw [get_eq_some_iff, get_eq_some_iff, (insert_eq_some h).2, mem_append, mem_singleton]
  refine and_congr_left fun hs => or_iff_left ?_
  rintro rfl
  exact hk hs.symm

end

@[simp] theorem get_delete_self (t : Table key) (k : κ) : (t.delete k).get k = none := by
  rw [get_eq_none_iff]
  simp [keys, delete, deleteWhere]

@[simp] theorem keys_update (t : Table key) (k : κ) (f : α → α) (hf : ∀ r, key (f r) = key r) :
    (t.update k f hf).keys = t.keys := by
  rw [keys, keys, update, map_map]
  refine List.map_congr_left fun r _ => ?_
  simp only [Function.comp_apply]
  split <;> simp [hf]

theorem get_update_self (h : t.get k = some r) (f : α → α) (hf : ∀ r, key (f r) = key r) :
    (t.update k f hf).get k = some (f r) := by
  obtain ⟨hr, hk⟩ := get_eq_some_iff.1 h
  refine get_eq_some_iff.2 ⟨mem_map.2 ⟨r, hr, if_pos hk⟩, (hf r).trans hk⟩

/-- The rows after a change are old ones and the changed one. -/
theorem mem_of_mem_update (hf : ∀ r, key (f r) = key r) (h : r ∈ (t.update k f hf).rows) :
    r ∈ t.rows ∨ ∃ s ∈ t.rows, key s = k ∧ r = f s := by
  obtain ⟨s, hs, rfl⟩ := mem_map.1 h
  by_cases hk : key s = k
  · exact .inr ⟨s, hs, hk, if_pos hk⟩
  · rw [if_neg hk]
    exact .inl hs

theorem mem_update {hf : ∀ r, key (f r) = key r} (hk : key r ≠ k) :
    r ∈ (t.update k f hf).rows ↔ r ∈ t.rows := by
  constructor
  · intro hr
    obtain ⟨s, hs, rfl⟩ := mem_map.1 hr
    by_cases hsk : key s = k
    · simp only [hsk, if_true, hf] at hk
      exact absurd rfl hk
    · rwa [if_neg hsk]
  · exact fun hr => mem_map.2 ⟨r, hr, if_neg hk⟩

/-- A change of one row leaves the others. -/
theorem get_update_of_ne (h : k' ≠ k) (f : α → α) (hf : ∀ r, key (f r) = key r) :
    (t.update k f hf).get k' = t.get k' := by
  refine Option.ext fun r => ?_
  simp only [get_eq_some_iff]
  refine and_congr_left fun hk => mem_update ?_
  rwa [hk]

/-- Only the row of the key can meet the condition that its key is that one. -/
theorem sumWhere_key (h : t.get k = some r) (amount : α → Nat) :
    t.sumWhere (fun r => key r = k) amount = amount r := by
  obtain ⟨hr, rfl⟩ := get_eq_some_iff.1 h
  obtain ⟨rows, hn⟩ := t
  simp only [sum, sumWhere]
  replace hr : r ∈ rows := hr
  clear h
  induction rows with
  | nil => cases hr
  | cons s rows ih =>
    rw [map_cons, nodup_cons] at hn
    rw [map_cons, sum_cons]
    rcases mem_cons.1 hr with rfl | hr
    · have hrest : (rows.map fun s => if decide (key s = key r) then amount s else 0).sum = 0 := by
        refine sum_eq_zero fun x hx => ?_
        obtain ⟨s, hs, rfl⟩ := mem_map.1 hx
        have hne : key s ≠ key r := fun he => hn.1 (he ▸ mem_map_of_mem hs)
        simp [hne]
      rw [hrest]
      simp
    · have hne : key s ≠ key r := fun he => hn.1 (he ▸ mem_map_of_mem hr)
      rw [ih hn.2 hr]
      simp [hne]

/-- A deleted row leaves every sum by its own amount. -/
theorem sum_delete (h : t.get k = some r) (amount : α → Nat) :
    (t.delete k).sum amount + amount r = t.sum amount := by
  rw [← sumWhere_key h amount]
  exact t.sum_deleteWhere _ amount

/-- A changed row changes every sum by its own amount. -/
theorem sum_update (h : t.get k = some r) (f : α → α) (hf : ∀ r, key (f r) = key r)
    (amount : α → Nat) : (t.update k f hf).sum amount + amount r = t.sum amount + amount (f r) := by
  have hnew : (t.update k f hf).sum amount =
      t.sum fun r => if key r = k then amount (f r) else amount r := by
    rw [sum, sum, update, map_map]
    refine congrArg List.sum (List.map_congr_left fun r _ => ?_)
    exact apply_ite amount _ _ _
  have hsplit : (t.sum fun r => if key r = k then amount (f r) else amount r) +
      t.sumWhere (fun r => key r = k) amount =
      t.sum amount + t.sumWhere (fun r => key r = k) fun r => amount (f r) := by
    rw [sumWhere, sumWhere, ← sum_add, ← sum_add]
    refine t.sum_congr fun s _ => ?_
    by_cases hs : key s = k
    · simp only [hs, decide_true, if_true]
      omega
    · simp [hs]
  rw [sumWhere_key h, sumWhere_key h] at hsplit
  rw [hnew, hsplit]

theorem mem_delete : r ∈ (t.delete k).rows ↔ r ∈ t.rows ∧ key r ≠ k := by
  rw [delete, mem_deleteWhere, decide_eq_false_iff_not]

theorem mem_keys_delete : k' ∈ (t.delete k).keys ↔ k' ∈ t.keys ∧ k' ≠ k := by
  simp only [keys, mem_map, mem_delete]
  constructor
  · rintro ⟨r, ⟨hr, hne⟩, rfl⟩
    exact ⟨⟨r, hr, rfl⟩, hne⟩
  · rintro ⟨⟨r, hr, rfl⟩, hne⟩
    exact ⟨r, ⟨hr, hne⟩, rfl⟩

/-- The key of a deleted row is the one that goes. -/
theorem keys_delete (h : t.get k = some r) : t.keys.Perm (k :: (t.delete k).keys) := by
  have hk : k ∈ t.keys := mem_map.2 ⟨r, get_eq_some_iff.1 h⟩
  have hgone : k ∉ (t.delete k).keys := fun hm => (mem_keys_delete.1 hm).2 rfl
  refine (perm_ext_iff_of_nodup t.nodup (nodup_cons.2 ⟨hgone, (t.delete k).nodup⟩)).2 fun k' => ?_
  rw [mem_cons, mem_keys_delete]
  by_cases he : k' = k
  · rw [he]
    exact iff_of_true hk (.inl rfl)
  · exact ⟨fun hm => .inr ⟨hm, he⟩, fun hm => (hm.resolve_left he).1⟩

end Table

end Riverhog.Core
