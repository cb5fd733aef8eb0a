import Riverhog.Core.Bytes
import Mathlib.Data.Char
import Mathlib.Data.Finset.Sort
import Mathlib.Data.List.Lex
import Mathlib.Data.List.TakeWhile

/-!
# Python values

The fragment of the Python runtime that the modelled modules use: the exceptions
they raise, the string methods, zero-padded number formats, `sorted` and the pure
part of `PurePosixPath`. Strings are lists of Unicode scalar values; integers that
are never negative are natural numbers.
-/

namespace Riverhog.Core

open List

/-- The built-in exceptions raised by the modelled code, with their message. -/
inductive PyError where
  /-- `ValueError` and its subclasses. -/
  | valueError (message : String)
  /-- `RuntimeError`. -/
  | runtimeError (message : String)
  /-- `KeyError`: a dictionary has no such key. -/
  | keyError
  /-- `OverflowError`: an integer does not fit its width. -/
  | overflowError
  /-- `AttributeError` or `TypeError`: a value of the wrong kind. -/
  | typeError
  /-- Not an exception: a loop that did not stop within its bound. -/
  | diverges
  deriving DecidableEq

/-- A computation that either returns or raises. -/
abbrev Py := Except PyError

variable {c sep : Char} {ε α γ : Type} {x : Except ε α} {l : List α} {base n width : Nat} {β : Type}
  {f : α → Except ε β} {b : β} {e : ε} {parts : List Text} {t : Text}

/-- A sequence of two steps returns exactly when both do. -/
theorem bind_eq_ok : x >>= f = .ok b ↔ ∃ a, x = .ok a ∧ f a = .ok b := by
  cases x with
  | error e => simp [bind, Except.bind]
  | ok a => simp [bind, Except.bind]

/-- A sequence of two steps raises what its first failing step raises. -/
theorem bind_eq_error : x >>= f = .error e ↔ x = .error e ∨ ∃ a, x = .ok a ∧ f a = .error e := by
  cases x with
  | error e' => simp [bind, Except.bind]
  | ok a => simp [bind, Except.bind]

@[simp] theorem ok_bind (a : α) (f : α → Except ε β) : (Except.ok a >>= f) = f a := rfl

@[simp] theorem error_bind (e : ε) (f : α → Except ε β) :
    ((Except.error e : Except ε α) >>= f) = .error e := rfl

/-- A step after a mapped result is a step on the result. -/
theorem map_bind (x : Except ε α) (f : α → β) (g : β → Except ε γ) :
    (x.map f >>= g) = x >>= fun a => g (f a) := by
  cases x <;> rfl

/-- A map over two steps is a map over the second. -/
theorem bind_map (x : Except ε α) (g : α → Except ε β) (f : β → γ) :
    (x >>= g).map f = x >>= fun a => (g a).map f := by
  cases x <;> rfl

/-- A mapped step returns the image of what the step returns. -/
theorem map_eq_ok {f : α → β} : x.map f = .ok b ↔ ∃ a, x = .ok a ∧ f a = b := by
  cases x <;> simp [Except.map]

theorem mapError_eq_ok {ε' : Type} {f : ε → ε'} {a : α} : x.mapError f = .ok a ↔ x = .ok a := by
  cases x <;> simp [Except.mapError]

/-- A mapped result raises what the result raises. -/
theorem map_eq_error {f : α → β} : x.map f = .error e ↔ x = .error e := by
  cases x <;> simp [Except.map]

/-- A guard: raise `e` unless the condition holds. -/
def require {ε : Type*} (condition : Bool) (e : ε) : Except ε Unit :=
  if condition then .ok () else .error e

@[simp] theorem require_eq_ok {ε : Type*} {c : Bool} {e : ε} {u : Unit} :
    require c e = .ok u ↔ c = true := by
  cases c <;> simp [require]

@[simp] theorem require_true {ε : Type*} (e : ε) : require true e = .ok () := rfl

theorem eq_ok_getD {ε α : Type} {x : Except ε α} {a : α} (h : x.toOption.isSome = true) :
    x = .ok (x.toOption.getD a) := by
  cases x with
  | error e => cases h
  | ok b => rfl

/-- A result found by evaluation, with a property checked on it. -/
theorem exists_ok_of_elim {ε α : Type*} {x : Except ε α} {p : α → Bool}
    (h : x.toOption.elim false p = true) : ∃ a, x = .ok a ∧ p a = true := by
  cases x with
  | error e => cases h
  | ok a => exact ⟨a, rfl, h⟩

/-- A sequence of steps returns exactly when every step does. -/
theorem mapM_eq_ok_iff {out : List β} :
    l.mapM f = .ok out ↔ Forall₂ (fun a b => f a = .ok b) l out := by
  induction l generalizing out with
  | nil =>
    rw [mapM_nil, forall₂_nil_left_iff]
    exact ⟨fun h => (Except.ok.inj h).symm, fun h => h ▸ rfl⟩
  | cons a l ih =>
    simp only [mapM_cons, bind_eq_ok, forall₂_cons_left_iff, ih]
    constructor
    · rintro ⟨b, hb, rest, hrest, h⟩
      exact ⟨b, rest, hb, hrest, (Except.ok.inj h).symm⟩
    · rintro ⟨b, rest, hb, hrest, rfl⟩
      exact ⟨b, hb, rest, hrest, rfl⟩

/-- A related element on the other side of two related sequences. -/
theorem forall₂_mem_right {α β : Type*} {R : α → β → Prop} {l : List α} {r : List β}
    (h : Forall₂ R l r) {b : β} (hb : b ∈ r) : ∃ a ∈ l, R a b := by
  induction h with
  | nil => cases hb
  | cons hab _ ih =>
    rcases mem_cons.1 hb with rfl | hb
    · exact ⟨_, mem_cons_self, hab⟩
    · obtain ⟨a, ha, hr⟩ := ih hb
      exact ⟨a, mem_cons_of_mem _ ha, hr⟩

/-! ## Strings -/

/-- `str.isspace` for one character: the code points that `str.strip` removes. -/
def isSpace (c : Char) : Bool :=
  let n := c.toNat
  (9 ≤ n && n ≤ 13) || (28 ≤ n && n ≤ 32) || n == 0x85 || n == 0xA0 || n == 0x1680 ||
    (0x2000 ≤ n && n ≤ 0x200A) || n == 0x2028 || n == 0x2029 || n == 0x202F || n == 0x205F ||
    n == 0x3000

/-- `str.strip()`. -/
def strip (t : Text) : Text := ((t.dropWhile isSpace).reverse.dropWhile isSpace).reverse

/-- `str.replace(a, b)` for single characters. -/
def replaceChar (a b : Char) (t : Text) : Text := t.map fun c => if c = a then b else c

/-- `sep.join(parts)`. -/
def joinWith (sep : Char) (parts : List Text) : Text := [sep].intercalate parts

@[simp] theorem joinWith_singleton (sep : Char) (part : Text) : joinWith sep [part] = part := by
  simp [joinWith]

theorem joinWith_cons_cons (sep : Char) (part next : Text) (rest : List Text) :
    joinWith sep (part :: next :: rest) = part ++ sep :: joinWith sep (next :: rest) := by
  rw [joinWith, joinWith, intercalate_cons_cons, append_assoc, singleton_append]

/-- Joining a sequence of components cut in two. -/
theorem joinWith_append (sep : Char) {a b : List Text} (ha : a ≠ []) (hb : b ≠ []) :
    joinWith sep (a ++ b) = joinWith sep a ++ sep :: joinWith sep b := by
  induction a with
  | nil => exact absurd rfl ha
  | cons x a ih =>
    cases a with
    | nil =>
      obtain ⟨y, b, rfl⟩ := exists_cons_of_ne_nil hb
      rw [singleton_append, joinWith_cons_cons, joinWith_singleton]
    | cons y a =>
      rw [cons_append, cons_append, joinWith_cons_cons, ← cons_append,
        ih (cons_ne_nil _ _), joinWith_cons_cons, append_assoc, cons_append]

/-- Joining adds nothing but separators. -/
theorem mem_of_mem_joinWith (h : c ∈ joinWith sep parts) :
    c = sep ∨ ∃ part ∈ parts, c ∈ part := by
  induction parts with
  | nil => cases h
  | cons first rest ih =>
    cases rest with
    | nil =>
      rw [joinWith_singleton] at h
      exact .inr ⟨first, mem_cons_self, h⟩
    | cons next rest =>
      rw [joinWith_cons_cons, mem_append, mem_cons] at h
      rcases h with h | h | h
      · exact .inr ⟨first, mem_cons_self, h⟩
      · exact .inl h
      · exact (ih h).imp_right fun ⟨part, hp, hc⟩ => ⟨part, mem_cons_of_mem _ hp, hc⟩

/-- Every part is a substring of the joined text. -/
theorem infix_joinWith {part : Text} (h : part ∈ parts) :
    part <:+: joinWith sep parts := by
  obtain ⟨front, rest, rfl⟩ := append_of_mem h
  have hpart : part <:+: joinWith sep (part :: rest) := by
    cases rest with
    | nil => simp
    | cons next rest =>
      rw [joinWith_cons_cons]
      exact (prefix_append ..).isInfix
  cases front with
  | nil => exact hpart
  | cons first front =>
    rw [joinWith_append sep (cons_ne_nil _ _) (cons_ne_nil _ _)]
    exact hpart.trans ((suffix_cons ..).trans (suffix_append ..)).isInfix

theorem infix_of_mem_splitOn {part : Text} (h : part ∈ t.splitOn sep) :
    part <:+: t := by
  have hjoin : joinWith sep (t.splitOn sep) = t := intercalate_splitOn sep
  exact hjoin ▸ infix_joinWith h

/-- Joining fewer parts gives fewer letters. -/
theorem joinWith_sublist (sep : Char) {a b : List Text} (h : a <+ b) :
    joinWith sep a <+ joinWith sep b := by
  induction h with
  | slnil => exact Sublist.refl _
  | @cons a b x h ih =>
    cases b with
    | nil =>
      rw [sublist_nil.1 h]
      exact nil_sublist _
    | cons y b =>
      rw [joinWith_cons_cons]
      exact ih.trans ((sublist_cons_self ..).trans (sublist_append_right ..))
  | @cons_cons a b x h ih =>
    cases b with
    | nil => rw [sublist_nil.1 h]
    | cons y b =>
      rw [joinWith_cons_cons]
      cases a with
      | nil =>
        rw [joinWith_singleton]
        exact sublist_append_left ..
      | cons z a =>
        rw [joinWith_cons_cons]
        exact (ih.cons_cons _).append_left _

theorem dropWhile_eq_self {α : Type*} {p : α → Bool} {t : List α} :
    t.dropWhile p = t ↔ t.head?.any p = false := by
  rw [dropWhile_eq_self_iff]
  cases t <;> simp

theorem dropWhile_eq_self_of_forall {α : Type*} {p : α → Bool} {t : List α}
    (h : ∀ c ∈ t, p c = false) : t.dropWhile p = t := by
  cases t with
  | nil => rfl
  | cons c t => exact dropWhile_cons_of_neg (by simp [h c])

theorem infix_strip (t : Text) : strip t <:+: t := by
  have hright := reverse_prefix.2 (@dropWhile_suffix _ (t.dropWhile isSpace).reverse isSpace)
  rw [reverse_reverse] at hright
  exact hright.isInfix.trans (dropWhile_suffix _).isInfix

/-- A text has no blanks to strip if none stands at its ends. -/
theorem strip_eq_self_iff :
    strip t = t ↔ t.head?.any isSpace = false ∧ t.getLast?.any isSpace = false := by
  rw [← head?_reverse, ← dropWhile_eq_self, ← dropWhile_eq_self]
  constructor
  · intro h
    have hleft : t.dropWhile isSpace = t := by
      apply (dropWhile_suffix isSpace).eq_of_length_le
      rw [← congrArg length h, strip, length_reverse, ← @length_reverse _ (t.dropWhile isSpace)]
      exact (dropWhile_suffix _).length_le
    rw [strip, hleft] at h
    exact ⟨hleft, reverse_eq_iff.1 h⟩
  · rintro ⟨hleft, hright⟩
    rw [strip, hleft, hright, reverse_reverse]

/-- A text without blanks has none to strip. -/
theorem strip_eq_self (h : ∀ c ∈ t, isSpace c = false) : strip t = t := by
  rw [strip, dropWhile_eq_self_of_forall h, dropWhile_eq_self_of_forall, reverse_reverse]
  exact fun c hc => h c (mem_reverse.1 hc)

/-- `str(n)` for a non-negative integer. -/
def decimal (n : Nat) : Text := Nat.toDigits 10 n

theorem decimal_ne_nil (n : Nat) : decimal n ≠ [] := Nat.toDigits_ne_nil

theorem length_decimal_le_iff {k : Nat} (hk : 0 < k) :
    (decimal n).length ≤ k ↔ n < 10 ^ k := Nat.length_toDigits_le_iff (by decide) hk

theorem length_decimal_pos (n : Nat) : 0 < (decimal n).length :=
  length_pos_iff.2 (decimal_ne_nil n)

/-- A larger number has no fewer digits. -/
theorem length_decimal_mono {m : Nat} (h : m ≤ n) : (decimal m).length ≤ (decimal n).length :=
  (length_decimal_le_iff (length_decimal_pos n)).2
    (h.trans_lt ((length_decimal_le_iff (length_decimal_pos n)).1 le_rfl))

/-- The format `0{width}` followed by `d`, `o` or `x`, for the base given. -/
def zeroPadded (base width n : Nat) : Text := (Nat.toDigits base n).leftpad width '0'

/-- Padding only ever makes a numeral longer. -/
theorem length_zeroPadded_eq_max (base width n : Nat) :
    (zeroPadded base width n).length = max width (Nat.toDigits base n).length := by
  rw [zeroPadded, leftpad, length_append, length_replicate]
  omega

theorem length_zeroPadded (hb : 1 < base) (hw : 0 < width) (hn : n < base ^ width) :
    (zeroPadded base width n).length = width := by
  have hl := (Nat.length_toDigits_le_iff hb hw).2 hn
  rw [length_zeroPadded_eq_max]
  omega

/-- Zero padding does not change the number that a numeral spells. -/
theorem ofDigitChars_zeroPadded (hb : 1 < base) (hb' : base ≤ 10) (width n : Nat) :
    Nat.ofDigitChars base (zeroPadded base width n) 0 = n := by
  rw [zeroPadded, leftpad, Nat.ofDigitChars_append, Nat.ofDigitChars_replicate_zero,
    Nat.mul_zero, Nat.ofDigitChars_toDigits hb hb']

/-- Every letter of a numeral is a digit of its base. -/
theorem mem_toDigits (hb : 1 < base) (h : c ∈ Nat.toDigits base n) :
    ∃ d < base, c = Nat.digitChar d := by
  induction n using Nat.strongRecOn with
  | ind n ih =>
    by_cases hn : n < base
    · rw [Nat.toDigits_of_lt_base hn, mem_singleton] at h
      exact ⟨n, hn, h⟩
    · rw [Nat.toDigits_of_base_le hb (by omega), mem_append, mem_singleton] at h
      rcases h with h | h
      · exact ih (n / base) (Nat.div_lt_self (by omega) hb) h
      · exact ⟨n % base, Nat.mod_lt _ (by omega), h⟩

theorem mem_zeroPadded (hb : 1 < base) (h : c ∈ zeroPadded base width n) :
    ∃ d < base, c = Nat.digitChar d := by
  rw [zeroPadded, leftpad, mem_append] at h
  rcases h with h | h
  · exact ⟨0, by omega, eq_of_mem_replicate h⟩
  · exact mem_toDigits hb h

/-- The last digit of a padded numeral. -/
theorem zeroPadded_succ (hb : 1 < base) (hw : 0 < width) (n : Nat) :
    zeroPadded base (width + 1) n =
      zeroPadded base width (n / base) ++ [Nat.digitChar (n % base)] := by
  by_cases hn : n < base
  · obtain ⟨k, rfl⟩ := Nat.exists_eq_add_one.2 hw
    rw [zeroPadded, zeroPadded, Nat.div_eq_of_lt hn, Nat.mod_eq_of_lt hn, leftpad,
      leftpad, Nat.toDigits_of_lt_base hn, Nat.toDigits_of_lt_base (show 0 < base by omega),
      length_singleton, length_singleton, Nat.add_sub_cancel, Nat.add_sub_cancel]
    change _ = replicate k '0' ++ ['0'] ++ _
    rw [← replicate_succ']
  · rw [zeroPadded, zeroPadded, leftpad, leftpad, Nat.toDigits_of_base_le hb (by omega),
      length_append, length_singleton, Nat.add_sub_add_right, append_assoc]

/-- Numbers that fit the width are spelled differently. -/
theorem zeroPadded_inj {m : Nat} (hb : 1 < base) (hb' : base ≤ 16) (hw : 0 < width)
    (hm : m < base ^ width) (hn : n < base ^ width)
    (h : zeroPadded base width m = zeroPadded base width n) : m = n := by
  have hdigit : ∀ c < 16, ∀ d < 16, Nat.digitChar c = Nat.digitChar d → c = d := by decide
  induction width, hw using Nat.le_induction generalizing m n with
  | base =>
    rw [Nat.pow_one] at hm hn
    rw [zeroPadded, zeroPadded, Nat.toDigits_of_lt_base hm, Nat.toDigits_of_lt_base hn] at h
    exact hdigit m (by omega) n (by omega) (singleton_inj.1 h)
  | succ width hw ih =>
    rw [zeroPadded_succ hb hw, zeroPadded_succ hb hw] at h
    obtain ⟨hdiv, hmod⟩ := append_inj' h rfl
    rw [Nat.pow_succ] at hm hn
    have hq := ih (Nat.div_lt_of_lt_mul (by rwa [Nat.mul_comm]))
      (Nat.div_lt_of_lt_mul (by rwa [Nat.mul_comm])) hdiv
    have hr := hdigit _ ((Nat.mod_lt m (by omega)).trans_le hb') _
      ((Nat.mod_lt n (by omega)).trans_le hb') (singleton_inj.1 hmod)
    rw [← Nat.div_add_mod m base, ← Nat.div_add_mod n base, hq, hr]

/-! ## Ordering -/

/-- `sorted(items)` of a set. -/
def sortedSet {α : Type*} [LinearOrder α] (items : Finset α) : List α := items.sort (· ≤ ·)

@[simp] theorem mem_sortedSet {α : Type*} [LinearOrder α] {a : α} {items : Finset α} :
    a ∈ sortedSet items ↔ a ∈ items := Finset.mem_sort _

/-- `sorted(items, key=key)`: a stable sort. -/
def sortedBy {α κ : Type*} [LinearOrder κ] (key : α → κ) (items : List α) : List α :=
  items.insertionSort fun a b => key a ≤ key b

section Sorted

variable {α κ : Type*} [LinearOrder κ] (key : α → κ)

theorem sortedBy_perm (items : List α) : (sortedBy key items).Perm items :=
  perm_insertionSort _ items

theorem pairwise_sortedBy (items : List α) :
    (sortedBy key items).Pairwise fun a b => key a ≤ key b :=
  haveI : Std.Total fun a b : α => key a ≤ key b := ⟨fun a b => le_total (key a) (key b)⟩
  haveI : IsTrans α fun a b : α => key a ≤ key b := ⟨fun _ _ _ => le_trans⟩
  pairwise_insertionSort _ items

variable {items : List α}

/-- With distinct keys the sorted sequence is strictly increasing. -/
theorem pairwise_lt_sortedBy (hn : (items.map key).Nodup) :
    (sortedBy key items).Pairwise fun a b => key a < key b := by
  have hs : ((sortedBy key items).map key).Nodup :=
    ((sortedBy_perm key items).map key).nodup_iff.2 hn
  rw [Nodup, pairwise_map] at hs
  exact (pairwise_sortedBy key items).imp₂ (fun _ _ h hne => lt_of_le_of_ne h hne) hs

/-- Only a sequence in order is left as it is. -/
theorem sortedBy_eq_self_iff :
    sortedBy key items = items ↔ items.Pairwise fun a b => key a ≤ key b := by
  constructor
  · intro h
    rw [← h]
    exact pairwise_sortedBy key items
  · intro h
    exact Pairwise.insertionSort_eq h

/-- With distinct keys the order of the items before sorting is lost. -/
theorem sortedBy_eq_of_perm {items' : List α} (hn : (items.map key).Nodup)
    (hp : items.Perm items') : sortedBy key items = sortedBy key items' := by
  have hn' : (items'.map key).Nodup := (hp.map key).nodup_iff.1 hn
  have hperm : (sortedBy key items).Perm (sortedBy key items') :=
    (sortedBy_perm key items).trans (hp.trans (sortedBy_perm key items').symm)
  refine hperm.eq_of_pairwise ?_ (pairwise_lt_sortedBy key hn) (pairwise_lt_sortedBy key hn')
  exact fun a b _ _ hab hba => absurd (hab.trans hba) (lt_irrefl _)

end Sorted

/-! ## Pure paths -/

/-- `PurePosixPath(text).is_absolute()`. -/
def isAbsolute (t : Text) : Bool := t.head? == some '/'

/-- `PurePosixPath(text).parts` of a relative path: empty and `.` components vanish. -/
def pathParts (t : Text) : List Text :=
  (t.splitOn '/').filter fun part => !(part == [] || part == ['.'])

/-- The separator occurs in no component. -/
theorem not_mem_of_mem_splitOn {α : Type*} [BEq α] [LawfulBEq α] {x : α} {l part : List α}
    (h : part ∈ l.splitOn x) : x ∉ part := by
  induction l generalizing part with
  | nil =>
    rw [splitOn_nil, mem_singleton] at h
    simp [h]
  | cons y l ih =>
    rw [splitOn_cons_eq_if_modifyHead] at h
    by_cases hy : y == x
    · rw [if_pos hy, mem_cons] at h
      rcases h with rfl | h
      · simp
      · exact ih h
    · rw [if_neg hy] at h
      have hxy : x ≠ y := fun he => hy (by simp [he])
      cases hs : l.splitOn x with
      | nil => exact absurd hs (splitOn_ne_nil x l)
      | cons first rest =>
        rw [hs, modifyHead_cons, mem_cons] at h
        rcases h with rfl | h
        · have hf : x ∉ first := ih (by rw [hs]; exact mem_cons_self)
          simp [hxy, hf]
        · exact ih (by rw [hs]; exact mem_cons_of_mem _ h)

end Riverhog.Core
