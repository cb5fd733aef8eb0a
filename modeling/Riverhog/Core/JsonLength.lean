import Riverhog.Core.JsonRoundtrip
import Riverhog.Core.Utf8

/-!
# How long a JSON text is

A bound on the length of a written document that is a sum over its values, so that a
writer with a length limit can be shown to have room. The bound does not depend on the
order of the members, which `sort_keys` changes.
-/

namespace Riverhog.Core

open List

namespace Json

mutual

/-- A bound on the length of a value's text: an escape has at most twelve characters. -/
def bulk : Json → Nat
  | .null => 4
  | .bool _ => 5
  | .int n => (decimal n.natAbs).length + 1
  | .float literal => literal.length
  | .str t => 12 * t.length + 2
  | .arr items => bulkItems items + 2
  | .obj members => bulkMembers members + 2

/-- The items with their commas. -/
def bulkItems : List Json → Nat
  | [] => 0
  | item :: items => bulk item + 1 + bulkItems items

/-- The members with their colons and commas. -/
def bulkMembers : List (Text × Json) → Nat
  | [] => 0
  | (key, value) :: members => 12 * key.length + bulk value + 4 + bulkMembers members

end

theorem length_ite_le {p : Prop} [Decidable p] {a b : Text} {n : Nat} (ha : a.length ≤ n)
    (hb : b.length ≤ n) : (if p then a else b).length ≤ n := by
  split
  · exact ha
  · exact hb

/-- The longest escape is a pair of code units. -/
theorem length_escapeChar_le (ascii : Bool) (c : Char) : (escapeChar ascii c).length ≤ 12 := by
  have hunit : ∀ n, (unicodeEscape n).length = 6 := fun _ => rfl
  rw [escapeChar]
  repeat' apply length_ite_le
  all_goals simp only [length_cons, length_nil, length_append, hunit, Nat.reduceAdd,
    Nat.reduceLeDiff]

theorem length_renderString_le (ascii : Bool) (t : Text) :
    (renderString ascii t).length ≤ 12 * t.length + 2 := by
  have h : (t.flatMap (escapeChar ascii)).length ≤ 12 * t.length := by
    induction t with
    | nil => simp
    | cons c t ih =>
      have hc := length_escapeChar_le ascii c
      rw [flatMap_cons, length_append, length_cons]
      omega
  rw [renderString]
  simp only [cons_append, length_cons, length_append, length_nil]
  omega

mutual

theorem length_render_le (ascii : Bool) : ∀ v : Json, (render ascii v).length ≤ bulk v
  | .null => by rw [render, bulk]; decide
  | .bool true => by rw [render, bulk]; decide
  | .bool false => by rw [render, bulk]; decide
  | .int n => by
    rw [render, bulk, renderInt]
    split_ifs <;> simp
  | .float _ => by rw [render, bulk]
  | .str t => by
    rw [render, bulk]
    exact length_renderString_le ascii t
  | .arr [] => by rw [render, bulk, bulkItems]; decide
  | .arr (item :: items) => by
    have hi := length_render_le ascii item
    have his := length_renderItems_le ascii items
    rw [render, bulk, bulkItems]
    simp only [cons_append, length_cons, length_append]
    omega
  | .obj [] => by rw [render, bulk, bulkMembers]; decide
  | .obj ((key, value) :: members) => by
    have hk := length_renderString_le ascii key
    have hv := length_render_le ascii value
    have hms := length_renderMembers_le ascii members
    rw [render, bulk, bulkMembers]
    simp only [cons_append, length_cons, length_append]
    omega

theorem length_renderItems_le (ascii : Bool) : ∀ items : List Json,
    (renderItems ascii items).length ≤ bulkItems items + 1
  | [] => by rw [renderItems, bulkItems]; decide
  | item :: items => by
    have hi := length_render_le ascii item
    have his := length_renderItems_le ascii items
    rw [renderItems, bulkItems]
    simp only [cons_append, length_cons, length_append]
    omega

theorem length_renderMembers_le (ascii : Bool) : ∀ members : List (Text × Json),
    (renderMembers ascii members).length ≤ bulkMembers members + 1
  | [] => by rw [renderMembers, bulkMembers]; decide
  | (key, value) :: members => by
    have hk := length_renderString_le ascii key
    have hv := length_render_le ascii value
    have hms := length_renderMembers_le ascii members
    rw [renderMembers, bulkMembers]
    simp only [cons_append, length_cons, length_append]
    omega

end

theorem bulkItems_eq_sum (items : List Json) :
    bulkItems items = (items.map fun item => bulk item + 1).sum := by
  induction items with
  | nil => rw [bulkItems]; rfl
  | cons item items ih => rw [bulkItems, ih, map_cons, sum_cons]

theorem bulkMembers_eq_sum (members : List (Text × Json)) :
    bulkMembers members = (members.map fun m => 12 * m.1.length + bulk m.2 + 4).sum := by
  induction members with
  | nil => rw [bulkMembers]; rfl
  | cons m members ih => rw [bulkMembers, ih, map_cons, sum_cons]

mutual

/-- Ordering the keys does not change the bound. -/
theorem bulk_sortKeys : ∀ v : Json, bulk (sortKeys v) = bulk v
  | .null => by rw [sortKeys]
  | .bool _ => by rw [sortKeys]
  | .int _ => by rw [sortKeys]
  | .float _ => by rw [sortKeys]
  | .str _ => by rw [sortKeys]
  | .arr items => by rw [sortKeys, bulk, bulk, bulkItems_sortKeys items]
  | .obj members => by
    have hp := sortedBy_perm Prod.fst (sortKeysMembers members)
    rw [sortKeys, bulk, bulk, bulkMembers_eq_sum, (hp.map _).sum_nat, ← bulkMembers_eq_sum,
      bulkMembers_sortKeys members]

theorem bulkItems_sortKeys : ∀ items : List Json, bulkItems (sortKeysItems items) = bulkItems items
  | [] => by rw [sortKeysItems]
  | item :: items => by
    rw [sortKeysItems, bulkItems, bulkItems, bulk_sortKeys item, bulkItems_sortKeys items]

theorem bulkMembers_sortKeys : ∀ members : List (Text × Json),
    bulkMembers (sortKeysMembers members) = bulkMembers members
  | [] => by rw [sortKeysMembers]
  | (key, value) :: members => by
    rw [sortKeysMembers, bulkMembers, bulkMembers, bulk_sortKeys value,
      bulkMembers_sortKeys members]

end

theorem length_dumps_le (ascii : Bool) (v : Json) : (dumps ascii v).length ≤ bulk v := by
  rw [dumps, ← bulk_sortKeys v]
  exact length_render_le ascii (sortKeys v)

end Json

/-- UTF-8 has at most four octets for each character. -/
theorem length_encodeUtf8_le (t : Text) : (encodeUtf8 t).length ≤ 4 * t.length := by
  induction t with
  | nil => simp
  | cons c t ih =>
    have hc : (String.utf8EncodeChar c).length ≤ 4 := by
      rw [String.length_utf8EncodeChar]
      exact c.utf8Size_le_four
    rw [encodeUtf8_cons, length_append, length_cons]
    omega

/-- A character has at least one octet. -/
theorem length_le_encodeUtf8 (t : Text) : t.length ≤ (encodeUtf8 t).length := by
  induction t with
  | nil => simp
  | cons c t ih =>
    have hc := length_pos_iff.2 (utf8EncodeChar_ne_nil c)
    rw [encodeUtf8_cons, length_append, length_cons]
    omega

end Riverhog.Core
