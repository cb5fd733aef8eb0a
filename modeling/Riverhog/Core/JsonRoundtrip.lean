import Riverhog.Core.Json

/-!
# Reading inverts writing

The reader of `Riverhog.Core.Json` returns every value from its rendered text, with
ASCII escapes and without. The induction is on the reader's fuel: `ReadsValues`,
`ReadsItems` and `ReadsMembers` are what one more unit of fuel carries over, and a
rendered text is long enough to pay for its own reading.
-/

namespace Riverhog.Core.Json

open List

/-! ## String literals -/

theorem hexValue_digitChar : ∀ d < 16, hexValue (Nat.digitChar d) = some d := by decide

variable {c : Char} {v : Json} {members : List (Text × Json)} {n : Nat} {rest : Text}

/-- The four digits of an escape spell its code unit. -/
theorem parseHex4_digits (hn : n < 65536) (rest : Text) :
    parseHex4 ([n / 4096 % 16, n / 256 % 16, n / 16 % 16, n % 16].map Nat.digitChar ++ rest) =
      some (n, rest) := by
  have hv : ((n / 4096 % 16 * 16 + n / 256 % 16) * 16 + n / 16 % 16) * 16 + n % 16 = n := by omega
  simp only [map_cons, map_nil, cons_append, nil_append, parseHex4,
    hexValue_digitChar _ (Nat.mod_lt _ (by decide : 0 < 16)), Option.bind_eq_bind, Option.bind_some,
    hv, pure]

theorem scalar_toNat (c : Char) : scalar c.toNat = some c := by
  rw [scalar, dif_pos (show c.toNat.isValidChar from c.valid)]
  rfl

/-- A scalar value is no surrogate. -/
theorem toNat_lt_or_gt (c : Char) : c.toNat < 0xD800 ∨ 0xDFFF < c.toNat ∧ c.toNat < 0x110000 :=
  c.valid

theorem parseUnicode_basic (hc : c.toNat < 0x10000) (rest : Text) :
    parseChar (unicodeEscape c.toNat ++ rest) = some (c, rest) := by
  have hs := toNat_lt_or_gt c
  simp only [unicodeEscape, cons_append, parseChar, parseEscape, if_true, parseUnicode,
    parseHex4_digits hc, Option.bind_eq_bind, Option.bind_some]
  rw [if_neg (by omega), scalar_toNat]
  rfl

/-- A surrogate pair spells the scalar value beyond the basic plane. -/
theorem parseUnicode_pair {high low : Nat} (hh : 0xD800 ≤ high ∧ high ≤ 0xDBFF)
    (hl : 0xDC00 ≤ low ∧ low ≤ 0xDFFF)
    (hv : 0x10000 + (high - 0xD800) * 1024 + (low - 0xDC00) = c.toNat) (rest : Text) :
    parseChar (unicodeEscape high ++ unicodeEscape low ++ rest) = some (c, rest) := by
  have hhigh : high < 65536 := by omega
  have hlow : low < 65536 := by omega
  simp only [unicodeEscape, cons_append, append_assoc, parseChar, parseEscape, if_true, parseUnicode,
    parseHex4_digits hhigh, parseHex4_digits hlow, Option.bind_eq_bind, Option.bind_some]
  rw [if_pos hh, if_pos hl, hv, scalar_toNat]
  rfl

/-- The four forms in which a character is written. -/
theorem escapeChar_cases (ascii : Bool) (c : Char) :
    (∃ e, e ≠ 'u' ∧ shortEscape e = some c ∧ escapeChar ascii c = ['\\', e]) ∨
    (c ≠ '"' ∧ c ≠ '\\' ∧ 0x20 ≤ c.toNat ∧ escapeChar ascii c = [c]) ∨
    (c.toNat < 0x10000 ∧ escapeChar ascii c = unicodeEscape c.toNat) ∨
    (0x10000 ≤ c.toNat ∧ escapeChar ascii c = unicodeEscape (0xD800 + (c.toNat - 0x10000) / 1024) ++
        unicodeEscape (0xDC00 + (c.toNat - 0x10000) % 1024)) := by
  unfold escapeChar
  by_cases h₁ : c = '"'
  · exact .inl ⟨'"', by decide, by rw [h₁]; rfl, if_pos h₁⟩
  rw [if_neg h₁]
  by_cases h₂ : c = '\\'
  · exact .inl ⟨'\\', by decide, by rw [h₂]; rfl, if_pos h₂⟩
  rw [if_neg h₂]
  by_cases h₃ : c = '\n'
  · exact .inl ⟨'n', by decide, by rw [h₃]; rfl, if_pos h₃⟩
  rw [if_neg h₃]
  by_cases h₄ : c = '\r'
  · exact .inl ⟨'r', by decide, by rw [h₄]; rfl, if_pos h₄⟩
  rw [if_neg h₄]
  by_cases h₅ : c = '\t'
  · exact .inl ⟨'t', by decide, by rw [h₅]; rfl, if_pos h₅⟩
  rw [if_neg h₅]
  by_cases h₆ : c = '\x08'
  · exact .inl ⟨'b', by decide, by rw [h₆]; rfl, if_pos h₆⟩
  rw [if_neg h₆]
  by_cases h₇ : c = '\x0c'
  · exact .inl ⟨'f', by decide, by rw [h₇]; rfl, if_pos h₇⟩
  rw [if_neg h₇]
  by_cases h₈ : c.toNat < 0x20
  · exact .inr (.inr (.inl ⟨by omega, if_pos h₈⟩))
  rw [if_neg h₈]
  by_cases h₉ : (!ascii || c.toNat < 0x7F) = true
  · exact .inr (.inl ⟨h₁, h₂, by omega, if_pos h₉⟩)
  rw [if_neg h₉]
  by_cases h₁₀ : c.toNat < 0x10000
  · exact .inr (.inr (.inl ⟨h₁₀, if_pos h₁₀⟩))
  · exact .inr (.inr (.inr ⟨by omega, if_neg h₁₀⟩))

/-- Reading inverts the escape of one character. -/
theorem parseChar_escapeChar (ascii : Bool) (c : Char) (rest : Text) :
    parseChar (escapeChar ascii c ++ rest) = some (c, rest) := by
  rcases escapeChar_cases ascii c with
    ⟨e, hu, he, h⟩ | ⟨-, hb, hc, h⟩ | ⟨hc, h⟩ | ⟨hc, h⟩ <;> rw [h]
  · rw [cons_append, parseChar, if_pos rfl, cons_append, parseEscape, if_neg hu, he]
    rfl
  · rw [singleton_append, parseChar, if_neg hb, if_neg (by omega)]
  · exact parseUnicode_basic hc rest
  · have hs := toNat_lt_or_gt c
    exact parseUnicode_pair (by omega) (by omega) (by omega) rest

/-- No escaped character starts with the closing quote. -/
theorem escapeChar_ne_quote (ascii : Bool) (c : Char) :
    ∃ d rest, escapeChar ascii c = d :: rest ∧ d ≠ '"' := by
  rcases escapeChar_cases ascii c with
    ⟨e, -, -, h⟩ | ⟨hq, -, -, h⟩ | ⟨-, h⟩ | ⟨-, h⟩
  · exact ⟨_, _, h, by decide⟩
  · exact ⟨_, _, h, hq⟩
  · exact ⟨_, _, h, by decide⟩
  · exact ⟨_, _, h, by decide⟩

theorem length_le_escaped (ascii : Bool) (t : Text) :
    t.length ≤ (t.flatMap (escapeChar ascii)).length := by
  induction t with
  | nil => exact Nat.zero_le _
  | cons c t ih =>
    obtain ⟨d, tail, hd, -⟩ := escapeChar_ne_quote ascii c
    rw [flatMap_cons, length_append, hd, length_cons, length_cons]
    omega

/-- Reading inverts a string literal. -/
theorem parseString_escaped (ascii : Bool) {t : Text} {fuel : Nat} (hf : t.length < fuel)
    (rest : Text) :
    parseString fuel (t.flatMap (escapeChar ascii) ++ '"' :: rest) = some (t, rest) := by
  induction t generalizing fuel with
  | nil =>
    cases fuel with
    | zero => simp at hf
    | succ fuel => rfl
  | cons c t ih =>
    cases fuel with
    | zero => simp at hf
    | succ fuel =>
      rw [length_cons, Nat.succ_lt_succ_iff] at hf
      have hc := parseChar_escapeChar ascii c (t.flatMap (escapeChar ascii) ++ '"' :: rest)
      obtain ⟨d, tail, hd, hq⟩ := escapeChar_ne_quote ascii c
      rw [flatMap_cons, append_assoc]
      rw [hd, cons_append] at hc ⊢
      rw [parseString, if_neg (by simpa using hq), hc]
      simp [ih hf]

/-! ## Numbers -/

/-- What may follow a value in a rendered text: nothing, a comma or a closing bracket. -/
def Follow (rest : Text) : Prop :=
  rest.head?.all fun c => c == ',' || c == ']' || c == '}'

theorem follow_nil : Follow [] := rfl

theorem Follow.head_cases (h : Follow rest) :
    rest = [] ∨ ∃ c tail, rest = c :: tail ∧ (c = ',' ∨ c = ']' ∨ c = '}') := by
  cases rest with
  | nil => exact .inl rfl
  | cons c tail => exact .inr ⟨c, tail, rfl, by simpa [Follow, or_assoc] using h⟩

theorem isDigit_of_mem_decimal (h : c ∈ decimal n) : c.isDigit :=
  Nat.isDigit_of_mem_toDigits (by decide) (by decide) h

/-- The only numeral with a leading zero is zero. -/
theorem decimal_head (hn : 0 < n) : (decimal n).head? ≠ some '0' := by
  induction n using Nat.strongRecOn with
  | ind n ih =>
    rw [decimal]
    by_cases h : n < 10
    · rw [Nat.toDigits_of_lt_base h]
      have hd : ∀ d < 10, 0 < d → Nat.digitChar d ≠ '0' := by decide
      simpa using hd n h hn
    · rw [Nat.toDigits_of_base_le (by decide) (by omega), head?_append_of_ne_nil _
        Nat.toDigits_ne_nil]
      exact ih (n / 10) (by omega) (by omega)

theorem takeWhile_decimal (n : Nat) (h : Follow rest) :
    (decimal n ++ rest).takeWhile Char.isDigit = decimal n ∧
      (decimal n ++ rest).dropWhile Char.isDigit = rest := by
  have hd : ∀ c ∈ decimal n, c.isDigit := fun c hc => isDigit_of_mem_decimal hc
  rw [takeWhile_append_of_pos hd, dropWhile_append_of_pos hd]
  rcases h.head_cases with rfl | ⟨c, tail, rfl, rfl | rfl | rfl⟩ <;> simp [Char.isDigit]

theorem parseIntegerPart_decimal (n : Nat) (h : Follow rest) :
    parseIntegerPart (decimal n ++ rest) = some (decimal n, rest) := by
  have hw := takeWhile_decimal n h
  rw [parseIntegerPart]
  cases n with
  | zero => rfl
  | succ n =>
    have hz := decimal_head (Nat.succ_pos n)
    rw [head?_append_of_ne_nil _ (decimal_ne_nil _), if_neg hz, hw.1, hw.2, if_neg]
    simpa using decimal_ne_nil (n + 1)

theorem parseSuffix_follow (h : Follow rest) :
    parseSuffix fractionLead rest = ([], rest) ∧ parseSuffix exponentLead rest = ([], rest) := by
  rcases h.head_cases with rfl | ⟨c, tail, rfl, rfl | rfl | rfl⟩
  · exact ⟨rfl, rfl⟩
  all_goals
    refine ⟨rfl, ?_⟩
    cases tail <;> rfl

theorem parseUnsigned_decimal (sign : Text) (n : Nat) (h : Follow rest) :
    parseUnsigned sign (decimal n ++ rest) =
      some (.int (if sign.isEmpty then (n : Int) else -n), rest) := by
  have hs := parseSuffix_follow h
  have hn : Nat.ofDigitChars 10 (decimal n) 0 = n := Nat.ofDigitChars_ten_toDigits
  simp only [parseUnsigned, parseIntegerPart_decimal n h, hs.1, hs.2, hn, Option.bind_eq_bind,
    Option.bind_some, isEmpty_nil, Bool.and_self, if_true, pure]

/-- A text that opens with a digit or a signed digit is no literal name. -/
theorem parseScalar_eq_parseNumber {d : Char} {t : Text} (hd : d.isDigit)
    (hc : c = '-' ∧ t.head? = some d ∨ c = d) : parseScalar (c :: t) = parseNumber (c :: t) := by
  have hne : ∀ e : Char, e.isDigit = false → (e == d) = false := by
    intro e he
    rw [beq_eq_false_iff_ne]
    rintro rfl
    rw [he] at hd
    cases hd
  rcases hc with ⟨rfl, ht⟩ | rfl
  · cases t with
    | nil => cases ht
    | cons e t =>
      obtain rfl : e = d := by simpa using ht
      simp [parseScalar, parseName, isPrefixOf, hne 'I' rfl]
  · simp [parseScalar, parseName, isPrefixOf, hne 'n' rfl, hne 't' rfl, hne 'f' rfl,
      hne 'N' rfl, hne 'I' rfl, hne '-' rfl]

/-- Reading inverts an integer literal. -/
theorem parseScalar_renderInt (n : Int) (h : Follow rest) :
    parseScalar (renderInt n ++ rest) = some (.int n, rest) := by
  obtain ⟨d, tail, hd⟩ := exists_cons_of_ne_nil (decimal_ne_nil n.natAbs)
  have hdigit : d.isDigit := isDigit_of_mem_decimal (n := n.natAbs) (by rw [hd]; simp)
  rw [renderInt]
  by_cases hn : n < 0
  · rw [if_pos hn, cons_append, parseScalar_eq_parseNumber hdigit (.inl ⟨rfl, by simp [hd]⟩),
      parseNumber, if_pos head?_cons, tail_cons, parseUnsigned_decimal ['-'] _ h]
    have he : -(n.natAbs : Int) = n := by omega
    generalize n.natAbs = m at he
    simp [he]
  · have hm : ¬ (decimal n.natAbs ++ rest).head? = some '-' := by
      rw [hd]
      simp only [cons_append, head?_cons, Option.some.injEq]
      rintro rfl
      cases hdigit
    have hs : parseScalar (decimal n.natAbs ++ rest) = parseNumber (decimal n.natAbs ++ rest) := by
      rw [hd, cons_append]
      exact parseScalar_eq_parseNumber hdigit (.inr rfl)
    have he : (n.natAbs : Int) = n := by omega
    rw [if_neg hn, hs, parseNumber, if_neg hm, parseUnsigned_decimal [] _ h]
    generalize n.natAbs = m at he
    simp [he]

/-! ## Values -/

mutual

/-- Values that the reader returns as written: no float, no repeated key. -/
def Canonical : Json → Prop
  | .float _ => False
  | .arr items => CanonicalItems items
  | .obj members => (members.map Prod.fst).Nodup ∧ CanonicalMembers members
  | .null => True
  | .bool _ => True
  | .int _ => True
  | .str _ => True

/-- `Canonical` for every item. -/
def CanonicalItems : List Json → Prop
  | [] => True
  | item :: items => Canonical item ∧ CanonicalItems items

/-- `Canonical` for the value of every member. -/
def CanonicalMembers : List (Text × Json) → Prop
  | [] => True
  | (_, value) :: members => Canonical value ∧ CanonicalMembers members

end

/-- The first letter of an integer's text. -/
theorem renderInt_head (n : Int) : ∃ c tail, renderInt n = c :: tail ∧ (c = '-' ∨ c.isDigit) := by
  rw [renderInt]
  by_cases hn : n < 0
  · exact ⟨_, _, if_pos hn, .inl rfl⟩
  · obtain ⟨d, tail, hd⟩ := exists_cons_of_ne_nil (decimal_ne_nil n.natAbs)
    exact ⟨d, tail, by rw [if_neg hn, hd],
      .inr (isDigit_of_mem_decimal (n := n.natAbs) (by rw [hd]; simp))⟩

/-- The first letter of a value's text. -/
theorem render_head (ascii : Bool) (h : Canonical v) :
    ∃ c tail, render ascii v = c :: tail ∧ (c ∈ "ntf-\"[\x7b".toList ∨ c.isDigit) := by
  cases v with
  | null => exact ⟨_, _, by rw [render]; rfl, .inl (by decide)⟩
  | bool b => cases b <;> exact ⟨_, _, by rw [render]; rfl, .inl (by decide)⟩
  | int n =>
    obtain ⟨c, tail, hr, hc⟩ := renderInt_head n
    exact ⟨c, tail, by rw [render, hr], hc.imp_left fun he => by rw [he]; decide⟩
  | float literal => rw [Canonical] at h; exact h.elim
  | str t => exact ⟨_, _, by rw [render, renderString]; rfl, .inl (by decide)⟩
  | arr items => cases items <;> exact ⟨_, _, by rw [render]; rfl, .inl (by decide)⟩
  | obj members =>
    rcases members with _ | ⟨⟨key, value⟩, members⟩ <;>
      exact ⟨_, _, by rw [render]; rfl, .inl (by decide)⟩

/-- No white space is written before a value, and no bracket closes there. -/
theorem render_skipSpace (ascii : Bool) (h : Canonical v) (rest : Text) :
    skipSpace (render ascii v ++ rest) = render ascii v ++ rest ∧
      (render ascii v ++ rest).head? ≠ some ']' := by
  obtain ⟨c, tail, hr, hc⟩ := render_head ascii h
  have hall : ∀ c : Char, (c ∈ "ntf-\"[\x7b".toList ∨ c.isDigit) →
      (c == ' ' || c == '\t' || c == '\n' || c == '\r') = false ∧ c ≠ ']' := by
    rintro c (hc | hc)
    · have hfirst : ("ntf-\"[\x7b".toList.all fun c =>
          !(c == ' ' || c == '\t' || c == '\n' || c == '\r') && c != ']') = true := by decide
      have h := all_eq_true.1 hfirst c hc
      rw [Bool.and_eq_true, Bool.not_eq_true', bne_iff_ne] at h
      exact h
    · have hne : ∀ e : Char, e.isDigit = false → c ≠ e := by
        rintro e he rfl
        rw [hc] at he
        cases he
      exact ⟨by simp [hne ' ' rfl, hne '\t' rfl, hne '\n' rfl, hne '\r' rfl], hne ']' rfl⟩
  rw [hr, cons_append]
  refine ⟨?_, by simpa using (hall c hc).2⟩
  rw [skipSpace, dropWhile_cons, (hall c hc).1]
  rfl

mutual

/-- A bound on the depth and breadth of a value, for the reader's fuel. -/
def size : Json → Nat
  | .arr items => 1 + sizeItems items
  | .obj members => 1 + sizeMembers members
  | .str t => 2 + t.length
  | .null => 1
  | .bool _ => 1
  | .int _ => 1
  | .float _ => 1

/-- `size` over the items of an array. -/
def sizeItems : List Json → Nat
  | [] => 0
  | item :: items => 1 + size item + sizeItems items

/-- `size` over the members of an object. -/
def sizeMembers : List (Text × Json) → Nat
  | [] => 0
  | (key, value) :: members => 2 + key.length + size value + sizeMembers members

end

theorem follow_renderItems (ascii : Bool) (items : List Json) (rest : Text) :
    Follow (renderItems ascii items ++ rest) := by
  cases items <;> (rw [renderItems]; rfl)

theorem follow_renderMembers (ascii : Bool) (members : List (Text × Json)) (rest : Text) :
    Follow (renderMembers ascii members ++ rest) := by
  rcases members with _ | ⟨⟨key, value⟩, members⟩ <;> (rw [renderMembers]; rfl)

theorem skipSpace_of_follow (h : Follow rest) : skipSpace rest = rest := by
  rcases h.head_cases with rfl | ⟨c, tail, rfl, rfl | rfl | rfl⟩ <;> rfl

/-- A new key goes to the end of the dictionary. -/
theorem insertMember_new {key : Text} (value : Json) (h : key ∉ members.map Prod.fst) :
    insertMember members key value = members ++ [(key, value)] := by
  rw [insertMember, if_neg]
  simpa [any_eq_true] using h

section Steps

variable (ascii : Bool) (fuel : Nat)

/-- With this fuel, reading inverts writing of every value that the fuel covers. -/
def ReadsValues : Prop := ∀ (v : Json) (rest : Text), Canonical v → size v ≤ fuel → Follow rest →
  parseValue fuel (render ascii v ++ rest) = some (v, rest)

/-- The same for the items of an array from its first item on. -/
def ReadsItems : Prop := ∀ (item : Json) (items : List Json) (rest : Text),
  Canonical item → CanonicalItems items → sizeItems (item :: items) ≤ fuel →
  parseItems fuel (render ascii item ++ (renderItems ascii items ++ rest)) =
    some (item :: items, rest)

/-- The same for the members of an object from its first member on. -/
def ReadsMembers : Prop :=
  ∀ (read : List (Text × Json)) (key : Text) (value : Json) (members : List (Text × Json))
    (rest : Text), ((read ++ (key, value) :: members).map Prod.fst).Nodup →
  Canonical value → CanonicalMembers members → sizeMembers ((key, value) :: members) ≤ fuel →
  parseMembers fuel read (renderString ascii key ++
      ':' :: (render ascii value ++ (renderMembers ascii members ++ rest))) =
    some (read ++ (key, value) :: members, rest)

variable {ascii fuel}

theorem ReadsItems.succ (hv : ReadsValues ascii fuel) (hi : ReadsItems ascii fuel) :
    ReadsItems ascii (fuel + 1) := by
  intro item items rest hc hcs hs
  rw [sizeItems] at hs
  have hf := follow_renderItems ascii items rest
  simp only [parseItems, hv item _ hc (by omega) hf, Option.bind_eq_bind, Option.bind_some,
    skipSpace_of_follow hf]
  cases items with
  | nil => rw [renderItems]; rfl
  | cons next items =>
    rw [CanonicalItems] at hcs
    rw [renderItems, cons_append, cons_append, append_assoc]
    have hn := hi next items rest hcs.1 hcs.2 (by omega)
    simp only [(render_skipSpace ascii hcs.1 _).1, hn, Option.bind_some, pure]

theorem ReadsMembers.succ (hv : ReadsValues ascii fuel) (hm : ReadsMembers ascii fuel) :
    ReadsMembers ascii (fuel + 1) := by
  intro read key value members rest hn hc hcs hs
  rw [sizeMembers] at hs
  have hf := follow_renderMembers ascii members rest
  have hnew : key ∉ read.map Prod.fst := by
    rw [map_append, map_cons] at hn
    exact fun hk => (nodup_append.1 hn).2.2 key hk key mem_cons_self rfl
  have hstr : ∀ u, parseString fuel (key.flatMap (escapeChar ascii) ++ '"' :: u) = some (key, u) :=
    parseString_escaped ascii (by omega)
  rw [renderString, cons_append, cons_append, append_assoc, singleton_append, parseMembers]
  simp only [hstr, Option.bind_eq_bind, Option.bind_some]
  rw [show ∀ u, skipSpace (':' :: u) = ':' :: u from fun _ => rfl]
  simp only [(render_skipSpace ascii hc _).1, hv value _ hc (by omega) hf, Option.bind_some,
    skipSpace_of_follow hf, insertMember_new value hnew]
  cases members with
  | nil => rw [renderMembers]; rfl
  | cons next members =>
    obtain ⟨key', value'⟩ := next
    rw [CanonicalMembers] at hcs
    have hr := hm (read ++ [(key, value)]) key' value' members rest
      (by simpa only [append_assoc, singleton_append] using hn) hcs.1 hcs.2 (by omega)
    rw [renderMembers]
    simp only [cons_append, append_assoc, renderString] at hr ⊢
    rw [show ∀ u, skipSpace ('"' :: u) = '"' :: u from fun _ => rfl]
    exact hr

/-- An object is delimited by its braces, whatever follows it. -/
theorem ReadsMembers.parseValue_obj (hm : ReadsMembers ascii fuel) {members : List (Text × Json)}
    (hc : Canonical (.obj members)) (hs : size (.obj members) ≤ fuel + 1) (rest : Text) :
    parseValue (fuel + 1) (render ascii (.obj members) ++ rest) = some (.obj members, rest) := by
  cases members with
  | nil => rw [render]; rfl
  | cons member members =>
    obtain ⟨key, value⟩ := member
    rw [Canonical, CanonicalMembers] at hc
    rw [size] at hs
    have hr := hm [] key value members rest (by simpa using hc.1) hc.2.1 hc.2.2 (by omega)
    rw [renderString] at hr
    rw [render, renderString]
    simp only [cons_append, append_assoc] at hr ⊢
    rw [parseValue, if_neg (by decide), if_neg (by decide), if_pos rfl,
      show ∀ u, skipSpace ('"' :: u) = '"' :: u from fun _ => rfl, if_neg (by simp), hr]
    rfl

theorem ReadsValues.succ (hi : ReadsItems ascii fuel) (hm : ReadsMembers ascii fuel) :
    ReadsValues ascii (fuel + 1) := by
  intro v rest hc hs hf
  cases v with
  | null => rw [render]; rfl
  | bool b => cases b <;> (rw [render]; rfl)
  | float literal => rw [Canonical] at hc; exact hc.elim
  | str t =>
    rw [size] at hs
    rw [render, renderString, cons_append, cons_append, append_assoc,
      singleton_append, parseValue, if_pos rfl, parseString_escaped ascii (by omega)]
    rfl
  | int n =>
    have hn := parseScalar_renderInt n hf
    obtain ⟨c, tail, hr, hd⟩ := renderInt_head n
    have hq : c ≠ '"' ∧ c ≠ '[' ∧ c ≠ '{' := by
      refine ⟨?_, ?_, ?_⟩ <;> rintro rfl <;> simp [Char.isDigit] at hd
    rw [hr, cons_append] at hn
    rw [render, hr, cons_append, parseValue, if_neg hq.1, if_neg hq.2.1, if_neg hq.2.2, hn]
  | arr items =>
    cases items with
    | nil => rw [render]; rfl
    | cons item items =>
      rw [Canonical, CanonicalItems] at hc
      rw [size] at hs
      have hsp := render_skipSpace ascii hc.1 (renderItems ascii items ++ rest)
      rw [render, cons_append, cons_append, append_assoc, parseValue,
        if_neg (by decide), if_pos rfl, hsp.1, if_neg hsp.2, hi item items rest hc.1 hc.2 (by omega)]
      rfl
  | obj members => exact hm.parseValue_obj hc hs rest

end Steps

/-- Reading inverts writing once the fuel covers the value. -/
theorem reads_render (ascii : Bool) (fuel : Nat) :
    ReadsValues ascii fuel ∧ ReadsItems ascii fuel ∧ ReadsMembers ascii fuel := by
  induction fuel with
  | zero =>
    refine ⟨?_, ?_, ?_⟩
    · intro v _ _ hs
      cases v <;> simp [size] at hs
    · intro item items _ _ _ hs
      simp [sizeItems] at hs
    · intro _ key value members _ _ _ _ hs
      simp [sizeMembers] at hs
  | succ fuel ih =>
    obtain ⟨hv, hi, hm⟩ := ih
    exact ⟨.succ hi hm, .succ hv hi, .succ hv hm⟩

mutual

/-- The written text is long enough to bound the reader's fuel. -/
theorem size_le_length (ascii : Bool) : ∀ v : Json, Canonical v → size v ≤ (render ascii v).length
  | .null, _ => by rw [render, size]; decide
  | .bool true, _ => by rw [render, size]; decide
  | .bool false, _ => by rw [render, size]; decide
  | .int n, _ => by
    obtain ⟨c, tail, hr, -⟩ := renderInt_head n
    rw [render, size, hr, length_cons]
    omega
  | .float _, h => by rw [Canonical] at h; exact h.elim
  | .str t, _ => by
    have ht := length_le_escaped ascii t
    rw [render, size, renderString]
    simp only [cons_append, length_cons, length_append, length_nil]
    omega
  | .arr [], _ => by rw [render, size, sizeItems]; decide
  | .arr (item :: items), h => by
    rw [Canonical, CanonicalItems] at h
    have hi := size_le_length ascii item h.1
    have his := sizeItems_le_length ascii items h.2
    rw [render, size, sizeItems]
    simp only [cons_append, length_cons, length_append]
    omega
  | .obj [], _ => by rw [render, size, sizeMembers]; decide
  | .obj ((key, value) :: members), h => by
    rw [Canonical, CanonicalMembers] at h
    have hk := length_le_escaped ascii key
    have hv := size_le_length ascii value h.2.1
    have hms := sizeMembers_le_length ascii members h.2.2
    rw [render, size, sizeMembers, renderString]
    simp only [cons_append, length_cons, length_append, length_nil]
    omega

theorem sizeItems_le_length (ascii : Bool) : ∀ items : List Json, CanonicalItems items →
    sizeItems items + 1 ≤ (renderItems ascii items).length
  | [], _ => by rw [renderItems, sizeItems]; decide
  | item :: items, h => by
    rw [CanonicalItems] at h
    have hi := size_le_length ascii item h.1
    have his := sizeItems_le_length ascii items h.2
    rw [renderItems, sizeItems]
    simp only [cons_append, length_cons, length_append]
    omega

theorem sizeMembers_le_length (ascii : Bool) : ∀ members : List (Text × Json),
    CanonicalMembers members → sizeMembers members + 1 ≤ (renderMembers ascii members).length
  | [], _ => by rw [renderMembers, sizeMembers]; decide
  | (key, value) :: members, h => by
    rw [CanonicalMembers] at h
    have hk := length_le_escaped ascii key
    have hv := size_le_length ascii value h.1
    have hms := sizeMembers_le_length ascii members h.2
    rw [renderMembers, sizeMembers, renderString]
    simp only [cons_append, length_cons, length_append, length_nil]
    omega

end

theorem canonicalMembers_iff (members : List (Text × Json)) :
    CanonicalMembers members ↔ ∀ m ∈ members, Canonical m.2 := by
  induction members with
  | nil => simp [CanonicalMembers]
  | cons m members ih => simp [CanonicalMembers, ih]

theorem canonicalItems_iff (items : List Json) :
    CanonicalItems items ↔ ∀ item ∈ items, Canonical item := by
  induction items with
  | nil => simp [CanonicalItems]
  | cons item items ih => simp [CanonicalItems, ih]

theorem map_fst_sortKeysMembers (members : List (Text × Json)) :
    (sortKeysMembers members).map Prod.fst = members.map Prod.fst := by
  induction members with
  | nil => rw [sortKeysMembers]
  | cons m members ih => rw [sortKeysMembers, map_cons, map_cons, ih]

theorem sortKeysMembers_eq_map (members : List (Text × Json)) :
    sortKeysMembers members = members.map fun m => (m.1, sortKeys m.2) := by
  induction members with
  | nil => rw [sortKeysMembers, map_nil]
  | cons m members ih => rw [sortKeysMembers, map_cons, ih]

mutual

/-- Ordering the keys keeps them distinct. -/
theorem canonical_sortKeys : ∀ v : Json, Canonical v → Canonical (sortKeys v)
  | .null, _ => by rw [sortKeys, Canonical]; trivial
  | .bool _, _ => by rw [sortKeys, Canonical]; trivial
  | .int _, _ => by rw [sortKeys, Canonical]; trivial
  | .float _, h => by rw [Canonical] at h; exact h.elim
  | .str _, _ => by rw [sortKeys, Canonical]; trivial
  | .arr items, h => by
    rw [Canonical] at h
    rw [sortKeys, Canonical]
    exact canonicalItems_sortKeys items h
  | .obj members, h => by
    rw [Canonical] at h
    have hp := sortedBy_perm Prod.fst (sortKeysMembers members)
    rw [sortKeys, Canonical, canonicalMembers_iff]
    refine ⟨(hp.map Prod.fst).nodup_iff.2 ?_, fun m hm => ?_⟩
    · rw [map_fst_sortKeysMembers]
      exact h.1
    · exact (canonicalMembers_iff _).1 (canonicalMembers_sortKeys members h.2) m (hp.mem_iff.1 hm)

theorem canonicalItems_sortKeys : ∀ items : List Json, CanonicalItems items →
    CanonicalItems (sortKeysItems items)
  | [], _ => by rw [sortKeysItems, CanonicalItems]; trivial
  | item :: items, h => by
    rw [CanonicalItems] at h
    rw [sortKeysItems, CanonicalItems]
    exact ⟨canonical_sortKeys item h.1, canonicalItems_sortKeys items h.2⟩

theorem canonicalMembers_sortKeys : ∀ members : List (Text × Json), CanonicalMembers members →
    CanonicalMembers (sortKeysMembers members)
  | [], _ => by rw [sortKeysMembers, CanonicalMembers]; trivial
  | (key, value) :: members, h => by
    rw [CanonicalMembers] at h
    rw [sortKeysMembers, CanonicalMembers]
    exact ⟨canonical_sortKeys value h.1, canonicalMembers_sortKeys members h.2⟩

end

/-- `json.loads` inverts the compact writer, with and without ASCII escapes. -/
theorem loads_render (ascii : Bool) (h : Canonical v) : loads (render ascii v) = some v := by
  have hs := size_le_length ascii v h
  have hp := (reads_render ascii ((render ascii v).length + 1)).1 v [] h (by omega) follow_nil
  have hsp := (render_skipSpace ascii h []).1
  rw [append_nil] at hp hsp
  rw [loads, hsp, hp]
  rfl

/-- A written text determines its value. -/
theorem render_injective (ascii : Bool) {w : Json} (hv : Canonical v) (hw : Canonical w)
    (h : render ascii v = render ascii w) : v = w := by
  have he := loads_render ascii hv
  rw [h, loads_render ascii hw] at he
  exact (Option.some.inj he).symm

/-- Reading what `json.dumps` writes gives the value with its keys in order. -/
theorem loads_dumps (ascii : Bool) (h : Canonical v) : loads (dumps ascii v) = some (sortKeys v) :=
  loads_render ascii (canonical_sortKeys v h)

mutual

/-- Ordering the keys twice orders them once. -/
theorem sortKeys_sortKeys : ∀ v : Json, sortKeys (sortKeys v) = sortKeys v
  | .null => by rw [sortKeys, sortKeys]
  | .bool _ => by rw [sortKeys, sortKeys]
  | .int _ => by rw [sortKeys, sortKeys]
  | .float _ => by rw [sortKeys, sortKeys]
  | .str _ => by rw [sortKeys, sortKeys]
  | .arr items => by rw [sortKeys, sortKeys, sortKeysItems_sortKeysItems items]
  | .obj members => by
    have hmap : ∀ l : List (Text × Json), sortKeysMembers (sortedBy Prod.fst l) =
        sortedBy Prod.fst (sortKeysMembers l) := by
      intro l
      rw [sortKeysMembers_eq_map, sortKeysMembers_eq_map, sortedBy, sortedBy]
      exact map_insertionSort _ _ _ _ fun _ _ _ _ => Iff.rfl
    rw [sortKeys, sortKeys, hmap, sortKeysMembers_sortKeysMembers members,
      (sortedBy_eq_self_iff Prod.fst).2 (pairwise_sortedBy Prod.fst _)]

theorem sortKeysItems_sortKeysItems : ∀ items : List Json,
    sortKeysItems (sortKeysItems items) = sortKeysItems items
  | [] => by rw [sortKeysItems, sortKeysItems]
  | item :: items => by
    rw [sortKeysItems, sortKeysItems, sortKeys_sortKeys item, sortKeysItems_sortKeysItems items]

theorem sortKeysMembers_sortKeysMembers : ∀ members : List (Text × Json),
    sortKeysMembers (sortKeysMembers members) = sortKeysMembers members
  | [] => by rw [sortKeysMembers, sortKeysMembers]
  | (key, value) :: members => by
    rw [sortKeysMembers, sortKeysMembers, sortKeys_sortKeys value,
      sortKeysMembers_sortKeysMembers members]

end

/-- The text of a value and of the value with its keys in order. -/
theorem dumps_sortKeys (ascii : Bool) (v : Json) : dumps ascii (sortKeys v) = dumps ascii v := by
  rw [dumps, dumps, sortKeys_sortKeys]

/-! ## Looking up members -/

theorem sortKeysItems_eq_map (items : List Json) : sortKeysItems items = items.map sortKeys := by
  induction items with
  | nil => rw [sortKeysItems, map_nil]
  | cons item items ih => rw [sortKeysItems, map_cons, ih]

/-- A member that no other shares its key with is found. -/
theorem lookup_of_mem (hn : (members.map Prod.fst).Nodup) {m : Text × Json} (hm : m ∈ members) :
    lookup members m.1 = some m.2 := by
  rw [lookup]
  cases hf : members.find? (·.1 == m.1) with
  | none =>
    have hnone := find?_eq_none.1 hf m hm
    simp at hnone
  | some m' =>
    have hkey : m'.1 = m.1 := by simpa using find?_some hf
    rw [inj_on_of_nodup_map hn (mem_of_find?_eq_some hf) hm hkey, Option.map_some]

theorem lookup_eq_none {key : Text} (h : key ∉ members.map Prod.fst) :
    lookup members key = none := by
  rw [lookup, Option.map_eq_none_iff, find?_eq_none]
  intro m hm he
  rw [beq_iff_eq] at he
  exact h (he ▸ mem_map_of_mem hm)

theorem mem_sortKeysMembers {m : Text × Json} (hm : m ∈ members) :
    (m.1, sortKeys m.2) ∈ sortKeysMembers members := by
  induction members with
  | nil => cases hm
  | cons m' members ih =>
    rw [sortKeysMembers]
    rcases mem_cons.1 hm with rfl | hm
    · exact mem_cons_self
    · exact mem_cons_of_mem _ (ih hm)

/-- The keys of an object after ordering. -/
theorem keys_sortKeys (members : List (Text × Json)) :
    ((sortedBy Prod.fst (sortKeysMembers members)).map Prod.fst).Perm (members.map Prod.fst) := by
  rw [← map_fst_sortKeysMembers members]
  exact (sortedBy_perm Prod.fst _).map _

/-- Ordering the members changes only the order of what is found. -/
theorem lookup_sortKeys (hn : (members.map Prod.fst).Nodup) (key : Text) :
    lookup (sortedBy Prod.fst (sortKeysMembers members)) key = (lookup members key).map sortKeys := by
  have hkeys := keys_sortKeys members
  by_cases hk : key ∈ members.map Prod.fst
  · obtain ⟨m, hm, rfl⟩ := mem_map.1 hk
    have hsorted := (sortedBy_perm Prod.fst _).mem_iff.2 (mem_sortKeysMembers hm)
    rw [lookup_of_mem hn hm, Option.map_some, ← lookup_of_mem (hkeys.nodup_iff.2 hn) hsorted]
  · rw [lookup_eq_none hk, Option.map_none, lookup_eq_none]
    rwa [hkeys.mem_iff]

/-- Objects that are equal up to the order of their members have equal fields up to that order. -/
theorem lookup_eq_of_sortKeys {a b : List (Text × Json)} (ha : (a.map Prod.fst).Nodup)
    (hb : (b.map Prod.fst).Nodup) (h : sortKeys (.obj a) = sortKeys (.obj b)) (key : Text) :
    (lookup a key).map sortKeys = (lookup b key).map sortKeys := by
  rw [sortKeys, sortKeys, obj.injEq] at h
  rw [← lookup_sortKeys ha, ← lookup_sortKeys hb, h]

/-- Equal texts are the texts of values that are equal up to the order of members. -/
theorem sortKeys_eq_of_dumps (ascii : Bool) {w : Json} (hv : Canonical v) (hw : Canonical w)
    (h : dumps ascii v = dumps ascii w) : sortKeys v = sortKeys w :=
  render_injective ascii (canonical_sortKeys v hv) (canonical_sortKeys w hw) h

theorem keysAre_iff {keys : List Text} :
    keysAre members keys = true ↔ ∀ key, key ∈ members.map Prod.fst ↔ key ∈ keys := by
  simp only [keysAre, Bool.and_eq_true, all_eq_true, any_eq_true, contains_iff_mem,
    beq_iff_eq, mem_map]
  constructor
  · rintro ⟨h₁, h₂⟩ key
    exact ⟨fun ⟨m, hm, he⟩ => he ▸ h₁ m hm, fun hk => h₂ key hk⟩
  · intro h
    exact ⟨fun m hm => (h m.1).1 ⟨m, hm, rfl⟩, fun key hk => (h key).2 hk⟩

theorem keysAre_sortKeys (members : List (Text × Json)) (keys : List Text) :
    keysAre (sortedBy Prod.fst (sortKeysMembers members)) keys = keysAre members keys := by
  rw [Bool.eq_iff_iff, keysAre_iff, keysAre_iff]
  simp only [(keys_sortKeys members).mem_iff]

end Riverhog.Core.Json
