import Riverhog.Core.Python

/-!
# UTF-8

The encoding of a text is the concatenation of the encodings of its characters.
A strict decoder inverts it, and the byte order of encoded texts is the order of
the texts by code point, so a database that compares encoded keys and a program
that compares strings sort alike.
-/

namespace Riverhog.Core

open List

/-- Bytes are ordered by value. -/
instance byteOrder : LinearOrder UInt8 where
  le_refl := UInt8.le_refl
  le_trans := fun _ _ _ => UInt8.le_trans
  le_antisymm := fun _ _ => UInt8.le_antisymm
  lt_iff_le_not_ge := fun a b => by
    rw [UInt8.lt_iff_toNat_lt, UInt8.le_iff_toNat_le, UInt8.le_iff_toNat_le]
    omega
  le_total := UInt8.le_total
  toDecidableLE := inferInstance
  toDecidableEq := inferInstance
  toDecidableLT := inferInstance

/-- `text.encode("utf-8")`. -/
def encodeUtf8 (t : Text) : Bytes := t.flatMap String.utf8EncodeChar

@[simp] theorem encodeUtf8_nil : encodeUtf8 [] = [] := rfl

@[simp] theorem encodeUtf8_cons (c : Char) (t : Text) :
    encodeUtf8 (c :: t) = String.utf8EncodeChar c ++ encodeUtf8 t := rfl

@[simp] theorem encodeUtf8_append (s t : Text) :
    encodeUtf8 (s ++ t) = encodeUtf8 s ++ encodeUtf8 t := flatMap_append

/-- The number of bytes of a character determines the bytes. -/
theorem utf8EncodeChar_cases (c : Char) :
    (c.toNat < 0x80 ∧ String.utf8EncodeChar c = [UInt8.ofNat c.toNat]) ∨
    (0x80 ≤ c.toNat ∧ c.toNat < 0x800 ∧ String.utf8EncodeChar c =
      [UInt8.ofNat (0xC0 + c.toNat / 64), UInt8.ofNat (0x80 + c.toNat % 64)]) ∨
    (0x800 ≤ c.toNat ∧ c.toNat < 0x10000 ∧ String.utf8EncodeChar c =
      [UInt8.ofNat (0xE0 + c.toNat / 4096), UInt8.ofNat (0x80 + c.toNat / 64 % 64),
        UInt8.ofNat (0x80 + c.toNat % 64)]) ∨
    (0x10000 ≤ c.toNat ∧ c.toNat < 0x110000 ∧ String.utf8EncodeChar c =
      [UInt8.ofNat (0xF0 + c.toNat / 262144), UInt8.ofNat (0x80 + c.toNat / 4096 % 64),
        UInt8.ofNat (0x80 + c.toNat / 64 % 64), UInt8.ofNat (0x80 + c.toNat % 64)]) := by
  have hv : c.val.toNat = c.toNat := rfl
  have hmax : c.toNat < 0x110000 := by
    rcases c.valid with h | h <;> (rw [hv] at h; omega)
  rw [String.utf8EncodeChar]
  simp only [hv]
  by_cases h₁ : c.toNat ≤ 0x7F
  · exact .inl ⟨by omega, if_pos h₁⟩
  rw [if_neg h₁]
  by_cases h₂ : c.toNat ≤ 0x7FF
  · refine .inr (.inl ⟨by omega, by omega, ?_⟩)
    rw [if_pos h₂, show c.toNat / 64 % 32 + 192 = 0xC0 + c.toNat / 64 by omega,
      Nat.add_comm (c.toNat % 64)]
  rw [if_neg h₂]
  by_cases h₃ : c.toNat ≤ 0xFFFF
  · refine .inr (.inr (.inl ⟨by omega, by omega, ?_⟩))
    rw [if_pos h₃, show c.toNat / 4096 % 16 + 224 = 0xE0 + c.toNat / 4096 by omega,
      Nat.add_comm (c.toNat % 64), Nat.add_comm (c.toNat / 64 % 64)]
  · refine .inr (.inr (.inr ⟨by omega, by omega, ?_⟩))
    rw [if_neg h₃, show c.toNat / 262144 % 8 + 240 = 0xF0 + c.toNat / 262144 by omega,
      Nat.add_comm (c.toNat % 64), Nat.add_comm (c.toNat / 64 % 64),
      Nat.add_comm (c.toNat / 4096 % 64)]

theorem utf8EncodeChar_ne_nil (c : Char) : String.utf8EncodeChar c ≠ [] := by
  rcases utf8EncodeChar_cases c with ⟨-, he⟩ | ⟨-, -, he⟩ | ⟨-, -, he⟩ | ⟨-, -, he⟩ <;>
    (rw [he]; exact cons_ne_nil _ _)

@[simp] theorem encodeUtf8_eq_nil {t : Text} : encodeUtf8 t = [] ↔ t = [] := by
  cases t with
  | nil => simp
  | cons c t => simp [utf8EncodeChar_ne_nil c]

/-- An ASCII character is one byte. -/
theorem encodeUtf8_ascii {t : Text} (h : ∀ c ∈ t, c.toNat < 128) :
    encodeUtf8 t = t.map fun c => UInt8.ofNat c.toNat := by
  induction t with
  | nil => rfl
  | cons c t ih =>
    have hc := h c mem_cons_self
    rcases utf8EncodeChar_cases c with ⟨-, he⟩ | ⟨h₁, -⟩ | ⟨h₁, -⟩ | ⟨h₁, -⟩
    · rw [encodeUtf8_cons, he, ih fun c hc => h c (mem_cons_of_mem _ hc)]
      rfl
    all_goals omega

/-- The bytes of a numeral in a base of at most ten. -/
theorem encodeUtf8_digits {t : Text} (h : ∀ c ∈ t, ∃ d < 10, c = Nat.digitChar d) :
    encodeUtf8 t = t.map fun c => UInt8.ofNat c.toNat := by
  have hd : ∀ d < 10, (Nat.digitChar d).toNat < 128 := by decide
  refine encodeUtf8_ascii fun c hc => ?_
  obtain ⟨d, hlt, rfl⟩ := h c hc
  exact hd d hlt

/-- Reading the bytes of a numeral digit by digit gives its number. -/
theorem foldl_encodeUtf8_digits (base : Nat) {t : Text} (acc : Nat)
    (h : ∀ c ∈ t, ∃ d < 10, c = Nat.digitChar d) :
    (encodeUtf8 t).foldl (fun n b => n * base + (b.toNat - 48)) acc =
      Nat.ofDigitChars base t acc := by
  rw [encodeUtf8_digits h]
  induction t generalizing acc with
  | nil => rfl
  | cons c t ih =>
    obtain ⟨d, hd, rfl⟩ := h c mem_cons_self
    have hv : ∀ d < 10, (UInt8.ofNat (Nat.digitChar d).toNat).toNat - 48 = d := by decide
    rw [map_cons, foldl_cons, ih _ fun c hc => h c (mem_cons_of_mem _ hc), hv d hd,
      Nat.ofDigitChars_cons_digitChar_of_lt_ten hd, Nat.mul_comm]

/-- Only the NUL character is encoded with a zero byte. -/
theorem zero_not_mem_encodeUtf8 {t : Text} (h : '\x00' ∉ t) : (0 : UInt8) ∉ encodeUtf8 t := by
  have hz : ∀ n < 256, n ≠ 0 → (0 : UInt8) ≠ UInt8.ofNat n := by decide +kernel
  intro hm
  rw [encodeUtf8, mem_flatMap] at hm
  obtain ⟨c, hc, hm⟩ := hm
  have hne : c.toNat ≠ 0 := by
    intro he
    have hc0 : c = '\x00' := Char.toNat_inj.1 he
    exact h (hc0 ▸ hc)
  rcases utf8EncodeChar_cases c with ⟨h₁, he⟩ | ⟨h₁, h₂, he⟩ | ⟨h₁, h₂, he⟩ | ⟨h₁, h₂, he⟩ <;>
    rw [he] at hm <;> simp only [mem_cons, not_mem_nil, or_false] at hm
  · exact hz _ (by omega) hne hm
  · rcases hm with hm | hm <;> exact hz _ (by omega) (by omega) hm
  · rcases hm with hm | hm | hm <;> exact hz _ (by omega) (by omega) hm
  · rcases hm with hm | hm | hm | hm <;> exact hz _ (by omega) (by omega) hm

/-- The last byte of a character is a slash only for a slash. -/
theorem getLast?_utf8EncodeChar {c : Char} {b : UInt8} (hb : b.toNat < 128)
    (h : (String.utf8EncodeChar c).getLast? = some b) : c.toNat = b.toNat := by
  rcases utf8EncodeChar_cases c with ⟨h₁, he⟩ | ⟨h₁, h₂, he⟩ | ⟨h₁, h₂, he⟩ | ⟨h₁, h₂, he⟩ <;>
    rw [he] at h <;> simp only [getLast?_cons_cons, getLast?_singleton,
      Option.some.injEq] at h <;> rw [← h, UInt8.toNat_ofNat'] at hb ⊢ <;> omega

/-! ## Decoding -/

/-- `data.decode("utf-8")`: nothing for bytes that encode no text. -/
def decodeUtf8 (b : Bytes) : Option Text := b.toByteArray.utf8Decode?.map Array.toList

/-- Decoding inverts encoding. -/
theorem decodeUtf8_encodeUtf8 (t : Text) : decodeUtf8 (encodeUtf8 t) = some t := by
  have h : (encodeUtf8 t).toByteArray = t.utf8Encode := rfl
  rw [decodeUtf8, h, utf8Decode?_utf8Encode, Option.map_some, toList_toArray]

theorem encodeUtf8_injective : Function.Injective encodeUtf8 := by
  intro s t h
  have hs := decodeUtf8_encodeUtf8 s
  rw [h, decodeUtf8_encodeUtf8] at hs
  exact (Option.some.inj hs).symm

/-- Encoding inverts decoding. -/
theorem encodeUtf8_of_decodeUtf8 {b : Bytes} {t : Text} (h : decodeUtf8 b = some t) :
    encodeUtf8 t = b := by
  obtain ⟨chars, hchars, rfl⟩ := Option.map_eq_some_iff.1 h
  have hsome : b.toByteArray.utf8Decode?.isSome := by
    rw [hchars]
    rfl
  have hget : b.toByteArray.utf8Decode?.get hsome = chars := by
    simp only [hchars, Option.get_some]
  have hencode := @ByteArray.utf8Encode_get_utf8Decode? b.toByteArray hsome
  rw [hget] at hencode
  change (encodeUtf8 chars.toList).toByteArray = b.toByteArray at hencode
  have hdata := congrArg (fun a => a.data.toList) hencode
  simpa only [toList_data_toByteArray] using hdata

end Riverhog.Core
