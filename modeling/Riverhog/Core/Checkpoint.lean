import Riverhog.Core.Fips180
import Riverhog.Core.JsonRoundtrip

/-!
# A SHA-256 state that survives a restart

`CheckpointSHA256` of `riverhog_core.checkpoint_sha256`: a hash whose chaining value,
unfinished block and length are written out as JSON and read back. `CheckpointSHA256.of`
names the state after a message. Every operation is determined on those states: an
update appends to the message, the digest is the digest of the message, and reading
back what was written gives the same state. A hash that is carried through any number
of restarts is then the hash of the concatenated updates.
-/

namespace Riverhog.Core

open Json Sha256 List

/-- `bytes.fromhex(text)`, `none` where it raises. -/
def fromHex : Text → Option Bytes
  | [] => some []
  | [c] => if c.toNat < 128 ∧ isSpace c then some [] else none
  | c :: d :: rest =>
    if c.toNat < 128 ∧ isSpace c then fromHex (d :: rest)
    else do
      let high ← hexValue c
      let low ← hexValue d
      let bytes ← fromHex rest
      return UInt8.ofNat (high * 16 + low) :: bytes

/-- `bytes.fromhex` inverts `bytes.hex`. -/
theorem fromHex_hex (b : Bytes) : fromHex (hex b) = some b := by
  induction b with
  | nil => rfl
  | cons x b ih =>
    have hx : ∀ n < 256, ∃ high low, zeroPadded 16 2 n = [Nat.digitChar high, Nat.digitChar low] ∧
        high < 16 ∧ low < 16 ∧ high * 16 + low = n := by
      intro n hn
      refine ⟨n / 16, n % 16, ?_, by omega, by omega, by omega⟩
      have hall : ∀ n < 256, zeroPadded 16 2 n = [Nat.digitChar (n / 16), Nat.digitChar (n % 16)] := by
        decide +kernel
      exact hall n hn
    obtain ⟨high, low, hz, hh, hl, hn⟩ := hx x.toNat x.toNat_lt
    have hspace : ∀ d < 16, ¬ ((Nat.digitChar d).toNat < 128 ∧ isSpace (Nat.digitChar d)) := by decide
    rw [hex, flatMap_cons, ← hex, hz]
    change fromHex (Nat.digitChar high :: Nat.digitChar low :: hex b) = _
    rw [fromHex, if_neg (hspace high hh), hexValue_digitChar high hh, hexValue_digitChar low hl, ih]
    change some (UInt8.ofNat (high * 16 + low) :: b) = _
    rw [hn, UInt8.ofNat_toNat]

/-- The state of a resumable hash. -/
structure CheckpointSHA256 where
  h : Sha256.Chain
  buffer : Bytes
  totalBytes : Nat
  deriving DecidableEq

namespace CheckpointSHA256

/-- `CheckpointSHA256()`. -/
def new : CheckpointSHA256 := ⟨initial, [], 0⟩

section

variable (s : CheckpointSHA256)

/-- `update`: compress every complete block and keep the rest. -/
def update (data : Bytes) : CheckpointSHA256 :=
  let absorbed := absorb s.h (s.buffer ++ data)
  ⟨absorbed.1, absorbed.2, s.totalBytes + data.length⟩

/-- `digest`; the length in bits must fit eight bytes. -/
def digest : Py Bytes := do
  require (8 * s.totalBytes < 2 ^ 64) .overflowError
  let tail := 0x80 :: zeros ((119 - s.buffer.length) % 64) ++ bigEndian 8 (8 * s.totalBytes)
  return (absorb s.h (s.buffer ++ tail)).1.toBytes

/-- `hexdigest`. -/
def hexdigest : Py Text := do
  let digest ← s.digest
  return hex digest

/-- The format name of an exported state. -/
def format : Text := "riverhog-private-sha256-checkpoint/v1"

/-- The words of a chaining value. -/
def words (c : Sha256.Chain) : List Nat := [c.a, c.b, c.c, c.d, c.e, c.f, c.g, c.h]

/-- The fields of an exported state. -/
def fields : List (Text × Json) :=
  [("format", .str format), ("h", .arr ((words s.h).map Json.nat)),
    ("buffer_hex", .str (hex s.buffer)), ("total_bytes", .nat s.totalBytes)]

/-- `export_state`. -/
def exportState : Text := dumps true (.obj s.fields)

end

/-- `isinstance(value, int)`, which a `bool` passes. -/
def asInt : Json → Option Int
  | .int n => some n
  | .bool b => some (if b then 1 else 0)
  | _ => none

/-- The chaining value of eight words. -/
def chainOf : List Int → Option Sha256.Chain
  | [a, b, c, d, e, f, g, h] =>
    if [a, b, c, d, e, f, g, h].all fun w => 0 ≤ w && w ≤ (mask : Int) then
      some ⟨a.toNat, b.toNat, c.toNat, d.toNat, e.toNat, f.toNat, g.toNat, h.toNat⟩
    else none
  | _ => none

/-- The checks of `from_state` on a decoded state. -/
def ofFields (h buffer total : Json) : Option CheckpointSHA256 :=
  match h, buffer with
  | .arr words, .str buffer => do
    let words ← words.mapM asInt
    let h ← chainOf words
    let buffer ← fromHex buffer
    let total ← asInt total
    if 0 ≤ total && buffer.length < 64 && total % 64 == (buffer.length : Int) then
      return ⟨h, buffer, total.toNat⟩
    else none
  | _, _ => none

/-- `from_state`. -/
def fromState (state : Text) : Py CheckpointSHA256 :=
  match loads state with
  | some (.obj members) =>
    match lookup members "format", lookup members "h",
      lookup members "buffer_hex", lookup members "total_bytes" with
    | some (.str name), some h, some buffer, some total =>
      if name = format then
        match ofFields h buffer total with
        | some s => .ok s
        | none => .error (.valueError "invalid SHA-256 checkpoint")
      else .error (.valueError "invalid SHA-256 checkpoint")
    | _, _, _, _ => .error (.valueError "invalid SHA-256 checkpoint")
  | some _ => .error .typeError
  | none => .error (.valueError "invalid SHA-256 checkpoint")

/-! ## The state after a message -/

/-- The state after the message `m`. -/
def of (m : Bytes) : CheckpointSHA256 :=
  ⟨(absorb initial m).1, (absorb initial m).2, m.length⟩

theorem new_eq : new = of [] := rfl

/-- An update appends to the message. -/
@[simp] theorem update_of (m data : Bytes) : (of m).update data = of (m ++ data) := by
  simp only [update, of, absorb_append Sha256.initial m data, length_append]

/-- The digest is the digest of the message. -/
theorem digest_of {m : Bytes} (h : m.length < 2 ^ 61) : (of m).digest = .ok (sha256 m) := by
  have hbound : decide (8 * (of m).totalBytes < 2 ^ 64) = true := by
    rw [decide_eq_true_iff]
    change 8 * m.length < 2 ^ 64
    omega
  have hlen : (of m).buffer.length = m.length % 64 :=
    length_absorb_snd initial m
  rw [digest, hbound, require_true, ok_bind, hlen, sha256, absorb_append]
  rfl

theorem hexdigest_of {m : Bytes} (h : m.length < 2 ^ 61) :
    (of m).hexdigest = .ok (sha256Hex m) := by
  rw [hexdigest, digest_of h]
  rfl

theorem length_of_hexdigest {m : Bytes} {t : Text} (h : (of m).hexdigest = .ok t) :
    m.length < 2 ^ 61 := by
  simp only [hexdigest, digest, bind_eq_ok, require_eq_ok, decide_eq_true_iff] at h
  obtain ⟨-, ⟨-, hlt, -⟩, -⟩ := h
  change 8 * m.length < 2 ^ 64 at hlt
  omega

/-- A recorded digest is the digest of the message. -/
theorem eq_of_hexdigest {m : Bytes} {t : Text} (h : (of m).hexdigest = .ok t) :
    t = sha256Hex m := by
  rw [hexdigest_of (length_of_hexdigest h)] at h
  exact (Except.ok.inj h).symm

/-! ## Export -/

/-- The words of a chaining value fit 32 bits. -/
def Bounded (c : Sha256.Chain) : Prop := ∀ w ∈ words c, w ≤ mask

theorem bounded_compress (c : Sha256.Chain) (block : Bytes) : Bounded (compress c block) := by
  have hand : ∀ n : Nat, n &&& mask ≤ mask := fun _ => Nat.and_le_right
  intro w hw
  simp only [words, compress, mem_cons, not_mem_nil, or_false] at hw
  rcases hw with rfl | rfl | rfl | rfl | rfl | rfl | rfl | rfl <;> exact hand _

theorem bounded_compressBlocks {c : Sha256.Chain} (hc : Bounded c) (n : Nat) (m : Bytes) :
    Bounded (compressBlocks n c m) := by
  induction n generalizing c m with
  | zero => exact hc
  | succ n ih => exact ih (bounded_compress c _) _

theorem bounded_of (m : Bytes) : Bounded (of m).h := by
  apply bounded_compressBlocks
  unfold Bounded
  decide

theorem chainOf_words {c : Sha256.Chain} (hc : Bounded c) :
    chainOf ((words c).map Int.ofNat) = some c := by
  have hall : ((words c).map Int.ofNat).all (fun w => 0 ≤ w && w ≤ (mask : Int)) = true := by
    rw [all_map, all_eq_true]
    intro w hw
    have hle := hc w hw
    simp only [Function.comp_apply, Int.ofNat_eq_natCast, Bool.and_eq_true, decide_eq_true_eq]
    omega
  exact if_pos hall

theorem mapM_asInt (ns : List Nat) : (ns.map Json.nat).mapM asInt = some (ns.map Int.ofNat) := by
  induction ns with
  | nil => rfl
  | cons n ns ih =>
    rw [map_cons, mapM_cons, ih]
    rfl

theorem nodup_fields (s : CheckpointSHA256) : (s.fields.map Prod.fst).Nodup := by
  have hkeys : ["format".toList, "h".toList, "buffer_hex".toList, "total_bytes".toList].Nodup := by
    decide
  exact hkeys

theorem canonicalItems_nat (ns : List Nat) : CanonicalItems (ns.map Json.nat) := by
  rw [canonicalItems_iff, forall_mem_map]
  intro n _
  rw [Json.nat, Canonical]
  trivial

theorem canonical_fields (s : CheckpointSHA256) : Canonical (.obj s.fields) := by
  rw [Canonical]
  refine ⟨s.nodup_fields, ?_⟩
  simp only [fields, CanonicalMembers, Canonical, Json.nat, and_true, true_and]
  exact canonicalItems_nat _

theorem ofFields_of (m : Bytes) :
    ofFields (.arr ((words (of m).h).map Json.nat)) (.str (hex (of m).buffer)) (.nat m.length) =
      some (of m) := by
  have hlen : (of m).buffer.length = m.length % 64 := length_absorb_snd initial m
  have hcheck : (0 ≤ (m.length : Int) && (of m).buffer.length < 64 &&
      (m.length : Int) % 64 == ((of m).buffer.length : Int)) = true := by
    rw [hlen]
    simp only [Bool.and_eq_true, decide_eq_true_eq, beq_iff_eq]
    omega
  simp only [ofFields, mapM_asInt, chainOf_words (bounded_of m), fromHex_hex, Option.bind_eq_bind,
    Option.bind_some, Json.nat, asInt]
  rw [if_pos hcheck]
  rfl

/-- Reading back an exported state gives the same state. -/
theorem fromState_exportState (m : Bytes) : fromState (exportState (of m)) = .ok (of m) := by
  have hlook := lookup_sortKeys (of m).nodup_fields
  have hformat : lookup (of m).fields "format" = some (.str format) := rfl
  have hh : lookup (of m).fields "h" = some (.arr ((words (of m).h).map Json.nat)) := rfl
  have hbuffer : lookup (of m).fields "buffer_hex" = some (.str (hex (of m).buffer)) := rfl
  have htotal : lookup (of m).fields "total_bytes" = some (.nat m.length) := rfl
  have hwords : ((words (of m).h).map Json.nat).map sortKeys = (words (of m).h).map Json.nat := by
    rw [map_map]
    apply map_congr_left
    intro n _
    rw [Function.comp_apply, Json.nat, sortKeys]
  rw [exportState, fromState, loads_dumps true (canonical_fields _), sortKeys]
  simp only [hlook, hformat, hh, hbuffer, htotal, Option.map_some, sortKeys,
    sortKeysItems_eq_map, hwords, if_true]
  rw [show sortKeys (Json.nat m.length) = Json.nat m.length by rw [Json.nat, sortKeys], ofFields_of]

/-! ## Updates, restarts and digests -/

/-- What may happen to a hash: an update, `from_state` of its exported state, or a digest. -/
inductive Op where
  | update (data : Bytes)
  | restart | digest

namespace Op

def perform (s : CheckpointSHA256) : Op → Py CheckpointSHA256
  | update data => .ok (s.update data)
  | restart => fromState s.exportState
  | digest => do
    let _ ← s.digest
    return s

/-- The bytes that an operation adds to the message. -/
def data : Op → Bytes
  | update data => data
  | restart => []
  | digest => []

theorem perform_of (op : Op) {m : Bytes} (h : m.length < 2 ^ 61) :
    op.perform (of m) = .ok (of (m ++ op.data)) := by
  cases op with
  | update data => rw [perform, update_of, Op.data]
  | restart => rw [perform, fromState_exportState, Op.data, append_nil]
  | digest =>
    rw [perform, digest_of h, Op.data, append_nil]
    rfl

theorem foldlM_perform (ops : List Op) (m : Bytes) (h : (m ++ ops.flatMap data).length < 2 ^ 61) :
    ops.foldlM perform (of m) = .ok (of (m ++ ops.flatMap data)) := by
  induction ops generalizing m with
  | nil => rw [flatMap_nil, append_nil]; rfl
  | cons op ops ih =>
    rw [flatMap_cons, ← append_assoc] at h ⊢
    rw [foldlM_cons, perform_of op (by simp at h; omega), ok_bind, ih _ h]

end Op

/-- Whatever updates, restarts and digests a hash goes through, its digest is the SHA-256 of the
standard of the concatenated updates, and its exported state reads back as itself. -/
theorem digest_of_operations (ops : List Op) (h : (ops.flatMap Op.data).length < 2 ^ 61) :
    ∃ s, ops.foldlM Op.perform new = .ok s ∧ s.digest = .ok (Fips180.digest (ops.flatMap Op.data)) ∧
      fromState s.exportState = .ok s ∧ Op.digest.perform s = .ok s := by
  refine ⟨of (ops.flatMap Op.data), Op.foldlM_perform ops [] h, ?_, fromState_exportState _, ?_⟩
  · rw [digest_of h, Fips180.sha256_eq_digest]
  · rw [Op.perform, digest_of h]
    rfl

/-- The message `abc` in two updates around a restart and a digest. -/
theorem digest_of_abc :
    let ops := [Op.update [97], .restart, .digest, .update [98, 99]]
    (ops.flatMap Op.data).length < 2 ^ 61 ∧ ∃ s, ops.foldlM Op.perform new = .ok s ∧
      s.digest = .ok (Fips180.digest (ops.flatMap Op.data)) ∧
      fromState s.exportState = .ok s ∧ Op.digest.perform s = .ok s :=
  ⟨by decide, digest_of_operations _ (by decide)⟩

end CheckpointSHA256

end Riverhog.Core
