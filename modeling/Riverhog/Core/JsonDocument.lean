import Riverhog.Core.JsonRoundtrip
import Riverhog.Core.Utf8

/-!
# Canonical JSON documents

A document is read from bytes by parsing them, building the document from the JSON
value, writing the document again and comparing. If the reader of JSON values inverts
the writer, exactly the written bytes are accepted (`read_eq_ok_iff`), so that every
document has one encoding and every accepted encoding one document.
-/

namespace Riverhog.Core

/-! ## Fields of an object -/

namespace Json

/-- The members of an object as they are read back after `sort_keys`. -/
def sortedMembers (members : List (Text × Json)) : List (Text × Json) :=
  sortedBy Prod.fst (sortKeysMembers members)

theorem sortKeys_obj (members : List (Text × Json)) :
    sortKeys (.obj members) = .obj (sortedMembers members) := by
  rw [sortKeys, sortedMembers]

/-- `mapping[key]`. -/
def item (members : List (Text × Json)) (key : Text) : Py Json :=
  match lookup members key with
  | some value => .ok value
  | none => .error .keyError

/-- A field is read back, its own members sorted. -/
theorem item_sortedMembers {members : List (Text × Json)} (hn : (members.map Prod.fst).Nodup)
    (key : Text) {value : Json} (h : lookup members key = some value) :
    item (sortedMembers members) key = .ok (sortKeys value) := by
  have hl := lookup_sortKeys hn key
  rw [← sortedMembers, h, Option.map_some] at hl
  rw [item, hl]

end Json

/-! ## Documents -/

/-- How a document is written and read: the bytes it may have, the errors of its reader, and its
JSON value in both directions. -/
structure DocumentFormat (ε α : Type) where
  maxBytes : Nat
  tooLong : ε
  notJson : ε
  notCanonical : ε
  toJson : α → Json
  ofJson : Json → Except ε α

namespace DocumentFormat

variable {ε α : Type}

/-- The bytes of a document. -/
def write (format : DocumentFormat ε α) (document : α) : Except ε Bytes := do
  let content := encodeUtf8 (Json.dumps true (format.toJson document))
  require (content.length ≤ format.maxBytes) format.tooLong
  return content

/-- The document of some bytes. -/
def read (format : DocumentFormat ε α) (content : Bytes) : Except ε α := do
  require (content.length ≤ format.maxBytes) format.tooLong
  match decodeUtf8 content with
  | none => .error format.notJson
  | some text =>
    match Json.loads text with
    | none => .error format.notJson
    | some value => do
      let document ← format.ofJson value
      let again ← format.write document
      require (again == encodeUtf8 text) format.notCanonical
      return document

/-- The reader of JSON values inverts the writer. -/
structure Lawful (format : DocumentFormat ε α) : Prop where
  canonical : ∀ document, Json.Canonical (format.toJson document)
  ofJson_toJson : ∀ document, format.ofJson (Json.sortKeys (format.toJson document)) = .ok document

variable {format : DocumentFormat ε α} {document : α} {content : Bytes}

/-- Whatever is accepted is written in the same bytes again. -/
theorem write_of_read (h : format.read content = .ok document) :
    format.write document = .ok content := by
  simp only [read, bind_eq_ok] at h
  obtain ⟨-, -, h⟩ := h
  cases ht : decodeUtf8 content with
  | none => simp [ht] at h
  | some text =>
    cases hv : Json.loads text with
    | none => simp [ht, hv] at h
    | some value =>
      simp only [ht, hv, bind_eq_ok, require_eq_ok, beq_iff_eq] at h
      obtain ⟨parsed, -, again, hagain, -, hsame, h⟩ := h
      rw [← Except.ok.inj h, hagain, hsame, encodeUtf8_of_decodeUtf8 ht]

/-- Exactly the bytes of a document are accepted as that document. -/
theorem Lawful.read_eq_ok_iff (hf : format.Lawful) :
    format.read content = .ok document ↔ format.write document = .ok content := by
  refine ⟨write_of_read, fun h => ?_⟩
  have hwrite := h
  simp only [write, bind_eq_ok, require_eq_ok] at h
  obtain ⟨-, hlength, h⟩ := h
  obtain rfl := Except.ok.inj h
  simp only [read, bind_eq_ok, require_eq_ok, decodeUtf8_encodeUtf8,
    Json.loads_dumps true (hf.canonical document)]
  exact ⟨(), hlength, document, hf.ofJson_toJson document, _, hwrite, (), beq_self_eq_true _, rfl⟩

/-- Two documents with the same bytes are the same. -/
theorem Lawful.write_injective (hf : format.Lawful) {document' : α}
    (h : format.write document = .ok content) (h' : format.write document' = .ok content) :
    document = document' := by
  rw [← hf.read_eq_ok_iff] at h h'
  exact Except.ok.inj (h.symm.trans h')

end DocumentFormat

end Riverhog.Core
