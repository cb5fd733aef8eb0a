import Riverhog.Core.Sha256

/-!
# Frames of a provenance journal

`iter_journal_frames` of `riverhog_provenance.journal`. A journal is a sequence of canonical JSON
objects, each between a record separator and a line feed, and is read in chunks of any size. What
JSON makes of an entry is a parameter: the framing holds for every decoder and encoder.
-/

namespace Riverhog.Provenance

open Core List

/-- `json.loads` with the hooks of the journal, which gives `none` for a document that is not an
object, and `canonical_json`. -/
structure JsonCodec (δ : Type) where
  loads : Bytes → Except String (Option δ)
  canonicalJson : δ → Py Bytes

/-- `RS`. -/
def rs : UInt8 := 0x1e

/-- `LF`. -/
def lf : UInt8 := 0x0a

/-- `PROVENANCE_JOURNAL_ENTRY_BYTES_MAX`. -/
def entryBytesMax : Nat := 8 * 1024 * 1024

/-- `JournalFrame`. -/
structure JournalFrame (δ : Type) where
  sequence : Nat
  jsonBytes : Bytes
  document : δ
  sha256 : Text

/-- A `ProvenanceValidationError` about an entry. -/
def entryError (sequence : Nat) (text : String) : PyError :=
  .valueError ("journal entry " ++ String.ofList (decimal sequence) ++ text)

/-- The error of an entry that is too long. -/
def tooLong (sequence : Nat) : PyError := entryError sequence " exceeds its bounded record contract"

/-- The error of a journal that does not begin as one. -/
def notBegun : PyError := .valueError "journal must begin with an RFC 7464 record separator"

/-- `bytes.strip()`. -/
def stripBytes (b : Bytes) : Bytes :=
  let blank := fun c : UInt8 => c == 32 || 9 ≤ c && c ≤ 13
  ((b.dropWhile blank).reverse.dropWhile blank).reverse

section Definitions

variable {δ : Type} (x : JsonCodec δ)

/-- `encode_entry`. -/
def encodeEntry (document : δ) : Py Bytes := do
  let json ← x.canonicalJson document
  return rs :: json ++ [lf]

/-- `_journal_frame`. -/
def journalFrame (physicalSequence : Nat) (chunk : Bytes) : Py (JournalFrame δ) := do
  require (chunk.length + 1 ≤ entryBytesMax) (tooLong physicalSequence)
  require (chunk.getLast? == some lf) (entryError physicalSequence " has no terminating LF")
  let jsonBytes := chunk.dropLast
  require (!jsonBytes.isEmpty && jsonBytes == stripBytes jsonBytes)
    (entryError physicalSequence " has non-canonical outer whitespace")
  match x.loads jsonBytes with
  | .error e => .error (entryError physicalSequence (" is not strict JSON: " ++ e))
  | .ok none => .error (entryError physicalSequence " must be a JSON object")
  | .ok (some document) => do
    let canonical ← x.canonicalJson document
    require (canonical == jsonBytes) (entryError physicalSequence " is not canonical JSON")
    return ⟨physicalSequence, jsonBytes, document, sha256Hex jsonBytes⟩

/-- The generator between two chunks: the frames it has yielded, which `sequence` counts, and the
buffer, `none` before the journal has started, or what was raised. -/
structure Reading (δ : Type) where
  frames : List (JournalFrame δ)
  buffer : Except PyError (Option Bytes)

/-- The loop over the separators in the buffer, of which `scanned` has none, and the check after
it. -/
def drain (frames : List (JournalFrame δ)) (scanned : Bytes) : Bytes → Reading δ
  | [] =>
    if scanned.length + 1 ≤ entryBytesMax then ⟨frames, .ok (some scanned)⟩
    else ⟨frames, .error (tooLong frames.length)⟩
  | b :: rest =>
    if b = rs then
      match journalFrame x frames.length scanned with
      | .error e => ⟨frames, .error e⟩
      | .ok frame => drain (frames ++ [frame]) [] rest
    else drain frames (scanned ++ [b]) rest

/-- One turn of the loop over the chunks. -/
def feed (s : Reading δ) : Bytes → Reading δ
  | [] => s
  | b :: rest =>
    match s.buffer with
    | .error _ => s
    | .ok none => if b = rs then drain x s.frames [] rest else ⟨s.frames, .error notBegun⟩
    | .ok (some buffer) => drain x s.frames [] (buffer ++ b :: rest)

/-- `iter_journal_frames`: the frames that are yielded, and what is raised after them. -/
def iterJournalFrames (chunks : List Bytes) : List (JournalFrame δ) × Option PyError :=
  let s := chunks.foldl (feed x) ⟨[], .ok none⟩
  match s.buffer with
  | .error e => (s.frames, some e)
  | .ok none => (s.frames, some notBegun)
  | .ok (some []) => (s.frames, if s.frames.isEmpty then
      some (.valueError "journal must contain at least one entry") else none)
  | .ok (some (b :: buffer)) =>
    match journalFrame x s.frames.length (b :: buffer) with
    | .error e => (s.frames, some e)
    | .ok frame => (s.frames ++ [frame], none)

/-- The documents of the frames, encoded again and joined. -/
def reencode (frames : List (JournalFrame δ)) : Py Bytes := do
  let entries ← frames.mapM fun f => encodeEntry x f.document
  return entries.flatten

/-- The framing of `validate_incremental_journal_entry`. -/
def incrementalFrame (sequence : Nat) (encoded : Bytes) : Py (JournalFrame δ) := do
  require (encoded.head? == some rs) (.valueError "journal entry has no RFC 7464 record separator")
  journalFrame x sequence encoded.tail

/-- Entries that are appended one by one: the frames, and what is raised after them. -/
def appendEntries (frames : List (JournalFrame δ)) :
    List Bytes → List (JournalFrame δ) × Option PyError
  | [] => (frames, none)
  | entry :: entries =>
    match incrementalFrame x frames.length entry with
    | .error e => (frames, some e)
    | .ok frame => appendEntries (frames ++ [frame]) entries

/-- The end of `iter_journal_frames`. -/
def Reading.finish (s : Reading δ) : List (JournalFrame δ) × Option PyError :=
  match s.buffer with
  | .error e => (s.frames, some e)
  | .ok none => (s.frames, some notBegun)
  | .ok (some []) => (s.frames, if s.frames.isEmpty then
      some (.valueError "journal must contain at least one entry") else none)
  | .ok (some (b :: buffer)) =>
    match journalFrame x s.frames.length (b :: buffer) with
    | .error e => (s.frames, some e)
    | .ok frame => (s.frames ++ [frame], none)

end Definitions

variable {δ : Type} {x : JsonCodec δ} {frames out : List (JournalFrame δ)} {f : JournalFrame δ}
  {scanned buffer : Bytes}

/-! ## Chunks -/

/-- An entry that is too long is refused where it is found to be, with one error. -/
theorem drain_tooLong (h : entryBytesMax < scanned.length + 1) (rest : Bytes) :
    drain x frames scanned rest = ⟨frames, .error (tooLong frames.length)⟩ := by
  induction rest generalizing scanned with
  | nil => exact if_neg (Nat.not_le.2 h)
  | cons b rest ih =>
    rw [drain]
    split_ifs
    · rw [journalFrame, decide_eq_false (Nat.not_le.2 h)]
      rfl
    · exact ih (by rw [length_append]; omega)

theorem drain_scan (h : rs ∉ buffer) (rest : Bytes) :
    drain x frames scanned (buffer ++ rest) = drain x frames (scanned ++ buffer) rest := by
  induction buffer generalizing scanned with
  | nil => rw [nil_append, append_nil]
  | cons b buffer ih =>
    rw [mem_cons, not_or] at h
    rw [cons_append, drain, if_neg (Ne.symm h.1), ih h.2, append_assoc, singleton_append]

/-- The rest of a buffer may come with the next chunk. -/
theorem feed_drain (h : rs ∉ scanned) (a c : Bytes) :
    feed x (drain x frames scanned a) c = drain x frames scanned (a ++ c) := by
  obtain _ | ⟨b', c⟩ := c
  · rw [append_nil, feed]
  induction a generalizing frames scanned with
  | nil =>
    rw [drain]
    split_ifs with hlength
    · exact drain_scan h _
    · exact (drain_tooLong (Nat.not_le.1 hlength) _).symm
  | cons b a ih =>
    rw [cons_append, drain, drain]
    split_ifs with hb
    · cases journalFrame x frames.length scanned with
      | error e => rfl
      | ok frame => exact ih not_mem_nil
    · exact ih (by simp [h, Ne.symm hb])

theorem feed_feed (a c : Bytes) :
    feed x (feed x ⟨[], .ok none⟩ a) c = feed x ⟨[], .ok none⟩ (a ++ c) := by
  cases a with
  | nil => rfl
  | cons b a =>
    by_cases hb : b = rs
    · simp only [cons_append, feed, if_pos hb]
      exact feed_drain not_mem_nil a c
    · simp only [cons_append, feed, if_neg hb]
      cases c <;> rfl

theorem foldl_feed (chunks : List Bytes) (a : Bytes) :
    chunks.foldl (feed x) (feed x ⟨[], .ok none⟩ a) = feed x ⟨[], .ok none⟩ (a ++ chunks.flatten) := by
  induction chunks generalizing a with
  | nil => rw [flatten_nil, append_nil, foldl_nil]
  | cons chunk chunks ih => rw [foldl_cons, feed_feed, ih, flatten_cons, append_assoc]

/-! ## Entries -/

theorem journalFrame_eq_ok {sequence : Nat} (h : journalFrame x sequence scanned = .ok f) :
    scanned = f.jsonBytes ++ [lf] ∧ x.canonicalJson f.document = .ok f.jsonBytes := by
  simp only [journalFrame, bind_eq_ok, require_eq_ok, beq_iff_eq] at h
  obtain ⟨-, -, -, hlast, -, -, h⟩ := h
  split at h
  · cases h
  · cases h
  · simp only [bind_eq_ok, require_eq_ok, beq_iff_eq] at h
    obtain ⟨canonical, hcanonical, -, rfl, h⟩ := h
    obtain rfl := Except.ok.inj h
    exact ⟨(dropLast_append_getLast? lf hlast).symm, hcanonical⟩

/-- A journal that has been read so far, frame by frame, and the buffer. -/
theorem drain_eq_ok {rest : Bytes} {end? : Option Bytes}
    (hf : ∀ f ∈ frames, x.canonicalJson f.document = .ok f.jsonBytes)
    (h : drain x frames scanned rest = ⟨out, .ok end?⟩) :
    (∀ f ∈ out, x.canonicalJson f.document = .ok f.jsonBytes) ∧ ∃ buffer, end? = some buffer ∧
      frames.flatMap (fun f => f.jsonBytes ++ [lf, rs]) ++ scanned ++ rest =
        out.flatMap (fun f => f.jsonBytes ++ [lf, rs]) ++ buffer := by
  induction rest generalizing frames scanned with
  | nil =>
    rw [drain] at h
    split_ifs at h
    · cases h
      exact ⟨hf, scanned, rfl, append_nil _⟩
    · cases h
  | cons b rest ih =>
    rw [drain] at h
    split_ifs at h with hb
    · cases hframe : journalFrame x frames.length scanned with
      | error e =>
        rw [hframe] at h
        cases h
      | ok frame =>
        rw [hframe] at h
        obtain ⟨rfl, hcanonical⟩ := journalFrame_eq_ok hframe
        obtain ⟨hout, buffer, hend, hall⟩ := ih
          (by simpa only [forall_mem_append, forall_mem_singleton] using ⟨hf, hcanonical⟩) h
        refine ⟨hout, buffer, hend, ?_⟩
        rw [← hall, hb]
        simp
    · obtain ⟨hout, buffer, hend, hall⟩ := ih hf h
      refine ⟨hout, buffer, hend, ?_⟩
      rw [← hall]
      simp

theorem reencode_eq (hf : ∀ f ∈ frames, x.canonicalJson f.document = .ok f.jsonBytes) :
    reencode x frames = .ok (frames.flatMap fun f => rs :: (f.jsonBytes ++ [lf])) := by
  have hentries : frames.mapM (fun f => encodeEntry x f.document) =
      .ok (frames.map fun f => rs :: (f.jsonBytes ++ [lf])) := by
    rw [mapM_eq_ok_iff, forall₂_map_right_iff, forall₂_same]
    intro f hmem
    rw [encodeEntry, hf f hmem]
    rfl
  rw [reencode, hentries, flatMap]
  rfl

/-- Separators before the entries are separators after them. -/
theorem flatMap_rotate (frames : List (JournalFrame δ)) :
    rs :: frames.flatMap (fun f => f.jsonBytes ++ [lf, rs]) =
      frames.flatMap (fun f => rs :: (f.jsonBytes ++ [lf])) ++ [rs] := by
  induction frames with
  | nil => rfl
  | cons f frames ih => simp [ih]

/-- The frames do not depend on the chunks, and the documents of a journal that is read to its end
are the journal again exactly if it does not end with a separator. -/
theorem iterJournalFrames_reencode_iff (x : JsonCodec δ) (chunks : List Bytes) :
    iterJournalFrames x chunks = iterJournalFrames x [chunks.flatten] ∧
      ∀ frames, iterJournalFrames x chunks = (frames, none) →
        (reencode x frames = .ok chunks.flatten ↔ chunks.flatten.getLast? ≠ some rs) := by
  have hfold := @foldl_feed _ x chunks []
  rw [nil_append] at hfold
  change chunks.foldl (feed x) ⟨[], .ok none⟩ = _ at hfold
  refine ⟨by rw [iterJournalFrames, iterJournalFrames, hfold, foldl_cons, foldl_nil], ?_⟩
  intro frames h
  rw [iterJournalFrames, hfold] at h
  generalize chunks.flatten = content at h ⊢
  obtain _ | ⟨b, rest⟩ := content
  · cases h
  by_cases hb : b = rs
  · subst hb
    simp only [feed, if_pos] at h
    cases hdrain : drain x [] [] rest with
    | mk out state =>
      rw [hdrain] at h
      obtain e | end? := state
      · cases h
      obtain ⟨hout, buffer, rfl, hall⟩ := drain_eq_ok (by simp) hdrain
      change rest = _ at hall
      rw [hall, ← cons_append, flatMap_rotate, append_assoc, singleton_append]
      obtain _ | ⟨c, buffer⟩ := buffer
      · obtain rfl : out = frames := congrArg Prod.fst h
        rw [reencode_eq hout]
        simp
      · dsimp only at h
        cases hframe : journalFrame x out.length (c :: buffer) with
        | error e =>
          rw [hframe] at h
          cases h
        | ok frame =>
          rw [hframe] at h
          obtain rfl : out ++ [frame] = frames := congrArg Prod.fst h
          obtain ⟨he, hcanonical⟩ := journalFrame_eq_ok hframe
          rw [he, reencode_eq (by simpa only [forall_mem_append, forall_mem_singleton] using
            ⟨hout, hcanonical⟩)]
          refine iff_of_true (by simp) ?_
          rw [← cons_append, ← append_assoc, getLast?_concat]
          decide
  · simp only [feed, if_neg hb] at h
    cases h

/-- A decoder that takes every entry for `{}`. -/
def emptyObject : JsonCodec Unit := ⟨fun _ => .ok (some ()), fun _ => .ok [123, 125]⟩

theorem iterJournalFrames_two_chunks :
    ∃ frames, iterJournalFrames emptyObject [[rs, 123], [], [125, lf]] = (frames, none) ∧
      (reencode emptyObject frames = .ok [rs, 123, 125, lf] ↔
        [rs, 123, 125, lf].getLast? ≠ some rs) :=
  ⟨_, rfl, (iterJournalFrames_reencode_iff emptyObject [[rs, 123], [], [125, lf]]).2 _ rfl⟩

/-- A separator at the end is read and not written again. -/
theorem iterJournalFrames_last_separator :
    ∃ frames, iterJournalFrames emptyObject [[rs, 123, 125, lf, rs]] = (frames, none) ∧
      reencode emptyObject frames ≠ .ok [rs, 123, 125, lf, rs] :=
  ⟨_, rfl, nofun⟩

/-! ## Appended entries -/

theorem appendEntries_cons (body : Bytes) (entries : List Bytes) :
    appendEntries x frames ((rs :: body) :: entries) =
      match journalFrame x frames.length body with
      | .error e => (frames, some e)
      | .ok frame => appendEntries x (frames ++ [frame]) entries := rfl

theorem finish_drain {body : Bytes} {bodies : List Bytes}
    (h : ∀ b ∈ body :: bodies, b ≠ [] ∧ rs ∉ b) :
    (drain x frames [] (body ++ bodies.flatMap (rs :: ·))).finish x =
      appendEntries x frames ((body :: bodies).map (rs :: ·)) := by
  induction bodies generalizing frames body with
  | nil =>
    obtain ⟨hne, hrs⟩ := h body mem_cons_self
    rw [flatMap_nil, drain_scan hrs, nil_append, drain]
    split_ifs with hlength
    · obtain ⟨b, rest, rfl⟩ := exists_cons_of_ne_nil hne
      rfl
    · rw [map_cons, appendEntries_cons, journalFrame, decide_eq_false hlength]
      rfl
  | cons body' bodies ih =>
    rw [forall_mem_cons] at h
    rw [flatMap_cons, cons_append, drain_scan h.1.2, nil_append, drain, if_pos rfl]
    rw [map_cons, appendEntries_cons]
    cases journalFrame x frames.length body with
    | error e => rfl
    | ok frame => exact ih h.2

/-- Reading a journal in any chunks agrees with validating its entries as they are appended: the
same frames, and the error of the same entry. -/
theorem iterJournalFrames_appended {bodies chunks : List Bytes} (hne : bodies ≠ [])
    (h : ∀ body ∈ bodies, body ≠ [] ∧ rs ∉ body)
    (hchunks : chunks.flatten = bodies.flatMap (rs :: ·)) :
    iterJournalFrames x chunks = appendEntries x [] (bodies.map (rs :: ·)) := by
  obtain ⟨body, bodies, rfl⟩ := exists_cons_of_ne_nil hne
  have hfold := @foldl_feed _ x chunks []
  rw [nil_append, hchunks, flatMap_cons, cons_append] at hfold
  rw [← finish_drain h]
  exact congrArg (Reading.finish x) hfold

/-- The second of two entries is torn in its middle. -/
theorem iterJournalFrames_appended_torn :
    iterJournalFrames emptyObject [[rs, 123], [], [125, lf, rs, 123]] =
      appendEntries emptyObject [] [[rs, 123, 125, lf], [rs, 123]] :=
  @iterJournalFrames_appended _ emptyObject [[123, 125, lf], [123]] _ (by decide) (by decide) rfl

end Riverhog.Provenance
