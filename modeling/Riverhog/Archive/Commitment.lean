import Riverhog.Archive.Documents

/-!
# The commitment to the archive volumes

`ordered_archive_volume_commitment` hashes one record for each document of the sequence:
a fixed label, the ordinal, the kind and the digest of the document's bytes. The records
are decoded from the left, so that equal commitments are commitments to the same
documents (`orderedArchiveVolumeCommitment_injective`), as far as SHA-256 has no
collision among the texts that are hashed.
-/

namespace Riverhog.Core

open List

theorem hex_injective : Function.Injective hex := by
  intro a
  induction a with
  | nil =>
    intro b h
    have hlength := congrArg length h
    rw [length_hex, length_hex, length_nil] at hlength
    exact (length_eq_zero_iff.1 (by omega)).symm
  | cons x a ih =>
    intro b h
    have hlength := congrArg length h
    rw [length_hex, length_hex, length_cons] at hlength
    cases b with
    | nil => simp at hlength
    | cons y b =>
      have hwidth : ∀ z : UInt8, (zeroPadded 16 2 z.toNat).length = 2 := fun z =>
        length_zeroPadded (by decide) (by decide) (by simpa using z.toNat_lt)
      rw [hex, hex, flatMap_cons, flatMap_cons] at h
      obtain ⟨hhead, htail⟩ := append_inj h ((hwidth x).trans (hwidth y).symm)
      have hxy := zeroPadded_inj (by decide) (by decide) (by decide)
        (by simpa using x.toNat_lt) (by simpa using y.toNat_lt) hhead
      rw [UInt8.toNat_inj.1 hxy, ih htail]

/-- A stream of records, each of which is read back from the front of a stream, determines the
records. -/
theorem eq_of_flatMap_eq {α : Type} {record : α → Bytes} {s t : List α}
    (hne : ∀ a ∈ s ++ t, record a ≠ [])
    (hread : ∀ a ∈ s, ∀ b ∈ t, ∀ u v, record a ++ u = record b ++ v → a = b ∧ u = v)
    (h : s.flatMap record = t.flatMap record) : s = t := by
  induction s generalizing t with
  | nil =>
    cases t with
    | nil => rfl
    | cons b t =>
      rw [flatMap_nil, flatMap_cons] at h
      exact absurd (append_eq_nil_iff.1 h.symm).1 (hne b (mem_cons_self ..))
  | cons a s ih =>
    cases t with
    | nil =>
      rw [flatMap_nil, flatMap_cons] at h
      exact absurd (append_eq_nil_iff.1 h).1 (hne a (mem_cons_self ..))
    | cons b t =>
      rw [flatMap_cons, flatMap_cons] at h
      obtain ⟨rfl, htail⟩ := hread a (mem_cons_self ..) b (mem_cons_self ..) _ _ h
      have hsub : ∀ c ∈ s ++ t, record c ≠ [] := by
        intro c hc
        refine hne c ?_
        rw [mem_append] at hc ⊢
        exact hc.imp (mem_cons_of_mem _) (mem_cons_of_mem _)
      rw [ih hsub (fun c hc d hd => hread c (mem_cons_of_mem _ hc) d
        (mem_cons_of_mem _ hd)) htail]

end Riverhog.Core

namespace Riverhog.Archive

open Core Protocol Pack Upload List

/-- `ArchiveSequenceDocument`. -/
inductive ArchiveSequenceDocument where
  | volume (document : CollectionArchiveVolumeDocument)
  | terminal (document : CollectionArchiveTerminalDocument)

namespace ArchiveSequenceDocument

/-- The ordinal of a document. -/
def sequence : ArchiveSequenceDocument → Nat
  | volume d => d.volume.sequence
  | terminal d => d.sequence

/-- Whether a document is a terminal. -/
def isTerminal : ArchiveSequenceDocument → Bool
  | volume _ => false
  | terminal _ => true

/-- The kind that is committed to. -/
def kind : ArchiveSequenceDocument → Text
  | volume _ => "volume"
  | terminal _ => "terminal"

/-- `to_json_bytes`. -/
def toJsonBytes : ArchiveSequenceDocument → Py Bytes
  | volume d => volumeFormat.write d
  | terminal d => terminalFormat.write d

/-- The bytes of a document that is not too long. -/
def content : ArchiveSequenceDocument → Bytes
  | volume d => encodeUtf8 (Json.dumps true (.obj d.toMapping))
  | terminal d => encodeUtf8 (Json.dumps true (.obj d.toMapping))

/-- What a document of some bytes adds to the commitment. -/
def record (d : ArchiveSequenceDocument) (bytes : Bytes) : Bytes :=
  encodeUtf8 "riverhog-archive-volume-sequence/v1\x00" ++ bigEndian 32 d.sequence ++ [0] ++
    encodeUtf8 d.kind ++ [0] ++ sha256 bytes

end ArchiveSequenceDocument

/-- `update_archive_sequence_commitment`, where the digest is what was hashed so far. -/
def updateArchiveSequenceCommitment (digest : Bytes) (document : ArchiveSequenceDocument) :
    Py Bytes := do
  let bytes ← document.toJsonBytes
  return digest ++ document.record bytes

/-- The loop of `ordered_archive_volume_commitment`: what was hashed, the expected sequence and
whether the last document was a terminal. -/
def commitDocuments : List ArchiveSequenceDocument → Bytes → Nat → Bool → Py (Bytes × Nat × Bool)
  | [], digest, expectedSequence, ended => .ok (digest, expectedSequence, ended)
  | document :: rest, digest, expectedSequence, ended => do
    require (!(ended || document.sequence != expectedSequence))
      (archiveManifestError "archive volume sequence is not canonical")
    let digest ← updateArchiveSequenceCommitment digest document
    commitDocuments rest digest (expectedSequence + 1) document.isTerminal

/-- `ordered_archive_volume_commitment`. -/
def orderedArchiveVolumeCommitment (documents : List ArchiveSequenceDocument) : Py Text := do
  let (digest, expectedSequence, ended) ← commitDocuments documents [] 0 false
  require (ended && decide (2 ≤ expectedSequence))
    (archiveManifestError "archive volume sequence has no authenticated terminator")
  return sha256Hex digest

/-- The texts that are hashed for a commitment. -/
def hashedTexts (documents : List ArchiveSequenceDocument) : List Bytes :=
  documents.flatMap (fun d => d.record d.content) :: documents.map ArchiveSequenceDocument.content

/-! ## What is hashed -/

variable {d e : ArchiveSequenceDocument} {documents : List ArchiveSequenceDocument} {c : Text}

theorem content_eq_of_toJsonBytes {bytes : Bytes} (h : d.toJsonBytes = .ok bytes) :
    bytes = d.content := by
  cases d with
  | volume d =>
    simp only [ArchiveSequenceDocument.toJsonBytes, DocumentFormat.write, bind_eq_ok] at h
    obtain ⟨-, -, h⟩ := h
    exact (Except.ok.inj h).symm
  | terminal d =>
    simp only [ArchiveSequenceDocument.toJsonBytes, DocumentFormat.write, bind_eq_ok] at h
    obtain ⟨-, -, h⟩ := h
    exact (Except.ok.inj h).symm

/-- Two documents of one kind with the same bytes are the same. -/
theorem eq_of_content_eq (hd : d.toJsonBytes = .ok d.content) (he : e.toJsonBytes = .ok e.content)
    (hk : d.kind = e.kind) (h : d.content = e.content) : d = e := by
  rw [h] at hd
  cases d with
  | volume d =>
    cases e with
    | volume e => exact congrArg ArchiveSequenceDocument.volume (volumeFormat_lawful.write_injective hd he)
    | terminal e => exact absurd hk (show "volume".toList ≠ "terminal".toList by decide)
  | terminal d =>
    cases e with
    | volume e => exact absurd hk (show "terminal".toList ≠ "volume".toList by decide)
    | terminal e => exact congrArg ArchiveSequenceDocument.terminal (terminalFormat_lawful.write_injective hd he)

theorem record_ne_nil (d : ArchiveSequenceDocument) (bytes : Bytes) : d.record bytes ≠ [] := by
  rw [ArchiveSequenceDocument.record]
  simp

/-- The kind and the digest are read back from the front of a stream of records. -/
theorem record_append_inj {a b u v : Bytes} (h : d.record a ++ u = e.record b ++ v) :
    d.kind = e.kind ∧ sha256 a = sha256 b ∧ u = v := by
  simp only [ArchiveSequenceDocument.record, append_assoc] at h
  have h := append_cancel_left h
  obtain ⟨-, h⟩ := append_inj h (by rw [length_bigEndian, length_bigEndian])
  have h := append_cancel_left h
  have hkind : d.kind = e.kind := by
    cases d with
    | volume d =>
      cases e with
      | volume e => rfl
      | terminal e =>
        have hhead : some (118 : UInt8) = some 116 := congrArg head? h
        exact absurd hhead (by decide)
    | terminal d =>
      cases e with
      | volume e =>
        have hhead : some (116 : UInt8) = some 118 := congrArg head? h
        exact absurd hhead (by decide)
      | terminal e => rfl
  rw [hkind] at h
  have h := append_cancel_left (append_cancel_left h)
  obtain ⟨hdigest, htail⟩ := append_inj h (by rw [length_sha256, length_sha256])
  exact ⟨hkind, hdigest, htail⟩

/-- The loop hashes the records of the documents, each of which can be written. -/
theorem commitDocuments_eq {digest : Bytes} {expectedSequence : Nat} {ended : Bool}
    {result : Bytes × Nat × Bool}
    (h : commitDocuments documents digest expectedSequence ended = .ok result) :
    result.1 = digest ++ documents.flatMap (fun d => d.record d.content) ∧
      ∀ d ∈ documents, d.toJsonBytes = .ok d.content := by
  induction documents generalizing digest expectedSequence ended with
  | nil =>
    rw [commitDocuments] at h
    rw [← Except.ok.inj h, flatMap_nil, append_nil]
    exact ⟨rfl, fun _ hd => absurd hd not_mem_nil⟩
  | cons d rest ih =>
    simp only [commitDocuments, updateArchiveSequenceCommitment, bind_eq_ok] at h
    obtain ⟨-, -, digest', ⟨bytes, hbytes, hdigest⟩, h⟩ := h
    obtain ⟨hresult, hrest⟩ := ih h
    have hcontent := content_eq_of_toJsonBytes hbytes
    rw [hcontent] at hbytes hdigest
    rw [hresult, ← Except.ok.inj hdigest, flatMap_cons, append_assoc]
    refine ⟨rfl, fun e he => ?_⟩
    rcases mem_cons.1 he with rfl | he
    · exact hbytes
    · exact hrest e he

/-- A commitment is the digest of the records. -/
theorem orderedArchiveVolumeCommitment_eq (h : orderedArchiveVolumeCommitment documents = .ok c) :
    c = sha256Hex (documents.flatMap fun d => d.record d.content) ∧
      ∀ d ∈ documents, d.toJsonBytes = .ok d.content := by
  simp only [orderedArchiveVolumeCommitment, bind_eq_ok] at h
  obtain ⟨⟨digest, expectedSequence, ended⟩, hloop, -, -, h⟩ := h
  obtain ⟨hdigest, hwritten⟩ := commitDocuments_eq hloop
  rw [nil_append] at hdigest
  exact ⟨by rw [← hdigest]; exact (Except.ok.inj h).symm, hwritten⟩

/-- Equal commitments are commitments to the same documents. -/
theorem orderedArchiveVolumeCommitment_injective {documents' : List ArchiveSequenceDocument}
    (hinj : Set.InjOn sha256 {b | b ∈ hashedTexts documents ++ hashedTexts documents'})
    (h : orderedArchiveVolumeCommitment documents = .ok c)
    (h' : orderedArchiveVolumeCommitment documents' = .ok c) : documents = documents' := by
  obtain ⟨hc, hwritten⟩ := orderedArchiveVolumeCommitment_eq h
  obtain ⟨hc', hwritten'⟩ := orderedArchiveVolumeCommitment_eq h'
  have hstream := hinj (mem_append_left _ (mem_cons_self ..))
    (mem_append_right _ (mem_cons_self ..)) (hex_injective (hc.symm.trans hc'))
  refine eq_of_flatMap_eq (fun d _ => record_ne_nil d _) (fun d hd e he u v hde => ?_) hstream
  obtain ⟨hkind, hdigest, htail⟩ := record_append_inj hde
  have hcontent := hinj (mem_append_left _ (mem_cons_of_mem _ (mem_map_of_mem hd)))
    (mem_append_right _ (mem_cons_of_mem _ (mem_map_of_mem he))) hdigest
  exact ⟨eq_of_content_eq (hwritten d hd) (hwritten' e he) hkind hcontent, htail⟩

/-- Archive documents bind their volumes: exactly the bytes that a volume, terminal or root
document is written in are read as that document, and sequences with equal commitments are
equal. -/
theorem archiveDocuments_bind {documents documents' : List ArchiveSequenceDocument} {c : Text}
    (hinj : Set.InjOn sha256 {b | b ∈ hashedTexts documents ++ hashedTexts documents'})
    (h : orderedArchiveVolumeCommitment documents = .ok c)
    (h' : orderedArchiveVolumeCommitment documents' = .ok c) :
    documents = documents' ∧
      (∀ content d, volumeFormat.read content = .ok d ↔ volumeFormat.write d = .ok content) ∧
      (∀ content d, terminalFormat.read content = .ok d ↔ terminalFormat.write d = .ok content) ∧
      ∀ content d, rootFormat.read content = .ok d ↔ rootFormat.write d = .ok content :=
  ⟨orderedArchiveVolumeCommitment_injective hinj h h',
    fun _ _ => volumeFormat_lawful.read_eq_ok_iff, fun _ _ => terminalFormat_lawful.read_eq_ok_iff,
    fun _ _ => rootFormat_lawful.read_eq_ok_iff⟩

/-- The digest `00…00`, for the documents below. -/
def zeroDigest : Text := replicate 64 '0'

theorem isSha256_zeroDigest : isSha256 zeroDigest = true := by decide +kernel

/-- A volume with one byte of one file. -/
def segmentDocument : CollectionArchiveVolumeDocument where
  archiveGeneration := zeroDigest
  archiveTreeSha256 := zeroDigest
  volume := .segment
    { sequence := 0
      plaintextBytes := 1
      ageState := ⟨"QUJD", replicate 22 'A', 1, by decide +kernel, by decide +kernel,
        by decide +kernel, by decide +kernel⟩
      file := ⟨"a", 0, 1, 1, zeroDigest, by decide +kernel, by decide +kernel, by decide,
        isSha256_zeroDigest⟩
      parts := [⟨1, 0, 1, zeroDigest, 1, zeroDigest, by decide, isSha256_zeroDigest, by decide,
        isSha256_zeroDigest⟩]
      sequence_lt := by decide
      age_size := rfl
      file_bytes := rfl
      parts_valid := ⟨by decide, by decide, by decide⟩ }
  generation := isSha256_zeroDigest
  tree := isSha256_zeroDigest

/-- The archive of that volume and its terminal. -/
def segmentArchive : List ArchiveSequenceDocument :=
  [.volume segmentDocument, .terminal ⟨zeroDigest, zeroDigest, 1, isSha256_zeroDigest,
    isSha256_zeroDigest, by decide, by decide⟩]

theorem injOn_hashedTexts_segmentArchive : Set.InjOn sha256
    {b | b ∈ hashedTexts segmentArchive ++ hashedTexts segmentArchive} := by
  have hnodup : ((hashedTexts segmentArchive).map sha256).Nodup := by decide +kernel
  intro a ha b hb h
  rw [Set.mem_ofPred_eq, mem_append, or_self] at ha hb
  exact inj_on_of_nodup_map hnodup ha hb h

theorem archiveDocuments_bind_segment : ∃ c, orderedArchiveVolumeCommitment segmentArchive = .ok c ∧
      ∀ content d, rootFormat.read content = .ok d ↔ rootFormat.write d = .ok content := by
  obtain ⟨c, h, -⟩ := exists_ok_of_elim (x := orderedArchiveVolumeCommitment segmentArchive)
    (p := fun c => c.length == 64) (by decide +kernel)
  exact ⟨c, h, (archiveDocuments_bind injOn_hashedTexts_segmentArchive h h).2.2.2⟩

end Riverhog.Archive
