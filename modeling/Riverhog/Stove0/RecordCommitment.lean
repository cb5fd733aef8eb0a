import Riverhog.Core.Checkpoint
import Riverhog.Core.Utf8
import Riverhog.Stove0.WorkStore

/-!
# Commitments to records

A set of records is committed to by hashing them one after the other, each with the domain, its
ordinal and its length. The hash can be stored after any record and resumed.
-/

namespace Riverhog.Stove0

open Core List

/-- The updates of a digest by one record. -/
def commitRecord (domain : String) (digest : CheckpointSHA256) (ordinal : Nat) (encoded : Bytes) :
    CheckpointSHA256 :=
  [encodeUtf8 domain.toList ++ [0], encodeUtf8 (decimal ordinal), [0], bigEndian 8 encoded.length,
    encoded].foldl CheckpointSHA256.update digest

/-- The bytes of one record in a commitment. -/
def recordBytes (domain : String) (ordinal : Nat) (encoded : Bytes) : Bytes :=
  encodeUtf8 domain.toList ++ [0] ++ encodeUtf8 (decimal ordinal) ++ [0] ++
    bigEndian 8 encoded.length ++ encoded

/-- The bytes of a commitment to some records. -/
def commitmentMessage (domain : String) (records : List Bytes) : Bytes :=
  records.zipIdx.flatMap fun r => recordBytes domain r.2 r.1

theorem commitRecord_of (domain : String) (message : Bytes) (ordinal : Nat) (encoded : Bytes) :
    commitRecord domain (.of message) ordinal encoded =
      .of (message ++ recordBytes domain ordinal encoded) := by
  simp only [commitRecord, foldl_cons, foldl_nil, CheckpointSHA256.update_of, recordBytes,
    append_assoc]

theorem commitmentMessage_concat (domain : String) (records : List Bytes) (encoded : Bytes) :
    commitmentMessage domain (records ++ [encoded]) =
      commitmentMessage domain records ++ recordBytes domain records.length encoded := by
  rw [commitmentMessage, zipIdx_append, flatMap_append]
  simp [commitmentMessage]

/-- A hash has read the records of some rows. -/
def Commits {α : Type} (domain : String) (encode : α → Except String Bytes) (done : List α)
    (hash : CheckpointSHA256) : Prop :=
  ∃ records, done.mapM encode = .ok records ∧ hash = .of (commitmentMessage domain records)

variable {hash : CheckpointSHA256} {domain : String} {α : Type} {encode : α → Except String Bytes}

theorem commits_nil (domain : String) (encode : α → Except String Bytes) :
    Commits domain encode [] .new :=
  ⟨[], rfl, CheckpointSHA256.new_eq⟩

/-- A hash that has read some rows reads one more. -/
theorem Commits.concat {done : List α} (h : Commits domain encode done hash) {a : α}
    {encoded : Bytes} (ha : encode a = .ok encoded) :
    Commits domain encode (done ++ [a]) (commitRecord domain hash done.length encoded) := by
  obtain ⟨records, hrecords, rfl⟩ := h
  have hlength : records.length = done.length := (mapM_eq_ok_iff.1 hrecords).length_eq.symm
  refine ⟨records ++ [encoded], ?_, ?_⟩
  · rw [mapM_append, hrecords, ok_bind, mapM_cons, ha, mapM_nil]
    rfl
  · rw [commitRecord_of, commitmentMessage_concat, hlength]

/-- The digest of some rows, each under its ordinal. -/
def CommitmentOf {α : Type} (domain : String) (encode : α → Except String Bytes) (rows : List α)
    (sha256 : Digest) : Prop :=
  ∃ records, rows.mapM encode = .ok records ∧ sha256 = sha256Hex (commitmentMessage domain records)

theorem Commits.commitmentOf {rows : List α} (h : Commits domain encode rows hash) {sha256 : Digest}
    (hdigest : hash.hexdigest = .ok sha256) : CommitmentOf domain encode rows sha256 := by
  obtain ⟨records, hrecords, rfl⟩ := h
  exact ⟨records, hrecords, CheckpointSHA256.eq_of_hexdigest hdigest⟩

end Riverhog.Stove0
