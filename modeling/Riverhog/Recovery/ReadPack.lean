import Riverhog.Core.Tarfile
import Riverhog.Pack.Archive
import Mathlib.Data.List.Induction
import Mathlib.Data.List.TakeWhile

/-!
# Pack members as `tarfile` reads them

The recovery program reads packs with Python's `tarfile`, not with the reader of the
format. Both find the same members in what `_tar_header` writes; the names differ
only for a path with a NUL, which `tarfile` cuts there.
-/

namespace Riverhog.Recovery

open Core Pack Tarfile List

/-- The name that `tarfile` reports for a member written under `path`. -/
def tarfileName (path : Text) : Bytes :=
  match ustarName path with
  | .ok (name, namePrefix) => Tar.joinName (nts name) (nts namePrefix)
  | .error _ => rstripSlash (encodeUtf8 path)

/-- The records of an extended header are read back, whatever zeros follow them. -/
theorem paxRecords_paxPayload {attrs : List (Text × Text)} {payload : Bytes} {fuel : Nat}
    (h : paxPayload attrs = .ok payload)
    (hk : ∀ a ∈ attrs, 61 ∉ encodeUtf8 a.1 ∧ encodeUtf8 a.1 ≠ [])
    (hf : payload.length < fuel) (count : Nat) :
    paxRecords fuel (payload ++ zeros count) =
      .ok (attrs.map fun a => (encodeUtf8 a.1, encodeUtf8 a.2)) := by
  induction attrs generalizing payload fuel with
  | nil =>
    obtain rfl : [] = payload := Except.ok.inj h
    obtain ⟨fuel, rfl⟩ : ∃ k, fuel = k + 1 := ⟨fuel - 1, by omega⟩
    exact paxRecords_zeros fuel count
  | cons attr attrs ih =>
    simp only [paxPayload, bind_eq_ok] at h
    obtain ⟨record, hr, records, hrs, h⟩ := h
    obtain rfl : record ++ records = payload := Except.ok.inj h
    obtain ⟨hkey, hrest⟩ := forall_mem_cons.1 hk
    have hrecord := paxRecord_eq_ok hr
    have hpos := length_pos_iff.2 hrecord.ne_nil
    obtain ⟨fuel, rfl⟩ : ∃ k, fuel = k + 1 := ⟨fuel - 1, by omega⟩
    rw [length_append] at hf
    have htail := ih hrs hrest (show records.length < fuel by omega)
    rw [append_assoc, paxRecords_append hrecord hkey.1 hkey.2 fuel _ htail]
    rfl

/-- The pax attributes restore what the file header could not hold. -/
theorem applyPaxInfo_attrs {path : Text} {size : Nat} {name namePrefix : Bytes}
    (hname : ustarName (tarFileHeaderValues path size).2.1 = .ok (name, namePrefix))
    (offset offsetData : Nat) :
    applyPaxInfo ((tarFileHeaderValues path size).1.map fun a => (encodeUtf8 a.1, encodeUtf8 a.2))
      ⟨Tar.joinName (nts name) (nts namePrefix), (tarFileHeaderValues path size).2.2,
        48, offset, offsetData⟩ = .ok ⟨tarfileName path, size, 48, offset, offsetData⟩ := by
  obtain ⟨hne, hall, hvalue⟩ := Tar.decimal_bytes size
  have hpathKey : encodeUtf8 "path" = Tar.pathKeyword := by decide
  have hsizeKey : encodeUtf8 "size" = Tar.sizeKeyword := by decide
  have hkeys : (Tar.pathKeyword == Tar.sizeKeyword) = false := by decide
  have hkeys' : (Tar.sizeKeyword == Tar.pathKeyword) = false := by decide
  rw [tarFileHeaderValues] at hname ⊢
  rw [tarfileName]
  cases hu : ustarName path <;> by_cases hs : size > tarUstarSizeMax <;>
    simp only [hu, hs, if_true, if_false, nil_append, append_nil, singleton_append, map_cons,
      map_nil, hpathKey, hsizeKey, applyPaxInfo, Tar.lookupRecord, reverse_cons, reverse_nil,
      find?_cons, find?_nil, hkeys, hkeys', beq_self_eq_true, Option.map_some, Option.map_none,
      ne_eq, hne, not_false_eq_true, hall, and_self, hvalue] at hname ⊢
  all_goals rw [Except.ok.inj hname]

/-- A size that the file header does not hold stands in the attributes. -/
theorem size_of_attrs (path : Text) (size : Nat) :
    (Tar.lookupRecord ((tarFileHeaderValues path size).1.map
      fun a => (encodeUtf8 a.1, encodeUtf8 a.2)) Tar.sizeKeyword).isSome ∨
      (tarFileHeaderValues path size).2.2 = size := by
  have hsizeKey : encodeUtf8 "size" = Tar.sizeKeyword := by decide
  rw [tarFileHeaderValues]
  by_cases hs : size > tarUstarSizeMax
  · left
    cases ustarName path <;>
      simp only [hs, if_true, nil_append, singleton_append, map_cons, map_nil,
        hsizeKey, Tar.lookupRecord, reverse_cons, reverse_nil, find?_cons,
        beq_self_eq_true, Option.map_some, Option.isSome_some]
  · exact .inr (by simp only [hs, if_false])

/-- The header of a member, its data and its padding are found by `tarfile`. -/
theorem tarHeader_reads {path : Text} {header content : Bytes}
    (h : tarHeader path content.length = .ok header) :
    Tarfile.Reads (header ++ content ++ zeros (tarPadding content.length)) header.length
      (tarfileName path) content.length := by
  have hkeys : ∀ a ∈ (tarFileHeaderValues path content.length).1,
      (61 : UInt8) ∉ encodeUtf8 a.1 ∧ encodeUtf8 a.1 ≠ [] := by
    intro a ha
    rcases attrs_key path content.length a ha with h | h <;> rw [h] <;> decide
  have hgnu : ∀ r ∈ (tarFileHeaderValues path content.length).1.map
      (fun a => (encodeUtf8 a.1, encodeUtf8 a.2)),
      ¬ "GNU.sparse".toList.map (UInt8.ofNat ·.toNat) <+: r.1 := by
    rw [forall_mem_map]
    intro a ha
    dsimp only
    rcases attrs_key path content.length a ha with h | h <;> rw [h] <;> decide
  have hsize : (Tar.lookupRecord ((tarFileHeaderValues path content.length).1.map
      fun a => (encodeUtf8 a.1, encodeUtf8 a.2)) Tar.sizeKeyword).isSome ∨
      (tarFileHeaderValues path content.length).2.2 = content.length :=
    size_of_attrs path content.length
  rw [tarHeader] at h
  simp only [bind_eq_ok] at h
  obtain ⟨fileHeader, hfile, h⟩ := h
  obtain ⟨name, namePrefix, hname, hblock⟩ := tarUstarHeader_spec hfile
  have hpax := applyPaxInfo_attrs hname
  rw [tarPadding_eq]
  by_cases he : (tarFileHeaderValues path content.length).1.isEmpty = true
  · rw [if_pos he] at h
    obtain rfl : fileHeader = header := Except.ok.inj h
    have hnil := isEmpty_iff.1 he
    have hinfo := hpax 0 0
    rw [hnil] at hinfo hsize
    have hs : (tarFileHeaderValues path content.length).2.2 = content.length :=
      hsize.resolve_left (by decide)
    have hn : Tar.joinName (nts name) (nts namePrefix) = tarfileName path :=
      congrArg Tarfile.TarInfo.name (Except.ok.inj hinfo)
    rw [hs] at hblock
    rw [← hn]
    exact reads_plain hblock
  · rw [if_neg he] at h
    simp only [bind_eq_ok] at h
    obtain ⟨payload, hpayload, block, hpaxBlock, h⟩ := h
    obtain ⟨paxName, paxPrefix, -, hpaxUstar⟩ := tarUstarHeader_spec hpaxBlock
    have hheader : block ++ payload ++ zeros (tarPadding payload.length) ++ fileHeader = header :=
      Except.ok.inj h
    rw [← hheader, tarPadding_eq]
    exact reads_extended hpaxUstar
      (fun count => paxRecords_paxPayload hpayload hkeys (by omega) count) hgnu hblock hsize hpax

theorem nts_eq_self {s : Bytes} (h : 0 ∉ s) : nts s = s := by
  rw [nts, takeWhile_eq_self_iff]
  intro b hb
  rw [bne_iff_ne]
  rintro rfl
  exact h hb

/-- A text that does not end with a slash keeps its last byte. -/
theorem rstripSlash_encodeUtf8 {path : Text} (h : path.getLast? ≠ some '/') :
    rstripSlash (encodeUtf8 path) = encodeUtf8 path := by
  cases path using reverseRecOn with
  | nil => rfl
  | append_singleton path c =>
    have hc : c ≠ '/' := by
      rintro rfl
      exact h getLast?_concat
    obtain ⟨b, hb⟩ : ∃ b, (String.utf8EncodeChar c).getLast? = some b :=
      Option.isSome_iff_exists.1 (by simp)
    obtain ⟨front, hfront⟩ := getLast?_eq_some_iff.1 hb
    have hne : (b == 47) = false := by
      rw [beq_eq_false_iff_ne]
      rintro rfl
      exact hc (Char.toNat_inj.1 (getLast?_utf8EncodeChar (by decide) hb))
    rw [rstripSlash, encodeUtf8_append, encodeUtf8_cons, encodeUtf8_nil, append_nil,
      hfront, ← append_assoc, reverse_concat, dropWhile_cons, hne,
      if_neg Bool.false_ne_true, ← reverse_concat, reverse_reverse]

/-- The name of a member is its path when the path holds no NUL. -/
theorem tarfileName_eq {path : Text} (hw : Writable path) (hlast : path.getLast? ≠ some '/') :
    tarfileName path = encodeUtf8 path := by
  rw [tarfileName]
  cases hu : ustarName path with
  | error e => exact rstripSlash_encodeUtf8 hlast
  | ok fields =>
    obtain ⟨name, namePrefix⟩ := fields
    have hpath := ustarName_spec hw.relative hu
    obtain ⟨hn, hp⟩ := zero_not_mem_of_joinName (zero_not_mem_encodeUtf8 hw.noNul) hpath
    dsimp only
    rw [nts_eq_self hn, nts_eq_self hp, hpath]

/-- What `tarfile` reports about a member of a pack. -/
def tarfileInfo (m : PlacedMember) : Tarfile.TarInfo :=
  ⟨tarfileName m.path, m.content.length, 48, m.headerOffset, m.dataOffset⟩

/-- `tarfile` finds the members of a pack where they are. -/
theorem getmembers_pieces (ps : List Piece) :
    getmembers (piecesBytes ps ++ zeros (tarBlockSize * 2)) =
      .ok ((piecesPlaced 0 ps).map tarfileInfo) := by
  obtain ⟨members, hb, hi⟩ : ∃ members : List Tarfile.Member,
      members.flatMap Tarfile.Member.bytes = piecesBytes ps ∧
        ∀ offset, infosFrom offset members = (piecesPlaced offset ps).map tarfileInfo := by
    induction ps with
    | nil => exact ⟨[], rfl, fun _ => rfl⟩
    | cons p ps ih =>
      obtain ⟨members, hb, hi⟩ := ih
      refine ⟨⟨p.bytes, p.header.length, tarfileName p.path, p.content.length,
        tarHeader_reads p.header_eq⟩ :: members, ?_, fun offset => ?_⟩
      · rw [flatMap_cons, hb]
        rfl
      · rw [infosFrom, hi, piecesPlaced, map_cons]
        rfl
  have h := getmembers_flatMap members
  rwa [hb, hi] at h

end Riverhog.Recovery
