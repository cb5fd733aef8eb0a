import Mathlib.Data.List.Perm.Basic
import Riverhog.Recovery.Pack

/-!
# The names of a pack's members

The names that recovery lists are the planned paths when no path holds a NUL. They
are distinct: the paths of files by the planner's check, the padding names by their
unit number, and the two kinds and the index by the reserved directory.
-/

namespace Riverhog.Recovery

open Core Pack Protocol List

/-! ## The list of names -/

/-- A name that is listed once is found. -/
theorem lookupName_of_mem {byName : List (Text × Tarfile.TarInfo)} {name : Text}
    {info : Tarfile.TarInfo} (hnodup : (byName.map Prod.fst).Nodup)
    (hm : (name, info) ∈ byName) : lookupName byName name = some info := by
  rw [lookupName]
  cases hf : byName.find? (·.1 == name) with
  | none =>
    have hno := find?_eq_none.1 hf _ hm
    exact absurd BEq.rfl hno
  | some e =>
    have he : e.1 = name := by simpa using find?_some hf
    have heq := inj_on_of_nodup_map hnodup (mem_of_find?_eq_some hf) hm he
    rw [heq]
    rfl

/-- What the loop that builds `by_name` does: it names every member and repeats no name. -/
theorem membersByName_inv {infos : List Tarfile.TarInfo}
    {byName out : List (Text × Tarfile.TarInfo)} (h : membersByName infos byName = .ok out)
    (hnodup : (byName.map Prod.fst).Nodup) :
    (out.map Prod.fst).Nodup ∧ byName <+: out ∧ ∀ info ∈ infos, ∃ text name,
      memberName info = .ok text ∧ normalizeRelpath text = .ok name ∧ (name, info) ∈ out := by
  induction infos generalizing byName with
  | nil =>
    obtain rfl : byName = out := Except.ok.inj h
    exact ⟨hnodup, prefix_refl _, forall_mem_nil _⟩
  | cons info infos ih =>
    simp only [membersByName, bind_eq_ok, require_eq_ok] at h
    obtain ⟨text, htext, name, hname, -, hnew, h⟩ := h
    have hnodup' : ((byName ++ [(name, info)]).map Prod.fst).Nodup := by
      rw [map_append, nodup_append]
      refine ⟨hnodup, nodup_singleton _, ?_⟩
      intro a ha b hb
      rw [map_singleton, mem_singleton] at hb
      rintro rfl
      obtain ⟨e, he, rfl⟩ := mem_map.1 ha
      rw [Bool.not_eq_true', any_eq_false] at hnew
      exact hnew e he (by rw [hb, BEq.rfl])
    obtain ⟨hout, hpre, hall⟩ := ih h hnodup'
    refine ⟨hout, (prefix_append _ _).trans hpre, forall_mem_cons.2 ⟨?_, hall⟩⟩
    exact ⟨text, name, htext, hname, hpre.subset (by simp)⟩

/-- A placed member's name is its path. -/
def NamedByPath (m : PlacedMember) : Prop :=
  memberName (tarfileInfo m) = .ok m.path ∧ normalizeRelpath m.path = .ok m.path

theorem namedByPath {m : PlacedMember} {parts : List Text} (hp : IsRelpath m.path parts)
    (hn : '\x00' ∉ m.path) : NamedByPath m := by
  have hname : (tarfileInfo m).name = encodeUtf8 m.path :=
    tarfileName_eq ⟨hp.head_ne_slash, hn⟩ hp.getLast?_ne_slash
  refine ⟨?_, normalizeRelpath_of_isRelpath hp⟩
  rw [memberName, hname, decodeUtf8_encodeUtf8]

/-- The loop that builds `by_name` lists distinct paths in order. -/
theorem membersByName_ok {ms : List PlacedMember} {byName : List (Text × Tarfile.TarInfo)}
    (hms : ∀ m ∈ ms, NamedByPath m) (hnodup : (ms.map PlacedMember.path).Nodup)
    (hnew : ∀ m ∈ ms, m.path ∉ byName.map Prod.fst) :
    membersByName (ms.map tarfileInfo) byName =
      .ok (byName ++ ms.map fun m => (m.path, tarfileInfo m)) := by
  induction ms generalizing byName with
  | nil =>
    rw [map_nil, map_nil, append_nil]
    rfl
  | cons m ms ih =>
    rw [forall_mem_cons] at hms hnew
    rw [map_cons, nodup_cons] at hnodup
    have hany : byName.any (·.1 == m.path) = false := by
      rw [any_eq_false]
      intro e he heq
      exact hnew.1 (mem_map.2 ⟨e, he, by simpa using heq⟩)
    have hrest : ∀ m' ∈ ms, m'.path ∉ (byName ++ [(m.path, tarfileInfo m)]).map Prod.fst := by
      intro m' hm' hmem
      rw [map_append, map_singleton, mem_append, mem_singleton] at hmem
      rcases hmem with hmem | heq
      · exact hnew.2 m' hm' hmem
      · exact hnodup.1 (mem_map.2 ⟨m', hm', heq⟩)
    rw [map_cons, membersByName, hms.1.1, ok_bind, hms.1.2, ok_bind, hany, Bool.not_false,
      require_true, ok_bind, ih hms.2 hnodup.2 hrest, map_cons, ← append_cons]

/-! ## Padding names -/

/-- The letters of a numeral are hexadecimal digits. -/
theorem isHexDigit_of_mem_zeroPadded {base width n : Nat} (hb : 1 < base) (hb' : base ≤ 16) {c : Char}
    (h : c ∈ zeroPadded base width n) : isHexDigit c = true := by
  obtain ⟨d, hd, rfl⟩ := mem_zeroPadded hb h
  have hall : ∀ d < 16, isHexDigit (Nat.digitChar d) = true := by decide
  exact hall d (by omega)

/-- Units have padding members of different names. -/
theorem paddingPath_injective (volumeId : Text) : Function.Injective (paddingPath volumeId) := by
  intro m n h
  have hz : zeroPadded 10 6 m = zeroPadded 10 6 n :=
    cons_injective (append_cancel_left h)
  rw [← ofDigitChars_zeroPadded (by decide) le_rfl 6 m, hz,
    ofDigitChars_zeroPadded (by decide) le_rfl]

section Padding

variable {sequence unit : Nat}

/-- The last component of a padding name. -/
def paddingName (sequence unit : Nat) : Text :=
  "pack-" ++ zeroPadded 16 64 sequence ++ '-' :: zeroPadded 10 6 unit

/-- A padding name is a canonical path. -/
theorem isRelpath_paddingPath (sequence unit : Nat) :
    IsRelpath (paddingPath ("pack-" ++ zeroPadded 16 64 sequence) unit)
      [".riverhog", "padding", paddingName sequence unit] := by
  have hmem : ∀ {c : Char}, isHexDigit c = false → c ∉ "pack-".toList →
      c ∉ paddingName sequence unit := by
    intro c hc hpack h
    have hdash : c ≠ '-' := by
      rintro rfl
      exact hpack (by decide)
    rw [paddingName, mem_append, mem_append, mem_cons] at h
    rcases h with (h | h) | h | h
    · exact hpack h
    · rw [isHexDigit_of_mem_zeroPadded (by decide) (by decide) h] at hc
      cases hc
    · exact hdash h
    · rw [isHexDigit_of_mem_zeroPadded (by decide) (by decide) h] at hc
      cases hc
  have hcons : ∃ tail, paddingName sequence unit = 'p' :: tail := ⟨_, rfl⟩
  obtain ⟨tail, htail⟩ := hcons
  have hname : IsComponent (paddingName sequence unit) := by
    refine ⟨?_, ?_, ?_, hmem (by decide) (by decide), hmem (by decide) (by decide)⟩ <;>
      · rw [htail]
        simp
  refine ⟨cons_ne_nil _ _, ?_, ?_⟩
  · rw [forall_mem_cons, forall_mem_cons, forall_mem_singleton]
    exact ⟨⟨by decide, by decide, by decide, by decide, by decide⟩,
      ⟨by decide, by decide, by decide, by decide, by decide⟩, hname⟩
  · rw [joinWith_cons_cons, joinWith_cons_cons, joinWith_singleton, paddingName, paddingPath]
    generalize zeroPadded 16 64 sequence = digits
    generalize zeroPadded 10 6 unit = number
    rfl

/-- The planner's padding names are the ones that recovery expects. -/
theorem isPaddingPath_paddingPath (hs : sequence < 2 ^ 256) (hu : unit < archivePackFilesMax) :
    isPaddingPath (paddingPath ("pack-" ++ zeroPadded 16 64 sequence) unit) = true := by
  have hlen : (zeroPadded 16 64 sequence).length = 64 :=
    length_zeroPadded (by decide) (by decide) (hs.trans_eq (by norm_num))
  have hsix : (zeroPadded 10 6 unit).length = 6 :=
    length_zeroPadded (by decide) (by decide) (hu.trans (by decide))
  have hhex : isSha256 (zeroPadded 16 64 sequence) = true := by
    rw [isSha256, hlen, Bool.and_eq_true]
    exact ⟨rfl, all_eq_true.2 fun c hc => isHexDigit_of_mem_zeroPadded (by decide) (by decide) hc⟩
  have hdigits : (zeroPadded 10 6 unit).all Char.isDigit = true := by
    rw [all_eq_true]
    intro c hc
    obtain ⟨d, hd, rfl⟩ := mem_zeroPadded (by decide) hc
    have hall : ∀ d < 10, (Nat.digitChar d).isDigit = true := by decide
    exact hall d hd
  rw [paddingPath]
  generalize zeroPadded 16 64 sequence = digits at hlen hhex ⊢
  generalize zeroPadded 10 6 unit = number at hsix hdigits ⊢
  have hpath : packPaddingPrefix ++ ("pack-" ++ digits) ++ '-' :: number =
      ".riverhog/padding/pack-" ++ (digits ++ '-' :: number) := rfl
  have htake : (digits ++ '-' :: number).take 64 = digits := take_left' hlen
  have hdash : (digits ++ '-' :: number)[64]? = some '-' := by
    rw [getElem?_append_right hlen.le, hlen]
    rfl
  have hdrop : (digits ++ '-' :: number).drop 65 = number := by
    rw [append_cons]
    exact drop_left' (by rw [length_append, hlen]; rfl)
  rw [isPaddingPath, hpath, drop_left, htake, hdash, hdrop, hhex, hsix, hdigits,
    isPrefixOf_iff_prefix.2 (prefix_append _ _)]
  rfl

end Padding

/-! ## The names of a plan -/

section Plan

variable {nfc : Text → Text} {files : List ArchiveFile} {maxMemberBytes : Int}
  {plan : PackVolumePlan} {readSourceChunks : Text → List Bytes}

theorem isRelpath_member (h : PlanLaid nfc files maxMemberBytes plan) {m : PackMemberPlan}
    (hm : m ∈ plan.members) : IsRelpath m.path (pathParts m.path) := by
  obtain ⟨⟨parts, hp⟩, -⟩ := goodRow_plan h m hm
  rwa [pathParts_of_isRelpath hp]

theorem isRelpath_packIndexPath :
    IsRelpath packIndexPath [".riverhog", "pack-index.json"] := by
  refine ⟨cons_ne_nil _ _, ?_, rfl⟩
  rw [forall_mem_cons, forall_mem_singleton]
  exact ⟨⟨by decide, by decide, by decide, by decide, by decide⟩,
    ⟨by decide, by decide, by decide, by decide, by decide⟩⟩

variable (h : PlanLaid nfc files maxMemberBytes plan)
include h

/-- A unit's padding member is named by the unit's number. -/
theorem path_of_mem_padding {n : Nat}
    {u : PackUploadUnitPlan} (hu : plan.units[n]? = some u) {path : Text}
    (hp : path ∈ u.padding.toList.map PackPaddingPlan.path) :
    path = paddingPath plan.volumeId n := by
  obtain ⟨hn, members, middle, stop, -, -, hpad, -⟩ := h.unitLaid hu
  obtain ⟨padding, hmem, rfl⟩ := mem_map.1 hp
  rw [Option.mem_toList] at hmem
  rw [hmem] at hpad
  cases hpad with
  | some _ _ _ => rw [hn]

/-- The padding members of different units have different names. -/
theorem nodup_padding :
    (plan.units.flatMap fun u => u.padding.toList.map PackPaddingPlan.path).Nodup := by
  rw [nodup_flatMap]
  constructor
  · intro u _
    cases u.padding <;> simp
  · rw [pairwise_iff_getElem]
    intro i j hi hj hlt path hpi hpj
    have hi' := path_of_mem_padding h (getElem?_eq_getElem hi) hpi
    have hj' := path_of_mem_padding h (getElem?_eq_getElem hj) hpj
    have hij : i = j := paddingPath_injective _ (hi'.symm.trans hj')
    omega

/-- The names of the members, the padding and the index are distinct. -/
theorem nodup_names (hunits : plan.units.flatMap (unitMembers plan.members) = plan.members) :
    ((plan.units.flatMap (unitPlaced plan.members readSourceChunks)).map PlacedMember.path ++
      [packIndexPath]).Nodup := by
  have hsplit : (plan.units.flatMap (unitPlaced plan.members readSourceChunks)).map
      PlacedMember.path = plan.units.flatMap fun u =>
        (unitMembers plan.members u).map PackMemberPlan.path ++
          u.padding.toList.map PackPaddingPlan.path := by
    rw [map_flatMap]
    congr 1
    ext1 u
    rw [unitPlaced, map_append, map_map, map_map]
    rfl
  have hmembers : (plan.units.flatMap fun u =>
      (unitMembers plan.members u).map PackMemberPlan.path) =
        plan.members.map PackMemberPlan.path := by
    rw [← map_flatMap, hunits]
  have hfile : ∀ path ∈ plan.members.map PackMemberPlan.path, ¬ reservedArchivePrefix <+: path := by
    intro path hp
    obtain ⟨m, hm, rfl⟩ := mem_map.1 hp
    obtain ⟨-, -, hres⟩ := goodRow_plan h m hm
    rw [← isPrefixOf_iff_prefix, hres]
    exact Bool.false_ne_true
  have hpadding : ∀ path ∈ plan.units.flatMap fun u => u.padding.toList.map PackPaddingPlan.path,
      packPaddingPrefix <+: path := by
    intro path hp
    obtain ⟨u, hu, hp⟩ := mem_flatMap.1 hp
    obtain ⟨n, hn⟩ := mem_iff_getElem?.1 hu
    rw [path_of_mem_padding h hn hp, paddingPath, append_assoc]
    exact prefix_append _ _
  have hperm := flatMap_append_perm plan.units
    (fun u => (unitMembers plan.members u).map PackMemberPlan.path)
    (fun u => u.padding.toList.map PackPaddingPlan.path)
  rw [hsplit, ← (hperm.append_right _).nodup_iff, hmembers, nodup_append, nodup_append]
  refine ⟨⟨h.nodup_path, nodup_padding h, ?_⟩, nodup_singleton _, ?_⟩
  · rintro a ha b hb rfl
    have hpre : reservedArchivePrefix <+: packPaddingPrefix := by decide
    exact hfile a ha (hpre.trans (hpadding a hb))
  · intro a ha b hb
    rw [mem_singleton] at hb
    rintro rfl
    rw [hb] at ha
    rcases mem_append.1 ha with ha | ha
    · exact hfile _ ha (by decide)
    · have hno : ¬ packPaddingPrefix <+: packIndexPath := by decide
      exact hno (hpadding _ ha)

/-- Every placed member has a canonical path. -/
theorem isRelpath_placed {placed : PlacedMember}
    (hp : placed ∈ plan.units.flatMap (unitPlaced plan.members readSourceChunks)) :
    ∃ parts, IsRelpath placed.path parts := by
  rcases h.placed_cases hp with ⟨m, hm, rfl⟩ | ⟨u, -, -, -, -, hpath, -⟩
  · exact ⟨_, isRelpath_member h hm⟩
  · rw [hpath, h.volumeId]
    exact ⟨_, isRelpath_paddingPath _ _⟩

end Plan

end Riverhog.Recovery
