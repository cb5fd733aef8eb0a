import Riverhog.Pack.Plan
import Riverhog.Pack.TarRead

/-!
# The layout of a planned pack

What the offsets of a plan mean: the members of a unit lie one after the other from
the unit's start, its padding member follows them, and the units follow each other.
`planLoop_laid` carries this through the planning loop; `planPackVolume_laid` states
it of every plan that `plan_pack_volume` returns.
-/

namespace Riverhog.Pack

open Core Protocol List

/-- The file that a member plan places. -/
def PackMemberPlan.file (m : PackMemberPlan) : ArchiveFile := ⟨m.path, m.bytes, m.sha256⟩

/-- The plan of a file whose first header block starts at `start`. -/
def placedAt (unit start headerLength : Nat) (f : ArchiveFile) : PackMemberPlan :=
  ⟨f.path, f.bytes, f.sha256, unit, start, start + headerLength,
    start + headerLength + f.bytes + tarPadding f.bytes⟩

/-- The files lie one after the other from `start` to `stop`, as the members say. -/
inductive Laid (unit : Nat) : Nat → List ArchiveFile → List PackMemberPlan → Nat → Prop
  | nil (start : Nat) : Laid unit start [] [] start
  | cons {start stop : Nat} {f : ArchiveFile} {header : Bytes} {files : List ArchiveFile}
      {members : List PackMemberPlan} (hh : tarHeader f.path f.bytes = .ok header)
      (hr : Laid unit (start + header.length + f.bytes + tarPadding f.bytes) files members stop) :
      Laid unit start (f :: files) (placedAt unit start header.length f :: members) stop

namespace Laid

variable {unit start stop : Nat} {files : List ArchiveFile} {members : List PackMemberPlan}

variable (h : Laid unit start files members stop)
include h

/-- One more file at the end of a laid out sequence. -/
theorem snoc {f : ArchiveFile} {header : Bytes} (hh : tarHeader f.path f.bytes = .ok header) :
    Laid unit start (files ++ [f]) (members ++ [placedAt unit stop header.length f])
      (stop + header.length + f.bytes + tarPadding f.bytes) := by
  induction h with
  | nil start => exact .cons hh (.nil _)
  | cons hg _ ih => exact .cons hg ih

theorem map_file :
    members.map PackMemberPlan.file = files := by
  induction h with
  | nil => rfl
  | cons _ _ ih => rw [map_cons, ih]; rfl

theorem length_eq : members.length = files.length := by
  rw [← h.map_file, length_map]

theorem unit_eq : ∀ m ∈ members, m.unit = unit := by
  induction h with
  | nil => simp
  | cons _ _ ih =>
    rw [forall_mem_cons]
    exact ⟨rfl, ih⟩

end Laid

/-- The path of a unit's padding member. -/
def paddingPath (volumeId : Text) (unit : Nat) : Text :=
  packPaddingPrefix ++ volumeId ++ '-' :: zeroPadded 10 6 unit

/-- The padding of a unit, if any, is a zero-filled member from `start` to `stop`. -/
inductive PaddingLaid (volumeId : Text) (unit : Nat) : Nat → Option PackPaddingPlan → Nat → Prop
  | none (start : Nat) : PaddingLaid volumeId unit start .none start
  | some {start stop payloadBytes : Nat} {header : Bytes} (hc : payloadBytes < chunkSize)
      (hh : tarHeader (paddingPath volumeId unit) payloadBytes = .ok header)
      (hs : stop = start + header.length + payloadBytes + tarPadding payloadBytes) :
      PaddingLaid volumeId unit start
        (.some ⟨paddingPath volumeId unit, start, payloadBytes, stop⟩) stop

/-- Finished units, numbered from `index`, lie one after the other from `start` to `stop`. -/
inductive UnitsLaid (volumeId : Text) :
    Nat → Nat → List PackUploadUnitPlan → List PackMemberPlan → Nat → Nat → Prop
  | nil (index start : Nat) : UnitsLaid volumeId index start [] [] index start
  | cons {index start middle stop last final : Nat} {sources : List ArchiveFile}
      {padding : Option PackPaddingPlan} {units : List PackUploadUnitPlan}
      {members rest : List PackMemberPlan} (hne : sources ≠ [])
      (hl : Laid index start sources members middle)
      (hp : PaddingLaid volumeId index middle padding stop)
      (hr : UnitsLaid volumeId (index + 1) stop units rest last final) :
      UnitsLaid volumeId index start
        (⟨index, start, stop, sources, padding, false, false⟩ :: units) (members ++ rest) last final

namespace UnitsLaid

variable {volumeId : Text} {index start last stop : Nat} {units : List PackUploadUnitPlan}
  {members : List PackMemberPlan}

variable (h : UnitsLaid volumeId index start units members last stop)
include h

/-- One more unit at the end. -/
theorem snoc {middle final : Nat}
    {sources : List ArchiveFile} {padding : Option PackPaddingPlan} {new : List PackMemberPlan}
    (hne : sources ≠ []) (hl : Laid last stop sources new middle)
    (hp : PaddingLaid volumeId last middle padding final) :
    UnitsLaid volumeId index start (units ++ [⟨last, stop, final, sources, padding, false, false⟩])
      (members ++ new) (last + 1) final := by
  induction h with
  | nil index start =>
    have hc := UnitsLaid.cons hne hl hp (.nil _ _)
    rwa [append_nil] at hc
  | cons hne' hl' hp' _ ih =>
    rw [cons_append, append_assoc]
    exact .cons hne' hl' hp' (ih hl hp)

theorem map_file :
    members.map PackMemberPlan.file = units.flatMap PackUploadUnitPlan.sources := by
  induction h with
  | nil => rfl
  | cons _ hl _ _ ih => rw [map_append, hl.map_file, ih, flatMap_cons]

/-- Every unit has a member of its own. -/
theorem length_le :
    units.length ≤ members.length := by
  induction h with
  | nil => exact le_rfl
  | cons hne hl _ _ ih =>
    have hpos := length_pos_iff.2 hne
    rw [length_cons, length_append, hl.length_eq]
    omega

theorem last_eq :
    last = index + units.length := by
  induction h with
  | nil => rfl
  | cons _ _ _ _ ih =>
    rw [ih, length_cons]
    omega

end UnitsLaid

/-! ## The planning loop -/

/-- The state of the planning loop after the files `placed`. -/
structure PlanState.Inv (volumeId : Text) (s : PlanState) (placed : List ArchiveFile) :
    Prop where
  /-- Finished units and the unit in progress account for all members. -/
  laid : ∃ done current, s.members = done ++ current ∧
    UnitsLaid volumeId 0 0 s.units done s.unitIndex s.unitStart ∧
    Laid s.unitIndex s.unitStart s.unitSources current s.cursor
  /-- Every file is a source of one unit, in order. -/
  placed_eq : s.units.flatMap PackUploadUnitPlan.sources ++ s.unitSources = placed

namespace PlanState.Inv

variable {volumeId : Text} {s : PlanState} {placed : List ArchiveFile}

theorem initial : PlanState.initial.Inv volumeId [] :=
  ⟨⟨[], [], rfl, .nil _ _, .nil _⟩, rfl⟩

theorem place (h : s.Inv volumeId placed) {f : ArchiveFile} {header : Bytes}
    (hh : tarHeader f.path f.bytes = .ok header) :
    (s.place f header.length).Inv volumeId (placed ++ [f]) := by
  obtain ⟨done, current, hm, hu, hl⟩ := h.laid
  refine ⟨⟨done, current ++ [placedAt s.unitIndex s.cursor header.length f], ?_, hu, hl.snoc hh⟩, ?_⟩
  · rw [PlanState.place, hm, append_assoc]
    rfl
  · rw [PlanState.place, ← append_assoc, h.placed_eq]

theorem cut (h : s.Inv volumeId placed) (hne : s.unitSources ≠ [])
    {padding : Option PackPaddingPlan} {cursor : Nat}
    (hp : PaddingLaid volumeId s.unitIndex s.cursor padding cursor) :
    (s.cut padding cursor).Inv volumeId placed := by
  obtain ⟨done, current, hm, hu, hl⟩ := h.laid
  refine ⟨⟨done ++ current, [], ?_, hu.snoc hne hl hp, .nil _⟩, ?_⟩
  · rw [PlanState.cut, hm, append_nil]
  · rw [PlanState.cut, flatMap_append, append_nil, ← h.placed_eq]
    simp

end PlanState.Inv

/-- Alignment adds nothing or one padding member. -/
theorem alignmentPadding_laid {volumeId : Text} {unit cursor stop : Nat}
    {padding : Option PackPaddingPlan}
    (h : alignmentPadding volumeId unit cursor = .ok (padding, stop)) :
    PaddingLaid volumeId unit cursor padding stop := by
  rw [alignmentPadding] at h
  by_cases hr : cursor % chunkSize = 0
  · rw [if_pos hr] at h
    obtain ⟨rfl, rfl⟩ := Prod.ext_iff.1 (Except.ok.inj h)
    exact .none _
  · rw [if_neg hr] at h
    simp only [bind_eq_ok, require_eq_ok] at h
    obtain ⟨-, -, header, hh, -, -, h⟩ := h
    obtain ⟨rfl, rfl⟩ := Prod.ext_iff.1 (Except.ok.inj h)
    refine .some ?_ hh rfl
    have hlt : cursor % chunkSize < chunkSize := Nat.mod_lt _ (by decide)
    omega

variable {maxMemberBytes : Int} {files : List ArchiveFile} {nfc : Text → Text}
  {plan : PackVolumePlan} {part : Nat}

/-- The planning loop lays out every file that it is given. -/
theorem planLoop_laid {volumeId : Text} {placed : List ArchiveFile} {s t : PlanState}
    (hs : s.Inv volumeId placed) (h : planLoop volumeId part files s = .ok t) :
    t.Inv volumeId (placed ++ files) := by
  induction files generalizing s placed with
  | nil =>
    obtain rfl : s = t := Except.ok.inj h
    rwa [append_nil]
  | cons f files ih =>
    rw [planLoop, bind_eq_ok] at h
    obtain ⟨header, hh, h⟩ := h
    have hplace := hs.place hh
    have hne : (s.place f header.length).unitSources ≠ [] := by simp [PlanState.place]
    rw [show placed ++ f :: files = placed ++ [f] ++ files by simp]
    dsimp only at h
    split_ifs at h with hcut
    · rw [bind_eq_ok] at h
      obtain ⟨⟨padding, cursor⟩, hp, h⟩ := h
      exact ih (hplace.cut hne (alignmentPadding_laid hp)) h
    · exact ih hplace h

/-- A unit is cut only when a file is left, so the unit in progress at the end is not empty. -/
theorem planLoop_unitSources {volumeId : Text} {s t : PlanState}
    (hne : files ≠ [] ∨ s.unitSources ≠ []) (h : planLoop volumeId part files s = .ok t) :
    t.unitSources ≠ [] := by
  induction files generalizing s with
  | nil =>
    obtain rfl : s = t := Except.ok.inj h
    exact hne.resolve_left fun h => h rfl
  | cons f files ih =>
    rw [planLoop, bind_eq_ok] at h
    obtain ⟨header, hh, h⟩ := h
    dsimp only at h
    split_ifs at h with hcut
    · rw [bind_eq_ok] at h
      obtain ⟨⟨padding, cursor⟩, -, h⟩ := h
      refine ih (.inl ?_) h
      rintro rfl
      cases hcut
    · exact ih (.inr (by simp [PlanState.place])) h

/-! ## Normalised files -/

/-- The file with its normalised path. -/
def Normalizes (nfc : Text → Text) (f g : ArchiveFile) : Prop :=
  normalizeRelpath nfc f.path = .ok g.path ∧ g.bytes = f.bytes ∧ g.sha256 = f.sha256 ∧
    isSha256 g.sha256 = true ∧ reservedArchivePrefix.isPrefixOf g.path = false

theorem normalizeEach_spec {out : List ArchiveFile} {seen : List Text}
    (h : normalizeEach nfc maxMemberBytes files seen = .ok out) :
    Forall₂ (Normalizes nfc) files out ∧ (out.map ArchiveFile.path).Nodup ∧
      ∀ g ∈ out, g.path ∉ seen := by
  induction files generalizing out seen with
  | nil =>
    obtain rfl : [] = out := Except.ok.inj h
    simp
  | cons f files ih =>
    simp only [normalizeEach, bind_eq_ok, require_eq_ok] at h
    obtain ⟨path, hpath, -, hres, -, hseen, -, -, -, hsha, out', hout, h⟩ := h
    obtain rfl : { f with path := path } :: out' = out := Except.ok.inj h
    obtain ⟨hall, hnodup, hnew⟩ := ih hout
    have hf : Normalizes nfc f { f with path := path } :=
      ⟨hpath, rfl, rfl, hsha, by simpa using hres⟩
    refine ⟨.cons hf hall, ?_, ?_⟩
    · rw [map_cons, nodup_cons]
      refine ⟨fun hm => ?_, hnodup⟩
      obtain ⟨g, hg, he⟩ := mem_map.1 hm
      exact hnew g hg (by simp [he])
    · rw [forall_mem_cons]
      refine ⟨by simpa using hseen, fun g hg hs => hnew g hg (mem_cons_of_mem _ hs)⟩

/-- The normalised files: the given ones under normalised, distinct paths, in path order. -/
theorem normalizedFiles_spec {normalized : List ArchiveFile}
    (h : normalizedFiles nfc files maxMemberBytes = .ok normalized) :
    (∀ g ∈ normalized, ∃ f ∈ files, Normalizes nfc f g) ∧ normalized ≠ [] ∧
      normalized.Pairwise fun g g' => g.path < g'.path := by
  simp only [normalizedFiles, bind_eq_ok, require_eq_ok] at h
  obtain ⟨-, -, out, hout, -, hne, h⟩ := h
  obtain rfl : sortedBy ArchiveFile.path out = normalized := Except.ok.inj h
  obtain ⟨hall, hnodup, -⟩ := normalizeEach_spec hout
  have hperm := sortedBy_perm ArchiveFile.path out
  refine ⟨fun g hg => ?_, ?_, pairwise_lt_sortedBy _ hnodup⟩
  · obtain ⟨f, hf, hfg⟩ := forall₂_mem_right hall (hperm.mem_iff.1 hg)
    exact ⟨f, hf, hfg⟩
  · intro he
    rw [he] at hperm
    rw [hperm.symm.eq_nil] at hne
    cases hne

/-! ## Plans -/

/-- What a returned plan says: finished units, a last unit with the index, and the end markers. -/
structure PlanLaid (nfc : Text → Text) (files : List ArchiveFile) (maxMemberBytes : Int)
    (plan : PackVolumePlan) : Prop where
  /-- The members are the normalised files in path order. -/
  normalized : normalizedFiles nfc files maxMemberBytes = .ok (plan.members.map PackMemberPlan.file)
  count : plan.members.length ≤ archivePackFilesMax
  volumeId : plan.volumeId = "pack-" ++ zeroPadded 16 64 plan.sequence
  sequence : plan.sequence < 2 ^ 256
  indexBytes : plan.indexBytes = packIndexBytes plan.volumeId plan.sequence plan.members
  indexSha256 : plan.indexSha256 = sha256Hex plan.indexBytes
  /-- The units and their members lie one after the other. -/
  units : ∃ units done current sources index start cursor indexHeader,
    plan.units = units ++ [⟨index, start, plan.plaintextBytes, sources, none, true, true⟩] ∧
    plan.members = done ++ current ∧ UnitsLaid plan.volumeId 0 0 units done index start ∧
    Laid index start sources current cursor ∧ sources ≠ [] ∧
    tarHeader packIndexPath plan.indexBytes.length = .ok indexHeader ∧
    plan.plaintextBytes = cursor + indexHeader.length + plan.indexBytes.length +
      tarPadding plan.indexBytes.length + tarBlockSize * 2

/-- Every plan that `plan_pack_volume` returns is laid out. -/
theorem planPackVolume_laid {sequence partPlaintextBytes : Int}
    (h : planPackVolume nfc files sequence maxMemberBytes partPlaintextBytes = .ok plan) :
    PlanLaid nfc files maxMemberBytes plan := by
  simp only [planPackVolume, bind_eq_ok, require_eq_ok] at h
  obtain ⟨normalized, hnorm, -, hcount, -, hseq, -, -, -, -, -, hmax, s, hloop, indexHeader, hindex,
    sha, -, h⟩ := h
  obtain ⟨-, hne, -⟩ := normalizedFiles_spec hnorm
  have hinv := planLoop_laid PlanState.Inv.initial hloop
  obtain ⟨done, current, hm, hu, hl⟩ := hinv.laid
  have hplaced : s.members.map PackMemberPlan.file = normalized := by
    rw [← nil_append normalized, ← hinv.placed_eq, hm, map_append, hu.map_file, hl.map_file]
  have hlength : s.members.length = normalized.length := by
    rw [← hplaced, length_map]
  obtain rfl := Except.ok.inj h
  refine ⟨by rw [hnorm, hplaced], ?_, rfl, ?_, rfl, rfl, s.units, done, current, s.unitSources,
    s.unitIndex, s.unitStart, s.cursor, indexHeader, rfl, hm, hu, hl,
    planLoop_unitSources (.inl hne) hloop, hindex, ?_⟩
  · rw [hlength]
    simpa using hcount
  · dsimp only
    rw [decide_eq_true_iff] at hseq hmax
    omega
  · dsimp only
    omega

/-- No two members share a path. -/
theorem PlanLaid.nodup_path (h : PlanLaid nfc files maxMemberBytes plan) :
    (plan.members.map PackMemberPlan.path).Nodup := by
  obtain ⟨-, -, hsorted⟩ := normalizedFiles_spec h.normalized
  rw [pairwise_map] at hsorted
  rw [Nodup, pairwise_map]
  exact hsorted.imp fun hlt => ne_of_lt hlt

end Riverhog.Pack
