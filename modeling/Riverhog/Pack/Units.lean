import Riverhog.Core.Greedy
import Riverhog.Pack.Layout

/-!
# The upload units of a pack

The planning loop closes a unit once its members reach the part size or the unit has
the largest number of sources. What a member contributes is its whole tar record, the
pax header and the padding to a block included; the padding member that aligns the end
of a unit is not counted for the next one. So the units are the greedy groups of the
members (`planPackVolume_sources`).
-/

namespace Riverhog.Pack

open Core Protocol Greedy List

/-- The bytes of a file's tar record: its headers, its data and the padding to a block. -/
def recordBytes (f : ArchiveFile) : Nat :=
  ((tarHeader f.path f.bytes).toOption.elim 0 length) + f.bytes + tarPadding f.bytes

/-- The sources of a unit fill it: they reach the part size, or the largest number of sources. -/
def fillsUnit (partPlaintextBytes : Nat) (sources : List ArchiveFile) : Bool :=
  (sources.map recordBytes).sum ≥ partPlaintextBytes ||
    sources.length ≥ collectionUploadUnitSourceMax

variable {files : List ArchiveFile} {part : Nat}

theorem fillsUnit_nil (hp : 0 < part) : fillsUnit part [] = false := by
  simp [fillsUnit, collectionUploadUnitSourceMax]
  omega

theorem fillsUnit_append (a b : List ArchiveFile) (h : fillsUnit part b = true) :
    fillsUnit part (a ++ b) = true := by
  simp only [fillsUnit, map_append, sum_append, length_append, Bool.or_eq_true,
    decide_eq_true_eq] at h ⊢
  omega

theorem recordBytes_eq {f : ArchiveFile} {header : Bytes}
    (h : tarHeader f.path f.bytes = .ok header) :
    recordBytes f = header.length + f.bytes + tarPadding f.bytes := by
  rw [recordBytes, h]
  rfl

/-- The unit in progress spans the records of its sources. -/
structure PlanState.Spans (part : Nat) (s : PlanState) : Prop where
  bytes : s.cursor = s.unitStart + (s.unitSources.map recordBytes).sum
  /-- A unit that is full is not in progress. -/
  notFull : s.unitSources = [] ∨ fillsUnit part s.unitSources = false

/-- The units that the loop closes, and the one it leaves, are the greedy groups of the files. -/
theorem planLoop_sources {volumeId : Text} {s t : PlanState} (hs : s.Spans part)
    (h : planLoop volumeId part files s = .ok t) (hne : s.unitSources ++ files ≠ []) :
    t.units.map PackUploadUnitPlan.sources ++ [t.unitSources] =
      s.units.map PackUploadUnitPlan.sources ++
        groupsFrom (fun unit _ => fillsUnit part unit) s.unitSources files := by
  induction files generalizing s with
  | nil =>
    obtain rfl : s = t := Except.ok.inj h
    rw [append_nil] at hne
    rw [groupsFrom_nil hne]
  | cons f files ih =>
    rw [planLoop, bind_eq_ok] at h
    obtain ⟨header, hheader, h⟩ := h
    rw [groupsFrom_cons_open hs.notFull]
    have hspan : (s.place f header.length).cursor =
        s.unitStart + ((s.unitSources ++ [f]).map recordBytes).sum := by
      rw [map_append, sum_append, map_singleton, sum_singleton, recordBytes_eq hheader]
      have hbytes := hs.bytes
      simp only [PlanState.place]
      omega
    have hfull : (decide ((s.place f header.length).cursor - (s.place f header.length).unitStart ≥
          part) || decide ((s.place f header.length).unitSources.length ≥
            collectionUploadUnitSourceMax)) = fillsUnit part (s.unitSources ++ [f]) := by
      have hspanned : (s.place f header.length).cursor - (s.place f header.length).unitStart =
          ((s.unitSources ++ [f]).map recordBytes).sum := by
        rw [hspan]
        exact Nat.add_sub_cancel_left _ _
      rw [hspanned]
      rfl
    dsimp only at h
    rw [hfull] at h
    cases files with
    | nil =>
      rw [if_neg (by simp)] at h
      obtain rfl := Except.ok.inj h
      rw [groupsFrom_nil (by simp)]
      rfl
    | cons g files =>
      cases hf : fillsUnit part (s.unitSources ++ [f]) with
      | true =>
        rw [if_pos (by simp [hf]), bind_eq_ok] at h
        obtain ⟨⟨padding, cursor⟩, -, h⟩ := h
        have hempty : ((s.place f header.length).cut padding cursor).unitSources = [] := rfl
        rw [ih ⟨rfl, .inl rfl⟩ h (by simp), hempty, groupsFrom_cons_open (.inl rfl),
          groupsFrom_cons_full (by simp) hf]
        simp [PlanState.cut, PlanState.place]
      | false =>
        rw [if_neg (by simp [hf])] at h
        exact ih ⟨hspan, .inr hf⟩ h (by simp [PlanState.place])

variable {maxMemberBytes partPlaintextBytes sequence : Int} {plan : PackVolumePlan}
  {nfc : Text → Text}

/-- The units of a plan are the greedy groups of its members. -/
theorem planPackVolume_sources
    (h : planPackVolume nfc files sequence maxMemberBytes partPlaintextBytes = .ok plan) :
    plan.units.map PackUploadUnitPlan.sources =
      groups (fun unit _ => fillsUnit partPlaintextBytes.toNat unit)
        (plan.members.map PackMemberPlan.file) := by
  have hlaid := planPackVolume_laid h
  simp only [planPackVolume, bind_eq_ok, require_eq_ok] at h
  obtain ⟨normalized, hnorm, _, _, _, _, _, _, _, _, _, _, s, hloop, _, _, _, _, h⟩ := h
  obtain ⟨-, hne, -⟩ := normalizedFiles_spec hnorm
  have hmembers : plan.members.map PackMemberPlan.file = normalized :=
    Except.ok.inj (hlaid.normalized.symm.trans hnorm)
  have hgroups := planLoop_sources ⟨rfl, .inl rfl⟩ hloop hne
  rw [hmembers, groups, ← nil_append (groupsFrom _ _ _)]
  rw [← Except.ok.inj h, map_append]
  exact hgroups

/-- A pack has at most `n` units exactly when its members cannot be cut, in path order, into `n`
sequences that each fill a unit and something more. -/
theorem length_units_le_iff {n : Nat} (hpart : 0 < partPlaintextBytes)
    (h : planPackVolume nfc files sequence maxMemberBytes partPlaintextBytes = .ok plan) :
    plan.units.length ≤ n ↔ ∀ (units : List (List ArchiveFile)) (last : List ArchiveFile),
      plan.members.map PackMemberPlan.file = units.flatten ++ last → last ≠ [] →
      (∀ unit ∈ units, fillsUnit partPlaintextBytes.toNat unit = true) → units.length < n := by
  have hne : plan.members.map PackMemberPlan.file ≠ [] :=
    (normalizedFiles_spec (planPackVolume_laid h).normalized).2.1
  rw [← length_map PackUploadUnitPlan.sources, planPackVolume_sources h]
  exact length_groups_le_iff (fillsUnit_nil (by omega)) fillsUnit_append hne

end Riverhog.Pack
