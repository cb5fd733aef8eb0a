import Riverhog.Core.Python

/-!
# Canonical relative paths

`normalize_relpath` of `riverhog_protocol.paths`. Unicode normalisation form C is a
parameter: the code only ever applies it, and no result here depends on its table.
A normalised path is a non-empty sequence of components, none of them empty, `.` or
`..`, joined by slashes; everything later is proved from that shape. Blanks are stripped
before the slashes, so a normalised path may still begin or end with one, and is then not
canonical (`normalizeRelpath_canonical_iff`).
-/

namespace Riverhog.Protocol

open Core List

/-- The loop of `normalize_relpath` over the components of the candidate. -/
def relativeParts : List Text → Py (List Text)
  | [] => .ok []
  | part :: rest =>
    if part = [] ∨ part = ['.'] then relativeParts rest
    else if part = ['.', '.'] then .error (.valueError "path must not escape its root")
    else do
      let parts ← relativeParts rest
      return part :: parts

/-- `normalize_relpath`; `nfc` is `unicodedata.normalize("NFC", ·)`. -/
def normalizeRelpath (nfc : Text → Text) (raw : Text) : Py Text :=
  let candidate := replaceChar '\\' '/' (nfc (strip raw))
  if candidate = [] ∨ candidate = ['.'] ∨ candidate = ['/'] then
    .error (.valueError "path must not be empty")
  else if isAbsolute candidate then .error (.valueError "path must be relative")
  else do
    let parts ← relativeParts (pathParts candidate)
    if parts = [] then .error (.valueError "path must not be empty")
    else return joinWith '/' parts

/-- What a component of a normalised path is. -/
structure IsComponent (part : Text) : Prop where
  nonempty : part ≠ []
  not_dot : part ≠ ['.']
  not_dotdot : part ≠ ['.', '.']
  no_slash : '/' ∉ part
  no_backslash : '\\' ∉ part

/-- A normalised path: components joined by slashes. -/
structure IsRelpath (path : Text) (parts : List Text) : Prop where
  nonempty : parts ≠ []
  component : ∀ part ∈ parts, IsComponent part
  join : path = joinWith '/' parts

/-- The components that the loop keeps, of a path that has no `..`. -/
theorem relativeParts_eq_ok {parts out : List Text} : relativeParts parts = .ok out ↔
    ['.', '.'] ∉ parts ∧ out = parts.filter fun part => !(part == [] || part == ['.']) := by
  induction parts generalizing out with
  | nil => simp [relativeParts, eq_comm]
  | cons part rest ih =>
    rw [relativeParts]
    split_ifs with hskip hup
    · rw [ih, filter_cons_of_neg (by simpa [or_iff_not_imp_left] using hskip), mem_cons, not_or]
      refine and_congr_left' ⟨fun h => ⟨?_, h⟩, fun h => h.2⟩
      rintro rfl
      exact absurd hskip (by decide)
    · simp [hup]
    · rw [bind_eq_ok, filter_cons_of_pos (by simpa using hskip), mem_cons, not_or]
      simp only [ih]
      constructor
      · rintro ⟨_, ⟨hdots, rfl⟩, h⟩
        exact ⟨⟨fun he => hup he.symm, hdots⟩, (Except.ok.inj h).symm⟩
      · rintro ⟨⟨-, hdots⟩, rfl⟩
        exact ⟨_, ⟨hdots, rfl⟩, rfl⟩

/-- The path that `normalize_relpath` splits. -/
def candidatePath (nfc : Text → Text) (raw : Text) : Text := replaceChar '\\' '/' (nfc (strip raw))

/-- Every path that `normalize_relpath` returns has the shape of a relative path. -/
theorem normalizeRelpath_spec {nfc : Text → Text} {raw path : Text}
    (h : normalizeRelpath nfc raw = .ok path) :
    IsRelpath path (pathParts (candidatePath nfc raw)) := by
  rw [normalizeRelpath, ← candidatePath] at h
  split_ifs at h
  obtain ⟨parts, hparts, h⟩ := bind_eq_ok.1 h
  obtain ⟨hdots, rfl⟩ := relativeParts_eq_ok.1 hparts
  rw [pathParts, filter_filter] at h
  simp only [Bool.and_self] at h
  rw [← pathParts] at h
  split_ifs at h with hne
  refine ⟨hne, fun part hpart => ?_, (Except.ok.inj h).symm⟩
  obtain ⟨hsplit, hkept⟩ := mem_filter.1 hpart
  simp only [Bool.not_eq_true', Bool.or_eq_false_iff, beq_eq_false_iff_ne] at hkept
  refine ⟨hkept.1, hkept.2, fun he => hdots (he ▸ hpart), not_mem_of_mem_splitOn hsplit, fun hb => ?_⟩
  -- every letter of a component is a letter of the candidate, which has no backslash left
  obtain ⟨c, -, hc⟩ := mem_map.1 ((infix_of_mem_splitOn hsplit).subset hb)
  split_ifs at hc with heq
  · exact absurd hc (by decide)
  · exact heq hc

namespace IsRelpath

variable {path : Text} {parts : List Text}

variable (h : IsRelpath path parts)
include h

/-- Splitting at the slashes gives the components back. -/
theorem splitOn_eq : path.splitOn '/' = parts := by
  rw [h.join, joinWith]
  exact splitOn_intercalate '/' (fun part hp => (h.component part hp).no_slash) h.nonempty

/-- The first letter of a path is the one of its first component. -/
theorem head?_eq : path.head? = parts.head?.bind head? := by
  obtain ⟨first, rest, rfl⟩ := exists_cons_of_ne_nil h.nonempty
  obtain ⟨c, tail, rfl⟩ := exists_cons_of_ne_nil (h.component first mem_cons_self).nonempty
  rw [h.join]
  cases rest with
  | nil => rw [joinWith_singleton, head?_cons, head?_cons, Option.bind_some, head?_cons]
  | cons next rest => rfl

/-- A relative path does not start with a slash. -/
theorem head_ne_slash : ∃ c tail, path = c :: tail ∧ c ≠ '/' := by
  obtain ⟨first, rest, rfl⟩ := exists_cons_of_ne_nil h.nonempty
  have hf := h.component first mem_cons_self
  obtain ⟨c, tail, rfl⟩ := exists_cons_of_ne_nil hf.nonempty
  obtain ⟨rest, hpath⟩ := head?_eq_some_iff.1 h.head?_eq
  exact ⟨c, rest, hpath, fun he => hf.no_slash (he ▸ mem_cons_self)⟩

/-- A normalised path holds no backslash. -/
theorem no_backslash : '\\' ∉ path := by
  intro hm
  rw [h.join] at hm
  rcases mem_of_mem_joinWith hm with he | ⟨part, hp, hc⟩
  · cases he
  · exact (h.component part hp).no_backslash hc

/-- The last letter of a path is the one of its last component. -/
theorem getLast?_eq :
    path.getLast? = parts.getLast?.bind getLast? := by
  obtain ⟨front, last, rfl⟩ := (eq_nil_or_concat' parts).resolve_left h.nonempty
  have hl := (h.component last (by simp)).nonempty
  rw [h.join, getLast?_concat, Option.bind_some]
  by_cases hf : front = []
  · rw [hf, nil_append, joinWith_singleton]
  · rw [joinWith_append '/' hf (cons_ne_nil _ _), joinWith_singleton, getLast?_append,
      getLast?_cons, Option.some_or, getLast?_eq_some_getLast hl, Option.getD_some]

/-- A relative path does not end with a slash. -/
theorem getLast?_ne_slash : path.getLast? ≠ some '/' := by
  intro he
  rw [h.getLast?_eq] at he
  obtain ⟨last, hlast, hc⟩ := Option.bind_eq_some_iff.1 he
  exact (h.component last (mem_of_getLast? hlast)).no_slash (mem_of_getLast? hc)

/-- A relative path without surrounding blanks, in normal form C, is its own normal form. -/
theorem normalizeRelpath_eq {nfc : Text → Text}
    (hs : strip path = path) (hn : nfc path = path) : normalizeRelpath nfc path = .ok path := by
  have hcandidate : replaceChar '\\' '/' (nfc (strip path)) = path := by
    have hkeep : ∀ c ∈ path, (if c = '\\' then '/' else c) = c := by
      intro c hc
      refine if_neg ?_
      rintro rfl
      exact h.no_backslash hc
    rw [hs, hn, replaceChar, map_congr_left hkeep, map_id']
  have hparts : pathParts path = parts := by
    rw [pathParts, h.splitOn_eq, filter_eq_self]
    intro part hp
    have hc := h.component part hp
    simp [hc.nonempty, hc.not_dot]
  have hloop : ∀ ps : List Text, (∀ part ∈ ps, IsComponent part) → relativeParts ps = .ok ps := by
    intro ps hps
    induction ps with
    | nil => rfl
    | cons part ps ih =>
      rw [forall_mem_cons] at hps
      rw [relativeParts, if_neg (by simp [hps.1.nonempty, hps.1.not_dot]),
        if_neg hps.1.not_dotdot, ih hps.2]
      rfl
  obtain ⟨c, tail, hpath, hc⟩ := h.head_ne_slash
  have hdot : path ≠ ['.'] := by
    intro he
    have hsplit := h.splitOn_eq
    rw [he] at hsplit
    exact (h.component ['.'] (hsplit ▸ by decide)).not_dot rfl
  rw [normalizeRelpath, hcandidate, if_neg, if_neg, hparts, hloop parts h.component, ok_bind,
    if_neg h.nonempty, ← h.join]
  · rfl
  · rw [isAbsolute, hpath]
    simpa using hc
  · rintro (he | he | he)
    · rw [he] at hpath
      cases hpath
    · exact hdot he
    · rw [he] at hpath
      exact hc (cons.inj hpath).1.symm

end IsRelpath

/-! ## Canonical paths -/

/-- `validate_canonical_relpath`. -/
def validateCanonicalRelpath (nfc : Text → Text) (value : Text) : Py Text := do
  let normalized ← normalizeRelpath nfc value
  require (normalized = value) (.valueError "path must be canonical")
  return normalized

/-- Normalisation form C with what is used of it: it is idempotent, substrings of a normalised text
are normalised, and a slash composes with nothing before or after it. -/
structure NormalForm where
  nfc : Text → Text
  idempotent (t : Text) : nfc (nfc t) = nfc t
  substring {s t : Text} : nfc t = t → s <:+: t → nfc s = s
  slash {s t : Text} : nfc s = s → nfc t = t → nfc (s ++ '/' :: t) = s ++ '/' :: t

instance : Inhabited NormalForm := ⟨⟨id, fun _ => rfl, fun _ _ => rfl, fun _ _ => rfl⟩⟩

/-- The first component does not begin and the last one does not end with a blank. -/
def EdgesClear (parts : List Text) : Prop :=
  (parts.head?.bind head?).any isSpace = false ∧ (parts.getLast?.bind getLast?).any isSpace = false

instance (parts : List Text) : Decidable (EdgesClear parts) := instDecidableAnd

theorem NormalForm.joinWith (n : NormalForm) {parts : List Text} (hne : parts ≠ [])
    (h : ∀ part ∈ parts, n.nfc part = part) : n.nfc (joinWith '/' parts) = joinWith '/' parts := by
  induction parts with
  | nil => exact absurd rfl hne
  | cons part rest ih =>
    rw [forall_mem_cons] at h
    cases rest with
    | nil => simpa using h.1
    | cons next rest =>
      rw [joinWith_cons_cons]
      exact n.slash h.1 (ih (cons_ne_nil _ _) h.2)

/-- A substring without slashes is not changed by the replacement of the backslashes. -/
theorem infix_of_replaceChar {part t : Text} (h : part <:+: replaceChar '\\' '/' t)
    (hslash : '/' ∉ part) : part <:+: t := by
  obtain ⟨a, b, h⟩ := h
  obtain ⟨t₁, t₂, rfl, h₁, -⟩ := map_eq_append_iff.1 h.symm
  obtain ⟨t₃, t₄, rfl, -, rfl⟩ := map_eq_append_iff.1 h₁
  have hkeep : ∀ c ∈ t₄, (if c = '\\' then '/' else c) = c := by
    intro c hc
    refine if_neg ?_
    rintro rfl
    exact hslash (mem_map.2 ⟨_, hc, rfl⟩)
  rw [map_congr_left hkeep, map_id']
  exact ⟨t₃, t₂, rfl⟩

variable {raw path : Text} {parts : List Text}

/-- A normalised path is in normal form C. -/
theorem NormalForm.normalizeRelpath (n : NormalForm) (h : normalizeRelpath n.nfc raw = .ok path) :
    n.nfc path = path := by
  have hpath := normalizeRelpath_spec h
  rw [hpath.join]
  refine n.joinWith hpath.nonempty fun part hpart => ?_
  have hinfix := infix_of_mem_splitOn (mem_of_mem_filter hpart)
  exact n.substring (n.idempotent _)
    (infix_of_replaceChar hinfix (hpath.component part hpart).no_slash)

/-- Normalising a path in normal form C again keeps it or makes it shorter. -/
theorem IsRelpath.normalize_again (hpath : IsRelpath path parts) (n : NormalForm)
    (hn : n.nfc path = path) {path' : Text} (h : Protocol.normalizeRelpath n.nfc path = .ok path') :
    strip path = path ∧ path' = path ∨ path'.length < path.length := by
  by_cases hs : strip path = path
  · exact .inl ⟨hs, Except.ok.inj (h.symm.trans (hpath.normalizeRelpath_eq hs hn))⟩
  · have hcand : (candidatePath n.nfc path).length = (strip path).length := by
      rw [candidatePath, replaceChar, length_map, n.substring hn (infix_strip path)]
    have hjoin : joinWith '/' ((candidatePath n.nfc path).splitOn '/') = candidatePath n.nfc path :=
      intercalate_splitOn '/'
    have hshorter := (infix_strip path).length_le.lt_of_ne fun he =>
      hs ((infix_strip path).eq_of_length he)
    have hkept : (pathParts (candidatePath n.nfc path)) <+ (candidatePath n.nfc path).splitOn '/' :=
      filter_sublist
    have hle := (joinWith_sublist '/' hkept).length_le
    rw [hjoin, hcand, ← (normalizeRelpath_spec h).join] at hle
    exact .inr (hle.trans_lt hshorter)

/-- The blanks at the ends of a path are those at the ends of its components. -/
theorem IsRelpath.strip_eq_self_iff (hpath : IsRelpath path parts) :
    strip path = path ↔ EdgesClear parts := by
  rw [Core.strip_eq_self_iff, hpath.head?_eq, hpath.getLast?_eq]
  rfl

/-- A path that was normalised is canonical if and only if its first component does not begin and
its last one does not end with a blank. -/
theorem normalizeRelpath_canonical_iff (n : NormalForm)
    (h : normalizeRelpath n.nfc raw = .ok path) :
    (validateCanonicalRelpath n.nfc path = .ok path ∧ normalizeRelpath n.nfc path = .ok path) ↔
      EdgesClear (pathParts (candidatePath n.nfc raw)) := by
  have hpath := normalizeRelpath_spec h
  have hn := n.normalizeRelpath h
  rw [← hpath.strip_eq_self_iff]
  constructor
  · rintro ⟨-, hagain⟩
    obtain ⟨hs, -⟩ | hlt := hpath.normalize_again n hn hagain
    · exact hs
    · exact absurd hlt (lt_irrefl _)
  · intro hs
    have hagain := hpath.normalizeRelpath_eq hs hn
    exact ⟨by simp [validateCanonicalRelpath, hagain, pure, Except.pure], hagain⟩

theorem normalizeRelpath_canonical_nested :
    validateCanonicalRelpath id "a/b" = .ok "a/b" ∧ normalizeRelpath id "a/b" = .ok "a/b" :=
  (@normalizeRelpath_canonical_iff "./a//b " _ default (by decide +kernel)).2
    (by decide +kernel)

/-- A blank component at the end of a path is found only once the slash after it is gone. -/
theorem normalizeRelpath_blank_component :
    normalizeRelpath id "a/ /" = .ok "a/ " ∧ normalizeRelpath id "a/ " = .ok "a" := by
  decide +kernel

end Riverhog.Protocol
