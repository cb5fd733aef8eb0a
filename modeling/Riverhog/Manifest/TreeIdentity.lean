import Riverhog.Pack.Plan

/-!
# The identity of a collection tree

`_normalized_files` and `collection_tree_identity` of `riverhog_core.archive_manifest`.
The identity is the number of files, their total size and the digest of one line for
each file, in the order of their paths. A path may hold tabs and newlines, so a line of
the text need not be a file: the same text can be cut into files in several ways, and
`lines_eq_cases` says that this happens only where the whole line of a file is the
beginning of the path of another one.
-/

namespace Riverhog.Manifest

open Core Protocol Pack List

/-! ## Normalised files -/

/-- An `ArchiveFile` as a caller passes it: its size is an integer of either sign. -/
structure FileEntry where
  path : Text
  bytes : Int
  sha256 : Text
  deriving DecidableEq

/-- An accepted file, passed again. -/
def FileEntry.ofFile (f : ArchiveFile) : FileEntry := ⟨f.path, f.bytes, f.sha256⟩

/-- The loop of `_normalized_files`. -/
def normalizeEntries (nfc : Text → Text) : List FileEntry → List Text → Py (List ArchiveFile)
  | [], _ => .ok []
  | current :: rest, seen => do
    let path ← normalizeRelpath nfc current.path
    require (!reservedArchivePrefix.isPrefixOf path) (.valueError
      ("collection path uses reserved archive namespace: " ++ String.ofList path))
    require (!seen.contains path) (.valueError
      ("duplicate collection archive path: " ++ String.ofList path))
    require (!(current.bytes < 0 || !isSha256 current.sha256)) (.valueError
      ("collection archive file identity is invalid: " ++ String.ofList path))
    let out ← normalizeEntries nfc rest (path :: seen)
    return ⟨path, current.bytes.toNat, current.sha256⟩ :: out

/-- `_normalized_files`. -/
def normalizedFiles (nfc : Text → Text) (files : List FileEntry) : Py (List ArchiveFile) := do
  let out ← normalizeEntries nfc files []
  require (!out.isEmpty) (.valueError "collection archive requires at least one file")
  return sortedBy ArchiveFile.path out

variable {f g : ArchiveFile} {files files' out : List ArchiveFile} {t : Text} {nfc : Text → Text}
  {α : Type*}

theorem normalizeEntries_spec {files : List FileEntry} {seen : List Text}
    (h : normalizeEntries nfc files seen = .ok out) :
    (out.map ArchiveFile.path).Nodup ∧ (∀ f ∈ out, f.path ∉ seen) ∧
      ∀ f ∈ out, isSha256 f.sha256 = true := by
  induction files generalizing out seen with
  | nil =>
    obtain rfl : [] = out := Except.ok.inj h
    simp
  | cons current rest ih =>
    simp only [normalizeEntries, bind_eq_ok, require_eq_ok, Bool.not_eq_true',
      Bool.or_eq_false_iff, Bool.not_eq_false', contains_eq_mem, decide_eq_false_iff_not] at h
    obtain ⟨path, -, -, -, -, hseen, -, ⟨-, hsha⟩, tail, htail, h⟩ := h
    obtain rfl := Except.ok.inj h
    obtain ⟨hnodup, hnew, hall⟩ := ih htail
    refine ⟨?_, ?_, ?_⟩
    · rw [map_cons, nodup_cons]
      refine ⟨fun hmem => ?_, hnodup⟩
      obtain ⟨f, hf, he⟩ := mem_map.1 hmem
      exact hnew f hf (mem_cons.2 (.inl he))
    · rintro f (_ | ⟨_, hf⟩)
      · exact hseen
      · exact fun hs => hnew f hf (mem_cons_of_mem _ hs)
    · rintro f (_ | ⟨_, hf⟩)
      · exact hsha
      · exact hall f hf

/-- The normalised files have distinct paths, stand in their order and carry digests. -/
theorem normalizedFiles_spec {files : List FileEntry}
    (h : normalizedFiles nfc files = .ok out) :
    out ≠ [] ∧ (out.map ArchiveFile.path).Nodup ∧ ∀ f ∈ out, isSha256 f.sha256 = true := by
  simp only [normalizedFiles, bind_eq_ok, require_eq_ok] at h
  obtain ⟨entries, hentries, -, hne, h⟩ := h
  obtain rfl : sortedBy ArchiveFile.path entries = out := Except.ok.inj h
  obtain ⟨hnodup, -, hall⟩ := normalizeEntries_spec hentries
  have hp := sortedBy_perm ArchiveFile.path entries
  refine ⟨fun hnil => ?_, (hp.map _).nodup_iff.2 hnodup, fun f hf => hall f (hp.mem_iff.1 hf)⟩
  rw [hnil, nil_perm] at hp
  simp [hp] at hne

/-! ## The identity -/

/-- `CollectionTreeIdentity`. -/
structure CollectionTreeIdentity where
  files : Nat
  bytes : Nat
  sha256 : Text
  deriving DecidableEq

/-- The text of a file up to its newline. -/
def lineBody (f : ArchiveFile) : Text := f.path ++ '\t' :: decimal f.bytes ++ '\t' :: f.sha256

/-- The bytes that `collection_tree_identity` hashes. -/
def treeBytes (files : List ArchiveFile) : Bytes :=
  files.flatMap fun f => treeLine f.path f.bytes f.sha256

/-- `collection_tree_identity`. -/
def collectionTreeIdentity (nfc : Text → Text) (files : List FileEntry) :
    Py CollectionTreeIdentity := do
  let normalized ← normalizedFiles nfc files
  return ⟨normalized.length, (normalized.map ArchiveFile.bytes).sum,
    sha256Hex (treeBytes normalized)⟩

/-- The lines of some files, cut at every newline, those inside a path included. -/
def treeLines (files : List ArchiveFile) : List Text :=
  files.flatMap fun f => (lineBody f).splitOn '\n'

/-- At the first place where the lists differ, the whole line of the file of `files` is the beginning
of the path of the file of `files'`. -/
def Swallowed (files files' : List ArchiveFile) : Prop :=
  ∃ before f rest g rest', files = before ++ f :: rest ∧ files' = before ++ g :: rest' ∧
    lineBody f ++ ['\n'] <+: g.path

/-! ## Lines -/

/-- Two texts cut at their first separator. -/
theorem append_sep_inj {x : α} {a b s t : List α} (ha : x ∉ a) (hb : x ∉ b)
    (h : a ++ x :: s = b ++ x :: t) : a = b ∧ s = t := by
  induction a generalizing b with
  | nil =>
    cases b with
    | nil => exact ⟨rfl, tail_eq_of_cons_eq h⟩
    | cons c b =>
      have hc : x = c := head_eq_of_cons_eq h
      exact absurd (hc ▸ mem_cons_self) hb
  | cons d a ih =>
    cases b with
    | nil =>
      have hd : d = x := head_eq_of_cons_eq h
      exact absurd (hd ▸ mem_cons_self) ha
    | cons c b =>
      obtain ⟨rfl, htail⟩ := cons_eq_cons.1 h
      obtain ⟨rfl, hst⟩ := ih (fun hm => ha (mem_cons_of_mem _ hm))
        (fun hm => hb (mem_cons_of_mem _ hm)) htail
      exact ⟨rfl, hst⟩

/-- Two texts cut at their last separator. -/
theorem append_sep_inj_last {x : α} {a b s t : List α} (hs : x ∉ s) (ht : x ∉ t)
    (h : a ++ x :: s = b ++ x :: t) : a = b ∧ s = t := by
  have hr := congrArg reverse h
  simp only [reverse_append, reverse_cons, append_assoc, singleton_append] at hr
  obtain ⟨h₁, h₂⟩ := append_sep_inj (by simpa using hs) (by simpa using ht) hr
  exact ⟨reverse_injective h₂, reverse_injective h₁⟩

/-- A character below the digits occurs in no numeral and in no digest. -/
theorem notMem_decimal {c : Char} (hc : c < '0') (n : Nat) : c ∉ decimal n := by
  intro h
  obtain ⟨d, hd, rfl⟩ := mem_toDigits (by decide) h
  have hall : ∀ d < 10, ¬ Nat.digitChar d < '0' := by decide
  exact hall d hd hc

theorem notMem_sha256 {c : Char} (hc : c < '0') (ht : isSha256 t = true) : c ∉ t := by
  intro h
  rw [isSha256, Bool.and_eq_true, all_eq_true] at ht
  have hx := ht.2 c h
  simp only [isHexDigit, Bool.or_eq_true, Bool.and_eq_true, decide_eq_true_eq] at hx
  have ha : '0' < 'a' := by decide
  rcases hx with hx | hx
  · exact absurd hc hx.1.not_gt
  · exact absurd hc (ha.trans_le hx.1).not_gt

section

variable (hf : isSha256 f.sha256 = true)
include hf

/-- What follows the path on a line holds no newline. -/
theorem newline_notMem_tail :
    '\n' ∉ '\t' :: decimal f.bytes ++ '\t' :: f.sha256 := by
  have hd := notMem_decimal (by decide : '\n' < '0') f.bytes
  have hs := notMem_sha256 (by decide : '\n' < '0') hf
  simp [hd, hs]

/-- A line determines its file, whatever the path is. -/
theorem lineBody_inj (hg : isSha256 g.sha256 = true) (h : lineBody f = lineBody g) : f = g := by
  have htab : '\t' < '0' := by decide
  obtain ⟨hhead, hsha⟩ := append_sep_inj_last (notMem_sha256 htab hf) (notMem_sha256 htab hg) h
  obtain ⟨hpath, hbytes⟩ := append_sep_inj_last (notMem_decimal htab _) (notMem_decimal htab _)
    hhead
  have hn : f.bytes = g.bytes := by
    have := congrArg (fun t => Nat.ofDigitChars 10 t 0) hbytes
    simpa [decimal, Nat.ofDigitChars_toDigits] using this
  cases f
  cases g
  simp_all

/-- A line that begins another one is that line, or begins the path of the other one. -/
theorem line_prefix_cases (hg : isSha256 g.sha256 = true)
    (h : lineBody f ++ ['\n'] <+: lineBody g ++ ['\n']) :
    f = g ∨ lineBody f ++ ['\n'] <+: g.path := by
  obtain ⟨t, ht⟩ := h
  rcases eq_nil_or_concat t with rfl | ⟨t, c, rfl⟩
  · rw [append_nil] at ht
    exact .inl (lineBody_inj hf hg (append_cancel_right ht))
  · right
    -- the newline that ends the line of `f` lies inside the line of `g`, hence inside its path
    rw [concat_eq_append, ← append_assoc] at ht
    have hbody : lineBody f ++ ['\n'] ++ t = lineBody g := (append_inj' ht rfl).1
    have hg' : lineBody g = g.path ++ ('\t' :: decimal g.bytes ++ '\t' :: g.sha256) := by
      simp [lineBody]
    rw [hg', append_eq_append_iff] at hbody
    rcases hbody with ⟨u, hu, -⟩ | ⟨u, hu, htail⟩
    · exact ⟨u, hu.symm⟩
    · rcases eq_nil_or_concat u with rfl | ⟨u, d, rfl⟩
      · exact ⟨[], by simpa using hu⟩
      · rw [concat_eq_append, ← append_assoc] at hu
        obtain ⟨-, hd⟩ := append_inj' hu rfl
        obtain rfl : '\n' = d := by simpa using hd
        refine absurd ?_ (newline_notMem_tail hg)
        rw [htail]
        simp

/-- Two sequences of lines with the same beginning: the same file, or a line inside a path. -/
theorem lines_eq_cases {u : Text} (hg : isSha256 g.sha256 = true)
    (h : lineBody f ++ ['\n'] ++ t = lineBody g ++ ['\n'] ++ u) :
    f = g ∧ t = u ∨ lineBody f ++ ['\n'] <+: g.path ∨ lineBody g ++ ['\n'] <+: f.path := by
  have hfp : lineBody f ++ ['\n'] <+: lineBody g ++ ['\n'] ++ u := ⟨t, h⟩
  have hgp : lineBody g ++ ['\n'] <+: lineBody g ++ ['\n'] ++ u := prefix_append _ _
  rcases prefix_or_prefix_of_prefix hfp hgp with hp | hp
  · rcases line_prefix_cases hf hg hp with rfl | hp
    · exact .inl ⟨rfl, append_cancel_left h⟩
    · exact .inr (.inl hp)
  · rcases line_prefix_cases hg hf hp with rfl | hp
    · exact .inl ⟨rfl, append_cancel_left h⟩
    · exact .inr (.inr hp)

end

/-- The text of some files. -/
def treeText (files : List ArchiveFile) : Text := files.flatMap fun f => lineBody f ++ ['\n']

theorem treeText_cons (f : ArchiveFile) (rest : List ArchiveFile) :
    treeText (f :: rest) = lineBody f ++ ['\n'] ++ treeText rest := flatMap_cons

theorem treeLines_cons (f : ArchiveFile) (rest : List ArchiveFile) :
    treeLines (f :: rest) = (lineBody f).splitOn '\n' ++ treeLines rest := flatMap_cons

theorem treeBytes_eq (files : List ArchiveFile) : treeBytes files = encodeUtf8 (treeText files) := by
  induction files with
  | nil => rfl
  | cons f rest ih =>
    rw [treeBytes, flatMap_cons, ← treeBytes, ih, treeText_cons, encodeUtf8_append, treeLine,
      lineBody]

/-- Different files with one text: at the first difference a line lies inside a path. -/
theorem swallowed_of_treeText_eq (hs : ∀ f ∈ files, isSha256 f.sha256 = true)
    (hs' : ∀ f ∈ files', isSha256 f.sha256 = true) (ht : treeText files = treeText files')
    (hne : files ≠ files') : Swallowed files files' ∨ Swallowed files' files := by
  induction files generalizing files' with
  | nil =>
    cases files' with
    | nil => exact absurd rfl hne
    | cons g rest' => simp [treeText] at ht
  | cons f rest ih =>
    cases files' with
    | nil => simp [treeText] at ht
    | cons g rest' =>
      have hf := hs f mem_cons_self
      have hg := hs' g mem_cons_self
      rw [treeText_cons, treeText_cons] at ht
      rcases lines_eq_cases hf hg ht with ⟨rfl, hrest⟩ | hp | hp
      · refine (ih (fun f hm => hs f (mem_cons_of_mem _ hm))
          (fun f hm => hs' f (mem_cons_of_mem _ hm)) hrest fun he => hne (he ▸ rfl)).imp ?_ ?_ <;>
        · rintro ⟨before, a, r, b, r', rfl, rfl, hp⟩
          exact ⟨f :: before, a, r, b, r', rfl, rfl, hp⟩
      · exact .inl ⟨[], f, rest, g, rest', rfl, rfl, hp⟩
      · exact .inr ⟨[], g, rest', f, rest, rfl, rfl, hp⟩

/-- A list is not swallowed by itself. -/
theorem Swallowed.ne (h : Swallowed files files') : files ≠ files' := by
  rintro rfl
  obtain ⟨before, f, rest, g, rest', h₁, h₂, hp⟩ := h
  obtain ⟨rfl, -⟩ := cons_eq_cons.1 (append_cancel_left (h₁.symm.trans h₂))
  have hlen := hp.length_le
  simp only [lineBody, length_append, length_cons] at hlen
  omega

/-! ## Lines and text -/

/-- The text of a line, from its pieces. -/
theorem flatMap_pieces {pieces : List Text} (h : pieces ≠ []) :
    (pieces.flatMap fun t => t ++ ['\n']) = joinWith '\n' pieces ++ ['\n'] := by
  induction pieces with
  | nil => exact absurd rfl h
  | cons t rest ih =>
    cases rest with
    | nil => simp
    | cons u rest =>
      rw [flatMap_cons, ih (cons_ne_nil _ _), joinWith_cons_cons]
      simp

theorem treeText_eq_flatMap (files : List ArchiveFile) :
    treeText files = (treeLines files).flatMap fun t => t ++ ['\n'] := by
  induction files with
  | nil => rfl
  | cons f rest ih =>
    have hjoin : joinWith '\n' ((lineBody f).splitOn '\n') = lineBody f :=
      intercalate_splitOn '\n'
    rw [treeText_cons, ih, treeLines_cons, flatMap_append, flatMap_pieces (splitOn_ne_nil _ _), hjoin]

theorem newline_notMem_treeLines (h : t ∈ treeLines files) : '\n' ∉ t := by
  obtain ⟨f, -, ht⟩ := mem_flatMap.1 h
  exact not_mem_of_mem_splitOn ht

/-- Pieces without a newline are read back from the text. -/
theorem pieces_inj {pieces pieces' : List Text} (h : ∀ t ∈ pieces, '\n' ∉ t)
    (h' : ∀ t ∈ pieces', '\n' ∉ t)
    (he : (pieces.flatMap fun t => t ++ ['\n']) = pieces'.flatMap fun t => t ++ ['\n']) :
    pieces = pieces' := by
  induction pieces generalizing pieces' with
  | nil =>
    cases pieces' with
    | nil => rfl
    | cons t rest => simp at he
  | cons t rest ih =>
    cases pieces' with
    | nil => simp at he
    | cons t' rest' =>
      simp only [flatMap_cons, append_assoc, singleton_append] at he
      obtain ⟨rfl, hrest⟩ := append_sep_inj (h t mem_cons_self) (h' t' mem_cons_self) he
      rw [ih (fun t hm => h t (mem_cons_of_mem _ hm))
        (fun t hm => h' t (mem_cons_of_mem _ hm)) hrest]

/-- The same text means the same lines. -/
theorem treeText_eq_iff :
    treeText files = treeText files' ↔ treeLines files = treeLines files' := by
  rw [treeText_eq_flatMap, treeText_eq_flatMap]
  refine ⟨pieces_inj ?_ ?_, fun h => h ▸ rfl⟩ <;> exact fun t => newline_notMem_treeLines

/-! ## When the identity determines the files -/

theorem collectionTreeIdentity_eq_iff {files files' : List FileEntry}
    {tree tree' : List ArchiveFile} (h : normalizedFiles nfc files = .ok tree)
    (h' : normalizedFiles nfc files' = .ok tree') :
    collectionTreeIdentity nfc files = collectionTreeIdentity nfc files' ↔
      tree.length = tree'.length ∧
      (tree.map ArchiveFile.bytes).sum = (tree'.map ArchiveFile.bytes).sum ∧
      sha256Hex (treeBytes tree) = sha256Hex (treeBytes tree') := by
  rw [collectionTreeIdentity, collectionTreeIdentity, h, h', ok_bind, ok_bind]
  simp [pure, Except.pure]

end Riverhog.Manifest
