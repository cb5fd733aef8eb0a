import Mathlib.Data.List.Infix

/-!
# A tree of files

Directories and files named by the components of their paths, with the system calls
that create them: `mkdir`, an exclusive `open`, `unlink`, and the loop that makes a
directory together with its missing parents. A tree carries the proof that whatever
it holds lies in directories.

`Holds` says that a tree is exactly what a list of files needs. Creating one more
file succeeds exactly when its path and the paths before it do not clash, so a list
of files can be created exactly when no path is a leading part of another.
-/

namespace Riverhog.Core

open List

/-- What a path names. -/
inductive Node (β : Type*) where
  | dir
  | file (content : β)
  deriving DecidableEq

/-- The errors of the system calls. -/
inductive OsError where
  /-- `FileExistsError`. -/
  | fileExists
  /-- `FileNotFoundError`. -/
  | fileNotFound
  /-- `NotADirectoryError`. -/
  | notADirectory
  /-- `IsADirectoryError`. -/
  | isADirectory
  deriving DecidableEq

/-- A tree: the root is a directory, and everything lies in a directory. -/
structure FileTree (α β : Type*) where
  node : List α → Option (Node β)
  root : node [] = some .dir
  parent : ∀ path name n, node (path ++ [name]) = some n → node path = some .dir

namespace FileTree

variable {α β : Type} {t t' : FileTree α β} {path : List α} {content : β}

/-- Is the path a directory? -/
def isDir (t : FileTree α β) (path : List α) : Bool :=
  match t.node path with
  | some .dir => true
  | _ => false

/-- Is the path a file? -/
def isFile (t : FileTree α β) (path : List α) : Bool :=
  match t.node path with
  | some (.file _) => true
  | _ => false

/-- Does the path name anything? -/
def pathExists (t : FileTree α β) (path : List α) : Bool := (t.node path).isSome

theorem isDir_iff : t.isDir path = true ↔ t.node path = some .dir := by
  rw [isDir]
  split <;> simp_all

theorem isFile_iff : t.isFile path = true ↔ ∃ content, t.node path = some (.file content) := by
  rw [isFile]
  split <;> simp_all

variable {p : List α} {n : Node β}

/-- What lies above a path that names something is a directory. -/
theorem node_of_prefix (h : t.node path = some n) (hp : p <+: path) :
    p = path ∨ t.node p = some .dir := by
  obtain ⟨rest, rfl⟩ := hp
  induction rest using reverseRecOn generalizing n with
  | nil => exact .inl (append_nil p).symm
  | append_singleton rest name ih =>
    right
    rw [← append_assoc] at h
    have hdir := t.parent _ _ _ h
    rcases ih hdir with he | hd
    · rw [he, hdir]
    · exact hd

theorem node_of_prefix_dir (h : t.node path = some .dir) (hp : p <+: path) :
    t.node p = some .dir := by
  rcases node_of_prefix h hp with rfl | hd
  · exact h
  · exact hd

instance (t : FileTree α β) (path : List α) : Decidable (t.node path = some .dir) :=
  decidable_of_iff _ isDir_iff

/-- The error of a call on a path of which some directory is missing. -/
def missing (t : FileTree α β) (path : List α) : OsError :=
  if path.inits.any t.isFile then .notADirectory else .fileNotFound

/-- The tree with nothing in it. -/
def empty : FileTree α β where
  node path := if path = [] then some .dir else none
  root := if_pos rfl
  parent path name n h := by simp at h

variable [DecidableEq α]

/-- A new entry in an existing directory. -/
def insert (t : FileTree α β) (path : List α) (n : Node β) (hn : t.node path = none)
    (hd : t.node path.dropLast = some .dir) : FileTree α β where
  node p := if p = path then some n else t.node p
  root := by
    rw [if_neg, t.root]
    rintro rfl
    rw [t.root] at hn
    cases hn
  parent p name m h := by
    by_cases hp : p ++ [name] = path
    · rw [← hp, dropLast_concat] at hd
      rw [if_neg, hd]
      rintro rfl
      simp at hp
    · rw [if_neg hp] at h
      have hdir := t.parent p name m h
      rw [if_neg, hdir]
      rintro rfl
      rw [hn] at hdir
      cases hdir

/-- Create an entry: the path must be new and its directory must exist. -/
def create (t : FileTree α β) (path : List α) (n : Node β) : Except OsError (FileTree α β) :=
  if hn : t.node path = none then
    if hd : t.node path.dropLast = some .dir then .ok (t.insert path n hn hd)
    else .error (t.missing path.dropLast)
  else .error .fileExists

/-- `mkdir(parents=True, exist_ok=True)`, on the components from the last to the first. -/
def makeDirsFrom (t : FileTree α β) : List α → Except OsError (FileTree α β)
  | [] => .ok t
  | name :: up =>
    match t.create (up.reverse ++ [name]) .dir with
    | .ok t => .ok t
    | .error .fileNotFound =>
      match makeDirsFrom t up with
      | .error e => .error e
      | .ok t =>
        match t.create (up.reverse ++ [name]) .dir with
        | .ok t => .ok t
        | .error e => if t.isDir (up.reverse ++ [name]) then .ok t else .error e
    | .error e => if t.isDir (up.reverse ++ [name]) then .ok t else .error e

/-- `path.mkdir(parents=True, exist_ok=True)`. -/
def makeDirs (t : FileTree α β) (path : List α) : Except OsError (FileTree α β) :=
  t.makeDirsFrom path.reverse

/-- Make the directory of the file, then `open` the file for exclusive creation and write it. -/
def writeNew (t : FileTree α β) (path : List α) (content : β) : Except OsError (FileTree α β) :=
  match t.makeDirs path.dropLast with
  | .error e => .error e
  | .ok t => t.create path (.file content)

/-- Write the content of a file that is open. -/
def write (t : FileTree α β) (path : List α) (content : β) : FileTree α β where
  node p := if p = path ∧ t.isFile path = true then some (.file content) else t.node p
  root := by
    rw [if_neg, t.root]
    rintro ⟨rfl, hf⟩
    rw [isFile, t.root] at hf
    cases hf
  parent p name n h := by
    have hd : t.node p = some .dir := by
      by_cases hp : p ++ [name] = path ∧ t.isFile path = true
      · obtain ⟨c, hc⟩ := isFile_iff.1 hp.2
        rw [← hp.1] at hc
        exact t.parent p name _ hc
      · rw [if_neg hp] at h
        exact t.parent p name n h
    rw [if_neg, hd]
    rintro ⟨rfl, hf⟩
    rw [isFile, hd] at hf
    cases hf

/-- `path.unlink()`: a file is removed, a directory is not. -/
def unlink (t : FileTree α β) (path : List α) : Except OsError (FileTree α β) :=
  if hf : t.isFile path = true then .ok
    { node := fun p => if p = path then none else t.node p
      root := by
        rw [if_neg, t.root]
        rintro rfl
        rw [isFile, t.root] at hf
        cases hf
      parent := by
        intro p name n h
        by_cases hp : p ++ [name] = path
        · rw [if_pos hp] at h
          cases h
        · rw [if_neg hp] at h
          have hd := t.parent p name n h
          rw [if_neg, hd]
          rintro rfl
          rw [isFile, hd] at hf
          cases hf }
  else if t.isDir path then .error .isADirectory
  else .error (t.missing path)

/-! ## What the calls do -/

theorem create_ok (hn : t.node path = none) (hd : t.node path.dropLast = some .dir) :
    ∃ t', t.create path n = .ok t' ∧ ∀ p, t'.node p = if p = path then some n else t.node p := by
  refine ⟨t.insert path n hn hd, ?_, fun _ => rfl⟩
  rw [create, dif_pos hn, dif_pos hd]

theorem create_fileExists {m : Node β} (h : t.node path = some n) :
    t.create path m = .error .fileExists := by
  rw [create, dif_neg (by rw [h]; exact Option.some_ne_none n)]

theorem create_missing (hn : t.node path = none) (hd : t.node path.dropLast ≠ some .dir) :
    t.create path n = .error (t.missing path.dropLast) := by
  rw [create, dif_pos hn, dif_neg hd]

theorem makeDirs_concat (t : FileTree α β) (path : List α) (name : α) :
    t.makeDirs (path ++ [name]) = match t.create (path ++ [name]) .dir with
      | .ok t => .ok t
      | .error .fileNotFound =>
        match t.makeDirs path with
        | .error e => .error e
        | .ok t =>
          match t.create (path ++ [name]) .dir with
          | .ok t => .ok t
          | .error e => if t.isDir (path ++ [name]) then .ok t else .error e
      | .error e => if t.isDir (path ++ [name]) then .ok t else .error e := by
  rw [makeDirs, reverse_concat, makeDirsFrom, reverse_reverse]
  rfl

omit [DecidableEq α] in
theorem missing_eq_notADirectory (h : ∃ p, p <+: path ∧ t.isFile p = true) :
    t.missing path = .notADirectory := by
  rw [missing, if_pos]
  simpa [any_eq_true] using h

omit [DecidableEq α] in
theorem missing_eq_fileNotFound (h : ∀ p, p <+: path → t.isFile p = false) :
    t.missing path = .fileNotFound := by
  rw [missing, if_neg]
  simpa [any_eq_true] using h

/-- One more directory under directories that were just made. -/
theorem create_dir_concat {u : FileTree α β} {name : α}
    (hu : ∀ p, u.node p = if p <+: path then some .dir else t.node p)
    (hn : t.node (path ++ [name]) = none) :
    ∃ t', u.create (path ++ [name]) .dir = .ok t' ∧
      ∀ p, t'.node p = if p <+: path ++ [name] then some .dir else t.node p := by
  have hnew : u.node (path ++ [name]) = none := by
    rw [hu, if_neg, hn]
    intro hp
    have hl := hp.length_le
    rw [length_append, length_singleton] at hl
    omega
  have hdir : u.node (path ++ [name]).dropLast = some .dir := by
    rw [dropLast_concat, hu, if_pos (prefix_refl path)]
  obtain ⟨t', ht', hnode⟩ := create_ok (n := .dir) hnew hdir
  refine ⟨t', ht', fun p => ?_⟩
  rw [hnode, hu]
  by_cases hp : p = path ++ [name]
  · rw [if_pos hp, if_pos (hp ▸ prefix_refl _)]
  · simp only [hp, if_false, prefix_concat_iff, false_or]

/-- Directories are made when no leading part of the path is a file. -/
theorem makeDirs_ok (hf : ∀ p, p <+: path → t.isFile p = false) :
    ∃ t', t.makeDirs path = .ok t' ∧
      ∀ p, t'.node p = if p <+: path then some .dir else t.node p := by
  induction path using reverseRecOn with
  | nil =>
    refine ⟨t, rfl, fun p => ?_⟩
    by_cases hp : p <+: []
    · rw [if_pos hp, prefix_nil.1 hp, t.root]
    · rw [if_neg hp]
  | append_singleton path name ih =>
    rw [makeDirs_concat]
    have hfree : ∀ p, p <+: path → t.isFile p = false :=
      fun p hp => hf p (hp.trans (prefix_append _ _))
    cases hn : t.node (path ++ [name]) with
    | some n =>
      cases n with
      | dir =>
        rw [create_fileExists hn]
        dsimp only
        rw [if_pos (isDir_iff.2 hn)]
        refine ⟨t, rfl, fun p => ?_⟩
        by_cases hp : p <+: path ++ [name]
        · rw [if_pos hp, node_of_prefix_dir hn hp]
        · rw [if_neg hp]
      | file c =>
        have hfile := hf _ (prefix_refl _)
        rw [isFile, hn] at hfile
        cases hfile
    | none =>
      by_cases hd : t.node path = some .dir
      · have ht : ∀ p, t.node p = if p <+: path then some .dir else t.node p := fun p => by
          by_cases hp : p <+: path
          · rw [if_pos hp, node_of_prefix_dir hd hp]
          · rw [if_neg hp]
        obtain ⟨t', ht', hnode⟩ := create_dir_concat ht hn
        rw [ht']
        exact ⟨t', rfl, hnode⟩
      · obtain ⟨u, hu, hnode⟩ := ih hfree
        obtain ⟨t', ht', hnode'⟩ := create_dir_concat hnode hn
        rw [create_missing hn (by rwa [dropLast_concat]), dropLast_concat,
          missing_eq_fileNotFound hfree, hu]
        dsimp only
        rw [ht']
        exact ⟨t', rfl, hnode'⟩

/-- Directories are not made under a file. -/
theorem makeDirs_error (hp : p <+: path) (hf : t.isFile p = true) :
    ∃ e, t.makeDirs path = .error e := by
  obtain ⟨c, hc⟩ := isFile_iff.1 hf
  have hnotDir : t.node path ≠ some .dir := fun hd => by
    rw [node_of_prefix_dir hd hp] at hc
    cases hc
  cases path using reverseRecOn with
  | nil => exact absurd t.root hnotDir
  | append_singleton path name =>
    rw [makeDirs_concat]
    have hnot : ¬ t.isDir (path ++ [name]) = true := by rwa [isDir_iff]
    cases hn : t.node (path ++ [name]) with
    | some n =>
      rw [create_fileExists hn]
      exact ⟨_, if_neg hnot⟩
    | none =>
      have hpath : p <+: path := by
        rcases prefix_concat_iff.1 hp with rfl | hpath
        · rw [hc] at hn
          cases hn
        · exact hpath
      have hd : t.node path ≠ some .dir := fun hd => by
        rw [node_of_prefix_dir hd hpath] at hc
        cases hc
      rw [create_missing hn (by rwa [dropLast_concat]), dropLast_concat,
        missing_eq_notADirectory ⟨p, hpath, hf⟩]
      exact ⟨_, if_neg hnot⟩

/-- A path that names something is not created again. -/
theorem writeNew_of_node (h : t.node path = some n) (content : β) :
    ∃ e, t.writeNew path content = .error e := by
  rw [writeNew]
  by_cases hf : ∃ p, p <+: path.dropLast ∧ t.isFile p = true
  · obtain ⟨p, hp, hfile⟩ := hf
    obtain ⟨e, he⟩ := makeDirs_error hp hfile
    exact ⟨e, by rw [he]⟩
  · have hfree : ∀ p, p <+: path.dropLast → t.isFile p = false := by simpa using hf
    obtain ⟨u, hu, hnode⟩ := makeDirs_ok hfree
    obtain ⟨m, hm⟩ : ∃ m, u.node path = some m := by
      rw [hnode, h]
      split_ifs <;> exact ⟨_, rfl⟩
    rw [hu]
    exact ⟨.fileExists, create_fileExists hm⟩

/-! ## Trees of files -/

omit [DecidableEq α] in
/-- The parts of a path that lead to its directory. -/
theorem prefix_dropLast_iff (h : path ≠ []) : p <+: path.dropLast ↔ p <+: path ∧ p ≠ path := by
  cases path using reverseRecOn with
  | nil => exact absurd rfl h
  | append_singleton path name =>
    rw [dropLast_concat, prefix_concat_iff]
    constructor
    · intro hp
      refine ⟨.inr hp, ?_⟩
      rintro rfl
      have hl := hp.length_le
      rw [length_append, length_singleton] at hl
      omega
    · rintro ⟨rfl | hp, hne⟩
      · exact absurd rfl hne
      · exact hp

/-- One path leads to the other. -/
def Clash (p q : List α) : Prop := p <+: q ∨ q <+: p

/-- The tree is what these files need: the files, and the directories that lead to them. -/
structure Holds (t : FileTree α β) (files : List (List α × β)) : Prop where
  file : ∀ p c, t.node p = some (.file c) ↔ (p, c) ∈ files
  dir : ∀ p, t.node p = some .dir ↔ p = [] ∨ ∃ f ∈ files, p <+: f.1 ∧ p ≠ f.1

omit [DecidableEq α] in
theorem holds_empty : (empty : FileTree α β).Holds [] := by
  constructor
  · intro p c
    by_cases hp : p = [] <;> simp [empty, hp]
  · intro p
    by_cases hp : p = [] <;> simp [empty, hp]

namespace Holds

variable {files : List (List α × β)}

omit [DecidableEq α] in
/-- A path that clashes with no file names nothing. -/
theorem node_eq_none (h : t.Holds files) (hp : path ≠ [])
    (hc : ∀ f ∈ files, ¬ Clash f.1 path) : t.node path = none := by
  cases hn : t.node path with
  | none => rfl
  | some n =>
    cases n with
    | dir =>
      rcases (h.dir path).1 hn with he | ⟨f, hf, hpre, -⟩
      · exact absurd he hp
      · exact absurd (.inr hpre) (hc f hf)
    | file c => exact absurd (.inl (prefix_refl _)) (hc _ ((h.file path c).1 hn))

/-- A file whose path clashes with no other is created. -/
theorem writeNew_ok (h : t.Holds files) (hp : path ≠ []) (hc : ∀ f ∈ files, ¬ Clash f.1 path)
    (content : β) :
    ∃ t', t.writeNew path content = .ok t' ∧ t'.Holds (files ++ [(path, content)]) := by
  have hfree : ∀ p, p <+: path.dropLast → t.isFile p = false := by
    intro p hpre
    by_contra hf
    rw [Bool.not_eq_false, isFile_iff] at hf
    obtain ⟨c, hnode⟩ := hf
    exact hc _ ((h.file p c).1 hnode) (.inl ((prefix_dropLast_iff hp).1 hpre).1)
  obtain ⟨u, hu, hnodeu⟩ := makeDirs_ok hfree
  have hself : ¬ path <+: path.dropLast := by simp [prefix_dropLast_iff hp]
  have hnew : u.node path = none := by
    rw [hnodeu, if_neg hself, h.node_eq_none hp hc]
  have hdir : u.node path.dropLast = some .dir := by
    rw [hnodeu, if_pos (prefix_refl _)]
  obtain ⟨t', ht', hnode⟩ := create_ok (n := .file content) hnew hdir
  refine ⟨t', by rw [writeNew, hu]; exact ht', ?_, ?_⟩
  · intro p c
    rw [hnode, hnodeu, mem_append, mem_singleton]
    have hnot : Clash p path → (p, c) ∉ files := fun hclash hm => hc _ hm hclash
    by_cases hpp : p = path
    · subst hpp
      simp [hnot (.inl (prefix_refl _)), eq_comm]
    · rw [if_neg hpp]
      by_cases hpre : p <+: path.dropLast
      · simp [hpre, hpp, hnot (.inl ((prefix_dropLast_iff hp).1 hpre).1)]
      · simp [hpre, hpp, h.file]
  · intro p
    rw [hnode, hnodeu]
    simp only [mem_append, mem_singleton, or_and_right, exists_or, exists_eq_left]
    by_cases hpp : p = path
    · subst hpp
      have hnot : ¬ ∃ f ∈ files, p <+: f.1 ∧ p ≠ f.1 :=
        fun ⟨f, hf, hpre, _⟩ => hc f hf (.inr hpre)
      simp [hp, hnot]
    · rw [if_neg hpp, ← prefix_dropLast_iff hp]
      by_cases hpre : p <+: path.dropLast
      · simp [hpre]
      · simp [hpre, h.dir]

/-- A file whose path clashes with another is not created. -/
theorem writeNew_error (h : t.Holds files) {f : List α × β} (hf : f ∈ files)
    (hc : Clash f.1 path) (content : β) : ∃ e, t.writeNew path content = .error e := by
  have hfile := (h.file f.1 f.2).2 hf
  by_cases he : path = f.1
  · exact writeNew_of_node (he ▸ hfile) content
  · rcases hc with hpre | hpre
    · have hne : path ≠ [] := by
        rintro rfl
        exact he (prefix_nil.1 hpre).symm
      obtain ⟨e, herr⟩ := makeDirs_error ((prefix_dropLast_iff hne).2 ⟨hpre, Ne.symm he⟩)
        (isFile_iff.2 ⟨_, hfile⟩)
      exact ⟨e, by rw [writeNew, herr]⟩
    · exact writeNew_of_node ((h.dir path).2 (.inr ⟨f, hf, hpre, he⟩)) content

/-- Writing a file changes its content. -/
theorem write {c : β} (h : t.Holds (files ++ [(path, c)])) (hnew : ∀ f ∈ files, f.1 ≠ path)
    (content : β) : (t.write path content).Holds (files ++ [(path, content)]) := by
  have hf : t.isFile path = true := isFile_iff.2 ⟨c, (h.file path c).2 (by simp)⟩
  constructor
  · intro p c'
    by_cases hp : p = path
    · subst hp
      have hnot : ∀ d, (p, d) ∉ files := fun d hm => hnew _ hm rfl
      simp [FileTree.write, hf, hnot, eq_comm]
    · have hnode := h.file p c'
      simp [hp] at hnode
      simp [FileTree.write, hp, hnode]
  · intro p
    have hnode := h.dir p
    by_cases hp : p = path
    · subst hp
      obtain ⟨c', hc⟩ := isFile_iff.1 hf
      rw [hc] at hnode
      simpa [FileTree.write, hf] using hnode
    · simpa [FileTree.write, hp] using hnode

end Holds

end FileTree

end Riverhog.Core
