import AssemblyInfo.Files
import Mathlib

/-! Writing a file. A written file is found where it was looked up for writing, with its new
content, and every other path holds what it held before. -/

namespace AssemblyInfo.Files

variable {files files' : Files} {file : Text} {path : Path} {content : Bytes}

theorem content?_cons (q : Path) (content : Bytes) (files : Files) (p : Path) :
    content? ((q, content) :: files) p = if p = q then some content else files.content? p :=
  lookup_cons_eq_if q p content files

theorem content?_put (files : Files) (path : Path) (content : Bytes) (p : Path) :
    (files.put path content).content? p = if p = path then some content else files.content? p := by
  induction files with
  | nil => exact content?_cons path content [] p
  | cons f files ih =>
    obtain ⟨q, c⟩ := f
    rw [put, content?_cons]
    by_cases hq : q = path
    · subst hq
      rw [if_pos rfl, content?_cons]
      split_ifs
      · rfl
      · rfl
    · rw [if_neg hq, content?_cons, ih]
      by_cases hp : p = q
      · simp [hp, hq]
      · simp [hp]

/-- A new file makes directories of the paths that lead to it. -/
theorem isDirectory_put (files : Files) (path : Path) (content : Bytes) (p : Path) :
    (files.put path content).isDirectory p =
      (files.isDirectory p || (decide (path ≠ p) && p.isPrefixOf path)) := by
  simp only [isDirectory, Bool.or_assoc]
  congr 1
  induction files with
  | nil => simp [put]
  | cons f files ih =>
    obtain ⟨q, c⟩ := f
    rw [put]
    by_cases hq : q = path
    · subst hq
      rw [if_pos rfl, List.any_cons, List.any_cons]
      grind
    · rw [if_neg hq, List.any_cons, List.any_cons, ih, Bool.or_assoc]

/-- Whether a place is the file of a path, or free for it. -/
def Place.IsAt (path : Path) : Place → Prop
  | .file p _ => p = path
  | .directory => False
  | .absent p slash => p = path ∧ slash = false

/-- A path in writing leads to the file of a path, or to where it would be. -/
def LeadsTo (files : Files) (file : Text) (path : Path) : Prop :=
  ∃ place, files.locate file = .ok place ∧ place.IsAt path

/-- The way to a file is the same once it is written. -/
theorem walk_put {place : Place} {directory : Path} {names : List Text}
    (h : files.walk directory names = .ok place) (hp : place.IsAt path) :
    (files.put path content).walk directory names = .ok (.file path content) := by
  induction names generalizing directory with
  | nil =>
    cases h
    contradiction
  | cons name names ih =>
    rw [walk] at h ⊢
    by_cases hdot : name = [] ∨ name = ['.']
    · rw [if_pos hdot] at h ⊢
      exact ih h
    rw [if_neg hdot] at h ⊢
    by_cases hup : name = Path.up
    · rw [if_pos hup] at h ⊢
      exact ih h
    rw [if_neg hup] at h ⊢
    by_cases hlong : maxNameSize < name.byteSize
    · rw [if_pos hlong] at h
      contradiction
    rw [if_neg hlong] at h ⊢
    dsimp only at h ⊢
    by_cases hdir : files.isDirectory (directory ++ [name])
    · have hdir' : (files.put path content).isDirectory (directory ++ [name]) := by
        rw [isDirectory_put, hdir, Bool.true_or]
      rw [if_pos hdir] at h
      rw [if_pos hdir']
      exact ih h
    · -- The first path that is no directory is the one that is written, with no name left.
      rw [if_neg hdir] at h
      obtain ⟨rfl, rfl⟩ : directory ++ [name] = path ∧ names = [] := by
        cases hc : files.content? (directory ++ [name]) with
        | some c =>
          rw [hc] at h
          dsimp only at h
          split_ifs at h with hnames
          cases h
          exact ⟨hp, hnames⟩
        | none =>
          rw [hc] at h
          dsimp only at h
          split_ifs at h with hnames
          cases h
          exact ⟨hp.1, by simpa using hp.2⟩
      have hdir' :
          ¬(files.put (directory ++ [name]) content).isDirectory (directory ++ [name]) := by
        simpa [isDirectory_put] using hdir
      simp [hdir', content?_put]

theorem LeadsTo.locate_put (h : LeadsTo files file path) (content : Bytes) :
    (files.put path content).locate file = .ok (.file path content) := by
  obtain ⟨place, hplace, hp⟩ := h
  by_cases hlong : maxPathSize < file.byteSize
  · rw [locate, if_pos hlong] at hplace
    contradiction
  · rw [locate, if_neg hlong] at hplace
    rw [locate, if_neg hlong, walk_put hplace hp]

theorem LeadsTo.read_put (h : LeadsTo files file path) (content : Bytes) :
    (files.put path content).read file = .ok content := by
  rw [read, h.locate_put]

/-- The file that `file` leads to gets a content, and all else stays. -/
structure Replaces (files : Files) (file : Text) (content : Bytes) (files' : Files) : Prop where
  read_eq : files'.read file = .ok content
  content?_eq : ∃ path, LeadsTo files file path ∧ ∀ p, files'.content? p =
    if p = path then some content else files.content? p

/-- A file can be written where the way leads to it. -/
theorem LeadsTo.write_eq (h : LeadsTo files file path) (content : Bytes) :
    files.write file content = .ok (files.put path content) := by
  obtain ⟨place, hplace, hp⟩ := h
  rw [write, hplace]
  cases place with
  | file p c =>
    obtain rfl : p = path := hp
    rfl
  | directory => contradiction
  | absent p slash =>
    obtain ⟨rfl, rfl⟩ := hp
    rfl

theorem exists_leadsTo_of_write (h : files.write file content = .ok files') :
    ∃ path, LeadsTo files file path ∧ files.put path content = files' := by
  rw [write] at h
  cases hplace : files.locate file with
  | error fault =>
    rw [hplace] at h
    contradiction
  | ok place =>
    rw [hplace] at h
    cases place with
    | file path c => exact ⟨path, ⟨_, hplace, rfl⟩, Except.ok.inj h⟩
    | directory => contradiction
    | absent path slash =>
      cases slash with
      | true => contradiction
      | false => exact ⟨path, ⟨_, hplace, rfl, rfl⟩, Except.ok.inj h⟩

/-- Writing a file replaces it, and nothing else. -/
theorem replaces_of_write (h : files.write file content = .ok files') :
    Replaces files file content files' := by
  obtain ⟨path, hpath, rfl⟩ := exists_leadsTo_of_write h
  exact ⟨hpath.read_put content, path, hpath, content?_put files path content⟩

/-! ### Writing again -/

/-- Of two contents of a file the later one stays. -/
theorem put_put (files : Files) (path : Path) (content content' : Bytes) :
    (files.put path content).put path content' = files.put path content' := by
  induction files with
  | nil => simp [put]
  | cons f files ih =>
    obtain ⟨q, c⟩ := f
    by_cases hq : q = path
    · simp [put, hq]
    · simp [put, hq, ih]

end AssemblyInfo.Files
