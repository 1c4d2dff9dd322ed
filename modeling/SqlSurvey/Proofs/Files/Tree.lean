import SqlSurvey.Files.Detection
import Mathlib.Data.List.Forall2

/-!
# Trees that differ in one file

Two trees with the same files in the same places, except that one file may hold something else. Where paths lead,
what is a file and what is a directory is the same in both, and so are the files of a project that are found;
only that one file is read differently.
-/

namespace SqlSurvey

namespace FileTree

variable {t u : FileTree} {place : Place}

/-- The entries of two trees at the same spot of their lists: the same place with the same in it, unless it is the
one place at which both have a file. -/
def EntriesAgree (place : Place) (e f : Place × Entry) : Prop :=
  e.1 = f.1 ∧ (e.2 = f.2 ∨ e.1 = place ∧ e.2.isFile = true ∧ f.2.isFile = true)

/-- The trees differ at most in what the file at one place holds. -/
structure AgreeExceptAt (t : FileTree) (place : Place) (u : FileTree) : Prop where
  workingDirectory : t.workingDirectory = u.workingDirectory
  entries : List.Forall₂ (EntriesAgree place) t.entries u.entries

/-! ## What is at a place -/

theorem EntriesAgree.isFile_eq {e f : Place × Entry} (h : EntriesAgree place e f) : e.2.isFile = f.2.isFile := by
  rcases h.2 with hSame | ⟨-, he, hf⟩
  · rw [hSame]
  · rw [he, hf]

/-- The first entries for a place are found at the same spot. -/
theorem find?_entries {es fs : List (Place × Entry)} (h : List.Forall₂ (EntriesAgree place) es fs) (q : Place) :
    es.find? (fun e => e.1 == q) = none ∧ fs.find? (fun e => e.1 == q) = none ∨
      ∃ e f, es.find? (fun e => e.1 == q) = some e ∧ fs.find? (fun e => e.1 == q) = some f ∧ e.1 = q ∧
        EntriesAgree place e f := by
  induction h with
  | nil => exact .inl ⟨rfl, rfl⟩
  | @cons e f es fs hHead _ ih =>
    by_cases hq : e.1 = q
    · right
      refine ⟨e, f, ?_, ?_, hq, hHead⟩
      · rw [List.find?_cons_of_pos (by simpa using hq)]
      · rw [List.find?_cons_of_pos (by rw [← hHead.1]; simpa using hq)]
    · rw [List.find?_cons_of_neg (by simpa using hq), List.find?_cons_of_neg (by rw [← hHead.1]; simpa using hq)]
      exact ih

/-- Directories without an entry of their own are the same. -/
theorem any_isPrefixOf_entries {es fs : List (Place × Entry)} (h : List.Forall₂ (EntriesAgree place) es fs)
    (q : Place) : (es.any fun e => q.isPrefixOf e.1) = fs.any fun e => q.isPrefixOf e.1 := by
  induction h with
  | nil => rfl
  | cons hHead _ ih => rw [List.any_cons, List.any_cons, ih, hHead.1]

/-- What is at a place is the same, or it is the one place and a file is there in both trees. -/
theorem AgreeExceptAt.at?_cases (h : t.AgreeExceptAt place u) (q : Place) :
    t.at? q = u.at? q ∨
      q = place ∧ ∃ e f, t.at? q = some e ∧ u.at? q = some f ∧ e.isFile = true ∧ f.isFile = true := by
  unfold at?
  rcases find?_entries h.entries q with ⟨ht, hu⟩ | ⟨e, f, ht, hu, rfl, -, hSame | ⟨rfl, he, hf⟩⟩
  · left
    rw [ht, hu, any_isPrefixOf_entries h.entries q]
  · left
    rw [ht, hu]
    show some e.2 = some f.2
    rw [hSame]
  · right
    exact ⟨rfl, e.2, f.2, by rw [ht], by rw [hu], he, hf⟩

/-- Everywhere else the same is there. -/
theorem AgreeExceptAt.at?_of_ne (h : t.AgreeExceptAt place u) {q : Place} (hq : q ≠ place) :
    t.at? q = u.at? q := by
  rcases h.at?_cases q with hSame | ⟨hPlace, -⟩
  · exact hSame
  · exact absurd hPlace hq

/-- Whether something is there, and whether it is a file, is the same everywhere. -/
theorem AgreeExceptAt.map_isFile_at? (h : t.AgreeExceptAt place u) (q : Place) :
    (t.at? q).map Entry.isFile = (u.at? q).map Entry.isFile := by
  rcases h.at?_cases q with hSame | ⟨-, e, f, ht, hu, he, hf⟩
  · rw [hSame]
  · rw [ht, hu, Option.map_some, Option.map_some, he, hf]

/-- A directory is what is no file. -/
theorem at?_eq_directory_iff (t : FileTree) (q : Place) :
    t.at? q = some .directory ↔ (t.at? q).map Entry.isFile = some false := by
  cases hEntry : t.at? q with
  | none => simp
  | some e => cases e <;> simp [Entry.isFile]

theorem AgreeExceptAt.at?_eq_directory_iff (h : t.AgreeExceptAt place u) (q : Place) :
    t.at? q = some .directory ↔ u.at? q = some .directory := by
  rw [FileTree.at?_eq_directory_iff, FileTree.at?_eq_directory_iff, h.map_isFile_at?]

/-! ## Where paths lead -/

/-- Every path leads to the same place. -/
theorem AgreeExceptAt.follow_eq (h : t.AgreeExceptAt place u) (pieces : List (List Char)) (q : Place) :
    t.follow pieces q = u.follow pieces q := by
  induction pieces generalizing q with
  | nil => rfl
  | cons piece r ih =>
    rw [follow, follow]
    simp only [h.at?_eq_directory_iff q, ih]

theorem AgreeExceptAt.place?_eq (h : t.AgreeExceptAt place u) (p : Path) : t.place? p = u.place? p := by
  unfold place?
  rw [h.workingDirectory, h.follow_eq]

theorem AgreeExceptAt.workingPath_eq (h : t.AgreeExceptAt place u) : t.workingPath = u.workingPath := by
  unfold workingPath
  rw [h.workingDirectory]

theorem isFile_eq (t : FileTree) (p : Path) :
    t.isFile p = ((t.place? p).bind fun q => (t.at? q).map Entry.isFile).getD false := by
  unfold isFile entry?
  cases t.place? p with
  | none => rfl
  | some q => cases hEntry : t.at? q <;> simp [hEntry]

/-- The same paths lead to files. -/
theorem AgreeExceptAt.isFile_eq (h : t.AgreeExceptAt place u) (p : Path) : t.isFile p = u.isFile p := by
  rw [FileTree.isFile_eq, FileTree.isFile_eq, h.place?_eq]
  simp only [h.map_isFile_at?]

/-- The same paths lead to directories. -/
theorem AgreeExceptAt.isDirectory_eq (h : t.AgreeExceptAt place u) (p : Path) :
    t.isDirectory p = u.isDirectory p := by
  have hIff : t.entry? p = some .directory ↔ u.entry? p = some .directory := by
    unfold entry?
    rw [h.place?_eq]
    cases u.place? p with
    | none => exact Iff.rfl
    | some q => exact h.at?_eq_directory_iff q
  rw [Bool.eq_iff_iff, isDirectory, isDirectory, beq_iff_eq, beq_iff_eq, hIff]

/-- A file is read the same, unless its path leads to the one place. -/
theorem AgreeExceptAt.read?_eq (h : t.AgreeExceptAt place u) {p : Path} (hp : t.place? p ≠ some place) :
    t.read? p = u.read? p := by
  unfold read? entry?
  rw [← h.place?_eq]
  cases hPlace : t.place? p with
  | none => rfl
  | some q =>
    have hq : q ≠ place := by
      rintro rfl
      exact hp hPlace
    rw [Option.bind_some, Option.bind_some, h.at?_of_ne hq]

/-- The files below a place are the same. -/
theorem AgreeExceptAt.filesBelow_eq (h : t.AgreeExceptAt place u) (q : Place) :
    t.filesBelow q = u.filesBelow q := by
  unfold filesBelow
  have hEntries := h.entries
  generalize t.entries = es, u.entries = fs at hEntries
  induction hEntries with
  | nil => rfl
  | cons hHead _ ih => rw [List.filterMap_cons, List.filterMap_cons, ih, hHead.isFile_eq, hHead.1]

end FileTree

/-! ## What is found -/

namespace FoundFiles

variable {t u : FileTree} {place : Place}

theorem inDirectory?_eq (h : t.AgreeExceptAt place u) (directory : Path) (names : List String) :
    inDirectory? t directory names = inDirectory? u directory names := by
  have hFile : t.isFile = u.isFile := funext h.isFile_eq
  unfold inDirectory?
  rw [hFile]

theorem below_eq (h : t.AgreeExceptAt place u) (base : Path) (names : List String) :
    below t base names = below u base names := by
  unfold below
  simp only [h.place?_eq, h.filesBelow_eq]

/-- The same files are found. -/
theorem detect_eq (h : t.AgreeExceptAt place u) (base : Path) : detect t base = detect u base := by
  have hKnown : known? t base = known? u base := by
    funext names
    unfold known?
    simp only [inDirectory?_eq h]
  unfold detect
  simp only [hKnown, h.isDirectory_eq, below_eq h, inDirectory?_eq h]

end FoundFiles

end SqlSurvey
