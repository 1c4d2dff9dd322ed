import SqlSurvey.Proofs.Files.Above
import SqlSurvey.Proofs.Settings.Context
import Mathlib.Data.Nat.Find

/-!
# The nearest configuration file

The search for a configuration looks into one directory after the other on the way up. The first one that holds a
configuration file decides: whatever comes of reading that file is the result, and no directory further up is looked
at.
-/

namespace SqlSurvey.Config

variable {t : FileTree} {start d : Path} {n : Nat}

/-! ## The search -/

/-- The search looks into a directory and goes on above it if there is no configuration file. -/
theorem nearestFile?_eq (t : FileTree) (d : Path) :
    nearestFile? t d =
      if t.isFile (d.join fileName) then some (d.join fileName) else d.parent?.bind (nearestFile? t) := by
  unfold nearestFile?
  rw [List.map_cons, List.find?_cons, Path.above_eq]
  cases hFile : t.isFile (d.join fileName) with
  | true => rfl
  | false => cases d.parent? <;> rfl

/-- The directory so many steps above `start` is the first on the way up with a configuration file. -/
structure IsNearest (t : FileTree) (start : Path) (n : Nat) (d : Path) : Prop where
  reached : start.up? n = some d
  holds : t.isFile (d.join fileName) = true
  first : ∀ m < n, ∀ e, start.up? m = some e → t.isFile (e.join fileName) = false

/-- The search ends in the nearest directory with a configuration file. -/
theorem IsNearest.nearestFile?_eq (h : IsNearest t start n d) : nearestFile? t start = some (d.join fileName) := by
  induction n generalizing start with
  | zero =>
    obtain rfl := Option.some.inj h.reached
    rw [Config.nearestFile?_eq, if_pos h.holds]
  | succ n ih =>
    have hStart := h.first 0 (by omega) start rfl
    obtain ⟨q, hParent, hUp⟩ := Option.bind_eq_some_iff.1 h.reached
    have hNearest : IsNearest t q n d := by
      refine ⟨hUp, h.holds, fun m hm e he => ?_⟩
      apply h.first (m + 1) (by omega) e
      unfold Path.up?
      rw [hParent]
      exact he
    rw [Config.nearestFile?_eq, hStart, if_neg Bool.false_ne_true, hParent]
    exact ih hNearest

/-- Nothing is found exactly if no directory on the way up holds a configuration file. -/
theorem nearestFile?_eq_none_iff :
    nearestFile? t start = none ↔ ∀ n d, start.up? n = some d → t.isFile (d.join fileName) = false := by
  constructor
  · intro h n d hUp
    induction n generalizing start with
    | zero =>
      obtain rfl := Option.some.inj hUp
      rw [nearestFile?_eq] at h
      by_cases hFile : t.isFile (start.join fileName) = true
      · rw [if_pos hFile] at h
        cases h
      · exact Bool.eq_false_iff.2 hFile
    | succ n ih =>
      obtain ⟨q, hParent, hUp⟩ := Option.bind_eq_some_iff.1 hUp
      rw [nearestFile?_eq, hParent] at h
      split at h
      · cases h
      · exact ih h hUp
  · intro h
    -- the way up ends, so this is an induction on what is left of it
    induction hLength : start.components.length using Nat.strongRecOn generalizing start with
    | _ k ih =>
      rw [nearestFile?_eq, h 0 start rfl, if_neg Bool.false_ne_true]
      cases hParent : start.parent? with
      | none => rfl
      | some q =>
        have hFewer := Path.length_components_of_parent? hParent
        refine ih _ (hLength ▸ hFewer) (fun n d hUp => ?_) rfl
        apply h (n + 1) d
        unfold Path.up?
        rw [hParent]
        exact hUp

/-- If a directory on the way up holds a configuration file, one of them is the nearest. -/
theorem exists_isNearest (h : nearestFile? t start ≠ none) : ∃ n d, IsNearest t start n d := by
  classical
  rw [Ne, nearestFile?_eq_none_iff] at h
  have hSome : ∃ n d, start.up? n = some d ∧ t.isFile (d.join fileName) = true := by
    simpa using h
  obtain ⟨d, hUp, hFile⟩ := Nat.find_spec hSome
  refine ⟨Nat.find hSome, d, hUp, hFile, fun m hm e he => ?_⟩
  rw [Bool.eq_false_iff]
  intro hTrue
  exact Nat.find_min hSome hm ⟨e, he, hTrue⟩

/-! ## What is read -/

/-- A path as a file in a directory means it: an absolute one is kept. -/
def meant (directory p : Path) : Path := if p.isAbsolute then p else directory.join p

theorem join_eq_meant (directory : Path) : directory.join = meant directory := by
  funext p
  unfold meant
  by_cases hAbsolute : p.isAbsolute = true
  · rw [if_pos hAbsolute]
    unfold Path.join
    rw [if_pos hAbsolute]
  · rw [if_neg hAbsolute]

/-- What comes of reading the configuration file at a path, whose paths start at a directory: there is no text, or
the text says no configuration, or it says one. -/
inductive Outcome (t : FileTree) (path directory : Path) : Except Failure Config → Prop
  | unreadable (hText : t.read? path = none) : Outcome t path directory (.error (.unreadable path))
  | invalid {text : List Char} (hText : t.read? path = some text)
      (hConfig : (Toml.parse? text).bind ofToml? = none) : Outcome t path directory (.error (.invalidConfig path))
  | written {text : List Char} {entries : Toml.Entries} {c : Config} (hText : t.read? path = some text)
      (hEntries : Toml.parse? text = some entries) (hConfig : ofToml? entries = some c) :
      Outcome t path directory (.ok {
        schema := c.schema.map (meant directory)
        functions := c.functions.map (meant directory)
        dir := c.dir.map (meant directory)
        format := c.format })

/-- Reading a file has one of these outcomes, with paths from the directory that the file is in. -/
theorem outcome_load (t : FileTree) (path : Path) :
    Outcome t path (path.parent?.getD ⟨[]⟩) (load t path) := by
  unfold load
  split
  · rename_i hText
    exact .unreadable hText
  · rename_i text hText
    split
    · rename_i hConfig
      exact .invalid hText hConfig
    · rename_i c hConfig
      obtain ⟨entries, hEntries, hWritten⟩ := Option.bind_eq_some_iff.1 hConfig
      rw [rebaseFor_eq]
      unfold rebase
      rw [join_eq_meant]
      exact .written hText hEntries hWritten

theorem loadNearest_eq (t : FileTree) (start : Path) :
    loadNearest t start =
      ((nearestFile? t start).map fun path => (load t path).map some).getD (.ok none) := by
  unfold loadNearest
  cases nearestFile? t start <;> rfl

/-- Nothing is loaded exactly if nothing is found. -/
theorem loadNearest_eq_ok_none_iff : loadNearest t start = .ok none ↔ nearestFile? t start = none := by
  rw [loadNearest_eq]
  cases nearestFile? t start with
  | none => simp
  | some path =>
    simp only [Option.map_some, Option.getD_some, reduceCtorEq, iff_false]
    cases load t path <;> simp [Except.map]

theorem isName_fileName : Path.IsName fileName.text := by decide

/-- What follows the last component of a directory makes no difference to the paths that are meant in it. -/
theorem components_meant_tidy (d p : Path) : (meant d.tidy p).components = (meant d p).components := by
  unfold meant
  by_cases hAbsolute : p.isAbsolute = true
  · rw [if_pos hAbsolute, if_pos hAbsolute]
  rw [if_neg hAbsolute, if_neg hAbsolute]
  rw [Bool.not_eq_true] at hAbsolute
  by_cases hEmpty : d.text = []
  · obtain ⟨text⟩ := d
    obtain rfl : text = [] := hEmpty
    rfl
  · have hTidy : d.tidy.text ≠ [] := fun h => hEmpty (Path.text_eq_nil_of_tidy h)
    rw [Path.components_join hTidy hAbsolute, Path.components_join hEmpty hAbsolute, Path.components_tidy]

/-- The way up from a directory ends. Nothing is loaded exactly if no directory on it holds a configuration file. Else
one of them is the nearest, and what is loaded is what comes of reading its file and no other: an error for a file that
is not text or says no configuration, or what is written, from that directory. What follows the last component
of the directory, as it may in `start`, is left out of the paths. All that come to the same nearest directory
load the same. -/
theorem loadNearest_of_isNearest (t : FileTree) (start : Path) :
    (∀ n, start.components.length < n → start.up? n = none) ∧
    (loadNearest t start = .ok none ↔
      ∀ n d, start.up? n = some d → t.isFile (d.join fileName) = false) ∧
    (loadNearest t start ≠ .ok none → ∃ n d, IsNearest t start n d) ∧
    ∀ n d, IsNearest t start n d →
      loadNearest t start = (load t (d.join fileName)).map some ∧
      Outcome t (d.join fileName) d.tidy (load t (d.join fileName)) ∧
      (∀ p, (meant d.tidy p).components = (meant d p).components) ∧ (n ≠ 0 → d.tidy = d) ∧
      ∀ other m, IsNearest t other m d → loadNearest t other = loadNearest t start := by
  refine ⟨fun n hn => Path.up?_eq_none hn, ?_, fun h => ?_, fun n d h => ?_⟩
  · rw [loadNearest_eq_ok_none_iff, nearestFile?_eq_none_iff]
  · exact exists_isNearest (mt loadNearest_eq_ok_none_iff.2 h)
  · have hLoad : ∀ other m, IsNearest t other m d →
        loadNearest t other = (load t (d.join fileName)).map some := by
      intro other m hOther
      rw [loadNearest_eq, hOther.nearestFile?_eq, Option.map_some, Option.getD_some]
    have hParent : (d.join fileName).parent? = some d.tidy := Path.parent?_child isName_fileName d
    have hOutcome := outcome_load t (d.join fileName)
    rw [hParent, Option.getD_some] at hOutcome
    refine ⟨hLoad start n h, hOutcome, components_meant_tidy d, fun hn => ?_, fun other m hOther => ?_⟩
    · obtain ⟨m, rfl⟩ := Nat.exists_eq_succ_of_ne_zero hn
      exact Path.tidy_of_up? h.reached
    · rw [hLoad other m hOther, hLoad start n h]

/-- A tree with two configuration files on one way up, of which the nearer one says no configuration. -/
def twoFiles : FileTree where
  workingDirectory := []
  entries := [
    (["dbviewer.toml".toList], .text "schema = \"db/s.ts\"\nformat = \"json\"".toList),
    (["p".toList, "dbviewer.toml".toList], .text "schema = [".toList)]

theorem loadNearest_of_isNearest_twoFiles :
    IsNearest twoFiles (.ofString "/p/a/") 1 (.ofString "/p") ∧
      loadNearest twoFiles (.ofString "/p/a/") = .error (.invalidConfig (.ofString "/p/dbviewer.toml")) ∧
      loadNearest twoFiles (.ofString "/q/./b") =
        .ok (some ⟨some (.ofString "/db/s.ts"), none, none, some "json".toList⟩) := by
  have hNear : IsNearest twoFiles (.ofString "/p/a/") 1 (.ofString "/p") := by
    refine ⟨by decide +kernel, by decide +kernel, fun m hm e he => ?_⟩
    obtain rfl : m = 0 := by omega
    obtain rfl := Option.some.inj he
    decide +kernel
  have hFar : IsNearest twoFiles (.ofString "/q/./b") 2 (.ofString "/") := by
    refine ⟨by decide +kernel, by decide +kernel, fun m hm e he => ?_⟩
    have hStep : m = 0 ∨ m = 1 := by omega
    rcases hStep with rfl | rfl
    · obtain rfl := Option.some.inj he
      decide +kernel
    · obtain rfl : Path.ofString "/q" = e := by
        have hUp : (Path.ofString "/q/./b").up? 1 = some (.ofString "/q") := by decide +kernel
        exact Option.some.inj (hUp.symm.trans he)
      decide +kernel
  obtain ⟨hNearLoad, hNearOutcome, -⟩ := (loadNearest_of_isNearest twoFiles (.ofString "/p/a/")).2.2.2 _ _ hNear
  obtain ⟨hFarLoad, -⟩ := (loadNearest_of_isNearest twoFiles (.ofString "/q/./b")).2.2.2 _ _ hFar
  refine ⟨hNear, ?_, ?_⟩
  · have hPath : (Path.ofString "/p").join fileName = .ofString "/p/dbviewer.toml" := by decide +kernel
    rw [hPath] at hNearLoad hNearOutcome
    rw [hNearLoad]
    have hNone : ((twoFiles.read? (.ofString "/p/dbviewer.toml")).bind Toml.parse?).isSome = false := by
      decide +kernel
    have hSome : (twoFiles.read? (.ofString "/p/dbviewer.toml")).isSome = true := by decide +kernel
    generalize load twoFiles (.ofString "/p/dbviewer.toml") = result at hNearOutcome
    cases hNearOutcome with
    | unreadable hText =>
      rw [hText] at hSome
      cases hSome
    | invalid => simp only [Except.map]
    | written hText hEntries =>
      rw [hText, Option.bind_some, hEntries] at hNone
      cases hNone
  · have hLoad : (load twoFiles ((Path.ofString "/").join fileName)).toOption =
        some ⟨some (.ofString "/db/s.ts"), none, none, some "json".toList⟩ := by decide +kernel
    rw [hFarLoad]
    generalize load twoFiles ((Path.ofString "/").join fileName) = result at hLoad
    cases result with
    | error e => cases hLoad
    | ok c =>
      obtain rfl := Option.some.inj hLoad
      simp only [Except.map]

end SqlSurvey.Config
