import SqlSurvey.Settings.Context
import SqlSurvey.Proofs.Files.Tree

/-!
# Where the files of a project come from

One order of precedence holds for both files: what an option says, what the configuration file says from its own
directory, what is found. The two documents are read apart from each other: whatever one file holds, nothing that
is known from the other one changes.
-/

namespace SqlSurvey

/-! ## The configuration that is read -/

/-- The configuration file that options name, or else the nearest one. -/
def SourceOptions.configFile? (o : SourceOptions) (t : FileTree) : Option Path :=
  o.config.or (Config.nearestFile? t t.workingPath)

namespace Config

/-- What the configuration file says, as it is written there, and the directory of the file. Without a file nothing
is said. -/
inductive Written (t : FileTree) (o : SourceOptions) : Path → Config → Prop where
  | nowhere (hFile : o.configFile? t = none) : Written t o ⟨[]⟩ empty
  | file {path : Path} {text : List Char} {entries : Toml.Entries} {c : Config}
      (hFile : o.configFile? t = some path) (hText : t.read? path = some text)
      (hEntries : Toml.parse? text = some entries) (hConfig : ofToml? entries = some c) :
      Written t o (path.parent?.getD ⟨[]⟩) c

/-- Paths from nowhere stay as they are. -/
theorem rebase_nil (c : Config) : c.rebase ⟨[]⟩ = c := by
  have hJoin : (⟨[]⟩ : Path).join = id := by
    funext q
    unfold Path.join
    split
    · rfl
    · rfl
  unfold rebase
  rw [hJoin, Option.map_id_fun, id, id, id]

/-- Paths start at the directory of the file, named or not. -/
theorem rebaseFor_eq (c : Config) (path : Path) : c.rebaseFor path = c.rebase (path.parent?.getD ⟨[]⟩) := by
  unfold rebaseFor
  cases path.parent? with
  | none => exact (rebase_nil c).symm
  | some directory =>
    show (if directory.text = [] then c else c.rebase directory) = c.rebase directory
    split
    · next hEmpty =>
      obtain ⟨text⟩ := directory
      obtain rfl : text = [] := hEmpty
      exact (rebase_nil c).symm
    · rfl

/-- A configuration is loaded when its file is text that says one. -/
theorem load_eq_ok_iff {t : FileTree} {path : Path} {c : Config} :
    load t path = .ok c ↔
      ∃ text entries written, t.read? path = some text ∧ Toml.parse? text = some entries ∧
        ofToml? entries = some written ∧ c = written.rebase (path.parent?.getD ⟨[]⟩) := by
  unfold load
  cases t.read? path with
  | none => simp
  | some text =>
    cases hEntries : Toml.parse? text with
    | none => simp [hEntries]
    | some entries =>
      cases hConfig : ofToml? entries with
      | none => simp [hEntries, hConfig]
      | some written => simp [hEntries, hConfig, rebaseFor_eq, eq_comm]

/-- The configuration in use is the one file's, or the empty one. -/
theorem inUse_eq (t : FileTree) (o : SourceOptions) :
    inUse t o =
      (match o.configFile? t with
        | some path => (load t path).map fun c => c.withOptions o
        | none => .ok (empty.withOptions o)) := by
  unfold inUse loadNearest SourceOptions.configFile?
  cases o.config with
  | some path => cases hLoad : load t path <;> simp [hLoad, Except.map, bind, Except.bind, pure, Except.pure]
  | none =>
    cases nearestFile? t t.workingPath with
    | none => simp [Except.map, bind, Except.bind, pure, Except.pure]
    | some path => cases hLoad : load t path <;> simp [hLoad, Except.map, bind, Except.bind, pure, Except.pure]

/-- The configuration in use says what is written, from the directory of the file, unless options say otherwise. -/
theorem written_of_inUse {t : FileTree} {o : SourceOptions} {c : Config} (h : inUse t o = .ok c) :
    ∃ directory written, Written t o directory written ∧ c = (written.rebase directory).withOptions o := by
  rw [inUse_eq] at h
  cases hFile : o.configFile? t with
  | none =>
    rw [hFile] at h
    refine ⟨⟨[]⟩, empty, .nowhere hFile, ?_⟩
    rw [rebase_nil]
    exact (Except.ok.inj h).symm
  | some path =>
    rw [hFile] at h
    dsimp only at h
    cases hLoad : load t path with
    | error e => simp [hLoad, Except.map] at h
    | ok loaded =>
      obtain ⟨text, entries, written, hText, hEntries, hConfig, rfl⟩ := load_eq_ok_iff.mp hLoad
      refine ⟨_, written, .file hFile hText hEntries hConfig, ?_⟩
      rw [hLoad] at h
      exact (Except.ok.inj h).symm

end Config

/-! ## The two files -/

namespace Context

/-- The files that options and a configuration written for a directory stand for: for each the first of what the
options say, what is written and what is found. -/
def resolved (t : FileTree) (o : SourceOptions) (directory : Path) (written : Config) : FoundFiles :=
  let found := FoundFiles.detect t ((o.dir.or (written.dir.map directory.join)).getD (.ofString "."))
  { schemaPath := (o.schema.or (written.schema.map directory.join)).or found.schemaPath
    functionsPath := (o.functions.or (written.functions.map directory.join)).or found.functionsPath }

theorem filesOf_withOptions (t : FileTree) (o : SourceOptions) (directory : Path) (written : Config) :
    filesOf t ((written.rebase directory).withOptions o) = resolved t o directory written := rfl

/-- No context means no file. -/
theorem ofConfig_eq_error_iff {t : FileTree} {c : Config} :
    (∃ e, ofConfig t c = .error e) ↔ (filesOf t c).schemaPath = none ∧ (filesOf t c).functionsPath = none := by
  unfold ofConfig
  by_cases h : (filesOf t c).schemaPath.isNone && (filesOf t c).functionsPath.isNone
  · simp only [h, if_true]
    simpa [Option.isNone_iff_eq_none] using h
  · simp only [h]
    simpa [Option.isNone_iff_eq_none] using h

/-- A context is made of what its two files hold. -/
theorem eq_of_ofConfig {t : FileTree} {c : Config} {x : Context} (h : ofConfig t c = .ok x) :
    x = { schemaPath := (filesOf t c).schemaPath
          functionsPath := (filesOf t c).functionsPath
          schema := (filesOf t c).schemaPath.bind fun p => (Schema.ofFile t p).toOption
          functions := (filesOf t c).functionsPath.bind fun p => (Catalog.ofFile t p).toOption
          format := c.reportFormat } := by
  unfold ofConfig at h
  dsimp only at h
  split at h
  · cases h
  · exact (Except.ok.inj h).symm

/-- A schema is that of a file that can be read. -/
theorem toOption_schemaOfFile {t : FileTree} {p : Path} {s : Schema} :
    (Schema.ofFile t p).toOption = some s ↔ ∃ source, t.read? p = some source ∧ s = .ofSource source := by
  unfold Schema.ofFile
  cases t.read? p with
  | none => simp [Except.toOption]
  | some source => simp [Except.toOption, eq_comm]

/-- A catalogue is that of a file that can be read, in a known language. -/
theorem toOption_catalogOfFile {t : FileTree} {p : Path} {c : Catalog} :
    (Catalog.ofFile t p).toOption = some c ↔
      ∃ dialect source, TypeScript.Dialect.ofPath? p = some dialect ∧ t.read? p = some source ∧
        c = .ofSource dialect source := by
  unfold Catalog.ofFile
  cases TypeScript.Dialect.ofPath? p with
  | none => simp [Except.toOption]
  | some dialect =>
    cases t.read? p with
    | none => simp [Except.toOption]
    | some source => simp [Except.toOption, eq_comm]

/-! ## Another content for one file -/

section

variable {t u : FileTree} {place : Place} {o : SourceOptions}

/-- The configuration in use does not depend on other files. -/
theorem configFile?_eq (h : t.AgreeExceptAt place u) : o.configFile? t = o.configFile? u := by
  have hFile : t.isFile = u.isFile := funext h.isFile_eq
  unfold SourceOptions.configFile? Config.nearestFile?
  rw [hFile, h.workingPath_eq]

theorem inUse_eq_of_agree (h : t.AgreeExceptAt place u)
    (hOther : ∀ p, o.configFile? t = some p → t.place? p ≠ some place) : Config.inUse t o = Config.inUse u o := by
  rw [Config.inUse_eq, Config.inUse_eq, ← configFile?_eq h]
  cases hFile : o.configFile? t with
  | none => rfl
  | some path =>
    simp only [Config.load, h.read?_eq (hOther path hFile)]

theorem filesOf_eq (h : t.AgreeExceptAt place u) (c : Config) : filesOf t c = filesOf u c := by
  unfold filesOf
  rw [FoundFiles.detect_eq h]

/-- With another content of some file there is a context too, with the same files in the same form. -/
theorem load_of_agree (h : t.AgreeExceptAt place u)
    (hOther : ∀ p, o.configFile? t = some p → t.place? p ≠ some place) {x : Context} (hx : load t o = .ok x) :
    ∃ y, load u o = .ok y ∧ y.schemaPath = x.schemaPath ∧ y.functionsPath = x.functionsPath ∧
      y.format = x.format ∧
      ((∀ p, x.schemaPath = some p → t.place? p ≠ some place) → y.schema = x.schema) ∧
      ((∀ p, x.functionsPath = some p → t.place? p ≠ some place) → y.functions = x.functions) := by
  unfold load at hx ⊢
  rw [← inUse_eq_of_agree h hOther]
  cases hConfig : Config.inUse t o with
  | error e =>
    rw [hConfig] at hx
    cases hx
  | ok c =>
    rw [hConfig] at hx
    obtain rfl := eq_of_ofConfig hx
    cases hLoad : ofConfig u c with
    | error e =>
      have hNone := ofConfig_eq_error_iff.mp ⟨e, hLoad⟩
      rw [← filesOf_eq h] at hNone
      obtain ⟨e', he'⟩ := ofConfig_eq_error_iff.mpr hNone
      change ofConfig t c = _ at hx
      rw [he'] at hx
      cases hx
    | ok y =>
      obtain rfl := eq_of_ofConfig hLoad
      refine ⟨_, hLoad, by rw [filesOf_eq h], by rw [filesOf_eq h], rfl, ?_, ?_⟩
      · intro hSchema
        show (filesOf u c).schemaPath.bind _ = (filesOf t c).schemaPath.bind _
        rw [← filesOf_eq h]
        refine Option.bind_congr fun p hp => ?_
        rw [Schema.ofFile, Schema.ofFile, h.read?_eq (hSchema p hp)]
      · intro hFunctions
        show (filesOf u c).functionsPath.bind _ = (filesOf t c).functionsPath.bind _
        rw [← filesOf_eq h]
        refine Option.bind_congr fun p hp => ?_
        rw [Catalog.ofFile, Catalog.ofFile, h.read?_eq (hFunctions p hp)]

end

/-! ## Precedence and independence -/

/-- Wherever a configuration is in use, each file is the first of what the options say, what is written from the
directory of the configuration file and what is found, and there is a context unless both are missing. A document
is there exactly when its file can be read, the functions only in a known language, and a tree with
another content in a file that one document is not read from tells the same about that document. -/
theorem load_precedence (t : FileTree) (o : SourceOptions) {c : Config} (h : Config.inUse t o = .ok c) :
    ∃ directory written, Config.Written t o directory written ∧
      ((∃ e, load t o = .error e) ↔
        (resolved t o directory written).schemaPath = none ∧
          (resolved t o directory written).functionsPath = none) ∧
      ∀ x, load t o = .ok x →
        x.schemaPath = (resolved t o directory written).schemaPath ∧
        x.functionsPath = (resolved t o directory written).functionsPath ∧
        (∀ s, x.schema = some s ↔
          ∃ p source, x.schemaPath = some p ∧ t.read? p = some source ∧ s = .ofSource source) ∧
        (∀ f, x.functions = some f ↔
          ∃ p dialect source, x.functionsPath = some p ∧ TypeScript.Dialect.ofPath? p = some dialect ∧
            t.read? p = some source ∧ f = .ofSource dialect source) ∧
        ∀ (place : Place) (u : FileTree), t.AgreeExceptAt place u →
          (∀ p, o.configFile? t = some p → t.place? p ≠ some place) →
          ∃ y, load u o = .ok y ∧
            ((∀ p, x.schemaPath = some p → t.place? p ≠ some place) →
              y.schemaPath = x.schemaPath ∧ y.functionsPath = x.functionsPath ∧ y.schema = x.schema ∧
                y.relationships = x.relationships ∧ y.format = x.format ∧
                (y.info u).tableCount = (x.info t).tableCount) ∧
            ((∀ p, x.functionsPath = some p → t.place? p ≠ some place) →
              y.schemaPath = x.schemaPath ∧ y.functionsPath = x.functionsPath ∧ y.functions = x.functions ∧
                y.format = x.format ∧ (y.info u).functionCount = (x.info t).functionCount) := by
  obtain ⟨directory, written, hWritten, rfl⟩ := Config.written_of_inUse h
  have hLoad : load t o = ofConfig t ((written.rebase directory).withOptions o) := by
    rw [load, h]
    rfl
  refine ⟨directory, written, hWritten, ?_, fun x hx => ?_⟩
  · rw [hLoad, ofConfig_eq_error_iff, filesOf_withOptions]
  · have hParts := eq_of_ofConfig (hLoad.symm.trans hx)
    rw [filesOf_withOptions] at hParts
    refine ⟨by rw [hParts], by rw [hParts], fun s => ?_, fun f => ?_, fun place u hAgree hOther => ?_⟩
    · rw [hParts]
      simp only [Option.bind_eq_some_iff, toOption_schemaOfFile]
      exact ⟨fun ⟨p, hp, source, hs⟩ => ⟨p, source, hp, hs⟩, fun ⟨p, source, hp, hs⟩ => ⟨p, hp, source, hs⟩⟩
    · rw [hParts]
      simp only [Option.bind_eq_some_iff, toOption_catalogOfFile]
      exact ⟨fun ⟨p, hp, dialect, source, hf⟩ => ⟨p, dialect, source, hp, hf⟩,
        fun ⟨p, dialect, source, hp, hf⟩ => ⟨p, hp, dialect, source, hf⟩⟩
    · obtain ⟨y, hy, hSchemaPath, hFunctionsPath, hFormat, hSchema, hFunctions⟩ := load_of_agree hAgree hOther hx
      refine ⟨y, hy, fun hApart => ?_, fun hApart => ?_⟩
      · have hSame := hSchema hApart
        refine ⟨hSchemaPath, hFunctionsPath, hSame, ?_, hFormat, ?_⟩
        · rw [relationships, relationships, theSchema, theSchema, hSame]
        · rw [info, info, hSame]
      · have hSame := hFunctions hApart
        refine ⟨hSchemaPath, hFunctionsPath, hSame, hFormat, ?_⟩
        rw [info, info, hSame]

/-- A project whose configuration names the schema, and whose functions are found. -/
def smallProject (functions : String) : FileTree where
  workingDirectory := ["p".toList]
  entries := [
    (["p".toList, "dbviewer.toml".toList], .text "schema = \"db/s.ts\"".toList),
    (["p".toList, "db".toList, "s.ts".toList], .text "`CREATE TABLE t (a INT)`".toList),
    (["p".toList, "index.ts".toList], .text functions.toList)]

theorem load_precedence_smallProject :
    ∃ x y, load (smallProject "") .none = .ok x ∧ load (smallProject "export function f() {}") .none = .ok y ∧
      x.schemaPath = some (.ofString "/p/db/s.ts") ∧ x.functionsPath = some (.ofString "././index.ts") ∧
      x.schema ≠ none ∧ y.schema = x.schema := by
  have hInUse : (Config.inUse (smallProject "") .none).toOption ≠ none := by decide +kernel
  obtain ⟨c, hc⟩ : ∃ c, Config.inUse (smallProject "") .none = .ok c := by
    cases h : Config.inUse (smallProject "") .none with
    | error e => exact absurd (by rw [h]; rfl) hInUse
    | ok c => exact ⟨c, rfl⟩
  obtain ⟨directory, written, -, -, hAll⟩ := load_precedence (smallProject "") .none hc
  have hLoads : (load (smallProject "") .none).toOption.any (fun x =>
      x.schemaPath == some (.ofString "/p/db/s.ts") && x.functionsPath == some (.ofString "././index.ts") &&
        x.schema.isSome) = true := by decide +kernel
  obtain ⟨x, hx⟩ : ∃ x, load (smallProject "") .none = .ok x := by
    cases h : load (smallProject "") .none with
    | error e => rw [h] at hLoads; cases hLoads
    | ok x => exact ⟨x, rfl⟩
  rw [hx] at hLoads
  simp only [Except.toOption, Option.any_some, Bool.and_eq_true, beq_iff_eq, Option.isSome_iff_ne_none] at hLoads
  have hAgree : (smallProject "").AgreeExceptAt ["p".toList, "index.ts".toList]
      (smallProject "export function f() {}") :=
    ⟨rfl, .cons ⟨rfl, .inl rfl⟩ (.cons ⟨rfl, .inl rfl⟩ (.cons ⟨rfl, .inr ⟨rfl, rfl, rfl⟩⟩ .nil))⟩
  have hConfig : ∀ p, SourceOptions.none.configFile? (smallProject "") = some p →
      (smallProject "").place? p ≠ some ["p".toList, "index.ts".toList] := by
    have hFile : (SourceOptions.none.configFile? (smallProject "")).all (fun p =>
        (smallProject "").place? p != some ["p".toList, "index.ts".toList]) = true := by decide +kernel
    intro p hp
    rw [hp] at hFile
    simpa using hFile
  obtain ⟨-, -, -, -, hOther⟩ := hAll x hx
  obtain ⟨y, hy, hApart, -⟩ := hOther _ _ hAgree hConfig
  obtain ⟨-, -, hSchema, -⟩ := hApart fun p hp => by
    rw [hLoads.1.1, Option.some_inj] at hp
    subst hp
    decide +kernel
  exact ⟨x, y, hx, hy, hLoads.1.1, hLoads.1.2, hLoads.2, hSchema⟩

end Context

end SqlSurvey
