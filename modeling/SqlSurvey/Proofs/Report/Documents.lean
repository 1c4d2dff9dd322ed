import SqlSurvey.Report.Basic
import SqlSurvey.Proofs.Catalog.Document
import SqlSurvey.Proofs.Schema.Document

/-!
# Documents are lossless

A schema and a catalogue are read back from the documents that they are shown as. What is read from any document can
be shown and read again, and is the same from then on.
-/

namespace SqlSurvey

/-- The schema in a document. -/
def Schema.read? (text : String) : Option Schema := (Json.parse? text.toList).bind Schema.ofJson?

/-- The catalogue in a document. -/
def Catalog.read? (text : String) : Option Catalog := (Json.parse? text.toList).bind Catalog.ofJson?

theorem Json.parse?_jsonText {j : Json} (h : j.Writable) : parse? (Report.jsonText j).toList = some j := by
  rw [Report.jsonText, String.toList_ofList, parse?_render h]

theorem Schema.read?_json {s : Schema} (h : s.tableNames.Nodup) : read? (Report.schema .json s) = some s := by
  rw [read?, Report.schema, Json.parse?_jsonText s.writable_toJson, Option.bind_some, ofJson?_toJson h]

theorem Catalog.read?_json {c : Catalog} (h : ∀ f ∈ c.functions, f.LinesFit) :
    read? (Report.catalog .json c) = some c := by
  rw [read?, Report.catalog, Json.parse?_jsonText (writable_toJson h), Option.bind_some, ofJson?_toJson]

/-- A document in which a schema can be read lists tables, and the schema has these, the last of each name. -/
theorem Schema.exists_hasLast_of_read? {text : String} {s : Schema} (h : read? text = some s) :
    ∃ j ts, Json.parse? text.toList = some j ∧ listed? j = some ts ∧ s.HasLast ts := by
  obtain ⟨j, hText, hRead⟩ := Option.bind_eq_some_iff.1 h
  rw [ofJson?_eq] at hRead
  obtain ⟨ts, hListed, rfl⟩ := Option.map_eq_some_iff.1 hRead
  exact ⟨j, ts, hText, hListed, hasLast_ofTables ts⟩

/-- Nothing is lost in documents: not of a schema, however it came about, not of a catalogue, and not of what has
been read from a document once. -/
theorem Report.json_lossless :
    (∀ s : Schema, s.Reachable → Schema.read? (schema .json s) = some s) ∧
      (∀ c : Catalog, (∀ f ∈ c.functions, f.LinesFit) → Catalog.read? (catalog .json c) = some c) ∧
      ∀ text s, Schema.read? text = some s → Schema.read? (schema .json s) = some s ∧
        ∃ j ts, Json.parse? text.toList = some j ∧ Schema.listed? j = some ts ∧ s.HasLast ts := by
  refine ⟨fun s hs => Schema.read?_json hs.nodup, fun c hc => Catalog.read?_json hc, fun text s hRead => ?_⟩
  obtain ⟨j, ts, hText, hListed, hLast⟩ := Schema.exists_hasLast_of_read? hRead
  exact ⟨Schema.read?_json hLast.nodup, j, ts, hText, hListed, hLast⟩

/-- A table with quotes, escapes and control characters in its name and its default, a function without description in
the last line there can be, and a document with a field that is not known and two tables of one name. -/
theorem Report.json_lossless_repeated :
    ∃ (t : Table) (c : Catalog) (s : Schema),
      (t.name = "\"\\u0041\n\x01\x7f😀" ∧ t.columns.map Column.defaultValue = [some "\\\x1f", none] ∧
        Schema.read? (schema .json (Schema.empty.add t)) = some (Schema.empty.add t)) ∧
      (c.functions.map (fun f => (f.description, f.line)) = [(none, 18446744073709551615)] ∧
        Catalog.read? (catalog .json c) = some c) ∧
      s = ⟨[⟨"a", [], ["new"], [], []⟩, ⟨"b", [], [], [], []⟩]⟩ ∧
      Schema.read? ("\x7b\"extra\": [1.5e3], \"tables\": [[\"a\", [], [\"old\"], [], []], [\"b\", [], [], [], []], " ++
        "\x7b\"indexes\": [], \"primaryKey\": [\"new\"], \"name\": \"\\u0061\", \"columns\": [], " ++
        "\"foreignKeys\": []\x7d]\x7d") = some s ∧ Schema.read? (schema .json s) = some s := by
  have hRead : Schema.read? ("\x7b\"extra\": [1.5e3], \"tables\": [[\"a\", [], [\"old\"], [], []], " ++
      "[\"b\", [], [], [], []], \x7b\"indexes\": [], \"primaryKey\": [\"new\"], \"name\": \"\\u0061\", " ++
      "\"columns\": [], \"foreignKeys\": []\x7d]\x7d") =
        some ⟨[⟨"a", [], ["new"], [], []⟩, ⟨"b", [], [], [], []⟩]⟩ := by decide +kernel
  have hLines : ∀ f ∈ [(⟨"f", [⟨"x", "unknown"⟩], "void", [⟨"PRAGMA\t", .other, 7⟩], [], true, none,
      18446744073709551615⟩ : FunctionEntry)], f.LinesFit := by
    intro f hf
    obtain rfl := List.mem_singleton.1 hf
    exact ⟨by decide, by decide⟩
  exact ⟨⟨"\"\\u0041\n\x01\x7f😀", [⟨"é", "", true, false, true, some "\\\x1f"⟩, ⟨"", "T", true, true, false, none⟩],
      [], [], []⟩, ⟨_⟩, _,
    ⟨rfl, rfl, json_lossless.1 _ (.add .empty _)⟩, ⟨rfl, json_lossless.2.1 _ hLines⟩, rfl, hRead,
    (json_lossless.2.2 _ _ hRead).1⟩

end SqlSurvey
