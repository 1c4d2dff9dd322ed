import SqlSurvey.Proofs.Ddl.Phrase
import SqlSurvey.Proofs.Pattern.Written

/-!
# Names as they are written

A name may stand in quotes of three kinds or in none, and in a list with blanks around it. It is read as the name
alone.
-/

namespace SqlSurvey.Ddl

open Pattern

variable {q : Pattern} {s w : List Char} {ns : List ListedName}

/-! ## Names in quotes -/

/-- How a name may be quoted. -/
inductive Quoting where
  | bare
  | double
  | backtick
  | bracket
deriving DecidableEq, Repr

namespace Quoting

/-- What is written before a name. -/
def opening : Quoting → List Char
  | bare => []
  | double => ['"']
  | backtick => ['\x60']
  | bracket => ['[']

/-- What is written behind a name. -/
def closing : Quoting → List Char
  | bare => []
  | double => ['"']
  | backtick => ['\x60']
  | bracket => [']']

end Quoting

/-- A name, which is a word, in quotes or without them. -/
structure WrittenName where
  quoting : Quoting
  name : List Char
  nonempty : name ≠ []
  word : ∀ c ∈ name, Text.isWordChar c = true

/-- The text of a name. -/
def WrittenName.text (n : WrittenName) : List Char := n.quoting.opening ++ n.name ++ n.quoting.closing

/-- A name in a list, with the blanks around it. -/
structure ListedName extends WrittenName where
  before : Gap
  after : Gap

namespace ListedName

/-- The text of a name in a list. -/
def text (n : ListedName) : List Char := n.before.text ++ n.toWrittenName.text ++ n.after.text

/-- The text of names in a list, with commas between. -/
def list (ns : List ListedName) : List Char := [','].intercalate (ns.map text)

end ListedName

theorem isBlank_of_isNameQuote {c : Char} (h : nameList.isNameQuote c = true) : Text.isBlank c = false := by
  simp only [nameList.isNameQuote, opensName, closesName, Bool.or_eq_true, beq_iff_eq] at h
  rcases h with ((rfl | rfl) | rfl) | ((rfl | rfl) | rfl) <;> decide

theorem isNameQuote_of_isWordChar {c : Char} (h : Text.isWordChar c = true) : nameList.isNameQuote c = false := by
  rw [← Bool.not_eq_true]
  intro hq
  rw [nameList.isNameQuote, Bool.or_eq_true] at hq
  rcases hq with hq | hq
  · rw [isWordChar_of_opensName hq] at h
    exact Bool.false_ne_true h
  · rw [isWordChar_of_closesName hq] at h
    exact Bool.false_ne_true h

theorem Quoting.isNameQuote (k : Quoting) :
    (∀ c ∈ k.opening, nameList.isNameQuote c = true) ∧ ∀ c ∈ k.closing, nameList.isNameQuote c = true := by
  cases k <;> decide

/-- A name in quotes is the word between them. -/
theorem takes_quotedName (n : Nat) {o c : Char} (ho : opensName o = true) (hc : closesName c = true) (hw : w ≠ [])
    (hWord : ∀ d ∈ w, Text.isWordChar d = true) (hq : q.Refuses Text.isWordChar) (hClose : q.Refuses closesName)
    (s : List Char) : (name n).Takes q ([o] ++ w ++ [c]) [(n, w)] s := by
  have hOpen : (maybe (char opensName)).Takes (group n word ++ (maybe (char closesName) ++ q)) [o] []
      (w ++ ([c] ++ s)) := by
    refine (takes_char ho _ _).maybe fun last => hits_append_eq_nil ?_
    rw [hits_group, List.map_eq_nil_iff]
    exact refuses_many (fun d hd => isWordChar_of_opensName hd) last o _ ho
  have hName : (group n word).Takes (maybe (char closesName) ++ q) w [(n, w)] ([c] ++ s) :=
    takes_group_many n hw hWord (by simpa using isWordChar_of_closesName hc) (refuses_closesName.maybe_append hq)
  have hEnd : (maybe (char closesName)).Takes q [c] [] s :=
    (takes_char hc _ _).maybe fun last => hClose last c s hc
  exact (hOpen.append hName).append hEnd

/-- A name is taken with its quotes and kept without them. -/
theorem WrittenName.takes (n : WrittenName) (k : Nat) (hq : q.Refuses Text.isWordChar) (hClose : q.Refuses closesName)
    (hs : ∀ c ∈ s.head?, Text.isWordChar c = false ∧ closesName c = false) :
    (Ddl.name k).Takes q n.text [(k, n.name)] s := by
  obtain ⟨quoting, w, hw, hWord⟩ := n
  cases quoting with
  | bare =>
    have hBare := takes_name k hw hWord hs hq
    rw [WrittenName.text, Quoting.opening, Quoting.closing, List.nil_append, List.append_nil]
    exact hBare
  | double => exact takes_quotedName k (by decide) (by decide) hw hWord hq hClose s
  | backtick => exact takes_quotedName k (by decide) (by decide) hw hWord hq hClose s
  | bracket => exact takes_quotedName k (by decide) (by decide) hw hWord hq hClose s

theorem WrittenName.mem_text {n : WrittenName} {c : Char} (h : c ∈ n.text) :
    nameList.isNameQuote c = true ∨ Text.isWordChar c = true := by
  rcases List.mem_append.1 h with h | h
  · rcases List.mem_append.1 h with h | h
    · exact .inl (n.quoting.isNameQuote.1 c h)
    · exact .inr (n.word c h)
  · exact .inl (n.quoting.isNameQuote.2 c h)

theorem WrittenName.isSolid (n : WrittenName) : IsSolid n.text := by
  refine ⟨by simp [WrittenName.text, n.nonempty], fun c hc => ?_⟩
  rcases WrittenName.mem_text hc with h | h
  · exact isBlank_of_isNameQuote h
  · exact Text.isBlank_of_isWordChar h

/-- A name is freed from its quotes. -/
theorem WrittenName.stripQuotes_text (n : WrittenName) : nameList.stripQuotes n.text = n.name := by
  obtain ⟨hOpening, hClosing⟩ := n.quoting.isNameQuote
  -- at either end the quotes are dropped, and a word has none
  have hDrop : ∀ q w v : List Char, (∀ c ∈ q, nameList.isNameQuote c = true) → w ≠ [] →
      (∀ c ∈ w, Text.isWordChar c = true) → (q ++ w ++ v).dropWhile nameList.isNameQuote = w ++ v := by
    intro q w v hq hw hWord
    obtain ⟨c, u, rfl⟩ := List.exists_cons_of_ne_nil hw
    rw [List.append_assoc, List.dropWhile_append_of_pos hq, List.cons_append, List.dropWhile_cons_of_neg]
    simp [isNameQuote_of_isWordChar (hWord c List.mem_cons_self)]
  have hReverse := hDrop n.quoting.closing.reverse n.name.reverse [] (fun c hc => hClosing c (List.mem_reverse.1 hc))
    (by simpa using n.nonempty) fun c hc => n.word c (List.mem_reverse.1 hc)
  rw [nameList.stripQuotes, WrittenName.text, hDrop _ _ _ hOpening n.nonempty n.word, List.reverse_append]
  rw [List.append_nil, List.append_nil] at hReverse
  rw [hReverse, List.reverse_reverse]

/-! ## Lists of names -/

namespace ListedName

theorem trim_text (n : ListedName) : Text.trim n.text = n.toWrittenName.text := by
  rw [text, Text.trim_append_blanks n.before.blank n.after.blank, Text.trim_of_forall n.isSolid.2]

theorem mem_text {n : ListedName} {c : Char} (h : c ∈ n.text) :
    Text.isBlank c = true ∨ nameList.isNameQuote c = true ∨ Text.isWordChar c = true := by
  rcases List.mem_append.1 h with h | h
  · rcases List.mem_append.1 h with h | h
    · exact .inl (n.before.blank c h)
    · exact .inr (WrittenName.mem_text h)
  · exact .inl (n.after.blank c h)

theorem not_mem_text {c : Char} (h : Text.isBlank c = false ∧ nameList.isNameQuote c = false ∧
    Text.isWordChar c = false) (n : ListedName) : c ∉ n.text := by
  intro hc
  rcases mem_text hc with hBlank | hQuote | hWord
  · simp [h.1] at hBlank
  · simp [h.2.1] at hQuote
  · simp [h.2.2] at hWord

/-- A list falls into the texts of its names. -/
theorem splitOnP_list (h : ns ≠ []) : (list ns).splitOnP (fun c => c == ',') = ns.map text := by
  have hComma : ∀ t ∈ ns.map text, ',' ∉ t := by
    intro t ht
    obtain ⟨n, -, rfl⟩ := List.mem_map.1 ht
    exact n.not_mem_text (by decide)
  exact List.splitOn_intercalate ',' hComma (by simpa using h)

/-- The names in a list are read back, each without its quotes. -/
theorem nameList_list (h : ns ≠ []) : nameList (list ns) = ns.map fun n => n.name := by
  have hStrip : ∀ n ∈ ns, nameList.stripQuotes (Text.trim n.text) = n.name := fun n _ => by
    rw [n.trim_text, n.stripQuotes_text]
  have hMap : (ns.map text).map (fun t => nameList.stripQuotes (Text.trim t)) = ns.map fun n => n.name := by
    rw [List.map_map]
    exact List.map_congr_left hStrip
  rw [nameList, splitOnP_list h, hMap, List.filter_eq_self]
  intro t ht
  obtain ⟨n, -, rfl⟩ := List.mem_map.1 ht
  simpa using n.nonempty

theorem list_ne_nil (h : ns ≠ []) : list ns ≠ [] := by
  intro hNil
  have hNames := nameList_list h
  rw [hNil] at hNames
  exact h (List.map_eq_nil_iff.1 hNames.symm)

/-- A list lasts to the parenthesis that closes it. -/
theorem not_mem_list (ns : List ListedName) : ')' ∉ list ns := by
  induction ns with
  | nil => exact List.not_mem_nil
  | cons n ns ih =>
    have hHead : ')' ∉ n.text := n.not_mem_text (by decide)
    cases ns with
    | nil => rwa [list, List.map_singleton, List.intercalate_singleton]
    | cons m ns =>
      have hRest : list (n :: m :: ns) = n.text ++ [','] ++ list (m :: ns) := List.intercalate_cons_cons
      rw [hRest]
      simp [hHead, ih]

end ListedName

end SqlSurvey.Ddl
