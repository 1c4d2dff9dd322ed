import SqlSurvey.Proofs.Ddl.Key
import SqlSurvey.Proofs.Pattern.Boundary
import SqlSurvey.Proofs.Sql.Inner

/-!
# Names whatever their quotes are

A name in quotes is as inner a text as the name alone, and a search for keywords passes over it in the same way, in a
list or by itself. What is read of a text can so be compared with what is read when the names in it are bare.
-/

namespace SqlSurvey

open Pattern

variable {q : Pattern} {s : List Char} {word other : String}

/-! ## Tokens inside a statement -/

theorem Sql.isMild_of_forall {P : Char → Bool} (hP : ∀ d ∈ Sql.strongChars, P d = false) {c : Char} (h : P c = true) :
    Sql.isMild c = true := by
  rw [Sql.isMild, Bool.not_eq_true', ← Bool.not_eq_true, List.contains_iff_mem]
  intro hMem
  exact Bool.false_ne_true ((hP c hMem).symm.trans h)

theorem Sql.isItemChar_of_forall {P : Char → Bool} (hP : P '(' = false ∧ P ')' = false ∧ P ',' = false) {c : Char}
    (h : P c = true) : Sql.isItemChar c = true := by
  have hNe : ∀ d, P d = false → c ≠ d := by
    rintro d hd rfl
    exact Bool.false_ne_true (hd.symm.trans h)
  simp [Sql.isItemChar, hNe _ hP.1, hNe _ hP.2.1, hNe _ hP.2.2]

/-- Mild characters that are no parentheses and no commas make up a part of an item. -/
theorem Sql.isPart_of_forall (h : ∀ c ∈ s, Sql.isMild c = true ∧ Sql.isItemChar c = true) : Sql.IsPart s := by
  refine (Sql.isInner_of_forall fun c hc => (h c hc).1).isPart fun c hc => ⟨⟨?_, ?_, ?_⟩, (h c hc).2⟩
  · simp [Sql.isSingleQuote, Sql.ne_of_isMild (h c hc).1 (show '\'' ∈ Sql.strongChars by decide)]
  · exact Sql.ne_of_isMild (h c hc).1 (by decide)
  · exact Sql.ne_of_isMild (h c hc).1 (by decide)

theorem Sql.isPart_of_isWordChar (h : ∀ c ∈ s, Text.isWordChar c = true) : Sql.IsPart s :=
  Sql.isPart_of_forall fun c hc =>
    ⟨Sql.isMild_of_forall (by decide) (h c hc), Sql.isItemChar_of_forall (by decide) (h c hc)⟩

theorem Gap.isWordChar_head (g : Gap) (hs : ∀ c ∈ s.head?, Text.isWordChar c = false) :
    ∀ c ∈ (g.text ++ s).head?, Text.isWordChar c = false := by
  intro c hc
  rw [List.head?_append] at hc
  rcases Option.or_eq_some_iff.1 hc with hc | ⟨-, hc⟩
  · exact Text.isWordChar_of_isBlank (g.blank c (List.mem_of_mem_head? hc))
  · exact hs c hc

theorem Space.isWordChar_head (b : Space) (s : List Char) : ∀ c ∈ (b.text ++ s).head?, Text.isWordChar c = false :=
  fun c hc => Text.isWordChar_of_isBlank (b.isBlank_head s c hc)

/-- What begins with a word passes over blanks. -/
theorem Gap.passesOver (g : Gap) (hq : q.Refuses fun c => !Text.isWordChar c) (last : Option Char) (s : List Char) :
    q.PassesOver last g.text s :=
  hq.passesOver fun c hc => by rw [Text.isWordChar_of_isBlank (g.blank c hc)]; rfl

theorem Gap.isPart (g : Gap) : Sql.IsPart g.text :=
  Sql.isPart_of_forall fun c hc =>
    ⟨Sql.isMild_of_forall (by decide) (g.blank c hc), Sql.isItemChar_of_forall (by decide) (g.blank c hc)⟩

theorem Spelling.isPart (h : IsKeyword word) (w : Spelling word) : Sql.IsPart w.text :=
  Sql.isPart_of_isWordChar (w.isWordChar h)

namespace Ddl

variable {ns : List ListedName} {n : WrittenName}

/-! ## Names inside a statement -/

/-- The characters of names, quotes and all. -/
def isNameChar (c : Char) : Bool := nameList.isNameQuote c || Text.isWordChar c

theorem WrittenName.isNameChar (n : WrittenName) : ∀ c ∈ n.text, isNameChar c = true := fun c hc => by
  rw [Ddl.isNameChar, Bool.or_eq_true]
  exact WrittenName.mem_text hc

theorem WrittenName.isInner (n : WrittenName) : Sql.IsInner n.text := by
  have hWord : ∀ c ∈ n.name, Sql.isMild c = true := fun c hc => Sql.isMild_of_forall (by decide) (n.word c hc)
  have hMild : n.quoting ≠ .double → ∀ c ∈ n.text, Sql.isMild c = true := by
    intro hQuoting c hc
    have hQuotes : ∀ k : Quoting, k ≠ .double → ∀ c ∈ k.opening ++ k.closing, Sql.isMild c = true := by
      intro k
      cases k <;> decide
    simp only [text, List.mem_append] at hc
    rcases hc with (hc | hc) | hc
    · exact hQuotes _ hQuoting c (List.mem_append_left _ hc)
    · exact hWord c hc
    · exact hQuotes _ hQuoting c (List.mem_append_right _ hc)
  by_cases hQuoting : n.quoting = .double
  · have hText : n.text = '"' :: n.name ++ ['"'] := by rw [text, hQuoting]; rfl
    rw [hText]
    exact Sql.isInner_doubleQuoted hWord
  · exact Sql.isInner_of_forall (hMild hQuoting)

/-- No character of a name opens a run or a comment in a body, and none cuts it. -/
theorem isItemChar_of_isNameChar {c : Char} (h : isNameChar c = true) :
    (Sql.isSingleQuote c = false ∧ c ≠ '-' ∧ c ≠ '/') ∧ Sql.isItemChar c = true := by
  have hNe : ∀ d, isNameChar d = false → c ≠ d := by
    rintro d hd rfl
    exact Bool.false_ne_true (hd.symm.trans h)
  refine ⟨⟨?_, hNe '-' (by decide), hNe '/' (by decide)⟩, Sql.isItemChar_of_forall (P := isNameChar) (by decide) h⟩
  simp [Sql.isSingleQuote, hNe '\'' (by decide)]

theorem WrittenName.isPart (n : WrittenName) : Sql.IsPart n.text :=
  n.isInner.isPart fun c hc => isItemChar_of_isNameChar (n.isNameChar c hc)

namespace ListedName

theorem isPart (n : ListedName) : Sql.IsPart n.text :=
  (n.before.isPart.append n.toWrittenName.isPart).append n.after.isPart

theorem list_cons_cons (n m : ListedName) (ns : List ListedName) :
    list (n :: m :: ns) = n.text ++ ([','] ++ list (m :: ns)) := by
  simp [list, List.intercalate_cons_cons]

theorem mem_list {c : Char} (h : c ∈ list ns) : c = ',' ∨ ∃ n ∈ ns, c ∈ n.text := by
  induction ns with
  | nil => exact absurd h List.not_mem_nil
  | cons n ns ih =>
    cases ns with
    | nil =>
      rw [list, List.map_singleton, List.intercalate_singleton] at h
      exact .inr ⟨n, List.mem_cons_self, h⟩
    | cons m ns =>
      rw [list_cons_cons, List.mem_append, List.mem_append, List.mem_singleton] at h
      rcases h with h | rfl | h
      · exact .inr ⟨n, List.mem_cons_self, h⟩
      · exact .inl rfl
      · rcases ih h with hComma | ⟨k, hk, hc⟩
        · exact .inl hComma
        · exact .inr ⟨k, List.mem_cons_of_mem n hk, hc⟩

theorem isInner_list (ns : List ListedName) : Sql.IsInner (list ns) :=
  Sql.isInner_intercalate (by decide) fun s hs => by
    obtain ⟨n, -, rfl⟩ := List.mem_map.1 hs
    exact n.isPart.toIsInner

/-- A list in parentheses is part of an item. -/
theorem isPart_parenthesized (ns : List ListedName) : Sql.IsPart ('(' :: list ns ++ [')']) := by
  refine (isInner_list ns).isPart_parenthesized fun c hc => ?_
  have hBlank : ∀ d, Text.isBlank d = true → (Sql.isSingleQuote d = false ∧ d ≠ '-' ∧ d ≠ '/') ∧
      (Sql.isItemChar d = true ∨ d = ',') := by
    intro d hd
    have hNe : ∀ e, Text.isBlank e = false → d ≠ e := by
      rintro e he rfl
      exact Bool.false_ne_true (he.symm.trans hd)
    refine ⟨⟨?_, hNe '-' (by decide), hNe '/' (by decide)⟩, .inl (Sql.isItemChar_of_forall (by decide) hd)⟩
    simp [Sql.isSingleQuote, hNe '\'' (by decide)]
  rcases mem_list hc with rfl | ⟨n, -, hc⟩
  · decide
  · rcases mem_text hc with hc | hc
    · exact hBlank c hc
    · have hName := isItemChar_of_isNameChar (c := c) (by rwa [isNameChar, Bool.or_eq_true])
      exact ⟨hName.1, .inl hName.2⟩

end ListedName

/-! ## Names that are passed over -/

theorem refuses_keyword_blanks (h : IsKeyword other) (q : Pattern) :
    (keyword other.toList ++ (blanks ++ q)).Refuses fun c => !Text.isWordChar c :=
  (h.refuses fun c hc => by simpa using hc).append _

theorem Quoting.isWordChar_closing (k : Quoting) (hs : ∀ c ∈ s.head?, Text.isWordChar c = false) :
    ∀ c ∈ (k.closing ++ s).head?, Text.isWordChar c = false := by
  cases k with
  | bare => exact hs
  | double => simp [closing]; decide
  | backtick => simp [closing]; decide
  | bracket => simp [closing]; decide

/-- A closing quote is no blank. -/
theorem Quoting.hits_blanks_closing (k : Quoting) (hNone : ∀ last, (blanks ++ q).hits last s = []) (last : Option Char) :
    (blanks ++ q).hits last (k.closing ++ s) = [] := by
  cases k with
  | bare => exact hNone last
  | double => exact hits_append_eq_nil (hits_blanks_eq_nil (by simp [closing]; decide) last)
  | backtick => exact hits_append_eq_nil (hits_blanks_eq_nil (by simp [closing]; decide) last)
  | bracket => exact hits_append_eq_nil (hits_blanks_eq_nil (by simp [closing]; decide) last)

namespace WrittenName

/-- What refuses quotes passes over a name when it passes over the word. -/
theorem passesOver_of_name {p : Pattern} (hp : p.Refuses fun c => !Text.isWordChar c)
    (hName : ∀ last, p.PassesOver last n.name (n.quoting.closing ++ s)) (last : Option Char) :
    p.PassesOver last n.text s := by
  have hQuotes : ∀ c ∈ n.quoting.opening ++ n.quoting.closing, (!Text.isWordChar c) = true := by
    cases n.quoting <;> decide
  have hOpening : ∀ last b, p.PassesOver last n.quoting.opening b := fun _ _ =>
    hp.passesOver fun c hc => hQuotes c (List.mem_append_left _ hc)
  have hClosing : ∀ last b, p.PassesOver last n.quoting.closing b := fun _ _ =>
    hp.passesOver fun c hc => hQuotes c (List.mem_append_right _ hc)
  exact ((hOpening _ _).append (hName _)).append (hClosing _ _)

/-- A keyword that blanks must follow passes over a name behind which the pattern does not go on. -/
theorem passesOver (n : WrittenName) (h : IsKeyword other) (hs : ∀ c ∈ s.head?, Text.isWordChar c = false)
    (hNone : ∀ last, (blanks ++ q).hits last s = []) (last : Option Char) :
    (keyword other.toList ++ (blanks ++ q)).PassesOver last n.text s :=
  passesOver_of_name (refuses_keyword_blanks h q) (fun last => passesOver_word_of_hits_eq_nil h n.word
    (n.quoting.isWordChar_closing hs) (n.quoting.hits_blanks_closing hNone) last) last

/-- At the edge of a word, it passes over every other name. -/
theorem passesOver_of_not_spells (n : WrittenName) (h : IsKeyword other)
    (hs : ∀ c ∈ s.head?, Text.isWordChar c = false) (hNot : ¬ Spells other.toList n.name) (q : Pattern)
    (last : Option Char) : (atWordEdge ++ (keyword other.toList ++ (blanks ++ q))).PassesOver last n.text s :=
  passesOver_of_name (refuses_keyword_blanks h q).atWordEdge_append (fun last => passesOver_word_of_not_spells h n.word
    (n.quoting.isWordChar_closing hs) hNot q last) last

end WrittenName

namespace ListedName

/-- A name in a list is passed over when the pattern does not go on at the mark behind it. -/
theorem passesOver (n : ListedName) (h : IsKeyword other) (hq : q.Refuses Text.isBlank)
    (hs : ∀ c ∈ s.head?, Text.isBlank c = false ∧ Text.isWordChar c = false) (hNone : ∀ last, q.hits last s = [])
    (last : Option Char) : (keyword other.toList ++ (blanks ++ q)).PassesOver last n.text s := by
  have hRefuses := refuses_keyword_blanks h q
  have hName := n.toWrittenName.passesOver h (n.after.isWordChar_head fun c hc => (hs c hc).2)
    (hits_blanks_append_gap n.after hq (fun c hc => (hs c hc).1) hNone)
  exact ((n.before.passesOver hRefuses _ _).append (hName _)).append (n.after.passesOver hRefuses _ _)

/-- So are all names of a list. -/
theorem passesOver_list (h : IsKeyword other) (hq : q.Refuses fun c => !Text.isWordChar c)
    (hs : ∀ c ∈ s.head?, Text.isBlank c = false ∧ Text.isWordChar c = false) (hNone : ∀ last, q.hits last s = [])
    (last : Option Char) : (keyword other.toList ++ (blanks ++ q)).PassesOver last (list ns) s := by
  have hBlank : q.Refuses Text.isBlank := hq.mono fun c hc => by rw [Text.isWordChar_of_isBlank hc]; rfl
  induction ns generalizing last with
  | nil => trivial
  | cons n ns ih =>
    cases ns with
    | nil =>
      rw [list, List.map_singleton, List.intercalate_singleton]
      exact n.passesOver h hBlank hs hNone last
    | cons m ns =>
      have hComma : ∀ t : List Char, ∀ c ∈ (([','] ++ t) ++ s).head?,
          Text.isBlank c = false ∧ Text.isWordChar c = false := by
        intro t
        simp
        decide
      rw [list_cons_cons]
      refine (n.passesOver h hBlank (hComma _) (fun last => hq last ',' _ (by decide)) last).append ?_
      exact ((refuses_keyword_blanks h q).passesOver (by decide)).append (ih _)

/-- So is a list in parentheses, whatever comes behind it. -/
theorem passesOver_parenthesized (h : IsKeyword other) (hq : q.Refuses fun c => !Text.isWordChar c)
    (ns : List ListedName) (s : List Char) (last : Option Char) :
    (keyword other.toList ++ (blanks ++ q)).PassesOver last ('(' :: list ns ++ [')']) s := by
  have hMark : ∀ c, Text.isWordChar c = false → ∀ last t,
      (keyword other.toList ++ (blanks ++ q)).PassesOver last [c] t := fun c hc _ _ =>
    (refuses_keyword_blanks h q).passesOver (by simpa using hc)
  have hList : ∀ last, (keyword other.toList ++ (blanks ++ q)).PassesOver last (list ns) ([')'] ++ s) := fun last =>
    passesOver_list h hq (by simp; decide) (fun last => hq last ')' _ (by decide)) last
  exact ((hMark '(' (by decide) last _).append (hList _)).append (hMark ')' (by decide) _ s)

end ListedName

/-! ## Names without their quotes -/

/-- The same name without quotes. -/
def WrittenName.bare (n : WrittenName) : WrittenName := { n with quoting := .bare }

/-- The same name without quotes, with the blanks around it. -/
def ListedName.bare (n : ListedName) : ListedName := { n with toWrittenName := n.toWrittenName.bare }

@[simp] theorem WrittenName.name_bare (n : WrittenName) : n.bare.name = n.name := rfl

@[simp] theorem ListedName.name_bare (n : ListedName) : n.bare.name = n.name := rfl

end Ddl

end SqlSurvey
