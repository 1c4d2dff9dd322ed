import SqlSurvey.Proofs.Pattern.Words

/-!
# Keywords and blanks as they are written

Between the same words a text may have other blanks, and its keywords their letters in another case. Each way of
writing such a token is a structure that holds its text and what makes it one; a pattern takes it as a whole.
-/

namespace SqlSurvey

open Pattern

variable {q : Pattern} {s ls ms t : List Char} {word other : String}

/-! ## Tokens -/

/-- Blanks that may be missing. -/
structure Gap where
  text : List Char
  blank : ∀ c ∈ text, Text.isBlank c = true

/-- Blanks between two words, of which there is at least one. -/
structure Space extends Gap where
  nonempty : text ≠ []

/-- A keyword with its letters in any case. -/
structure Spelling (word : String) where
  text : List Char
  spells : Spells word.toList text

/-- A keyword is a word of letters. -/
def IsKeyword (word : String) : Prop := word.toList ≠ [] ∧ ∀ l ∈ word.toList, l.toLower.isAlpha = true

instance (word : String) : Decidable (IsKeyword word) := inferInstanceAs (Decidable (_ ∧ _))

/-- One space. -/
def Space.one : Space := ⟨⟨[' '], by decide⟩, by decide⟩

/-- A keyword spells itself. -/
theorem spells_self (ls : List Char) : Spells ls ls :=
  List.forall₂_same.2 fun l _ => by simp [Text.sameLetter]

/-- A keyword as it is. -/
def Spelling.plain (word : String) : Spelling word := ⟨word.toList, spells_self word.toList⟩

/-! ## Blanks -/

/-- Blanks that may be missing are taken as a whole. -/
theorem Gap.takes (b : Gap) (hs : ∀ c ∈ s.head?, Text.isBlank c = false) (hq : q.Refuses Text.isBlank) :
    gap.Takes q b.text [] s := takes_gap b.blank hs hq

/-- Blanks between two words are taken as a whole. -/
theorem Space.takes (b : Space) (hs : ∀ c ∈ s.head?, Text.isBlank c = false) (hq : q.Refuses Text.isBlank) :
    blanks.Takes q b.text [] s := takes_many b.nonempty b.blank hs hq

theorem Space.isBlank_head (b : Space) (s : List Char) : ∀ c ∈ (b.text ++ s).head?, Text.isBlank c = true := by
  intro c hc
  rw [List.head?_append_of_ne_nil _ b.nonempty] at hc
  exact b.blank c (List.mem_of_mem_head? hc)

/-- Where a space ends, a word may begin. -/
theorem Space.isBlank_last (b : Space) (last : Option Char) : ∀ c ∈ lastOf last b.text, Text.isBlank c = true := by
  intro c hc
  obtain ⟨u, d, hText⟩ := (List.eq_nil_or_concat' b.text).resolve_left b.nonempty
  rw [lastOf, hText, List.getLast?_concat] at hc
  obtain rfl := Option.some_inj.1 hc
  exact b.blank d (by rw [hText]; simp)

/-! ## Keywords -/

/-- Each member of the second list is related to one of the first. -/
theorem exists_of_mem_forall₂ {α β : Type} {R : α → β → Prop} {xs : List α} {ys : List β} (h : List.Forall₂ R xs ys)
    {y : β} (hy : y ∈ ys) : ∃ x ∈ xs, R x y := by
  induction h with
  | nil => exact absurd hy List.not_mem_nil
  | @cons x z xs ys hHead _ ih =>
    rcases List.mem_cons.1 hy with rfl | hy
    · exact ⟨x, List.mem_cons_self, hHead⟩
    · obtain ⟨w, hw, hRelated⟩ := ih hy
      exact ⟨w, List.mem_cons_of_mem x hw, hRelated⟩

/-- A text spells one keyword only. -/
theorem map_lowerAscii_eq_of_spells (hls : ∀ l ∈ ls, l.toLower.isAlpha = true)
    (hms : ∀ m ∈ ms, m.toLower.isAlpha = true) (h : Spells ls t) (k : Spells ms t) :
    ls.map Text.lowerAscii = ms.map Text.lowerAscii := by
  induction h generalizing ms with
  | nil =>
    cases k with
    | nil => rfl
  | @cons l c ls t hl _ ih =>
    cases k with
    | @cons m _ ms _ hm k =>
      have hHead := Text.lowerAscii_eq_of_sameLetter (hls l List.mem_cons_self) (hms m List.mem_cons_self) hl hm
      have hTail := ih (fun e he => hls e (List.mem_cons_of_mem l he)) (fun e he => hms e (List.mem_cons_of_mem m he)) k
      rw [List.map_cons, List.map_cons, hHead, hTail]

theorem exists_suffix_of_endsIn (h : endsIn ls t = true) : ∃ v, v <:+ t ∧ Spells ls v := by
  simpa [endsIn, List.any_eq_true, List.mem_tails] using h

/-- What spells a keyword ends in it. -/
theorem endsIn_of_spells (h : Spells ls t) : endsIn ls t = true :=
  List.any_eq_true.2 ⟨t, (List.mem_tails t t).2 (List.suffix_refl t), decide_eq_true h⟩

/-- A text that spells a keyword ends in no keyword but one that this keyword ends in. -/
theorem isSuffix_of_endsIn (hls : ∀ l ∈ ls, l.toLower.isAlpha = true) (hms : ∀ m ∈ ms, m.toLower.isAlpha = true)
    (h : endsIn ls t = true) (k : Spells ms t) : ls.map Text.lowerAscii <:+ ms.map Text.lowerAscii := by
  obtain ⟨v, ⟨u, rfl⟩, hSpells⟩ := exists_suffix_of_endsIn h
  have hDrop : Spells (ms.drop u.length) v := by
    have hBoth := List.forall₂_drop u.length k
    rwa [List.drop_left] at hBoth
  have hDropped : ∀ m ∈ ms.drop u.length, m.toLower.isAlpha = true := fun m hm => hms m (List.mem_of_mem_drop hm)
  rw [map_lowerAscii_eq_of_spells hls hDropped hSpells hDrop, List.map_drop]
  exact List.drop_suffix _ _

/-- A keyword refuses what stands in no word. -/
theorem IsKeyword.refuses {A : Char → Bool} (h : IsKeyword word) (hA : ∀ c, A c = true → Text.isWordChar c = false) :
    (keyword word.toList).Refuses A := by
  obtain ⟨l, ls, hLetters⟩ := List.exists_cons_of_ne_nil h.1
  rw [hLetters]
  refine refuses_keyword fun c hc => ?_
  rw [← Bool.not_eq_true]
  intro hSame
  have hWord := Text.isWordChar_of_sameLetter (h.2 l (by simp [hLetters])) hSame
  simp [hA c hc] at hWord

theorem IsKeyword.refuses_blank (h : IsKeyword word) : (keyword word.toList).Refuses Text.isBlank :=
  h.refuses fun _ hc => Text.isWordChar_of_isBlank hc

namespace Spelling

theorem takes (w : Spelling word) (q : Pattern) (s : List Char) : (keyword word.toList).Takes q w.text [] s :=
  takes_keyword w.spells q s

theorem isWordChar (h : IsKeyword word) (w : Spelling word) : ∀ c ∈ w.text, Text.isWordChar c = true := by
  intro c hc
  obtain ⟨l, hl, hSame⟩ := exists_of_mem_forall₂ w.spells hc
  exact Text.isWordChar_of_sameLetter (h.2 l hl) hSame

theorem ne_nil (h : IsKeyword word) (w : Spelling word) : w.text ≠ [] := by
  intro hNil
  have hLength := w.spells.length_eq
  rw [hNil, List.length_nil, List.length_eq_zero_iff] at hLength
  exact h.1 hLength

theorem isSolid (h : IsKeyword word) (w : Spelling word) : IsSolid w.text :=
  isSolid_of_forall_isWordChar (w.ne_nil h) (w.isWordChar h)

theorem isBlank_head (h : IsKeyword word) (w : Spelling word) (s : List Char) :
    ∀ c ∈ (w.text ++ s).head?, Text.isBlank c = false := (w.isSolid h).head s

/-- What spells a keyword spells no other one. -/
theorem not_spells (hWord : IsKeyword word) (hOther : IsKeyword other)
    (h : word.toList.map Text.lowerAscii ≠ other.toList.map Text.lowerAscii) (w : Spelling word) :
    ¬ Spells other.toList w.text :=
  fun k => h (map_lowerAscii_eq_of_spells hWord.2 hOther.2 w.spells k)

/-- A keyword is not found where one with another first letter stands. -/
theorem hits_keyword_eq_nil (hWord : IsKeyword word) (hOther : IsKeyword other)
    (h : word.toList.head?.map Text.lowerAscii ≠ other.toList.head?.map Text.lowerAscii) (w : Spelling word)
    (last : Option Char) (s : List Char) : (keyword other.toList).hits last (w.text ++ s) = [] := by
  obtain ⟨t, ht⟩ := w
  obtain ⟨l, ls, hLetters⟩ := List.exists_cons_of_ne_nil hWord.1
  obtain ⟨m, ms, hOthers⟩ := List.exists_cons_of_ne_nil hOther.1
  rw [hLetters, hOthers] at h
  rw [hLetters] at ht
  cases ht with
  | @cons _ c _ t hc _ =>
    have hNot : ¬ Text.sameLetter m c = true := fun hm => h <| congrArg some <|
      Text.lowerAscii_eq_of_sameLetter (hWord.2 l (by simp [hLetters])) (hOther.2 m (by simp [hOthers])) hc hm
    rw [hOthers]
    exact hits_append_eq_nil (p := char (Text.sameLetter m)) (by simp [hits, hNot])

/-- At the edge of a word, a keyword passes over what spells another one. -/
theorem passesOver (hWord : IsKeyword word) (hOther : IsKeyword other)
    (h : word.toList.map Text.lowerAscii ≠ other.toList.map Text.lowerAscii) (w : Spelling word)
    (hs : ∀ c ∈ s.head?, Text.isBlank c = true) (q : Pattern) (last : Option Char) :
    (atWordEdge ++ (keyword other.toList ++ (blanks ++ q))).PassesOver last w.text s :=
  passesOver_of_not_spells (noBlanks_of_isAlpha hOther.2) (w.isWordChar hWord) hs (w.not_spells hWord hOther h) q last

end Spelling

end SqlSurvey
