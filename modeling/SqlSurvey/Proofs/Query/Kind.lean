import SqlSurvey.Query.Kind
import SqlSurvey.Proofs.Text.Layout

/-!
# The kind of a query that begins with its word

A query whose first word is that of a kind is of that kind, whatever comes after the word. The first token that is no
blank is settled before the rest is read, so it makes no difference whether the rest can be cut into tokens.
-/

namespace SqlSurvey

namespace Text

variable {c : Char} {w : List Char}

/-! ## Letters whose upper case is ASCII -/

theorem isAlphabetic_of_isAlpha (h : c.isAlpha = true) : isAlphabetic c = true := by
  rw [isAlphabetic, h, Bool.true_or]

theorem isAlphabetic_of_ascii (hc : c.toNat < asciiEnd) : isAlphabetic c = c.isAlpha := by
  have hNot : ¬ asciiEnd ≤ c.toNat := by omega
  rw [isAlphabetic, decide_eq_false hNot, Bool.false_and, Bool.or_false]

/-- No letter is a digit. -/
theorem isDigit_of_isAlphabetic (h : isAlphabetic c = true) : c.isDigit = false := by
  rw [← Bool.not_eq_true, isDigit_iff]
  rintro ⟨hFirst, hLast⟩
  have hAscii : c.toNat < asciiEnd := by
    unfold asciiEnd
    omega
  rw [isAlphabetic_of_ascii hAscii, isAlpha_iff, isUpper_iff, isLower_iff] at h
  omega

theorem isBlank_of_isAlphabetic (h : isAlphabetic c = true) : isBlank c = false :=
  isBlank_of_isWordChar (isWordChar_of_isAlphabetic h)

theorem le_of_isUpper_ofNat {n : Nat} (h : (Char.ofNat n).isUpper = true) : n ≤ 90 := by
  by_cases hValid : n.isValidChar
  · have hChar : Char.ofNat n = Char.ofNatAux n hValid := dif_pos hValid
    rw [hChar] at h
    exact (isUpper_iff.1 h).2
  · -- what is no character is read as the null character
    have hChar : Char.ofNat n = '\x00' := dif_neg hValid
    exact absurd (hChar ▸ h) (by decide)

/-- What becomes upper-case ASCII letters is a letter: beyond ASCII there are ligatures, the long s and the
dotless i. -/
theorem isAlphabetic_of_upperChar (h : ∀ l ∈ upperChar c, l.isUpper = true) : isAlphabetic c = true := by
  have hExpansions : ∀ e ∈ upperExpansions, (∀ l ∈ e.2.map Char.ofNat, l.isUpper = true) →
      isAlphabetic (Char.ofNat e.1) = true := by decide +kernel
  have hRuns : ∀ r ∈ upperRuns, r.2.2 ≤ 90 → r.1.2 = r.1.1 ∧ isAlphabetic (Char.ofNat r.1.1) = true := by
    decide +kernel
  unfold upperChar at h
  simp only at h
  split at h
  · have hUpper : c.toUpper.isUpper = true := h _ List.mem_cons_self
    refine isAlphabetic_of_isAlpha (isAlpha_iff.2 ?_)
    by_cases hLower : c.isLower = true
    · exact .inr hLower
    · -- only a lower-case letter is changed
      have hSame : c.toUpper = c := dif_neg fun hRange => hLower (isLower_iff.2 hRange)
      exact .inl (hSame ▸ hUpper)
  · split at h
    · rename_i e hFind
      have hFirst : (e.1 == c.toNat) = true := List.find?_some (p := fun e : Nat × List Nat => e.1 == c.toNat) hFind
      have hLetter := hExpansions e (List.mem_of_find?_eq_some hFind) h
      rwa [beq_iff_eq.1 hFirst, Char.ofNat_toNat] at hLetter
    · split at h
      · rename_i r hFind
        have hSmall := le_of_isUpper_ofNat (h _ List.mem_cons_self)
        obtain ⟨hOne, hLetter⟩ := hRuns r (List.mem_of_find?_eq_some hFind) (by omega)
        have hRange := List.find?_some hFind
        simp only [Bool.and_eq_true, decide_eq_true_eq] at hRange
        have hChar : r.1.1 = c.toNat := by omega
        rwa [hChar, Char.ofNat_toNat] at hLetter
      · have hUpper := isUpper_iff.1 (h _ List.mem_cons_self)
        omega

end Text

namespace Query

open Text

variable {c : Char} {b r s w : List Char} {k : Kind}

/-! ## The first token -/

/-- Few characters begin a string: a quote, some letters before a quote, and `u` before an ampersand. -/
theorem stringAfter?_eq_none (hc : c.toLower ∉ ['\'', 'b', 'r', 'n', 'x', 'e']) (hr : r.head? ≠ some '&') :
    stringAfter? c r = none := by
  unfold stringAfter?
  split <;> simp_all

theorem commentAfter?_eq_none (hLine : c ≠ '-') (hBlock : c ≠ '/') : commentAfter? c r = none := by
  unfold commentAfter?
  split <;> simp_all

/-- The lower case of a character that is no letter is that character. -/
theorem toLower_of_not_isAlpha (h : c.isAlpha = false) : c.toLower = c := by
  refine dif_neg fun hUpper => ?_
  rw [isAlpha_iff.2 (.inl (isUpper_iff.2 hUpper))] at h
  exact Bool.false_ne_true h.symm

/-- A blank is a token of its own. -/
theorem firstToken_blank (hc : isBlank c = true) (r : List Char) : firstToken c r = some (.blank, r) := by
  have hNot : ∀ d, isBlank d = false → c ≠ d := by
    rintro d hd rfl
    exact Bool.false_ne_true (hd.symm.trans hc)
  have hAlpha : c.isAlpha = false := by
    rw [← Bool.not_eq_true]
    intro h
    exact Bool.false_ne_true ((isBlank_of_isAlphabetic (isAlphabetic_of_isAlpha h)).symm.trans hc)
  have hString : stringAfter? c r = none := by
    unfold stringAfter?
    rw [toLower_of_not_isAlpha hAlpha]
    split <;> first | rfl | exact absurd rfl (hNot _ (by decide))
  have hComment : commentAfter? c r = none := commentAfter?_eq_none (hNot _ (by decide)) (hNot _ (by decide))
  rw [firstToken, hString, hComment]
  exact if_pos hc

theorem isWordPart_of_isAlphabetic (h : isAlphabetic c = true) : isWordPart c = true := by
  simp [isWordPart, h]

/-- No word goes on with a blank. -/
theorem isWordPart_of_isBlank (h : isBlank c = true) : isWordPart c = false := by
  have hLetter : isAlphabetic c = false := by
    rw [← Bool.not_eq_true]
    intro hc
    exact Bool.false_ne_true ((isBlank_of_isAlphabetic hc).symm.trans h)
  have hDigit : c.isDigit = false := by
    rw [← Bool.not_eq_true]
    intro hc
    have hWord : isWordChar c = true := by simp [isWordChar, Char.isAlphanum, hc]
    exact Bool.false_ne_true ((isBlank_of_isWordChar hWord).symm.trans h)
  have hMark : ∀ d, isBlank d = false → (c == d) = false := by
    intro d hd
    rw [beq_eq_false_iff_ne]
    rintro rfl
    exact Bool.false_ne_true (hd.symm.trans h)
  rw [isWordPart, hLetter, hDigit, hMark '@' (by decide), hMark '$' (by decide), hMark '#' (by decide),
    hMark '_' (by decide)]
  rfl

/-- A word of letters, after which a blank or nothing comes, is the first token, unless it could begin a string. -/
theorem firstToken_word (hc : isAlphabetic c = true) (hw : ∀ d ∈ w, isAlphabetic d = true)
    (hString : c.toLower ∉ ['\'', 'b', 'r', 'n', 'x', 'e']) (hr : ∀ d ∈ r.head?, isBlank d = true) :
    firstToken c (w ++ r) = some (.word (c :: w) false, r) := by
  have hNot : ∀ d, isAlphabetic d = false → c ≠ d := by
    rintro d hd rfl
    exact Bool.false_ne_true (hd.symm.trans hc)
  have hNext : (w ++ r).head? ≠ some '&' := by
    intro hAmpersand
    rcases w with _ | ⟨d, w⟩
    · exact absurd (hr '&' hAmpersand) (by decide)
    · obtain rfl : d = '&' := Option.some_inj.1 hAmpersand
      exact absurd (hw '&' List.mem_cons_self) (by decide)
  have hDigit := isDigit_of_isAlphabetic hc
  have hTake : (w ++ r).takeWhile isWordPart = w ∧ (w ++ r).dropWhile isWordPart = r := by
    have hWord : ∀ d ∈ w, isWordPart d = true := fun d hd => isWordPart_of_isAlphabetic (hw d hd)
    rw [List.takeWhile_append_of_pos hWord, List.dropWhile_append_of_pos hWord]
    cases r with
    | nil => simp
    | cons d r => simp [isWordPart_of_isBlank (hr d rfl)]
  rw [firstToken, stringAfter?_eq_none hString hNext,
    commentAfter?_eq_none (hNot _ (by decide)) (hNot _ (by decide))]
  simp only [isBlank_of_isAlphabetic hc, hDigit, hc, hNot '"' (by decide), hNot '\x60' (by decide),
    hNot '.' (by decide), hNot '#' (by decide), hNot '@' (by decide), Bool.false_eq_true, or_false, if_false,
    true_or, if_true]
  rw [wordToken, hTake.1, hTake.2]
  rfl

/-! ## The kind -/

theorem tokens?_blank_cons (hc : isBlank c = true) (s : List Char) :
    tokens? (c :: s) = (tokens? s).map (.blank :: ·) := by
  rw [tokens?, firstToken_blank hc]

/-- Blanks before a text change neither whether it can be cut into tokens nor the kind that its tokens give it. -/
theorem ofTokens?_blanks_append (hb : ∀ c ∈ b, isBlank c = true) (s : List Char) :
    (tokens? (b ++ s)).isSome = (tokens? s).isSome ∧ Kind.ofTokens? (b ++ s) = Kind.ofTokens? s := by
  induction b with
  | nil => exact ⟨rfl, rfl⟩
  | cons c b ih =>
    obtain ⟨hSome, hKind⟩ := ih fun d hd => hb d (List.mem_cons_of_mem c hd)
    have hTokens := tokens?_blank_cons (hb c List.mem_cons_self) (b ++ s)
    rw [List.cons_append]
    refine ⟨?_, ?_⟩
    · rw [hTokens, Option.isSome_map, hSome]
    · rw [← hKind, Kind.ofTokens?, Kind.ofTokens?, hTokens, Option.bind_map]
      rfl

theorem ofWord_of_upper (hk : k ≠ .other) (hw : upper w = k.name.toList) : Kind.ofWord w = k := by
  rw [Kind.ofWord, hw]
  cases k with
  | select => decide
  | insert => decide
  | update => decide
  | delete => decide
  | other => exact absurd rfl hk

/-- A character that a string may begin with is ASCII, also written large. -/
theorem toUpper_mem_of_toLower_mem (h : c.toLower ∈ ['\'', 'b', 'r', 'n', 'x', 'e']) :
    c.toNat < 128 ∧ c.toUpper ∈ ['\'', 'B', 'R', 'N', 'X', 'E'] := by
  have hAscii : c.toNat < 128 := by
    by_contra hNot
    have hAlpha : c.isAlpha = false := by
      rw [← Bool.not_eq_true, isAlpha_iff, isUpper_iff, isLower_iff]
      omega
    rw [toLower_of_not_isAlpha hAlpha] at h
    have hSmall : ∀ d ∈ ['\'', 'b', 'r', 'n', 'x', 'e'], d.toNat < 128 := by decide
    exact hNot (hSmall c h)
  refine ⟨hAscii, ?_⟩
  have hAll : ∀ n < 128, (Char.ofNat n).toLower ∈ ['\'', 'b', 'r', 'n', 'x', 'e'] →
      (Char.ofNat n).toUpper ∈ ['\'', 'B', 'R', 'N', 'X', 'E'] := by decide
  have hChar := hAll c.toNat hAscii
  rw [Char.ofNat_toNat] at hChar
  exact hChar h

/-- A word of a kind consists of letters, and no string begins with it. -/
theorem exists_cons_of_upper (hk : k ≠ .other) (hw : upper w = k.name.toList) :
    ∃ c v, w = c :: v ∧ (∀ d ∈ w, isAlphabetic d = true) ∧ c.toLower ∉ ['\'', 'b', 'r', 'n', 'x', 'e'] := by
  have hName : ∀ l ∈ k.name.toList, l.isUpper = true := by cases k <;> decide
  have hLetters : ∀ d ∈ w, isAlphabetic d = true := by
    intro d hd
    refine isAlphabetic_of_upperChar fun l hl => hName l ?_
    rw [← hw, upper]
    exact List.mem_flatMap.2 ⟨d, hd, hl⟩
  cases w with
  | nil => cases k <;> cases hw
  | cons c v =>
    refine ⟨c, v, rfl, hLetters, fun hString => ?_⟩
    obtain ⟨hAscii, hUpper⟩ := toUpper_mem_of_toLower_mem hString
    have hHead : k.name.toList.head? = some c.toUpper := by
      rw [← hw, upper, List.flatMap_cons, upperChar, if_pos hAscii]
      rfl
    -- none of the words begins with such a character
    have hNone : ∀ l ∈ k.name.toList.head?, l ∉ ['\'', 'B', 'R', 'N', 'X', 'E'] := by
      cases k with
      | select => decide
      | insert => decide
      | update => decide
      | delete => decide
      | other => exact absurd rfl hk
    exact hNone _ hHead hUpper

theorem isBlank_of_upper (hk : k ≠ .other) (hw : upper w = k.name.toList) : w ≠ [] ∧ ∀ d ∈ w, isBlank d = false := by
  obtain ⟨c, v, rfl, hLetters, -⟩ := exists_cons_of_upper hk hw
  exact ⟨List.cons_ne_nil c v, fun d hd => isBlank_of_isAlphabetic (hLetters d hd)⟩

/-- The word of a kind gives a text that kind, by its tokens if there are any, and in any case by its first word. -/
theorem ofTokens?_word (hk : k ≠ .other) (hw : upper w = k.name.toList) (hr : ∀ c ∈ r.head?, isBlank c = true) :
    Kind.ofTokens? (w ++ r) = (tokens? (w ++ r)).map fun _ => k := by
  obtain ⟨c, v, rfl, hLetters, hString⟩ := exists_cons_of_upper hk hw
  have hToken := firstToken_word (hLetters c List.mem_cons_self)
    (fun d hd => hLetters d (List.mem_cons_of_mem c hd)) hString hr
  have hTokens : tokens? (c :: v ++ r) = (tokens? r).map (.word (c :: v) false :: ·) := by
    rw [List.cons_append, tokens?, hToken]
  rw [Kind.ofTokens?, hTokens]
  cases tokens? r with
  | none => rfl
  | some ts =>
    show Kind.ofToken? (.word (c :: v) false) = some k
    rw [Kind.ofToken?, ofWord_of_upper hk hw]

theorem words_word_append (hw : ∀ c ∈ w, isBlank c = false) (hNonempty : w ≠ [])
    (hr : ∀ c ∈ r.head?, isBlank c = true) : words (w ++ r) = w :: words r := by
  cases r with
  | nil => rw [List.append_nil, words_of_forall hNonempty hw]; rfl
  | cons c r => rw [words_append_blank (hr c rfl), words_of_forall hNonempty hw, words_cons_blank (hr c rfl)]; rfl

theorem ofTokens?_blanks_word (hk : k ≠ .other) (hb : ∀ c ∈ b, isBlank c = true) (hw : upper w = k.name.toList)
    (hr : ∀ c ∈ r.head?, isBlank c = true) :
    Kind.ofTokens? (b ++ (w ++ r)) = (tokens? (b ++ (w ++ r))).map fun _ => k := by
  obtain ⟨hSome, hKind⟩ := ofTokens?_blanks_append hb (w ++ r)
  rw [hKind, ofTokens?_word hk hw hr]
  -- either text can be cut into tokens if the other one can
  cases hLong : tokens? (b ++ (w ++ r)) <;> cases hShort : tokens? (w ++ r) <;> simp_all

theorem ofFirstWord_blanks_word (hk : k ≠ .other) (hb : ∀ c ∈ b, isBlank c = true) (hw : upper w = k.name.toList)
    (hr : ∀ c ∈ r.head?, isBlank c = true) : Kind.ofFirstWord (b ++ (w ++ r)) = k := by
  obtain ⟨hNonempty, hSolid⟩ := isBlank_of_upper hk hw
  rw [Kind.ofFirstWord, words_append_blanks hb, words_word_append hSolid hNonempty hr]
  exact ofWord_of_upper hk hw

theorem classify_blanks_word (hk : k ≠ .other) (hb : ∀ c ∈ b, isBlank c = true) (hw : upper w = k.name.toList)
    (hr : ∀ c ∈ r.head?, isBlank c = true) : Kind.classify (b ++ (w ++ r)) = k := by
  rw [Kind.classify, ofTokens?_blanks_word hk hb hw hr, ofFirstWord_blanks_word hk hb hw hr]
  cases tokens? (b ++ (w ++ r)) <;> rfl

/-- The collapsed text is the word and a shorter rest. -/
theorem exists_collapse_word (hb : ∀ c ∈ b, isBlank c = true) (hw : ∀ c ∈ w, isBlank c = false) (hNonempty : w ≠ [])
    (hr : ∀ c ∈ r.head?, isBlank c = true) :
    ∃ t : List Char, collapse (b ++ (w ++ r)) = w ++ t ∧ ∀ d ∈ t.head?, isBlank d = true := by
  rw [collapse, words_append_blanks hb, words_word_append hw hNonempty hr]
  by_cases hRest : words r = []
  · exact ⟨[], by rw [hRest, unwords, List.intercalate_singleton, List.append_nil], by simp⟩
  · exact ⟨' ' :: unwords (words r), by rw [unwords_cons hRest], by simp; decide⟩

/-- A query that begins with the word of a kind is of that kind, and so is its collapsed text. Its tokens say so if the
text can be cut into tokens, and its first word says so in any case. -/
theorem classify_word_append (hk : k ≠ .other) (hb : ∀ c ∈ b, isBlank c = true) (hw : upper w = k.name.toList)
    (hr : ∀ c ∈ r.head?, isBlank c = true) :
    Kind.classify (b ++ (w ++ r)) = k ∧
      Kind.ofTokens? (b ++ (w ++ r)) = (tokens? (b ++ (w ++ r))).map (fun _ => k) ∧
      Kind.ofFirstWord (b ++ (w ++ r)) = k ∧
      Kind.classify (collapse (b ++ (w ++ r))) = Kind.classify (b ++ (w ++ r)) := by
  have hKind := classify_blanks_word hk hb hw hr
  refine ⟨hKind, ofTokens?_blanks_word hk hb hw hr, ofFirstWord_blanks_word hk hb hw hr, ?_⟩
  obtain ⟨hNonempty, hSolid⟩ := isBlank_of_upper hk hw
  obtain ⟨t, hText, ht⟩ := exists_collapse_word hb hSolid hNonempty hr
  have hShort := classify_blanks_word (b := []) hk (by simp) hw ht
  rw [List.nil_append] at hShort
  rw [hText, hShort, hKind]

/-- A text that no tokens make up: its string is not closed. -/
theorem classify_word_append_unclosed :
    upper "uPdate".toList = Kind.update.name.toList ∧ tokens? "\n uPdate t SET a = 'it".toList = none ∧
      Kind.classify "\n uPdate t SET a = 'it".toList = .update ∧
      Kind.classify (collapse "\n uPdate t SET a = 'it".toList) =
        Kind.classify "\n uPdate t SET a = 'it".toList := by
  have hWord : upper "uPdate".toList = Kind.update.name.toList := by decide
  obtain ⟨hKind, -, -, hCollapse⟩ := classify_word_append (k := .update) (b := "\n ".toList)
    (r := " t SET a = 'it".toList) (by decide) (by decide) hWord (by decide)
  exact ⟨hWord, by decide +kernel, hKind, hCollapse⟩

end Query

end SqlSurvey
