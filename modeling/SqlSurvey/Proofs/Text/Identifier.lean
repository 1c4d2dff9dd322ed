import SqlSurvey.Text.Upper
import SqlSurvey.Proofs.Text.Basic

/-!
# Identifiers and decimal numbers

ASCII identifiers and decimal integers as texts, and what their characters have in common with words and
with letters of keywords.
-/

namespace SqlSurvey.Text

variable {c : Char} {s : List Char}

/-- A character that may stand in an identifier. -/
def isIdentifierChar (c : Char) : Bool := c.isAlphanum || c == '_'

/-- An ASCII identifier: a letter or an underscore, then letters, digits and underscores. -/
def isIdentifier : List Char → Bool
  | [] => false
  | c :: r => (c.isAlpha || c == '_') && r.all isIdentifierChar

/-- A decimal integer: digits, perhaps after a sign. -/
def isDecimal : List Char → Bool
  | [] => false
  | c :: r => (c.isDigit || (c == '-' || c == '+') && !r.isEmpty) && r.all Char.isDigit

/-- A character that may stand in a decimal integer. -/
def isDecimalChar (c : Char) : Bool := c.isDigit || c == '-' || c == '+'

/-! ## Identifiers -/

theorem ne_nil_of_isIdentifier (h : isIdentifier s = true) : s ≠ [] := by
  rintro rfl
  exact Bool.false_ne_true h

theorem isIdentifierChar_of_mem (h : isIdentifier s = true) (hc : c ∈ s) : isIdentifierChar c = true := by
  cases s with
  | nil => exact absurd hc List.not_mem_nil
  | cons d r =>
    simp only [isIdentifier, Bool.and_eq_true, List.all_eq_true] at h
    rcases List.mem_cons.1 hc with rfl | hc
    · have hFirst := h.1
      simp only [Bool.or_eq_true] at hFirst
      rcases hFirst with hAlpha | hUnderscore
      · simp [isIdentifierChar, Char.isAlphanum, hAlpha]
      · simp [isIdentifierChar, hUnderscore]
    · exact h.2 c hc

/-- A character of an identifier is none of those that may not stand in one. -/
theorem ne_of_isIdentifierChar {d : Char} (h : isIdentifierChar c = true) (hd : isIdentifierChar d = false) :
    c ≠ d := by
  rintro rfl
  exact Bool.false_ne_true (hd.symm.trans h)

/-- Such a character does not stand in an identifier. -/
theorem ne_of_mem_identifier {d : Char} (h : isIdentifier s = true) (hd : isIdentifierChar d = false) :
    ∀ c ∈ s, c ≠ d := fun _ hc => ne_of_isIdentifierChar (isIdentifierChar_of_mem h hc) hd

theorem isWordChar_of_isIdentifierChar (h : isIdentifierChar c = true) : isWordChar c = true := by
  simp only [isIdentifierChar, Bool.or_eq_true] at h
  rcases h with h | h <;> simp [isWordChar, h]

theorem toNat_lt_of_isIdentifierChar (h : isIdentifierChar c = true) : c.toNat < asciiEnd := by
  simp only [isIdentifierChar, Char.isAlphanum, Bool.or_eq_true, beq_iff_eq, isAlpha_iff, isUpper_iff,
    isLower_iff, isDigit_iff] at h
  show c.toNat < 128
  rcases h with ((h | h) | h) | rfl
  · omega
  · omega
  · omega
  · decide

/-- Every character of an identifier may stand in a word. -/
theorem isWordChar_of_isIdentifier (h : isIdentifier s = true) : ∀ c ∈ s, isWordChar c = true :=
  fun _ hc => isWordChar_of_isIdentifierChar (isIdentifierChar_of_mem h hc)

/-- No blank stands in an identifier. -/
theorem isBlank_of_isIdentifier (h : isIdentifier s = true) : ∀ c ∈ s, isBlank c = false :=
  fun c hc => isBlank_of_isWordChar (isWordChar_of_isIdentifier h c hc)

/-- What stands for a word without regard to case is that word, if it is ASCII. -/
theorem sameAscii_of_forall₂ {word : List Char} (hWord : ∀ l ∈ word, l.toLower.isAlpha = true)
    (hs : ∀ c ∈ s, c.toNat < asciiEnd) (h : List.Forall₂ (fun l c => sameLetter l c = true) word s) :
    sameAscii word s = true := by
  rw [sameAscii, beq_iff_eq]
  induction h with
  | nil => rfl
  | @cons l c word s hc _ ih =>
    have hLower := (isAlpha_of_sameLetter (hWord l List.mem_cons_self) hc (hs c List.mem_cons_self)).2
    rw [List.map_cons, List.map_cons, ih (fun m hm => hWord m (List.mem_cons_of_mem l hm))
      fun d hd => hs d (List.mem_cons_of_mem c hd)]
    exact congrArg (· :: _) hLower.symm

/-- Upper case leaves an ASCII identifier without lower-case letters as it is. -/
theorem upper_of_isIdentifier (h : isIdentifier s = true) (hUpper : ∀ c ∈ s, c.isLower = false) :
    upper s = s := by
  have hChar : ∀ c ∈ s, upperChar c = [c] := by
    intro c hc
    have hAscii : c.toNat < 128 := toNat_lt_of_isIdentifierChar (isIdentifierChar_of_mem h hc)
    have hSame : c.toUpper = c := dif_neg fun hLower =>
      Bool.false_ne_true ((hUpper c hc).symm.trans (isLower_iff.2 hLower))
    simp only [upperChar, if_pos hAscii, hSame]
  clear h hUpper
  induction s with
  | nil => rfl
  | cons c s ih =>
    rw [upper, List.flatMap_cons, hChar c List.mem_cons_self]
    exact congrArg (c :: ·) (ih fun d hd => hChar d (List.mem_cons_of_mem c hd))

/-! ## Decimal integers -/

theorem ne_nil_of_isDecimal (h : isDecimal s = true) : s ≠ [] := by
  rintro rfl
  exact Bool.false_ne_true h

theorem isDecimalChar_of_mem (h : isDecimal s = true) (hc : c ∈ s) : isDecimalChar c = true := by
  cases s with
  | nil => exact absurd hc List.not_mem_nil
  | cons d r =>
    simp only [isDecimal, Bool.and_eq_true, Bool.or_eq_true, List.all_eq_true] at h
    rcases List.mem_cons.1 hc with rfl | hc
    · rcases h.1 with hDigit | ⟨hSign, -⟩
      · simp [isDecimalChar, hDigit]
      · rcases hSign with hSign | hSign <;> simp [isDecimalChar, hSign]
    · simp [isDecimalChar, h.2 c hc]

/-- A character of a number is none of those that may not stand in one. -/
theorem ne_of_isDecimalChar {d : Char} (h : isDecimalChar c = true) (hd : isDecimalChar d = false) :
    c ≠ d := by
  rintro rfl
  exact Bool.false_ne_true (hd.symm.trans h)

theorem isAlpha_of_isDecimalChar (h : isDecimalChar c = true) : c.isAlpha = false ∧ c.toNat < asciiEnd := by
  simp only [isDecimalChar, Bool.or_eq_true, beq_iff_eq] at h
  rcases h with (h | rfl) | rfl
  · have hDigit := isDigit_iff.1 h
    refine ⟨?_, Nat.lt_of_le_of_lt hDigit.2 (by decide)⟩
    -- digits come before all letters
    rw [← Bool.not_eq_true, isAlpha_iff, isUpper_iff, isLower_iff]
    omega
  · decide
  · decide

/-- No character of a number stands for a letter. -/
theorem sameLetter_of_isDecimalChar {l : Char} (hl : l.toLower.isAlpha = true) (h : isDecimalChar c = true) :
    sameLetter l c = false := by
  obtain ⟨hAlpha, hAscii⟩ := isAlpha_of_isDecimalChar h
  rw [← Bool.not_eq_true]
  intro hlc
  rw [(isAlpha_of_sameLetter hl hlc hAscii).1] at hAlpha
  exact Bool.false_ne_true hAlpha.symm

theorem isBlank_of_isDecimalChar (h : isDecimalChar c = true) : isBlank c = false := by
  simp only [isDecimalChar, Bool.or_eq_true, beq_iff_eq] at h
  rcases h with (h | rfl) | rfl
  · exact isBlank_of_isWordChar (by simp [isWordChar, Char.isAlphanum, h])
  · decide
  · decide

end SqlSurvey.Text
