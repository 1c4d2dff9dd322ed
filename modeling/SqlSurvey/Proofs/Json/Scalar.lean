import SqlSurvey.Json.Reader
import Mathlib.Data.List.Basic

/-!
# Reading strings and numbers back

A string is read back from its escapes whatever the characters in it, and a number from its digits if it fits into 64
bits and the text after it does not go on with the number.
-/

namespace SqlSurvey.Json

variable {c : Char} {n : Nat} {s rest : List Char}

/-! ## Strings -/

theorem readString_escaped {d : Char} (hd : escaped? d = some c) (s : List Char) :
    readString ('\\' :: d :: s) = (readString s).map fun p => (c :: p.1, p.2) := by
  have hUnit : d ≠ 'u' := by
    rintro rfl
    cases hd
  rw [readString]
  · simp [hd]
  all_goals simp [hUnit]

/-- Four digits stand for a character that is no surrogate, also when another escape follows. -/
theorem readString_unit {a b d e : Char} (hUnit : unit? a b d e = some n) (hSingle : single? n = some c)
    (s : List Char) :
    readString ('\\' :: 'u' :: a :: b :: d :: e :: s) = (readString s).map fun p => (c :: p.1, p.2) := by
  by_cases hNext : ∃ f g h i r, s = '\\' :: 'u' :: f :: g :: h :: i :: r
  · obtain ⟨f, g, h, i, r, rfl⟩ := hNext
    rw [readString]
    simp [hUnit, hSingle]
  · rw [readString]
    · simp [hUnit, hSingle]
    · exact fun f g h i r hs => hNext ⟨f, g, h, i, r, hs⟩

theorem readString_plain (hQuote : c ≠ '"') (hBackslash : c ≠ '\\') (hc : ¬ c.toNat < 32) (s : List Char) :
    readString (c :: s) = (readString s).map fun p => (c :: p.1, p.2) := by
  rw [readString]
  · simp [hc]
  all_goals simp [hQuote, hBackslash]

theorem unit?_hexDigit : ∀ m < 32, unit? '0' '0' (hexDigit (m / 16)) (hexDigit (m % 16)) = some m := by decide

/-- A character is read back from its text in a string. -/
theorem readString_escapeChar (c : Char) (s : List Char) :
    readString (escapeChar c ++ s) = (readString s).map fun p => (c :: p.1, p.2) := by
  have hShort : ∀ {c d : Char}, escaped? d = some c →
      readString (['\\', d] ++ s) = (readString s).map fun p => (c :: p.1, p.2) := fun hd => readString_escaped hd s
  unfold escapeChar
  split
  · subst c; exact hShort rfl
  split
  · subst c; exact hShort rfl
  split
  · subst c; exact hShort rfl
  split
  · subst c; exact hShort rfl
  split
  · subst c; exact hShort rfl
  split
  · subst c; exact hShort rfl
  split
  · subst c; exact hShort rfl
  split
  · next hControl =>
    have hSingle : single? c.toNat = some c := by rw [single?, if_pos (.inl (by omega)), Char.ofNat_toNat]
    exact readString_unit (unit?_hexDigit c.toNat hControl) hSingle s
  · next hQuote hBackslash _ _ _ _ _ hControl => exact readString_plain hQuote hBackslash hControl s

theorem readString_flatMap (s rest : List Char) :
    readString (s.flatMap escapeChar ++ '"' :: rest) = some (s, rest) := by
  induction s with
  | nil => rfl
  | cons c s ih =>
    rw [List.flatMap_cons, List.append_assoc, readString_escapeChar, ih]
    rfl

/-! ## Numbers -/

/-- The text does not go on with a number that stands before it. -/
def EndsNumber (rest : List Char) : Prop :=
  ∀ c ∈ rest.head?, c.isDigit = false ∧ c ≠ '.' ∧ c ≠ 'e' ∧ c ≠ 'E'

theorem isDigit_of_mem_decimal (h : c ∈ decimal n) : c.isDigit = true :=
  Nat.isDigit_of_mem_toDigits (by decide) (by decide) h

theorem decimal_ne_nil (n : Nat) : decimal n ≠ [] := Nat.toDigits_ne_nil

theorem decimalValue_decimal (n : Nat) : decimalValue (decimal n) = n := by
  have hSame : ∀ (ds : List Char) (m : Nat), ds.foldl (fun n c => n * 10 + (c.toNat - '0'.toNat)) m =
      Nat.ofDigitChars 10 ds m := by
    intro ds m
    rw [Nat.ofDigitChars]
    simp only [Nat.mul_comm]
  rw [decimalValue, hSame]
  exact Nat.ofDigitChars_ten_toDigits

/-- Only zero begins with a zero. -/
theorem eq_zero_of_head?_decimal (h : (decimal n).head? = some '0') : n = 0 := by
  induction n using Nat.strongRecOn with
  | ind n ih =>
    by_cases hn : n < 10
    · have hAll : ∀ m < 10, Nat.digitChar m = '0' → m = 0 := by decide
      rw [decimal, Nat.toDigits_of_lt_base hn] at h
      exact hAll n hn (by simpa using h)
    · -- the first digit is that of the tenth part
      have hTenth : (decimal (n / 10)).head? = some '0' := by
        rw [decimal, Nat.toDigits_of_base_le (by decide) (by omega),
          List.head?_append_of_ne_nil _ Nat.toDigits_ne_nil] at h
        exact h
      have := ih (n / 10) (by omega) hTenth
      omega

theorem wholeDigits?_decimal_append (n : Nat) (h : EndsNumber rest) :
    wholeDigits? (decimal n ++ rest) = some (decimal n, rest) := by
  have hDigits : ∀ c ∈ decimal n, c.isDigit = true := fun c hc => isDigit_of_mem_decimal hc
  have hRest : rest.takeWhile Char.isDigit = [] ∧ rest.dropWhile Char.isDigit = rest := by
    cases rest with
    | nil => exact ⟨rfl, rfl⟩
    | cons c rest => simp [(h c rfl).1]
  have hTake : (decimal n ++ rest).takeWhile Char.isDigit = decimal n := by
    rw [List.takeWhile_append_of_pos hDigits, hRest.1, List.append_nil]
  have hDrop : (decimal n ++ rest).dropWhile Char.isDigit = rest := by
    rw [List.dropWhile_append_of_pos hDigits, hRest.2]
  have hRead : digits? (decimal n ++ rest) = some (decimal n, rest) := by
    rw [digits?, hTake, hDrop, if_neg (by simpa using decimal_ne_nil n)]
  have hZero : ¬((decimal n).head? = some '0' ∧ (decimal n).length ≠ 1) := by
    rintro ⟨hHead, hLength⟩
    rw [eq_zero_of_head?_decimal hHead] at hLength
    exact hLength (by decide)
  rw [wholeDigits?, hRead, Option.bind_some, if_neg hZero]

theorem readNumber_decimal_append (hn : n < naturalEnd) (h : EndsNumber rest) :
    readNumber (decimal n ++ rest) = some (natural n, rest) := by
  have hSign : (decimal n ++ rest).takeWhile (· == '-') = [] := by
    obtain ⟨d, ds, hDecimal⟩ := List.exists_cons_of_ne_nil (decimal_ne_nil n)
    have hd : d.isDigit = true := isDigit_of_mem_decimal (n := n) (by simp [hDecimal])
    have hMinus : d ≠ '-' := by
      rintro rfl
      exact absurd hd (by decide)
    rw [hDecimal, List.cons_append, List.takeWhile_cons_of_neg (by simpa using hMinus)]
  have hFraction : fraction? rest = some ([], rest) := by
    unfold fraction?
    split
    · exact absurd rfl (h '.' rfl).2.1
    · rfl
  have hExponent : exponent? rest = some ([], rest) := by
    unfold exponent?
    split
    · rfl
    · next c r =>
      rw [if_neg]
      rintro (rfl | rfl)
      · exact (h 'e' rfl).2.2.1 rfl
      · exact (h 'E' rfl).2.2.2 rfl
  simp only [readNumber, hSign, List.length_nil, List.drop_zero, wholeDigits?_decimal_append n h]
  simp [hFraction, hExponent, decimalValue_decimal, hn]

end SqlSurvey.Json
