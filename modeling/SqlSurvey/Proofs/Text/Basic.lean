import SqlSurvey.Text.Blank
import SqlSurvey.Text.Word
import Mathlib.Data.List.Basic
import Mathlib.Data.List.Induction
import Mathlib.Data.List.TakeWhile

/-!
# Trimmed texts and classes of characters

What trimming takes away and what it leaves, and how the classes of characters lie to one another:
blanks are no word characters, and what stands for a letter is one.
-/

namespace SqlSurvey.Text

/-- What holds of all characters of a text is decided along the text, not by going through all characters that
there are. -/
instance (priority := high) decidableForallMem (s : List Char) (p : Char → Prop) [DecidablePred p] :
    Decidable (∀ c, c ∈ s → p c) := List.decidableBAll p s

instance (priority := high) decidableForallMemOption (o : Option Char) (p : Char → Prop) [DecidablePred p] :
    Decidable (∀ c, c ∈ o → p c) := Option.decidableForallMem o

/-! ## Trimming -/

theorem trim_cons_of_isBlank {c : Char} (h : isBlank c = true) (s : List Char) : trim (c :: s) = trim s := by
  simp [trim, trimStart, h]

theorem trim_append_singleton_of_isBlank {c : Char} (h : isBlank c = true) (s : List Char) :
    trim (s ++ [c]) = trim s := by
  unfold trim trimStart
  rw [List.dropWhile_append]
  by_cases hs : (s.dropWhile isBlank).isEmpty = true
  · rw [if_pos hs, List.isEmpty_iff.1 hs]
    simp [h]
  · rw [if_neg hs]
    simp [trimEnd, h]

/-- Blanks at the two ends make no difference. -/
theorem trim_append_blanks {l r : List Char} (hl : ∀ c ∈ l, isBlank c = true)
    (hr : ∀ c ∈ r, isBlank c = true) (s : List Char) : trim (l ++ s ++ r) = trim s := by
  induction l with
  | cons c l ih =>
    rw [List.cons_append, List.cons_append, trim_cons_of_isBlank (hl c List.mem_cons_self),
      ih fun d hd => hl d (List.mem_cons_of_mem c hd)]
  | nil =>
    rw [List.nil_append]
    induction r using List.reverseRecOn with
    | nil => rw [List.append_nil]
    | append_singleton r c ih =>
      rw [← List.append_assoc, trim_append_singleton_of_isBlank (hr c (by simp)),
        ih fun d hd => hr d (List.mem_append_left [c] hd)]

/-- Only blanks are trimmed. -/
theorem exists_eq_append_trim (s : List Char) :
    ∃ l r, s = l ++ trim s ++ r ∧ (∀ c ∈ l, isBlank c = true) ∧ ∀ c ∈ r, isBlank c = true := by
  refine ⟨s.takeWhile isBlank, ((trimStart s).reverse.takeWhile isBlank).reverse, ?_, ?_, ?_⟩
  · have hEnd : trim s ++ ((trimStart s).reverse.takeWhile isBlank).reverse = trimStart s := by
      rw [trim, trimEnd, ← List.reverse_append, List.takeWhile_append_dropWhile, List.reverse_reverse]
    rw [List.append_assoc, hEnd, trimStart, List.takeWhile_append_dropWhile]
  · exact fun c hc => List.mem_takeWhile_imp hc
  · exact fun c hc => List.mem_takeWhile_imp (List.mem_reverse.1 hc)

/-- A text that neither begins nor ends with a blank is trimmed already. -/
theorem trim_eq_self {s : List Char} (hHead : ∀ c ∈ s.head?, isBlank c = false)
    (hLast : ∀ c ∈ s.getLast?, isBlank c = false) : trim s = s := by
  have hStart : trimStart s = s := by
    cases s with
    | nil => rfl
    | cons c s => simp [trimStart, hHead c rfl]
  rw [trim, hStart, trimEnd]
  cases hs : s.reverse with
  | nil => simpa using hs.symm
  | cons c r =>
    have hc : c ∈ s.getLast? := by rw [List.getLast?_eq_head?_reverse, hs]; rfl
    rw [List.dropWhile_cons_of_neg (by simp [hLast c hc]), ← hs, List.reverse_reverse]

/-- A text without blanks is trimmed already. -/
theorem trim_of_forall {s : List Char} (h : ∀ c ∈ s, isBlank c = false) : trim s = s :=
  trim_eq_self (fun c hc => h c (List.mem_of_mem_head? hc)) fun c hc => h c (List.mem_of_getLast? hc)

theorem isBlank_head_trim {s : List Char} {c : Char} (h : c ∈ (trim s).head?) : isBlank c = false := by
  -- the first character was not dropped, and it is the first after trimming the end as well
  have hPrefix : trim s <+: trimStart s := by
    rw [trim, trimEnd]
    exact (List.reverse_prefix.2 (List.dropWhile_suffix _)).trans (by simp)
  obtain ⟨t, ht⟩ := hPrefix
  have hHead : (trimStart s).head? = some c := by rw [← ht, List.head?_append, h]; rfl
  have := List.head?_dropWhile_not isBlank s
  rw [trimStart] at hHead
  rw [hHead] at this
  simpa using this

theorem trim_cons_ne_nil {c : Char} (h : isBlank c = false) (s : List Char) : trim (c :: s) ≠ [] := by
  intro hNil
  rw [trim, trimStart, List.dropWhile_cons_of_neg (by simp [h]), trimEnd, List.reverse_eq_nil_iff,
    List.dropWhile_eq_nil_iff] at hNil
  have := hNil c (by simp)
  rw [h] at this
  exact Bool.false_ne_true this

/-- A text ends as its last part does. -/
theorem isBlank_getLast_append {a b : List Char} (ha : ∀ c ∈ a.getLast?, isBlank c = false)
    (hb : ∀ c ∈ b.getLast?, isBlank c = false) : ∀ c ∈ (a ++ b).getLast?, isBlank c = false := by
  intro c hc
  rw [List.getLast?_append] at hc
  cases hLast : b.getLast? with
  | none => exact ha c (by simpa [hLast] using hc)
  | some d => exact hb c (by simpa [hLast] using hc)

/-! ## Classes -/

/-- No blank may stand in a word. -/
theorem isWordChar_of_isBlank {c : Char} (h : isBlank c = true) : isWordChar c = false := by
  -- there are so few blanks that the table of letters can be asked about each
  have hAll : ∀ r ∈ blankRanges, ∀ n ∈ List.range' r.1 (r.2 + 1 - r.1),
      isWordChar (Char.ofNat n) = false := by decide +kernel
  simp only [isBlank, inRanges, List.any_eq_true, Bool.and_eq_true, decide_eq_true_eq] at h
  obtain ⟨r, hr, hFirst, hLast⟩ := h
  have hc := hAll r hr c.toNat (by rw [List.mem_range'_1]; omega)
  rwa [Char.ofNat_toNat] at hc

theorem isBlank_of_isWordChar {c : Char} (h : isWordChar c = true) : isBlank c = false := by
  rw [← Bool.not_eq_true]
  intro hb
  rw [isWordChar_of_isBlank hb] at h
  exact Bool.false_ne_true h

/-- A text that begins with a word does not begin with a blank. -/
theorem isBlank_head_append {w : List Char} (hw : w ≠ []) (hWord : ∀ c ∈ w, isWordChar c = true)
    (s : List Char) : ∀ c ∈ (w ++ s).head?, isBlank c = false := by
  intro c hc
  rw [List.head?_append_of_ne_nil _ hw] at hc
  exact isBlank_of_isWordChar (hWord c (List.mem_of_mem_head? hc))

theorem isUpper_iff {c : Char} : c.isUpper = true ↔ 65 ≤ c.toNat ∧ c.toNat ≤ 90 := decide_eq_true_iff

theorem isLower_iff {c : Char} : c.isLower = true ↔ 97 ≤ c.toNat ∧ c.toNat ≤ 122 := by
  show (decide (97 ≤ c.val) && decide (c.val ≤ 122)) = true ↔ _
  rw [Bool.and_eq_true, decide_eq_true_iff, decide_eq_true_iff]
  exact Iff.rfl

theorem isDigit_iff {c : Char} : c.isDigit = true ↔ 48 ≤ c.toNat ∧ c.toNat ≤ 57 := by
  show (decide (48 ≤ c.val) && decide (c.val ≤ 57)) = true ↔ _
  rw [Bool.and_eq_true, decide_eq_true_iff, decide_eq_true_iff]
  exact Iff.rfl

theorem isAlpha_iff {c : Char} : c.isAlpha = true ↔ c.isUpper = true ∨ c.isLower = true :=
  Bool.or_eq_true_iff ..

theorem isAlpha_of_toLower {c : Char} (h : c.toLower.isAlpha = true) : c.isAlpha = true := by
  by_cases hc : c.isUpper = true
  · exact isAlpha_iff.2 (.inl hc)
  · -- only an upper-case letter is changed
    have hSame : c.toLower = c := dif_neg fun hUpper => hc (isUpper_iff.2 hUpper)
    rwa [hSame] at h

/-- What stands for a letter may stand in a word. -/
theorem isWordChar_of_sameLetter {l c : Char} (hl : l.toLower.isAlpha = true)
    (h : sameLetter l c = true) : isWordChar c = true := by
  simp only [sameLetter, lowerAscii, Bool.or_eq_true, Bool.and_eq_true, beq_iff_eq] at h
  rcases h with (h | ⟨-, rfl⟩) | ⟨-, rfl⟩
  · have hc : c.isAlpha = true := isAlpha_of_toLower (by rw [h, hl])
    simp [isWordChar, Char.isAlphanum, hc]
  · decide +kernel
  · decide +kernel

/-- A character that stands for a letter is a letter, or one of the two that case folding adds. -/
theorem isAlpha_of_sameLetter {l c : Char} (hl : l.toLower.isAlpha = true) (h : sameLetter l c = true)
    (hc : c.toNat < asciiEnd) : c.isAlpha = true ∧ c.toLower = l.toLower := by
  simp only [sameLetter, lowerAscii, Bool.or_eq_true, Bool.and_eq_true, beq_iff_eq] at h
  rcases h with (h | ⟨-, rfl⟩) | ⟨-, rfl⟩
  · exact ⟨isAlpha_of_toLower (by rw [h, hl]), h⟩
  · exact absurd hc (by decide)
  · exact absurd hc (by decide)

/-- A character stands for one letter only, whatever its case. -/
theorem lowerAscii_eq_of_sameLetter {l m c : Char} (hl : l.toLower.isAlpha = true) (hm : m.toLower.isAlpha = true)
    (h : sameLetter l c = true) (k : sameLetter m c = true) : lowerAscii l = lowerAscii m := by
  -- the two characters that case folding adds are no letters of their own
  have hAdded : ∀ {n : Char}, n.toLower.isAlpha = true → lowerAscii n ≠ '\u017f' ∧ lowerAscii n ≠ '\u212a' :=
    fun hn => ⟨fun he => by rw [lowerAscii] at he; rw [he] at hn; revert hn; decide,
      fun he => by rw [lowerAscii] at he; rw [he] at hn; revert hn; decide⟩
  have hLong : lowerAscii '\u017f' = '\u017f' := by decide
  have hKelvin : lowerAscii '\u212a' = '\u212a' := by decide
  simp only [sameLetter, Bool.or_eq_true, Bool.and_eq_true, beq_iff_eq] at h k
  rcases h with (h | ⟨h, rfl⟩) | ⟨h, rfl⟩ <;> rcases k with (k | ⟨k, hk⟩) | ⟨k, hk⟩
  · rw [← h, ← k]
  · exact absurd (by rw [← h, hk, hLong]) (hAdded hl).1
  · exact absurd (by rw [← h, hk, hKelvin]) (hAdded hl).2
  · exact absurd (by rw [← k, hLong]) (hAdded hm).1
  · rw [h, k]
  · exact absurd hk (by decide)
  · exact absurd (by rw [← k, hKelvin]) (hAdded hm).2
  · exact absurd hk (by decide)
  · rw [h, k]

end SqlSurvey.Text
