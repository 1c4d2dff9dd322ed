import SqlSurvey.TypeScript.Escape
import SqlSurvey.Proofs.Text.Basic
import Mathlib.Data.Nat.Digits.Defs

/-!
# Ways of writing a string

Each character of a text may be written between quotes in several ways, and lines may be broken between characters.
`Writes` says which. Whatever way is chosen, what is written stands for the text: one lemma says where the scanner
ends an escape, one what the escape stands for, and the rest is induction on the way of writing.
-/

namespace SqlSurvey.TypeScript

namespace Escape

/-! ## Numbers in base sixteen -/

/-- A digit in base sixteen for a value, with a letter of either case. -/
def IsHexDigit (v : Nat) (d : Char) : Prop :=
  "0123456789abcdef".toList[v]? = some d ∨ "0123456789ABCDEF".toList[v]? = some d

/-- A number in base sixteen for the code of a character, perhaps with zeros in front. -/
def IsHexNumber (c : Char) (ds : List Char) : Prop :=
  ∃ vs, List.Forall₂ IsHexDigit vs ds ∧ Nat.ofDigits 16 vs.reverse = c.toNat

/-! ## Ways of writing -/

/-- The ends of lines. -/
def lineEnds : List (List Char) := [['\n'], ['\x0d'], ['\x0d', '\n'], ['\u2028'], ['\u2029']]

/-- The letters that stand for control characters, with these. -/
def controls : List (Char × Char) := "ntrbfv".toList.zip "\n\t\x0d\x08\x0c\x0b".toList

/-- The characters with a meaning of their own behind a backslash, the ends of lines apart. -/
def meaningful : List Char := "ntrbfvxu01234567".toList

/-- What may stand behind a backslash for a text of one character or none. -/
inductive StandsFor : List Char → List Char → Prop
  | letter {l c : Char} (h : (l, c) ∈ controls) : StandsFor [l] [c]
  | zero : StandsFor ['0'] ['\x00']
  /-- A character that has no meaning of its own. -/
  | same {c : Char} (hMeaning : c ∉ meaningful) (hLine : [c] ∉ lineEnds) : StandsFor [c] [c]
  | twoDigits {c : Char} {ds : List Char} (h : IsHexNumber c ds) (hLength : ds.length = 2) :
      StandsFor ('x' :: ds) [c]
  | fourDigits {c : Char} {ds : List Char} (h : IsHexNumber c ds) (hLength : ds.length = 4) :
      StandsFor ('u' :: ds) [c]
  /-- As many digits as there may be, in braces. -/
  | braces {c : Char} {ds : List Char} (h : IsHexNumber c ds) (hNonempty : ds ≠ []) :
      StandsFor ('u' :: '\x7b' :: (ds ++ ['\x7d'])) [c]
  /-- A line that is broken and goes on. -/
  | lineEnd {e : List Char} (h : e ∈ lineEnds) : StandsFor e []

/-- The ways of writing a text between quotes: the text as it is written, and the text. -/
inductive Writes (q : Char) : List Char → List Char → Prop
  | done : Writes q [] []
  /-- A character as itself. -/
  | itself {c : Char} {w t : List Char} (hQuote : c ≠ q) (hBackslash : c ≠ '\\') (hLine : [c] ∉ lineEnds)
      (tail : Writes q w t) : Writes q (c :: w) (c :: t)
  /-- An escape; a zero stands for a character only if no digit follows. -/
  | escape {e s w t : List Char} (h : StandsFor e s) (hZero : e = ['0'] → ∀ d ∈ w.head?, d.isDigit = false)
      (tail : Writes q w t) : Writes q ('\\' :: (e ++ w)) (s ++ t)

variable {q c d : Char} {s t e w rest ds : List Char} {v : Nat} {vs : List Nat}

/-! ## Reading numbers -/

theorem digitValue?_of_isHexDigit (h : IsHexDigit v d) : Text.digitValue? 16 d = some v := by
  have hAll : ∀ v < 16, ∀ digits ∈ ["0123456789abcdef".toList, "0123456789ABCDEF".toList],
      digits[v]?.bind (Text.digitValue? 16) = some v := by decide
  rcases h with h | h
  · have hValue := hAll v (List.getElem?_eq_some_iff.1 h).1 _ List.mem_cons_self
    rwa [h, Option.bind_some] at hValue
  · have hValue := hAll v (List.getElem?_eq_some_iff.1 h).1 _ (List.mem_cons_of_mem _ List.mem_cons_self)
    rwa [h, Option.bind_some] at hValue

theorem foldlM_digitValue? (h : List.Forall₂ IsHexDigit vs ds) (n : Nat) :
    ds.foldlM (fun n c => (Text.digitValue? 16 c).map fun v => n * 16 + v) n =
      some (vs.foldl (fun n v => n * 16 + v) n) := by
  induction h generalizing n with
  | nil => rfl
  | cons hFirst _ ih => simp [digitValue?_of_isHexDigit hFirst, ih]

namespace IsHexNumber

theorem isSome_digitValue? (h : IsHexNumber c ds) : ∀ d ∈ ds, (Text.digitValue? 16 d).isSome = true := by
  obtain ⟨vs, hDigits, -⟩ := h
  induction hDigits with
  | nil => exact List.forall_mem_nil _
  | cons hFirst _ ih =>
    exact List.forall_mem_cons.2 ⟨by rw [digitValue?_of_isHexDigit hFirst, Option.isSome_some], ih⟩

/-- A mark is no digit. -/
theorem ne_of_mem (h : IsHexNumber c ds) (hMark : Text.digitValue? 16 q = none) : ∀ d ∈ ds, d ≠ q := by
  rintro d hd rfl
  have hSome := h.isSome_digitValue? d hd
  rw [hMark] at hSome
  exact Bool.false_ne_true hSome

theorem digitsValue? (h : IsHexNumber c ds) : Text.digitsValue? 16 ds = some c.toNat := by
  obtain ⟨vs, hDigits, hValue⟩ := h
  rw [Text.digitsValue?, foldlM_digitValue? hDigits, ← hValue, Nat.ofDigits_eq_foldr, List.foldr_reverse]
  simp [Nat.mul_comm, Nat.add_comm]

/-- A number is read as the character that it is the code of. -/
theorem codePoint? (h : IsHexNumber c ds) (hNonempty : ds ≠ []) : Text.codePoint? ds = some c := by
  have hPlus : ds.head? ≠ some '+' := fun hHead =>
    h.ne_of_mem (q := '+') (by decide) '+' (List.mem_of_mem_head? hHead) rfl
  have hValid : Text.isCodePoint c.toNat = true := decide_eq_true c.valid
  simp [Text.codePoint?, Text.numberValue?, hPlus, hNonempty, h.digitsValue?, hValid]

end IsHexNumber

/-! ## What an escape stands for -/

theorem mem_lineEnds_iff : [c] ∈ lineEnds ↔ Lexeme.isLineEnd c = true := by
  simp [lineEnds, Lexeme.isLineEnd, or_assoc]

/-- Braces around digits are taken off. -/
theorem withoutBraces_digits {l r : List Char} (hl : ∀ c ∈ l, c = '\x7b') (hr : ∀ c ∈ r, c = '\x7d')
    (h : IsHexNumber c ds) (hNonempty : ds ≠ []) : withoutBraces (l ++ ds ++ r) = ds := by
  have hOpen : ∀ s, (ds ++ s).dropWhile (fun c => c == '\x7b') = ds ++ s := by
    obtain ⟨d, ds, rfl⟩ := List.exists_cons_of_ne_nil hNonempty
    intro s
    rw [List.cons_append, List.dropWhile_cons_of_neg]
    simpa using h.ne_of_mem (q := '\x7b') (by decide) d List.mem_cons_self
  have hClose : ds.reverse.dropWhile (fun c => c == '\x7d') = ds.reverse := by
    obtain ⟨d, es, hes⟩ := List.exists_cons_of_ne_nil (List.reverse_ne_nil_iff.2 hNonempty)
    have hd : d ∈ ds := List.mem_reverse.1 (hes ▸ List.mem_cons_self)
    rw [hes, List.dropWhile_cons_of_neg]
    simpa using h.ne_of_mem (q := '\x7d') (by decide) d hd
  rw [withoutBraces, List.append_assoc, List.dropWhile_append_of_pos (by simpa using hl), hOpen,
    List.reverse_append, List.dropWhile_append_of_pos (by simpa using hr), hClose, List.reverse_reverse]

/-- An escape for a number stands for the character that the number is the code of. -/
theorem numbered_of_isHexNumber (h : IsHexNumber c ds) (hNonempty : ds ≠ []) (written : List Char) :
    numbered ds written = [c] := by
  rw [numbered, h.codePoint? hNonempty]

theorem value_same (hMeaning : c ∉ meaningful) (hLine : [c] ∉ lineEnds) : value [c] = [c] := by
  have hNot : ∀ d ∈ meaningful, c ≠ d := fun d hd h => hMeaning (h ▸ hd)
  have hLetter : (letters.find? fun l => l.1 == c) = none := by
    rw [List.find?_eq_none]
    intro l hl
    have hMem : ∀ l ∈ letters, l.1 ∈ meaningful := by decide
    simpa using (hNot l.1 (hMem l hl)).symm
  rw [mem_lineEnds_iff, Bool.not_eq_true] at hLine
  simp [value, hLine, hNot '0' (by decide), hNot 'x' (by decide), hNot 'u' (by decide), hLetter]

/-- What an escape is read as is what it stands for. -/
theorem value_of_standsFor (h : StandsFor e s) : value e = s := by
  cases h with
  | @letter l c h =>
    have hAll : ∀ p ∈ controls, value [p.1] = [p.2] := by decide
    exact hAll (l, c) h
  | zero => rfl
  | same hMeaning hLine => exact value_same hMeaning hLine
  | @twoDigits c ds h hLength =>
    have hNonempty : ds ≠ [] := by rintro rfl; cases hLength
    exact numbered_of_isHexNumber h hNonempty _
  | @fourDigits c ds h hLength =>
    have hNonempty : ds ≠ [] := by rintro rfl; cases hLength
    have hBare := withoutBraces_digits (l := []) (r := []) (by simp) (by simp) h hNonempty
    rw [List.nil_append, List.append_nil] at hBare
    have hValue : value ('u' :: ds) = numbered (withoutBraces ds) ('\\' :: 'u' :: ds) := rfl
    rw [hValue, hBare, numbered_of_isHexNumber h hNonempty]
  | @braces c ds h hNonempty =>
    have hBare := withoutBraces_digits (l := ['\x7b']) (r := ['\x7d']) (by simp) (by simp) h hNonempty
    have hValue : value ('u' :: '\x7b' :: (ds ++ ['\x7d'])) =
        numbered (withoutBraces (['\x7b'] ++ ds ++ ['\x7d'])) ('\\' :: 'u' :: '\x7b' :: (ds ++ ['\x7d'])) := rfl
    rw [hValue, hBare, numbered_of_isHexNumber h hNonempty]
  | lineEnd h =>
    have hAll : ∀ e ∈ lineEnds, value e = [] := by decide
    exact hAll e h

/-! ## Where an escape ends -/

theorem mem_octal_of_isOctal (h : Lexeme.isOctal c = true) : c ∈ "01234567".toList := by
  obtain ⟨v, hv⟩ := Option.isSome_iff_exists.1 h
  rw [Text.digitValue?, Option.filter_eq_some_iff, decide_eq_true_eq] at hv
  obtain ⟨hValue, hLt⟩ := hv
  split_ifs at hValue with hDigit
  · -- a decimal digit below eight
    have hCode := Text.isDigit_iff.1 hDigit
    obtain rfl := Option.some.inj hValue
    have hAll : ∀ n ∈ List.range' 48 8, Char.ofNat n ∈ "01234567".toList := by decide
    have hZero : '0'.toNat = 48 := rfl
    rw [← Char.ofNat_toNat c]
    exact hAll c.toNat (List.mem_range'_1.2 ⟨hCode.1, by omega⟩)
  all_goals
    -- letters are digits from ten on
    obtain rfl := Option.some.inj hValue
    omega

theorem isOctal_eq_false (h : ∀ d ∈ "01234567".toList, c ≠ d) : Lexeme.isOctal c = false := by
  rw [← Bool.not_eq_true]
  exact fun hOctal => h c (mem_octal_of_isOctal hOctal) rfl

/-- A character that begins neither a number nor a line end of two characters is an escape of its own. -/
theorem escape_single (hOctal : Lexeme.isOctal c = false) (hx : c ≠ 'x') (hu : c ≠ 'u')
    (hNext : ∀ d ∈ rest.head?, [d] ∉ lineEnds) : Lexeme.escape ('\\' :: c :: rest) = some 2 := by
  have hStays : (rest.head?.any fun d => d == '\n' || d == '\u2028' || d == '\u2029') = false := by
    cases hHead : rest.head? with
    | none => rfl
    | some d =>
      have hd := hNext d hHead
      simp only [lineEnds] at hd
      simp_all
  simp [Lexeme.escape, hOctal, hx, hu, hStays]

/-- The digits of a number at the head of a text are found. -/
theorem length_le_takeWhile_digits (h : IsHexNumber c ds) (rest : List Char) :
    ds.length ≤ ((ds ++ rest).takeWhile fun d => (Text.digitValue? 16 d).isSome).length := by
  rw [List.takeWhile_append_of_pos h.isSome_digitValue?, List.length_append]
  exact Nat.le_add_right _ _

/-- The scanner takes a backslash with all that it makes an escape of, and no more. -/
theorem escape_of_standsFor (h : StandsFor e s) (hZero : e = ['0'] → ∀ d ∈ rest.head?, d.isDigit = false)
    (hNext : ∀ d ∈ rest.head?, [d] ∉ lineEnds) :
    Lexeme.escape ('\\' :: (e ++ rest)) = some (e.length + 1) := by
  cases h with
  | @letter l c h =>
    have hAll : ∀ p ∈ controls, Lexeme.isOctal p.1 = false ∧ p.1 ≠ 'x' ∧ p.1 ≠ 'u' := by decide
    obtain ⟨hOctal, hx, hu⟩ := hAll (l, c) h
    exact escape_single hOctal hx hu hNext
  | zero =>
    have hNone : (rest.take 2).takeWhile Lexeme.isOctal = [] := by
      cases rest with
      | nil => rfl
      | cons d r =>
        have hDigit : d.isDigit = false := hZero rfl d rfl
        have hOctal : Lexeme.isOctal d = false := isOctal_eq_false fun o ho hd => by
          have hAll : ∀ o ∈ "01234567".toList, o.isDigit = true := by decide
          rw [hd, hAll o ho] at hDigit
          exact Bool.noConfusion hDigit
        rw [List.take_succ_cons, List.takeWhile_cons_of_neg (by simp [hOctal])]
    have hZeroOctal : Lexeme.isOctal '0' = true := by decide
    simp [Lexeme.escape, hZeroOctal, hNone]
  | @same c hMeaning hLine =>
    have hNot : ∀ d ∈ meaningful, c ≠ d := fun d hd h => hMeaning (h ▸ hd)
    have hSubset : "01234567".toList ⊆ meaningful := by decide
    exact escape_single (isOctal_eq_false fun d hd => hNot d (hSubset hd)) (hNot 'x' (by decide))
      (hNot 'u' (by decide)) hNext
  | @twoDigits c ds h hLength =>
    have hDigits := length_le_takeWhile_digits h rest
    have hOctal : Lexeme.isOctal 'x' = false := by decide
    rw [hLength] at hDigits
    simp [Lexeme.escape, hOctal, hDigits, hLength]
  | @fourDigits c ds h hLength =>
    have hDigits := length_le_takeWhile_digits h rest
    have hOctal : Lexeme.isOctal 'u' = false := by decide
    rw [hLength] at hDigits
    obtain ⟨d, ds, rfl⟩ : ∃ d es, ds = d :: es := List.exists_cons_of_length_eq_add_one hLength
    have hBrace : d ≠ '\x7b' := h.ne_of_mem (by decide) d List.mem_cons_self
    rw [List.cons_append] at hDigits
    simp [Lexeme.escape, hOctal, hDigits, hLength, hBrace]
  | @braces c ds h hNonempty =>
    have hOctal : Lexeme.isOctal 'u' = false := by decide
    have hTake : (ds ++ '\x7d' :: rest).takeWhile (fun d => (Text.digitValue? 16 d).isSome) = ds := by
      rw [List.takeWhile_append_of_pos h.isSome_digitValue?, List.takeWhile_cons_of_neg (by decide), List.append_nil]
    simp [Lexeme.escape, hOctal, hTake, hNonempty]
  | lineEnd h =>
    simp only [lineEnds, List.mem_cons, List.not_mem_nil, or_false] at h
    rcases h with rfl | rfl | rfl | rfl | rfl
    · exact escape_single (by decide) (by decide) (by decide) hNext
    · exact escape_single (by decide) (by decide) (by decide) hNext
    · have hOctal : Lexeme.isOctal '\x0d' = false := by decide
      simp [Lexeme.escape, hOctal]
    · exact escape_single (by decide) (by decide) (by decide) hNext
    · exact escape_single (by decide) (by decide) (by decide) hNext

/-! ## Decoding -/

theorem decode_nil : decode [] = [] := by rw [decode]

theorem decode_cons_of_ne (h : c ≠ '\\') (rest : List Char) : decode (c :: rest) = c :: decode rest := by
  have hNone : Lexeme.escape (c :: rest) = none := by
    unfold Lexeme.escape
    split
    · rename_i hText
      exact absurd (List.cons.inj hText).1 h
    · rfl
  rw [decode, hNone]

theorem decode_escape (h : Lexeme.escape ('\\' :: (e ++ rest)) = some (e.length + 1)) :
    decode ('\\' :: (e ++ rest)) = value e ++ decode rest := by
  rw [decode, h]
  simp

namespace Writes

/-- What is written between quotes does not begin with the end of a line. -/
theorem head_not_lineEnd (h : Writes q w t) : ∀ d ∈ w.head?, [d] ∉ lineEnds := by
  cases h with
  | done => simp
  | itself _ _ hLine _ => simpa using hLine
  | escape _ _ _ => simpa using (by decide : ['\\'] ∉ lineEnds)

/-- However a text is written between quotes, what is written stands for it. -/
theorem decode_eq (h : Writes q w t) : decode w = t := by
  induction h with
  | done => exact decode_nil
  | itself _ hBackslash _ _ ih => rw [decode_cons_of_ne hBackslash, ih]
  | escape h hZero hTail ih =>
    rw [decode_escape (escape_of_standsFor h hZero hTail.head_not_lineEnd), value_of_standsFor h, ih]

end Writes

end Escape

end SqlSurvey.TypeScript
