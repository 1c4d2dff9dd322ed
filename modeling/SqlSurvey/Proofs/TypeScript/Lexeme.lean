import SqlSurvey.Proofs.TypeScript.Covers

/-!
# Lexemes and what they cover

White space and comments between lexemes, and the small parts of strings and templates.
-/

namespace SqlSurvey.TypeScript

namespace Cursor

/-! ## White space and comments -/

theorem covers_skipTrivia (c : Cursor) : Covers .code c c.skipTrivia.1 c.skipTrivia.2 := by
  fun_induction skipTrivia c with
  | case1 c hRest => exact .done c
  | case2 c d r hRest hSpace ih => exact (Covers.space hRest hSpace).append ih
  | case3 c d r hRest hSpace hNone => exact .done c
  | case4 c d r hRest hSpace n hComment p ih => exact (Covers.comment hComment).append ih

/-- Where white space and comments have been passed over, there are no more. -/
theorem skipTrivia_skipTrivia (c : Cursor) : c.skipTrivia.2.skipTrivia = ([], c.skipTrivia.2) := by
  fun_induction skipTrivia c with
  | case1 c hRest =>
    rw [skipTrivia]
    split <;> simp_all
  | case2 c d r hRest hSpace ih => exact ih
  | case3 c d r hRest hSpace hNone =>
    rw [skipTrivia]
    split <;> simp_all
  | case4 c d r hRest hSpace n hComment p ih => exact ih

/-- A character that is neither white space nor a slash begins a lexeme. -/
theorem skipTrivia_of_head {c : Cursor} {d : Char} {r : List Char} (hRest : c.rest = d :: r)
    (hSpace : Lexeme.isSpace d = false) (hSlash : d ≠ '/') : c.skipTrivia = ([], c) := by
  have hNone : Lexeme.commentTail c.rest = none := by
    rw [hRest, Lexeme.commentTail]
    · intro r' h
      exact hSlash (List.cons.inj h).1
    · intro r' h
      exact hSlash (List.cons.inj h).1
  rw [skipTrivia]
  split <;> simp_all

theorem covers_lineComments {c d : Cursor} {ns : List Node} (h : c.lineComments = some (ns, d)) :
    Covers .code c ns d := by
  fun_induction lineComments c generalizing ns d with
  | case1 c hRest =>
    obtain ⟨rfl, rfl⟩ := Prod.mk.inj (Option.some.inj h)
    exact .done c
  | case2 c r hRest =>
    obtain ⟨rfl, rfl⟩ := Prod.mk.inj (Option.some.inj h)
    exact .done c
  | case3 c e r hRest hLine hSpace ih =>
    obtain ⟨p, hp, hEq⟩ := Option.map_eq_some_iff.1 h
    split at hEq
    · rename_i hEmpty
      obtain ⟨rfl, rfl⟩ := Prod.mk.inj hEq
      rw [List.isEmpty_iff.1 hEmpty]
      exact .done c
    · obtain rfl := hEq
      exact (Covers.space hRest hSpace).append (ih hp)
  | case4 c e r hRest hLine hSpace hNone => cases h
  | case5 c e r hRest hLine hSpace n hComment ih =>
    obtain ⟨p, hp, hEq⟩ := Option.map_eq_some_iff.1 h
    obtain ⟨rfl, rfl⟩ := Prod.mk.inj hEq
    exact (Covers.comment hComment).append (ih hp)

end Cursor

/-! ## Parts of strings -/

variable {q : Char} {s r : List Char} {n : Nat}

theorem quoteless_cons {c : Char} (hc : c ≠ '\\') (r : List Char) :
    quoteless q (c :: r) = (c != q && quoteless q r) := by
  rw [quoteless]
  rintro d t rfl -
  exact hc rfl

theorem quoteless_append (hs : ∀ c ∈ s, c ≠ '\\' ∧ c ≠ q) (r : List Char) :
    quoteless q (s ++ r) = quoteless q r := by
  induction s with
  | nil => rfl
  | cons c s ih =>
    obtain ⟨hBackslash, hQuote⟩ := hs c List.mem_cons_self
    rw [List.cons_append, quoteless_cons hBackslash, ih fun d hd => hs d (List.mem_cons_of_mem c hd)]
    simp [hQuote]

namespace Lexeme

theorem take_length_takeWhile (p : Char → Bool) (s : List Char) : s.take (s.takeWhile p).length = s.takeWhile p :=
  (List.prefix_iff_eq_take.1 (List.takeWhile_prefix p)).symm

/-- Whether a comment is one of a line can be told from its text. -/
theorem isPrefixOf_take (h : commentTail s = some n) :
    ['/', '/'].isPrefixOf (s.take (n + 1)) = ['/', '/'].isPrefixOf s := by
  unfold commentTail at h
  split at h
  · obtain rfl := Option.some.inj h
    rfl
  · obtain ⟨p, -, rfl⟩ := Option.map_eq_some_iff.1 h
    rfl
  · cases h

/-- A text up to a character that satisfies a condition. -/
theorem upTo_spec {stops : Char → Bool} (h : upTo stops s = some n) : ∀ c ∈ s.take n, stops c = false := by
  have hLength : (s.takeWhile fun c => !stops c).length = n := by
    unfold upTo at h
    split at h
    · cases h
    · exact Option.some.inj h
  intro c hc
  rw [← hLength, take_length_takeWhile] at hc
  simpa using List.all_eq_true.1 List.all_takeWhile c hc

/-- A character in a string that neither takes another one with it nor ends the string. -/
def Inert (d : Char) : Prop := d ≠ '\\' ∧ Literal.isStringQuote d = false

theorem inert_of_digitValue? {b : Nat} {c : Char} (h : (Text.digitValue? b c).isSome = true) : Inert c := by
  have hNone : ∀ d ∈ ['\\', '\'', '"'], Text.digitValue? b d = none := by
    simp [Text.digitValue?]
  refine ⟨?_, ?_⟩
  · rintro rfl
    simp [hNone] at h
  · rw [Literal.isStringQuote, Bool.or_eq_false_iff, beq_eq_false_iff_ne, beq_eq_false_iff_ne]
    refine ⟨?_, ?_⟩
    · rintro rfl
      simp [hNone] at h
    · rintro rfl
      simp [hNone] at h

/-- As many characters as a condition holds of at the head of a text. -/
theorem of_mem_take {p : Char → Bool} {m : Nat} (h : m ≤ (s.takeWhile p).length) :
    ∀ d ∈ s.take m, p d = true := by
  intro d hd
  have hTake : s.take m = (s.takeWhile p).take m := by
    rw [← take_length_takeWhile p s, List.take_take, Nat.min_eq_left h]
  rw [hTake] at hd
  exact List.all_eq_true.1 List.all_takeWhile d (List.mem_of_mem_take hd)

/-- What follows the character behind a backslash, in braces. -/
theorem inert_braces {t : List Char} {digits : Nat} (hDigits : ∀ d ∈ t.take digits, Inert d)
    (hClose : (t.drop digits).head? = some '\x7d') : ∀ d ∈ ('\x7b' :: t).take (digits + 2), Inert d := by
  obtain ⟨u, hu⟩ := List.head?_eq_some_iff.1 hClose
  have hTake : ('\x7b' :: t).take (digits + 2) = '\x7b' :: (t.take digits ++ ['\x7d']) := by
    rw [List.take_succ_cons, List.take_add, hu, List.take_succ_cons, List.take_zero]
  rw [hTake]
  intro d hd
  simp only [List.mem_cons, List.mem_append, List.not_mem_nil, or_false] at hd
  rcases hd with rfl | hd | rfl
  · exact ⟨by decide, by decide⟩
  · exact hDigits d hd
  · exact ⟨by decide, by decide⟩

/-- Behind its backslash and the character after it, an escape is inert. -/
theorem escape_spec (h : escape s = some n) : ∃ c u, s.take n = '\\' :: c :: u ∧ ∀ d ∈ u, Inert d := by
  unfold escape at h
  split at h
  case h_2 => cases h
  rename_i c r
  suffices hMore : ∃ m, n = m + 2 ∧ ∀ d ∈ r.take m, Inert d by
    obtain ⟨m, rfl, hm⟩ := hMore
    exact ⟨c, r.take m, rfl, hm⟩
  have hHex : ∀ {t : List Char} {m : Nat}, m ≤ (t.takeWhile fun d => (Text.digitValue? 16 d).isSome).length →
      ∀ d ∈ t.take m, Inert d := fun hm d hd => inert_of_digitValue? (of_mem_take hm d hd)
  dsimp only at h
  split at h
  · -- digits of base eight
    obtain rfl := Option.some.inj h
    refine ⟨_, rfl, fun d hd => ?_⟩
    have hPrefix := (List.takeWhile_prefix (l := r.take 2) isOctal).trans (List.take_prefix 2 r)
    rw [← List.prefix_iff_eq_take.1 hPrefix] at hd
    exact inert_of_digitValue? (List.all_eq_true.1 List.all_takeWhile d hd)
  split at h
  · split at h
    · rename_i hDigits
      obtain rfl := Option.some.inj h
      exact ⟨2, rfl, hHex hDigits⟩
    · cases h
  split at h
  · split at h
    · rename_i t
      split at h
      · rename_i hBraces
        obtain rfl := Option.some.inj h
        exact ⟨_, rfl, inert_braces (hHex (Nat.le_refl _)) hBraces.2⟩
      · cases h
    · split at h
      · rename_i hDigits
        obtain rfl := Option.some.inj h
        exact ⟨4, rfl, hHex hDigits⟩
      · cases h
  · split at h
    · -- a line end of two characters
      rename_i hGoesOn
      obtain rfl := Option.some.inj h
      refine ⟨1, rfl, fun d hd => ?_⟩
      rw [Bool.and_eq_true_iff] at hGoesOn
      obtain ⟨e, t, hr, he⟩ : ∃ e t, r = e :: t ∧ (e == '\n' || e == '\u2028' || e == '\u2029') = true := by
        cases r with
        | nil => simp at hGoesOn
        | cons e t => exact ⟨e, t, rfl, by simpa using hGoesOn.2⟩
      obtain rfl : d = e := by simpa [hr] using hd
      simp only [Bool.or_eq_true, beq_iff_eq] at he
      rcases he with (rfl | rfl) | rfl <;> exact ⟨by decide, by decide⟩
    · obtain rfl := Option.some.inj h
      exact ⟨0, rfl, by simp⟩

end Lexeme

end SqlSurvey.TypeScript
