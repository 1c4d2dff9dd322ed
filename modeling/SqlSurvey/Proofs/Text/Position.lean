import SqlSurvey.Proofs.Text.Location
import Mathlib.Data.List.Basic
import Mathlib.Data.List.Induction

/-!
# Positions

Between the places where a text can be cut, positions are exact: a later place has a later position, the line counts
the line feeds before the place, and the column counts the characters from the beginning of the line. So the place
can be found again from its position. Every other offset has the position of the next place.
-/

namespace SqlSurvey.Text

variable {s a b l : List Char} {c : Char} {offset m n : Nat} {p : Position}

/-! ## Boundaries -/

/-- An offset at which a character begins or the text ends. -/
def IsBoundary (s : List Char) (offset : Nat) : Prop := ∃ a b, s = a ++ b ∧ offset = byteLength a

/-- The first boundary that does not come before an offset. -/
structure IsNextBoundary (s : List Char) (offset next : Nat) : Prop where
  isBoundary : IsBoundary s next
  le : offset ≤ next
  least : ∀ b, IsBoundary s b → offset ≤ b → next ≤ b

/-- Of two boundaries the later one has more of the text before it. -/
theorem exists_of_boundaries (ha : IsBoundary s m) (hb : IsBoundary s n) (h : m < n) :
    ∃ a t r, s = a ++ (t ++ r) ∧ t ≠ [] ∧ m = byteLength a ∧ n = byteLength (a ++ t) := by
  obtain ⟨a, r, hr, rfl⟩ := ha
  obtain ⟨b, u, hu, rfl⟩ := hb
  have hPrefix : a <+: s := ⟨r, hr.symm⟩
  have hOther : b <+: s := ⟨u, hu.symm⟩
  rcases List.prefix_or_prefix_of_prefix hPrefix hOther with ⟨t, rfl⟩ | ⟨t, rfl⟩
  · refine ⟨a, t, u, by rw [hu, List.append_assoc], ?_, rfl, rfl⟩
    rintro rfl
    rw [List.append_nil] at h
    omega
  · rw [byteLength_append] at h
    omega

/-- The characters that begin before an offset reach up to it, if there are enough of them. -/
theorem le_byteLength_before (h : offset ≤ byteLength s) : offset ≤ byteLength (before s offset) := by
  induction s generalizing offset with
  | nil => exact h
  | cons c s ih =>
    unfold before
    by_cases hZero : offset = 0
    · omega
    · rw [if_neg hZero, byteLength_cons]
      rw [byteLength_cons] at h
      have hRest := @ih (offset - c.utf8Size) (by omega)
      omega

/-- They do not reach beyond a boundary. -/
theorem byteLength_before_le (h : offset ≤ byteLength a) (b : List Char) :
    byteLength (before (a ++ b) offset) ≤ byteLength a := by
  induction a generalizing offset with
  | nil =>
    obtain rfl : offset = 0 := Nat.le_zero.1 h
    exact Nat.le_of_eq (congrArg byteLength (before_zero b))
  | cons c a ih =>
    rw [List.cons_append]
    unfold before
    by_cases hZero : offset = 0
    · rw [if_pos hZero]
      exact Nat.zero_le _
    · rw [if_neg hZero, byteLength_cons, byteLength_cons]
      rw [byteLength_cons] at h
      have hRest := @ih (offset - c.utf8Size) (by omega)
      omega

theorem isNextBoundary_before (h : offset ≤ byteLength s) :
    IsNextBoundary s offset (byteLength (before s offset)) where
  isBoundary := ⟨before s offset, after s offset, (before_append_after s offset).symm, rfl⟩
  le := le_byteLength_before h
  least := by
    rintro _ ⟨a, b, rfl, rfl⟩ hLe
    exact byteLength_before_le hLe b

/-- Up to the next boundary, the characters before are the same. -/
theorem before_byteLength_before (s : List Char) (offset : Nat) :
    before s (byteLength (before s offset)) = before s offset := by
  have hSplit := before_append_byteLength (before s offset) (after s offset)
  rw [before_append_after] at hSplit
  exact hSplit

/-- All characters begin before an offset that is not inside the text. -/
theorem before_of_le (h : byteLength s ≤ offset) : before s offset = s := by
  induction s generalizing offset with
  | nil => rfl
  | cons c s ih =>
    rw [byteLength_cons] at h
    have hSize := c.utf8Size_pos
    unfold before
    rw [if_neg (by omega), ih (by omega)]

/-! ## Lines and columns -/

/-- The line feeds of a text are the lines before its end. -/
theorem line_foldl_advance (s : List Char) (p : Position) :
    (s.foldl Position.advance p).line = p.line + s.count '\n' := by
  induction s generalizing p with
  | nil => rfl
  | cons c s ih =>
    rw [List.foldl_cons, ih, List.count_cons]
    unfold Position.advance
    by_cases hc : c = '\n'
    · rw [if_pos hc, hc]
      simp only [beq_self_eq_true, if_true]
      omega
    · rw [if_neg hc, if_neg (by simpa using hc)]
      rfl

/-- Within a line the column counts characters. -/
theorem column_foldl_advance (h : '\n' ∉ s) (p : Position) :
    (s.foldl Position.advance p).column = p.column + s.length := by
  induction s generalizing p with
  | nil => rfl
  | cons c s ih =>
    rw [List.mem_cons, not_or] at h
    rw [List.foldl_cons, ih h.2]
    unfold Position.advance
    rw [if_neg (Ne.symm h.1), List.length_cons]
    show p.column + 1 + s.length = _
    omega

theorem line_positionAfter (s : List Char) : (positionAfter s).line = s.count '\n' + 1 := by
  unfold positionAfter
  rw [line_foldl_advance]
  exact Nat.add_comm _ _

/-- The column counts the characters behind the last line feed. -/
theorem column_positionAfter (ha : ∀ c ∈ a.getLast?, c = '\n') (hl : '\n' ∉ l) :
    (positionAfter (a ++ l)).column = l.length + 1 := by
  unfold positionAfter
  rw [List.foldl_append, column_foldl_advance hl]
  have hFirst : (a.foldl Position.advance Position.start).column = 1 := by
    rcases a.eq_nil_or_concat' with rfl | ⟨a, c, rfl⟩
    · rfl
    · obtain rfl := ha c (by simp)
      rw [List.foldl_append]
      rfl
  omega

/-- A text is whole lines and the beginning of one. -/
theorem exists_line (s : List Char) : ∃ a l, s = a ++ l ∧ (∀ c ∈ a.getLast?, c = '\n') ∧ '\n' ∉ l := by
  induction s using List.reverseRecOn with
  | nil => exact ⟨[], [], rfl, by simp, by simp⟩
  | append_singleton s c ih =>
    by_cases hc : c = '\n'
    · refine ⟨s ++ [c], [], (List.append_nil _).symm, ?_, by simp⟩
      intro d hd
      rw [List.getLast?_concat] at hd
      obtain rfl := Option.some.inj hd
      exact hc
    · obtain ⟨a, l, rfl, ha, hl⟩ := ih
      refine ⟨a, l ++ [c], List.append_assoc _ _ _, ha, ?_⟩
      rw [List.mem_append, List.mem_singleton]
      exact fun h => h.elim hl (Ne.symm hc)

/-! ## Locations -/

/-- An earlier line, or an earlier column in the same line. -/
def Span.Precedes (x y : Span) : Prop := x.line < y.line ∨ x.line = y.line ∧ x.column < y.column

/-- More text leads to a later position. -/
theorem precedes_foldl_advance {t : List Char} (ht : t ≠ []) (p : Position) :
    p.line < (t.foldl Position.advance p).line ∨
      p.line = (t.foldl Position.advance p).line ∧ p.column < (t.foldl Position.advance p).column := by
  rw [line_foldl_advance]
  by_cases hLine : '\n' ∈ t
  · left
    have hCount := List.count_pos_iff.2 hLine
    omega
  · right
    have hLength := List.length_pos_iff.2 ht
    rw [column_foldl_advance hLine, List.count_eq_zero_of_not_mem hLine]
    omega

/-- The offset where the line of an offset begins: behind the last line feed before it, or at the beginning of the
text. -/
def IsLineStart (s : List Char) (start offset : Nat) : Prop :=
  ∃ a l b, s = a ++ (l ++ b) ∧ start = byteLength a ∧ offset = byteLength (a ++ l) ∧
    (∀ c ∈ a.getLast?, c = '\n') ∧ '\n' ∉ l

/-- The offset that so many characters from an offset lead to. -/
def walk (s : List Char) (start count : Nat) : Nat := start + byteLength ((after s start).take count)

/-- A later boundary has a later location. The line of a boundary counts the line feeds before it, and from where the
line begins as many characters lead back to the boundary as the column says. Any other offset has the location of
the next boundary, and one past the end that of the end. -/
theorem locate_exact (source : List Char) (m : Nat) :
    (∀ x y n, IsBoundary source x → IsBoundary source y → x < y →
      (Span.locate source x m).Precedes (Span.locate source y n)) ∧
    (∀ a b, source = a ++ b →
      (Span.locate source (byteLength a) m).line = a.count '\n' + 1 ∧
      ∃ start count, IsLineStart source start (byteLength a) ∧
        (Span.locate source (byteLength a) m).column = count + 1 ∧ walk source start count = byteLength a) ∧
    (∀ x, x ≤ byteLength source →
      ∃ next, IsNextBoundary source x next ∧
        Span.locate source x m = { Span.locate source next m with offset := x }) ∧
    ∀ x, byteLength source ≤ x →
      Span.locate source x m = { Span.locate source (byteLength source) m with offset := x } := by
  refine ⟨fun x y n hx hy hLt => ?_, fun a b hSplit => ?_, fun x hx => ?_, fun x hx => ?_⟩
  · obtain ⟨a, t, r, rfl, ht, rfl, rfl⟩ := exists_of_boundaries hx hy hLt
    have hLater := locate_append (a ++ t) r n
    rw [List.append_assoc] at hLater
    rw [locate_append, hLater]
    unfold Span.Precedes positionAfter
    rw [List.foldl_append]
    exact precedes_foldl_advance ht _
  · subst hSplit
    rw [locate_append, line_positionAfter]
    obtain ⟨lines, l, rfl, hLines, hl⟩ := exists_line a
    refine ⟨rfl, byteLength lines, l.length, ⟨lines, l, b, ?_, rfl, rfl, hLines, hl⟩, ?_, ?_⟩
    · rw [List.append_assoc]
    · exact column_positionAfter hLines hl
    · unfold walk
      rw [List.append_assoc, after_append_byteLength, List.take_left' rfl, byteLength_append]
  · refine ⟨byteLength (before source x), isNextBoundary_before hx, ?_⟩
    unfold Span.locate
    rw [before_byteLength_before]
  · unfold Span.locate
    rw [before_of_le hx, before_of_le (Nat.le_refl _)]

end SqlSurvey.Text
