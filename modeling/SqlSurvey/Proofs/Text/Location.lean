import SqlSurvey.Text.Location

/-!
# Byte offsets at the ends of parts

An offset that is the length of a part cuts a text where the part ends.
-/

namespace SqlSurvey.Text

@[simp] theorem before_zero (s : List Char) : before s 0 = [] := by
  cases s <;> rfl

@[simp] theorem after_zero (s : List Char) : after s 0 = s := by
  cases s <;> rfl

/-- A character takes at least one byte. -/
theorem byteLength_cons_ne_zero (c : Char) (s : List Char) : byteLength (c :: s) ≠ 0 := by
  have := c.utf8Size_pos
  rw [byteLength_cons]
  omega

theorem before_append_byteLength (a b : List Char) : before (a ++ b) (byteLength a) = a := by
  induction a with
  | nil => rw [byteLength_nil, before_zero]
  | cons c a ih =>
    rw [List.cons_append, before, if_neg (byteLength_cons_ne_zero c a), byteLength_cons,
      Nat.add_sub_cancel_left, ih]

theorem after_append_byteLength (a b : List Char) : after (a ++ b) (byteLength a) = b := by
  induction a with
  | nil => rw [byteLength_nil, after_zero, List.nil_append]
  | cons c a ih =>
    rw [List.cons_append, after, if_neg (byteLength_cons_ne_zero c a), byteLength_cons,
      Nat.add_sub_cancel_left, ih]

/-- The text between two offsets is the part that begins and ends there. -/
theorem slice_append (a b c : List Char) :
    slice (a ++ (b ++ c)) (byteLength a) (byteLength a + byteLength b) = b := by
  rw [slice, after_append_byteLength, Nat.add_sub_cancel_left, before_append_byteLength]

/-- A place where a part begins is located by the text before it. -/
theorem locate_append (a b : List Char) (length : Nat) :
    Span.locate (a ++ b) (byteLength a) length =
      ⟨byteLength a, length, (positionAfter a).line, (positionAfter a).column⟩ := by
  rw [Span.locate, before_append_byteLength]

end SqlSurvey.Text
