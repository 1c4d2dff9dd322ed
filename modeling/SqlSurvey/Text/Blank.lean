/-!
# Blank characters

The white space of Unicode (property White_Space), and the three things texts are cut by it for:
trimming the ends, reading the words between, and writing the words with one space between them.
-/

namespace SqlSurvey.Text

/-- Whether a code point lies in one of the closed ranges. -/
def inRanges (ranges : List (Nat × Nat)) (n : Nat) : Bool :=
  ranges.any fun r => decide (r.1 ≤ n) && decide (n ≤ r.2)

/-- The characters with the property White_Space, as closed ranges of code points. -/
def blankRanges : List (Nat × Nat) := [
  (0x09, 0x0D), (0x20, 0x20), (0x85, 0x85), (0xA0, 0xA0), (0x1680, 0x1680), (0x2000, 0x200A),
  (0x2028, 0x2029), (0x202F, 0x202F), (0x205F, 0x205F), (0x3000, 0x3000)]

/-- White space: neither the zero-width space nor the byte order mark belongs to it. -/
def isBlank (c : Char) : Bool := inRanges blankRanges c.toNat

/-- The text without the blanks it begins with. -/
def trimStart (s : List Char) : List Char := s.dropWhile isBlank

/-- The text without the blanks it ends with. -/
def trimEnd (s : List Char) : List Char := (s.reverse.dropWhile isBlank).reverse

/-- The text without the blanks at its two ends. -/
def trim (s : List Char) : List Char := trimEnd (trimStart s)

/-- The longest blank-free stretches of the text, in order. -/
def words (s : List Char) : List (List Char) :=
  (s.splitOnP isBlank).filter fun w => !w.isEmpty

/-- Words with one space between each two. -/
def unwords (ws : List (List Char)) : List Char := [' '].intercalate ws

/-- Every run of blanks becomes one space, and the two ends are trimmed. -/
def collapse (s : List Char) : List Char := unwords (words s)

/-! ## What the definitions guarantee -/

@[simp] theorem trim_nil : trim [] = [] := rfl

/-- Trimming only takes characters away. -/
theorem length_trim_le (s : List Char) : (trim s).length ≤ s.length := by
  -- each end on its own
  have hStart : (trimStart s).length ≤ s.length := (List.dropWhile_sublist _).length_le
  have hEnd : (trimEnd (trimStart s)).length ≤ (trimStart s).length := by
    have := (List.dropWhile_sublist (l := (trimStart s).reverse) isBlank).length_le
    simpa [trimEnd] using this
  exact Nat.le_trans hEnd hStart

end SqlSurvey.Text
