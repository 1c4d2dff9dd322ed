import SqlSurvey.Proofs.Literal.Place
import SqlSurvey.Proofs.Text.Bytes
import Mathlib.Data.List.Induction

/-!
# The scanner on bytes

The scanner looks for ASCII characters only, so that it comes to the same state on the bytes of a text as on its
characters: a character of more than one byte is read like any other that means nothing to it, and so is each of
its bytes. An escape takes the first byte of such a character, and the others are text.
-/

namespace SqlSurvey.Literal

/-! ## Characters without a meaning -/

/-- The characters that the scanner looks for. -/
def meaningful : List Char := ['\x60', '"', '\'', '/', '*', '\\', '\n', '$', '\x7b', '\x7d']

/-- The mode after a character without a meaning. -/
def Mode.afterOther : Mode → Mode
  | .code | .slash | .twoQuotes _ _ => .code
  | .lineComment => .lineComment
  | .blockComment | .blockCommentStar => .blockComment
  | .oneQuote q start | .quoted q start | .quotedEscape q start => .quoted q start
  | .tripled q start _ | .tripledEscape q start => .tripled q start 0
  | .template start | .templateEscape start | .templateDollar start => .template start

/-- Only strings in one of the two quotes are open. -/
def Mode.QuotesStrings : Mode → Prop
  | .oneQuote q _ | .twoQuotes q _ | .quoted q _ | .quotedEscape q _ | .tripled q _ _ | .tripledEscape q _ =>
    isStringQuote q = true
  | _ => True

theorem Mode.Began.quotesStrings {before : List Char} {mode : Mode} (h : mode.Began before) :
    mode.QuotesStrings := by
  cases mode with
  | oneQuote q start => exact h.1
  | twoQuotes q start => exact h.1
  | quoted q start => exact h.1
  | quotedEscape q start => exact h.1
  | tripled q start closing => exact h.1
  | tripledEscape q start => exact h.1
  | _ => trivial

namespace State

variable {s : State} {before : List Char} {c : Char} {q : Char} {start : Nat}

theorem mem_meaningful_of_isStringQuote (hq : isStringQuote q = true) : q ∈ meaningful := by
  rw [isStringQuote, Bool.or_eq_true, beq_iff_eq, beq_iff_eq] at hq
  rcases hq with rfl | rfl <;> decide

theorem ne_of_not_mem_meaningful (hc : c ∉ meaningful) :
    c ≠ '\x60' ∧ c ≠ '"' ∧ c ≠ '\'' ∧ c ≠ '/' ∧ c ≠ '*' ∧ c ≠ '\\' ∧ c ≠ '\n' ∧ c ≠ '$' ∧ c ≠ '\x7b' ∧ c ≠ '\x7d' := by
  simpa [meaningful] using hc

theorem stepCode_of_not_mem (s : State) (hc : c ∉ meaningful) : s.stepCode c = s.enter .code := by
  obtain ⟨hBacktick, hDouble, hSingle, hSlash, -, -, -, -, hOpen, hClose⟩ := ne_of_not_mem_meaningful hc
  unfold stepCode
  rw [if_neg hBacktick, if_neg (not_or.2 ⟨hDouble, hSingle⟩), if_neg hSlash]
  split
  · rfl
  · rw [if_neg hOpen, if_neg hClose]

theorem stepTemplate_of_not_mem (s : State) (start : Nat) (hc : c ∉ meaningful) :
    s.stepTemplate start c = s.enter (.template start) := by
  obtain ⟨hBacktick, -, -, -, -, hBackslash, -, hDollar, -, -⟩ := ne_of_not_mem_meaningful hc
  unfold stepTemplate
  rw [if_neg hBackslash, if_neg hBacktick, if_neg hDollar]

theorem stepQuoted_of_not_mem (s : State) (start : Nat) (hq : isStringQuote q = true) (hc : c ∉ meaningful) :
    s.stepQuoted q start c = s.enter (.quoted q start) := by
  obtain ⟨-, -, -, -, -, hBackslash, hLine, -, -, -⟩ := ne_of_not_mem_meaningful hc
  have hNe : c ≠ q := by
    rintro rfl
    exact hc (mem_meaningful_of_isStringQuote hq)
  unfold stepQuoted
  rw [if_neg hBackslash, if_neg hLine, if_neg hNe]

theorem stepTripled_of_not_mem (s : State) (start closing : Nat) (hq : isStringQuote q = true)
    (hc : c ∉ meaningful) : s.stepTripled q start closing c = s.enter (.tripled q start 0) := by
  obtain ⟨-, -, -, -, -, hBackslash, -, -, -, -⟩ := ne_of_not_mem_meaningful hc
  have hNe : c ≠ q := by
    rintro rfl
    exact hc (mem_meaningful_of_isStringQuote hq)
  unfold stepTripled
  rw [if_neg hBackslash, if_neg hNe]

/-- The state after a character without a meaning, before that character is counted: two quotes before it are the
empty string. -/
def afterOther (s : State) : State :=
  match s.mode with
  | .twoQuotes _ start => s.record start 1 s.offset
  | mode => s.enter mode.afterOther

theorem react_of_not_mem (hMode : s.mode.QuotesStrings) (hc : c ∉ meaningful) : s.react c = s.afterOther := by
  obtain ⟨-, -, -, hSlash, hStar, -, hLine, -, hOpen, -⟩ := ne_of_not_mem_meaningful hc
  obtain ⟨offset, mode, frames, found⟩ := s
  cases mode with
  | code => exact stepCode_of_not_mem _ hc
  | slash =>
    show (if c = '/' then _ else if c = '*' then _ else _) = _
    rw [if_neg hSlash, if_neg hStar]
    exact stepCode_of_not_mem _ hc
  | lineComment => exact if_neg hLine
  | blockComment => exact if_neg hStar
  | blockCommentStar =>
    show (if c = '/' then _ else if c = '*' then _ else _) = _
    rw [if_neg hSlash, if_neg hStar]
    rfl
  | oneQuote q start =>
    have hNe : c ≠ q := by
      rintro rfl
      exact hc (mem_meaningful_of_isStringQuote hMode)
    show (if c = q then _ else _) = _
    rw [if_neg hNe]
    exact stepQuoted_of_not_mem _ start hMode hc
  | twoQuotes q start =>
    have hNe : c ≠ q := by
      rintro rfl
      exact hc (mem_meaningful_of_isStringQuote hMode)
    show (if c = q then _ else _) = _
    rw [if_neg hNe]
    exact stepCode_of_not_mem _ hc
  | quoted q start => exact stepQuoted_of_not_mem _ start hMode hc
  | quotedEscape q start => rfl
  | tripled q start closing => exact stepTripled_of_not_mem _ start closing hMode hc
  | tripledEscape q start => rfl
  | template start => exact stepTemplate_of_not_mem _ start hc
  | templateEscape start => rfl
  | templateDollar start =>
    show (if c = '\x7b' then _ else _) = _
    rw [if_neg hOpen]
    exact stepTemplate_of_not_mem _ start hc

/-- A second character without a meaning changes nothing more, wherever it stands. -/
theorem afterOther_afterOther (s : State) (n : Nat) :
    { s.afterOther with offset := n }.afterOther = { s.afterOther with offset := n } := by
  obtain ⟨offset, mode, frames, found⟩ := s
  cases mode <;> rfl

theorem quotesStrings_afterOther (hMode : s.mode.QuotesStrings) : s.afterOther.mode.QuotesStrings := by
  obtain ⟨offset, mode, frames, found⟩ := s
  cases mode <;> first | exact hMode | trivial

/-- So many characters without a meaning that take one byte are read as one that takes as many. -/
theorem run_replicate_filler (hMode : s.mode.QuotesStrings) (n : Nat) :
    s.run (List.replicate (n + 1) Text.filler) = { s.afterOther with offset := s.offset + (n + 1) } := by
  have hFiller : Text.filler ∉ meaningful := by decide
  have hStep : ∀ t : State, t.mode.QuotesStrings → t.step Text.filler = { t.afterOther with offset := t.offset + 1 } := by
    intro t ht
    rw [step, react_of_not_mem ht hFiller]
    rfl
  induction n generalizing s with
  | zero => exact hStep s hMode
  | succ n ih =>
    have hNext : { s.afterOther with offset := s.offset + 1 }.mode.QuotesStrings := quotesStrings_afterOther hMode
    rw [List.replicate_succ, run_cons, hStep s hMode, ih hNext, afterOther_afterOther]
    show { s.afterOther with offset := s.offset + 1 + (n + 1) } = _
    rw [Nat.add_assoc, Nat.add_comm 1]

/-- The bytes of a character are read as the character is. -/
theorem run_utf8EncodeChar (hMode : s.mode.QuotesStrings) (c : Char) :
    s.run (Text.ofBytes (String.utf8EncodeChar c)) = s.step c := by
  rw [Text.ofBytes_utf8EncodeChar]
  split
  · rfl
  · rename_i hAscii
    have hc : c ∉ meaningful := by
      intro hMem
      have hAll : ∀ d ∈ meaningful, d.toNat < 128 := by decide
      exact hAscii (hAll c hMem)
    have hSize := (Text.utf8EncodeChar_of_not_ascii hAscii).2
    obtain ⟨n, hn⟩ := Nat.exists_eq_add_of_le' (Nat.le_of_succ_le hSize)
    rw [hn, run_replicate_filler hMode, step, react_of_not_mem hMode hc, ← hn]

/-- The scanner comes to the same state on the bytes of a text as on the text. -/
theorem run_ofBytes_bytes (text : List Char) :
    initial.run (Text.ofBytes (Text.bytes text)) = initial.run text := by
  induction text using List.reverseRecOn with
  | nil => rfl
  | append_singleton text c ih =>
    have hMode := (holds_run_initial text).mode.quotesStrings
    rw [Text.bytes_append, Text.ofBytes_append, run_append, run_append, ih, Text.bytes_cons, Text.bytes_nil,
      List.append_nil, run_utf8EncodeChar hMode]
    rfl

end State

end SqlSurvey.Literal
