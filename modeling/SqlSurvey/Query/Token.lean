import SqlSurvey.Text.Word
import SqlSurvey.Text.Digits
import SqlSurvey.Sql.Piece

/-!
# Tokens of SQL

A tokenizer for SQL of no particular dialect. What is asked of it is little: whether the whole text can be
cut into tokens, and which token that is not blank comes first. The readers below return the text after
what they read, or nothing when the text ends before it does or holds an escape without a meaning.
-/

namespace SqlSurvey.Query

open Text (digitValue? digitsValue? numberValue? isCodePoint)

/-- A token, as far as its kind matters. -/
inductive Token where
  /-- White space or a comment. -/
  | blank
  /-- A word, with whether it stands in quotes. -/
  | word (text : List Char) (isQuoted : Bool)
  /-- Anything else. -/
  | other
deriving DecidableEq, Repr

/-! ## Strings -/

/-- The text after a string, given the text after the quote that opens it. A doubled quote belongs to the
string, and so does a character after a backslash if backslashes escape. -/
def stringRest (quote : Char) (escapes : Bool) : List Char → Option (List Char)
  | [] => none
  | c :: r =>
    if c = quote then
      match r with
      | [] => some []
      | d :: t => if d = quote then stringRest quote escapes t else some (d :: t)
    else if escapes && c == '\\' then
      match r with
      | [] => none
      | _ :: t => stringRest quote escapes t
    else stringRest quote escapes r

/-- The text after a mark. -/
def restAfter (mark s : List Char) : Option (List Char) := (Sql.cutAfter mark s).map Prod.snd

/-- The text after a raw string, given the text after the letter that announces it: up to three quotes open
it, two of them being an empty string. -/
def rawStringRest (quote : Char) (s : List Char) : Option (List Char) :=
  match (s.takeWhile fun c => c == quote).length with
  | 0 => none
  | 1 => stringRest quote false (s.drop 1)
  | 2 => some (s.drop 2)
  | _ => restAfter [quote, quote, quote] (s.drop 3)

/-- Whether `count` characters are there and, read as a number in base sixteen, name a character other than
the null character. -/
def namesCharacter (count : Nat) (s : List Char) : Bool :=
  decide (count ≤ s.length) &&
    (numberValue? 16 (s.take count)).any fun n => isCodePoint n && decide (n ≠ 0)

/-- Whether digits, modulo the values of a byte, name an ASCII character other than the null character. -/
def namesByte (base : Nat) (digits : List Char) : Bool :=
  (digitsValue? base digits).any fun n => decide (n % 256 ≤ 127) && decide (n % 256 ≠ 0)

/-- How many characters after `c` belong to the escape that a backslash and `c` begin. -/
def escapeLength (c : Char) (r : List Char) : Option Nat :=
  if c = 'u' then if namesCharacter 4 r then some 4 else none
  else if c = 'U' then if namesCharacter 8 r then some 8 else none
  else if c = 'x' then
    let digits := (r.take 2).takeWhile fun d => (digitValue? 16 d).isSome
    if digits.isEmpty || namesByte 16 digits then some digits.length else none
  else if (digitValue? 8 c).isSome then
    let digits := (r.take 2).takeWhile fun d => (digitValue? 8 d).isSome
    if namesByte 8 (c :: digits) then some digits.length else none
  else if c = '\x00' then none
  else some 0

/-- The text after an escape string, given the text after its opening quote. -/
def escapeStringRest (s : List Char) : Option (List Char) :=
  match s with
  | [] => none
  | c :: r =>
    if c = '\'' then
      match r with
      | [] => some []
      | d :: t => if d = '\'' then escapeStringRest t else some (d :: t)
    else if c = '\\' then
      match r with
      | [] => none
      | d :: t =>
        match escapeLength d t with
        | none => none
        | some n => escapeStringRest (t.drop n)
    else escapeStringRest r
termination_by s.length
decreasing_by all_goals simp only [List.length_cons, List.length_drop]; omega

/-- Whether `count` hexadecimal digits are there and name a character. -/
def namesScalar (count : Nat) (s : List Char) : Bool :=
  decide (count ≤ s.length) && (digitsValue? 16 (s.take count)).any isCodePoint

/-- The text after a Unicode string, given the text after its opening quote. -/
def unicodeStringRest (s : List Char) : Option (List Char) :=
  match s with
  | [] => none
  | c :: r =>
    if c = '\'' then
      match r with
      | [] => some []
      | d :: t => if d = '\'' then unicodeStringRest t else some (d :: t)
    else if c = '\\' then
      match r with
      | [] => none
      | d :: t =>
        if d = '\\' then unicodeStringRest t
        else if d = '+' then if namesScalar 6 t then unicodeStringRest (t.drop 6) else none
        else if namesScalar 4 (d :: t) then unicodeStringRest (t.drop 3) else none
    else unicodeStringRest r
termination_by s.length
decreasing_by all_goals simp only [List.length_cons, List.length_drop]; omega

/-! ## Dollar signs -/

/-- The text after a string with a tag, given the text after the tag and its dollar signs. `left` is what
remains of the tag to be met, or nothing when no closing tag has begun; a character that does not fit
is passed over, even if it is a dollar sign. -/
def taggedStringRest (tag : List Char) : Option (List Char) → List Char → Option (List Char)
  | _, [] => none
  | none, c :: r => taggedStringRest tag (if c = '$' then some tag else none) r
  | some [], c :: r => if c = '$' then some r else taggedStringRest tag none r
  | some (t :: ts), c :: r => taggedStringRest tag (if c = t then some ts else none) r

/-- The text after a dollar sign and what it announces: a string up to the next two dollar signs, a string
with a tag, or a placeholder. -/
def dollarRest (r : List Char) : Option (List Char) :=
  match r with
  | '$' :: t => restAfter ['$', '$'] t
  | _ =>
    let isTagChar := fun c => Text.isAlphanumeric c || c == '_'
    match r.dropWhile isTagChar with
    | '$' :: t => taggedStringRest (r.takeWhile isTagChar) none t
    | rest => some rest

/-! ## Comments, numbers and words -/

/-- The text after a block comment, given the text after its opening. Comments nest; `last` is the character
before, and a character may close one pair and open the next. -/
def nestedCommentRest (depth : Nat) (last : Char) : List Char → Option (List Char)
  | [] => none
  | c :: r =>
    if last = '/' ∧ c = '*' then nestedCommentRest (depth + 1) c r
    else if last = '*' ∧ c = '/' then
      if depth ≤ 1 then some r else nestedCommentRest (depth - 1) c r
    else nestedCommentRest depth c r

/-- Whether a character may stand in a word after its first. -/
def isWordPart (c : Char) : Bool :=
  Text.isAlphabetic c || c.isDigit || c == '@' || c == '$' || c == '#' || c == '_'

/-- The text after an exponent, or the same text if there is none. -/
def exponentRest (s : List Char) : List Char :=
  match s with
  | [] => []
  | c :: r =>
    if c = 'e' ∨ c = 'E' then
      let digits := if r.head? = some '+' ∨ r.head? = some '-' then r.tail else r
      if digits.head?.any Char.isDigit then digits.dropWhile Char.isDigit else c :: r
    else c :: r

/-- The text after one given character, or the same text if it does not begin with it. -/
def skipOne (c : Char) (s : List Char) : List Char := if s.head? = some c then s.tail else s

/-- The text after a number or a period that `c` begins. -/
def numberRest (c : Char) (r : List Char) : List Char :=
  if c = '.' then
    let fraction := r.dropWhile Char.isDigit
    if r.head?.any Char.isDigit then skipOne 'L' (exponentRest fraction) else r
  else if c = '0' ∧ r.head? = some 'x' then r.tail.dropWhile fun d => (digitValue? 16 d).isSome
  else
    let fraction := skipOne '.' (r.dropWhile Char.isDigit)
    skipOne 'L' (exponentRest (fraction.dropWhile Char.isDigit))

/-! ## Tokens -/

/-- A word that `first` begins, and the text after it. -/
def wordToken (first r : List Char) : Option (Token × List Char) :=
  some (.word (first ++ r.takeWhile isWordPart) false, r.dropWhile isWordPart)

/-- A token that is neither blank nor a word, with the text after it. -/
def otherToken (rest : Option (List Char)) : Option (Token × List Char) :=
  rest.map fun t => (.other, t)

/-- A token after a mark that, followed by a space or nothing, stands alone, and otherwise begins a word with
whatever follows it. -/
def markToken (mark r : List Char) : Option (Token × List Char) :=
  match r with
  | [] => some (.other, [])
  | c :: t => if c = ' ' then some (.other, c :: t) else wordToken (mark ++ [c]) t

/-- The text after a string that `c` begins, if it begins one: a quote does, and so does a letter with a quote
behind it. -/
def stringAfter? (c : Char) (r : List Char) : Option (Option (List Char)) :=
  match c.toLower, r with
  | '\'', _ => some (stringRest '\'' false r)
  | 'b', '\'' :: t => some (stringRest '\'' false t)
  | 'b', '"' :: t => some (stringRest '"' false t)
  | 'r', '\'' :: _ => some (rawStringRest '\'' r)
  | 'r', '"' :: _ => some (rawStringRest '"' r)
  | 'n', '\'' :: t => some (stringRest '\'' true t)
  | 'x', '\'' :: t => some (stringRest '\'' true t)
  | 'e', '\'' :: t => some (escapeStringRest t)
  | 'u', '&' :: '\'' :: t => some (unicodeStringRest t)
  | _, _ => none

/-- The text after an operator or a placeholder that `c` begins. Only what changes the reading of the next
character matters: an operator may take a slash, a bracket or an at sign with it. -/
def operatorRest (c : Char) (r : List Char) : List Char :=
  match c with
  | '/' => skipOne '/' r
  | '|' => skipOne '/' (skipOne '|' r)
  | '<' => if r.head? = some '@' then r.tail else skipOne '<' r
  | '^' => skipOne '@' r
  | '?' => r.dropWhile Text.isNumeric
  | _ => r

/-- A token that a number sign begins. -/
def hashToken (r : List Char) : Option (Token × List Char) :=
  match r with
  | '-' :: t => some (.other, t)
  | '>' :: t => some (.other, skipOne '>' t)
  | _ => markToken ['#'] r

/-- A token that an at sign begins. -/
def atToken (r : List Char) : Option (Token × List Char) :=
  match r with
  | '>' :: t => some (.other, t)
  | '?' :: t => some (.other, t)
  | '@' :: t => markToken ['@', '@'] t
  | _ => markToken ['@'] r

/-- A comment that `c` begins, if it begins one: the text after it. -/
def commentAfter? (c : Char) (r : List Char) : Option (Option (List Char)) :=
  match c, r with
  | '-', '-' :: t => some (some ((t.dropWhile fun d => d != '\n').drop 1))
  | '/', '*' :: t => some (nestedCommentRest 1 ' ' t)
  | _, _ => none

/-- The first token of the text `c :: r`, with the text after it. -/
def firstToken (c : Char) (r : List Char) : Option (Token × List Char) :=
  match stringAfter? c r, commentAfter? c r with
  | some rest, _ => otherToken rest
  | none, some rest => rest.map fun t => (.blank, t)
  | none, none =>
    if Text.isBlank c then some (.blank, r)
    else if c = '"' ∨ c = '\x60' then
      (stringRest c false r).map fun t => (.word (r.take (r.length - t.length - 1)) true, t)
    else if c.isDigit ∨ c = '.' then some (.other, numberRest c r)
    else if c = '#' then hashToken r
    else if c = '@' then atToken r
    else if Text.isAlphabetic c ∨ c = '_' then wordToken [c] r
    else if c = '$' then otherToken (dollarRest r)
    else some (.other, operatorRest c r)

/-! ## No reader lengthens the text -/

theorem length_skipOne_le (c : Char) (s : List Char) : (skipOne c s).length ≤ s.length := by
  unfold skipOne
  split <;> simp

theorem length_dropWhile_le (p : Char → Bool) (s : List Char) :
    (s.dropWhile p).length ≤ s.length := (List.dropWhile_sublist p).length_le

theorem length_restAfter_le {mark s t : List Char} (h : restAfter mark s = some t) :
    t.length ≤ s.length := by
  obtain ⟨p, hp, rfl⟩ := Option.map_eq_some_iff.1 h
  have := congrArg List.length (Sql.cutAfter_append hp)
  simp only [List.length_append] at this
  omega

theorem length_stringRest_le {quote : Char} {escapes : Bool} {s t : List Char}
    (h : stringRest quote escapes s = some t) : t.length ≤ s.length := by
  fun_induction stringRest quote escapes s <;> grind

theorem length_rawStringRest_le {quote : Char} {s t : List Char} (h : rawStringRest quote s = some t) :
    t.length ≤ s.length := by
  unfold rawStringRest at h
  split at h
  · simp at h
  · exact Nat.le_trans (length_stringRest_le h) (by simp)
  · simp only [Option.some.injEq] at h
    simp [← h]
  · exact Nat.le_trans (length_restAfter_le h) (by simp)

theorem length_escapeStringRest_le {s t : List Char} (h : escapeStringRest s = some t) :
    t.length ≤ s.length := by
  fun_induction escapeStringRest s <;> grind

theorem length_unicodeStringRest_le {s t : List Char} (h : unicodeStringRest s = some t) :
    t.length ≤ s.length := by
  fun_induction unicodeStringRest s <;> grind

theorem length_taggedStringRest_le {tag : List Char} {left : Option (List Char)} {s t : List Char}
    (h : taggedStringRest tag left s = some t) : t.length ≤ s.length := by
  fun_induction taggedStringRest tag left s <;> grind

theorem length_dollarRest_le {s t : List Char} (h : dollarRest s = some t) : t.length ≤ s.length := by
  unfold dollarRest at h
  split at h
  · exact Nat.le_succ_of_le (length_restAfter_le h)
  · simp only at h
    have hTag := length_dropWhile_le (fun c => Text.isAlphanumeric c || c == '_') s
    split at h
    · rename_i r hr
      rw [hr] at hTag
      have := length_taggedStringRest_le h
      simp only [List.length_cons] at hTag
      omega
    · simp only [Option.some.injEq] at h
      rw [← h]
      exact hTag

theorem length_nestedCommentRest_le {depth : Nat} {last : Char} {s t : List Char}
    (h : nestedCommentRest depth last s = some t) : t.length ≤ s.length := by
  fun_induction nestedCommentRest depth last s <;> grind

theorem length_exponentRest_le (s : List Char) : (exponentRest s).length ≤ s.length := by
  unfold exponentRest
  split
  · simp
  · rename_i c r
    have hTail := length_dropWhile_le Char.isDigit r.tail
    have hWhole := length_dropWhile_le Char.isDigit r
    simp only [List.length_tail] at hTail
    grind

theorem length_numberRest_le (c : Char) (r : List Char) : (numberRest c r).length ≤ r.length := by
  have hHex := length_dropWhile_le (fun d => (digitValue? 16 d).isSome) r.tail
  have hDigits := length_dropWhile_le Char.isDigit r
  simp only [List.length_tail] at hHex
  unfold numberRest
  split
  · simp only
    split
    · exact Nat.le_trans (length_skipOne_le _ _) (Nat.le_trans (length_exponentRest_le _) hDigits)
    · exact Nat.le_refl _
  · split
    · omega
    · refine Nat.le_trans (length_skipOne_le _ _) (Nat.le_trans (length_exponentRest_le _) ?_)
      refine Nat.le_trans (length_dropWhile_le _ _) (Nat.le_trans (length_skipOne_le _ _) hDigits)

theorem length_wordToken_le {first r : List Char} {p : Token × List Char}
    (h : wordToken first r = some p) : p.2.length ≤ r.length := by
  simp only [wordToken, Option.some.injEq] at h
  subst h
  exact length_dropWhile_le _ _

theorem length_markToken_le {mark r : List Char} {p : Token × List Char}
    (h : markToken mark r = some p) : p.2.length ≤ r.length := by
  unfold markToken at h
  split at h
  · simp only [Option.some.injEq] at h
    simp [← h]
  · split at h
    · simp only [Option.some.injEq] at h
      simp [← h]
    · exact Nat.le_succ_of_le (length_wordToken_le h)

theorem length_otherToken_le {rest : Option (List Char)} {p : Token × List Char} {n : Nat}
    (h : otherToken rest = some p) (hn : ∀ t, rest = some t → t.length ≤ n) : p.2.length ≤ n := by
  obtain ⟨t, ht, rfl⟩ := Option.map_eq_some_iff.1 h
  exact hn t ht

theorem length_stringAfter_le {c : Char} {r t : List Char} (h : stringAfter? c r = some (some t)) :
    t.length ≤ r.length := by
  unfold stringAfter? at h
  split at h <;> simp only [Option.some.injEq, reduceCtorEq] at h
  · exact length_stringRest_le h
  · exact Nat.le_succ_of_le (length_stringRest_le h)
  · exact Nat.le_succ_of_le (length_stringRest_le h)
  · exact length_rawStringRest_le h
  · exact length_rawStringRest_le h
  · exact Nat.le_succ_of_le (length_stringRest_le h)
  · exact Nat.le_succ_of_le (length_stringRest_le h)
  · exact Nat.le_succ_of_le (length_escapeStringRest_le h)
  · exact Nat.le_succ_of_le (Nat.le_succ_of_le (length_unicodeStringRest_le h))

theorem length_commentAfter_le {c : Char} {r t : List Char} (h : commentAfter? c r = some (some t)) :
    t.length ≤ r.length := by
  unfold commentAfter? at h
  split at h <;> simp only [Option.some.injEq, reduceCtorEq] at h
  · rename_i u
    have := length_dropWhile_le (fun d => d != '\n') u
    simp only [← h, List.length_drop, List.length_cons]
    omega
  · exact Nat.le_succ_of_le (length_nestedCommentRest_le h)

theorem length_operatorRest_le (c : Char) (r : List Char) : (operatorRest c r).length ≤ r.length := by
  unfold operatorRest
  split
  · exact length_skipOne_le _ _
  · exact Nat.le_trans (length_skipOne_le _ _) (length_skipOne_le _ _)
  · split
    · simp
    · exact length_skipOne_le _ _
  · exact length_skipOne_le _ _
  · exact length_dropWhile_le _ _
  · exact Nat.le_refl _

theorem length_hashToken_le {r : List Char} {p : Token × List Char} (h : hashToken r = some p) :
    p.2.length ≤ r.length := by
  unfold hashToken at h
  split at h
  · simp only [Option.some.injEq] at h
    simp [← h]
  · simp only [Option.some.injEq] at h
    simp only [← h]
    exact Nat.le_succ_of_le (length_skipOne_le _ _)
  · exact length_markToken_le h

theorem length_atToken_le {r : List Char} {p : Token × List Char} (h : atToken r = some p) :
    p.2.length ≤ r.length := by
  unfold atToken at h
  split at h
  · simp only [Option.some.injEq] at h
    simp [← h]
  · simp only [Option.some.injEq] at h
    simp [← h]
  · exact Nat.le_succ_of_le (length_markToken_le h)
  · exact length_markToken_le h

/-- The text after the first token is shorter than the whole. -/
theorem length_firstToken_le {c : Char} {r : List Char} {p : Token × List Char}
    (h : firstToken c r = some p) : p.2.length ≤ r.length := by
  unfold firstToken at h
  split at h
  · rename_i rest hs
    exact length_otherToken_le h fun t ht => length_stringAfter_le (ht ▸ hs)
  · rename_i rest _ hc
    obtain ⟨t, ht, rfl⟩ := Option.map_eq_some_iff.1 h
    exact length_commentAfter_le (ht ▸ hc)
  · split at h
    · simp only [Option.some.injEq] at h
      simp [← h]
    split at h
    · obtain ⟨t, ht, rfl⟩ := Option.map_eq_some_iff.1 h
      exact length_stringRest_le ht
    split at h
    · simp only [Option.some.injEq] at h
      simp only [← h]
      exact length_numberRest_le c r
    split at h
    · exact length_hashToken_le h
    split at h
    · exact length_atToken_le h
    split at h
    · exact length_wordToken_le h
    split at h
    · exact length_otherToken_le h fun t ht => length_dollarRest_le ht
    · simp only [Option.some.injEq] at h
      simp only [← h]
      exact length_operatorRest_le c r

/-! ## Whole texts -/

/-- The tokens of a text, if it can be cut into tokens to its end. -/
def tokens? (s : List Char) : Option (List Token) :=
  match s with
  | [] => some []
  | c :: r =>
    match _hToken : firstToken c r with
    | none => none
    | some p => (tokens? p.2).map (p.1 :: ·)
termination_by s.length
decreasing_by exact Nat.lt_succ_of_le (length_firstToken_le _hToken)

end SqlSurvey.Query
