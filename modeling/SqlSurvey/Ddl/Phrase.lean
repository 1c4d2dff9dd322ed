import SqlSurvey.Pattern.Basic

/-!
# Phrases of definitions

The parts that the patterns of data definitions are put together from: phrases of keywords, identifiers
with or without quotes, lists in parentheses, referential actions.
-/

namespace SqlSurvey.Ddl

open Pattern

/-- Keywords one after the other, with blanks between. -/
def phrase (first : String) (others : List String) : Pattern :=
  others.foldl (fun p w => p ++ blanks ++ keyword w.toList) (keyword first.toList)

/-- What may open an identifier: a double quote, a backtick or a bracket. -/
def opensName (c : Char) : Bool := c == '"' || c == '\x60' || c == '['

/-- What may close an identifier; it need not fit what opened it. -/
def closesName (c : Char) : Bool := c == '"' || c == '\x60' || c == ']'

/-- An identifier, kept without its quotes as part `n`. -/
def name (n : Nat) : Pattern := maybe (char opensName) ++ group n word ++ maybe (char closesName)

/-- The text between two parentheses, kept as part `n`: anything but a closing parenthesis, at least one
character of it. -/
def parenthesized (n : Nat) : Pattern :=
  exactly '(' ++ group n (many (fun c => c != ')') .longest) ++ exactly ')'

/-- A referential action, kept as part `n`; an action of two words is not cut to its first. -/
def action (n : Nat) : Pattern :=
  group n (either (phrase "SET" ["NULL"]) (either (phrase "SET" ["DEFAULT"])
    (either (phrase "NO" ["ACTION"]) word)))

/-- The words that may stand before the name of a thing to be created. -/
def ifNotExists : Pattern := maybe (phrase "IF" ["NOT", "EXISTS"] ++ blanks)

/-- The names in a list with commas: trimmed, without quotes, the empty ones left out. -/
def nameList (s : List Char) : List (List Char) :=
  ((s.splitOnP fun c => c == ',').map fun t => stripQuotes (Text.trim t)).filter fun t => !t.isEmpty
where
  /-- Whether a character is a quote of either side. -/
  isNameQuote (c : Char) : Bool := opensName c || closesName c
  /-- The text without the quotes at its two ends. -/
  stripQuotes (t : List Char) : List Char :=
    ((t.dropWhile isNameQuote).reverse.dropWhile isNameQuote).reverse

end SqlSurvey.Ddl
