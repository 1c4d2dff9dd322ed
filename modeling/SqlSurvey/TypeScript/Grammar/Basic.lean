import SqlSurvey.TypeScript.Rule

/-!
# Grammar: symbols and small parts

The symbols by which the rules of the language refer to each other, names, marks and literals. Operators are not
sorted by precedence and types not by kind: what matters is where each statement, function, type and
literal begins and ends.
-/

namespace SqlSurvey.TypeScript

/-- The symbols of the grammar. -/
inductive Symbol where
  | statement
  | statements
  | block
  | functionBody
  | declaration
  | classDeclaration
  | classBody
  | expression
  | assignment
  | operatorTail
  | operand
  | object
  | propertyName
  | pattern
  | parameters
  | typeParameters
  | signature
  | type
  | memberTypes
  | typeArguments
  | string
  | template
  | markup
deriving DecidableEq, Repr

namespace Grammar

open Rule

/-- A rule over the symbols of the grammar. -/
abbrev R : Type := Rule Symbol

/-! ## Names and marks -/

/-- An opening brace. -/
def openBrace : R := mark "\x7b"

/-- A closing brace. -/
def closeBrace : R := mark "\x7d"

/-- What stands in braces. -/
def braces (inner : R) : R := inOrder [openBrace, inner, closeBrace]

/-- What stands in parentheses. -/
def parens (inner : R) : R := inOrder [mark "(", inner, mark ")"]

/-- What stands in brackets. -/
def brackets (inner : R) : R := inOrder [mark "[", inner, mark "]"]

/-- The end of a statement. Where it is not written it is understood at the end of the line, and the comments in the
rest of the line belong to the statement. -/
def semicolon : R := firstOf [mark ";", lineRest]

/-- An identifier. -/
def identifier : R := lexeme .other Lexeme.identifier

/-- A word of any kind. -/
def anyWord : R := lexeme .other Lexeme.word

/-- A name with a number sign. -/
def privateName : R := lexeme .other Lexeme.privateName

/-- The name that a declaration gives. -/
def declaredName : R := node .other .name identifier

/-- Identifiers with dots between them. -/
def dottedName : R := inOrder [identifier, many (inOrder [mark ".", anyWord])]

/-- A given word on the line of the word before it. -/
def wordHere (w : String) : R := inOrder [sameLine, word w]

/-- A place before one of some characters, or at the end of the text. -/
def before (cs : String) : R :=
  ahead (lexeme .token fun s => if s.head?.all cs.toList.contains then some 0 else none)

/-- Any character. -/
def anyCharacter : R := lexeme .token fun s => if s.isEmpty then none else some 1

/-- Modifiers, each of which is not itself the name of what it would modify. -/
def modifiers (ws : List String) : R := many (inOrder [oneWord ws, never (before "(=;,:?!<\x7d)")])

/-! ## Literals -/

/-- A string in one kind of quotes. -/
def quotedString (quote : Char) : R :=
  node .string .none (inOrder [
    lexeme .token (Lexeme.exactly [quote]),
    many (firstOf [glued .other (Lexeme.stringChars quote), glued .other Lexeme.escape]),
    glued .token (Lexeme.exactly [quote])])

/-- A string. -/
def string : R := firstOf [quotedString '\'', quotedString '"']

/-- What stands in backticks, with substitutions that a rule reads. -/
def backticks (kind : Kind) (substitution : R) : R :=
  node kind .none (inOrder [
    mark "\x60",
    many (firstOf [
      glued .other Lexeme.templateChars, glued .other Lexeme.templateEscape,
      node .substitution .none (inOrder [
        glued .token (Lexeme.exactly ['$', '\x7b']), substitution, closeBrace])]),
    glued .token (Lexeme.exactly ['\x60'])])

/-- A template. -/
def template : R := backticks .template (call .expression)

/-- A template as a type. -/
def templateType : R := backticks .templateType (call .type)

/-- A number. -/
def number : R := lexeme .other Lexeme.number

/-- A regular expression. -/
def regex : R := lexeme .other Lexeme.regex

end Grammar

end SqlSurvey.TypeScript
