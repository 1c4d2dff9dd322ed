import SqlSurvey.TypeScript.Grammar.Basic

/-!
# Grammar: markup

Elements of markup in expressions, with their attributes and what they hold.
-/

namespace SqlSurvey.TypeScript

namespace Grammar

open Rule

/-- A name in markup, which may hold hyphens, dots and colons. -/
def markupName : R := inOrder [part, many (inOrder [firstOf [mark ".", mark ":"], part])]
where
  /-- What stands between dots and colons. -/
  part : R := lexeme .other (Lexeme.upTo fun c => c != '-' && Lexeme.endsIdentifier c)

/-- A string in markup, which has no escapes. -/
def markupString (quote : Char) : R :=
  node .markupString .none (inOrder [
    lexeme .token (Lexeme.exactly [quote]), maybe (glued .other (Lexeme.upTo fun c => c == quote)),
    glued .token (Lexeme.exactly [quote])])

/-- An attribute in markup. -/
def markupAttribute : R :=
  firstOf [
    braces (inOrder [maybe (mark "..."), maybe (call .expression)]),
    inOrder [
      markupName,
      maybe (inOrder [
        mark "=",
        firstOf [markupString '"', markupString '\'', braces (maybe (call .expression)), call .markup]])]]

/-- What an element of markup holds, and its closing tag. -/
def markupContents : R :=
  inOrder [
    many (firstOf [
      glued .other (Lexeme.upTo fun c => c == '<' || c == '\x7b'),
      braces (inOrder [maybe (mark "..."), maybe (call .expression)]), call .markup]),
    mark "<", mark "/", maybe markupName, mark ">"]

/-- An element of markup. Only one with a name may be closed in its opening tag. -/
def markup : R :=
  inOrder [
    mark "<",
    firstOf [
      inOrder [
        markupName, maybe (call .typeArguments), many markupAttribute,
        firstOf [inOrder [mark "/", mark ">"], inOrder [mark ">", markupContents]]],
      inOrder [mark ">", markupContents]]]

end Grammar

end SqlSurvey.TypeScript
