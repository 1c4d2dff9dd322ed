import SqlSurvey.TypeScript.Grammar.Type

/-!
# Grammar: functions

Functions as statements, as values and as arrows, with their parameters and what parameters are bound to.
-/

namespace SqlSurvey.TypeScript

namespace Grammar

open Rule

/-- What a parameter or variable is bound to: a name, or the parts of a value. -/
def pattern : R :=
  inOrder [
    maybe (mark "..."),
    firstOf [
      braces (commaList (firstOf [
        inOrder [mark "...", call .pattern],
        inOrder [call .propertyName, mark ":", call .pattern, maybe (inOrder [mark "=", call .assignment])],
        inOrder [identifier, maybe (inOrder [mark "=", call .assignment])]])),
      brackets (many (firstOf [
        mark ",", inOrder [call .pattern, maybe (inOrder [mark "=", call .assignment])]])),
      identifier]]

/-- A decorator. -/
def decorator : R :=
  inOrder [
    mark "@", firstOf [parens (call .expression), dottedName], maybe (call .typeArguments),
    many (parens (commaList (inOrder [maybe (mark "..."), call .assignment])))]

/-- A parameter. -/
def parameter : R :=
  node .parameter .none (inOrder [
    many decorator, modifiers ["public", "private", "protected", "override", "readonly"],
    node .other .pattern (call .pattern), maybe (mark "?"), maybe typed,
    maybe (inOrder [mark "=", call .assignment])])

/-- Parameters. -/
def parameters : R := node .other .parameters (parens (commaList parameter))

/-- The parameters and the result of a function. -/
def signature : R := inOrder [maybe (call .typeParameters), call .parameters, maybe resultType]

/-- The word for a function, with the word for an asynchronous one before it. -/
def functionWord : R :=
  inOrder [firstOf [inOrder [word "async", wordHere "function"], word "function"], maybe (mark "*")]

/-- The body of a function. -/
def functionBody : R := node .other .body (braces (call .statements))

/-- A named function as a statement. -/
def functionDeclaration : R :=
  firstOf [
    node .functionDeclaration .none (inOrder [
      functionWord, declaredName, call .signature, call .functionBody, lineRest]),
    node .functionSignature .none (inOrder [functionWord, declaredName, call .signature, semicolon])]

/-- A function as a value. -/
def functionExpression : R :=
  node .functionExpression .none (inOrder [
    functionWord, maybe identifier, call .signature, call .functionBody])

/-- What stands before an arrow. Type parameters are told from markup by what follows the first of them. -/
def arrowHead : R :=
  firstOf [
    inOrder [identifier, ahead (mark "=>")],
    inOrder [
      maybe (firstOf [
        only .typescript (call .typeParameters),
        only .tsx (inOrder [
          ahead (inOrder [mark "<", modifiers ["const"], identifier, firstOf [mark ",", word "extends"]]),
          call .typeParameters])]),
      call .parameters, maybe resultType]]

/-- An arrow function. -/
def arrowFunction : R :=
  node .arrowFunction .none (inOrder [
    firstOf [inOrder [word "async", sameLine, arrowHead, mark "=>"], inOrder [arrowHead, mark "=>"]],
    firstOf [call .functionBody, call .assignment]])

end Grammar

end SqlSurvey.TypeScript
