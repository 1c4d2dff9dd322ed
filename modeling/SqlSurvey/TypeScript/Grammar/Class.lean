import SqlSurvey.TypeScript.Grammar.Function

/-!
# Grammar: classes and objects

The members of classes and objects. Whatever stands in them belongs to functions of their own.
-/

namespace SqlSurvey.TypeScript

namespace Grammar

open Rule

/-- The name of a member. -/
def propertyName : R := firstOf [anyWord, privateName, call .string, number, brackets (call .assignment)]

/-- A method, of an object or of a class. -/
def method (body : R) : R :=
  inOrder [
    maybe (mark "*"),
    node .method .none (inOrder [call .propertyName, maybe (mark "?"), call .signature, body])]

/-- An object. -/
def object : R :=
  braces (commaList (firstOf [
    inOrder [mark "...", call .assignment],
    inOrder [modifiers ["get", "set", "async"], method (call .functionBody)],
    inOrder [call .propertyName, mark ":", call .assignment],
    inOrder [identifier, maybe (inOrder [mark "=", call .assignment])]]))

/-- The words before a member of a class. -/
def memberModifiers : R :=
  modifiers ["public", "private", "protected", "static", "override", "readonly", "abstract", "declare",
    "accessor", "async", "get", "set"]

/-- A member of a class. -/
def classMember : R :=
  firstOf [
    mark ";", inOrder [word "static", call .block],
    inOrder [
      many decorator, memberModifiers,
      firstOf [
        -- a type for members under any key, a method, a field
        inOrder [brackets (inOrder [identifier, typed]), typed, semicolon],
        method (firstOf [call .functionBody, semicolon]),
        inOrder [
          call .propertyName, maybe (firstOf [mark "?", mark "!"]), maybe typed,
          maybe (inOrder [mark "=", call .assignment]), semicolon]]]]

/-- The body of a class. A member with parameters is a method, with a body or without one. -/
def classBody : R := node .classBody .body (braces (many classMember))

/-- Types with commas between them. -/
def typeList : R := inOrder [call .type, many (inOrder [mark ",", call .type])]

/-- The word for a class, with its name, what it extends, and its body. -/
def classExpression : R :=
  inOrder [
    many decorator, maybe (word "abstract"), word "class",
    maybe (inOrder [never (word "implements"), declaredName]), maybe (call .typeParameters),
    maybe (inOrder [word "extends", call .operand, maybe (call .typeArguments)]),
    maybe (inOrder [word "implements", typeList]), call .classBody, lineRest]

end Grammar

end SqlSurvey.TypeScript
