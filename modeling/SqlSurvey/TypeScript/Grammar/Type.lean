import SqlSurvey.TypeScript.Grammar.Basic

/-!
# Grammar: types

Types, with what stands before them behind a name, and the parameters and arguments of types.
-/

namespace SqlSurvey.TypeScript

namespace Grammar

open Rule

/-- The type of what precedes it. -/
def typed : R := node .other .type (inOrder [mark ":", call .type])

/-- A type, or what a call proves about a name. -/
def typeOrPredicate : R :=
  firstOf [
    inOrder [word "asserts", sameLine, identifier, maybe (inOrder [wordHere "is", call .type])],
    inOrder [identifier, wordHere "is", call .type], call .type]

/-- The type of a result. -/
def resultType : R := node .other .returnType (inOrder [mark ":", typeOrPredicate])

/-- Type arguments. -/
def typeArguments : R := inOrder [mark "<", commaList (call .type), mark ">"]

/-- Type parameters. -/
def typeParameters : R :=
  inOrder [
    mark "<",
    commaList (inOrder [
      modifiers ["const", "in", "out"], maybe (word "const"), identifier,
      maybe (inOrder [word "extends", call .type]), maybe (inOrder [mark "=", call .type])]),
    mark ">"]

/-- A function type, also of a constructor. -/
def functionType : R :=
  inOrder [
    maybe (word "abstract"), maybe (word "new"), maybe (call .typeParameters), call .parameters, mark "=>",
    typeOrPredicate]

/-- The optional sign and mark of a mapped type. -/
def mappedMark (m : R) : R := maybe (firstOf [inOrder [mark "+", m], inOrder [mark "-", m], m])

/-- A member of an object type. -/
def typeMember : R :=
  firstOf [
    -- one member for each member of another type
    inOrder [
      mappedMark (word "readonly"),
      brackets (inOrder [identifier, word "in", call .type, maybe (inOrder [word "as", call .type])]),
      mappedMark (mark "?"), maybe typed],
    -- members under any key of a type
    inOrder [modifiers ["readonly", "static"], brackets (inOrder [identifier, typed]), typed],
    -- a call without a name
    inOrder [maybe (word "new"), maybe (call .typeParameters), call .parameters, maybe resultType],
    -- a method or a property
    inOrder [
      modifiers ["readonly", "get", "set", "static", "public", "private", "protected"], call .propertyName,
      maybe (mark "?"),
      firstOf [inOrder [maybe (call .typeParameters), call .parameters, maybe resultType], maybe typed]]]

/-- The members of an object type. -/
def memberTypes : R :=
  braces (many (firstOf [inOrder [typeMember, maybe (firstOf [mark ",", mark ";"])], mark ";", mark ","]))

/-- A member of a tuple type. -/
def tupleMember : R :=
  inOrder [
    maybe (mark "..."),
    firstOf [
      inOrder [anyWord, maybe (mark "?"), mark ":", call .type], inOrder [call .type, maybe (mark "?")]]]

/-- A type that no other type is a part of without brackets. -/
def simpleType : R :=
  firstOf [
    functionType, parens (call .type), call .memberTypes, brackets (commaList tupleMember), call .string,
    templateType, number, inOrder [mark "-", number],
    -- the type of a value
    inOrder [
      word "typeof", firstOf [inOrder [word "import", parens (call .type)], anyWord],
      many (inOrder [mark ".", firstOf [anyWord, privateName]]), maybe (call .typeArguments)],
    -- a type of another module
    inOrder [
      word "import", parens (commaList (firstOf [call .type, call .object])),
      many (inOrder [mark ".", anyWord]), maybe (call .typeArguments)],
    inOrder [
      firstOf [oneWord ["void", "const"], identifier], many (inOrder [mark ".", anyWord]),
      maybe (call .typeArguments)]]

/-- A type with the words before it and the brackets behind it. -/
def markedType : R :=
  inOrder [
    many (firstOf [
      inOrder [oneWord ["keyof", "unique", "readonly"], never (before ",)>]=;|&\x7d.")],
      inOrder [word "infer", ahead identifier]]),
    simpleType, many (inOrder [sameLine, brackets (maybe (call .type))])]

/-- Types joined by bars and ampersands. -/
def joinedType : R :=
  inOrder [
    maybe (firstOf [mark "|", mark "&"]), markedType,
    many (inOrder [firstOf [markWithout "|" "|=", markWithout "&" "&="], markedType])]

/-- A type. -/
def type : R :=
  inOrder [
    joinedType,
    maybe (inOrder [
      sameLine, word "extends", joinedType, maybe (inOrder [mark "?", call .type, mark ":", call .type])])]

end Grammar

end SqlSurvey.TypeScript
