import SqlSurvey.TypeScript.Grammar.Expression

/-!
# Grammar: statements

Declarations, imports, exports and statements. Text that no statement begins with is taken lexeme by lexeme, so that
what follows it is still read.
-/

namespace SqlSurvey.TypeScript

namespace Grammar

open Rule

/-! ## Declarations -/

/-- The variables of a declaration. -/
def bindings : R :=
  inOrder [
    firstOf [
      oneWord ["var", "let", "const"],
      inOrder [maybe (word "await"), word "using", sameLine, ahead identifier]],
    binding, many (inOrder [mark ",", binding])]
where
  /-- A variable with its type and its value. -/
  binding : R :=
    inOrder [call .pattern, maybe (mark "!"), maybe typed, maybe (inOrder [mark "=", call .assignment])]

/-- A declaration. -/
def declaration : R :=
  firstOf [
    functionDeclaration, inOrder [many decorator, call .classDeclaration],
    -- an enumeration
    node .other .none (inOrder [
      maybe (word "const"), word "enum", identifier,
      braces (commaList (inOrder [call .propertyName, maybe (inOrder [mark "=", call .assignment])]))]),
    node .other .none (inOrder [bindings, semicolon]),
    -- names for types
    node .other .none (inOrder [
      word "interface", identifier, maybe (call .typeParameters), maybe (inOrder [word "extends", typeList]),
      call .memberTypes]),
    node .other .none (inOrder [
      word "type", identifier, maybe (call .typeParameters), mark "=", call .type, semicolon]),
    -- names for scopes
    node .other .none (inOrder [
      oneWord ["namespace", "module"], sameLine, firstOf [call .string, dottedName], maybe (call .block),
      semicolon]),
    -- what is defined elsewhere
    node .other .none (inOrder [
      word "declare", sameLine,
      firstOf [
        inOrder [word "global", call .block], inOrder [word "module", mark ".", identifier, typed, semicolon],
        call .declaration]]),
    -- an import under another name
    node .other .none (inOrder [
      word "import", maybe (word "type"), identifier, mark "=",
      firstOf [inOrder [word "require", parens (call .string)], dottedName], semicolon])]

/-! ## Modules -/

/-- The names that are imported or exported one by one. -/
def specifiers : R := braces (commaList (many (firstOf [anyWord, call .string])))

/-- The source of an import or export. -/
def fromSource : R :=
  inOrder [word "from", call .string, maybe (inOrder [oneWord ["with", "assert"], call .object])]

/-- An import. -/
def importStatement : R :=
  node .other .none (inOrder [
    word "import",
    firstOf [
      inOrder [call .string, maybe (inOrder [oneWord ["with", "assert"], call .object])],
      inOrder [maybe (inOrder [oneWord ["type", "typeof"], never (word "from")]), clause, fromSource]],
    semicolon])
where
  /-- All names under one. -/
  everything : R := inOrder [mark "*", word "as", identifier]
  /-- What is imported. -/
  clause : R :=
    firstOf [
      everything, specifiers,
      inOrder [identifier, maybe (inOrder [mark ",", firstOf [everything, specifiers]])]]

/-- An export. -/
def exportStatement : R :=
  node .exportStatement .none (inOrder [
    many decorator, word "export",
    firstOf [
      inOrder [
        maybe (word "type"), mark "*", maybe (inOrder [word "as", firstOf [anyWord, call .string]]),
        fromSource, semicolon],
      inOrder [maybe (word "type"), specifiers, maybe fromSource, semicolon],
      inOrder [word "default", firstOf [call .declaration, inOrder [call .expression, semicolon]]],
      inOrder [mark "=", call .expression, semicolon],
      inOrder [word "as", word "namespace", identifier, semicolon], call .declaration]])

/-! ## Statements -/

/-- The head of a loop: over the parts of a value, or with a start, a test and a step. -/
def forHead : R :=
  firstOf [
    inOrder [maybe (oneWord ["var", "let", "const", "using"]), call .pattern, maybe typed, values],
    inOrder [call .operand, values],
    inOrder [
      maybe (firstOf [bindings, call .expression]), mark ";", maybe (call .expression), mark ";",
      maybe (call .expression)]]
where
  /-- The value that is looped over. -/
  values : R := inOrder [oneWord ["in", "of"], call .expression]

/-- A case of a switch, with its statements. -/
def switchCase : R :=
  node .other .none (inOrder [
    firstOf [inOrder [word "case", call .expression], word "default"], mark ":", call .statements])

/-- A statement that begins with a word of its own. -/
def keywordStatement : R :=
  firstOf [
    inOrder [
      word "if", parens (call .expression), call .statement,
      maybe (node .other .none (inOrder [word "else", call .statement]))],
    inOrder [word "for", maybe (word "await"), parens forHead, call .statement],
    inOrder [word "while", parens (call .expression), call .statement],
    inOrder [word "do", call .statement, word "while", parens (call .expression), semicolon],
    inOrder [word "switch", parens (call .expression), braces (many switchCase)],
    inOrder [
      word "try", call .block,
      maybe (inOrder [word "catch", maybe (parens (inOrder [call .pattern, maybe typed])), call .block]),
      maybe (inOrder [word "finally", call .block])],
    inOrder [word "return", maybe (inOrder [sameLine, call .expression]), semicolon],
    inOrder [word "throw", call .expression, semicolon],
    inOrder [oneWord ["break", "continue"], maybe (inOrder [sameLine, identifier]), semicolon],
    inOrder [word "debugger", semicolon], inOrder [word "with", parens (call .expression), call .statement],
    inOrder [identifier, mark ":", call .statement]]

/-- A lexeme of any kind, except one that closes a block or opens a case. -/
def anyLexeme : R :=
  inOrder [
    never (firstOf [closeBrace, word "case", word "default"]),
    firstOf [call .string, call .template, number, anyWord, anyCharacter]]

/-- A statement, or a comment in the manner of markup where one could stand. -/
def statement : R :=
  firstOf [
    call .block, lexeme .other Lexeme.markupComment, node .other .none (mark ";"), exportStatement,
    call .declaration, importStatement, node .other .none keywordStatement,
    node .other .none (inOrder [call .expression, semicolon]), anyLexeme]

end Grammar

end SqlSurvey.TypeScript
