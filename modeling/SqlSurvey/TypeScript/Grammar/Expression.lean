import SqlSurvey.TypeScript.Grammar.Class

/-!
# Grammar: expressions

Expressions as operands with operators between them. Type arguments are told from comparisons by what follows
them.
-/

namespace SqlSurvey.TypeScript

namespace Grammar

open Rule

/-- Arguments of a call. -/
def arguments : R := parens (commaList (inOrder [maybe (mark "..."), call .assignment]))

/-- The signs and words before an operand. -/
def prefixOperator : R :=
  firstOf [
    oneWord ["typeof", "void", "delete", "await"], inOrder [word "new", never (mark ".")], mark "++",
    mark "--", mark "!", mark "~", mark "+", mark "-",
    only .typescript (inOrder [mark "<", call .type, mark ">"])]

/-- What an operand begins with. -/
def primary : R :=
  firstOf [
    call .string, call .template, number, regex, parens (call .expression),
    brackets (many (firstOf [mark ",", inOrder [maybe (mark "..."), call .assignment]])), functionExpression,
    call .classDeclaration, call .object, inOrder [word "new", mark ".", anyWord], only .tsx (call .markup),
    word "import", identifier, privateName]

/-- What may follow an operand and belongs to it. Type arguments without a call stand only where an operand may
end. -/
def suffix : R :=
  firstOf [
    inOrder [mark ".", firstOf [anyWord, privateName]],
    inOrder [
      lexeme .token Lexeme.optionalChain,
      firstOf [
        anyWord, privateName, brackets (call .expression), inOrder [maybe (call .typeArguments), arguments],
        call .template]],
    brackets (call .expression), arguments, call .template,
    inOrder [call .typeArguments, firstOf [arguments, call .template, before ")],;:.\x7d"]],
    -- behind a line end these marks belong to what follows
    inOrder [sameLine, firstOf [markWithout "!" "=", mark "++", mark "--"]]]

/-- An operand with what follows it. -/
def operand : R := inOrder [primary, many suffix]

/-- A choice between two values. Where the first one is in parentheses, a colon behind it belongs to the
choice. -/
def choice : R :=
  inOrder [
    lexeme .token Lexeme.question,
    firstOf [
      inOrder [call .assignment, mark ":", call .assignment],
      inOrder [
        parens (call .expression), many suffix, maybe (call .operatorTail), mark ":", call .assignment]]]

/-- What may follow an operand as its context. -/
def operatorTail : R :=
  firstOf [
    inOrder [oneWord ["in", "instanceof"], call .assignment],
    inOrder [sameLine, oneWord ["as", "satisfies"], call .type, maybe (call .operatorTail)],
    inOrder [lexeme .token Lexeme.operator, call .assignment], choice]

/-- An expression without commas. -/
def assignment : R :=
  firstOf [
    arrowFunction,
    -- a name may be spelled like this word
    inOrder [
      word "yield", maybe (inOrder [sameLine, maybe (mark "*"), call .assignment]),
      never (firstOf [mark "=", mark "(", mark "."])],
    inOrder [
      firstOf [inOrder [many prefixOperator, call .operand], call .operand], maybe (call .operatorTail)]]

/-- An expression. -/
def expression : R := inOrder [call .assignment, many (inOrder [mark ",", call .assignment])]

end Grammar

end SqlSurvey.TypeScript
