import SqlSurvey.TypeScript.Grammar.Markup
import SqlSurvey.TypeScript.Grammar.Statement

/-!
# Grammar: rules of symbols

The rule of each symbol, and the rule of a source file.
-/

namespace SqlSurvey.TypeScript

namespace Grammar

open Rule

/-- The rule of a symbol. -/
def rules : Symbol → R
  | .statement => statement
  | .statements => many (call .statement)
  | .block => node .other .none (braces (call .statements))
  | .functionBody => functionBody
  | .declaration => declaration
  | .classDeclaration => node .other .none classExpression
  | .classBody => classBody
  | .expression => expression
  | .assignment => assignment
  | .operatorTail => operatorTail
  | .operand => operand
  | .object => node .other .none object
  | .propertyName => propertyName
  | .pattern => pattern
  | .parameters => parameters
  | .typeParameters => typeParameters
  | .signature => signature
  | .type => node .other .none type
  | .memberTypes => node .other .none memberTypes
  | .typeArguments => typeArguments
  | .string => string
  | .template => template
  | .markup => node .other .none markup

/-- A source file: statements, and whatever no statement begins with. -/
def sourceFile : R :=
  inOrder [
    maybe (glued .other Lexeme.interpreterLine),
    many (firstOf [call .statement, anyCharacter]),
    lexeme .token Lexeme.textEnd]

end Grammar

end SqlSurvey.TypeScript
