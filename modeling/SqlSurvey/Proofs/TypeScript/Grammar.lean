import SqlSurvey.Proofs.TypeScript.Reading

/-!
# The rules of the language

Every rule of the language is sound, so the nodes that it reads cover the text that it reads.
-/

namespace SqlSurvey.TypeScript

namespace Grammar

open Rule

variable {k : Kind} {role : Role} {scan : Scanner} {a b : R}

/-! ## Rules of each form -/

theorem isPlain_iff :
    k.isPlain = true ↔ k ∉ [Kind.string, .markupString, .template, .templateType, .substitution, .comment] := by
  cases k <;> decide

@[simp] theorem isPlain_token : Kind.token.isPlain = true := by decide

@[simp] theorem isPlain_other : Kind.other.isPlain = true := by decide

attribute [simp] Sound.empty Sound.call Sound.ahead Sound.never Sound.sameLine Sound.lineRest

@[simp] theorem sound_lexeme_iff : Sound (.lexeme k scan) ↔ k.isPlain = true :=
  ⟨fun h => by cases h; assumption, .lexeme⟩

@[simp] theorem sound_glued_iff : Sound (.glued k scan) ↔ k.isPlain = true :=
  ⟨fun h => by cases h; assumption, .glued⟩

@[simp] theorem sound_seq_iff : Sound (.seq a b) ↔ Sound a ∧ Sound b :=
  ⟨fun h => by cases h with | seq ha hb => exact ⟨ha, hb⟩, fun h => .seq h.1 h.2⟩

@[simp] theorem sound_either_iff : Sound (.either a b) ↔ Sound a ∧ Sound b :=
  ⟨fun h => by cases h with | either ha hb => exact ⟨ha, hb⟩, fun h => .either h.1 h.2⟩

@[simp] theorem sound_many_iff : Sound (.many a) ↔ Sound a :=
  ⟨fun h => by cases h with | many ha => exact ha, .many⟩

@[simp] theorem sound_only_iff {d : Dialect} : Sound (.only d a) ↔ Sound a :=
  ⟨fun h => by cases h with | only ha => exact ha, .only⟩

/-- A node of code is sound if what it consists of is. -/
@[simp] theorem sound_node_iff
    (hk : k ∉ [Kind.string, .markupString, .template, .templateType, .substitution, .comment]) :
    Sound (.node k role a) ↔ Sound a := by
  refine ⟨fun h => ?_, .node (isPlain_iff.2 hk)⟩
  cases h with
  | node _ ha => exact ha
  | quotedString | markupString => simp at hk
  | backticks hk' => cases k <;> first | simp at hk; done | exact absurd hk' (by decide)

@[simp] theorem sound_inOrder_iff (rs : List R) : Sound (inOrder rs) ↔ ∀ r ∈ rs, Sound r := by
  induction rs with
  | nil => simp [inOrder]
  | cons r rs ih =>
    cases rs with
    | nil => simp [inOrder]
    | cons r' rs =>
      show Sound (.seq r (inOrder (r' :: rs))) ↔ _
      rw [sound_seq_iff, ih]
      exact List.forall_mem_cons.symm

@[simp] theorem sound_firstOf_iff (rs : List R) : Sound (firstOf rs) ↔ ∀ r ∈ rs, Sound r := by
  induction rs with
  | nil => simp [firstOf]
  | cons r rs ih =>
    cases rs with
    | nil => simp [firstOf]
    | cons r' rs =>
      show Sound (.either r (firstOf (r' :: rs))) ↔ _
      rw [sound_either_iff, ih]
      exact List.forall_mem_cons.symm

@[simp] theorem sound_maybe_iff : Sound (maybe a) ↔ Sound a := by simp [maybe]

/-! ## Small parts -/

@[simp] theorem sound_word (w : String) : Sound (word w) := .lexeme rfl

@[simp] theorem sound_oneWord (ws : List String) : Sound (oneWord ws) := .lexeme rfl

@[simp] theorem sound_mark (m : String) : Sound (mark m) := .lexeme rfl

@[simp] theorem sound_markWithout (m others : String) : Sound (markWithout m others) := .lexeme rfl

@[simp] theorem sound_commaList_iff : Sound (commaList a) ↔ Sound a := by simp [commaList]

@[simp] theorem sound_braces_iff : Sound (braces a) ↔ Sound a := by simp [braces, openBrace, closeBrace]

@[simp] theorem sound_parens_iff : Sound (parens a) ↔ Sound a := by simp [parens]

@[simp] theorem sound_brackets_iff : Sound (brackets a) ↔ Sound a := by simp [brackets]

@[simp] theorem sound_semicolon : Sound semicolon := by simp [semicolon]

@[simp] theorem sound_identifier : Sound identifier := .lexeme rfl

@[simp] theorem sound_anyWord : Sound anyWord := .lexeme rfl

@[simp] theorem sound_privateName : Sound privateName := .lexeme rfl

@[simp] theorem sound_number : Sound number := .lexeme rfl

@[simp] theorem sound_regex : Sound regex := .lexeme rfl

@[simp] theorem sound_anyCharacter : Sound anyCharacter := .lexeme rfl

@[simp] theorem sound_modifiers (ws : List String) : Sound (modifiers ws) := by simp [modifiers]

@[simp] theorem sound_wordHere (w : String) : Sound (wordHere w) := by simp [wordHere]

@[simp] theorem sound_before (cs : String) : Sound (before cs) := .ahead

@[simp] theorem sound_declaredName : Sound declaredName := by simp [declaredName]

@[simp] theorem sound_dottedName : Sound dottedName := by simp [dottedName]

@[simp] theorem sound_string : Sound string := by
  have hSingle : Sound (quotedString '\'') := .quotedString rfl
  have hDouble : Sound (quotedString '"') := .quotedString rfl
  simp [string, hSingle, hDouble]

/-! ## Types, functions and classes -/

@[simp] theorem sound_typed : Sound typed := by simp [typed]

@[simp] theorem sound_typeOrPredicate : Sound typeOrPredicate := by simp [typeOrPredicate]

@[simp] theorem sound_resultType : Sound resultType := by simp [resultType]

@[simp] theorem sound_templateType : Sound templateType := .backticks rfl .call

@[simp] theorem sound_simpleType : Sound simpleType := by simp [simpleType, functionType, tupleMember]

@[simp] theorem sound_memberTypes : Sound memberTypes := by simp [memberTypes, typeMember, mappedMark]

@[simp] theorem sound_type : Sound type := by simp [type, joinedType, markedType]

@[simp] theorem sound_decorator : Sound decorator := by simp [decorator]

@[simp] theorem sound_functionDeclaration : Sound functionDeclaration := by
  simp [functionDeclaration, functionWord]

@[simp] theorem sound_functionExpression : Sound functionExpression := by simp [functionExpression, functionWord]

@[simp] theorem sound_arrowFunction : Sound arrowFunction := by simp [arrowFunction, arrowHead]

@[simp] theorem sound_method_iff : Sound (method a) ↔ Sound a := by simp [method]

@[simp] theorem sound_typeList : Sound typeList := by simp [typeList]

@[simp] theorem sound_classExpression : Sound classExpression := by simp [classExpression]

/-! ## Expressions and statements -/

@[simp] theorem sound_markup : Sound markup := by
  have hDouble : Sound (markupString '"') := .markupString rfl
  have hSingle : Sound (markupString '\'') := .markupString rfl
  simp [markup, markupName, markupName.part, markupContents, markupAttribute, hDouble, hSingle]

@[simp] theorem sound_suffix : Sound suffix := by simp [suffix, arguments]

@[simp] theorem sound_operand : Sound operand := by simp [operand, primary]

@[simp] theorem sound_bindings : Sound bindings := by simp [bindings, bindings.binding]

@[simp] theorem sound_declaration : Sound declaration := by simp [declaration]

@[simp] theorem sound_specifiers : Sound specifiers := by simp [specifiers]

@[simp] theorem sound_importStatement : Sound importStatement := by
  simp [importStatement, importStatement.clause, importStatement.everything, fromSource]

@[simp] theorem sound_exportStatement : Sound exportStatement := by simp [exportStatement, fromSource]

@[simp] theorem sound_keywordStatement : Sound keywordStatement := by
  simp [keywordStatement, forHead, forHead.values, switchCase]

/-- The rule of every symbol is sound. -/
theorem sound_rules (symbol : Symbol) : Sound (rules symbol) := by
  cases symbol with
  | template => exact .backticks rfl .call
  | statement => simp [rules, statement, anyLexeme]
  | propertyName => simp [rules, propertyName]
  | pattern => simp [rules, pattern]
  | parameters => simp [rules, parameters, parameter]
  | typeParameters => simp [rules, typeParameters]
  | typeArguments => simp [rules, typeArguments]
  | signature => simp [rules, signature]
  | functionBody => simp [rules, functionBody]
  | classBody => simp [rules, classBody, classMember, memberModifiers]
  | object => simp [rules, object]
  | expression => simp [rules, expression]
  | assignment => simp [rules, assignment, prefixOperator]
  | operatorTail => simp [rules, operatorTail, choice]
  | statements | block | declaration | classDeclaration | operand | type | memberTypes | string | markup =>
    simp [rules]

theorem sound_sourceFile : Sound sourceFile := by simp [sourceFile]

end Grammar

/-- The nodes below the root of a syntax tree cover the source, up to some place. -/
theorem covers_ofSource (dialect : Dialect) (source : List Char) :
    ∃ d, Covers .code ⟨source, 0⟩ (Node.ofSource dialect source).children d := by
  show ∃ d, Covers .code ⟨source, 0⟩ (((Rule.read Grammar.rules dialect (400 * (source.length + 2))
    Grammar.sourceFile ⟨source, 0⟩).map Prod.fst).getD []) d
  cases h : Rule.read Grammar.rules dialect (400 * (source.length + 2)) Grammar.sourceFile ⟨source, 0⟩ with
  | none => exact ⟨_, .done _⟩
  | some p => exact ⟨p.2, Grammar.sound_sourceFile.covers Grammar.sound_rules h⟩

end SqlSurvey.TypeScript
