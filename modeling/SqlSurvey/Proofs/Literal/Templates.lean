import SqlSurvey.Proofs.Literal.Fragments

/-!
# Program text with templates

Text in which templates alternate with code that holds no literal, and the tree of such a text: its literals
are the templates, one after the other.
-/

namespace SqlSurvey.Literal

/-! ## The text -/

/-- Text in which no literal and no comment begins. -/
def Quiet (s : List Char) : Prop := ∀ c ∈ s, opensLiteral c = false ∧ c ≠ '/'

/-- Text in which every character stands for itself inside a template. -/
def Verbatim (s : List Char) : Prop := ∀ c ∈ s, c ≠ '\x60' ∧ c ≠ '\\' ∧ c ≠ '$'

instance (s : List Char) : Decidable (Quiet s) := inferInstanceAs (Decidable (∀ c ∈ s, _))

/-- Some code, and then templates, each with the code that follows it. -/
def programText (before : List Char) : List (List Char × List Char) → List Char
  | [] => before
  | (body, after) :: rest => before ++ ['\x60'] ++ body ++ ['\x60'] ++ programText after rest

/-! ## The tree -/

/-- Code without literals, before some other code. -/
def Code.quiet (s : List Char) (rest : Code) : Code := s.foldr .plain rest

/-- A template without substitutions and escapes. -/
def Template.verbatim (s : List Char) : Template := s.foldr (fun c rest => .symbol (.char c) rest) .done

/-- The tree of some code, and then templates. -/
def Code.ofTemplates (before : List Char) : List (List Char × List Char) → Code
  | [] => .quiet before .done
  | (body, after) :: rest => .quiet before (.template (.verbatim body) (ofTemplates after rest))

variable {s before : List Char} {rest : Code} {templates : List (List Char × List Char)}

theorem Code.text_quiet (s : List Char) (rest : Code) : (Code.quiet s rest).text = s ++ rest.text := by
  induction s with
  | nil => rfl
  | cons c s ih => exact congrArg (c :: ·) ih

theorem Template.text_verbatim (s : List Char) : (Template.verbatim s).text = s := by
  induction s with
  | nil => rfl
  | cons c s ih => exact congrArg (c :: ·) ih

theorem Code.text_ofTemplates : (Code.ofTemplates before templates).text = programText before templates := by
  induction templates generalizing before with
  | nil => rw [ofTemplates, text_quiet, Code.text, List.append_nil, programText]
  | cons t templates ih =>
    rw [ofTemplates, text_quiet, Code.text, Template.text_verbatim, ih, programText]
    simp

theorem Code.closed_quiet (hs : Quiet s) (h : rest.Closed none) : (Code.quiet s rest).Closed none := by
  induction s with
  | nil => exact h
  | cons c s ih =>
    obtain ⟨hOpens, hSlash⟩ := hs c List.mem_cons_self
    exact ⟨hOpens, fun hc => absurd hc hSlash, fun _ => nofun, ih fun d hd => hs d (List.mem_cons_of_mem c hd)⟩

theorem Template.closed_verbatim (hs : Verbatim s) : (Template.verbatim s).Closed := by
  induction s with
  | nil => trivial
  | cons c s ih =>
    obtain ⟨hBacktick, hBackslash, hDollar⟩ := hs c List.mem_cons_self
    exact ⟨hBacktick, hBackslash, fun hc => absurd hc hDollar, ih fun d hd => hs d (List.mem_cons_of_mem c hd)⟩

theorem Code.closed_ofTemplates (hBefore : Quiet before)
    (h : ∀ t ∈ templates, Verbatim t.1 ∧ Quiet t.2) : (Code.ofTemplates before templates).Closed none := by
  induction templates generalizing before with
  | nil => exact closed_quiet hBefore (.inl rfl)
  | cons t templates ih =>
    obtain ⟨hBody, hAfter⟩ := h t List.mem_cons_self
    have hRest := ih hAfter fun u hu => h u (List.mem_cons_of_mem t hu)
    exact closed_quiet hBefore ⟨Template.closed_verbatim hBody, hRest⟩

/-! ## Its literals -/

theorem Code.occurrences_quiet (s : List Char) (rest : Code) (before : List Char) :
    (Code.quiet s rest).occurrences before = rest.occurrences (before ++ s) := by
  induction s generalizing before with
  | nil => rw [List.append_nil]; rfl
  | cons c s ih =>
    show (Code.quiet s rest).occurrences (before ++ [c]) = _
    rw [ih, List.append_assoc]
    rfl

theorem Template.occurrences_verbatim (s before : List Char) :
    (Template.verbatim s).occurrences before = [] := by
  induction s generalizing before with
  | nil => rfl
  | cons c s ih => exact ih _

/-- The bodies of the literals are those of the templates. -/
theorem Code.map_body_ofTemplates (place : List Char) :
    ((Code.ofTemplates before templates).occurrences place).map Occurrence.body = templates.map Prod.fst := by
  induction templates generalizing before place with
  | nil => rw [ofTemplates, occurrences_quiet]; rfl
  | cons t templates ih =>
    rw [ofTemplates, occurrences_quiet, Code.occurrences, Template.occurrences_verbatim, List.nil_append,
      List.map_cons, ih, Template.text_verbatim, List.map_cons]

end SqlSurvey.Literal
