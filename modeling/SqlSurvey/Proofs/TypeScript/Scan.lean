import SqlSurvey.Proofs.TypeScript.Lexeme
import SqlSurvey.Proofs.Literal.Scan
import SqlSurvey.Proofs.Sql.Pieces

/-!
# The scanner on the parts of a source

What the scanner of literals does with the text of one lexeme, comment, string or part of a template, if it is
clear to the scanner what it reads: it is back in the mode in which it has begun.
-/

namespace SqlSurvey.TypeScript

/-! ## Braces -/

/-- How many braces are open after a text inside a substitution, if the text stands in one. -/
def depthsAfter (text : List Char) : Option Nat → Option (Option Nat)
  | none => some none
  | some depth => (depthAfter text depth).map some

theorem depthAfter_append (s t : List Char) (depth : Nat) :
    depthAfter (s ++ t) depth = (depthAfter s depth).bind (depthAfter t) := by
  induction s generalizing depth with
  | nil => rfl
  | cons c s ih =>
    rw [List.cons_append, depthAfter, depthAfter]
    split
    · rfl
    · exact ih _

theorem depthsAfter_append (s t : List Char) (inside : Option Nat) :
    depthsAfter (s ++ t) inside = (depthsAfter s inside).bind (depthsAfter t) := by
  cases inside with
  | none => rfl
  | some depth =>
    rw [depthsAfter, depthAfter_append, depthsAfter]
    cases depthAfter s depth <;> rfl

theorem depthsAfter_cons {c : Char} {text : List Char} {inside inside' : Option Nat}
    (h : depthsAfter (c :: text) inside = some inside') :
    (c = '\x7d' → inside ≠ some 0) ∧ depthsAfter text (inside.map (Literal.braceDepth c)) = some inside' := by
  cases inside with
  | none => exact ⟨fun _ => by simp, h⟩
  | some depth =>
    rw [depthsAfter, depthAfter] at h
    split at h
    · cases h
    · rename_i hc
      rw [not_and] at hc
      exact ⟨fun hBrace hZero => hc hBrace (Option.some.inj hZero), h⟩

/-- A text without braces leaves as many open as there were. -/
theorem depthsAfter_of_forall {text : List Char} (h : ∀ c ∈ text, c ≠ '\x7b' ∧ c ≠ '\x7d')
    (inside : Option Nat) : depthsAfter text inside = some inside := by
  cases inside with
  | none => rfl
  | some depth =>
    induction text with
    | nil => rfl
    | cons c text ih =>
      rw [List.forall_mem_cons] at h
      have hSame : Literal.braceDepth c depth = depth := by rw [Literal.braceDepth, if_neg h.1.1, if_neg h.1.2]
      rw [depthsAfter, depthAfter, if_neg fun hc => h.1.2 hc.1, hSame]
      exact ih h.2

theorem eq_of_depthsAfter_nil {inside inside' : Option Nat} (h : depthsAfter [] inside = some inside') :
    inside' = inside := by
  rw [depthsAfter_of_forall (by simp)] at h
  exact (Option.some.inj h).symm

/-! ## White space -/

namespace Lexeme

/-- White space is none of the characters that the scanner knows. -/
theorem ne_of_isSpace {x : Char} (hx : isSpace x = true) :
    Literal.opensLiteral x = false ∧ x ≠ '/' ∧ x ≠ '\x7b' ∧ x ≠ '\x7d' := by
  have hMarks : ∀ y ∈ ['\'', '"', '\x60', '/', '\x7b', '\x7d'], isSpace y = false := by decide
  have hNot : ∀ y ∈ ['\'', '"', '\x60', '/', '\x7b', '\x7d'], x ≠ y := by
    rintro y hy rfl
    rw [hMarks x hy] at hx
    cases hx
  simp only [List.forall_mem_cons] at hNot
  obtain ⟨hSingle, hDouble, hBacktick, hSlash, hOpen, hClose, -⟩ := hNot
  exact ⟨by simp [Literal.opensLiteral, hSingle, hDouble, hBacktick], hSlash, hOpen, hClose⟩

theorem quiet_of_isSpace {w : List Char} (hw : ∀ x ∈ w, isSpace x = true) (rest : List Char) :
    quiet w rest = true := by
  induction w with
  | nil => rfl
  | cons x w ih =>
    rw [List.forall_mem_cons] at hw
    obtain ⟨hOpens, hSlash, -, -⟩ := ne_of_isSpace hw.1
    simp [quiet, hOpens, hSlash, ih hw.2]

theorem depthsAfter_of_isSpace {w : List Char} (hw : ∀ x ∈ w, isSpace x = true) (inside : Option Nat) :
    depthsAfter w inside = some inside :=
  depthsAfter_of_forall (fun x hx => (ne_of_isSpace (hw x hx)).2.2) inside

end Lexeme

end SqlSurvey.TypeScript

namespace SqlSurvey.Literal

namespace State

open TypeScript

variable {before rest : List Char} {frames outer : List Frame} {found : List Literal} {start : Nat}
  {inside inside' : Option Nat}

/-! ## Code and comments -/

/-- Quiet code is passed over, and its braces are counted. -/
theorem outcome_quiet {text : List Char} (hQuiet : quiet text rest = true)
    (hDepths : depthsAfter text inside = some inside') :
    (past before .code (stack start outer inside) found).outcome (text ++ rest) =
      (past (before ++ text) .code (stack start outer inside') found).outcome rest := by
  induction text generalizing before inside with
  | nil =>
    rw [List.append_nil, eq_of_depthsAfter_nil hDepths]
    rfl
  | cons c text ih =>
    obtain ⟨hBrace, hRest⟩ := depthsAfter_cons hDepths
    rw [quiet, Bool.and_eq_true, Bool.and_eq_true, Bool.not_eq_true', Bool.not_eq_true', Bool.and_eq_false_imp,
      beq_iff_eq] at hQuiet
    obtain ⟨⟨hOpens, hSlash⟩, hQuiet⟩ := hQuiet
    have hNext : c = '/' → (text ++ rest).head? ≠ some '/' ∧ (text ++ rest).head? ≠ some '*' := by
      intro hc
      have hNone := hSlash hc
      cases hHead : (text ++ rest).head? with
      | none => simp
      | some d => simpa [hHead] using hNone
    rw [List.cons_append, outcome_code_plain hOpens hNext hBrace, ih hQuiet hRest, List.append_assoc]
    rfl

theorem exists_stack (frames : List Frame) : ∃ start outer inside, frames = stack start outer inside := by
  cases frames with
  | nil => exact ⟨0, [], none, rfl⟩
  | cons f outer => exact ⟨f.start, outer, some f.depth, rfl⟩

theorem outcome_space {w : List Char} (hw : ∀ x ∈ w, Lexeme.isSpace x = true) :
    (past before .code frames found).outcome (w ++ rest) = (past (before ++ w) .code frames found).outcome rest := by
  obtain ⟨start, outer, inside, rfl⟩ := exists_stack frames
  exact outcome_quiet (Lexeme.quiet_of_isSpace hw rest) (Lexeme.depthsAfter_of_isSpace hw inside)

/-- A line comment is over where only white space stands before the next line feed. -/
theorem outcome_lineComment_of_lineIsOver (h : lineIsOver rest = true) :
    (past before .lineComment frames found).outcome rest = (past before .code frames found).outcome rest := by
  induction rest generalizing before with
  | nil => exact outcome_lineComment (by simp)
  | cons c rest ih =>
    by_cases hc : c = '\n'
    · exact outcome_lineComment (by simp [hc])
    · have hLine : Lexeme.isSpace c = true ∧ lineIsOver rest = true := by
        simpa [lineIsOver, List.takeWhile_cons, hc] using h
      -- white space is passed over in either mode
      have hReact : (past before .lineComment frames found).react c = past before .lineComment frames found :=
        if_neg hc
      have hSpace : (past before .code frames found).outcome ([c] ++ rest) = _ :=
        outcome_space (by simpa using hLine.1)
      rw [outcome_cons, step_past _ hReact, ih hLine.2]
      exact hSpace.symm

/-- A comment is passed over, if it is one of a line only where its line is over. -/
theorem outcome_comment {s : List Char} {n : Nat} (h : Lexeme.commentTail s = some n)
    (hLine : ['/', '/'].isPrefixOf s = true → lineIsOver (s.drop (n + 1)) = true) :
    (past before .code frames found).outcome s =
      (past (before ++ s.take (n + 1)) .code frames found).outcome (s.drop (n + 1)) := by
  unfold Lexeme.commentTail at h
  split at h
  · -- a line
    rename_i r
    obtain rfl := Option.some.inj h
    have hBody : '\n' ∉ r.takeWhile fun c => !Lexeme.isLineEnd c := by
      intro hMem
      have := List.all_eq_true.1 List.all_takeWhile _ hMem
      revert this
      decide
    have hOver := hLine rfl
    rw [List.drop_succ_cons, List.drop_succ_cons, List.take_succ_cons, List.take_succ_cons,
      Lexeme.take_length_takeWhile] at *
    have hSplit : r = (r.takeWhile fun c => !Lexeme.isLineEnd c) ++
        r.drop (r.takeWhile fun c => !Lexeme.isLineEnd c).length := by
      have hTake := List.take_append_drop (r.takeWhile fun c => !Lexeme.isLineEnd c).length r
      rw [Lexeme.take_length_takeWhile] at hTake
      exact hTake.symm
    have hOpen : ∀ t, (past before .code frames found).outcome ('/' :: '/' :: t) =
        (past (before ++ ['/'] ++ ['/']) .lineComment frames found).outcome t := by
      intro t
      rw [outcome_cons, step_past .slash rfl, outcome_cons]
      exact congrArg (outcome · t) (step_past .lineComment rfl)
    rw [hOpen]
    conv_lhs => rw [hSplit]
    rw [outcome_append, run_lineComment hBody, outcome_lineComment_of_lineIsOver hOver]
    simp
  · -- a block
    rename_i r
    obtain ⟨p, hCut, rfl⟩ := Option.map_eq_some_iff.1 h
    obtain ⟨inner, hInner, hFirst⟩ := Sql.cutAfter_spec (by simp) hCut
    have hText : r = inner ++ ['*', '/'] ++ p.2 := by rw [← hInner, Sql.cutAfter_append hCut]
    have hLength : p.1.length + 1 + 1 = (['/', '*'] ++ inner ++ ['*', '/']).length := by
      rw [hInner]
      simp
    have hSplit : '/' :: '*' :: r = ['/', '*'] ++ inner ++ ['*', '/'] ++ p.2 := by
      rw [hText]
      simp
    rw [hSplit, hLength, List.take_left, List.drop_left, outcome_code_blockComment hFirst]
  · cases h

/-! ## Strings -/

/-- The units of a text that is not broken and holds no quote. -/
theorem exists_quotedBody {q : Char} {body : List Char} (hQuote : quoteless q body = true)
    (hBroken : unbroken body = true) : ∃ us, symbolsText us = body ∧ QuotedBody q us := by
  fun_induction unbroken body with
  | case1 => exact ⟨[], rfl, trivial⟩
  | case2 x body ih =>
    rw [quoteless] at hQuote
    obtain ⟨us, hText, hBody⟩ := ih hQuote hBroken
    exact ⟨.escape x :: us, by rw [symbolsText_cons, hText]; rfl, hBody⟩
  | case3 c body hEscape ih =>
    rw [Bool.and_eq_true, Bool.and_eq_true, bne_iff_ne, bne_iff_ne] at hBroken
    obtain ⟨⟨hBackslash, hLine⟩, hBroken⟩ := hBroken
    rw [quoteless_cons hBackslash, Bool.and_eq_true, bne_iff_ne] at hQuote
    obtain ⟨us, hText, hBody⟩ := ih hQuote.2 hBroken
    exact ⟨.char c :: us, by rw [symbolsText_cons, hText]; rfl, hQuote.1, hBackslash, hLine, hBody⟩

/-! ## Templates -/

theorem outcome_templateChars {s : List Char} {n : Nat} (h : Lexeme.templateChars s = some n) :
    (past before (.template start) frames found).outcome s =
      (past (before ++ s.take n) (.template start) frames found).outcome (s.drop n) := by
  obtain rfl : Lexeme.templateLength s = n := by
    unfold Lexeme.templateChars at h
    split at h
    · cases h
    · exact Option.some.inj h
  clear h
  fun_induction Lexeme.templateLength s generalizing before with
  | case1 => simp
  | case2 => simp
  | case3 => simp
  | case4 => simp
  | case5 c r hQuote hEscape hDollar ih =>
    have hNext : c = '$' → r.head? ≠ some '\x7b' := by
      rintro rfl hHead
      obtain ⟨t, rfl⟩ := List.head?_eq_some_iff.1 hHead
      exact hDollar t rfl rfl
    rw [outcome_template_char hQuote hEscape hNext, ih, List.take_succ_cons, List.drop_succ_cons, List.append_assoc]
    rfl

/-! ## What has been recorded -/

theorem found_suffix_record (s : State) (start width stop : Nat) : s.found <:+ (s.record start width stop).found :=
  List.suffix_cons _ _

theorem found_suffix_stepCode (s : State) (c : Char) : s.found <:+ (s.stepCode c).found := by
  unfold stepCode
  repeat' split
  all_goals exact List.suffix_rfl

theorem found_suffix_stepTemplate (s : State) (start : Nat) (c : Char) :
    s.found <:+ (s.stepTemplate start c).found := by
  unfold stepTemplate
  repeat' split
  all_goals first | exact List.suffix_rfl | exact found_suffix_record ..

theorem found_suffix_stepQuoted (s : State) (quote : Char) (start : Nat) (c : Char) :
    s.found <:+ (s.stepQuoted quote start c).found := by
  unfold stepQuoted
  repeat' split
  all_goals first | exact List.suffix_rfl | exact found_suffix_record ..

theorem found_suffix_stepTripled (s : State) (quote : Char) (start closing : Nat) (c : Char) :
    s.found <:+ (s.stepTripled quote start closing c).found := by
  unfold stepTripled
  repeat' split
  all_goals first | exact List.suffix_rfl | exact found_suffix_record ..

/-- A step adds to what has been recorded. -/
theorem found_suffix_step (s : State) (c : Char) : s.found <:+ (s.step c).found := by
  show s.found <:+ (s.react c).found
  unfold react
  repeat' split
  all_goals first
    | exact List.suffix_rfl
    | exact found_suffix_stepTemplate ..
    | exact found_suffix_stepQuoted ..
    | exact found_suffix_stepTripled ..
    | exact found_suffix_stepCode ..
    | exact (found_suffix_record ..).trans (found_suffix_stepCode ..)

/-- What has been recorded stays recorded. -/
theorem mem_outcome_of_mem {s : State} {l : Literal} (h : l ∈ s.found) (text : List Char) : l ∈ s.outcome text := by
  induction text generalizing s with
  | nil =>
    show l ∈ s.literals
    unfold literals
    split
    · exact List.mem_reverse.2 (List.mem_cons_of_mem _ h)
    · exact List.mem_reverse.2 h
  | cons c text ih => exact ih ((found_suffix_step s c).subset h)

end State

end SqlSurvey.Literal
