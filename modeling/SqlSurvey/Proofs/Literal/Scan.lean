import SqlSurvey.Proofs.Literal.Grammar

/-!
# The scanner on closed text

What the scanner does with each piece of a closed text, read from code to code. A slash, two quotes and a
line comment leave it in a mode of their own until the next character is seen; what it records in the
end is the same as if it were back in code already.
-/

namespace SqlSurvey.Literal

/-- The offsets that are recorded for a literal. -/
def Occurrence.literal (o : Occurrence) : Literal :=
  let stop := Text.byteLength (o.before ++ o.text)
  let width := Text.byteLength o.delimiter
  ⟨Text.byteLength o.before, stop, Text.byteLength o.before + width, stop - width⟩

namespace State

variable {before t : List Char} {mode : Mode} {frames : List Frame} {found : List Literal} {q : Char}
  {start : Nat}

/-! ## What is recorded in the end -/

/-- The literals recorded when a text has been read to its end. -/
def outcome (s : State) (text : List Char) : List Literal := (s.run text).literals

theorem outcome_cons (s : State) (c : Char) (t : List Char) : s.outcome (c :: t) = (s.step c).outcome t := rfl

theorem outcome_append (s : State) (a t : List Char) : s.outcome (a ++ t) = (s.run a).outcome t := by
  rw [outcome, run_append]
  rfl

/-- The state in which the text `before` has been read. -/
def past (before : List Char) (mode : Mode) (frames : List Frame) (found : List Literal) : State :=
  ⟨Text.byteLength before, mode, frames, found⟩

theorem run_cons (s : State) (c : Char) (t : List Char) : s.run (c :: t) = (s.step c).run t := rfl

/-- A step, from what it does to the state apart from the place. -/
theorem step_past {c : Char} {frames' : List Frame} {found' : List Literal} (next : Mode)
    (h : (past before mode frames found).react c = past before next frames' found') :
    (past before mode frames found).step c = past (before ++ [c]) next frames' found' := by
  rw [step, h]
  simp [past]

/-- Code is read the same whatever the mode was. -/
theorem stepCode_enter (s : State) (mode : Mode) (c : Char) : (s.enter mode).stepCode c = s.stepCode c := rfl

/-- A slash that begins no comment is code. -/
theorem outcome_slash (hLine : t.head? ≠ some '/') (hBlock : t.head? ≠ some '*') :
    (past before .slash frames found).outcome t = (past before .code frames found).outcome t := by
  cases t with
  | nil => rfl
  | cons c t =>
    have hc : c ≠ '/' ∧ c ≠ '*' := by simpa using And.intro hLine hBlock
    have hReact : (past before .slash frames found).react c = (past before .code frames found).react c := by
      show (if c = '/' then _ else if c = '*' then _ else _) = _
      rw [if_neg hc.1, if_neg hc.2]
      exact stepCode_enter (past before .code frames found) .slash c
    rw [outcome_cons, outcome_cons, step, step, hReact]
    rfl

/-- A line comment is over at the end of its line. -/
theorem outcome_lineComment (h : ∀ c ∈ t.head?, c = '\n') :
    (past before .lineComment frames found).outcome t = (past before .code frames found).outcome t := by
  cases t with
  | nil => rfl
  | cons c t =>
    obtain rfl : c = '\n' := h c rfl
    have hReact : (past before .lineComment frames found).react '\n' =
        (past before .code frames found).react '\n' := by
      cases frames <;> rfl
    rw [outcome_cons, outcome_cons, step, step, hReact]
    rfl

/-- Two quotes before anything but a third one are the empty string. -/
theorem outcome_twoQuotes (h : t.head? ≠ some q) :
    (past before (.twoQuotes q start) frames found).outcome t =
      (past before .code frames (⟨start, Text.byteLength before, start + 1, Text.byteLength before - 1⟩ ::
        found)).outcome t := by
  cases t with
  | nil => rfl
  | cons c t =>
    have hc : c ≠ q := by simpa using h
    have hReact : (past before (.twoQuotes q start) frames found).react c =
        (past before .code frames (⟨start, Text.byteLength before, start + 1, Text.byteLength before - 1⟩ ::
          found)).react c := by
      show (if c = q then _ else _) = _
      rw [if_neg hc]
      rfl
    rw [outcome_cons, outcome_cons, step, step, hReact]
    rfl

/-- A dollar sign that opens no substitution is text of the template. -/
theorem outcome_templateDollar (h : t.head? ≠ some '\x7b') :
    (past before (.templateDollar start) frames found).outcome t =
      (past before (.template start) frames found).outcome t := by
  cases t with
  | nil => rfl
  | cons c t =>
    have hc : c ≠ '\x7b' := by simpa using h
    have hReact : (past before (.templateDollar start) frames found).react c =
        (past before (.template start) frames found).react c := by
      show (if c = '\x7b' then _ else stepTemplate _ start c) = stepTemplate _ start c
      rw [if_neg hc]
      rfl
    rw [outcome_cons, outcome_cons, step, step, hReact]
    rfl

/-! ## Comments -/

theorem run_lineComment {body : List Char} (h : '\n' ∉ body) :
    (past before .lineComment frames found).run body =
      past (before ++ body) .lineComment frames found := by
  induction body generalizing before with
  | nil => rw [List.append_nil]; rfl
  | cons c body ih =>
    rw [List.mem_cons, not_or] at h
    have hReact : (past before .lineComment frames found).react c =
        past before .lineComment frames found := if_neg (Ne.symm h.1)
    rw [run_cons, step_past .lineComment hReact, ih h.2, List.append_assoc]
    rfl

/-- A block comment is left where its mark first comes. After a star, that is at once if a slash comes next;
the body rules this out. -/
theorem run_blockComment {body : List Char} (h : ¬ ['*', '/'] <:+: body ++ ['*']) :
    (past before .blockComment frames found).run (body ++ ['*', '/']) =
        past (before ++ (body ++ ['*', '/'])) .code frames found ∧
      (body.head? ≠ some '/' → (past before .blockCommentStar frames found).run (body ++ ['*', '/']) =
        past (before ++ (body ++ ['*', '/'])) .code frames found) := by
  induction body generalizing before with
  | nil =>
    refine ⟨?_, fun _ => ?_⟩
    · rw [List.nil_append, run_cons, step_past .blockCommentStar rfl, run_cons, step_past .code rfl,
        List.append_assoc]
      rfl
    · rw [List.nil_append, run_cons, step_past .blockCommentStar rfl, run_cons, step_past .code rfl,
        List.append_assoc]
      rfl
  | cons c body ih =>
    rw [List.cons_append, List.infix_cons_iff, not_or] at h
    have hBody := fun b => @ih b h.2
    by_cases hStar : c = '*'
    · -- a star keeps the end in reach, and no slash follows it
      subst hStar
      have hHead : body.head? ≠ some '/' := by
        intro hb
        obtain ⟨rest, rfl⟩ := List.head?_eq_some_iff.1 hb
        exact h.1 (by simp)
      have hRun := (hBody (before ++ ['*'])).2 hHead
      rw [List.append_assoc] at hRun
      refine ⟨?_, fun _ => ?_⟩
      · rw [List.cons_append, run_cons, step_past .blockCommentStar rfl]
        exact hRun
      · rw [List.cons_append, run_cons, step_past .blockCommentStar rfl]
        exact hRun
    · have hRun := (hBody (before ++ [c])).1
      rw [List.append_assoc] at hRun
      refine ⟨?_, fun hSlash => ?_⟩
      · have hReact : (past before .blockComment frames found).react c =
            past before .blockComment frames found := if_neg hStar
        rw [List.cons_append, run_cons, step_past .blockComment hReact]
        exact hRun
      · have hc : c ≠ '/' := by simpa using hSlash
        have hReact : (past before .blockCommentStar frames found).react c =
            past before .blockComment frames found := by
          show (if c = '/' then _ else if c = '*' then _ else _) = _
          rw [if_neg hc, if_neg hStar]
          rfl
        rw [List.cons_append, run_cons, step_past .blockComment hReact]
        exact hRun

theorem outcome_code_lineComment {body : List Char} (h : '\n' ∉ body) (ht : ∀ c ∈ t.head?, c = '\n') :
    (past before .code frames found).outcome (['/', '/'] ++ body ++ t) =
      (past (before ++ (['/', '/'] ++ body)) .code frames found).outcome t := by
  rw [outcome_append, run_append, run_cons, step_past .slash rfl, run_cons, step_past .lineComment rfl]
  show (run (past _ .lineComment frames found) body).outcome t = _
  rw [run_lineComment h, outcome_lineComment ht]
  simp

theorem outcome_code_blockComment {body : List Char} (h : ¬ ['*', '/'] <:+: body ++ ['*']) :
    (past before .code frames found).outcome (['/', '*'] ++ body ++ ['*', '/'] ++ t) =
      (past (before ++ (['/', '*'] ++ body ++ ['*', '/'])) .code frames found).outcome t := by
  rw [List.append_assoc ['/', '*'], outcome_append, run_append, run_cons, step_past .slash rfl, run_cons,
    step_past .blockComment rfl]
  show (run (past _ .blockComment frames found) (body ++ ['*', '/'])).outcome t = _
  rw [(run_blockComment h).1]
  simp

/-! ## Strings -/

theorem utf8Size_of_isStringQuote (hq : isStringQuote q = true) : q.utf8Size = 1 := by
  simp only [isStringQuote, Bool.or_eq_true, beq_iff_eq] at hq
  rcases hq with rfl | rfl <;> rfl

theorem ne_backslash_of_isStringQuote (hq : isStringQuote q = true) : q ≠ '\\' := by
  rintro rfl
  exact absurd hq (by decide)

/-- A quote in code. -/
theorem react_code_quote (hq : isStringQuote q = true) :
    (past before .code frames found).react q =
      past before (.oneQuote q (Text.byteLength before)) frames found := by
  simp only [isStringQuote, Bool.or_eq_true, beq_iff_eq] at hq
  rcases hq with rfl | rfl <;> rfl

theorem react_oneQuote_quote :
    (past before (.oneQuote q start) frames found).react q =
      past before (.twoQuotes q start) frames found := if_pos rfl

theorem react_twoQuotes_quote :
    (past before (.twoQuotes q start) frames found).react q =
      past before (.tripled q start 0) frames found := if_pos rfl

/-- Inside three quotes, one more quote that does not end the string. -/
theorem react_tripled_quote (hq : isStringQuote q = true) {closing : Nat} (hClosing : closing ≠ 2) :
    (past before (.tripled q start closing) frames found).react q =
      past before (.tripled q start (closing + 1)) frames found := by
  show (if q = '\\' then _ else if q = q then if closing = 2 then _ else _ else _) = _
  rw [if_neg (ne_backslash_of_isStringQuote hq), if_pos rfl, if_neg hClosing]
  rfl

theorem three_quotes_at_head {n m : Nat} (h : 3 ≤ n + m) (t : List Char) :
    [q, q, q] <+: List.replicate n q ++ (List.replicate m q ++ t) := by
  obtain ⟨k, hk⟩ := Nat.exists_eq_add_of_le h
  rw [← List.append_assoc, List.replicate_append_replicate, hk, ← List.replicate_append_replicate,
    List.append_assoc]
  exact List.prefix_append _ _

/-- The body of a string in three quotes is read to its end. So many quotes as have just been read do not
make three with those that come next. -/
theorem run_tripled (hq : isStringQuote q = true) {body : List Symbol} (hBody : TripledBody q body)
    {closing : Nat}
    (h : closing = 0 ∨ ¬ [q, q, q] <+: List.replicate closing q ++ (symbolsText body ++ [q, q, q])) :
    (past before (.tripled q start closing) frames found).run (symbolsText body) =
      past (before ++ symbolsText body) (.tripled q start 0) frames found := by
  induction body generalizing before closing with
  | nil =>
    have hClosing : closing = 0 := by
      rcases h with h | h
      · exact h
      · rcases Nat.eq_zero_or_pos closing with hZero | hPos
        · exact hZero
        · exact absurd (three_quotes_at_head (m := 3) (by omega) []) h
    rw [hClosing, symbolsText_nil, List.append_nil]
    rfl
  | cons u body ih =>
    cases u with
    | escape c =>
      have hBackslash : (past before (.tripled q start closing) frames found).react '\\' =
          past before (.tripledEscape q start) frames found := rfl
      have hEscaped : ∀ b, (past b (.tripledEscape q start) frames found).react c =
          past b (.tripled q start 0) frames found := fun _ => rfl
      rw [symbolsText_cons, Symbol.text, List.cons_append, List.cons_append, List.nil_append, run_cons,
        step_past _ hBackslash, run_cons, step_past _ (hEscaped _), ih hBody (.inl rfl)]
      simp
    | char c =>
      obtain ⟨hc, hHere, hBody⟩ := hBody
      rw [symbolsText_cons, Symbol.text, List.cons_append, List.nil_append, run_cons]
      by_cases hQuote : c = q
      · subst hQuote
        -- with this quote, still no three in a row have been read
        have hNot : ¬ [c, c, c] <+:
            List.replicate (closing + 1) c ++ (symbolsText body ++ [c, c, c]) := by
          rw [List.replicate_succ', List.append_assoc]
          rcases h with rfl | h
          · exact hHere
          · simpa [Symbol.text] using h
        have hClosing : closing ≠ 2 := by
          rintro rfl
          exact hNot (three_quotes_at_head (n := 3) (m := 0) (by omega) _)
        rw [step_past _ (react_tripled_quote hq hClosing), ih hBody (.inr hNot)]
        simp
      · have hReact : (past before (.tripled q start closing) frames found).react c =
            past before (.tripled q start 0) frames found := by
          show (if c = '\\' then _ else if c = q then _ else _) = _
          rw [if_neg hc, if_neg hQuote]
          rfl
        rw [step_past _ hReact, ih hBody (.inl rfl)]
        simp

/-- A string in three quotes is recorded. -/
theorem outcome_code_tripled (hq : isStringQuote q = true) {body : List Symbol} (hBody : TripledBody q body) :
    (past before .code frames found).outcome ([q, q, q] ++ symbolsText body ++ [q, q, q] ++ t) =
      (past (before ++ ([q, q, q] ++ symbolsText body ++ [q, q, q])) .code frames
        (Occurrence.literal ⟨before, [q, q, q], symbolsText body⟩ :: found)).outcome t := by
  have hOpen : (past before .code frames found).run [q, q, q] =
      past (before ++ [q, q, q]) (.tripled q (Text.byteLength before) 0) frames found := by
    rw [run_cons, step_past _ (react_code_quote hq), run_cons, step_past _ react_oneQuote_quote, run_cons,
      step_past _ react_twoQuotes_quote]
    simp [run]
  have hLast : ∀ (b : List Char),
      (past b (.tripled q (Text.byteLength before) 2) frames found).react q = past b .code frames
        (⟨Text.byteLength before, Text.byteLength b + 1, Text.byteLength before + 3,
          Text.byteLength b + 1 - 3⟩ :: found) := by
    intro b
    show (if q = '\\' then _ else if q = q then if 2 = 2 then _ else _ else _) = _
    rw [if_neg (ne_backslash_of_isStringQuote hq), if_pos rfl, if_pos rfl]
    rfl
  have hClose : ∀ b, (past b (.tripled q (Text.byteLength before) 0) frames found).run [q, q, q] =
      past (b ++ [q, q, q]) .code frames
        (⟨Text.byteLength before, Text.byteLength (b ++ [q, q]) + 1, Text.byteLength before + 3,
          Text.byteLength (b ++ [q, q]) + 1 - 3⟩ :: found) := by
    intro b
    rw [run_cons, step_past _ (react_tripled_quote hq (by decide)), run_cons,
      step_past _ (react_tripled_quote hq (by decide)), run_cons, step_past _ (hLast _)]
    simp [run]
  rw [outcome_append, run_append, run_append, hOpen, run_tripled hq hBody (.inl rfl), hClose]
  simp [Occurrence.literal, Occurrence.text, utf8Size_of_isStringQuote hq, Nat.add_assoc]

/-! ## Strings in one quote -/

/-- The body of a string in one quote is read to its end. -/
theorem run_quoted {body : List Symbol} (hBody : QuotedBody q body) :
    (past before (.quoted q start) frames found).run (symbolsText body) =
      past (before ++ symbolsText body) (.quoted q start) frames found := by
  induction body generalizing before with
  | nil =>
    rw [symbolsText_nil, List.append_nil]
    rfl
  | cons u body ih =>
    cases u with
    | escape c =>
      have hBackslash : (past before (.quoted q start) frames found).react '\\' =
          past before (.quotedEscape q start) frames found := rfl
      have hEscaped : ∀ b, (past b (.quotedEscape q start) frames found).react c =
          past b (.quoted q start) frames found := fun _ => rfl
      rw [symbolsText_cons, Symbol.text, List.cons_append, List.cons_append, List.nil_append, run_cons,
        step_past _ hBackslash, run_cons, step_past _ (hEscaped _), ih hBody]
      simp
    | char c =>
      obtain ⟨hQuote, hc, hLine, hBody⟩ := hBody
      have hReact : (past before (.quoted q start) frames found).react c =
          past before (.quoted q start) frames found := by
        show (if c = '\\' then _ else if c = '\n' then _ else if c = q then _ else _) = _
        rw [if_neg hc, if_neg hLine, if_neg hQuote]
        rfl
      rw [symbolsText_cons, Symbol.text, List.cons_append, List.nil_append, run_cons, step_past _ hReact,
        ih hBody]
      simp

/-- After the first quote, anything but another one is read as the body. -/
theorem run_oneQuote {c : Char} (hc : c ≠ q) (r : List Char) :
    (past before (.oneQuote q start) frames found).run (c :: r) =
      (past before (.quoted q start) frames found).run (c :: r) := by
  have hReact : (past before (.oneQuote q start) frames found).react c =
      (past before (.quoted q start) frames found).react c := by
    show (if c = q then _ else _) = _
    rw [if_neg hc]
    rfl
  rw [run_cons, run_cons, step, step, hReact]
  rfl

/-- A string in one quote is recorded, also when it is empty. -/
theorem outcome_code_quoted (hq : isStringQuote q = true) {body : List Symbol} (hBody : QuotedBody q body)
    (ht : body = [] → t.head? ≠ some q) :
    (past before .code frames found).outcome ([q] ++ symbolsText body ++ [q] ++ t) =
      (past (before ++ ([q] ++ symbolsText body ++ [q])) .code frames
        (Occurrence.literal ⟨before, [q], symbolsText body⟩ :: found)).outcome t := by
  have hOpen : (past before .code frames found).run [q] =
      past (before ++ [q]) (.oneQuote q (Text.byteLength before)) frames found := by
    rw [run_cons, step_past _ (react_code_quote hq)]
    rfl
  cases body with
  | nil =>
    rw [symbolsText_nil, List.append_nil, outcome_append, run_append, hOpen, run_cons,
      step_past _ react_oneQuote_quote]
    show (past _ (.twoQuotes q _) frames found).outcome t = _
    rw [outcome_twoQuotes (ht rfl)]
    simp [Occurrence.literal, Occurrence.text, utf8Size_of_isStringQuote hq]
  | cons u body =>
    have hClose : ∀ b, (past b (.quoted q (Text.byteLength before)) frames found).run [q] =
        past (b ++ [q]) .code frames (⟨Text.byteLength before, Text.byteLength b + 1,
          Text.byteLength before + 1, Text.byteLength b + 1 - 1⟩ :: found) := by
      intro b
      rw [run_cons]
      refine congrArg (run · []) (step_past _ ?_)
      show (if q = '\\' then _ else if q = '\n' then _ else if q = q then _ else _) = _
      have hLine : q ≠ '\n' := by rintro rfl; exact absurd hq (by decide)
      rw [if_neg (ne_backslash_of_isStringQuote hq), if_neg hLine, if_pos rfl]
      rfl
    -- the first character of the body is no quote
    obtain ⟨c, r, hText, hc⟩ : ∃ c r, symbolsText (u :: body) = c :: r ∧ c ≠ q := by
      cases u with
      | escape c => exact ⟨'\\', _, rfl, (ne_backslash_of_isStringQuote hq).symm⟩
      | char c => exact ⟨c, _, rfl, hBody.1⟩
    rw [outcome_append, run_append, run_append, hOpen, hText, run_oneQuote hc, ← hText, run_quoted hBody,
      hClose]
    simp [Occurrence.literal, Occurrence.text, utf8Size_of_isStringQuote hq, Nat.add_assoc]

/-! ## Plain code and templates -/

/-- The templates around a place: none, or one in whose substitution so many braces are open, and those
around it. -/
def stack (start : Nat) (outer : List Frame) : Option Nat → List Frame
  | none => []
  | some depth => ⟨start, depth⟩ :: outer

/-- A character of code that begins nothing is passed over, and braces are counted. -/
theorem outcome_code_plain {c : Char} {inside : Option Nat} {outer : List Frame}
    (hOpens : opensLiteral c = false) (hSlash : c = '/' → t.head? ≠ some '/' ∧ t.head? ≠ some '*')
    (hBrace : c = '\x7d' → inside ≠ some 0) :
    (past before .code (stack start outer inside) found).outcome (c :: t) =
      (past (before ++ [c]) .code (stack start outer (inside.map (braceDepth c))) found).outcome t := by
  simp only [opensLiteral, Bool.or_eq_false_iff, beq_eq_false_iff_ne] at hOpens
  by_cases hc : c = '/'
  · subst hc
    have hSame : inside.map (braceDepth '/') = inside := by cases inside <;> rfl
    rw [outcome_cons, step_past .slash rfl, hSame]
    exact outcome_slash (hSlash rfl).1 (hSlash rfl).2
  · have hReact : (past before .code (stack start outer inside) found).react c =
        past before .code (stack start outer (inside.map (braceDepth c))) found := by
      show stepCode _ c = _
      unfold stepCode
      rw [if_neg hOpens.2, if_neg (not_or.2 ⟨hOpens.1.2, hOpens.1.1⟩), if_neg hc]
      cases inside with
      | none => rfl
      | some depth =>
        show (if c = '\x7b' then _ else if c = '\x7d' then _ else _) = _
        by_cases hOpen : c = '\x7b'
        · rw [if_pos hOpen]
          simp [stack, past, braceDepth, hOpen]
        · by_cases hClose : c = '\x7d'
          · -- the brace closes one inside the substitution
            cases depth with
            | zero => exact absurd rfl (hBrace hClose)
            | succ depth =>
              rw [if_neg hOpen, if_pos hClose]
              simp [stack, past, braceDepth, hClose]
          · rw [if_neg hOpen, if_neg hClose]
            simp [stack, past, braceDepth, hOpen, hClose, enter]
    rw [outcome_cons, step_past _ hReact]

theorem outcome_code_backtick :
    (past before .code frames found).outcome ('\x60' :: t) =
      (past (before ++ ['\x60']) (.template (Text.byteLength before)) frames found).outcome t := by
  rw [outcome_cons, step_past _ rfl]
  rfl

theorem outcome_template_backtick :
    (past before (.template start) frames found).outcome ('\x60' :: t) =
      (past (before ++ ['\x60']) .code frames
        (⟨start, Text.byteLength before + 1, start + 1, Text.byteLength before + 1 - 1⟩ ::
          found)).outcome t := by
  rw [outcome_cons, step_past .code rfl]
  rfl

theorem outcome_template_escape (c : Char) :
    (past before (.template start) frames found).outcome ('\\' :: c :: t) =
      (past (before ++ ['\\', c]) (.template start) frames found).outcome t := by
  have hEscaped : ∀ b, (past b (.templateEscape start) frames found).react c =
      past b (.template start) frames found := fun _ => rfl
  rw [outcome_cons, step_past (.templateEscape start) rfl, outcome_cons]
  show ((past _ (.templateEscape start) frames found).step c).outcome t = _
  rw [step_past _ (hEscaped _), List.append_assoc]
  rfl

theorem outcome_template_char {c : Char} (hQuote : c ≠ '\x60') (hEscape : c ≠ '\\')
    (hDollar : c = '$' → t.head? ≠ some '\x7b') :
    (past before (.template start) frames found).outcome (c :: t) =
      (past (before ++ [c]) (.template start) frames found).outcome t := by
  by_cases hc : c = '$'
  · subst hc
    rw [outcome_cons, step_past (.templateDollar start) rfl]
    exact outcome_templateDollar (hDollar rfl)
  · have hReact : (past before (.template start) frames found).react c =
        past before (.template start) frames found := by
      show (if c = '\\' then _ else if c = '\x60' then _ else if c = '$' then _ else _) = _
      rw [if_neg hEscape, if_neg hQuote, if_neg hc]
      rfl
    rw [outcome_cons, step_past _ hReact]

theorem outcome_template_substitution :
    (past before (.template start) frames found).outcome ('$' :: '\x7b' :: t) =
      (past (before ++ ['$', '\x7b']) .code (⟨start, 0⟩ :: frames) found).outcome t := by
  rw [outcome_cons, step_past (.templateDollar start) rfl, outcome_cons, step_past .code rfl,
    List.append_assoc]
  rfl

theorem outcome_code_closingBrace :
    (past before .code (⟨start, 0⟩ :: frames) found).outcome ('\x7d' :: t) =
      (past (before ++ ['\x7d']) (.template start) frames found).outcome t := by
  rw [outcome_cons, step_past (.template start) rfl]
  rfl

end State

/-! ## A whole text -/

/-- What comes next does not begin with a character other than the brace that ends a substitution. -/
theorem head?_append_ne {s more : List Char} {inside : Option Nat} {c : Char} (hc : c ≠ '\x7d')
    (hMore : more.head? = inside.map fun _ => '\x7d') (hs : s.head? ≠ some c) :
    (s ++ more).head? ≠ some c := by
  cases s with
  | cons d s => exact hs
  | nil =>
    rw [List.nil_append, hMore]
    cases inside with
    | none => simp
    | some depth => simpa using hc.symm

/-- A template as the scanner records it. -/
theorem literal_template (before body : List Char) : Occurrence.literal ⟨before, ['\x60'], body⟩ =
    ⟨Text.byteLength before, Text.byteLength (before ++ ['\x60'] ++ body) + 1, Text.byteLength before + 1,
      Text.byteLength (before ++ ['\x60'] ++ body) + 1 - 1⟩ := by
  have hSize : Char.utf8Size '\x60' = 1 := rfl
  simp [Occurrence.literal, Occurrence.text, hSize, Nat.add_assoc]

mutual

/-- Closed code is read to its end, and exactly its literals have been recorded then. What comes next is the
end of the text or, in a substitution, the brace that ends it. -/
theorem Code.outcome_text : ∀ (code : Code) {inside : Option Nat} (_ : code.Closed inside)
    {more : List Char} (_ : more.head? = inside.map fun _ => '\x7d') (before : List Char) (start : Nat)
    (outer : List Frame) (found : List Literal),
    ∃ ls : List Literal, ls.Perm ((code.occurrences before).map Occurrence.literal) ∧
      (State.past before .code (State.stack start outer inside) found).outcome (code.text ++ more) =
        (State.past (before ++ code.text) .code (State.stack start outer (inside.map fun _ => 0))
          (ls ++ found)).outcome more
  | .done, inside, h, more, hMore, before, start, outer, found => by
    refine ⟨[], .refl _, ?_⟩
    rcases h with rfl | rfl
    · simp [Code.text]
    · simp [Code.text]
  | .plain c rest, inside, h, more, hMore, before, start, outer, found => by
    obtain ⟨hOpens, hSlash, hBrace, hRest⟩ := h
    have hMore' : more.head? = (inside.map (braceDepth c)).map fun _ => '\x7d' := by
      rw [hMore, Option.map_map]
      rfl
    have hNext : c = '/' → (rest.text ++ more).head? ≠ some '/' ∧ (rest.text ++ more).head? ≠ some '*' :=
      fun hc => ⟨head?_append_ne (by decide) hMore (hSlash hc).1,
        head?_append_ne (by decide) hMore (hSlash hc).2⟩
    obtain ⟨ls, hPerm, hOut⟩ := rest.outcome_text hRest hMore' (before ++ [c]) start outer found
    refine ⟨ls, hPerm, ?_⟩
    rw [Code.text, List.cons_append, State.outcome_code_plain hOpens hNext hBrace, hOut, Option.map_map]
    simp [Function.comp_def]
  | .lineComment body rest, inside, h, more, hMore, before, start, outer, found => by
    obtain ⟨hBody, hEnd, hRest⟩ := h
    have hNext : ∀ c ∈ (rest.text ++ more).head?, c = '\n' := by
      intro c hc
      rcases hEnd with hEnd | ⟨hNil, hOutside⟩
      · rw [List.head?_append, hEnd] at hc
        simpa using hc.symm
      · -- the text is over
        rw [hNil, List.nil_append, hMore, hOutside] at hc
        simp at hc
    obtain ⟨ls, hPerm, hOut⟩ := rest.outcome_text hRest hMore (before ++ (['/', '/'] ++ body)) start outer
      found
    refine ⟨ls, hPerm, ?_⟩
    rw [Code.text, List.append_assoc, State.outcome_code_lineComment hBody hNext, hOut,
      List.append_assoc before]
  | .blockComment body rest, inside, h, more, hMore, before, start, outer, found => by
    obtain ⟨ls, hPerm, hOut⟩ := rest.outcome_text h.2 hMore
      (before ++ (['/', '*'] ++ body ++ ['*', '/'])) start outer found
    refine ⟨ls, hPerm, ?_⟩
    rw [Code.text, List.append_assoc, State.outcome_code_blockComment h.1, hOut, List.append_assoc before]
  | .tripled q body rest, inside, h, more, hMore, before, start, outer, found => by
    obtain ⟨hq, hBody, hRest⟩ := h
    obtain ⟨ls, hPerm, hOut⟩ := rest.outcome_text hRest hMore
      (before ++ ([q, q, q] ++ symbolsText body ++ [q, q, q])) start outer
      (Occurrence.literal ⟨before, [q, q, q], symbolsText body⟩ :: found)
    refine ⟨ls ++ [Occurrence.literal ⟨before, [q, q, q], symbolsText body⟩], ?_, ?_⟩
    · exact List.perm_append_singleton _ _ |>.trans (hPerm.cons _)
    · rw [Code.text, List.append_assoc, State.outcome_code_tripled hq hBody, hOut,
        List.append_assoc before, List.append_assoc ls]
      rfl
  | .quoted q body rest, inside, h, more, hMore, before, start, outer, found => by
    obtain ⟨hq, hBody, hEmpty, hRest⟩ := h
    have hBrace : q ≠ '\x7d' := by
      rintro rfl
      exact absurd hq (by decide)
    obtain ⟨ls, hPerm, hOut⟩ := rest.outcome_text hRest hMore
      (before ++ ([q] ++ symbolsText body ++ [q])) start outer
      (Occurrence.literal ⟨before, [q], symbolsText body⟩ :: found)
    refine ⟨ls ++ [Occurrence.literal ⟨before, [q], symbolsText body⟩], ?_, ?_⟩
    · exact List.perm_append_singleton _ _ |>.trans (hPerm.cons _)
    · rw [Code.text, List.append_assoc, State.outcome_code_quoted hq hBody
        (fun hNil => head?_append_ne hBrace hMore (hEmpty hNil)), hOut, List.append_assoc before,
        List.append_assoc ls]
      rfl
  | .template body rest, inside, h, more, hMore, before, start, outer, found => by
    obtain ⟨hBody, hRest⟩ := h
    -- the literals inside are recorded before the template itself
    obtain ⟨ls, hPerm, hOut⟩ := body.outcome_text hBody (before ++ ['\x60']) (rest.text ++ more)
      (Text.byteLength before) (State.stack start outer inside) found
    obtain ⟨ks, hPermRest, hOutRest⟩ := rest.outcome_text hRest hMore
      (before ++ (['\x60'] ++ body.text ++ ['\x60'])) start outer
      (Occurrence.literal ⟨before, ['\x60'], body.text⟩ :: (ls ++ found))
    refine ⟨ks ++ Occurrence.literal ⟨before, ['\x60'], body.text⟩ :: ls, ?_, ?_⟩
    · rw [Code.occurrences, List.map_cons, List.map_append]
      refine List.perm_middle.trans (.cons _ ?_)
      exact List.perm_append_comm.trans (hPerm.append hPermRest)
    · have hText : (Code.template body rest).text ++ more =
          '\x60' :: (body.text ++ '\x60' :: (rest.text ++ more)) := by simp [Code.text]
      rw [hText, State.outcome_code_backtick, hOut, State.outcome_template_backtick]
      rw [← literal_template, List.append_assoc, List.append_assoc, ← List.append_assoc ['\x60'], hOutRest]
      simp [Code.text]

/-- The inside of a template is read up to the backtick that ends it. -/
theorem Template.outcome_text : ∀ (body : Template) (_ : body.Closed) (before more : List Char)
    (start : Nat) (frames : List Frame) (found : List Literal),
    ∃ ls : List Literal, ls.Perm ((body.occurrences before).map Occurrence.literal) ∧
      (State.past before (.template start) frames found).outcome (body.text ++ '\x60' :: more) =
        (State.past (before ++ body.text) (.template start) frames (ls ++ found)).outcome
          ('\x60' :: more)
  | .done, _, before, more, start, frames, found => ⟨[], .refl _, by simp [Template.text]⟩
  | .symbol (.escape c) rest, h, before, more, start, frames, found => by
    obtain ⟨ls, hPerm, hOut⟩ := rest.outcome_text h (before ++ ['\\', c]) more start frames found
    refine ⟨ls, hPerm, ?_⟩
    rw [Template.text, Symbol.text, List.append_assoc, List.cons_append, List.cons_append,
      List.nil_append, State.outcome_template_escape, hOut]
    simp
  | .symbol (.char c) rest, h, before, more, start, frames, found => by
    obtain ⟨hQuote, hEscape, hDollar, hRest⟩ := h
    have hNext : c = '$' → (rest.text ++ '\x60' :: more).head? ≠ some '\x7b' := by
      intro hc hHead
      cases hText : rest.text with
      | nil => simp [hText] at hHead
      | cons d t => exact hDollar hc (by simpa [hText] using hHead)
    obtain ⟨ls, hPerm, hOut⟩ := rest.outcome_text hRest (before ++ [c]) more start frames found
    refine ⟨ls, hPerm, ?_⟩
    rw [Template.text, Symbol.text, List.append_assoc, List.cons_append, List.nil_append,
      State.outcome_template_char hQuote hEscape hNext, hOut]
    simp
  | .substitution code rest, h, before, more, start, frames, found => by
    have hBrace : ('\x7d' :: (rest.text ++ '\x60' :: more)).head? = (some 0).map fun _ => '\x7d' := rfl
    obtain ⟨ls, hPerm, hOut⟩ := code.outcome_text h.1 hBrace (before ++ ['$', '\x7b']) start frames found
    obtain ⟨ks, hPermRest, hOutRest⟩ := rest.outcome_text h.2
      (before ++ (['$', '\x7b'] ++ code.text ++ ['\x7d'])) more start frames (ls ++ found)
    refine ⟨ks ++ ls, ?_, ?_⟩
    · rw [Template.occurrences, List.map_append]
      exact List.perm_append_comm.trans (hPerm.append hPermRest)
    · have hText : (Template.substitution code rest).text ++ '\x60' :: more =
          '$' :: '\x7b' :: (code.text ++ '\x7d' :: (rest.text ++ '\x60' :: more)) := by
        simp [Template.text]
      rw [hText, State.outcome_template_substitution]
      refine hOut.trans ?_
      rw [show State.stack start frames ((some 0).map fun _ => 0) = ⟨start, 0⟩ :: frames from rfl,
        State.outcome_code_closingBrace, List.append_assoc, List.append_assoc,
        ← List.append_assoc ['$', '\x7b'], hOutRest]
      simp [Template.text]

end

end SqlSurvey.Literal
