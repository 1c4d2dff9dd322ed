import SqlSurvey.Proofs.TypeScript.Scan
import SqlSurvey.Proofs.Literal.Fragments

/-!
# The scanner on clear nodes

The scanner of literals passes over the text that clear nodes cover, and records each literal among them where its
node stands. Only what begins before the end of a literal matters for whether the literal is recorded.
-/

namespace SqlSurvey.TypeScript

open Literal (State Mode Frame Occurrence)

variable {source before : List Char} {c d e : Cursor} {ns ms : List Node} {ctx : Context} {frames : List Frame}
  {found : List Literal} {l : Node}

/-- What the scanner has recorded in the end, if it reads on from a place. -/
def recordedFrom (c : Cursor) (mode : Mode) (frames : List Frame) (found : List Literal) : List Literal :=
  (⟨c.offset, mode, frames, found⟩ : State).outcome c.rest

theorem recordedFrom_eq (hc : c.Follows source before) (mode : Mode) (frames : List Frame) (found : List Literal) :
    recordedFrom c mode frames found = (State.past before mode frames found).outcome c.rest := by
  rw [recordedFrom, hc.2]
  rfl

/-- The scanner at a place, from what it does with the text that follows. -/
theorem recordedFrom_of_outcome {mode mode' : Mode} {frames' : List Frame} {found' : List Literal}
    {u r : List Char} (hc : c.Follows source before) (hRest : c.rest = u ++ r)
    (h : (State.past before mode frames found).outcome (u ++ r) =
      (State.past (before ++ u) mode' frames' found').outcome r) :
    recordedFrom c mode frames found = recordedFrom (c.advance u.length) mode' frames' found' := by
  have hEnd := hc.advance u.length
  rw [hRest, List.take_left] at hEnd
  have hEndRest : (c.advance u.length).rest = r := by rw [Cursor.advance, hRest, List.drop_left]
  rw [recordedFrom_eq hc, recordedFrom_eq hEnd, hEndRest, hRest, h]

/-! ## Marks of templates -/

section Marks

variable {r : List Char} {start : Nat}

theorem recordedFrom_backtick (hc : c.Follows source before) (hRest : c.rest = '\x60' :: r) :
    recordedFrom c .code frames found = recordedFrom (c.advance 1) (.template c.offset) frames found := by
  rw [hc.2]
  exact recordedFrom_of_outcome (u := ['\x60']) hc hRest State.outcome_code_backtick

theorem recordedFrom_closingBacktick (hc : c.Follows source before) (hRest : c.rest = '\x60' :: r) :
    recordedFrom c (.template start) frames found = recordedFrom (c.advance 1) .code frames
      (⟨start, Text.byteLength before + 1, start + 1, Text.byteLength before + 1 - 1⟩ :: found) :=
  recordedFrom_of_outcome (u := ['\x60']) hc hRest State.outcome_template_backtick

theorem recordedFrom_substitution (hc : c.Follows source before) (hRest : c.rest = '$' :: '\x7b' :: r) :
    recordedFrom c (.template start) frames found = recordedFrom (c.advance 2) .code (⟨start, 0⟩ :: frames) found :=
  recordedFrom_of_outcome (u := ['$', '\x7b']) hc hRest State.outcome_template_substitution

theorem recordedFrom_closingBrace (hc : c.Follows source before) (hRest : c.rest = '\x7d' :: r) :
    recordedFrom c .code (⟨start, 0⟩ :: frames) found = recordedFrom (c.advance 1) (.template start) frames found :=
  recordedFrom_of_outcome (u := ['\x7d']) hc hRest State.outcome_code_closingBrace

end Marks

/-! ## Passing over nodes -/

/-- Where the scanner reads nodes in a context, it comes to the place behind them in the mode that it was in, with the
braces of their code counted. -/
def Context.Passes (source : List Char) (c : Cursor) (ns : List Node) (d : Cursor) : Context → Prop
  | .code => ∀ {inside inside' : Option Nat} (start : Nat) (outer : List Frame) (found : List Literal),
    depthsAfter (Node.codeAmong source ns) inside = some inside' →
      ∃ found', recordedFrom c .code (State.stack start outer inside) found =
        recordedFrom d .code (State.stack start outer inside') found'
  | .template => ∀ (start : Nat) (frames : List Frame) (found : List Literal),
    ∃ found', recordedFrom c (.template start) frames found = recordedFrom d (.template start) frames found'

/-- The braces of the code among two rows of nodes are counted one row after the other. -/
theorem exists_depths_between {inside inside' : Option Nat}
    (h : depthsAfter (Node.codeAmong source (ns ++ ms)) inside = some inside') :
    ∃ between, depthsAfter (Node.codeAmong source ns) inside = some between ∧
      depthsAfter (Node.codeAmong source ms) between = some inside' := by
  rw [Node.codeAmong_append, depthsAfter_append] at h
  exact Option.bind_eq_some_iff.1 h

/-- The braces of a clear substitution are closed among its nodes. -/
theorem depthsAfter_of_isClear {role : Role} {a b : Nat} {cs : List Node} {first last : Node}
    (h : (Node.node .substitution role a b (first :: (cs ++ [last]))).isClear source = true) :
    depthsAfter (Node.codeAmong source cs) (some 0) = some (some 0) := by
  rw [Node.isClear_substitution, beq_iff_eq] at h
  exact congrArg (Option.map some) h

/-- What is passed over one after the other is passed over together. -/
theorem Context.Passes.append (h₁ : ctx.Passes source c ns d) (h₂ : ctx.Passes source d ms e) :
    ctx.Passes source c (ns ++ ms) e := by
  cases ctx with
  | code =>
    intro inside inside' start outer found hDepths
    obtain ⟨between, hBefore, hAfter⟩ := exists_depths_between hDepths
    obtain ⟨found₁, hEq₁⟩ := h₁ start outer found hBefore
    obtain ⟨found₂, hEq₂⟩ := h₂ start outer found₁ hAfter
    exact ⟨found₂, hEq₁.trans hEq₂⟩
  | template =>
    intro start frames found
    obtain ⟨found₁, hEq₁⟩ := h₁ start frames found
    obtain ⟨found₂, hEq₂⟩ := h₂ start frames found₁
    exact ⟨found₂, hEq₁.trans hEq₂⟩

/-- A string in one quote stands between a place and another one. -/
theorem follows_string {q : Char} {body r : List Char} (hc : c.Follows source before)
    (hRest : c.rest = q :: (body ++ q :: r)) :
    (c.advance (body.length + 2)).Follows source (before ++ ([q] ++ body ++ [q])) ∧
      (c.advance (body.length + 2)).rest = r := by
  have hSplit : c.rest = ([q] ++ body ++ [q]) ++ r := by simp [hRest]
  have hLength : body.length + 2 = ([q] ++ body ++ [q]).length := by simp
  have hFollows := hc.advance (body.length + 2)
  rw [hLength] at hFollows ⊢
  rw [hSplit, List.take_left] at hFollows
  exact ⟨hFollows, by rw [Cursor.advance, hSplit, List.drop_left]⟩

/-- What stands between the quotes of a string. -/
theorem slice_string {q : Char} {body r : List Char} (hc : c.Follows source before)
    (hq : Literal.isStringQuote q = true) (hRest : c.rest = q :: (body ++ q :: r)) :
    Text.slice source (c.offset + 1) ((c.advance (body.length + 2)).offset - 1) = body := by
  have hSize := Literal.State.utf8Size_of_isStringQuote hq
  have hSlice := Text.slice_append (before ++ [q]) body (q :: r)
  have hSource : before ++ [q] ++ (body ++ q :: r) = source := by
    rw [← hc.1, hRest, List.append_assoc]
    rfl
  have hStart : c.offset + 1 = Text.byteLength (before ++ [q]) := by
    simp [hc.2, hSize]
  have hStop : (c.advance (body.length + 2)).offset - 1 =
      Text.byteLength (before ++ [q]) + Text.byteLength body := by
    rw [(follows_string hc hRest).1.2]
    simp [hSize]
    omega
  rw [hStart, hStop, ← hSource, hSlice]

/-- A string is recorded where it stands. -/
theorem recordedFrom_string {q : Char} {body r : List Char} {k : Kind} {role : Role} {cs : List Node}
    (hc : c.Follows source before) (hk : k.isString = true) (hq : Literal.isStringQuote q = true)
    (hQuote : quoteless q body = true) (hRest : c.rest = q :: (body ++ q :: r))
    (hClear : (Node.node k role c.offset (c.advance (body.length + 2)).offset cs).isClear source = true)
    (frames : List Frame) (found : List Literal) :
    recordedFrom c .code frames found = recordedFrom (c.advance (body.length + 2)) .code frames
      (Occurrence.literal ⟨before, [q], body⟩ :: found) := by
  obtain ⟨hEnd, hEndRest⟩ := follows_string hc hRest
  have hSize := Literal.State.utf8Size_of_isStringQuote hq
  rw [Node.isClear_string hk, slice_string hc hq hRest, hc.slice_eq hEnd, hEnd.after_eq, hEndRest, Bool.and_eq_true,
    Bool.or_eq_true, bne_iff_ne, bne_iff_ne] at hClear
  obtain ⟨us, hText, hBody⟩ := Literal.State.exists_quotedBody hQuote hClear.1
  have hEmpty : us = [] → r.head? ≠ some q := by
    intro hNil
    have hBody : body = [] := by rw [← hText, hNil, Literal.symbolsText_nil]
    have hStop : (c.advance (body.length + 2)).offset = c.offset + 2 := by
      rw [hEnd.2, hc.2, hBody]
      simp [hSize]
    simpa [hStop] using hClear.2
  have hSplit : c.rest = [q] ++ Literal.symbolsText us ++ [q] ++ r := by simp [hRest, hText]
  rw [recordedFrom_eq hc, recordedFrom_eq hEnd, hEndRest, hSplit, State.outcome_code_quoted hq hBody hEmpty, hText]

/-- A template whose text is passed over is recorded where it stands. -/
theorem recordedFrom_template {ps : List Node} {r s : List Char} (hc : c.Follows source before)
    (hRest : c.rest = '\x60' :: r) (h : Covers .template (c.advance 1) ps d) (hEnd : d.rest = '\x60' :: s)
    (hText : Context.Passes source (c.advance 1) ps d .template) (frames : List Frame) (found : List Literal) :
    ∃ inner found', (d.advance 1).Follows source (before ++ (['\x60'] ++ inner ++ ['\x60'])) ∧
      recordedFrom c .code frames found = recordedFrom (d.advance 1) .code frames
        (Occurrence.literal ⟨before, ['\x60'], inner⟩ :: found') := by
  have hOpen := hc.advance 1
  rw [hRest, List.take_succ_cons, List.take_zero] at hOpen
  obtain ⟨inner, hd⟩ := h.exists_follows hOpen
  have hClose := hd.advance 1
  rw [hEnd, List.take_succ_cons, List.take_zero] at hClose
  obtain ⟨found', hEq⟩ := hText c.offset frames found
  refine ⟨inner, found', by simpa using hClose, ?_⟩
  rw [recordedFrom_backtick hc hRest, hEq, recordedFrom_closingBacktick hd hEnd, hc.2,
    Literal.literal_template]

/-- The scanner passes over clear nodes. -/
theorem Covers.passes (h : Covers ctx c ns d) (hc : c.Follows source before)
    (hClear : ∀ n ∈ Node.outlineAmong ctx ns, n.isClear source = true) : ctx.Passes source c ns d := by
  induction h generalizing before with
  | @done ctx c =>
    cases ctx with
    | code =>
      intro inside inside' start outer found hDepths
      exact ⟨found, by rw [eq_of_depthsAfter_nil hDepths]⟩
    | template => exact fun _ _ found => ⟨found, rfl⟩
  | @append ctx c d e ns ms h₁ h₂ ih₁ ih₂ =>
    obtain ⟨text, hd⟩ := h₁.exists_follows hc
    have hFirst := ih₁ hc fun n hn => hClear n (Node.mem_outlineAmong_append_left hn ms)
    have hSecond := ih₂ hd fun n hn => hClear n (Node.mem_outlineAmong_append_right hn ns)
    exact hFirst.append hSecond
  | @space c x r hRest hx =>
    intro inside inside' start outer found hDepths
    obtain rfl := eq_of_depthsAfter_nil hDepths
    exact ⟨found, recordedFrom_of_outcome (u := [x]) hc hRest (State.outcome_space (by simpa using hx))⟩
  | leaf c n role hk =>
    intro inside inside' start outer found hDepths
    have hEnd := hc.advance n
    have hQuiet := hClear _ (Node.mem_outlineAmong_code _)
    rw [Node.isClear_leaf hk, hc.slice_eq hEnd, hEnd.after_eq] at hQuiet
    rw [Node.codeAmong_cons, Node.code_leaf hk, hc.slice_eq hEnd, Node.codeAmong_nil, List.append_nil] at hDepths
    refine ⟨found, ?_⟩
    rw [← c.advance_length_take n]
    exact recordedFrom_of_outcome hc (c.rest_advance n) (State.outcome_quiet hQuiet hDepths)
  | @comment c n h =>
    intro inside inside' start outer found hDepths
    have hLine := hClear _ (Node.mem_outlineAmong_code _)
    have hEnd := hc.advance (n + 1)
    rw [Cursor.leaf, Node.isClear_comment, hc.slice_eq hEnd, hEnd.after_eq] at hLine
    rw [Node.codeAmong_cons, Cursor.leaf, Node.code_of_not_isPlain rfl] at hDepths
    obtain rfl := eq_of_depthsAfter_nil hDepths
    refine ⟨found, ?_⟩
    rw [recordedFrom_eq hc, recordedFrom_eq hEnd]
    refine State.outcome_comment h fun hPrefix => ?_
    rw [Lexeme.isPrefixOf_take h, hPrefix] at hLine
    exact hLine
  | inner role hk hcs h ih =>
    intro inside inside' start outer found hDepths
    rw [Node.codeAmong_cons, Node.code_inner hk hcs, Node.codeAmong_nil, List.append_nil] at hDepths
    exact ih hc (fun n hn => hClear n (Node.mem_outline_inner hk hn)) start outer found hDepths
  | string role hk hcs hq hBody hRest =>
    intro inside inside' start outer found hDepths
    rw [Node.codeAmong_cons, Node.code_of_not_isPlain (Node.isPlain_of_isString hk)] at hDepths
    obtain rfl := eq_of_depthsAfter_nil hDepths
    exact ⟨_, recordedFrom_string hc hk hq hBody hRest (hClear _ (Node.mem_outlineAmong_code _)) _ found⟩
  | template role hk hRest h hEnd ih =>
    intro inside inside' start outer found hDepths
    rw [Node.codeAmong_cons, Node.code_of_not_isPlain (Node.isPlain_of_isTemplate hk)] at hDepths
    obtain rfl := eq_of_depthsAfter_nil hDepths
    have hText := ih (hc.advance 1) fun n hn => hClear n (Node.mem_outline_of_isTemplate hk _ _ hn)
    obtain ⟨inner, found', -, hEq⟩ := recordedFrom_template hc hRest h hEnd hText
      (State.stack start outer inside') found
    exact ⟨_, hEq⟩
  | @chars c n h =>
    intro start frames found
    refine ⟨found, ?_⟩
    rw [recordedFrom_eq hc, recordedFrom_eq (hc.advance n)]
    exact State.outcome_templateChars h
  | @escape c x r hRest =>
    intro start frames found
    exact ⟨found, recordedFrom_of_outcome (u := ['\\', x]) hc hRest (State.outcome_template_escape x)⟩
  | substitution role hRest h hEnd ih =>
    intro start frames found
    have hDepths := depthsAfter_of_isClear (hClear _ (Node.mem_outlineAmong_template _ _ _ _))
    obtain ⟨found', hEq⟩ := ih (hc.advance 2) (fun n hn => hClear n (Node.mem_outline_substitution _ _ hn)) start
      frames found hDepths
    obtain ⟨text, hd⟩ := h.exists_follows (hc.advance 2)
    refine ⟨found', ?_⟩
    rw [recordedFrom_substitution hc hRest]
    refine hEq.trans ?_
    exact recordedFrom_closingBrace hd hEnd

/-! ## Finding literals -/

/-- A literal of a source stands where a node does. -/
structure StandsAt (source : List Char) (l : Node) (o : Occurrence) : Prop where
  within : o.Within [] source
  start : l.start = Text.byteLength o.before
  stop : l.stop = Text.byteLength (o.before ++ o.text)
  /-- What stands on either side of the body takes one byte. -/
  delimiter : Text.byteLength o.delimiter = 1

theorem standsAt_of_follows {delimiter body : List Char} {k : Kind} {role : Role} {cs : List Node}
    (hc : c.Follows source before) (hd : d.Follows source (before ++ (delimiter ++ body ++ delimiter)))
    (hDelimiter : Text.byteLength delimiter = 1) :
    StandsAt source (.node k role c.offset d.offset cs) ⟨before, delimiter, body⟩ where
  within := by
    refine ⟨?_, before, d.rest, rfl, hd.1⟩
    rintro rfl
    cases hDelimiter
  start := hc.2
  stop := hd.2
  delimiter := hDelimiter

/-- The literal at a node is among those that are recorded. -/
def Recorded (source : List Char) (l : Node) (ls : List Literal) : Prop :=
  ∃ o, StandsAt source l o ∧ o.literal ∈ ls

/-- Where the scanner reads nodes in a context, it records the literal at a node. -/
def Context.Finds (source : List Char) (c : Cursor) (ns : List Node) (l : Node) : Context → Prop
  | .code => ∀ {inside inside' : Option Nat} (start : Nat) (outer : List Frame) (found : List Literal),
    depthsAfter (Node.codeAmong source ns) inside = some inside' →
      Recorded source l (recordedFrom c .code (State.stack start outer inside) found)
  | .template => ∀ (start : Nat) (frames : List Frame) (found : List Literal),
    Recorded source l (recordedFrom c (.template start) frames found)

/-- What is found among nodes is found when more nodes follow. -/
theorem Context.Finds.append_left (h : ctx.Finds source c ns l) (ms : List Node) :
    ctx.Finds source c (ns ++ ms) l := by
  cases ctx with
  | code =>
    intro inside inside' start outer found hDepths
    obtain ⟨between, hBefore, -⟩ := exists_depths_between hDepths
    exact h start outer found hBefore
  | template => exact h

/-- What is found among nodes is found when nodes are passed over in front of them. -/
theorem Context.Finds.append_right (h : ctx.Finds source d ms l) (hPasses : ctx.Passes source c ns d) :
    ctx.Finds source c (ns ++ ms) l := by
  cases ctx with
  | code =>
    intro inside inside' start outer found hDepths
    obtain ⟨between, hBefore, hAfter⟩ := exists_depths_between hDepths
    obtain ⟨found', hEq⟩ := hPasses start outer found hBefore
    rw [hEq]
    exact h start outer found' hAfter
  | template =>
    intro start frames found
    obtain ⟨found', hEq⟩ := hPasses start frames found
    rw [hEq]
    exact h start frames found'

/-- The scanner records each literal among nodes that are clear as far as they begin before the end of the literal. -/
theorem Covers.finds (h : Covers ctx c ns d) (hc : c.Follows source before)
    (hl : l ∈ Node.literalsAmong ns)
    (hClear : ∀ n ∈ Node.outlineAmong ctx ns, n.start < l.stop → n.isClear source = true) :
    ctx.Finds source c ns l := by
  induction h generalizing before with
  | done | space => simp at hl
  | leaf c n role hk => simp [Node.literals_of_not_isLiteral (Node.isLiteral_of_isPlain hk)] at hl
  | comment | chars | escape => simp [Cursor.leaf, Node.literals, Kind.isLiteral] at hl
  | @append ctx c d e ns ms h₁ h₂ ih₁ ih₂ =>
    rw [Node.literalsAmong_append, List.mem_append] at hl
    rcases hl with hl | hl
    · have hFinds := ih₁ hc hl fun n hn => hClear n (Node.mem_outlineAmong_append_left hn ms)
      exact hFinds.append_left ms
    · -- what is in front of the literal is passed over
      have hPasses := h₁.passes hc fun n hn => by
        have hStart := (h₁.start_bounds n hn).2
        have hLiteral := h₂.literal_bounds l hl
        exact hClear n (Node.mem_outlineAmong_append_left hn ms) (by omega)
      obtain ⟨text, hd⟩ := h₁.exists_follows hc
      have hFinds := ih₂ hd hl fun n hn => hClear n (Node.mem_outlineAmong_append_right hn ns)
      exact hFinds.append_right hPasses
  | inner role hk hcs h ih =>
    intro inside inside' start outer found hDepths
    rw [Node.codeAmong_cons, Node.code_inner hk hcs, Node.codeAmong_nil, List.append_nil] at hDepths
    rw [Node.literalsAmong_cons, Node.literals_of_not_isLiteral (Node.isLiteral_of_isPlain hk), Node.literalsAmong_nil,
      List.append_nil] at hl
    exact ih hc hl (fun n hn => hClear n (Node.mem_outline_inner hk hn)) start outer found hDepths
  | @string c q body r k cs role hk hcs hq hBody hRest =>
    intro inside inside' start outer found hDepths
    rw [Node.literalsAmong_cons, Node.literals_of_isLiteral (Node.isLiteral_of_isString hk), hcs,
      Node.literalsAmong_nil, List.append_nil, List.mem_singleton] at hl
    subst hl
    have hNode := hClear _ (Node.mem_outlineAmong_code _) (offset_lt_advance hRest _)
    refine ⟨⟨before, [q], body⟩, standsAt_of_follows hc (follows_string hc hRest).1 ?_, ?_⟩
    · simp [Literal.State.utf8Size_of_isStringQuote hq]
    · rw [recordedFrom_string hc hk hq hBody hRest hNode]
      exact State.mem_outcome_of_mem (List.mem_cons_self ..) _
  | @template c d ps k r s role hk hRest h hEnd ih =>
    intro inside inside' start outer found hDepths
    have hParts := fun n hn => hClear n (Node.mem_outline_of_isTemplate hk _ _ hn)
    rcases Covers.mem_literals_between hl with ⟨-, rfl⟩ | hl
    · -- all of the text stands before the end of the template
      have hText := h.passes (hc.advance 1) fun n hn => hParts n hn (by
        have hStart := (h.start_bounds n hn).2
        have hStop := offset_lt_advance hEnd 0
        exact Nat.lt_of_le_of_lt hStart hStop)
      obtain ⟨inner, found', hEndFollows, hEq⟩ := recordedFrom_template hc hRest h hEnd hText
        (State.stack start outer inside) found
      refine ⟨_, standsAt_of_follows hc hEndFollows rfl, ?_⟩
      rw [hEq]
      exact State.mem_outcome_of_mem (List.mem_cons_self ..) _
    · rw [recordedFrom_backtick hc hRest]
      exact ih (hc.advance 1) hl hParts _ _ found
  | @substitution c d cs r s role hRest h hEnd ih =>
    intro start frames found
    have hl := (mem_literals_between hl).resolve_left fun h => Bool.false_ne_true h.1
    have hStart : c.offset < l.stop := by
      have hLiteral := h.literal_bounds l hl
      have := offset_le_advance c 2
      omega
    have hDepths := depthsAfter_of_isClear (hClear _ (Node.mem_outlineAmong_template _ _ _ _) hStart)
    rw [recordedFrom_substitution hc hRest]
    exact ih (hc.advance 2) hl (fun n hn => hClear n (Node.mem_outline_substitution _ _ hn)) start frames found hDepths

end SqlSurvey.TypeScript
