import SqlSurvey.Sql.Statement
import SqlSurvey.Proofs.Sql.Hollow
import SqlSurvey.Proofs.Sql.Items
import SqlSurvey.Proofs.Sql.Plain
import SqlSurvey.Proofs.Text.Layout

/-!
# Statements, bodies and items up to layout

A text that is marked by no quotes and no comments falls into its characters. Where it is cut then does not
depend on how long its runs of blanks are: its statements, the body after a parenthesis and the items of a
body are squeezed with it.
-/

namespace SqlSurvey.Sql

variable {s t : List Char} {ps qs : List Piece} {c : Char}

/-! ## Texts without quotes and comments -/

/-- No quoted run and no comment begins in the text. -/
structure Unmarked (s : List Char) : Prop where
  single : '\'' ∉ s
  double : '"' ∉ s
  line : ¬ ['-', '-'] <:+: s
  block : ¬ ['/', '*'] <:+: s

instance (s : List Char) : Decidable (Unmarked s) :=
  decidable_of_iff ('\'' ∉ s ∧ '"' ∉ s ∧ ¬ ['-', '-'] <:+: s ∧ ¬ ['/', '*'] <:+: s)
    ⟨fun ⟨hs, hd, hl, hb⟩ => ⟨hs, hd, hl, hb⟩, fun h => ⟨h.single, h.double, h.line, h.block⟩⟩

theorem Unmarked.of_infix (h : Unmarked s) (ht : t <:+: s) : Unmarked t where
  single hMem := h.single (ht.subset hMem)
  double hMem := h.double (ht.subset hMem)
  line hInfix := h.line (hInfix.trans ht)
  block hInfix := h.block (hInfix.trans ht)

theorem Unmarked.squeeze (h : Unmarked s) : Unmarked (Text.squeeze s) where
  single := mt (Text.mem_squeeze (by decide)).1 h.single
  double := mt (Text.mem_squeeze (by decide)).1 h.double
  line := mt (Text.pair_infix_of_squeeze (by decide) (by decide)) h.line
  block := mt (Text.pair_infix_of_squeeze (by decide) (by decide)) h.block

theorem infix_trim (s : List Char) : Text.trim s <:+: s := by
  obtain ⟨l, r, hs, -, -⟩ := Text.exists_eq_append_trim s
  exact ⟨l, r, hs.symm⟩

theorem Unmarked.trim (h : Unmarked s) : Unmarked (Text.trim s) := h.of_infix (infix_trim s)

/-- Every character of such a text is a piece of its own. -/
theorem Unmarked.pieces {isQuote : Char → Bool} (h : Unmarked s) (hQuote : ∀ c ∈ s, isQuote c = false) :
    pieces isQuote s = s.map .plain := by
  induction s with
  | nil => exact pieces_nil isQuote
  | cons c s ih =>
    have hPair : ∀ d, s.head? = some d → [c, d] <:+: c :: s := by
      intro d hd
      obtain ⟨r, rfl⟩ := List.head?_eq_some_iff.1 hd
      exact ⟨[], r, rfl⟩
    have hPlain : (Piece.plain c).Before isQuote s := by
      refine .plain (hQuote c List.mem_cons_self) ?_ ?_
      · rw [Piece.lineCommentOpens, Bool.and_eq_false_imp]
        rintro hc
        rw [beq_eq_false_iff_ne]
        intro hd
        exact h.line (beq_iff_eq.1 hc ▸ hPair '-' hd)
      · rw [Piece.blockCommentOpens, Bool.and_eq_false_imp]
        rintro hc
        rw [beq_eq_false_iff_ne]
        intro hd
        exact h.block (beq_iff_eq.1 hc ▸ hPair '*' hd)
    have hRest := ih (h.of_infix (List.suffix_cons c s).isInfix) fun d hd => hQuote d (List.mem_cons_of_mem c hd)
    have hText := hPlain.pieces_text_append
    rw [hRest] at hText
    exact hText

theorem Unmarked.pieces_isSingleQuote (h : Unmarked s) : Sql.pieces isSingleQuote s = s.map .plain := by
  refine h.pieces fun c hc => ?_
  rw [isSingleQuote, beq_eq_false_iff_ne]
  rintro rfl
  exact h.single hc

theorem Unmarked.pieces_isAnyQuote (h : Unmarked s) : Sql.pieces isAnyQuote s = s.map .plain := by
  refine h.pieces fun c hc => ?_
  rw [isAnyQuote, Bool.or_eq_false_iff, beq_eq_false_iff_ne, beq_eq_false_iff_ne]
  refine ⟨?_, ?_⟩
  · rintro rfl
    exact h.single hc
  · rintro rfl
    exact h.double hc

/-- Trimmed stretches, the empty ones left out, are squeezed one by one. -/
theorem filter_trim_squeeze (ts : List (List Char)) :
    ((ts.map Text.squeeze).map Text.trim).filter (fun t => !t.isEmpty) =
      ((ts.map Text.trim).filter fun t => !t.isEmpty).map Text.squeeze := by
  have hEach : Text.trim ∘ Text.squeeze = Text.squeeze ∘ Text.trim := funext Text.trim_squeeze
  have hKept : (fun t : List Char => !t.isEmpty) ∘ Text.squeeze = fun t => !t.isEmpty := by
    funext t
    rw [Function.comp_apply, Text.isEmpty_squeeze]
  rw [List.map_map, hEach, ← List.map_map, List.filter_map, hKept]

/-! ## Statements -/

theorem Unmarked.statements_eq (h : Unmarked s) :
    statements s = ((s.splitOnP (· == ';')).map Text.trim).filter fun t => !t.isEmpty := by
  have hSemicolon : (fun c => Piece.plain c == Piece.plain ';') = (· == ';') := by
    funext c
    exact Bool.eq_iff_iff.2 (by simp only [beq_iff_eq, Piece.plain.injEq])
  rw [statements, h.pieces_isAnyQuote, splitOnP_map, hSemicolon, List.map_map]
  simp only [Function.comp_def, textOf_map_plain]

/-- A collapsed text falls into the same statements, each of them squeezed. -/
theorem Unmarked.statements_collapse (h : Unmarked s) :
    statements (Text.collapse s) = (statements s).map Text.squeeze := by
  have hSemicolon : ∀ c, Text.isBlank c = true → (c == ';') = false := fun _ => Text.beq_of_isBlank (by decide)
  rw [Text.collapse_eq, h.trim.squeeze.statements_eq, h.statements_eq, Text.splitOnP_squeeze hSemicolon,
    filter_trim_squeeze, Text.map_trim_splitOnP_trim hSemicolon]

theorem Unmarked.of_mem_statements (h : Unmarked s) (ht : t ∈ statements s) : Unmarked t := by
  rw [h.statements_eq] at ht
  obtain ⟨u, hu, rfl⟩ := List.mem_map.1 (List.mem_filter.1 ht).1
  exact (h.of_infix (infix_of_mem_splitOnP hu)).trim

/-! ## Bodies -/

theorem isItemChar_of_isBlank (h : Text.isBlank c = true) : isItemChar c = true := by
  have hOther : ∀ d, Text.isBlank d = false → (c == d) = false := fun d hd => Text.beq_of_isBlank hd h
  rw [isItemChar, hOther '(' (by decide), hOther ')' (by decide), hOther ',' (by decide)]
  rfl

theorem prefix_of_closedBody {depth : Nat} (h : closedBody depth ps = some qs) : qs <+: ps := by
  fun_induction closedBody depth ps generalizing qs with
  | case1 => cases h
  | case2 =>
    obtain rfl := Option.some.inj h
    exact List.nil_prefix
  | case3 depth p ps hp ih =>
    obtain ⟨rs, hrs, rfl⟩ := Option.map_eq_some_iff.1 h
    exact List.cons_prefix_cons.2 ⟨rfl, ih hrs⟩

/-- The text up to the parenthesis that closes, in a text that falls into its characters. -/
def closedText (depth : Nat) (s : List Char) : Option (List Char) := (closedBody depth (s.map .plain)).map textOf

theorem closedText_cons {depth : Nat} (c : Char) (s : List Char) :
    closedText depth (c :: s) =
      if depth = 0 ∧ c = ')' then some [] else (closedText ((Piece.plain c).depthAfter depth) s).map (c :: ·) := by
  have hClose : (Piece.plain c = .plain ')') = (c = ')') := Piece.plain.injEq c ')'
  rw [closedText, List.map_cons, closedBody]
  by_cases h : depth = 0 ∧ c = ')'
  · rw [if_pos h, if_pos (by rwa [hClose])]
    rfl
  · rw [if_neg h, if_neg (by rwa [hClose]), closedText, Option.map_map, Option.map_map]
    exact congrArg (fun f => Option.map f _) (funext fun qs => by simp [Piece.text])

theorem prefix_of_closedText {depth : Nat} (h : closedText depth s = some t) : t <+: s := by
  obtain ⟨qs, hqs, rfl⟩ := Option.map_eq_some_iff.1 h
  obtain ⟨rs, hrs⟩ := prefix_of_closedBody hqs
  exact ⟨textOf rs, by rw [← textOf_append, hrs, textOf_map_plain]⟩

/-- Blanks before the parenthesis stay where they are. -/
theorem closedText_blanks_append {depth : Nat} {w : List Char} (hw : ∀ c ∈ w, Text.isBlank c = true)
    (s : List Char) : closedText depth (w ++ s) = (closedText depth s).map (w ++ ·) := by
  induction w with
  | nil => simp
  | cons c w ih =>
    have hc := isItemChar_of_isBlank (hw c List.mem_cons_self)
    have hParen : ¬(depth = 0 ∧ c = ')') := by
      rintro ⟨-, rfl⟩
      exact absurd hc (by decide)
    rw [List.cons_append, closedText_cons, if_neg hParen, Piece.depthAfter_of_isItemChar hc,
      ih fun d hd => hw d (List.mem_cons_of_mem c hd), Option.map_map]
    rfl

theorem closedText_squeeze (depth : Nat) (s : List Char) :
    closedText depth (Text.squeeze s) = (closedText depth s).map Text.squeeze := by
  induction s using Text.runs_induction generalizing depth with
  | nil => rfl
  | char c s hc ih =>
    rw [Text.squeeze_cons hc, closedText_cons, closedText_cons, ih]
    by_cases h : depth = 0 ∧ c = ')'
    · rw [if_pos h, if_pos h]
      rfl
    · rw [if_neg h, if_neg h, Option.map_map, Option.map_map]
      exact congrArg (fun f => Option.map f _) (funext fun t => (Text.squeeze_cons hc t).symm)
  | blanks w s hw hBlank hs ih =>
    rw [Text.squeeze_blanks hw hBlank hs, closedText_blanks_append hBlank, ← List.singleton_append,
      closedText_blanks_append (by decide), ih]
    cases hBody : closedText depth s with
    | none => rfl
    | some b =>
      -- the body begins as the text does
      obtain ⟨r, rfl⟩ := prefix_of_closedText hBody
      have hHead : ∀ c ∈ b.head?, Text.isBlank c = false := by
        intro c hc
        exact hs c (by rw [List.head?_append, Option.mem_def.1 hc]; rfl)
      simp [Text.squeeze_blanks hw hBlank hHead]

/-- A character of a text has a last occurrence. -/
theorem exists_last_of_mem (h : c ∈ s) : ∃ a b, s = a ++ c :: b ∧ c ∉ b := by
  obtain ⟨b, a, hs, hb⟩ := List.eq_append_cons_of_mem (List.mem_reverse.2 h)
  refine ⟨a.reverse, b.reverse, ?_, mt List.mem_reverse.1 hb⟩
  rw [← List.reverse_reverse s, hs]
  simp

theorem beforeLast_append_cons (h : c ∉ t) (s : List Char) : beforeLast c (s ++ c :: t) = some s := by
  have hDrop : (t.reverse ++ c :: s.reverse).dropWhile (fun d => d != c) = c :: s.reverse := by
    rw [List.dropWhile_append_of_pos fun d hd => ?_, List.dropWhile_cons_of_neg (by simp)]
    rw [bne_iff_ne]
    rintro rfl
    exact h (List.mem_reverse.1 hd)
  simp [beforeLast, hDrop]

theorem prefix_of_beforeLast (h : beforeLast c s = some t) : t <+: s := by
  by_cases hc : c ∈ s
  · obtain ⟨a, b, rfl, hb⟩ := exists_last_of_mem hc
    rw [beforeLast_append_cons hb] at h
    rw [← Option.some.inj h]
    exact List.prefix_append _ _
  · simp [beforeLast, hc] at h

theorem beforeLast_squeeze (hBlank : Text.isBlank c = false) (s : List Char) :
    beforeLast c (Text.squeeze s) = (beforeLast c s).map Text.squeeze := by
  by_cases hc : c ∈ s
  · obtain ⟨a, b, rfl, hb⟩ := exists_last_of_mem hc
    rw [Text.squeeze_append_cons hBlank, beforeLast_append_cons hb,
      beforeLast_append_cons (mt (Text.mem_squeeze hBlank).1 hb), Option.map_some]
  · have hSqueeze : c ∉ Text.squeeze s := mt (Text.mem_squeeze hBlank).1 hc
    simp [beforeLast, hc, hSqueeze]

theorem Unmarked.bodyAfterParen_eq (h : Unmarked s) :
    bodyAfterParen s = (closedText 0 s).or (beforeLast ')' s) := by
  rw [bodyAfterParen, h.pieces_isSingleQuote]
  rfl

theorem Unmarked.bodyAfterParen_squeeze (h : Unmarked s) :
    bodyAfterParen (Text.squeeze s) = (bodyAfterParen s).map Text.squeeze := by
  rw [h.squeeze.bodyAfterParen_eq, h.bodyAfterParen_eq, closedText_squeeze, beforeLast_squeeze (by decide),
    Option.map_or]

theorem Unmarked.of_bodyAfterParen (h : Unmarked s) (hBody : bodyAfterParen s = some t) : Unmarked t := by
  rw [h.bodyAfterParen_eq] at hBody
  rcases Option.or_eq_some_iff.1 hBody with hBody | ⟨-, hBody⟩
  · exact h.of_infix (prefix_of_closedText hBody).isInfix
  · exact h.of_infix (prefix_of_beforeLast hBody).isInfix

/-! ## Items -/

/-- The stretches between commas of a text that falls into its characters. -/
def commaTexts (depth : Nat) (s : List Char) : List (List Char) := (cutAtCommas depth (s.map .plain)).map textOf

theorem commaTexts_cons {depth : Nat} (c : Char) (s : List Char) :
    commaTexts depth (c :: s) =
      if depth = 0 ∧ c = ',' then [] :: commaTexts 0 s
      else (commaTexts ((Piece.plain c).depthAfter depth) s).modifyHead (c :: ·) := by
  have hComma : (Piece.plain c = .plain ',') = (c = ',') := Piece.plain.injEq c ','
  rw [commaTexts, List.map_cons, cutAtCommas]
  by_cases h : depth = 0 ∧ c = ','
  · rw [if_pos h, if_pos (by rwa [hComma])]
    rfl
  · rw [if_neg h, if_neg (by rwa [hComma]), commaTexts]
    cases cutAtCommas ((Piece.plain c).depthAfter depth) (s.map .plain) with
    | nil => rfl
    | cons g gs => simp [Piece.text]

/-- The first stretch begins as the text does, if at all. -/
theorem head_head_commaTexts (depth : Nat) (s : List Char) :
    ∀ g ∈ (commaTexts depth s).head?, ∀ c ∈ g.head?, c ∈ s.head? := by
  cases s with
  | nil => simp [commaTexts, cutAtCommas]
  | cons d s =>
    rw [commaTexts_cons]
    by_cases h : depth = 0 ∧ d = ','
    · simp [h]
    · rw [if_neg h]
      cases commaTexts ((Piece.plain d).depthAfter depth) s <;> simp

theorem commaTexts_blanks_append {depth : Nat} {w : List Char} (hw : ∀ c ∈ w, Text.isBlank c = true)
    (s : List Char) : commaTexts depth (w ++ s) = (commaTexts depth s).modifyHead (w ++ ·) := by
  induction w with
  | nil =>
    rw [List.nil_append]
    cases commaTexts depth s <;> rfl
  | cons c w ih =>
    have hc := isItemChar_of_isBlank (hw c List.mem_cons_self)
    have hComma : ¬(depth = 0 ∧ c = ',') := by
      rintro ⟨-, rfl⟩
      exact absurd hc (by decide)
    rw [List.cons_append, commaTexts_cons, if_neg hComma, Piece.depthAfter_of_isItemChar hc,
      ih fun d hd => hw d (List.mem_cons_of_mem c hd)]
    cases commaTexts depth s <;> rfl

theorem commaTexts_squeeze (depth : Nat) (s : List Char) :
    commaTexts depth (Text.squeeze s) = (commaTexts depth s).map Text.squeeze := by
  induction s using Text.runs_induction generalizing depth with
  | nil => rfl
  | char c s hc ih =>
    rw [Text.squeeze_cons hc, commaTexts_cons, commaTexts_cons, ih, ih]
    by_cases h : depth = 0 ∧ c = ','
    · rw [if_pos h, if_pos h]
      rfl
    · rw [if_neg h, if_neg h]
      exact Text.modifyHead_cons_squeeze hc _
  | blanks w s hw hBlank hs ih =>
    rw [Text.squeeze_blanks hw hBlank hs, commaTexts_blanks_append hBlank, ← List.singleton_append,
      commaTexts_blanks_append (by decide), ih]
    exact Text.modifyHead_blanks_squeeze hw hBlank fun g hg c hc => hs c (head_head_commaTexts depth s g hg c hc)

theorem Unmarked.items_eq (h : Unmarked s) :
    items s = ((commaTexts 0 s).map Text.trim).filter fun t => !t.isEmpty := by
  rw [Sql.items_eq, h.pieces_isSingleQuote, map_bare_plain, commaTexts, List.map_map]
  rfl

/-- The items of a body are squeezed with it. -/
theorem Unmarked.items_squeeze (h : Unmarked s) : items (Text.squeeze s) = (items s).map Text.squeeze := by
  rw [h.squeeze.items_eq, h.items_eq, commaTexts_squeeze, filter_trim_squeeze]

end SqlSurvey.Sql
