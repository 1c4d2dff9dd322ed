import SqlSurvey.Proofs.Sql.Hollow
import SqlSurvey.Proofs.Text.Layout

/-!
# Cutting texts into statements

A closed text is cut in the same places whatever follows its semicolon, and a statement is not cut again. For the
second, a statement is seen as what is left of its pieces after trimming: the blanks before it are pieces of
their own, and the blanks after it may be the end of a piece that is not closed, which stays the piece it is.
-/

namespace SqlSurvey.Sql

variable {isQuote : Char → Bool} {ps : List Piece} {a b l r s t u : List Char}

/-! ## Trimming pieces -/

/-- A closing mark that is no blank is not among the blanks that a text ends with. -/
theorem eq_nil_of_append_eq_concat {c : Char} (hc : Text.isBlank c = false) (h : u ++ r = s ++ [c])
    (hr : ∀ d ∈ r, Text.isBlank d = true) : r = [] := by
  rcases List.eq_nil_or_concat' r with hNil | ⟨v, d, rfl⟩
  · exact hNil
  · rw [← List.append_assoc] at h
    obtain ⟨-, hd⟩ := List.append_inj' h rfl
    have hBlank := hr d (by simp)
    rw [List.singleton_inj.1 hd, hc] at hBlank
    exact Bool.noConfusion hBlank

/-- What two texts put together begin with, if that is one character that is no blank. -/
theorem exists_of_cons_eq_append {c : Char} (hc : Text.isBlank c = false) (h : c :: s = u ++ r)
    (hr : ∀ d ∈ r, Text.isBlank d = true) : ∃ v, u = c :: v ∧ s = v ++ r := by
  cases u with
  | cons d v =>
    obtain ⟨rfl, rfl⟩ := List.cons.inj h
    exact ⟨v, rfl, rfl⟩
  | nil =>
    have hBlank := hr c (by rw [← List.nil_append r, ← h]; exact List.mem_cons_self)
    rw [hc] at hBlank
    exact Bool.noConfusion hBlank

namespace Piece

/-- A piece without the blanks at its end is a piece of the same kind at the end of a text. -/
theorem Before.cut {p : Piece} (h : p.Before isQuote t) (hQuotes : ∀ c, isQuote c = true → Text.isBlank c = false)
    (hText : p.text = u ++ r) (hu : u ≠ []) (hr : ∀ c ∈ r, Text.isBlank c = true) :
    ∃ q : Piece, q.Before isQuote [] ∧ q.text = u ∧ ∀ c, q = .plain c → p = .plain c := by
  have hEnd : p.Before isQuote ([] : List Char) := h.of_append (t := []) (u := t)
  -- a piece whose last character is no blank is not cut at all
  have hWhole : r = [] → ∃ q : Piece, q.Before isQuote [] ∧ q.text = u ∧ ∀ c, q = .plain c → p = .plain c := by
    rintro rfl
    exact ⟨p, hEnd, by rw [hText, List.append_nil], fun _ hc => hc⟩
  cases h with
  | @plain c _ =>
    obtain ⟨d, v, rfl⟩ := List.exists_cons_of_ne_nil hu
    have hLength := congrArg List.length hText
    simp only [text, List.cons_append, List.length_cons, List.length_append, List.length_nil] at hLength
    exact hWhole (List.length_eq_zero_iff.1 (by omega))
  | @quoted q inner _ hQuote _ =>
    exact hWhole (eq_nil_of_append_eq_concat (hQuotes q hQuote) (s := q :: inner) hText.symm hr)
  | @openQuoted q inner hQuote hInner =>
    obtain ⟨v, rfl, rfl⟩ := exists_of_cons_eq_append (hQuotes q hQuote) hText hr
    exact ⟨.quoted (q :: v), .openQuoted hQuote fun hv => hInner (List.mem_append_left r hv), rfl,
      fun _ hc => by cases hc⟩
  | @line inner _ hQuote hInner _ =>
    obtain ⟨v, rfl, hv⟩ := exists_of_cons_eq_append (by decide) hText hr
    obtain ⟨w, rfl, rfl⟩ := exists_of_cons_eq_append (by decide) hv hr
    exact ⟨.comment ('-' :: '-' :: w), .line hQuote (fun hw => hInner (List.mem_append_left r hw)) (by simp), rfl,
      fun _ hc => by cases hc⟩
  | @block inner _ _ _ =>
    have hLast : u ++ r = ('/' :: '*' :: (inner ++ ['*'])) ++ ['/'] := by simpa [text] using hText.symm
    exact hWhole (eq_nil_of_append_eq_concat (by decide) hLast hr)
  | @openBlock inner hQuote hInner =>
    obtain ⟨v, rfl, hv⟩ := exists_of_cons_eq_append (by decide) hText hr
    obtain ⟨w, rfl, rfl⟩ := exists_of_cons_eq_append (by decide) hv hr
    exact ⟨.comment ('/' :: '*' :: w), .openBlock hQuote fun hw => hInner (hw.trans (List.prefix_append w r).isInfix),
      rfl, fun _ hc => by cases hc⟩

/-- A piece that begins with a blank is that blank. -/
theorem Before.eq_plain {p : Piece} {c : Char} (h : p.Before isQuote t)
    (hQuotes : ∀ c, isQuote c = true → Text.isBlank c = false) (hc : Text.isBlank c = true)
    (hHead : p.text.head? = some c) : p = .plain c := by
  have hOther : ∀ d, Text.isBlank d = false → d ≠ c := by
    rintro d hd rfl
    rw [hc] at hd
    exact Bool.noConfusion hd
  cases h with
  | plain => simpa [text] using hHead
  | @quoted q _ _ hQuote => exact absurd (by simpa [text] using hHead) (hOther q (hQuotes q hQuote))
  | @openQuoted q _ hQuote => exact absurd (by simpa [text] using hHead) (hOther q (hQuotes q hQuote))
  | line => exact absurd (by simpa [text] using hHead) (hOther '-' (by decide))
  | block => exact absurd (by simpa [text] using hHead) (hOther '/' (by decide))
  | openBlock => exact absurd (by simpa [text] using hHead) (hOther '/' (by decide))

end Piece

/-- The blanks that pieces begin with are pieces of their own. -/
theorem Lexed.exists_of_blanks_append (h : Lexed isQuote ps)
    (hQuotes : ∀ c, isQuote c = true → Text.isBlank c = false) (hText : textOf ps = l ++ u)
    (hl : ∀ c ∈ l, Text.isBlank c = true) : ∃ qs, Lexed isQuote qs ∧ textOf qs = u ∧ ∀ q ∈ qs, q ∈ ps := by
  induction l generalizing ps with
  | nil => exact ⟨ps, h, hText, fun _ hq => hq⟩
  | cons c l ih =>
    cases ps with
    | nil => exact absurd hText (by simp)
    | cons p ps =>
      have hHead : p.text.head? = some c := by
        have hWhole : (p.text ++ textOf ps).head? = p.text.head? := List.head?_append_of_ne_nil _ h.1.text_ne_nil
        rw [← hWhole, ← textOf_cons, hText]
        rfl
      obtain rfl := h.1.eq_plain hQuotes (hl c List.mem_cons_self) hHead
      have hRest : textOf ps = l ++ u := (List.cons.inj hText).2
      obtain ⟨qs, hLexed, hqs, hMem⟩ := ih h.2 hRest fun d hd => hl d (List.mem_cons_of_mem c hd)
      exact ⟨qs, hLexed, hqs, fun q hq => List.mem_cons_of_mem _ (hMem q hq)⟩

/-- What is left of pieces without the blanks at the end of their text are pieces, and no plain one is new. -/
theorem Lexed.exists_of_append_blanks (h : Lexed isQuote ps)
    (hQuotes : ∀ c, isQuote c = true → Text.isBlank c = false) (hText : textOf ps = u ++ r)
    (hr : ∀ c ∈ r, Text.isBlank c = true) :
    ∃ qs, Lexed isQuote qs ∧ textOf qs = u ∧ ∀ c, .plain c ∈ qs → .plain c ∈ ps := by
  induction ps generalizing u with
  | nil =>
    have hu : u = [] := (List.append_eq_nil_iff.1 hText.symm).1
    exact ⟨[], trivial, hu.symm, fun _ hc => hc⟩
  | cons p ps ih =>
    rw [textOf_cons] at hText
    rcases List.append_eq_append_iff.1 hText with ⟨v, rfl, hRest⟩ | ⟨v, hp, hRest⟩
    · -- the blanks stand behind the first piece
      obtain ⟨qs, hLexed, rfl, hPlain⟩ := ih h.2 hRest
      have hFirst : p.Before isQuote (textOf qs ++ r) := hRest ▸ h.1
      refine ⟨p :: qs, ⟨hFirst.of_append, hLexed⟩, textOf_cons p qs, fun c hc => ?_⟩
      rcases List.mem_cons.1 hc with rfl | hc
      · exact List.mem_cons_self
      · exact List.mem_cons_of_mem p (hPlain c hc)
    · -- they begin in the first piece
      by_cases hu : u = []
      · exact ⟨[], trivial, hu.symm, fun _ hc => absurd hc List.not_mem_nil⟩
      · have hv : ∀ c ∈ v, Text.isBlank c = true := fun c hc => hr c (hRest ▸ List.mem_append_left _ hc)
        obtain ⟨q, hq, rfl, hPlain⟩ := h.1.cut hQuotes hp hu hv
        refine ⟨[q], ⟨hq, trivial⟩, by simp, fun c hc => ?_⟩
        rw [hPlain c (List.mem_singleton.1 hc).symm]
        exact List.mem_cons_self

/-- A trimmed text has no plain piece that the text has not. -/
theorem mem_pieces_of_mem_pieces_trim (h : Lexed isQuote ps)
    (hQuotes : ∀ c, isQuote c = true → Text.isBlank c = false) {c : Char}
    (hc : .plain c ∈ pieces isQuote (Text.trim (textOf ps))) : .plain c ∈ ps := by
  obtain ⟨l, r, hSplit, hl, hr⟩ := Text.exists_eq_append_trim (textOf ps)
  rw [List.append_assoc] at hSplit
  obtain ⟨qs, hqs, hqText, hqMem⟩ := h.exists_of_blanks_append hQuotes hSplit hl
  obtain ⟨ks, hks, hkText, hkMem⟩ := hqs.exists_of_append_blanks hQuotes hqText hr
  rw [← hkText, hks.pieces_textOf] at hc
  exact hqMem _ (hkMem c hc)

/-! ## Statements -/

/-- No stretch between separators holds one. -/
theorem not_of_mem_splitOnP {α : Type} {P : α → Bool} {xs ys : List α} (h : ys ∈ xs.splitOnP P) :
    ∀ y ∈ ys, P y = false := by
  induction xs generalizing ys with
  | nil =>
    obtain rfl : ys = [] := by simpa using h
    simp
  | cons x xs ih =>
    obtain ⟨g, gs, hCut⟩ := List.exists_cons_of_ne_nil (List.splitOnP_ne_nil P xs)
    rw [List.splitOnP_cons_eq_if_modifyHead, hCut] at h
    rw [hCut] at ih
    by_cases hx : P x = true
    · rw [if_pos hx] at h
      rcases List.mem_cons.1 h with rfl | h
      · simp
      · exact ih h
    · rw [if_neg hx, List.modifyHead_cons] at h
      rcases List.mem_cons.1 h with rfl | h
      · exact List.forall_mem_cons.2 ⟨by simpa using hx, ih List.mem_cons_self⟩
      · exact ih (List.mem_cons_of_mem g h)

theorem isBlank_of_isAnyQuote {c : Char} (h : isAnyQuote c = true) : Text.isBlank c = false := by
  rcases Bool.or_eq_true_iff.1 h with h | h
  · rw [beq_iff_eq.1 h]
    decide
  · rw [beq_iff_eq.1 h]
    decide

/-- The statements of a closed text come before those of what follows its semicolon. -/
theorem statements_append_semicolon (ha : Closed isAnyQuote a) (b : List Char) :
    statements (a ++ ';' :: b) = statements a ++ statements b := by
  have hSemicolon : (Piece.plain ';').Before isAnyQuote b := .plain rfl rfl rfl
  have hPieces : pieces isAnyQuote (a ++ ';' :: b) =
      pieces isAnyQuote a ++ Piece.plain ';' :: pieces isAnyQuote b := by
    rw [pieces_append ha (by simp)]
    exact congrArg (pieces isAnyQuote a ++ ·) hSemicolon.pieces_text_append
  rw [statements_eq, statements_eq, statements_eq, segments, hPieces,
    List.splitOnP_append_cons _ _ (by simp), List.map_append, List.filter_append]
  rfl

/-- A text without a semicolon among its pieces is one statement, if anything is left of it. -/
theorem statements_of_not_mem (hPlain : .plain ';' ∉ pieces isAnyQuote t) :
    statements t = [Text.trim t].filter fun u => !u.isEmpty := by
  have hSegments : segments t = [pieces isAnyQuote t] := by
    apply List.splitOnP_eq_singleton
    intro p hp
    rw [beq_eq_false_iff_ne]
    rintro rfl
    exact hPlain hp
  rw [statements_eq, hSegments, List.map_singleton, textOf_pieces]

/-- A trimmed text without a semicolon among its pieces is its only statement. -/
theorem statements_eq_singleton (hNil : t ≠ []) (hTrim : Text.trim t = t)
    (hPlain : .plain ';' ∉ pieces isAnyQuote t) : statements t = [t] := by
  rw [statements_of_not_mem hPlain, hTrim, List.filter_cons_of_pos (by simpa using hNil), List.filter_nil]

/-- A statement is neither empty nor to be trimmed, and it is its own only statement. -/
theorem statements_of_mem_statements (h : t ∈ statements s) :
    t ≠ [] ∧ Text.trim t = t ∧ statements t = [t] := by
  rw [statements_eq] at h
  obtain ⟨hMem, hNil⟩ := List.mem_filter.1 h
  obtain ⟨ps, hps, rfl⟩ := List.mem_map.1 hMem
  have hNil : Text.trim (textOf ps) ≠ [] := by simpa using hNil
  have hTrim : Text.trim (Text.trim (textOf ps)) = Text.trim (textOf ps) :=
    Text.trim_eq_self (fun c hc => Text.isBlank_head_trim hc) Text.isBlank_getLast_trim
  refine ⟨hNil, hTrim, statements_eq_singleton hNil hTrim fun hc => ?_⟩
  have hIn := mem_pieces_of_mem_pieces_trim (lexed_of_mem_segments hps) (fun _ => isBlank_of_isAnyQuote) hc
  have := not_of_mem_splitOnP hps _ hIn
  simp at this

end SqlSurvey.Sql
