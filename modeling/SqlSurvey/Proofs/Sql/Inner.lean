import SqlSurvey.Proofs.Ddl.Body
import SqlSurvey.Proofs.Sql.Statements

/-!
# Texts inside a statement

A text that may stand inside a statement and inside the body of a table alike: its quoted runs are closed, whether
double quotes open one or not, no comment and no semicolon shows, and it completes no comment mark. Such texts may be
put together. One that commas and parentheses do not cut is a single item.
-/

namespace SqlSurvey.Sql

variable {isQuote : Char → Bool} {a b s : List Char} {ps qs : List Piece}

/-! ## Plain characters -/

/-- Characters none of which opens a run or a comment are pieces of their own. -/
theorem pieces_of_forall (h : ∀ c ∈ s, isQuote c = false ∧ c ≠ '-' ∧ c ≠ '/') : pieces isQuote s = s.map .plain := by
  induction s with
  | nil => exact pieces_nil isQuote
  | cons c s ih =>
    obtain ⟨hQuote, hDash, hSlash⟩ := h c List.mem_cons_self
    have hPlain : (Piece.plain c).Before isQuote s :=
      .plain hQuote (by simp [Piece.lineCommentOpens, hDash]) (by simp [Piece.blockCommentOpens, hSlash])
    have hText := hPlain.pieces_text_append
    rw [ih fun d hd => h d (List.mem_cons_of_mem c hd)] at hText
    exact hText

/-- A text of single characters is closed and has no comments. -/
theorem closed_of_pieces_eq (h : pieces isQuote s = s.map .plain) :
    Closed isQuote s ∧ ∀ p ∈ pieces isQuote s, p.isComment = false := by
  rw [Closed, h]
  refine ⟨allClosed_map_plain s, fun p hp => ?_⟩
  obtain ⟨c, -, rfl⟩ := List.mem_map.1 hp
  rfl

/-- What opens or closes a quoted run or a comment, or ends a statement. -/
def strongChars : List Char := ['\'', '"', ';', '-', '/', '*']

/-- A character that is none of these. -/
def isMild (c : Char) : Bool := !strongChars.contains c

theorem ne_of_isMild {c d : Char} (h : isMild c = true) (hd : d ∈ strongChars) : c ≠ d := by
  rintro rfl
  simp [isMild, hd] at h

/-! ## Inner texts -/

/-- A text that may stand inside a statement. -/
structure IsInner (s : List Char) : Prop where
  head : ∀ c ∈ s.head?, c ≠ '-' ∧ c ≠ '*'
  statement : Closed isAnyQuote s
  semicolon : .plain ';' ∉ pieces isAnyQuote s
  body : Closed isSingleQuote s
  comment : ∀ p ∈ pieces isSingleQuote s, p.isComment = false

instance (s : List Char) : Decidable (IsInner s) :=
  decidable_of_iff ((∀ c ∈ s.head?, c ≠ '-' ∧ c ≠ '*') ∧ Closed isAnyQuote s ∧ .plain ';' ∉ pieces isAnyQuote s ∧
      Closed isSingleQuote s ∧ ∀ p ∈ pieces isSingleQuote s, p.isComment = false)
    ⟨fun h => ⟨h.1, h.2.1, h.2.2.1, h.2.2.2.1, h.2.2.2.2⟩, fun h => ⟨h.1, h.2, h.3, h.4, h.5⟩⟩

theorem AllClosed.append (ha : AllClosed ps) (hb : AllClosed qs) : AllClosed (ps ++ qs) := by
  cases qs with
  | nil => rwa [List.append_nil]
  | cons q qs => exact ha.append_cons hb

/-- Inner texts may be put together. -/
theorem IsInner.append (ha : IsInner a) (hb : IsInner b) : IsInner (a ++ b) := by
  have hAny := pieces_append ha.statement hb.head
  have hSingle := pieces_append ha.body hb.head
  refine ⟨fun c hc => ?_, ?_, ?_, ?_, ?_⟩
  · rw [List.head?_append] at hc
    rcases Option.or_eq_some_iff.1 hc with hc | ⟨-, hc⟩
    · exact ha.head c hc
    · exact hb.head c hc
  · rw [Closed, hAny]
    exact ha.statement.append hb.statement
  · rw [hAny, List.mem_append, not_or]
    exact ⟨ha.semicolon, hb.semicolon⟩
  · rw [Closed, hSingle]
    exact ha.body.append hb.body
  · rw [hSingle]
    intro p hp
    exact (List.mem_append.1 hp).elim (ha.comment p) (hb.comment p)

/-- Mild characters make up an inner text. -/
theorem isInner_of_forall (h : ∀ c ∈ s, isMild c = true) : IsInner s := by
  have hNe : ∀ d ∈ strongChars, ∀ c ∈ s, c ≠ d := fun d hd c hc => ne_of_isMild (h c hc) hd
  have hAny : pieces isAnyQuote s = s.map .plain := by
    refine pieces_of_forall fun c hc => ⟨?_, hNe '-' (by decide) c hc, hNe '/' (by decide) c hc⟩
    simp [isAnyQuote, hNe '\'' (by decide) c hc, hNe '"' (by decide) c hc]
  have hSingle : pieces isSingleQuote s = s.map .plain := by
    refine pieces_of_forall fun c hc => ⟨?_, hNe '-' (by decide) c hc, hNe '/' (by decide) c hc⟩
    simp [isSingleQuote, hNe '\'' (by decide) c hc]
  refine ⟨fun c hc => ?_, (closed_of_pieces_eq hAny).1, ?_, (closed_of_pieces_eq hSingle).1,
    (closed_of_pieces_eq hSingle).2⟩
  · have hMem := List.mem_of_mem_head? hc
    exact ⟨hNe '-' (by decide) c hMem, hNe '*' (by decide) c hMem⟩
  · rw [hAny]
    simpa using fun hc => hNe ';' (by decide) ';' hc rfl

/-- Inner texts with a mild character between them make up one. -/
theorem isInner_intercalate {c : Char} (hc : isMild c = true) {texts : List (List Char)}
    (h : ∀ t ∈ texts, IsInner t) : IsInner ([c].intercalate texts) := by
  induction texts with
  | nil => exact isInner_of_forall (by simp)
  | cons t texts ih =>
    have ht := h t List.mem_cons_self
    have hRest := ih fun u hu => h u (List.mem_cons_of_mem t hu)
    cases texts with
    | nil => simpa using ht
    | cons u texts =>
      rw [List.intercalate_cons_cons, List.append_assoc]
      exact ht.append ((isInner_of_forall (by simpa using hc)).append hRest)

/-- A run in double quotes is an inner text. -/
theorem isInner_doubleQuoted (h : ∀ c ∈ s, isMild c = true) : IsInner ('"' :: s ++ ['"']) := by
  have hNe : ∀ d ∈ strongChars, ∀ c ∈ s, c ≠ d := fun d hd c hc => ne_of_isMild (h c hc) hd
  have hAny : pieces isAnyQuote ('"' :: s ++ ['"']) = [.quoted ('"' :: s ++ ['"'])] := by
    have hRun : (Piece.quoted ('"' :: s ++ ['"'])).Before isAnyQuote [] :=
      .quoted rfl fun hc => hNe '"' (by decide) '"' hc rfl
    have hText := hRun.pieces_text_append
    rwa [pieces_nil, List.append_nil] at hText
  have hSingle : pieces isSingleQuote ('"' :: s ++ ['"']) = ('"' :: s ++ ['"']).map .plain := by
    refine pieces_of_forall fun c hc => ?_
    simp only [List.cons_append, List.mem_cons, List.mem_append, List.not_mem_nil, or_false] at hc
    rcases hc with rfl | hc | rfl
    · decide
    · exact ⟨by simp [isSingleQuote, hNe '\'' (by decide) c hc], hNe '-' (by decide) c hc, hNe '/' (by decide) c hc⟩
    · decide
  refine ⟨by simp, ?_, ?_, (closed_of_pieces_eq hSingle).1, (closed_of_pieces_eq hSingle).2⟩
  · rw [Closed, hAny]
    refine ⟨?_, by simp [Piece.isLineComment]⟩
    simp [Piece.isClosed, List.getLast?_cons]
  · rw [hAny]
    simp

/-! ## Parts of an item -/

/-- An inner text that commas and parentheses do not cut. -/
structure IsPart (s : List Char) : Prop extends IsInner s where
  item : isItem 0 (pieces isSingleQuote s) = true

instance (s : List Char) : Decidable (IsPart s) :=
  decidable_of_iff (IsInner s ∧ isItem 0 (pieces isSingleQuote s) = true) ⟨fun h => ⟨h.1, h.2⟩, fun h => ⟨h.1, h.2⟩⟩

theorem IsPart.append (ha : IsPart a) (hb : IsPart b) : IsPart (a ++ b) := by
  refine ⟨ha.toIsInner.append hb.toIsInner, ?_⟩
  rw [pieces_append ha.body hb.head]
  exact isItem_append ha.item hb.item

/-- An inner text without single quotes, commas and parentheses is part of an item. -/
theorem IsInner.isPart (h : IsInner s) (hChars : ∀ c ∈ s, (isSingleQuote c = false ∧ c ≠ '-' ∧ c ≠ '/') ∧
    isItemChar c = true) : IsPart s := by
  refine ⟨h, ?_⟩
  rw [pieces_of_forall fun c hc => (hChars c hc).1]
  exact isItem_of_forall fun c hc => (hChars c hc).2

/-- So is one in parentheses, with commas or without. -/
theorem IsInner.isPart_parenthesized (h : IsInner s) (hChars : ∀ c ∈ s, (isSingleQuote c = false ∧ c ≠ '-' ∧ c ≠ '/') ∧
    (isItemChar c = true ∨ c = ',')) : IsPart ('(' :: s ++ [')']) := by
  have hOpen : IsInner ['('] := isInner_of_forall (by decide)
  have hClose : IsInner [')'] := isInner_of_forall (by decide)
  refine ⟨(hOpen.append h).append hClose, ?_⟩
  rw [pieces_of_forall]
  · exact isItem_parenthesized fun c hc => (hChars c hc).2
  · intro c hc
    simp only [List.cons_append, List.mem_cons, List.mem_append, List.not_mem_nil, or_false] at hc
    rcases hc with rfl | hc | rfl
    · decide
    · exact (hChars c hc).1
    · decide

/-- Such a text is one item. -/
theorem IsPart.items (h : IsPart s) (hNil : Text.trim s ≠ []) : items s = [Text.trim s] := by
  have hBare : (pieces isSingleQuote s).map Piece.bare = pieces isSingleQuote s := by
    conv_rhs => rw [← List.map_id (pieces isSingleQuote s)]
    refine List.map_congr_left fun p hp => ?_
    simp [Piece.bare, h.comment p hp]
  rw [items_eq, hBare, cutAtCommas_of_isItem h.item, List.map_singleton, textOf_pieces, List.filter_cons_of_pos]
  · rfl
  · simp [hNil]

theorem IsPart.isBody (h : IsPart s) : IsBody s := ⟨h.body, balanced_of_isItem h.item⟩

end SqlSurvey.Sql
