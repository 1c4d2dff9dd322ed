import SqlSurvey.Sql.Statement
import SqlSurvey.Proofs.Sql.Pieces

/-!
# Texts with nothing in their comments and strings

A text is hollow when each comment is one space and each single-quoted run is empty. Making it so changes
no other piece, and brings about none that was not there.
-/

namespace SqlSurvey.Sql

variable {ps : List Piece} {s t : List Char}

namespace Piece

/-- A comment or a single-quoted run. -/
def isHidden : Piece → Bool
  | plain _ => false
  | quoted t => t.head? == some '\''
  | comment _ => true

/-- A piece with what is hidden in it taken out. -/
def hollow : Piece → Piece
  | plain c => plain c
  | quoted t => if t.head? == some '\'' then quoted ['\'', '\''] else quoted t
  | comment _ => plain ' '

theorem hollow_of_isHidden {p : Piece} (h : p.isHidden = false) : p.hollow = p := by
  cases p with
  | plain c => rfl
  | quoted t => exact if_neg (by simpa [isHidden] using h)
  | comment t => cases h

theorem hollow_eq_plain_iff {c : Char} (hc : c ≠ ' ') (p : Piece) : p.hollow = .plain c ↔ p = .plain c := by
  cases p with
  | plain d => rfl
  | quoted t => by_cases h : (t.head? == some '\'') = true <;> simp [hollow, h]
  | comment t => simp [hollow, Ne.symm hc]

theorem hollow_quoted (q : Char) (inner : List Char) :
    (quoted (q :: inner)).hollow = if q = '\'' then quoted ['\'', '\''] else quoted (q :: inner) := by
  simp [hollow]

end Piece

/-- The text with one space for each comment outside quotes, and with nothing in its single-quoted runs. -/
def hollow (s : List Char) : List Char := textOf ((pieces isAnyQuote s).map Piece.hollow)

/-- A piece that has been made hollow begins as before, or with the space for a comment. -/
theorem Piece.Before.head?_hollow {p : Piece} (h : p.Before isAnyQuote t) :
    p.hollow.text.head? = p.text.head? ∨ p.hollow.text.head? = some ' ' := by
  cases h with
  | plain => exact .inl rfl
  | @quoted q inner => left; by_cases hq : q = '\'' <;> simp [Piece.hollow_quoted, Piece.text, hq]
  | @openQuoted q inner => left; by_cases hq : q = '\'' <;> simp [Piece.hollow_quoted, Piece.text, hq]
  | line => exact .inr rfl
  | block => exact .inr rfl
  | openBlock => exact .inr rfl

/-- A hollow text begins as the text does, or with the space for a comment. -/
theorem head?_textOf_hollow (h : Lexed isAnyQuote ps) :
    (textOf (ps.map Piece.hollow)).head? = (textOf ps).head? ∨
      (textOf (ps.map Piece.hollow)).head? = some ' ' := by
  cases ps with
  | nil => exact .inl rfl
  | cons p ps =>
    obtain ⟨c, r, hText⟩ := List.exists_cons_of_ne_nil h.1.text_ne_nil
    rw [List.map_cons, textOf_cons, textOf_cons, List.head?_append, List.head?_append]
    rcases h.1.head?_hollow with hHead | hHead
    · left
      simp [hHead, hText]
    · right
      simp [hHead]

/-- What a hollow text consists of. -/
theorem Lexed.hollow (h : Lexed isAnyQuote ps) : Lexed isAnyQuote (ps.map Piece.hollow) := by
  induction ps with
  | nil => trivial
  | cons p ps ih =>
    obtain ⟨hp, hps⟩ := h
    refine ⟨?_, ih hps⟩
    have hHead := head?_textOf_hollow hps
    have hSpace : ∀ t, (Piece.plain ' ').Before isAnyQuote t := fun t => .plain rfl rfl rfl
    have hEmpty : ∀ t, (Piece.quoted ['\'', '\'']).Before isAnyQuote t := fun t =>
      .quoted (q := '\'') rfl (List.not_mem_nil (a := '\''))
    generalize hs : textOf ps = s at hp hHead
    cases hp with
    | plain hQuote hLine hBlock => exact (Piece.Before.plain hQuote hLine hBlock).plain_of_head hHead
    | @quoted q inner _ hQuote hInner =>
      rw [Piece.hollow_quoted]
      by_cases hq : q = '\''
      · rw [if_pos hq]
        exact hEmpty _
      · rw [if_neg hq]
        exact .quoted hQuote hInner
    | @openQuoted q inner hQuote hInner =>
      obtain rfl := hps.eq_nil_of_textOf hs
      rw [Piece.hollow_quoted]
      by_cases hq : q = '\''
      · rw [if_pos hq]
        exact hEmpty _
      · rw [if_neg hq]
        exact .openQuoted hQuote hInner
    | line => exact hSpace _
    | block => exact hSpace _
    | openBlock => exact hSpace _

theorem pieces_hollow (s : List Char) :
    pieces isAnyQuote (hollow s) = (pieces isAnyQuote s).map Piece.hollow :=
  (lexed_pieces isAnyQuote s).hollow.pieces_textOf

/-- What is hollow holds no other characters than the text, but for spaces and quotes. -/
theorem mem_of_mem_textOf_hollow {c : Char} (hSpace : c ≠ ' ') (hQuote : c ≠ '\'')
    (h : c ∈ textOf (ps.map Piece.hollow)) : c ∈ textOf ps := by
  rw [textOf, List.flatMap_map, List.mem_flatMap] at h
  obtain ⟨p, hp, hc⟩ := h
  refine List.mem_flatMap.2 ⟨p, hp, ?_⟩
  cases p with
  | plain d => exact hc
  | quoted t =>
    by_cases ht : (t.head? == some '\'') = true
    · simp [Piece.hollow, ht, Piece.text, hQuote] at hc
    · simpa [Piece.hollow, ht] using hc
  | comment t => simp [Piece.hollow, Piece.text, hSpace] at hc

/-! ## Statements -/

/-- The pieces of each statement of a text, blanks at their ends included. -/
def segments (s : List Char) : List (List Piece) := (pieces isAnyQuote s).splitOnP fun p => p == .plain ';'

theorem statements_eq (s : List Char) :
    statements s = ((segments s).map fun ps => Text.trim (textOf ps)).filter fun t => !t.isEmpty := rfl

theorem splitOnP_map {α β : Type} (f : α → β) (P : β → Bool) (xs : List α) :
    (xs.map f).splitOnP P = (xs.splitOnP fun x => P (f x)).map fun ys => ys.map f := by
  induction xs with
  | nil => rfl
  | cons x xs ih =>
    rw [List.map_cons, List.splitOnP_cons_eq_if_modifyHead, List.splitOnP_cons_eq_if_modifyHead, ih]
    by_cases h : P (f x) = true
    · rw [if_pos h, if_pos h]
      rfl
    · rw [if_neg h, if_neg h]
      cases xs.splitOnP fun x => P (f x) <;> rfl

/-- A hollow text falls into the statements of the text, each of them hollow. -/
theorem segments_hollow (s : List Char) :
    segments (hollow s) = (segments s).map fun ps => ps.map Piece.hollow := by
  have hSemicolon : (fun p : Piece => p.hollow == .plain ';') = fun p => p == .plain ';' := by
    funext p
    exact Bool.eq_iff_iff.2 (by simp only [beq_iff_eq, Piece.hollow_eq_plain_iff (by decide : ';' ≠ ' ')])
  rw [segments, pieces_hollow, splitOnP_map, hSemicolon]
  rfl

/-- Every stretch between separators is a part of the whole. -/
theorem infix_of_mem_splitOnP {α : Type} {P : α → Bool} {xs ys : List α} (h : ys ∈ xs.splitOnP P) :
    ys <:+: xs := by
  -- the first stretch is at the head, so an element may be put before it
  suffices hAll : (∀ zs ∈ (xs.splitOnP P).head?, zs <+: xs) ∧ ∀ zs ∈ xs.splitOnP P, zs <:+: xs from
    hAll.2 ys h
  clear h
  induction xs with
  | nil => simp
  | cons x xs ih =>
    obtain ⟨g, gs, hCut⟩ := List.exists_cons_of_ne_nil (List.splitOnP_ne_nil P xs)
    rw [hCut] at ih
    rw [List.splitOnP_cons_eq_if_modifyHead, hCut]
    by_cases hx : P x = true
    · rw [if_pos hx]
      refine ⟨by simp, fun zs hzs => ?_⟩
      rcases List.mem_cons.1 hzs with rfl | hzs
      · exact List.nil_infix
      · exact (ih.2 zs hzs).trans (List.suffix_cons x xs).isInfix
    · rw [if_neg hx, List.modifyHead_cons]
      have hg : x :: g <+: x :: xs := List.cons_prefix_cons.2 ⟨rfl, ih.1 g rfl⟩
      refine ⟨by simpa using hg, fun zs hzs => ?_⟩
      rcases List.mem_cons.1 hzs with rfl | hzs
      · exact hg.isInfix
      · exact (ih.2 zs (List.mem_cons_of_mem g hzs)).trans (List.suffix_cons x xs).isInfix

/-- The pieces of a statement may stand together. -/
theorem lexed_of_mem_segments (h : ps ∈ segments s) : Lexed isAnyQuote ps :=
  (lexed_pieces isAnyQuote s).within (infix_of_mem_splitOnP h)

end SqlSurvey.Sql
