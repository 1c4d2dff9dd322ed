import SqlSurvey.Sql.Piece
import Mathlib.Data.List.Basic
import Mathlib.Data.List.Infix
import Mathlib.Data.List.TakeWhile

/-!
# Lists of lexical pieces

Which lists of pieces a text can fall into, said piece by piece: what a piece looks like and what may
follow it. A list that satisfies this is read back from its own text, so it can be cut, joined and
changed without reading the text again.
-/

namespace SqlSurvey.Sql

/-! ## Cutting after a mark -/

theorem cutAfter_eq_none_iff {mark s : List Char} (hMark : mark ≠ []) :
    cutAfter mark s = none ↔ ¬ mark <:+: s := by
  induction s with
  | nil => simp [cutAfter, hMark]
  | cons c s ih =>
    rw [List.infix_cons_iff, not_or, ← ih, cutAfter, ← List.isPrefixOf_iff_prefix]
    by_cases hp : mark.isPrefixOf (c :: s) = true <;> simp [hp]

/-- A text is cut after the mark that comes first. -/
theorem cutAfter_eq_some {mark inner : List Char} (hMark : mark ≠ [])
    (h : ¬ mark <:+: inner ++ mark.dropLast) (t : List Char) :
    cutAfter mark (inner ++ mark ++ t) = some (inner ++ mark, t) := by
  induction inner with
  | nil =>
    obtain ⟨m, ms, rfl⟩ := List.exists_cons_of_ne_nil hMark
    simp [cutAfter, List.isPrefixOf_iff_prefix]
  | cons c inner ih =>
    have hInner : ¬ mark <:+: inner ++ mark.dropLast := fun hi =>
      h (hi.trans (List.suffix_cons c _).isInfix)
    -- a mark that begins here would end before the last character of the mark that follows
    have hHere : mark.isPrefixOf (c :: (inner ++ mark ++ t)) = false := by
      rw [Bool.eq_false_iff]
      intro hp
      have hp := List.isPrefixOf_iff_prefix.1 hp
      have hq : c :: (inner ++ mark.dropLast) <+: c :: (inner ++ mark ++ t) := by
        rw [List.cons_prefix_cons, List.append_assoc]
        refine ⟨rfl, (List.prefix_append_right_inj inner).2 ?_⟩
        exact (List.dropLast_prefix mark).trans (List.prefix_append mark t)
      have hLength : mark.length ≤ (c :: (inner ++ mark.dropLast)).length := by
        simp only [List.length_cons, List.length_append, List.length_dropLast]
        omega
      exact h (List.prefix_of_prefix_length_le hp hq hLength).isInfix
    rw [List.cons_append, List.cons_append, cutAfter, hHere, ih hInner]
    rfl

/-- What is cut off ends with the mark and holds no other before it. -/
theorem cutAfter_spec {mark s u t : List Char} (hMark : mark ≠ []) (h : cutAfter mark s = some (u, t)) :
    ∃ inner, u = inner ++ mark ∧ ¬ mark <:+: inner ++ mark.dropLast := by
  induction s generalizing u with
  | nil => simp [cutAfter] at h
  | cons c s ih =>
    by_cases hp : mark.isPrefixOf (c :: s) = true
    · simp only [cutAfter, hp, if_true, Option.some.injEq, Prod.mk.injEq] at h
      refine ⟨[], by simp [h.1], fun hi => ?_⟩
      have hLength := hi.length_le
      have := List.length_pos_iff.2 hMark
      simp only [List.nil_append, List.length_dropLast] at hLength
      omega
    · simp only [cutAfter, hp, Bool.false_eq_true, if_false, Option.map_eq_some_iff,
        Prod.mk.injEq] at h
      obtain ⟨⟨u', t'⟩, hCut, rfl, rfl⟩ := h
      obtain ⟨inner, rfl, hInner⟩ := ih hCut
      refine ⟨c :: inner, rfl, fun hi => ?_⟩
      rcases List.infix_cons_iff.1 hi with hi | hi
      · -- the mark would begin at the first character
        apply hp
        rw [List.isPrefixOf_iff_prefix, ← cutAfter_append hCut]
        refine hi.trans ?_
        show c :: (inner ++ mark.dropLast) <+: c :: (inner ++ mark ++ t')
        rw [List.cons_prefix_cons, List.append_assoc]
        refine ⟨rfl, (List.prefix_append_right_inj inner).2 ?_⟩
        exact (List.dropLast_prefix mark).trans (List.prefix_append mark t')
      · exact hInner hi

/-! ## One piece -/

namespace Piece

/-- A piece as it stands before a text. -/
inductive Before (isQuote : Char → Bool) : Piece → List Char → Prop
  | plain {c : Char} {t : List Char} (hQuote : isQuote c = false) (hLine : lineCommentOpens c t = false)
      (hBlock : blockCommentOpens c t = false) : Before isQuote (.plain c) t
  | quoted {q : Char} {inner t : List Char} (hQuote : isQuote q = true) (hInner : q ∉ inner) :
      Before isQuote (.quoted (q :: (inner ++ [q]))) t
  | openQuoted {q : Char} {inner : List Char} (hQuote : isQuote q = true) (hInner : q ∉ inner) :
      Before isQuote (.quoted (q :: inner)) []
  | line {inner t : List Char} (hQuote : isQuote '-' = false) (hInner : '\n' ∉ inner)
      (hNext : ∀ c ∈ t.head?, c = '\n') : Before isQuote (.comment ('-' :: '-' :: inner)) t
  | block {inner t : List Char} (hQuote : isQuote '/' = false)
      (hInner : ¬ ['*', '/'] <:+: inner ++ ['*']) :
      Before isQuote (.comment ('/' :: '*' :: (inner ++ ['*', '/']))) t
  | openBlock {inner : List Char} (hQuote : isQuote '/' = false) (hInner : ¬ ['*', '/'] <:+: inner) :
      Before isQuote (.comment ('/' :: '*' :: inner)) []

variable {isQuote : Char → Bool} {p : Piece} {t u : List Char}

theorem Before.text_ne_nil (h : Before isQuote p t) : p.text ≠ [] := by
  cases h <;> simp [text]

/-- What follows a piece may be cut short. -/
theorem Before.of_append (h : Before isQuote p (t ++ u)) : Before isQuote p t := by
  generalize hs : t ++ u = s at h
  have hHead : ∀ c ∈ t.head?, c ∈ s.head? := by
    intro c hc
    rw [← hs, List.head?_append, hc]
    rfl
  cases h with
  | plain hQuote hLine hBlock =>
    refine .plain hQuote ?_ ?_
    · cases t with
      | nil => simp [lineCommentOpens]
      | cons d t => rw [← hs] at hLine; exact hLine
    · cases t with
      | nil => simp [blockCommentOpens]
      | cons d t => rw [← hs] at hBlock; exact hBlock
  | quoted hQuote hInner => exact .quoted hQuote hInner
  | openQuoted hQuote hInner =>
    rw [(List.append_eq_nil_iff.1 hs).1]
    exact .openQuoted hQuote hInner
  | line hQuote hInner hNext => exact .line hQuote hInner fun c hc => hNext c (hHead c hc)
  | block hQuote hInner => exact .block hQuote hInner
  | openBlock hQuote hInner =>
    rw [(List.append_eq_nil_iff.1 hs).1]
    exact .openBlock hQuote hInner

/-- The first piece of a text stands before what follows it. -/
theorem first_before (isQuote : Char → Bool) (c : Char) (r : List Char) :
    Before isQuote (first isQuote c r).1 (first isQuote c r).2 := by
  unfold first
  by_cases hQuote : isQuote c = true
  · rw [if_pos hQuote]
    cases h : cutAfter [c] r with
    | none =>
      have hInner := (cutAfter_eq_none_iff (by simp)).1 h
      exact .openQuoted hQuote (by simpa [List.singleton_infix_iff] using hInner)
    | some p =>
      obtain ⟨inner, hp, hInner⟩ := cutAfter_spec (by simp) h
      simp only [hp]
      exact .quoted hQuote (by simpa [List.singleton_infix_iff] using hInner)
  rw [if_neg hQuote]
  rw [Bool.not_eq_true] at hQuote
  by_cases hLine : lineCommentOpens c r = true
  · obtain ⟨rfl, hr⟩ : c = '-' ∧ r.head? = some '-' := by simpa [lineCommentOpens] using hLine
    obtain ⟨s, rfl⟩ := List.head?_eq_some_iff.1 hr
    rw [if_pos hLine]
    refine .line hQuote (fun hm => ?_) fun d hd => ?_
    · simpa using List.mem_takeWhile_imp hm
    · have := List.head?_dropWhile_not (fun d => d != '\n') ('-' :: s)
      rw [hd] at this
      simpa using this
  rw [if_neg hLine]
  by_cases hBlock : blockCommentOpens c r = true
  · obtain ⟨rfl, hr⟩ : c = '/' ∧ r.head? = some '*' := by simpa [blockCommentOpens] using hBlock
    obtain ⟨s, rfl⟩ := List.head?_eq_some_iff.1 hr
    rw [if_pos hBlock, List.tail_cons]
    cases h : cutAfter ['*', '/'] s with
    | none => exact .openBlock hQuote ((cutAfter_eq_none_iff (by simp)).1 h)
    | some p =>
      obtain ⟨inner, hp, hInner⟩ := cutAfter_spec (by simp) h
      simp only [hp]
      exact .block hQuote hInner
  rw [if_neg hBlock]
  exact .plain hQuote (by simpa using hLine) (by simpa using hBlock)

/-- A piece that stands before a text is the first piece of what the two make up. -/
theorem Before.first_eq {c : Char} {r : List Char} (h : Before isQuote p t) (hText : p.text ++ t = c :: r) :
    first isQuote c r = (p, t) := by
  cases h with
  | plain hQuote hLine hBlock =>
    simp only [text, List.cons_append, List.nil_append, List.cons.injEq] at hText
    obtain ⟨rfl, rfl⟩ := hText
    simp [first, hQuote, hLine, hBlock]
  | @quoted q inner t hQuote hInner =>
    simp only [text, List.cons_append, List.append_assoc, List.nil_append, List.cons.injEq] at hText
    obtain ⟨rfl, rfl⟩ := hText
    have hCut : cutAfter [q] (inner ++ q :: t) = some (inner ++ [q], t) := by
      have hFirst : ¬ [q] <:+: inner ++ [q].dropLast := by
        simpa [List.singleton_infix_iff] using hInner
      simpa using cutAfter_eq_some (by simp) hFirst t
    simp [first, hQuote, hCut]
  | @openQuoted q inner hQuote hInner =>
    simp only [text, List.append_nil, List.cons.injEq] at hText
    obtain ⟨rfl, rfl⟩ := hText
    have hNone : cutAfter [q] inner = none := by
      rw [cutAfter_eq_none_iff (by simp), List.singleton_infix_iff]
      exact hInner
    simp [first, hQuote, hNone]
  | @line inner t hQuote hInner hNext =>
    simp only [text, List.cons_append, List.cons.injEq] at hText
    obtain ⟨rfl, rfl⟩ := hText
    -- the line ends where the text that follows begins
    have hAll : ∀ d ∈ '-' :: inner, (d != '\n') = true := by
      intro d hd
      rcases List.mem_cons.1 hd with rfl | hd
      · rfl
      · simpa using fun h : d = '\n' => hInner (h ▸ hd)
    have hTake : t.takeWhile (fun d => d != '\n') = [] := by
      cases t with
      | nil => rfl
      | cons d t => simp [hNext d rfl]
    have hDrop : t.dropWhile (fun d => d != '\n') = t := by
      cases t with
      | nil => rfl
      | cons d t => simp [hNext d rfl]
    have hOpens : lineCommentOpens '-' ('-' :: (inner ++ t)) = true := rfl
    rw [first, hQuote, if_neg Bool.false_ne_true, if_pos hOpens, ← List.cons_append,
      List.takeWhile_append_of_pos hAll, List.dropWhile_append_of_pos hAll, hTake, hDrop, List.append_nil]
  | @block inner t hQuote hInner =>
    simp only [text, List.cons_append, List.append_assoc, List.nil_append, List.cons.injEq] at hText
    obtain ⟨rfl, rfl⟩ := hText
    have hCut : cutAfter ['*', '/'] (inner ++ '*' :: '/' :: t) = some (inner ++ ['*', '/'], t) := by
      simpa using cutAfter_eq_some (by simp) hInner t
    have hLine : lineCommentOpens '/' ('*' :: (inner ++ '*' :: '/' :: t)) = false := rfl
    have hOpens : blockCommentOpens '/' ('*' :: (inner ++ '*' :: '/' :: t)) = true := rfl
    rw [first, hQuote, if_neg Bool.false_ne_true, hLine, if_neg Bool.false_ne_true, if_pos hOpens,
      List.tail_cons, hCut]
  | @openBlock inner hQuote hInner =>
    simp only [text, List.append_nil, List.cons.injEq] at hText
    obtain ⟨rfl, rfl⟩ := hText
    have hLine : lineCommentOpens '/' ('*' :: inner) = false := rfl
    have hOpens : blockCommentOpens '/' ('*' :: inner) = true := rfl
    rw [first, hQuote, if_neg Bool.false_ne_true, hLine, if_neg Bool.false_ne_true, if_pos hOpens,
      List.tail_cons, (cutAfter_eq_none_iff (by simp)).2 hInner]

end Piece

/-! ## Lists of pieces -/

/-- Pieces, each of which stands before the text of those after it. -/
def Lexed (isQuote : Char → Bool) : List Piece → Prop
  | [] => True
  | p :: ps => p.Before isQuote (textOf ps) ∧ Lexed isQuote ps

variable {isQuote : Char → Bool} {ps qs : List Piece} {s t : List Char}

theorem lexed_pieces (isQuote : Char → Bool) (s : List Char) : Lexed isQuote (pieces isQuote s) := by
  fun_induction pieces isQuote s with
  | case1 => trivial
  | case2 c r ih =>
    refine ⟨?_, ih⟩
    rw [textOf_pieces]
    exact Piece.first_before isQuote c r

/-- The first piece of a text is read and the rest is read after it. -/
theorem Piece.Before.pieces_text_append {p : Piece} (h : p.Before isQuote t) :
    pieces isQuote (p.text ++ t) = p :: pieces isQuote t := by
  obtain ⟨c, r, hText⟩ := List.exists_cons_of_ne_nil
    (List.append_ne_nil_of_left_ne_nil h.text_ne_nil t)
  rw [hText, pieces, h.first_eq hText]

/-- Pieces that may stand together are read back from their text. -/
theorem Lexed.pieces_textOf (h : Lexed isQuote ps) : pieces isQuote (textOf ps) = ps := by
  induction ps with
  | nil => exact pieces_nil isQuote
  | cons p ps ih => rw [textOf_cons, h.1.pieces_text_append, ih h.2]

theorem Lexed.left (h : Lexed isQuote (ps ++ qs)) : Lexed isQuote ps := by
  induction ps with
  | nil => trivial
  | cons p ps ih =>
    refine ⟨Piece.Before.of_append (u := textOf qs) ?_, ih h.2⟩
    rw [← textOf_append]
    exact h.1

theorem Lexed.right (h : Lexed isQuote (ps ++ qs)) : Lexed isQuote qs := by
  induction ps with
  | nil => exact h
  | cons p ps ih => exact ih h.2

theorem Lexed.within (h : Lexed isQuote qs) (hInfix : ps <:+: qs) : Lexed isQuote ps := by
  obtain ⟨as, bs, rfl⟩ := hInfix
  exact h.left.right

theorem Lexed.eq_nil_of_textOf (h : Lexed isQuote ps) (hText : textOf ps = []) : ps = [] := by
  cases ps with
  | nil => rfl
  | cons p ps => exact absurd (List.append_eq_nil_iff.1 hText).1 h.1.text_ne_nil

/-! ## Closed texts -/

namespace Piece

/-- A comment that lasts to the end of its line. -/
def isLineComment : Piece → Bool
  | comment t => ['-', '-'].isPrefixOf t
  | _ => false

/-- A piece that does not run on because its end is missing. -/
def isClosed : Piece → Bool
  | plain _ => true
  | quoted t => decide (2 ≤ t.length) && t.getLast? == t.head?
  | comment t => ['-', '-'].isPrefixOf t || decide (4 ≤ t.length) && ['*', '/'].isSuffixOf t

/-- What follows a piece may be continued. -/
theorem Before.append_of_ne_nil {p : Piece} (h : p.Before isQuote t) (ht : t ≠ []) (s : List Char) :
    p.Before isQuote (t ++ s) := by
  obtain ⟨c, t, rfl⟩ := List.exists_cons_of_ne_nil ht
  cases h with
  | plain hQuote hLine hBlock => exact .plain hQuote hLine hBlock
  | quoted hQuote hInner => exact .quoted hQuote hInner
  | line hQuote hInner hNext => exact .line hQuote hInner hNext
  | block hQuote hInner => exact .block hQuote hInner

/-- A closed piece at the end of a text may be followed by all that does not complete a comment mark. -/
theorem Before.of_isClosed {p : Piece} (h : p.Before isQuote []) (hClosed : p.isClosed = true)
    (hLine : p.isLineComment = false) (hNext : ∀ c ∈ s.head?, c ≠ '-' ∧ c ≠ '*') :
    p.Before isQuote s := by
  cases h with
  | plain hQuote _ _ =>
    refine .plain hQuote ?_ ?_
    · cases s with
      | nil => simp [lineCommentOpens]
      | cons d s => simp [lineCommentOpens, (hNext d rfl).1]
    · cases s with
      | nil => simp [blockCommentOpens]
      | cons d s => simp [blockCommentOpens, (hNext d rfl).2]
  | quoted hQuote hInner => exact .quoted hQuote hInner
  | @openQuoted q inner hQuote hInner =>
    -- the last quote would be inside
    exfalso
    simp only [isClosed, List.length_cons, Bool.and_eq_true, decide_eq_true_eq, beq_iff_eq] at hClosed
    obtain ⟨hLength, hLast⟩ := hClosed
    obtain ⟨c, inner, rfl⟩ := List.exists_cons_of_ne_nil
      (show inner ≠ [] from fun hn => by simp [hn] at hLength)
    rw [List.getLast?_cons_cons, List.head?_cons] at hLast
    exact hInner (List.mem_of_getLast? hLast)
  | line hQuote hInner hEnd => simp [isLineComment] at hLine
  | block hQuote hInner => exact .block hQuote hInner
  | @openBlock inner hQuote hInner =>
    -- the closing mark would be inside
    exfalso
    simp only [isClosed, List.isPrefixOf_cons_cons, List.length_cons, Bool.or_eq_true,
      Bool.and_eq_true, decide_eq_true_eq, List.isSuffixOf_iff_suffix] at hClosed
    rcases hClosed with hLine | ⟨hLength, hSuffix⟩
    · simp at hLine
    · refine hInner (List.suffix_of_suffix_length_le hSuffix ?_ ?_).isInfix
      · exact (List.suffix_cons '*' inner).trans (List.suffix_cons '/' _)
      · simp only [List.length_cons, List.length_nil]
        omega

end Piece

/-- Every piece is closed, and the last one is no line comment. -/
def AllClosed (ps : List Piece) : Prop :=
  (∀ p ∈ ps, p.isClosed = true) ∧ ∀ p ∈ ps.getLast?, p.isLineComment = false

instance (ps : List Piece) : Decidable (AllClosed ps) := inferInstanceAs (Decidable (_ ∧ _))

/-- A text in which every quoted run and block comment is closed, and which does not end inside a line
comment. -/
def Closed (isQuote : Char → Bool) (s : List Char) : Prop := AllClosed (pieces isQuote s)

instance (isQuote : Char → Bool) (s : List Char) : Decidable (Closed isQuote s) :=
  inferInstanceAs (Decidable (AllClosed _))

theorem AllClosed.tail {p : Piece} (h : AllClosed (p :: ps)) : AllClosed ps := by
  refine ⟨fun q hq => h.1 q (List.mem_cons_of_mem p hq), fun q hq => h.2 q ?_⟩
  cases ps with
  | nil => simp at hq
  | cons q ps => exact hq

/-- After closed pieces, any others may stand that do not begin like the rest of a comment mark. -/
theorem Lexed.append (h : Lexed isQuote ps) (hClosed : AllClosed ps) (k : Lexed isQuote qs)
    (hNext : ∀ c ∈ (textOf qs).head?, c ≠ '-' ∧ c ≠ '*') : Lexed isQuote (ps ++ qs) := by
  induction ps with
  | nil => exact k
  | cons p ps ih =>
    refine ⟨?_, ih h.2 hClosed.tail⟩
    show p.Before isQuote (textOf (ps ++ qs))
    rw [textOf_append]
    by_cases hNil : textOf ps = []
    · obtain rfl := h.2.eq_nil_of_textOf hNil
      exact h.1.of_isClosed (hClosed.1 p List.mem_cons_self) (hClosed.2 p rfl) hNext
    · exact h.1.append_of_ne_nil hNil _

/-- A closed text falls into the same pieces whatever follows it. -/
theorem pieces_append (h : Closed isQuote s) (hNext : ∀ c ∈ t.head?, c ≠ '-' ∧ c ≠ '*') :
    pieces isQuote (s ++ t) = pieces isQuote s ++ pieces isQuote t := by
  have hLexed := (lexed_pieces isQuote s).append h (lexed_pieces isQuote t)
    (by rwa [textOf_pieces])
  simpa [textOf_append, textOf_pieces] using hLexed.pieces_textOf

/-! ## Texts without comments -/

/-- A piece, or the space that stands for it if it is a comment. -/
def Piece.bare (p : Piece) : Piece := if p.isComment then .plain ' ' else p

/-- The text without comments is the text of the pieces, with a space for each comment. -/
theorem withoutComments_eq (s : List Char) :
    withoutComments s = textOf ((pieces isSingleQuote s).map Piece.bare) := by
  rw [withoutComments, textOf, List.flatMap_map]
  congr 1
  funext p
  cases p <;> rfl

@[simp] theorem Piece.bare_bare (p : Piece) : p.bare.bare = p.bare := by
  cases p <;> rfl

/-- A text without comments begins as the text does, or with the space for a comment. -/
theorem head?_textOf_bare (h : Lexed isQuote ps) :
    (textOf (ps.map Piece.bare)).head? = (textOf ps).head? ∨
      (textOf (ps.map Piece.bare)).head? = some ' ' := by
  cases ps with
  | nil => exact .inl rfl
  | cons p ps =>
    obtain ⟨c, r, hText⟩ := List.exists_cons_of_ne_nil h.1.text_ne_nil
    by_cases hp : p.isComment = true
    · right
      simp [Piece.bare, hp, Piece.text]
    · left
      simp [Piece.bare, hp, hText]

/-- A character stands alone before any text that begins as the one after it, or with a space. -/
theorem Piece.Before.plain_of_head {c : Char} {s t : List Char} (h : (Piece.plain c).Before isQuote s)
    (hHead : t.head? = s.head? ∨ t.head? = some ' ') : (Piece.plain c).Before isQuote t := by
  cases h with
  | plain hQuote hLine hBlock =>
    refine .plain hQuote ?_ ?_
    · unfold Piece.lineCommentOpens at hLine ⊢
      rcases hHead with hHead | hHead
      · rwa [hHead]
      · simp [hHead]
    · unfold Piece.blockCommentOpens at hBlock ⊢
      rcases hHead with hHead | hHead
      · rwa [hHead]
      · simp [hHead]

/-- Where comments have been replaced by spaces, no new piece has come about. -/
theorem Lexed.bare (h : Lexed isSingleQuote ps) : Lexed isSingleQuote (ps.map Piece.bare) := by
  induction ps with
  | nil => trivial
  | cons p ps ih =>
    obtain ⟨hp, hps⟩ := h
    refine ⟨?_, ih hps⟩
    have hHead := head?_textOf_bare hps
    have hSpace : ∀ t, (Piece.plain ' ').Before isSingleQuote t := fun t => .plain rfl rfl rfl
    generalize hs : textOf ps = s at hp hHead
    cases hp with
    | plain hQuote hLine hBlock => exact (Piece.Before.plain hQuote hLine hBlock).plain_of_head hHead
    | quoted hQuote hInner => exact .quoted hQuote hInner
    | openQuoted hQuote hInner =>
      obtain rfl := hps.eq_nil_of_textOf hs
      exact .openQuoted hQuote hInner
    | line => exact hSpace _
    | block => exact hSpace _
    | openBlock => exact hSpace _

theorem pieces_withoutComments (s : List Char) :
    pieces isSingleQuote (withoutComments s) = (pieces isSingleQuote s).map Piece.bare := by
  rw [withoutComments_eq, (lexed_pieces isSingleQuote s).bare.pieces_textOf]

/-- No comments come about where comments have been replaced. -/
theorem map_bare_pieces_withoutComments (s : List Char) :
    (pieces isSingleQuote (withoutComments s)).map Piece.bare = (pieces isSingleQuote s).map Piece.bare := by
  rw [pieces_withoutComments, List.map_map]
  exact List.map_congr_left fun p _ => p.bare_bare

theorem withoutComments_withoutComments (s : List Char) : withoutComments (withoutComments s) = withoutComments s := by
  rw [withoutComments_eq (withoutComments s), map_bare_pieces_withoutComments, withoutComments_eq]

end SqlSurvey.Sql
