import SqlSurvey.Sql.Item
import SqlSurvey.Proofs.Sql.Pieces
import SqlSurvey.Proofs.Text.Basic

/-!
# The items of a body

The items of a body depend on its text without comments only. Cutting at commas works on pieces and
never looks into a comment; dropping the leading comments of an item and replacing the others by spaces
comes to the same, up to blanks at the ends.
-/

namespace SqlSurvey.Sql

variable {isQuote : Char → Bool} {p : Piece} {ps qs : List Piece} {s t : List Char}

/-! ## Blanks at the ends of a text -/

theorem before_blank {c : Char} (h : Text.isBlank c = true) (t : List Char) :
    (Piece.plain c).Before isSingleQuote t := by
  have hDash : c ≠ '-' := fun hc => absurd h (by rw [hc]; decide)
  have hSlash : c ≠ '/' := fun hc => absurd h (by rw [hc]; decide)
  have hQuote : c ≠ '\'' := fun hc => absurd h (by rw [hc]; decide)
  exact .plain (by simp [isSingleQuote, hQuote]) (by simp [Piece.lineCommentOpens, hDash])
    (by simp [Piece.blockCommentOpens, hSlash])

theorem withoutComments_text_append (h : p.Before isSingleQuote t) :
    withoutComments (p.text ++ t) = p.bare.text ++ withoutComments t := by
  rw [withoutComments_eq, withoutComments_eq, h.pieces_text_append, List.map_cons, textOf_cons]

theorem withoutComments_blank_cons {c : Char} (h : Text.isBlank c = true) (s : List Char) :
    withoutComments (c :: s) = c :: withoutComments s := withoutComments_text_append (before_blank h s)

@[simp] theorem withoutComments_nil : withoutComments [] = [] := by
  simp [withoutComments]

/-- A blank after the last piece is kept, or belongs to the comment before it. -/
theorem withoutComments_text_blank {c : Char} (h : Text.isBlank c = true) (hp : p.Before isSingleQuote []) :
    withoutComments (p.text ++ [c]) = p.bare.text ++ [c] ∨
      withoutComments (p.text ++ [c]) = p.bare.text := by
  have hOne : withoutComments [c] = [c] := by
    rw [withoutComments_blank_cons h, withoutComments_nil]
  have hKept : p.Before isSingleQuote [c] → withoutComments (p.text ++ [c]) = p.bare.text ++ [c] :=
    fun hb => by rw [withoutComments_text_append hb, hOne]
  have hNext : ∀ d ∈ [c].head?, d ≠ '-' ∧ d ≠ '*' := by
    rintro d hd
    obtain rfl : c = d := by simpa using hd
    exact ⟨fun hc => absurd h (by rw [hc]; decide), fun hc => absurd h (by rw [hc]; decide)⟩
  -- a longer piece in the place of one that was open
  have hLonger : ∀ q : Piece, q.Before isSingleQuote [] → withoutComments q.text = q.bare.text :=
    fun q hq => by simpa using withoutComments_text_append hq
  cases hp with
  | plain hQuote hLine hBlock =>
    exact .inl (hKept (Piece.Before.of_isClosed (.plain hQuote hLine hBlock) rfl rfl hNext))
  | quoted hQuote hInner => exact .inl (hKept (.quoted hQuote hInner))
  | @openQuoted q inner hQuote hInner =>
    left
    obtain rfl : q = '\'' := by simpa [isSingleQuote] using hQuote
    have hc : '\'' ≠ c := fun hc => absurd h (by rw [← hc]; decide)
    exact hLonger (.quoted ('\'' :: (inner ++ [c]))) (.openQuoted hQuote (by simp [hInner, hc]))
  | @line inner _ hQuote hInner _ =>
    by_cases hc : c = '\n'
    · exact .inl (hKept (.line hQuote hInner (by simp [hc])))
    · right
      exact hLonger (.comment ('-' :: '-' :: (inner ++ [c])))
        (.line hQuote (by simp [hInner, Ne.symm hc]) (by simp))
  | block hQuote hInner => exact .inl (hKept (.block hQuote hInner))
  | @openBlock inner hQuote hInner =>
    right
    refine hLonger (.comment ('/' :: '*' :: (inner ++ [c]))) (.openBlock hQuote fun hi => ?_)
    rcases List.infix_concat_iff.1 hi with hi | hi
    · have hc : '/' = c := by simpa using List.IsSuffix.getLast hi (by simp)
      exact absurd h (by rw [← hc]; decide)
    · exact hInner hi

/-- A blank at the end is kept, or belongs to the comment before it. -/
theorem withoutComments_append_blank {c : Char} (h : Text.isBlank c = true) (s : List Char) :
    withoutComments (s ++ [c]) = withoutComments s ++ [c] ∨
      withoutComments (s ++ [c]) = withoutComments s := by
  have hLexed := lexed_pieces isSingleQuote s
  rw [← textOf_pieces isSingleQuote s]
  generalize pieces isSingleQuote s = ps at hLexed
  induction ps with
  | nil =>
    left
    rw [textOf_nil, List.nil_append, withoutComments_blank_cons h, withoutComments_nil]
    rfl
  | cons p ps ih =>
    obtain ⟨hp, hps⟩ := hLexed
    rw [textOf_cons, List.append_assoc, withoutComments_text_append hp]
    by_cases hNil : textOf ps = []
    · rw [hNil] at hp ⊢
      rw [List.nil_append, withoutComments_nil, List.append_nil]
      exact withoutComments_text_blank h hp
    · rw [withoutComments_text_append (hp.append_of_ne_nil hNil [c])]
      rcases ih hps with ih | ih
      · left
        rw [ih, List.append_assoc]
      · right
        rw [ih]

/-- Blanks at the ends make no difference to what is left without comments and blanks at the ends. -/
theorem trim_withoutComments_trim (s : List Char) :
    Text.trim (withoutComments (Text.trim s)) = Text.trim (withoutComments s) := by
  obtain ⟨l, r, hs, hl, hr⟩ := Text.exists_eq_append_trim s
  conv_rhs => rw [hs]
  clear hs
  generalize Text.trim s = m
  induction r using List.reverseRecOn with
  | nil =>
    rw [List.append_nil]
    induction l with
    | nil => rfl
    | cons c l ih =>
      rw [List.cons_append, withoutComments_blank_cons (hl c List.mem_cons_self),
        Text.trim_cons_of_isBlank (hl c List.mem_cons_self)]
      exact ih fun d hd => hl d (List.mem_cons_of_mem c hd)
  | append_singleton r c ih =>
    have hc : Text.isBlank c = true := hr c (by simp)
    rw [ih fun d hd => hr d (List.mem_append_left [c] hd), ← List.append_assoc]
    rcases withoutComments_append_blank hc (l ++ m ++ r) with h | h
    · rw [h, Text.trim_append_singleton_of_isBlank hc]
    · rw [h]

/-! ## Leading comments -/

/-- The comments that an item begins with are gone when all comments are. -/
theorem trim_withoutComments_dropLeadingComments (s : List Char) :
    Text.trim (withoutComments (dropLeadingComments s)) = Text.trim (withoutComments s) := by
  fun_induction dropLeadingComments s with
  | case1 s hTrim => rw [← trim_withoutComments_trim s, hTrim]
  | case2 s c r hTrim hComment ih =>
    -- the comment is a space at the head
    have hFirst := withoutComments_text_append (Piece.first_before isSingleQuote c r)
    rw [Piece.first_append, Piece.bare, if_pos hComment] at hFirst
    rw [ih, ← trim_withoutComments_trim s, hTrim, hFirst]
    exact (Text.trim_cons_of_isBlank (by decide) _).symm
  | case3 s c r hTrim hComment => rw [← hTrim, trim_withoutComments_trim]

/-- An item is dropped as empty exactly when nothing but comments and blanks stands in it. -/
theorem dropLeadingComments_eq_nil_iff (s : List Char) :
    dropLeadingComments s = [] ↔ Text.trim (withoutComments s) = [] := by
  fun_induction dropLeadingComments s with
  | case1 s hTrim => rw [← trim_withoutComments_trim s, hTrim, withoutComments_nil]; simp
  | case2 s c r hTrim hComment ih =>
    have hFirst := withoutComments_text_append (Piece.first_before isSingleQuote c r)
    rw [Piece.first_append, Piece.bare, if_pos hComment] at hFirst
    rw [ih, ← trim_withoutComments_trim s, hTrim, hFirst]
    exact iff_of_eq (congrArg (· = []) (Text.trim_cons_of_isBlank (by decide) _).symm)
  | case3 s c r hTrim hComment =>
    -- the text begins with a character that is kept and is not trimmed
    have hc : Text.isBlank c = false := Text.isBlank_head_trim (s := s) (by rw [hTrim]; rfl)
    have hFirst := withoutComments_text_append (Piece.first_before isSingleQuote c r)
    rw [Piece.first_append, Piece.bare, if_neg hComment] at hFirst
    obtain ⟨d, t, hText⟩ := List.exists_cons_of_ne_nil (Piece.text_first_ne_nil isSingleQuote c r)
    have hHead := Piece.first_append isSingleQuote c r
    rw [hText, List.cons_append, List.cons.injEq] at hHead
    rw [← trim_withoutComments_trim s, hTrim, hFirst, hText, hHead.1, List.cons_append]
    simp [Text.trim_cons_ne_nil hc]

theorem Piece.isComment_first (c : Char) (r : List Char) :
    (first isSingleQuote c r).1.isComment = (lineCommentOpens c r || blockCommentOpens c r) := by
  unfold first
  by_cases hQuote : isSingleQuote c = true
  · -- a quote opens no comment
    obtain rfl : c = '\'' := by simpa [isSingleQuote] using hQuote
    rw [if_pos hQuote]
    cases cutAfter ['\''] r <;> rfl
  rw [if_neg hQuote]
  by_cases hLine : lineCommentOpens c r = true
  · rw [if_pos hLine, hLine]
    rfl
  rw [if_neg hLine]
  by_cases hBlock : blockCommentOpens c r = true
  · rw [if_pos hBlock, hBlock, Bool.or_true]
    cases cutAfter ['*', '/'] r.tail <;> rfl
  · rw [if_neg hBlock, eq_false_of_ne_true hLine, eq_false_of_ne_true hBlock]
    rfl

/-- What follows a comment mark does not undo it. -/
theorem Piece.isComment_first_append {c : Char} {r : List Char} (h : (first isSingleQuote c r).1.isComment = true)
    (t : List Char) : (first isSingleQuote c (r ++ t)).1.isComment = true := by
  rw [isComment_first] at h ⊢
  cases r with
  | nil => simp [lineCommentOpens, blockCommentOpens] at h
  | cons d r => exact h

theorem pieces_blanks_append {l : List Char} (hl : ∀ c ∈ l, Text.isBlank c = true) (s : List Char) :
    pieces isSingleQuote (l ++ s) = l.map Piece.plain ++ pieces isSingleQuote s := by
  induction l with
  | nil => rfl
  | cons c l ih =>
    have hRest := ih fun d hd => hl d (List.mem_cons_of_mem c hd)
    have hFirst := (before_blank (hl c List.mem_cons_self) (l ++ s)).pieces_text_append
    rw [List.map_cons, List.cons_append, List.cons_append, ← hRest]
    exact hFirst

/-- Where no comments are, only blanks are dropped. -/
theorem dropLeadingComments_eq_trim (h : ∀ p ∈ pieces isSingleQuote s, p.isComment = false) :
    dropLeadingComments s = Text.trim s := by
  obtain ⟨l, w, hs, hl, -⟩ := Text.exists_eq_append_trim s
  unfold dropLeadingComments
  split
  · rename_i hTrim
    exact hTrim.symm
  · rename_i c r hTrim
    rw [hTrim, List.append_assoc, List.cons_append] at hs
    -- the piece that begins the trimmed text is one of the whole text
    have hMem : (Piece.first isSingleQuote c (r ++ w)).1 ∈ pieces isSingleQuote s := by
      rw [hs, pieces_blanks_append hl, pieces]
      exact List.mem_append_right _ List.mem_cons_self
    have hNot : ¬ (Piece.first isSingleQuote c r).1.isComment = true := by
      intro hComment
      have hLonger := Piece.isComment_first_append hComment w
      rw [h _ hMem] at hLonger
      exact Bool.false_ne_true hLonger
    rw [if_neg hNot, hTrim]

/-! ## Cutting at commas -/

theorem cutAtCommas_ne_nil (depth : Nat) (ps : List Piece) : cutAtCommas depth ps ≠ [] := by
  fun_induction cutAtCommas depth ps with
  | case1 => simp
  | case2 => simp
  | case3 depth p ps hp ih => simpa using ih

/-- Every stretch between commas is a part of the whole. -/
theorem infix_of_mem_cutAtCommas {depth : Nat} (h : qs ∈ cutAtCommas depth ps) : qs <:+: ps := by
  -- the first stretch is at the head, so a piece may be put before it
  suffices hAll : (∀ as ∈ (cutAtCommas depth ps).head?, as <+: ps) ∧
      ∀ as ∈ cutAtCommas depth ps, as <:+: ps from hAll.2 qs h
  clear h
  fun_induction cutAtCommas depth ps with
  | case1 => simp
  | case2 depth p ps hp ih =>
    refine ⟨by simp, fun as has => ?_⟩
    rcases List.mem_cons.1 has with rfl | has
    · exact List.nil_infix
    · exact (ih.2 as has).trans (List.suffix_cons p ps).isInfix
  | case3 depth p ps hp ih =>
    obtain ⟨g, gs, hCut⟩ := List.exists_cons_of_ne_nil (cutAtCommas_ne_nil (p.depthAfter depth) ps)
    rw [hCut] at ih ⊢
    have hg : p :: g <+: p :: ps := List.cons_prefix_cons.2 ⟨rfl, ih.1 g rfl⟩
    refine ⟨by simpa using hg, fun as has => ?_⟩
    rcases List.mem_cons.1 has with rfl | has
    · exact hg.isInfix
    · exact (ih.2 as (List.mem_cons_of_mem g has)).trans (List.suffix_cons p ps).isInfix

@[simp] theorem Piece.depthAfter_bare (depth : Nat) (p : Piece) :
    p.bare.depthAfter depth = p.depthAfter depth := by
  cases p <;> rfl

theorem Piece.bare_eq_plain_iff {c : Char} (hc : c ≠ ' ') (p : Piece) : p.bare = .plain c ↔ p = .plain c := by
  cases p <;> simp [Piece.bare, Piece.isComment, Ne.symm hc]

/-- Commas stand outside the comments. -/
theorem cutAtCommas_map_bare (depth : Nat) (ps : List Piece) :
    cutAtCommas depth (ps.map Piece.bare) = (cutAtCommas depth ps).map fun qs => qs.map Piece.bare := by
  induction ps generalizing depth with
  | nil => rfl
  | cons p ps ih =>
    have hComma : p.bare = .plain ',' ↔ p = .plain ',' := Piece.bare_eq_plain_iff (by decide) p
    rw [List.map_cons, cutAtCommas, cutAtCommas, Piece.depthAfter_bare, ih, ih]
    by_cases hp : depth = 0 ∧ p = .plain ','
    · rw [if_pos hp, if_pos (hp.imp_right hComma.2)]
      rfl
    · rw [if_neg hp, if_neg (mt (And.imp_right hComma.1) hp)]
      cases cutAtCommas (p.depthAfter depth) ps <;> rfl

/-- The items are the stretches between the commas without their comments, trimmed, if anything is left. -/
theorem items_eq_filter_map (body : List Char) :
    items body = ((cutAtCommas 0 (pieces isSingleQuote body)).map fun qs =>
      Text.trim (withoutComments (textOf qs))).filter fun t => !t.isEmpty := by
  have hEmpty : ((fun t => !t.isEmpty) ∘ fun qs : List Piece => dropLeadingComments (textOf qs)) =
      (fun t => !t.isEmpty) ∘ fun qs => Text.trim (withoutComments (textOf qs)) := by
    funext qs
    have hIff := dropLeadingComments_eq_nil_iff (textOf qs)
    rw [← List.isEmpty_iff, ← List.isEmpty_iff] at hIff
    exact congrArg not (Bool.eq_iff_iff.2 hIff)
  rw [items, splitTopLevel, List.filter_map, List.filter_map, hEmpty, List.map_map]
  exact List.map_congr_left fun qs _ => trim_withoutComments_dropLeadingComments (textOf qs)

/-- Without its comments, a text is cut at the same commas. -/
theorem items_eq (body : List Char) :
    items body = ((cutAtCommas 0 ((pieces isSingleQuote body).map Piece.bare)).map fun qs =>
      Text.trim (textOf qs)).filter fun t => !t.isEmpty := by
  rw [items_eq_filter_map, cutAtCommas_map_bare, List.map_map]
  congr 1
  refine List.map_congr_left fun qs hqs => ?_
  have hLexed := (lexed_pieces isSingleQuote body).within (infix_of_mem_cutAtCommas hqs)
  rw [withoutComments_eq, hLexed.pieces_textOf]
  rfl

/-- A body without comments has the items of the body, as they are read. -/
theorem splitTopLevel_withoutComments (body : List Char) : splitTopLevel (withoutComments body) = items body := by
  rw [items_eq, splitTopLevel, pieces_withoutComments]
  congr 1
  refine List.map_congr_left fun qs hqs => dropLeadingComments_eq_trim ?_
  have hInfix := infix_of_mem_cutAtCommas hqs
  rw [((lexed_pieces isSingleQuote body).bare.within hInfix).pieces_textOf]
  intro p hp
  obtain ⟨q, -, rfl⟩ := List.mem_map.1 (hInfix.subset hp)
  cases q <;> rfl

/-- The items of a body are those of the body without its comments. -/
theorem items_withoutComments (body : List Char) : items (withoutComments body) = items body := by
  rw [items_eq, items_eq, map_bare_pieces_withoutComments]

/-! ## Balanced parentheses -/

/-- Parentheses that close as many as are open at `depth` and those they open, and no other. -/
def balanced (depth : Nat) : List Piece → Bool
  | [] => depth == 0
  | p :: ps => !(depth == 0 && p == .plain ')') && balanced (p.depthAfter depth) ps

theorem balanced_map_bare (depth : Nat) (ps : List Piece) :
    balanced depth (ps.map Piece.bare) = balanced depth ps := by
  induction ps generalizing depth with
  | nil => rfl
  | cons p ps ih =>
    have hEq : (p.bare == Piece.plain ')') = (p == Piece.plain ')') :=
      Bool.eq_iff_iff.2 (by simp only [beq_iff_eq, Piece.bare_eq_plain_iff (by decide : ')' ≠ ' ')])
    rw [List.map_cons, balanced, balanced, Piece.depthAfter_bare, ih, hEq]

/-- The parenthesis after balanced pieces is the one that closes. -/
theorem closedBody_append {depth : Nat} (h : balanced depth ps = true) (qs : List Piece) :
    closedBody depth (ps ++ .plain ')' :: qs) = some ps := by
  induction ps generalizing depth with
  | nil =>
    have hDepth : depth = 0 := by simpa [balanced] using h
    simp [closedBody, hDepth]
  | cons p ps ih =>
    simp only [balanced, Bool.and_eq_true, Bool.not_eq_true', Bool.and_eq_false_iff,
      beq_eq_false_iff_ne] at h
    have hp : ¬(depth = 0 ∧ p = .plain ')') := fun hp => h.1.elim (· hp.1) (· hp.2)
    rw [List.cons_append, closedBody, if_neg hp, ih h.2]
    rfl

/-- A closed text with balanced parentheses, before a closing parenthesis, is the body. -/
theorem bodyAfterParen_append {body : List Char} (hClosed : Closed isSingleQuote body)
    (hBalanced : balanced 0 (pieces isSingleQuote body) = true) (tail : List Char) :
    bodyAfterParen (body ++ ')' :: tail) = some body := by
  have hParen : (Piece.plain ')').Before isSingleQuote tail := .plain rfl rfl rfl
  have hPieces : pieces isSingleQuote (body ++ ')' :: tail) =
      pieces isSingleQuote body ++ .plain ')' :: pieces isSingleQuote tail := by
    rw [pieces_append hClosed (by simp), ← hParen.pieces_text_append]
    rfl
  rw [bodyAfterParen, hPieces, closedBody_append hBalanced, Option.map_some, textOf_pieces]
  rfl

theorem closed_withoutComments {body : List Char} (h : Closed isSingleQuote body) :
    Closed isSingleQuote (withoutComments body) := by
  have hBare : ∀ p : Piece, p.isClosed = true → p.bare.isClosed = true := by
    rintro (c | t | t) hp
    · exact hp
    · exact hp
    · rfl
  rw [Closed, pieces_withoutComments]
  refine ⟨fun p hp => ?_, fun p hp => ?_⟩
  · obtain ⟨q, hq, rfl⟩ := List.mem_map.1 hp
    exact hBare q (h.1 q hq)
  · rw [List.getLast?_map] at hp
    obtain ⟨q, hq, rfl⟩ := Option.map_eq_some_iff.1 hp
    cases q <;> rfl

end SqlSurvey.Sql
