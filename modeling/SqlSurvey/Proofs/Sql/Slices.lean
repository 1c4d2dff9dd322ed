import SqlSurvey.Proofs.Sql.Bytes
import SqlSurvey.Proofs.Sql.Layout
import SqlSurvey.Proofs.Text.Position
import Mathlib.Data.List.Forall2
import Mathlib.Logic.Relation

/-!
# Slices of a body

Where a body is cut is found on its bytes, and every part of it is taken as a slice between two byte offsets. The
bytes fall into the pieces of the text, so that each offset is one at which a piece begins or ends: all slices lie
within the text, between boundaries, and are the parts that the text has there.
-/

namespace SqlSurvey.Sql

open Text (bytes ofBytes filler byteLength)

variable {s t : List Char}

/-! ## Cuts -/

/-- What a text is cut at. -/
inductive Cut where
  /-- The commas outside all parentheses. -/
  | comma
  /-- A parenthesis that closes more than have been opened. -/
  | closing
  /-- The comments. -/
  | comment

namespace Cut

/-- Whether a text is cut at a piece that stands so deep in parentheses. -/
def isAt (cut : Cut) (depth : Nat) (p : Piece) : Bool :=
  match cut with
  | comma => depth == 0 && p == .plain ','
  | closing => depth == 0 && p == .plain ')'
  | comment => p.isComment

/-- The stretches between the cuts. -/
def stretches (cut : Cut) (depth : Nat) : List Piece → List (List Piece)
  | [] => [[]]
  | p :: ps =>
    if cut.isAt depth p then [] :: cut.stretches (p.depthAfter depth) ps
    else (cut.stretches (p.depthAfter depth) ps).modifyHead (p :: ·)

/-- The slices between the cuts, if the first of them begins at `start` and the first piece at `offset`. -/
def slices (cut : Cut) (depth start offset : Nat) : List Piece → List (Nat × Nat)
  | [] => [(start, offset)]
  | p :: ps =>
    let next := offset + byteLength p.text
    if cut.isAt depth p then (start, offset) :: cut.slices (p.depthAfter depth) next next ps
    else cut.slices (p.depthAfter depth) start next ps

/-- The slices between the cuts behind an offset, as they are found on the bytes of a text. -/
def slicesFrom (cut : Cut) (s : List Char) (start : Nat) : List (Nat × Nat) :=
  cut.slices 0 start start (pieces isSingleQuote (ofBytes ((bytes s).drop start)))

theorem exists_stretches (cut : Cut) (depth : Nat) (ps : List Piece) : ∃ g gs, cut.stretches depth ps = g :: gs := by
  induction ps generalizing depth with
  | nil => exact ⟨[], [], rfl⟩
  | cons p ps ih =>
    obtain ⟨g, gs, hCut⟩ := ih (p.depthAfter depth)
    unfold stretches
    split
    · exact ⟨[], _, rfl⟩
    · rw [hCut]
      exact ⟨p :: g, gs, rfl⟩

end Cut

/-- What stands before the first cut, if there is a cut. -/
def beforeCut? {α : Type} : List α → Option α
  | x :: _ :: _ => some x
  | _ => none

/-! ## The parts between the cuts -/

theorem stretches_comma (depth : Nat) (ps : List Piece) : Cut.comma.stretches depth ps = cutAtCommas depth ps := by
  induction ps generalizing depth with
  | nil => rfl
  | cons p ps ih =>
    rw [Cut.stretches, cutAtCommas, ih]
    by_cases hp : depth = 0 ∧ p = .plain ','
    · obtain ⟨rfl, rfl⟩ := hp
      rfl
    · rw [if_neg hp, if_neg (by simpa [Cut.isAt] using hp)]

theorem beforeCut?_stretches_closing (depth : Nat) (ps : List Piece) :
    beforeCut? (Cut.closing.stretches depth ps) = closedBody depth ps := by
  induction ps generalizing depth with
  | nil => rfl
  | cons p ps ih =>
    obtain ⟨g, gs, hCut⟩ := Cut.closing.exists_stretches (p.depthAfter depth) ps
    rw [Cut.stretches, closedBody, ← ih, hCut]
    by_cases hp : depth = 0 ∧ p = .plain ')'
    · rw [if_pos hp, if_pos (by simpa [Cut.isAt] using hp)]
      rfl
    · rw [if_neg hp, if_neg (by simpa [Cut.isAt] using hp)]
      cases gs <;> rfl

/-- The text without comments is what stands between them, with a space in the place of each. -/
theorem intercalate_stretches_comment (depth : Nat) (ps : List Piece) :
    [' '].intercalate ((Cut.comment.stretches depth ps).map textOf) = textOf (ps.map Piece.bare) := by
  induction ps generalizing depth with
  | nil => rfl
  | cons p ps ih =>
    obtain ⟨g, gs, hCut⟩ := Cut.comment.exists_stretches (p.depthAfter depth) ps
    rw [List.map_cons, textOf_cons, ← ih (p.depthAfter depth), Cut.stretches, hCut]
    by_cases hp : p.isComment = true
    · rw [if_pos (by exact hp), Piece.bare, if_pos hp]
      exact List.intercalate_cons_cons
    · rw [if_neg (by exact hp), Piece.bare, if_neg hp]
      cases gs with
      | nil => simp
      | cons g' gs => simp [List.intercalate_cons_cons]

/-! ## Slices of a text -/

/-- Two offsets are boundaries of a text and have this part of it between them. -/
structure IsSlice (s : List Char) (x : Nat × Nat) (t : List Char) : Prop where
  start : Text.IsBoundary s x.1
  stop : Text.IsBoundary s x.2
  le : x.1 ≤ x.2
  inside : x.2 ≤ byteLength s
  text : Text.slice s x.1 x.2 = t

theorem isSlice_append (a t b : List Char) : IsSlice (a ++ (t ++ b)) (byteLength a, byteLength (a ++ t)) t where
  start := ⟨a, t ++ b, rfl, rfl⟩
  stop := ⟨a ++ t, b, (List.append_assoc a t b).symm, rfl⟩
  le := by
    rw [Text.byteLength_append]
    exact Nat.le_add_right _ _
  inside := by
    rw [← List.append_assoc, Text.byteLength_append (a ++ t)]
    exact Nat.le_add_right _ _
  text := by
    rw [Text.byteLength_append]
    exact Text.slice_append a t b

namespace Cut

/-- Between the cuts the slices are the stretches, if `u` has been read of the first of them, behind `a`. -/
theorem isSlice_slices (cut : Cut) (depth : Nat) (a u : List Char) (ps : List Piece) :
    List.Forall₂ (IsSlice (a ++ (u ++ textOf ps))) (cut.slices depth (byteLength a) (byteLength (a ++ u)) ps)
      (((cut.stretches depth ps).map textOf).modifyHead (u ++ ·)) := by
  have hFirst : ∀ a u b : List Char,
      IsSlice (a ++ (u ++ b)) (byteLength a, byteLength (a ++ u)) (u ++ textOf []) := by
    intro a u b
    rw [textOf_nil, List.append_nil]
    exact isSlice_append a u b
  induction ps generalizing depth a u with
  | nil => exact .cons (hFirst a u []) .nil
  | cons p ps ih =>
    have hNext : byteLength (a ++ u) + byteLength p.text = byteLength (a ++ (u ++ p.text)) := by
      rw [← List.append_assoc, Text.byteLength_append (a ++ u)]
    obtain ⟨g, gs, hCut⟩ := cut.exists_stretches (p.depthAfter depth) ps
    unfold slices stretches
    dsimp only
    rw [hNext]
    by_cases hp : cut.isAt depth p = true
    · rw [if_pos hp, if_pos hp]
      refine .cons (hFirst a u _) ?_
      -- the next stretch begins behind the piece that is cut at
      have hRest := ih (p.depthAfter depth) (a ++ (u ++ p.text)) []
      rw [List.append_nil, hCut] at hRest
      rw [hCut]
      simpa using hRest
    · rw [if_neg hp, if_neg hp]
      -- the piece is read of the stretch that has begun
      have hRest := ih (p.depthAfter depth) a (u ++ p.text)
      rw [hCut] at hRest ⊢
      simpa using hRest

end Cut

/-! ## Slices found on bytes -/

/-- A character of more than one byte means nothing where a text is cut. -/
theorem isItemChar_of_not_ascii {c : Char} (hc : ¬ c.toNat < 128) : isItemChar c = true := by
  have hAll : ∀ d ∈ ['(', ')', ','], d.toNat < 128 := by decide
  have hMem : c ∉ ['(', ')', ','] := fun hm => hc (hAll c hm)
  simpa [isItemChar, and_assoc] using hMem

namespace Cut

theorem isAt_plain_of_isItemChar {c : Char} (h : isItemChar c = true) (cut : Cut) (depth : Nat) :
    cut.isAt depth (.plain c) = false := by
  have hComma : c ≠ ',' := fun hc => absurd h (by rw [hc]; decide)
  have hParen : c ≠ ')' := fun hc => absurd h (by rw [hc]; decide)
  cases cut with
  | comma => simp [isAt, hComma]
  | closing => simp [isAt, hParen]
  | comment => rfl

theorem slices_replicate_filler (cut : Cut) (depth start offset n : Nat) (qs : List Piece) :
    cut.slices depth start offset (List.replicate n (.plain filler) ++ qs) =
      cut.slices depth start (offset + n) qs := by
  induction n generalizing offset with
  | zero => rfl
  | succ n ih =>
    rw [List.replicate_succ, List.cons_append, slices, isAt_plain_of_isItemChar (by decide)]
    refine (ih (offset + 1)).trans ?_
    rw [Nat.add_assoc, Nat.add_comm 1]

/-- A piece is passed on its bytes as it is on the text. -/
theorem slices_onBytes_append (cut : Cut) (depth start offset : Nat) (p : Piece) (qs : List Piece) :
    cut.slices depth start offset (p.onBytes ++ qs) = cut.slices depth start offset (p :: qs) := by
  have hLength : ∀ t : List Char, byteLength (ofBytes (bytes t)) = byteLength t := by
    intro t
    rw [Text.byteLength_ofBytes, Text.length_bytes]
  cases p with
  | plain c =>
    by_cases hc : c.toNat < 128
    · rw [Piece.onBytes_plain_of_ascii hc]
      rfl
    · have hItem := isItemChar_of_not_ascii hc
      rw [Piece.onBytes_plain_of_not_ascii hc, slices_replicate_filler, slices, isAt_plain_of_isItemChar hItem,
        Piece.depthAfter_of_isItemChar hItem]
      rfl
  | quoted t =>
    rw [Piece.onBytes, List.singleton_append, slices, slices, Piece.text, Piece.text, hLength]
    rfl
  | comment t =>
    rw [Piece.onBytes, List.singleton_append, slices, slices, Piece.text, Piece.text, hLength]
    rfl

/-- The same slices are found on the bytes of a text as on the text. -/
theorem slices_flatMap_onBytes (cut : Cut) (depth start offset : Nat) (ps : List Piece) :
    cut.slices depth start offset (ps.flatMap Piece.onBytes) = cut.slices depth start offset ps := by
  induction ps generalizing depth start offset with
  | nil => rfl
  | cons p ps ih =>
    rw [List.flatMap_cons, slices_onBytes_append, slices, slices, ih, ih]

/-- The slices that are found on the bytes of a text are the stretches of its second part, behind the first. -/
theorem isSlice_slicesFrom (cut : Cut) (head body : List Char) :
    List.Forall₂ (IsSlice (head ++ body)) (cut.slicesFrom (head ++ body) (byteLength head))
      ((cut.stretches 0 (pieces isSingleQuote body)).map textOf) := by
  have hDrop : (bytes (head ++ body)).drop (byteLength head) = bytes body := by
    rw [Text.bytes_append]
    exact List.drop_left' (Text.length_bytes head)
  have hSlices := cut.isSlice_slices 0 head [] (pieces isSingleQuote body)
  obtain ⟨g, gs, hCut⟩ := cut.exists_stretches 0 (pieces isSingleQuote body)
  rw [textOf_pieces, List.append_nil, hCut] at hSlices
  unfold slicesFrom
  rw [hDrop, pieces_ofBytes_bytes, slices_flatMap_onBytes, hCut]
  exact hSlices

end Cut

/-! ## The body -/

/-- The offset of the last closing parenthesis, on the bytes of a text. -/
def lastParen? (s : List Char) : Option Nat := (beforeLast ')' (ofBytes (bytes s))).map List.length

/-- The slice that is the body behind a parenthesis, as it is found on the bytes from there on: up to the parenthesis
that closes it or, when none does, up to the last one of the text, unless that stands before. -/
def bodySlice? (s : List Char) (start : Nat) : Option (Nat × Nat) :=
  (beforeCut? (Cut.closing.slicesFrom s start)).or
    (((lastParen? s).filter fun stop => start ≤ stop).map fun stop => (start, stop))

theorem rel_beforeCut? {α β : Type} {R : α → β → Prop} {xs : List α} {ys : List β} (h : List.Forall₂ R xs ys) :
    Option.Rel R (beforeCut? xs) (beforeCut? ys) := by
  cases h with
  | nil => exact .none
  | cons hFirst hRest =>
    cases hRest with
    | nil => exact .none
    | cons => exact .some hFirst

theorem beforeCut?_map {α β : Type} (f : α → β) (xs : List α) :
    beforeCut? (xs.map f) = (beforeCut? xs).map f := by
  match xs with
  | [] => rfl
  | [_] => rfl
  | _ :: _ :: _ => rfl

theorem lastParen?_append_cons (h : ')' ∉ t) (s : List Char) : lastParen? (s ++ ')' :: t) = some (byteLength s) := by
  have hBytes : ')' ∉ ofBytes (bytes t) := mt (Text.mem_ofBytes_bytes_iff (by decide)).1 h
  unfold lastParen?
  rw [Text.bytes_append, Text.ofBytes_append, Text.ofBytes_bytes_cons_of_ascii (by decide),
    beforeLast_append_cons hBytes, Option.map_some, ofBytes, List.length_map, Text.length_bytes]

theorem lastParen?_of_not_mem (h : ')' ∉ s) : lastParen? s = none := by
  have hBytes : ')' ∉ ofBytes (bytes s) := mt (Text.mem_ofBytes_bytes_iff (by decide)).1 h
  simp [lastParen?, beforeLast, hBytes]

/-- The last parenthesis of a text is that of its second part, if that has any. -/
theorem rel_lastParen? (head body : List Char) :
    Option.Rel (IsSlice (head ++ body))
      (((lastParen? (head ++ body)).filter fun stop => byteLength head ≤ stop).map fun stop => (byteLength head, stop))
      (beforeLast ')' body) := by
  by_cases hBody : ')' ∈ body
  · obtain ⟨a, b, rfl, hb⟩ := exists_last_of_mem hBody
    have hLast := lastParen?_append_cons hb (head ++ a)
    have hLe : byteLength head ≤ byteLength (head ++ a) := by
      rw [Text.byteLength_append]
      exact Nat.le_add_right _ _
    rw [List.append_assoc] at hLast
    rw [hLast, beforeLast_append_cons hb, Option.filter_some, if_pos (decide_eq_true hLe)]
    exact .some (isSlice_append head a _)
  · have hNone : beforeLast ')' body = none := by simp [beforeLast, hBody]
    rw [hNone]
    by_cases hHead : ')' ∈ head
    · obtain ⟨a, b, rfl, hb⟩ := exists_last_of_mem hHead
      have hRest : ')' ∉ b ++ body := fun hm => (List.mem_append.1 hm).elim hb hBody
      have hLast := lastParen?_append_cons hRest a
      have hLt : ¬ byteLength (a ++ ')' :: b) ≤ byteLength a := by
        have := Text.byteLength_cons_ne_zero ')' b
        rw [Text.byteLength_append]
        omega
      rw [List.append_assoc, List.cons_append, hLast, Option.filter_some, if_neg (by simpa using hLt)]
      exact .none
    · rw [lastParen?_of_not_mem fun hm => (List.mem_append.1 hm).elim hHead hBody]
      exact .none

theorem rel_or {α β : Type} {R : α → β → Prop} {a a' : Option α} {b b' : Option β} (h : Option.Rel R a b)
    (h' : Option.Rel R a' b') : Option.Rel R (a.or a') (b.or b') := by
  cases h with
  | none => exact h'
  | some hRel => exact .some hRel

/-- The body behind a parenthesis is taken as a slice. -/
theorem rel_bodySlice? (head body : List Char) :
    Option.Rel (IsSlice (head ++ body)) (bodySlice? (head ++ body) (byteLength head)) (bodyAfterParen body) := by
  unfold bodySlice? bodyAfterParen
  rw [← beforeCut?_stretches_closing, ← beforeCut?_map]
  exact rel_or (rel_beforeCut? (Cut.closing.isSlice_slicesFrom head body)) (rel_lastParen? head body)

/-! ## Leading comments -/

/-- The end of the comment that a text begins with, on its bytes. -/
def leadingComment? (item : List Char) : Option Nat :=
  match pieces isSingleQuote (ofBytes (bytes item)) with
  | .comment t :: _ => some t.length
  | _ => none

/-- One round of dropping the comments that an item begins with. -/
def dropComment? (item : List Char) : Option (List Char) :=
  (leadingComment? item).map fun stop => Text.trim (Text.slice item stop (byteLength item))

theorem leadingComment?_cons (c : Char) (r : List Char) :
    leadingComment? (c :: r) = if (Piece.first isSingleQuote c r).1.isComment then
      some (byteLength (Piece.first isSingleQuote c r).1.text) else none := by
  unfold leadingComment?
  rw [pieces_ofBytes_bytes, pieces, List.flatMap_cons]
  cases (Piece.first isSingleQuote c r).1 with
  | plain d =>
    obtain ⟨b, bs, hBytes⟩ := List.exists_cons_of_ne_nil (String.utf8EncodeChar_ne_nil (c := d))
    rw [Piece.onBytes, hBytes]
    rfl
  | quoted t => rfl
  | comment t =>
    show some (ofBytes (bytes t)).length = some (byteLength t)
    rw [ofBytes, List.length_map, Text.length_bytes]

/-- The rest of a text behind its first piece is taken as a slice. -/
theorem isSlice_first (c : Char) (r : List Char) :
    IsSlice (c :: r) (byteLength (Piece.first isSingleQuote c r).1.text, byteLength (c :: r))
      (Piece.first isSingleQuote c r).2 := by
  have hSlice := isSlice_append (Piece.first isSingleQuote c r).1.text (Piece.first isSingleQuote c r).2 []
  rw [List.append_nil, Piece.first_append] at hSlice
  exact hSlice

theorem dropComment?_cons (c : Char) (r : List Char) :
    dropComment? (c :: r) = if (Piece.first isSingleQuote c r).1.isComment then
      some (Text.trim (Piece.first isSingleQuote c r).2) else none := by
  unfold dropComment?
  rw [leadingComment?_cons]
  by_cases hComment : (Piece.first isSingleQuote c r).1.isComment = true
  · rw [if_pos hComment, if_pos hComment, Option.map_some, (isSlice_first c r).text]
  · rw [if_neg hComment, if_neg hComment, Option.map_none]

@[simp] theorem dropComment?_nil : dropComment? [] = none := by
  unfold dropComment? leadingComment?
  rw [Text.bytes_nil, Text.ofBytes_nil, pieces_nil]
  rfl

theorem exists_isSlice_of_leadingComment? {item : List Char} {stop : Nat} (h : leadingComment? item = some stop) :
    ∃ rest, IsSlice item (stop, byteLength item) rest := by
  cases item with
  | nil =>
    unfold leadingComment? at h
    rw [Text.bytes_nil, Text.ofBytes_nil, pieces_nil] at h
    exact absurd h (by simp)
  | cons c r =>
    rw [leadingComment?_cons] at h
    obtain ⟨-, hStop⟩ := Option.ite_none_right_eq_some.1 h
    rw [← Option.some.inj hStop]
    exact ⟨_, isSlice_first c r⟩

/-- Every round makes the item shorter. -/
theorem length_lt_of_dropComment? {item next : List Char} (h : dropComment? item = some next) :
    next.length < item.length := by
  cases item with
  | nil => exact absurd h (by simp)
  | cons c r =>
    rw [dropComment?_cons] at h
    obtain ⟨-, hNext⟩ := Option.ite_none_right_eq_some.1 h
    rw [← Option.some.inj hNext]
    exact Nat.lt_of_le_of_lt (Text.length_trim_le _) (Piece.length_first_lt isSingleQuote c r)

/-- However an item begins, the rounds come to an end. -/
theorem wellFounded_dropComment? : WellFounded fun next item : List Char => dropComment? item = some next :=
  Subrelation.wf length_lt_of_dropComment? (measure List.length).wf

/-- The rounds lead to the item without leading comments, from which no other round leads on. -/
theorem dropComment?_dropLeadingComments (s : List Char) :
    Relation.ReflTransGen (fun item next => dropComment? item = some next) (Text.trim s) (dropLeadingComments s) ∧
      dropComment? (dropLeadingComments s) = none := by
  fun_induction dropLeadingComments s with
  | case1 s hTrim =>
    rw [hTrim]
    exact ⟨.refl, dropComment?_nil⟩
  | case2 s c r hTrim hComment ih =>
    rw [hTrim]
    refine ⟨.head ?_ ih.1, ih.2⟩
    rw [dropComment?_cons, if_pos hComment]
  | case3 s c r hTrim hComment =>
    rw [hTrim, dropComment?_cons, if_neg hComment]
    exact ⟨.refl, rfl⟩

/-! ## Splitting and removal -/

theorem withoutComments_eq_intercalate (s : List Char) :
    withoutComments s = [' '].intercalate ((Cut.comment.stretches 0 (pieces isSingleQuote s)).map textOf) := by
  rw [intercalate_stretches_comment, withoutComments_eq]

/-- The items of a body, each without its comments and trimmed, are the items of the body without comments, and
removing comments twice is removing them once. The rounds that drop leading comments come to an end, with the item
that is left. The stretches between commas, those between comments, what stands behind a leading comment, and the
body behind a parenthesis are all slices of their text. -/
theorem splitting_commutes_with_removal (body : List Char) :
    (splitTopLevel body).map (fun item => Text.trim (withoutComments item)) = splitTopLevel (withoutComments body) ∧
    withoutComments (withoutComments body) = withoutComments body ∧
    ((WellFounded fun next item : List Char => dropComment? item = some next) ∧
      Relation.ReflTransGen (fun item next => dropComment? item = some next) (Text.trim body)
        (dropLeadingComments body) ∧
      dropComment? (dropLeadingComments body) = none) ∧
    (∃ parts, List.Forall₂ (IsSlice body) (Cut.comma.slicesFrom body 0) parts ∧
      splitTopLevel body = (parts.map dropLeadingComments).filter fun item => !item.isEmpty) ∧
    (∀ stop, leadingComment? body = some stop → ∃ rest, IsSlice body (stop, byteLength body) rest) ∧
    (∃ parts, List.Forall₂ (IsSlice body) (Cut.comment.slicesFrom body 0) parts ∧
      withoutComments body = [' '].intercalate parts) ∧
    ∀ head, Option.Rel (IsSlice (head ++ body)) (bodySlice? (head ++ body) (byteLength head))
      (bodyAfterParen body) := by
  refine ⟨?_, withoutComments_withoutComments body, ?_, ?_, ?_, ?_, fun head => rel_bodySlice? head body⟩
  · exact (splitTopLevel_withoutComments body).symm
  · exact ⟨wellFounded_dropComment?, dropComment?_dropLeadingComments body⟩
  · refine ⟨_, Cut.comma.isSlice_slicesFrom [] body, ?_⟩
    rw [stretches_comma, List.map_map]
    rfl
  · exact fun stop hStop => exists_isSlice_of_leadingComment? hStop
  · exact ⟨_, Cut.comment.isSlice_slicesFrom [] body, withoutComments_eq_intercalate body⟩

end SqlSurvey.Sql
