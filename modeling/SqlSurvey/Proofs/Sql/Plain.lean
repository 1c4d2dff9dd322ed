import SqlSurvey.Sql.Statement
import SqlSurvey.Proofs.Sql.Items
import SqlSurvey.Proofs.Text.Identifier

/-!
# Texts without quotes, comments and semicolons

In such a text every character is a piece of its own. It is one statement, and a body that is put together
from items with commas between falls into those items again.
-/

namespace SqlSurvey.Sql

variable {isQuote : Char → Bool} {a b s : List Char} {ps qs : List Piece}

/-! ## Tame texts -/

/-- The characters that quote something, separate statements, begin a block comment or have a meaning of their
own in a template. -/
def wildChars : List Char := ['\'', '"', ';', '/', '\x60', '\\', '$']

/-- A character that is none of these. -/
def isTame (c : Char) : Bool := !wildChars.contains c

/-- A text of such characters in which something other than a dash follows each dash. -/
def tame : List Char → Bool
  | [] => true
  | c :: r => isTame c && (c != '-' || r.head?.any fun d => d != '-') && tame r

theorem isTame_of_forall {P : Char → Bool} (hP : ∀ d ∈ wildChars, P d = false) {c : Char} (h : P c = true) :
    isTame c = true := by
  rw [isTame, Bool.not_eq_true', ← Bool.not_eq_true, List.contains_iff_mem]
  intro hMem
  exact Bool.false_ne_true ((hP c hMem).symm.trans h)

theorem tame_append (ha : tame a = true) (hb : tame b = true) : tame (a ++ b) = true := by
  induction a with
  | nil => exact hb
  | cons c a ih =>
    simp only [tame, Bool.and_eq_true] at ha
    obtain ⟨⟨hc, hDash⟩, ha⟩ := ha
    have hHead : (c != '-' || (a ++ b).head?.any fun d => d != '-') = true := by
      cases a with
      | nil =>
        -- a dash at the end is ruled out
        have hc : (c != '-') = true := by simpa using hDash
        rw [hc, Bool.true_or]
      | cons d a => exact hDash
    simp only [List.cons_append, tame, Bool.and_eq_true]
    exact ⟨⟨hc, hHead⟩, ih ha⟩

/-- A text of tame characters without any dash is tame. -/
theorem tame_of_forall (h : ∀ c ∈ s, isTame c = true ∧ c ≠ '-') : tame s = true := by
  induction s with
  | nil => rfl
  | cons c s ih =>
    obtain ⟨hc, hDash⟩ := h c List.mem_cons_self
    simp only [tame, Bool.and_eq_true, Bool.or_eq_true, bne_iff_ne]
    exact ⟨⟨hc, .inl hDash⟩, ih fun d hd => h d (List.mem_cons_of_mem c hd)⟩

theorem tame_of_isIdentifier (h : Text.isIdentifier s = true) : tame s = true := by
  refine tame_of_forall fun c hc => ?_
  have hChar := Text.isIdentifierChar_of_mem h hc
  exact ⟨isTame_of_forall (by decide) hChar, Text.ne_of_isIdentifierChar hChar (by decide)⟩

theorem isTame_of_isDecimalChar {c : Char} (h : Text.isDecimalChar c = true) : isTame c = true :=
  isTame_of_forall (by decide) h

/-- A number is tame: a sign comes first and a digit after it. -/
theorem tame_of_isDecimal (h : Text.isDecimal s = true) : tame s = true := by
  cases s with
  | nil => rfl
  | cons c r =>
    have hc := isTame_of_isDecimalChar (Text.isDecimalChar_of_mem h List.mem_cons_self)
    simp only [Text.isDecimal, Bool.and_eq_true, Bool.or_eq_true, List.all_eq_true] at h
    have hDigit : ∀ d ∈ r, isTame d = true ∧ d ≠ '-' := fun d hd => by
      have hChar : Text.isDecimalChar d = true := by simp [Text.isDecimalChar, h.2 d hd]
      refine ⟨isTame_of_isDecimalChar hChar, ?_⟩
      rintro rfl
      exact absurd (h.2 _ hd) (by decide)
    have hHead : (c != '-' || r.head?.any fun d => d != '-') = true := by
      cases r with
      | nil =>
        have hc : c ≠ '-' := by
          rintro rfl
          simp at h
        simp [hc]
      | cons d r => simp [(hDigit d List.mem_cons_self).2]
    simp only [tame, Bool.and_eq_true]
    exact ⟨⟨hc, hHead⟩, tame_of_forall hDigit⟩

/-- Every character of a tame text is a piece of its own. -/
theorem pieces_of_tame (hQuote : ∀ c, isQuote c = true → isTame c = false) (h : tame s = true) :
    pieces isQuote s = s.map .plain := by
  induction s with
  | nil => exact pieces_nil isQuote
  | cons c s ih =>
    simp only [tame, Bool.and_eq_true] at h
    obtain ⟨⟨hc, hDash⟩, hs⟩ := h
    have hPlain : (Piece.plain c).Before isQuote s := by
      refine .plain ?_ ?_ ?_
      · rw [← Bool.not_eq_true]
        intro hq
        rw [hQuote c hq] at hc
        exact Bool.false_ne_true hc
      · -- no second dash follows
        unfold Piece.lineCommentOpens
        by_cases hd : c = '-'
        · cases s with
          | nil => simp
          | cons d s => simpa [hd] using hDash
        · simp [hd]
      · have hSlash : c ≠ '/' := by
          rintro rfl
          exact absurd hc (by decide)
        simp [Piece.blockCommentOpens, hSlash]
    have hText := hPlain.pieces_text_append
    rw [ih hs] at hText
    exact hText

theorem isTame_of_isSingleQuote {c : Char} (h : isSingleQuote c = true) : isTame c = false := by
  obtain rfl : c = '\'' := by simpa [isSingleQuote] using h
  rfl

theorem isTame_of_isAnyQuote {c : Char} (h : isAnyQuote c = true) : isTame c = false := by
  simp only [isAnyQuote, Bool.or_eq_true, beq_iff_eq] at h
  rcases h with rfl | rfl <;> rfl

theorem allClosed_map_plain (s : List Char) : AllClosed (s.map .plain) := by
  refine ⟨fun p hp => ?_, fun p hp => ?_⟩
  · obtain ⟨c, -, rfl⟩ := List.mem_map.1 hp
    rfl
  · rw [List.getLast?_map] at hp
    obtain ⟨c, -, rfl⟩ := Option.map_eq_some_iff.1 hp
    rfl

theorem closed_of_tame (h : tame s = true) : Closed isSingleQuote s := by
  rw [Closed, pieces_of_tame (fun _ => isTame_of_isSingleQuote) h]
  exact allClosed_map_plain s

theorem textOf_map_plain (s : List Char) : textOf (s.map .plain) = s := by
  induction s with
  | nil => rfl
  | cons c s ih => rw [List.map_cons, textOf_cons, ih]; rfl

theorem map_bare_plain (s : List Char) : (s.map Piece.plain).map Piece.bare = s.map .plain := by
  rw [List.map_map]
  rfl

/-- Every character of a tame text is tame. -/
theorem isTame_of_mem (h : tame s = true) : ∀ c ∈ s, isTame c = true := by
  induction s with
  | nil => exact fun _ hc => absurd hc List.not_mem_nil
  | cons d s ih =>
    simp only [tame, Bool.and_eq_true] at h
    intro c hc
    rcases List.mem_cons.1 hc with rfl | hc
    · exact h.1.1
    · exact ih h.2 c hc

/-- A tame text that is trimmed and not empty is one statement. -/
theorem statements_of_tame (h : tame s = true) (hNil : s ≠ []) (hTrim : Text.trim s = s) :
    statements s = [s] := by
  have hSemicolon : ∀ p ∈ s.map Piece.plain, (p == .plain ';') = false := by
    intro p hp
    obtain ⟨c, hc, rfl⟩ := List.mem_map.1 hp
    rw [beq_eq_false_iff_ne]
    rintro ⟨⟩
    exact absurd (isTame_of_mem h ';' hc) (by decide)
  rw [statements, pieces_of_tame (fun _ => isTame_of_isAnyQuote) h, List.splitOnP_eq_singleton hSemicolon]
  simp [textOf_map_plain, hTrim, hNil]

/-! ## Items -/

/-- Pieces that close the parentheses open at `depth` and those they open, with no comma outside them. -/
def isItem (depth : Nat) : List Piece → Bool
  | [] => depth == 0
  | p :: ps => !(depth == 0 && (p == .plain ')' || p == .plain ',')) && isItem (p.depthAfter depth) ps

/-- A piece of an item outside its parentheses closes none and is no comma. -/
theorem of_isItem_cons {depth : Nat} {p : Piece} (h : isItem depth (p :: ps) = true) :
    (depth = 0 → p ≠ .plain ')' ∧ p ≠ .plain ',') ∧ isItem (p.depthAfter depth) ps = true := by
  simp only [isItem, Bool.and_eq_true, Bool.not_eq_true', Bool.and_eq_false_iff, Bool.or_eq_false_iff,
    beq_eq_false_iff_ne] at h
  exact ⟨fun hDepth => h.1.resolve_left (· hDepth), h.2⟩

theorem isItem_append {depth : Nat} (hp : isItem depth ps = true) (hq : isItem 0 qs = true) :
    isItem depth (ps ++ qs) = true := by
  induction ps generalizing depth with
  | nil =>
    obtain rfl : depth = 0 := by simpa [isItem] using hp
    exact hq
  | cons p ps ih =>
    simp only [isItem, Bool.and_eq_true] at hp
    rw [List.cons_append, isItem, hp.1, ih hp.2]
    rfl

theorem balanced_append {depth : Nat} (hp : balanced depth ps = true) (hq : balanced 0 qs = true) :
    balanced depth (ps ++ qs) = true := by
  induction ps generalizing depth with
  | nil =>
    obtain rfl : depth = 0 := by simpa [balanced] using hp
    exact hq
  | cons p ps ih =>
    simp only [balanced, Bool.and_eq_true] at hp
    rw [List.cons_append, balanced, hp.1, ih hp.2]
    rfl

/-- The parentheses of an item are balanced. -/
theorem balanced_of_isItem {depth : Nat} (h : isItem depth ps = true) : balanced depth ps = true := by
  induction ps generalizing depth with
  | nil => exact h
  | cons p ps ih =>
    obtain ⟨hp, hRest⟩ := of_isItem_cons h
    have hHere : (!(depth == 0 && p == .plain ')')) = true := by
      by_cases hDepth : depth = 0
      · simp [(hp hDepth).1]
      · simp [hDepth]
    rw [balanced, hHere, ih hRest]
    rfl

/-- An item is cut off at the comma after it. -/
theorem cutAtCommas_append {depth : Nat} (h : isItem depth ps = true) (qs : List Piece) :
    cutAtCommas depth (ps ++ .plain ',' :: qs) = ps :: cutAtCommas 0 qs := by
  induction ps generalizing depth with
  | nil =>
    obtain rfl : depth = 0 := by simpa [isItem] using h
    simp [cutAtCommas]
  | cons p ps ih =>
    obtain ⟨hp, hRest⟩ := of_isItem_cons h
    have hComma : ¬(depth = 0 ∧ p = .plain ',') := fun hHere => (hp hHere.1).2 hHere.2
    rw [List.cons_append, cutAtCommas, if_neg hComma, ih hRest]
    rfl

/-- An item is not cut. -/
theorem cutAtCommas_of_isItem {depth : Nat} (h : isItem depth ps = true) : cutAtCommas depth ps = [ps] := by
  induction ps generalizing depth with
  | nil => rfl
  | cons p ps ih =>
    obtain ⟨hp, hRest⟩ := of_isItem_cons h
    have hComma : ¬(depth = 0 ∧ p = .plain ',') := fun hHere => (hp hHere.1).2 hHere.2
    rw [cutAtCommas, if_neg hComma, ih hRest]
    rfl

/-- A character that neither separates items nor opens or closes a list. -/
def isItemChar (c : Char) : Bool := !(c == '(' || c == ')' || c == ',')

theorem Piece.depthAfter_of_isItemChar {c : Char} (h : isItemChar c = true) (depth : Nat) :
    (Piece.plain c).depthAfter depth = depth := by
  unfold Piece.depthAfter
  split
  · rename_i hEq
    cases hEq
    exact absurd h (by decide)
  · rename_i hEq
    cases hEq
    exact absurd h (by decide)
  · rfl

/-- A text without commas and parentheses leaves an item what it was. -/
theorem isItem_append_of_forall {depth : Nat} (h : ∀ c ∈ s, isItemChar c = true) :
    isItem depth (s.map .plain ++ ps) = isItem depth ps := by
  induction s with
  | nil => rfl
  | cons c s ih =>
    have hc := h c List.mem_cons_self
    have hHere : (Piece.plain c == .plain ')' || Piece.plain c == .plain ',') = false := by
      rw [Bool.or_eq_false_iff, beq_eq_false_iff_ne, beq_eq_false_iff_ne]
      refine ⟨?_, ?_⟩
      · rintro ⟨⟩
        exact absurd hc (by decide)
      · rintro ⟨⟩
        exact absurd hc (by decide)
    rw [List.map_cons, List.cons_append, isItem, hHere, Piece.depthAfter_of_isItemChar hc,
      ih fun d hd => h d (List.mem_cons_of_mem c hd), Bool.and_false]
    rfl

theorem isItem_of_forall (h : ∀ c ∈ s, isItemChar c = true) : isItem 0 (s.map .plain) = true := by
  rw [← List.append_nil (s.map Piece.plain), isItem_append_of_forall h]
  rfl

theorem isItemChar_of_isIdentifierChar {c : Char} (h : Text.isIdentifierChar c = true) :
    isItemChar c = true := by
  simp only [isItemChar, Bool.not_eq_true', Bool.or_eq_false_iff, beq_eq_false_iff_ne]
  exact ⟨⟨Text.ne_of_isIdentifierChar h (by decide), Text.ne_of_isIdentifierChar h (by decide)⟩,
    Text.ne_of_isIdentifierChar h (by decide)⟩

theorem isItemChar_of_isDecimalChar {c : Char} (h : Text.isDecimalChar c = true) : isItemChar c = true := by
  simp only [isItemChar, Bool.not_eq_true', Bool.or_eq_false_iff, beq_eq_false_iff_ne]
  exact ⟨⟨Text.ne_of_isDecimalChar h (by decide), Text.ne_of_isDecimalChar h (by decide)⟩,
    Text.ne_of_isDecimalChar h (by decide)⟩

/-- A list in parentheses, without others inside, is an item. -/
theorem isItem_parenthesized (h : ∀ c ∈ s, isItemChar c = true ∨ c = ',') :
    isItem 0 (('(' :: (s ++ [')'])).map .plain) = true := by
  rw [List.map_cons, isItem]
  show isItem 1 ((s ++ [')']).map .plain) = true
  induction s with
  | nil => rfl
  | cons c s ih =>
    have hDepth : (Piece.plain c).depthAfter 1 = 1 := by
      rcases h c List.mem_cons_self with hc | rfl
      · exact Piece.depthAfter_of_isItemChar hc 1
      · rfl
    rw [List.cons_append, List.map_cons, isItem, hDepth, ih fun d hd => h d (List.mem_cons_of_mem c hd)]
    rfl

/-! ## Bodies put together from items -/

/-- Texts with a comma and a space between each two. -/
def commaList (texts : List (List Char)) : List Char := [',', ' '].intercalate texts

/-- An item as it is written down: tame, with nothing to trim. -/
structure IsItem (t : List Char) : Prop where
  tame : tame t = true
  item : isItem 0 (t.map .plain) = true
  trim : Text.trim t = t
  nonempty : t ≠ []

theorem tame_commaList {its : List (List Char)} (h : ∀ t ∈ its, tame t = true) :
    tame (commaList its) = true := by
  induction its with
  | nil => rfl
  | cons t its ih =>
    have ht := h t List.mem_cons_self
    have hRest := ih fun u hu => h u (List.mem_cons_of_mem t hu)
    cases its with
    | nil => simpa [commaList] using ht
    | cons u its =>
      rw [commaList, List.intercalate_cons_cons]
      exact tame_append (tame_append ht (by decide)) hRest

theorem balanced_commaList {its : List (List Char)} (h : ∀ t ∈ its, isItem 0 (t.map .plain) = true) :
    balanced 0 ((commaList its).map .plain) = true := by
  induction its with
  | nil => rfl
  | cons t its ih =>
    have ht := balanced_of_isItem (h t List.mem_cons_self)
    have hRest := ih fun u hu => h u (List.mem_cons_of_mem t hu)
    cases its with
    | nil => simpa [commaList] using ht
    | cons u its =>
      rw [commaList, List.intercalate_cons_cons, List.map_append, List.map_append]
      exact balanced_append (balanced_append ht (by decide)) hRest

/-- Items with commas between are cut apart again; blanks before an item are trimmed. -/
theorem trimmed_cutAtCommas_commaList {its : List (List Char)} (h : ∀ t ∈ its, IsItem t) {l : List Char}
    (hl : ∀ c ∈ l, Text.isBlank c = true ∧ isItemChar c = true) :
    ((cutAtCommas 0 ((l ++ commaList its).map .plain)).map fun qs => Text.trim (textOf qs)).filter
      (fun t => !t.isEmpty) = its := by
  induction its generalizing l with
  | nil =>
    have hNil : Text.trim l = [] := by
      simpa using Text.trim_append_blanks (fun c hc => (hl c hc).1) (r := []) (by simp) []
    have hItem : isItem 0 ((l ++ []).map .plain) = true := by
      rw [List.append_nil, isItem_of_forall fun c hc => (hl c hc).2]
    rw [commaList, List.intercalate_nil, cutAtCommas_of_isItem hItem, List.map_singleton, textOf_map_plain,
      List.append_nil, hNil]
    rfl
  | cons t its ih =>
    have ht := h t List.mem_cons_self
    have hTrim : Text.trim (l ++ t) = t := by
      have := Text.trim_append_blanks (fun c hc => (hl c hc).1) (r := []) (by simp) t
      rwa [List.append_nil, ht.trim] at this
    have hItem : isItem 0 ((l ++ t).map .plain) = true := by
      rw [List.map_append, isItem_append_of_forall fun c hc => (hl c hc).2, ht.item]
    cases its with
    | nil =>
      rw [commaList, List.intercalate_singleton, cutAtCommas_of_isItem hItem, List.map_singleton,
        textOf_map_plain, hTrim]
      simp [ht.nonempty]
    | cons u its =>
      have hText : (l ++ commaList (t :: u :: its)).map Piece.plain =
          (l ++ t).map .plain ++ .plain ',' :: ([' '] ++ commaList (u :: its)).map .plain := by
        simp [commaList, List.intercalate_cons_cons]
      have hRest := ih (fun v hv => h v (List.mem_cons_of_mem t hv)) (l := [' ']) (by decide)
      rw [hText, cutAtCommas_append hItem, List.map_cons, textOf_map_plain, hTrim,
        List.filter_cons_of_pos (by simp [ht.nonempty]), hRest]

/-- A body put together from items falls into those items. -/
theorem items_commaList {its : List (List Char)} (h : ∀ t ∈ its, IsItem t) : items (commaList its) = its := by
  have hTame : tame (commaList its) = true := tame_commaList fun t ht => (h t ht).tame
  rw [items_eq, pieces_of_tame (fun _ => isTame_of_isSingleQuote) hTame, map_bare_plain]
  exact trimmed_cutAtCommas_commaList h (l := []) (by simp)

end SqlSurvey.Sql
