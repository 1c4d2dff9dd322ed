import SqlSurvey.TypeScript.Source
import SqlSurvey.Proofs.TypeScript.Escape
import SqlSurvey.Proofs.TypeScript.Rule

/-!
# Strings in quotes

However a text is written between quotes, the grammar reads the literal as one string that ends with its closing
quote: part by part, each a run of characters that stand for themselves or an escape. What the literal stands for is
the text.
-/

namespace SqlSurvey.TypeScript

open Text (byteLength)
open Escape

variable {q c : Char} {w t : List Char}

/-! ## The parts of a string -/

/-- Whether a character of a string in quotes does not stand for itself. -/
def stops (q c : Char) : Bool := c == q || c == '\\' || c == '\n' || c == '\x0d'

theorem stringChars_eq (q : Char) : Lexeme.stringChars q = Lexeme.upTo (stops q) := rfl

theorem drop_length_takeWhile (p : Char → Bool) (s : List Char) :
    s.drop (s.takeWhile p).length = s.dropWhile p := by
  refine (List.append_right_inj (s.take (s.takeWhile p).length)).1 ?_
  rw [List.take_append_drop, Lexeme.take_length_takeWhile, List.takeWhile_append_dropWhile]

/-- The scanner of characters that stand for themselves takes the whole run. -/
theorem stringChars_append (hw : (w.takeWhile fun c => !stops q c) ≠ []) (after : List Char) :
    Lexeme.stringChars q (w ++ q :: after) = some (w.takeWhile fun c => !stops q c).length := by
  have hRun : ((w ++ q :: after).takeWhile fun c => !stops q c) = w.takeWhile fun c => !stops q c := by
    rw [List.takeWhile_append]
    split
    · rename_i hAll
      rw [List.takeWhile_cons_of_neg (by simp [stops]), List.append_nil]
      exact ((List.takeWhile_prefix _).eq_of_length hAll).symm
    · rfl
  rw [stringChars_eq, Lexeme.upTo, hRun]
  split
  · rename_i hNone
    exact absurd (List.length_eq_zero_iff.1 hNone) hw
  · rfl

/-- A character of a string, or an escape in it, as the grammar reads it. -/
def part (q : Char) : Grammar.R :=
  .either (.glued .other (Lexeme.stringChars q)) (.glued .other Lexeme.escape)

/-- At the closing quote there is no further part. -/
theorem read_part_quote (hq : q ≠ '\\') {c : Cursor} {after : List Char} (hRest : c.rest = q :: after)
    (dialect : Dialect) (fuel : Nat) : Rule.read Grammar.rules dialect fuel (part q) c = none := by
  have hChars : Lexeme.stringChars q c.rest = none := by simp [hRest, stringChars_eq, Lexeme.upTo, stops]
  have hEscape : Lexeme.escape c.rest = none := by
    rw [hRest]
    unfold Lexeme.escape
    split
    · rename_i hText
      exact absurd (List.cons.inj hText).1 hq
    · rfl
  match fuel with
  | 0 => rfl
  | 1 => rfl
  | fuel + 2 => simp [part, Rule.read, hChars, hEscape]

/-! ## Reading what is written -/

namespace Escape.Writes

theorem stops_of_itself (hQuote : c ≠ q) (hBackslash : c ≠ '\\') (hLine : [c] ∉ lineEnds) : stops q c = false := by
  simp only [lineEnds] at hLine
  simp_all [stops]

/-- Behind a run of characters that stand for themselves, the rest of the text is written. -/
theorem exists_dropWhile (h : Writes q w t) : ∃ u, Writes q (w.dropWhile fun c => !stops q c) u := by
  induction h with
  | done => exact ⟨[], .done⟩
  | itself hQuote hBackslash hLine _ ih =>
    rwa [List.dropWhile_cons_of_pos (by simp [stops_of_itself hQuote hBackslash hLine])]
  | escape h hZero hTail _ =>
    rw [List.dropWhile_cons_of_neg (by simp [stops])]
    exact ⟨_, .escape h hZero hTail⟩

/-- Before it, a part is read, and behind it the rest of the text is written. -/
theorem exists_read_part (h : Writes q w t) (hw : w ≠ []) {c : Cursor} {after : List Char}
    (hRest : c.rest = w ++ q :: after) (hq : [q] ∉ lineEnds ∧ q.isDigit = false) (dialect : Dialect) (fuel : Nat) :
    ∃ n ns u, 0 < n ∧ n ≤ w.length ∧ Writes q (w.drop n) u ∧
      Rule.read Grammar.rules dialect (fuel + 2) (part q) c = some (ns, c.advance n) := by
  have hDrop := h.exists_dropWhile
  cases h with
  | done => exact absurd rfl hw
  | @itself x w t hQuote hBackslash hLine hTail =>
    have hRun : ((x :: w).takeWhile fun c => !stops q c) ≠ [] := by
      rw [List.takeWhile_cons_of_pos (by simp [stops_of_itself hQuote hBackslash hLine])]
      exact List.cons_ne_nil _ _
    have hPos := List.length_pos_iff.2 hRun
    have hLe := (List.takeWhile_prefix (l := x :: w) fun c => !stops q c).length_le
    have hChars := stringChars_append hRun after
    obtain ⟨u, hu⟩ := hDrop
    rw [← drop_length_takeWhile] at hu
    rw [← hRest] at hChars
    generalize ((x :: w).takeWhile fun c => !stops q c).length = n at *
    refine ⟨n, [c.leaf .other n], u, hPos, hLe, hu, ?_⟩
    simp only [part, Rule.read, hChars, Option.map_some]
  | @escape e s w t h hZero hTail =>
    have hChars : Lexeme.stringChars q c.rest = none := by simp [hRest, stringChars_eq, Lexeme.upTo, stops]
    have hEscape : Lexeme.escape c.rest = some (e.length + 1) := by
      rw [hRest, List.cons_append, List.append_assoc]
      refine escape_of_standsFor h (fun hZ d hd => ?_) fun d hd => ?_
      · cases w with
        | nil =>
          obtain rfl : q = d := by simpa using hd
          exact hq.2
        | cons x w => exact hZero hZ d hd
      · cases w with
        | nil =>
          obtain rfl : q = d := by simpa using hd
          exact hq.1
        | cons x w => exact hTail.head_not_lineEnd d hd
    refine ⟨e.length + 1, [c.leaf .other (e.length + 1)], t, Nat.succ_pos _, by simp, by simpa using hTail, ?_⟩
    simp [part, Rule.read, hChars, hEscape]

/-- The parts are read up to the closing quote. -/
theorem exists_read_parts (h : Writes q w t) {c : Cursor} {after : List Char} (hRest : c.rest = w ++ q :: after)
    (hq : [q] ∉ lineEnds ∧ q.isDigit = false) (hBackslash : q ≠ '\\') (dialect : Dialect) {fuel : Nat}
    (hFuel : w.length + 3 ≤ fuel) :
    ∃ ns, Rule.read Grammar.rules dialect fuel (.many (part q)) c = some (ns, c.advance w.length) := by
  induction fuel generalizing w t c with
  | zero => exact absurd hFuel (by omega)
  | succ fuel ih =>
    by_cases hw : w = []
    · subst hw
      refine ⟨[], ?_⟩
      rw [Rule.read, read_part_quote hBackslash hRest, List.length_nil, Cursor.advance_zero]
    · have hPos : 0 < w.length := List.length_pos_iff.2 hw
      obtain ⟨fuel, rfl⟩ : ∃ g, fuel = g + 2 := ⟨fuel - 2, by omega⟩
      obtain ⟨n, ns, u, hn, hnw, hu, hPart⟩ := h.exists_read_part hw hRest hq dialect fuel
      have hNext : (c.advance n).rest = w.drop n ++ q :: after := by
        rw [Cursor.advance, hRest, List.drop_append_of_le_length hnw]
      have hShorter : (c.advance n).rest.length < c.rest.length := by
        rw [hNext, hRest, List.length_append, List.length_append, List.length_drop]
        omega
      obtain ⟨ms, hMany⟩ := ih hu hNext (by rw [List.length_drop]; omega)
      have hEnd : (c.advance n).advance (w.drop n).length = c.advance w.length := by
        rw [Cursor.advance_advance, List.length_drop, Nat.add_sub_cancel' hnw]
      refine ⟨ns ++ ms, ?_⟩
      rw [Rule.read, hPart]
      simp only [hShorter, if_true, hMany, Option.map_some, hEnd]

end Escape.Writes

/-! ## The literal -/

/-- The rule of one kind of quotes fails where another quote stands. -/
theorem read_quotedString_of_ne {d : Char} (hd : d ≠ q) {c : Cursor} {r : List Char} (hRest : c.rest = d :: r)
    (hTrivia : c.skipTrivia = ([], c)) (dialect : Dialect) (fuel : Nat) :
    Rule.read Grammar.rules dialect fuel (Grammar.quotedString q) c = none := by
  have hOpen : Lexeme.exactly [q] c.rest = none := by simp [Lexeme.exactly, hRest, hd.symm]
  have hRule : Grammar.quotedString q = .node .string .none (.seq (.lexeme .token (Lexeme.exactly [q]))
      (.seq (.many (part q)) (.glued .token (Lexeme.exactly [q])))) := rfl
  match fuel with
  | 0 => rfl
  | 1 => rfl
  | 2 => rfl
  | fuel + 3 => simp [hRule, Rule.read, hTrivia, hOpen]

/-- A string in quotes is read to its closing quote. -/
theorem exists_read_quotedString {q : Char} (hq : q = '\'' ∨ q = '"') {written text : List Char}
    (h : Writes q written text) {c : Cursor} {after : List Char} (hRest : c.rest = q :: (written ++ q :: after))
    (dialect : Dialect) {fuel : Nat} (hFuel : written.length + 6 ≤ fuel) :
    ∃ cs, Rule.read Grammar.rules dialect fuel (Grammar.quotedString q) c =
      some ([.node .string .none c.offset (c.advance (written.length + 2)).offset cs],
        c.advance (written.length + 2)) := by
  obtain ⟨fuel, rfl⟩ : ∃ g, fuel = g + 4 := ⟨fuel - 4, by omega⟩
  have hTrivia : c.skipTrivia = ([], c) := by
    rcases hq with rfl | rfl
    · exact Cursor.skipTrivia_of_head hRest (by decide) (by decide)
    · exact Cursor.skipTrivia_of_head hRest (by decide) (by decide)
  have hQuote : [q] ∉ lineEnds ∧ q.isDigit = false ∧ q ≠ '\\' := by
    rcases hq with rfl | rfl <;> decide
  have hInner : (c.advance 1).rest = written ++ q :: after := by rw [Cursor.advance, hRest]; rfl
  have hOpen : Lexeme.exactly [q] c.rest = some 1 := by simp [Lexeme.exactly, hRest]
  obtain ⟨cs, hParts⟩ := h.exists_read_parts hInner ⟨hQuote.1, hQuote.2.1⟩ hQuote.2.2 dialect
    (show written.length + 3 ≤ fuel + 1 by omega)
  have hClosing : ((c.advance 1).advance written.length).rest = q :: after := by
    rw [Cursor.advance, hInner, List.drop_left]
  have hClose : Lexeme.exactly [q] ((c.advance 1).advance written.length).rest = some 1 := by
    simp [Lexeme.exactly, hClosing]
  have hEnd : ((c.advance 1).advance written.length).advance 1 = c.advance (written.length + 2) := by
    rw [Cursor.advance_advance, Cursor.advance_advance]
    congr 1
    omega
  have hRule : Grammar.quotedString q = .node .string .none (.seq (.lexeme .token (Lexeme.exactly [q]))
      (.seq (.many (part q)) (.glued .token (Lexeme.exactly [q])))) := rfl
  refine ⟨c.leaf .token 1 :: (cs ++ [((c.advance 1).advance written.length).leaf .token 1]), ?_⟩
  rw [hRule, Rule.read, hTrivia, Rule.read, Rule.read, hTrivia]
  simp only [hOpen, Option.map_some]
  rw [Rule.read, hParts]
  simp only [Rule.read, hClose, Option.map_some, hEnd, List.nil_append, List.singleton_append]

/-- A string is read in either kind of quotes. -/
theorem exists_read_string (hq : q = '\'' ∨ q = '"') {written text : List Char} (h : Writes q written text)
    {c : Cursor} {after : List Char} (hRest : c.rest = q :: (written ++ q :: after)) (dialect : Dialect) {fuel : Nat}
    (hFuel : written.length + 7 ≤ fuel) :
    ∃ cs, Rule.read Grammar.rules dialect fuel Grammar.string c =
      some ([.node .string .none c.offset (c.advance (written.length + 2)).offset cs],
        c.advance (written.length + 2)) := by
  obtain ⟨fuel, rfl⟩ : ∃ g, fuel = g + 1 := ⟨fuel - 1, by omega⟩
  obtain ⟨cs, hRead⟩ := exists_read_quotedString hq h hRest dialect (show written.length + 6 ≤ fuel by omega)
  have hRule : Grammar.string = .either (Grammar.quotedString '\'') (Grammar.quotedString '"') := rfl
  refine ⟨cs, ?_⟩
  rw [hRule, Rule.read]
  rcases hq with rfl | rfl
  · rw [hRead]
  · have hTrivia := Cursor.skipTrivia_of_head hRest (by decide) (by decide)
    rw [read_quotedString_of_ne (by decide) hRest hTrivia, hRead]

/-- Whatever way a text is written between quotes, the literal is read as a string to its closing quote, and what it
stands for is the text. -/
theorem exists_read_string_of_writes (hq : q = '\'' ∨ q = '"') {written text : List Char}
    (h : Writes q written text) (dialect : Dialect) (before after : List Char) {fuel : Nat}
    (hFuel : written.length + 7 ≤ fuel) :
    ∃ n, Rule.read Grammar.rules dialect fuel Grammar.string ⟨q :: (written ++ q :: after), byteLength before⟩ =
        some ([n], ⟨after, byteLength before + (byteLength written + 2)⟩) ∧
      n.kind = .string ∧ n.start = byteLength before ∧ n.stop = byteLength before + (byteLength written + 2) ∧
      (n.bodyLiteral (before ++ q :: (written ++ q :: after))).body = text := by
  have hByte : q.utf8Size = 1 := by rcases hq with rfl | rfl <;> rfl
  have hEnd : (⟨q :: (written ++ q :: after), byteLength before⟩ : Cursor).advance (written.length + 2) =
      ⟨after, byteLength before + (byteLength written + 2)⟩ := by
    have hSplit : q :: (written ++ q :: after) = (q :: (written ++ [q])) ++ after := by simp
    have hLength : written.length + 2 = (q :: (written ++ [q])).length := by simp
    rw [hSplit, hLength, Cursor.advance]
    simp only [List.drop_left, List.take_left, Text.byteLength_cons, Text.byteLength_append, Text.byteLength_nil, hByte]
    congr 1
    omega
  obtain ⟨cs, hRead⟩ := exists_read_string hq h (c := ⟨q :: (written ++ q :: after), byteLength before⟩) rfl dialect
    hFuel
  rw [hEnd] at hRead
  refine ⟨_, hRead, rfl, rfl, rfl, ?_⟩
  -- between the quotes, which take a byte each, stands what is written
  have hSlice := Text.slice_append (before ++ [q]) written (q :: after)
  rw [Text.byteLength_append, Text.byteLength_cons, hByte, Text.byteLength_nil, List.append_assoc] at hSlice
  have hStop : byteLength before + (byteLength written + 2) - 1 = byteLength before + (1 + 0) + byteLength written := by
    omega
  show Escape.decode (Text.slice _ (byteLength before + 1) (byteLength before + (byteLength written + 2) - 1)) = text
  rw [hStop]
  exact (congrArg decode hSlice).trans h.decode_eq

/-- A zero before a broken line and a digit, a number with two digits, one in braces with zeros in front, and both
quotes. -/
theorem exists_read_string_of_writes_mixed :
    let written := "\\0\\\x0d\n1\\x4a\\u\x7b00E9\x7d\\'\"".toList
    ∃ n, Rule.read Grammar.rules .tsx 40 Grammar.string ⟨'\'' :: (written ++ '\'' :: ");".toList), 2⟩ =
        some ([n], ⟨");".toList, 25⟩) ∧
      n.kind = .string ∧ n.start = 2 ∧ n.stop = 25 ∧
      (n.bodyLiteral ("f(".toList ++ '\'' :: (written ++ '\'' :: ");".toList))).body = "\x001Jé'\"".toList := by
  have hJ : IsHexNumber 'J' ['4', 'a'] :=
    ⟨[4, 10], .cons (.inl rfl) (.cons (.inl rfl) .nil), by decide⟩
  have hE : IsHexNumber 'é' ['0', '0', 'E', '9'] :=
    ⟨[0, 0, 14, 9], .cons (.inl rfl) (.cons (.inl rfl) (.cons (.inr rfl) (.cons (.inl rfl) .nil))), by decide⟩
  have hBroken : ['\x0d', '\n'] ∈ lineEnds := by decide
  have hWrites : Writes '\'' "\\0\\\x0d\n1\\x4a\\u\x7b00E9\x7d\\'\"".toList "\x001Jé'\"".toList :=
    .escape .zero (fun _ => by decide) <| .escape (.lineEnd hBroken) (fun h => by cases h) <|
      .itself (by decide) (by decide) (by decide) <| .escape (.twoDigits hJ rfl) (fun h => by cases h) <|
      .escape (.braces hE (by decide)) (fun h => by cases h) <|
      .escape (.same (by decide) (by decide)) (fun h => by cases h) <|
      .itself (by decide) (by decide) (by decide) .done
  exact exists_read_string_of_writes (.inl rfl) hWrites .tsx "f(".toList ");".toList (show 21 + 7 ≤ 40 by decide)

end SqlSurvey.TypeScript
