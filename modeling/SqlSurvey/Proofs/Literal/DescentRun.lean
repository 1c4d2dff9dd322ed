import SqlSurvey.Proofs.Literal.Bytes
import SqlSurvey.Proofs.Literal.Descent

/-!
# The scanner against the recursive descent

The scanner, which keeps the open templates on a stack and looks at one character at a time, records what the
recursive descent over the bytes of the source records. What is recorded from an offset on, in code or inside a
template, is what the scan from there records, and then what is recorded from the end of that scan on.
-/

namespace SqlSurvey.Literal

open Text (ofByte ofBytes)

variable {source bytes bs : List UInt8} {b q : UInt8} {i start : Nat} {mode : Mode} {frames outer : List Frame}
  {found : List Literal} {inside : Option Nat} {p : Descent.Scan}

/-! ## The scanner at an offset -/

/-- The literals recorded in the end when the bytes before the offset `i` have been read. -/
def outcomeAt (source : List UInt8) (i : Nat) (mode : Mode) (frames : List Frame) (found : List Literal) :
    List Literal :=
  (State.past (ofBytes (source.take i)) mode frames found).outcome (ofBytes (source.drop i))

theorem take_succ_of_drop (h : source.drop i = b :: bs) : source.take (i + 1) = source.take i ++ [b] := by
  rw [List.take_add, h]
  rfl

theorem byteLength_take (h : source.drop i = b :: bs) : Text.byteLength (ofBytes (source.take i)) = i := by
  rw [Text.byteLength_ofBytes, List.length_take]
  exact Nat.min_eq_left (Nat.le_of_lt (Descent.lt_length_of_drop h))

/-- A byte later, from what the scanner does with it apart from the place. -/
theorem outcomeAt_succ (next : Mode) (h : source.drop i = b :: bs) {frames' : List Frame}
    {found' : List Literal} (hReact : (State.past (ofBytes (source.take i)) mode frames found).react (ofByte b) =
      State.past (ofBytes (source.take i)) next frames' found') :
    outcomeAt source i mode frames found = outcomeAt source (i + 1) next frames' found' := by
  have hDrop : source.drop (i + 1) = bs := Descent.drop_succ h 0
  unfold outcomeAt
  rw [h, hDrop, Text.ofBytes_cons, State.outcome_cons, State.step_past next hReact, take_succ_of_drop h,
    Text.ofBytes_append]
  rfl

/-- At the end, nothing more is recorded, unless two quotes have just been read. -/
theorem outcomeAt_of_le (h : source.length ≤ i) (hMode : ∀ q start, mode ≠ .twoQuotes q start) :
    outcomeAt source i mode frames found = found.reverse := by
  unfold outcomeAt
  rw [List.drop_eq_nil_of_le h]
  show State.literals _ = _
  unfold State.literals
  split
  · rename_i q start hq
    exact absurd hq (hMode q start)
  · rfl

/-- At the end, neither the place nor the mode matters, unless two quotes have just been read. -/
theorem outcomeAt_eq_of_drop_nil {j : Nat} {next : Mode} {frames' : List Frame} (hBytes : source.drop i = [])
    (hj : source.length ≤ j) (hMode : ∀ q start, mode ≠ .twoQuotes q start)
    (hNext : ∀ q start, next ≠ .twoQuotes q start) :
    outcomeAt source i mode frames found = outcomeAt source j next frames' found := by
  rw [outcomeAt_of_le (List.drop_eq_nil_iff.1 hBytes) hMode, outcomeAt_of_le hj hNext]

/-! ## Bytes with a meaning -/

theorem exists_of_pair_prefix {k l : UInt8} (h : [k, l] <+: b :: bs) : b = k ∧ ∃ r, bs = l :: r := by
  obtain ⟨hb, r, hr⟩ := List.cons_prefix_cons.1 h
  exact ⟨hb.symm, r, hr.symm⟩

/-- A byte is read as an ASCII character only if it is that character. -/
theorem ofByte_ne {k : UInt8} (hk : k.toNat < 127) (h : b ≠ k) : ofByte b ≠ ofByte k :=
  mt (Text.ofByte_eq_iff hk).1 h

theorem ofByte_ne_backslash (h : b ≠ Descent.backslash) : ofByte b ≠ '\\' :=
  ofByte_ne (k := Descent.backslash) (by decide) h

theorem ofByte_ne_lineFeed (h : b ≠ Descent.lineFeed) : ofByte b ≠ '\n' :=
  ofByte_ne (k := Descent.lineFeed) (by decide) h

theorem ofByte_ne_slash (h : b ≠ Descent.slash) : ofByte b ≠ '/' := ofByte_ne (k := Descent.slash) (by decide) h

theorem ofByte_ne_star (h : b ≠ Descent.star) : ofByte b ≠ '*' := ofByte_ne (k := Descent.star) (by decide) h

theorem isStringQuote_ofByte (hq : Descent.isQuote q = true) : isStringQuote (ofByte q) = true := by
  rw [Descent.isQuote, Bool.or_eq_true, beq_iff_eq, beq_iff_eq] at hq
  rcases hq with rfl | rfl <;> decide

theorem toNat_lt_of_isQuote (hq : Descent.isQuote q = true) : q.toNat < 127 := by
  rw [Descent.isQuote, Bool.or_eq_true, beq_iff_eq, beq_iff_eq] at hq
  rcases hq with rfl | rfl <;> decide

/-! ## Strings -/

/-- The byte behind a backslash is taken, whatever it is. -/
theorem outcomeAt_escape (next : Mode) (hMode : ∀ q start, mode ≠ .twoQuotes q start)
    (hNext : ∀ q start, next ≠ .twoQuotes q start)
    (hReact : ∀ before c, (State.past before mode frames found).react c = State.past before next frames found) :
    outcomeAt source i mode frames found = outcomeAt source (i + 1) next frames found := by
  cases hBytes : source.drop i with
  | nil => exact outcomeAt_eq_of_drop_nil hBytes (Nat.le_succ_of_le (List.drop_eq_nil_iff.1 hBytes)) hMode hNext
  | cons b bs => exact outcomeAt_succ next hBytes (hReact _ _)

/-- A line feed in code is passed over. -/
theorem outcomeAt_code_lineFeed (hBytes : source.drop i = Descent.lineFeed :: bs) :
    outcomeAt source i .code frames found = outcomeAt source (i + 1) .code frames found :=
  outcomeAt_succ _ hBytes (by cases frames <;> rfl)

theorem outcomeAt_quoted (hq : Descent.isQuote q = true) (hBytes : source.drop i = bytes) :
    outcomeAt source i (.quoted (ofByte q) start) frames found =
      outcomeAt source (Descent.quoted source.length q start i bytes).stop .code frames
        ((Descent.quoted source.length q start i bytes).found.reverse ++ found) := by
  fun_induction Descent.quoted source.length q start i bytes with
  | case1 i => exact outcomeAt_eq_of_drop_nil hBytes (Nat.le_refl _) (by simp) (by simp)
  | case2 i bs ih =>
    rw [outcomeAt_succ (.quotedEscape (ofByte q) start) hBytes rfl,
      outcomeAt_escape (.quoted (ofByte q) start) (by simp) (by simp) fun _ _ => rfl]
    exact ih (Descent.drop_succ hBytes 1)
  | case3 i bs hEscape =>
    rw [outcomeAt_succ .code hBytes rfl]
    exact (outcomeAt_code_lineFeed hBytes).symm
  | case4 i bs hEscape hLine =>
    refine outcomeAt_succ _ hBytes ?_
    show State.stepQuoted _ _ _ _ = _
    rw [State.stepQuoted, if_neg (ofByte_ne_backslash hEscape), if_neg (ofByte_ne_lineFeed hLine), if_pos rfl]
    show State.record _ _ _ (Text.byteLength _ + 1) = _
    rw [byteLength_take hBytes]
    rfl
  | case5 i b bs hEscape hLine hQuote ih =>
    rw [outcomeAt_succ (.quoted (ofByte q) start) hBytes]
    · exact ih (Descent.drop_succ hBytes 0)
    · show State.stepQuoted _ _ _ _ = _
      rw [State.stepQuoted, if_neg (ofByte_ne_backslash hEscape), if_neg (ofByte_ne_lineFeed hLine),
        if_neg (ofByte_ne (toNat_lt_of_isQuote hq) hQuote)]
      rfl

/-- Before a byte that is no quote, it does not matter how many quotes have just been read. -/
theorem outcomeAt_tripled_of_head (hq : Descent.isQuote q = true) (hHead : (source.drop i).head? ≠ some q)
    (closing closing' : Nat) :
    outcomeAt source i (.tripled (ofByte q) start closing) frames found =
      outcomeAt source i (.tripled (ofByte q) start closing') frames found := by
  cases hBytes : source.drop i with
  | nil => exact outcomeAt_eq_of_drop_nil hBytes (List.drop_eq_nil_iff.1 hBytes) (by simp) (by simp)
  | cons b bs =>
    have hb : b ≠ q := by simpa [hBytes] using hHead
    have hReact : ∀ n, (State.past (ofBytes (source.take i)) (.tripled (ofByte q) start n) frames found).react
        (ofByte b) = State.past (ofBytes (source.take i)) (if ofByte b = '\\' then .tripledEscape (ofByte q) start
          else .tripled (ofByte q) start 0) frames found := by
      intro n
      show State.stepTripled _ _ _ _ _ = _
      rw [State.stepTripled, if_neg (ofByte_ne (toNat_lt_of_isQuote hq) hb)]
      split <;> rfl
    rw [outcomeAt_succ _ hBytes (hReact closing), outcomeAt_succ _ hBytes (hReact closing')]

theorem react_tripled_ofByte (hq : Descent.isQuote q = true) {closing : Nat} (hClosing : closing ≠ 2)
    (before : List Char) : (State.past before (.tripled (ofByte q) start closing) frames found).react (ofByte q) =
      State.past before (.tripled (ofByte q) start (closing + 1)) frames found :=
  State.react_tripled_quote (isStringQuote_ofByte hq) hClosing

/-- A quote that does not begin three leaves the string as it was. -/
theorem outcomeAt_tripled_quote (hq : Descent.isQuote q = true) (hBytes : source.drop i = q :: bs)
    (hThree : ¬ [q, q, q] <+: q :: bs) :
    outcomeAt source i (.tripled (ofByte q) start 0) frames found =
      outcomeAt source (i + 1) (.tripled (ofByte q) start 0) frames found := by
  have hDrop : source.drop (i + 1) = bs := Descent.drop_succ hBytes 0
  rw [outcomeAt_succ _ hBytes (react_tripled_ofByte hq (by decide) _)]
  cases bs with
  | nil => exact outcomeAt_tripled_of_head hq (by simp [hDrop]) _ _
  | cons c bs =>
    by_cases hc : c = q
    · -- after a second quote, a third one does not come
      subst hc
      have hDrop' : source.drop (i + 2) = bs := Descent.drop_succ hBytes 1
      have hHead : (source.drop (i + 2)).head? ≠ some c := by
        rw [hDrop']
        intro hHead
        obtain ⟨r, rfl⟩ := List.head?_eq_some_iff.1 hHead
        exact hThree ⟨r, rfl⟩
      rw [outcomeAt_succ _ hDrop (react_tripled_ofByte hq (by decide) _),
        outcomeAt_succ _ hDrop (react_tripled_ofByte hq (by decide) _)]
      exact outcomeAt_tripled_of_head hq hHead _ _
    · exact outcomeAt_tripled_of_head hq (by simpa [hDrop] using hc) _ _

theorem outcomeAt_tripled (hq : Descent.isQuote q = true) (hBytes : source.drop i = bytes) :
    outcomeAt source i (.tripled (ofByte q) start 0) frames found =
      outcomeAt source (Descent.tripled source.length q start i bytes).stop .code frames
        ((Descent.tripled source.length q start i bytes).found.reverse ++ found) := by
  fun_induction Descent.tripled source.length q start i bytes with
  | case1 i => exact outcomeAt_eq_of_drop_nil hBytes (Nat.le_refl _) (by simp) (by simp)
  | case2 i bs ih =>
    rw [outcomeAt_succ (.tripledEscape (ofByte q) start) hBytes rfl,
      outcomeAt_escape (.tripled (ofByte q) start 0) (by simp) (by simp) fun _ _ => rfl]
    exact ih (Descent.drop_succ hBytes 1)
  | case3 i b bs _ hThree =>
    -- three quotes, one after the other
    obtain ⟨r, hr⟩ := hThree
    obtain ⟨rfl, rfl⟩ := List.cons.inj hr
    have hSecond : source.drop (i + 1) = q :: q :: r := Descent.drop_succ hBytes 0
    have hThird : source.drop (i + 2) = q :: r := Descent.drop_succ hBytes 1
    rw [outcomeAt_succ _ hBytes (react_tripled_ofByte hq (by decide) _),
      outcomeAt_succ _ hSecond (react_tripled_ofByte hq (by decide) _)]
    refine outcomeAt_succ _ hThird ?_
    have hNe : ofByte q ≠ '\\' := ofByte_ne_backslash (by rintro rfl; exact absurd hq (by decide))
    show State.stepTripled _ _ _ _ _ = _
    rw [State.stepTripled, if_neg hNe, if_pos rfl, if_pos rfl]
    show State.record _ _ _ (Text.byteLength _ + 1) = _
    rw [byteLength_take hThird]
    rfl
  | case4 i b bs hEscape hThree ih =>
    rw [← ih (Descent.drop_succ hBytes 0)]
    by_cases hb : b = q
    · subst hb
      exact outcomeAt_tripled_quote hq hBytes hThree
    · refine outcomeAt_succ _ hBytes ?_
      show State.stepTripled _ _ _ _ _ = _
      rw [State.stepTripled, if_neg (ofByte_ne_backslash hEscape),
        if_neg (ofByte_ne (toNat_lt_of_isQuote hq) hb)]
      rfl

/-- Behind two quotes and no third one, the empty string is recorded. -/
theorem outcomeAt_twoQuotes (hq : Descent.isQuote q = true) (hFirst : source.drop (i + 1) = q :: bs)
    (hHead : bs.head? ≠ some q) :
    outcomeAt source (i + 2) (.twoQuotes (ofByte q) i) frames found =
      outcomeAt source (Descent.quoted source.length q i (i + 1) (q :: bs)).stop .code frames
        ((Descent.quoted source.length q i (i + 1) (q :: bs)).found.reverse ++ found) := by
  have hSecond : source.drop (i + 2) = bs := Descent.drop_succ hFirst 0
  have hEmpty : Descent.quoted source.length q i (i + 1) (q :: bs) = ⟨i + 2, [⟨i, i + 2, i + 1, i + 1⟩]⟩ := by
    have hNe : q ≠ Descent.backslash ∧ q ≠ Descent.lineFeed := by
      constructor <;> rintro rfl <;> exact absurd hq (by decide)
    rw [Descent.quoted, if_neg hNe.1, if_neg hNe.2, if_pos rfl]
  have hNext : (ofBytes (source.drop (i + 2))).head? ≠ some (ofByte q) := by
    rw [hSecond]
    intro hNext
    cases bs with
    | nil => cases hNext
    | cons c bs =>
      have hc : c = q := (Text.ofByte_eq_iff (toNat_lt_of_isQuote hq)).1 (Option.some.inj hNext)
      exact hHead (congrArg some hc)
  have hRead : Text.byteLength (ofBytes (source.take (i + 2))) = i + 2 := by
    have := Descent.lt_length_of_drop hFirst
    rw [Text.byteLength_ofBytes, List.length_take]
    omega
  rw [hEmpty]
  unfold outcomeAt
  rw [State.outcome_twoQuotes hNext, hRead]
  rfl

/-- Behind one quote and no second one, the body of the string begins. -/
theorem outcomeAt_oneQuote (hq : Descent.isQuote q = true) (hHead : (source.drop i).head? ≠ some q) :
    outcomeAt source i (.oneQuote (ofByte q) start) frames found =
      outcomeAt source i (.quoted (ofByte q) start) frames found := by
  cases hBytes : source.drop i with
  | nil => exact outcomeAt_eq_of_drop_nil hBytes (List.drop_eq_nil_iff.1 hBytes) (by simp) (by simp)
  | cons b bs =>
    have hb : ofByte b ≠ ofByte q := ofByte_ne (toNat_lt_of_isQuote hq) (by simpa [hBytes] using hHead)
    unfold outcomeAt
    rw [hBytes, Text.ofBytes_cons, State.outcome, State.run_oneQuote hb]
    rfl

/-- A string that begins in code: the bytes behind its quote say whether it is one in three. -/
theorem outcomeAt_string (hq : Descent.isQuote q = true) (hBytes : source.drop i = q :: bs) :
    let p := if [q, q] <+: bs then Descent.tripled source.length q i (i + 3) (bs.drop 2)
      else Descent.quoted source.length q i (i + 1) bs
    outcomeAt source i .code frames found = outcomeAt source p.stop .code frames (p.found.reverse ++ found) := by
  have hFirst : source.drop (i + 1) = bs := Descent.drop_succ hBytes 0
  have hOpen : (State.past (ofBytes (source.take i)) .code frames found).react (ofByte q) = _ :=
    State.react_code_quote (isStringQuote_ofByte hq)
  rw [byteLength_take hBytes] at hOpen
  rw [outcomeAt_succ _ hBytes hOpen]
  by_cases hHead : bs.head? = some q
  · obtain ⟨r, rfl⟩ := List.head?_eq_some_iff.1 hHead
    have hSecond : source.drop (i + 2) = r := Descent.drop_succ hBytes 1
    rw [outcomeAt_succ _ hFirst State.react_oneQuote_quote]
    split
    · -- a third quote
      rename_i hThree
      obtain ⟨t, ht⟩ := hThree
      obtain ⟨-, rfl⟩ := List.cons.inj ht
      rw [outcomeAt_succ _ hSecond State.react_twoQuotes_quote]
      exact outcomeAt_tripled hq (Descent.drop_succ hBytes 2)
    · -- the empty string
      rename_i hThree
      refine outcomeAt_twoQuotes hq hFirst fun hThird => ?_
      obtain ⟨t, rfl⟩ := List.head?_eq_some_iff.1 hThird
      exact hThree ⟨t, rfl⟩
  · -- anything else is the body already
    have hTwo : ¬ [q, q] <+: bs := by
      rintro ⟨r, rfl⟩
      exact hHead rfl
    rw [if_neg hTwo, outcomeAt_oneQuote hq (by rwa [hFirst])]
    exact outcomeAt_quoted hq hFirst

/-! ## Comments -/

/-- After a star, a comment goes on as before it, unless a slash comes next. -/
theorem outcomeAt_blockCommentStar (hHead : (source.drop i).head? ≠ some Descent.slash) :
    outcomeAt source i .blockCommentStar frames found = outcomeAt source i .blockComment frames found := by
  cases hBytes : source.drop i with
  | nil => exact outcomeAt_eq_of_drop_nil hBytes (List.drop_eq_nil_iff.1 hBytes) (by simp) (by simp)
  | cons b bs =>
    have hSlash : ofByte b ≠ '/' := ofByte_ne_slash (by simpa [hBytes] using hHead)
    by_cases hStar : ofByte b = '*'
    · have hStay : (State.past (ofBytes (source.take i)) .blockCommentStar frames found).react (ofByte b) =
          State.past (ofBytes (source.take i)) .blockCommentStar frames found := by
        show (if ofByte b = '/' then _ else if ofByte b = '*' then _ else _) = _
        rw [if_neg hSlash, if_pos hStar]
      have hEnter : (State.past (ofBytes (source.take i)) .blockComment frames found).react (ofByte b) =
          State.past (ofBytes (source.take i)) .blockCommentStar frames found := if_pos hStar
      rw [outcomeAt_succ _ hBytes hStay, outcomeAt_succ _ hBytes hEnter]
    · have hLeave : (State.past (ofBytes (source.take i)) .blockCommentStar frames found).react (ofByte b) =
          State.past (ofBytes (source.take i)) .blockComment frames found := by
        show (if ofByte b = '/' then _ else if ofByte b = '*' then _ else _) = _
        rw [if_neg hSlash, if_neg hStar]
        rfl
      have hStay : (State.past (ofBytes (source.take i)) .blockComment frames found).react (ofByte b) =
          State.past (ofBytes (source.take i)) .blockComment frames found := if_neg hStar
      rw [outcomeAt_succ _ hBytes hLeave, outcomeAt_succ _ hBytes hStay]

theorem outcomeAt_blockComment (hBytes : source.drop i = bytes) :
    outcomeAt source i .blockComment frames found =
      outcomeAt source (Descent.blockComment source.length i bytes).stop .code frames found := by
  fun_induction Descent.blockComment source.length i bytes with
  | case1 i => exact outcomeAt_eq_of_drop_nil hBytes (Nat.le_refl _) (by simp) (by simp)
  | case2 i b bs hClose =>
    obtain ⟨rfl, r, rfl⟩ := exists_of_pair_prefix hClose
    have hNext : source.drop (i + 1) = Descent.slash :: r := Descent.drop_succ hBytes 0
    rw [outcomeAt_succ .blockCommentStar hBytes rfl, outcomeAt_succ .code hNext rfl]
    rfl
  | case3 i b bs hClose ih =>
    have hNext : source.drop (i + 1) = bs := Descent.drop_succ hBytes 0
    rw [← ih hNext]
    by_cases hb : b = Descent.star
    · subst hb
      rw [outcomeAt_succ .blockCommentStar hBytes rfl]
      refine outcomeAt_blockCommentStar ?_
      rw [hNext]
      intro hHead
      obtain ⟨r, rfl⟩ := List.head?_eq_some_iff.1 hHead
      exact hClose ⟨r, rfl⟩
    · exact outcomeAt_succ _ hBytes (if_neg (ofByte_ne_star hb))

/-- A line comment that has begun goes on to the end of its line. -/
theorem outcomeAt_lineComment (hBytes : source.drop i = bytes) :
    outcomeAt source i .lineComment frames found =
      outcomeAt source (Descent.lineComment i bytes).stop .code frames found := by
  induction bytes generalizing i with
  | nil =>
    have hStop : source.length ≤ (Descent.lineComment i []).stop := List.drop_eq_nil_iff.1 hBytes
    exact outcomeAt_eq_of_drop_nil hBytes hStop (by simp) (by simp)
  | cons b bs ih =>
    by_cases hb : b = Descent.lineFeed
    · subst hb
      rw [outcomeAt_succ .code hBytes rfl]
      exact (outcomeAt_code_lineFeed hBytes).symm
    · have hStop : (Descent.lineComment i (b :: bs)).stop = (Descent.lineComment (i + 1) bs).stop := by
        have hTake : (b :: bs).takeWhile (fun b => b != Descent.lineFeed) =
            b :: bs.takeWhile fun b => b != Descent.lineFeed := List.takeWhile_cons_of_pos (by simpa using hb)
        show i + _ = i + 1 + _
        rw [hTake, List.length_cons]
        omega
      rw [hStop, ← ih (Descent.drop_succ hBytes 0)]
      exact outcomeAt_succ _ hBytes (if_neg (ofByte_ne_lineFeed hb))

/-- A string or comment in code. -/
theorem outcomeAt_lexeme (hBytes : source.drop i = b :: bs) {p : Descent.Scan}
    (h : Descent.lexeme? source.length i b bs = some p) :
    outcomeAt source i .code frames found = outcomeAt source p.stop .code frames (p.found.reverse ++ found) := by
  unfold Descent.lexeme? at h
  split at h
  · rename_i hq
    rw [Option.some.injEq] at h
    subst h
    exact outcomeAt_string hq hBytes
  split at h
  · rename_i hSlash
    rw [Option.some.injEq] at h
    subst h
    obtain ⟨rfl, r, rfl⟩ := exists_of_pair_prefix hSlash
    have hNext : source.drop (i + 1) = Descent.slash :: r := Descent.drop_succ hBytes 0
    have hStop : (Descent.lineComment i (Descent.slash :: Descent.slash :: r)).stop =
        (Descent.lineComment (i + 2) r).stop := by
      have hTake : (Descent.slash :: Descent.slash :: r).takeWhile (fun b => b != Descent.lineFeed) =
          Descent.slash :: Descent.slash :: r.takeWhile fun b => b != Descent.lineFeed := by
        rw [List.takeWhile_cons_of_pos (by decide), List.takeWhile_cons_of_pos (by decide)]
      show i + ((Descent.slash :: Descent.slash :: r).takeWhile fun b => b != Descent.lineFeed).length = i + 2 + _
      rw [hTake, List.length_cons, List.length_cons]
      omega
    rw [hStop, outcomeAt_succ .slash hBytes rfl, outcomeAt_succ .lineComment hNext rfl]
    exact outcomeAt_lineComment (Descent.drop_succ hBytes 1)
  split at h
  · rename_i hStar
    rw [Option.some.injEq] at h
    subst h
    obtain ⟨rfl, r, rfl⟩ := exists_of_pair_prefix hStar
    have hNext : source.drop (i + 1) = Descent.star :: r := Descent.drop_succ hBytes 0
    rw [outcomeAt_succ .slash hBytes rfl, outcomeAt_succ .blockComment hNext rfl, Descent.found_blockComment]
    exact outcomeAt_blockComment (Descent.drop_succ hBytes 1)
  · cases h

/-! ## Code and templates -/

/-- The mode at the end of code: after a substitution, the template around it goes on. -/
def modeAfter (start : Nat) : Option Nat → Mode
  | none => .code
  | some _ => .template start

/-- The templates around the end of code. -/
def framesAfter (outer : List Frame) : Option Nat → List Frame
  | none => []
  | some _ => outer

theorem modeAfter_ne (start : Nat) (inside : Option Nat) (q : Char) (place : Nat) :
    modeAfter start inside ≠ .twoQuotes q place := by
  cases inside <;> simp [modeAfter]

theorem braceDepth_ofByte (b : UInt8) (depth : Nat) : braceDepth (ofByte b) depth = Descent.depthAfter b depth := by
  unfold braceDepth Descent.depthAfter
  have hOpen : ofByte b = '\x7b' ↔ b = Descent.openBrace := Text.ofByte_eq_iff (k := Descent.openBrace) (by decide)
  have hClose : ofByte b = '\x7d' ↔ b = Descent.closeBrace := Text.ofByte_eq_iff (k := Descent.closeBrace) (by decide)
  simp only [hOpen, hClose]

/-- A byte of code that begins nothing and ends nothing. -/
theorem outcomeAt_plain (hBytes : source.drop i = b :: bs) (hBacktick : b ≠ Descent.backtick)
    (hNone : Descent.lexeme? source.length i b bs = none) (hBrace : ¬ (b = Descent.closeBrace ∧ inside = some 0)) :
    outcomeAt source i .code (State.stack start outer inside) found =
      outcomeAt source (i + 1) .code (State.stack start outer (inside.map (Descent.depthAfter b))) found := by
  have hNext : source.drop (i + 1) = bs := Descent.drop_succ hBytes 0
  unfold Descent.lexeme? at hNone
  split at hNone
  · cases hNone
  split at hNone
  · cases hNone
  split at hNone
  · cases hNone
  rename_i hQuote hLine hBlock
  rw [Descent.isQuote, Bool.or_eq_true, beq_iff_eq, beq_iff_eq, not_or] at hQuote
  have hOpens : opensLiteral (ofByte b) = false := by
    have hSingle : ofByte b ≠ '\'' := ofByte_ne (k := Descent.singleQuote) (by decide) hQuote.1
    have hDouble : ofByte b ≠ '"' := ofByte_ne (k := Descent.doubleQuote) (by decide) hQuote.2
    have hTemplate : ofByte b ≠ '\x60' := ofByte_ne (k := Descent.backtick) (by decide) hBacktick
    simp [opensLiteral, hSingle, hDouble, hTemplate]
  have hSlash : ofByte b = '/' → (ofBytes bs).head? ≠ some '/' ∧ (ofBytes bs).head? ≠ some '*' := by
    intro hb
    obtain rfl : b = Descent.slash := (Text.ofByte_eq_iff (k := Descent.slash) (by decide)).1 hb
    cases bs with
    | nil => simp
    | cons c bs =>
      have hc : c ≠ Descent.slash ∧ c ≠ Descent.star := by
        refine ⟨?_, ?_⟩
        · rintro rfl
          exact hLine ⟨bs, rfl⟩
        · rintro rfl
          exact hBlock ⟨bs, rfl⟩
      have hNe := And.intro (ofByte_ne_slash hc.1) (ofByte_ne_star hc.2)
      simpa using hNe
  have hClose : ofByte b = '\x7d' → inside ≠ some 0 := by
    intro hb hInside
    exact hBrace ⟨(Text.ofByte_eq_iff (k := Descent.closeBrace) (by decide)).1 hb, hInside⟩
  have hDepth : braceDepth (ofByte b) = Descent.depthAfter b := funext (braceDepth_ofByte b)
  unfold outcomeAt
  rw [hBytes, hNext, Text.ofBytes_cons, State.outcome_code_plain hOpens hSlash hClose, hDepth,
    take_succ_of_drop hBytes, Text.ofBytes_append]
  rfl

mutual

/-- What is recorded from code on is what the scan of code records, and what is recorded from its end on. -/
theorem outcomeAt_code : ∀ (inside : Option Nat) (i : Nat) (bytes : List UInt8) (start : Nat) (outer : List Frame)
    (found : List Literal), source.drop i = bytes →
    outcomeAt source i .code (State.stack start outer inside) found =
      outcomeAt source (Descent.code source.length inside i bytes).stop (modeAfter start inside)
        (framesAfter outer inside) ((Descent.code source.length inside i bytes).found.reverse ++ found)
  | inside, i, [], start, outer, found, hBytes => by
    rw [Descent.code]
    exact outcomeAt_eq_of_drop_nil hBytes (Nat.le_refl _) (by simp) (modeAfter_ne start inside)
  | inside, i, b :: bs, start, outer, found, hBytes => by
    rw [Descent.code]
    split
    · rename_i hb
      have hOpen : [Descent.backtick] <+: source.drop i := ⟨bs, by rw [hBytes, ← hb]; rfl⟩
      obtain ⟨hSound, hStop⟩ := (Descent.ends_template i (i + 1) bs (Descent.drop_succ hBytes 0)).sound hOpen
      have hTemplate := outcomeAt_template i (i + 1) bs (State.stack start outer inside) found
        (Descent.drop_succ hBytes 0)
      have hRest := outcomeAt_code inside _ _ start outer
        ((Descent.template source.length i (i + 1) bs).found.reverse ++ found) (Descent.drop_stop hBytes hStop).symm
      have hBegin : outcomeAt source i .code (State.stack start outer inside) found =
          outcomeAt source (i + 1) (.template i) (State.stack start outer inside) found := by
        refine outcomeAt_succ _ hBytes ?_
        rw [hb]
        show State.past _ (.template (Text.byteLength _)) _ _ = _
        rw [byteLength_take hBytes]
        rfl
      rw [hBegin, hTemplate, hRest]
      simp [Descent.Scan.andThen]
    split
    · rename_i p hp
      obtain ⟨hSound, hStop⟩ := Descent.sound_lexeme hBytes hp
      have hRest := outcomeAt_code inside _ _ start outer (p.found.reverse ++ found)
        (Descent.drop_stop hBytes hStop).symm
      rw [outcomeAt_lexeme hBytes hp, hRest]
      simp [Descent.Scan.andThen]
    split
    · rename_i hClose
      obtain ⟨rfl, rfl⟩ := hClose
      exact outcomeAt_succ _ hBytes rfl
    · rename_i hb _ hNone hClose
      rw [outcomeAt_plain hBytes hb hNone hClose]
      have hRest := outcomeAt_code (inside.map (Descent.depthAfter b)) (i + 1) bs start outer found
        (Descent.drop_succ hBytes 0)
      rw [hRest]
      cases inside <;> rfl
termination_by _ _ bytes => bytes.length
decreasing_by all_goals (simp only [List.length_drop, List.length_cons]; omega)

/-- What is recorded from inside a template on. -/
theorem outcomeAt_template : ∀ (start i : Nat) (bytes : List UInt8) (frames : List Frame) (found : List Literal),
    source.drop i = bytes →
    outcomeAt source i (.template start) frames found =
      outcomeAt source (Descent.template source.length start i bytes).stop .code frames
        ((Descent.template source.length start i bytes).found.reverse ++ found)
  | start, i, [], frames, found, hBytes => by
    rw [Descent.template]
    exact outcomeAt_eq_of_drop_nil hBytes (Nat.le_refl _) (by simp) (by simp)
  | start, i, b :: bs, frames, found, hBytes => by
    have hLen := Descent.lt_length_of_drop hBytes
    have hNext : source.drop (i + 1) = bs := Descent.drop_succ hBytes 0
    rw [Descent.template]
    split
    · rename_i hb
      subst hb
      have hRest := outcomeAt_template start (i + 2) (bs.drop 1) frames found (Descent.drop_succ hBytes 1)
      rw [← hRest, outcomeAt_succ (.templateEscape start) hBytes rfl]
      exact outcomeAt_escape (.template start) (by simp) (by simp) fun _ _ => rfl
    split
    · rename_i hb
      subst hb
      refine outcomeAt_succ _ hBytes ?_
      show State.record _ _ _ (Text.byteLength _ + 1) = _
      rw [byteLength_take hBytes]
      rfl
    split
    · -- a substitution, and then the template behind it
      rename_i hDollar
      obtain ⟨hb, r, hr⟩ := exists_of_pair_prefix hDollar
      have hSound := Descent.sound_code (some 0) (i + 2) _ (Descent.drop_succ hBytes 1)
      have hStop : i + 1 ≤ (Descent.code source.length (some 0) (i + 2) (bs.drop 1)).stop := by
        have := hSound.le_stop
        omega
      have hDollarRead : outcomeAt source i (.template start) frames found =
          outcomeAt source (i + 1) (.templateDollar start) frames found :=
        outcomeAt_succ _ hBytes (by rw [hb]; rfl)
      have hOpen : outcomeAt source (i + 1) (.templateDollar start) frames found =
          outcomeAt source (i + 2) .code (State.stack start frames (some 0)) found :=
        outcomeAt_succ _ (hNext.trans hr) rfl
      have hCode := outcomeAt_code (some 0) (i + 2) _ start frames found (Descent.drop_succ hBytes 1)
      have hRest := outcomeAt_template start _ _ frames
        ((Descent.code source.length (some 0) (i + 2) (bs.drop 1)).found.reverse ++ found)
        (Descent.drop_stop hBytes hStop).symm
      rw [hDollarRead, hOpen, hCode]
      refine hRest.trans ?_
      simp [Descent.Scan.andThen]
    · rename_i hBackslash hBacktick hDollar
      have hRest := outcomeAt_template start (i + 1) bs frames found hNext
      have hHead : ofByte b = '$' → (ofBytes bs).head? ≠ some '\x7b' := by
        intro hb hHead
        obtain rfl : b = Descent.dollar := (Text.ofByte_eq_iff (k := Descent.dollar) (by decide)).1 hb
        cases bs with
        | nil => cases hHead
        | cons c bs =>
          obtain rfl : c = Descent.openBrace :=
            (Text.ofByte_eq_iff (k := Descent.openBrace) (by decide)).1 (Option.some.inj hHead)
          exact hDollar ⟨bs, rfl⟩
      have hChar : ofByte b ≠ '\x60' := ofByte_ne (k := Descent.backtick) (by decide) hBacktick
      rw [← hRest]
      unfold outcomeAt
      rw [hBytes, hNext, Text.ofBytes_cons,
        State.outcome_template_char hChar (ofByte_ne_backslash hBackslash) hHead, take_succ_of_drop hBytes,
        Text.ofBytes_append]
      rfl
termination_by _ _ bytes => bytes.length
decreasing_by all_goals (simp only [List.length_drop, List.length_cons]; omega)

end

/-- The scanner records what the recursive descent records, in the same order. -/
theorem literals_run (source : List Char) :
    (State.initial.run source).literals =
      (Descent.code (Text.byteLength source) none 0 (Text.bytes source)).found := by
  have hStart : outcomeAt (Text.bytes source) 0 .code [] [] = (State.initial.run source).literals := by
    rw [← State.run_ofBytes_bytes]
    rfl
  have hCode : outcomeAt (Text.bytes source) 0 .code [] [] = _ :=
    outcomeAt_code none 0 (Text.bytes source) 0 [] [] rfl
  have hStop := Descent.stop_code_none (Text.bytes source).length 0 (Text.bytes source)
  rw [← hStart, hCode, outcomeAt_of_le (Nat.le_of_eq hStop.symm) (modeAfter_ne 0 none), List.append_nil, List.reverse_reverse,
    Text.length_bytes]

end SqlSurvey.Literal
