import SqlSurvey.Proofs.Ddl.Default

/-!
# Default values that hold blanks

A string literal or an expression in parentheses as the default of a column. Before another constraint the value
is read up to the first blanks that one of the constraint words follows, even if these are a part of the value; at the
end of the definition only a value without blanks is read.
-/

namespace SqlSurvey.Ddl

open Pattern

variable {q : Pattern} {last : Option Char} {s t u w x : List Char} {c d : Char}

/-! ## Values -/

/-- A string literal, in which quotes are doubled. -/
def stringLiteral (body : List Char) : List Char :=
  '\'' :: (body.flatMap fun c => if c = '\'' then ['\'', '\''] else [c]) ++ ['\'']

/-- Texts without quotes in which every parenthesis has its counterpart. -/
inductive Balanced : List Char → Prop where
  | nil : Balanced []
  | char {c : Char} {s : List Char} (hQuote : c ≠ '\'' ∧ c ≠ '"') (hParen : c ≠ '(' ∧ c ≠ ')') (hs : Balanced s) :
      Balanced (c :: s)
  | parens {s t : List Char} (hs : Balanced s) (ht : Balanced t) : Balanced ('(' :: s ++ ')' :: t)

/-- The values a default may have here: string literals, and expressions in parentheses. -/
inductive IsValue : List Char → Prop where
  | literal (body : List Char) : IsValue (stringLiteral body)
  | expression {b : List Char} (hb : Balanced b) : IsValue ('(' :: b ++ [')'])

/-- The characters that a value begins or ends with. -/
def enclosesValue (c : Char) : Bool := c == '\'' || c == '(' || c == ')'

theorem IsValue.exists_eq {v : List Char} (h : IsValue v) :
    ∃ c m d, v = c :: (m ++ [d]) ∧ enclosesValue c = true ∧ enclosesValue d = true := by
  cases h with
  | literal body => exact ⟨_, _, _, rfl, rfl, rfl⟩
  | expression hb => exact ⟨_, _, _, rfl, rfl, rfl⟩

theorem eq_of_enclosesValue (h : enclosesValue c = true) : c = '\'' ∨ c = '(' ∨ c = ')' := by
  simpa [enclosesValue, or_assoc] using h

theorem isBlank_of_enclosesValue (h : enclosesValue c = true) : Text.isBlank c = false := by
  rcases eq_of_enclosesValue h with rfl | rfl | rfl <;> decide

/-! ## Where a value ends -/

/-- The constraints that end a default. -/
def endingConstraint : Pattern :=
  either (phrase "NOT" ["NULL"]) (either (keyword "PRIMARY".toList) (either (keyword "FOREIGN".toList)
    (either (keyword "UNIQUE".toList) (keyword "CHECK".toList))))

/-- Whether a text holds blanks that one of the constraint words follows. -/
def holdsConstraint (s : List Char) : Bool := (blanks ++ endingConstraint).occursIn s

theorem forward_endingConstraint : endingConstraint.Forward :=
  ⟨⟨⟨forward_keyword _, trivial⟩, forward_keyword _⟩, forward_keyword _, forward_keyword _, forward_keyword _,
    forward_keyword _⟩

/-- Keywords take no quote and no parenthesis. -/
theorem avoids_keyword_enclosesValue {word : String} (h : isLettered word = true) :
    (keyword word.toList).Avoids enclosesValue := by
  refine avoids_keyword_of_isLettered (fun c hc => ?_) h
  rcases eq_of_enclosesValue hc with rfl | rfl | rfl <;> decide

theorem avoids_blanks_endingConstraint : (blanks ++ endingConstraint).Avoids enclosesValue :=
  ⟨fun _ hc => isBlank_of_enclosesValue hc,
    ⟨⟨avoids_keyword_enclosesValue (by decide), fun _ hc => isBlank_of_enclosesValue hc⟩,
      avoids_keyword_enclosesValue (by decide)⟩,
    avoids_keyword_enclosesValue (by decide), avoids_keyword_enclosesValue (by decide),
    avoids_keyword_enclosesValue (by decide), avoids_keyword_enclosesValue (by decide)⟩

theorem refuses_blanks_enclosesValue (q : Pattern) : (blanks ++ q).Refuses enclosesValue :=
  (refuses_many fun _ hc => isBlank_of_enclosesValue hc).append q

theorem hits_defaultEnd (last : Option Char) (s : List Char) :
    defaultEnd.hits last s = endingConstraint.hits last s ++ atEnd.hits last s := by
  simp only [defaultEnd, endingConstraint, hits_either, List.append_assoc]

/-- Blanks end a default where a constraint comes next, or nothing. -/
theorem hits_blanks_defaultEnd_eq_nil_iff :
    (blanks ++ defaultEnd).hits last s = [] ↔
      (blanks ++ endingConstraint).hits last s = [] ∧ (blanks ++ atEnd).hits last s = [] := by
  simp only [hits_append, List.flatMap_eq_nil_iff, List.map_eq_nil_iff, hits_defaultEnd, List.append_eq_nil_iff]
  exact ⟨fun h => ⟨fun k hk => (h k hk).1, fun k hk => (h k hk).2⟩, fun h k hk => ⟨h.1 k hk, h.2 k hk⟩⟩

/-- Blanks at the end of a text are all that follows there. -/
theorem hits_blanks_atEnd (hc : c ∈ s) (hBlank : Text.isBlank c = false) : (blanks ++ atEnd).hits last s = [] := by
  rw [hits_append, List.flatMap_eq_nil_iff]
  intro k hk
  rw [List.map_eq_nil_iff]
  have hTaken := (of_mem_hits_many hk).2.2
  cases hRest : k.rest with
  | cons e r => rfl
  | nil =>
    -- the whole text would be blank
    have hText := text_append_rest hk
    rw [hRest, List.append_nil] at hText
    rw [← hText] at hc
    exact absurd (hTaken c hc) (by rw [hBlank]; exact Bool.false_ne_true)

/-- A text is passed over when no hit begins in it. -/
theorem textBefore_append (hq : q.Forward) (h : q.PassesOver last s t) :
    textBefore q (s ++ t) = (textBefore q t).map (s ++ ·) := by
  induction s generalizing last with
  | nil => simp
  | cons c s ih =>
    have hHere : q.hits none (c :: (s ++ t)) = [] := by
      rw [hq.hits_eq none last]
      exact h.1
    rw [List.cons_append, textBefore, hHere, ih h.2, Option.map_map]
    rfl

/-- Wherever a hit stands, the text before the first one is no longer. -/
theorem exists_textBefore (h : q.hits none t ≠ []) (s : List Char) :
    ∃ u, textBefore q (s ++ t) = some u ∧ u.length ≤ s.length := by
  have hSome : (q.hits none t).isEmpty = false := by simpa using h
  induction s with
  | nil =>
    refine ⟨[], ?_, le_rfl⟩
    cases t <;> rw [List.nil_append, textBefore, hSome, if_neg Bool.false_ne_true]
  | cons c s ih =>
    obtain ⟨u, hu, hLength⟩ := ih
    by_cases hHere : (q.hits none (c :: (s ++ t))).isEmpty = true
    · exact ⟨c :: u, by rw [List.cons_append, textBefore, if_pos hHere, hu]; rfl, by simpa using hLength⟩
    · exact ⟨[], by rw [List.cons_append, textBefore, if_neg hHere], by simp⟩

/-- No default ends in a text that holds no constraint and ends with no blank. -/
theorem textBefore_defaultEnd_eq_none (hs : ∀ c ∈ s.getLast?, Text.isBlank c = false) (h : holdsConstraint s = false) :
    textBefore (blanks ++ defaultEnd) s = none := by
  induction s with
  | nil => rfl
  | cons c s ih =>
    have hForward : (blanks ++ endingConstraint).Forward := ⟨trivial, forward_endingConstraint⟩
    rw [holdsConstraint, occursIn, Option.isSome_eq_false_iff, Option.isNone_iff_eq_none, find, findFrom,
      Option.or_eq_none_iff, here, List.head?_eq_none_iff] at h
    obtain ⟨hHere, hRest⟩ := h
    have hNone : holdsConstraint s = false := by
      rw [holdsConstraint, occursIn, find, ← hForward.findFrom_eq (some c), hRest]
      rfl
    have hEnd : (blanks ++ atEnd).hits none (c :: s) = [] := by
      have hLast := List.getLast?_eq_some_getLast (List.cons_ne_nil c s)
      exact hits_blanks_atEnd (List.mem_of_getLast? hLast) (hs _ hLast)
    have hTail : ∀ d ∈ s.getLast?, Text.isBlank d = false := fun d hd => hs d (by
      rw [List.getLast?_cons, hd]
      rfl)
    rw [textBefore, hits_blanks_defaultEnd_eq_nil_iff.2 ⟨hHere, hEnd⟩, ih hTail hNone]
    rfl

/-- A value that holds no constraint is passed over, whatever follows it. -/
theorem passesOver_value (hd : enclosesValue d = true) {m : List Char}
    (h : holdsConstraint (c :: (m ++ [d])) = false) (last : Option Char) (x : List Char) :
    (blanks ++ defaultEnd).PassesOver last (m ++ [d]) x := by
  have hForward : (blanks ++ endingConstraint).Forward := ⟨trivial, forward_endingConstraint⟩
  have hNone : (blanks ++ endingConstraint).findFrom last (m ++ [d]) = none := by
    have hFind : (blanks ++ endingConstraint).find (c :: (m ++ [d])) = none :=
      Option.isNone_iff_eq_none.1 (Option.isSome_eq_false_iff.1 h)
    exact findFrom_of_suffix hForward hFind (List.suffix_cons c _) last
  have hOver : (blanks ++ endingConstraint).PassesOver last (m ++ [d]) x :=
    passesOver_concat_of_avoids avoids_blanks_endingConstraint (refuses_blanks_enclosesValue _) hd hNone
  clear hNone h
  induction m generalizing last with
  | nil => exact ⟨hits_blanks_defaultEnd_eq_nil_iff.2 ⟨hOver.1,
      hits_blanks_atEnd List.mem_cons_self (isBlank_of_enclosesValue hd)⟩, trivial⟩
  | cons e m ih =>
    refine ⟨hits_blanks_defaultEnd_eq_nil_iff.2 ⟨hOver.1, ?_⟩, ih (some e) hOver.2⟩
    exact hits_blanks_atEnd (by simp) (isBlank_of_enclosesValue hd)

/-- A value that holds no constraint is all that is taken before a constraint. -/
theorem textFrom_value {v : List Char} (hv : IsValue v) (h : holdsConstraint v = false) (x : List Char) :
    textFrom (blanks ++ defaultEnd) (v ++ x) = (textBefore (blanks ++ defaultEnd) x).map (v ++ ·) := by
  obtain ⟨c, m, d, rfl, hc, hd⟩ := hv.exists_eq
  have hOver := passesOver_value hd h none x
  rw [List.cons_append, textFrom, textBefore_append endsDefault_defaultEnd.forward_append hOver, Option.map_map]
  rfl

/-- A value that holds a constraint is cut before it. -/
theorem textFrom_value_of_holds {v : List Char} (hv : IsValue v) (h : holdsConstraint v = true) (x : List Char) :
    ∃ u, textFrom (blanks ++ defaultEnd) (v ++ x) = some u ∧ u.length < v.length := by
  obtain ⟨c, m, d, rfl, hc, hd⟩ := hv.exists_eq
  obtain ⟨k, hFind⟩ := Option.isSome_iff_exists.1 h
  obtain ⟨a, b, hText, hMem⟩ := exists_of_findFrom_eq_some hFind
  -- no hit begins at the quote or parenthesis that comes first, or at the end
  have hAfter : ∃ e a', a = e :: a' := by
    cases a with
    | cons e a => exact ⟨e, a, rfl⟩
    | nil =>
      obtain rfl : b = c :: (m ++ [d]) := hText
      rw [refuses_blanks_enclosesValue _ _ c _ hc] at hMem
      exact absurd hMem List.not_mem_nil
  obtain ⟨e, a, rfl⟩ := hAfter
  obtain ⟨rfl, hRest⟩ : e = c ∧ a ++ b = m ++ [d] := List.cons.inj hText
  have hNonempty : b ≠ [] := by
    rintro rfl
    exact absurd hMem List.not_mem_nil
  have hHits : (blanks ++ defaultEnd).hits none (b ++ x) ≠ [] := by
    intro hNone
    have hConstraint := (hits_blanks_defaultEnd_eq_nil_iff.1 hNone).1
    -- the hit does not reach the end of the value
    obtain ⟨b, f, rfl⟩ : ∃ b' f, b = b' ++ [f] := (List.eq_nil_or_concat' b).resolve_left hNonempty
    obtain rfl : f = d := by
      have hLast := congrArg List.getLast? hRest
      rw [← List.append_assoc, List.getLast?_concat, List.getLast?_concat] at hLast
      exact Option.some_inj.1 hLast
    have hForward : (blanks ++ endingConstraint).Forward := ⟨trivial, forward_endingConstraint⟩
    rw [hForward.hits_eq _ none, hits_append_of_avoids avoids_blanks_endingConstraint b (by simpa using hd)] at hMem
    rw [List.append_assoc, hits_append_of_avoids avoids_blanks_endingConstraint b (by simpa using hd),
      List.map_eq_nil_iff] at hConstraint
    rw [hConstraint] at hMem
    exact absurd hMem List.not_mem_nil
  obtain ⟨u, hu, hLength⟩ := exists_textBefore hHits a
  refine ⟨e :: u, ?_, ?_⟩
  · rw [List.cons_append, textFrom, ← hRest, List.append_assoc, hu]
    rfl
  · have hLengths := congrArg List.length hRest
    have hPos := List.length_pos_of_ne_nil hNonempty
    simp only [List.length_append, List.length_cons] at hLengths ⊢
    omega

/-! ## The default of a definition -/

/-- What stands between the type and the value. -/
def defaultLead : List Char := [' '] ++ ("DEFAULT".toList ++ [' '])

theorem here_defaultWord (s : List Char) :
    defaultWord.hits (some ' ') ("DEFAULT".toList ++ s) = [⟨"DEFAULT".toList, [], s⟩] := by
  have hKeyword : (keyword "DEFAULT".toList).Takes empty "DEFAULT".toList [] s := takes_keyword (by decide) _ _
  have hEdge : wordEdge (some ' ') ("DEFAULT".toList ++ s) = true := rfl
  rw [defaultWord, hits_atWordEdge_append, if_pos hEdge, hKeyword.hits]

/-- The first DEFAULT is tried first. -/
theorem foundValue_defaultLead (hx : ∀ c ∈ x.head?, Text.isBlank c = false) :
    foundValue defaultEnd none (defaultLead ++ x) =
      (textFrom (blanks ++ defaultEnd) x).or
        (foundValue defaultEnd (some 'D') ("EFAULT".toList ++ ([' '] ++ x))) := by
  have hText : defaultLead ++ x = [' '] ++ ('D' :: ("EFAULT".toList ++ ([' '] ++ x))) := rfl
  rw [hText, foundValue_blanks (by decide), endsDefault_defaultEnd.foundValue_cons]
  have hHere : valueHere defaultEnd (some ' ') ('D' :: ("EFAULT".toList ++ ([' '] ++ x))) =
      textFrom (blanks ++ defaultEnd) x := by
    have hWord := here_defaultWord ([' '] ++ x)
    rw [valueHere, here, show 'D' :: ("EFAULT".toList ++ ([' '] ++ x)) = "DEFAULT".toList ++ ([' '] ++ x) from rfl,
      hWord]
    exact endsDefault_defaultEnd.valueAfter_singleton (by decide) hx
  rw [show lastOf none [' '] = some ' ' from rfl, hHere]

/-- Where nothing ends a default, none is found before a constraint. -/
theorem foundValue_eq_none (h : (blanks ++ defaultEnd).findFrom last s = none) :
    foundValue defaultEnd last s = none := by
  have hNone : (defaultWord ++ defaultValue defaultEnd).findFrom last s = none :=
    findFrom_append_of_right (findFrom_append_of_right (findFrom_append_of_right h))
  rw [foundValue, hNone, Option.map_none]

/-- At the end of the definition, a value that holds no constraint is not found before one. -/
theorem foundValue_value {v : List Char} (hv : IsValue v) (h : holdsConstraint v = false) :
    foundValue defaultEnd none (defaultLead ++ v) = none := by
  obtain ⟨c, m, d, rfl, hc, hd⟩ := hv.exists_eq
  have hBlank := isBlank_of_enclosesValue hc
  -- no hit begins in front of the value
  have hLead : (blanks ++ defaultEnd).PassesOver none defaultLead (c :: (m ++ [d])) := by
    have hRefuses : (blanks ++ defaultEnd).Refuses fun c => !Text.isBlank c :=
      (refuses_many fun c hc => by simpa using hc).append _
    have hSpace : ∀ last x, (∀ e ∈ x.head?, Text.isBlank e = false) → defaultEnd.hits none x = [] →
        (blanks ++ defaultEnd).PassesOver last [' '] x := by
      intro last x hx hNone
      refine ⟨?_, trivial⟩
      have hHits : (blanks ++ defaultEnd).hits last ([' '] ++ x) = _ :=
        endsDefault_defaultEnd.hits_blanks_append (by simp) (by decide) hx
      rw [show ' ' :: ([] ++ x) = [' '] ++ x from rfl, hHits, hNone, List.map_nil]
    have hValue : defaultEnd.hits none (c :: (m ++ [d])) = [] := by
      rw [hits_defaultEnd]
      rcases eq_of_enclosesValue hc with rfl | rfl | rfl <;> rfl
    refine (hSpace none _ (by simp; decide) (by rfl)).append (PassesOver.append ?_ ?_)
    · exact hRefuses.passesOver (by decide)
    · exact hSpace _ _ (by simpa using hBlank) hValue
  have hFirst : (blanks ++ defaultEnd).PassesOver (lastOf none defaultLead) [c] (m ++ [d]) :=
    ⟨refuses_blanks_enclosesValue _ _ c _ hc, trivial⟩
  have hRest := passesOver_value hd h (some c) []
  refine foundValue_eq_none ?_
  have hLast : lastOf (lastOf none defaultLead) [c] = some c := rfl
  rw [findFrom_append hLead, show c :: (m ++ [d]) = [c] ++ (m ++ [d]) from rfl, findFrom_append hFirst, hLast,
    ← List.append_nil (m ++ [d]), findFrom_append hRest]
  rfl

/-- A last word that ends the text. -/
def lastWord : Pattern := group 1 (many (fun c => !Text.isBlank c) .longest) ++ (gap ++ atEnd)

theorem findFrom_defaultAtEnd (last : Option Char) (s : List Char) :
    defaultAtEnd.findFrom last s = (defaultWord ++ (blanks ++ lastWord)).findFrom last s := by
  have hShape : defaultAtEnd =
      defaultWord ++ blanks ++ group 1 (many (fun c => !Text.isBlank c) .longest) ++ gap ++ atEnd := rfl
  rw [hShape, findFrom_append_assoc, findFrom_append_assoc, findFrom_append_assoc]
  rfl

theorem find_defaultAtEnd_eq (s : List Char) : defaultAtEnd.find s = (defaultWord ++ (blanks ++ lastWord)).find s :=
  findFrom_defaultAtEnd none s

/-- A word at the end of the text is taken as a whole. -/
theorem hits_lastWord {v : List Char} (hNonempty : v ≠ []) (hv : ∀ c ∈ v, Text.isBlank c = false)
    (last : Option Char) : lastWord.hits last v = [⟨v, [(1, v)], []⟩] := by
  have hSolid : ∀ c ∈ v, (!Text.isBlank c) = true := fun c hc => by simp [hv c hc]
  have hEnd : (gap ++ atEnd).Refuses fun c => !Text.isBlank c := by
    refine (refuses_many fun c hc => by simpa using hc).maybe_append fun _ c r _ => ?_
    simp [hits]
  have hValue : (group 1 (many (fun c => !Text.isBlank c) .longest)).Takes (gap ++ atEnd) v [(1, v)] [] :=
    takes_group_many 1 hNonempty hSolid (by simp) hEnd
  have hHits := hValue last
  have hDone : (gap ++ atEnd).hits (lastOf last v) [] = [⟨[], [], []⟩] := rfl
  rw [List.append_nil, hDone] at hHits
  rw [lastWord, hHits]
  simp [Hit.andThen]

/-- A value without blanks is the last word of its definition. -/
theorem find_defaultAtEnd_value {v : List Char} (hNonempty : v ≠ []) (hv : ∀ c ∈ v, Text.isBlank c = false) :
    (defaultAtEnd.find (defaultLead ++ v)).map (·.groupText 1) = some v := by
  have hText : defaultLead ++ v = [' '] ++ ("DEFAULT".toList ++ ([' '] ++ v)) := rfl
  have hBlanks : blanks.Takes lastWord [' '] [] v := takes_space (fun c hc => hv c (List.mem_of_mem_head? hc)) _
  have hHere : (defaultWord ++ (blanks ++ lastWord)).here (some ' ') ("DEFAULT".toList ++ ([' '] ++ v)) =
      some ⟨"DEFAULT".toList ++ ([' '] ++ v), [(1, v)], []⟩ := by
    rw [here, hits_append_of_singleton (here_defaultWord _), hBlanks, hits_lastWord hNonempty hv]
    rfl
  have hSpace : (defaultWord ++ (blanks ++ lastWord)).PassesOver none [' '] ("DEFAULT".toList ++ ([' '] ++ v)) :=
    (refuses_defaultWord.append _).passesOver (by decide)
  have hLast : lastOf none [' '] = some ' ' := rfl
  rw [find_defaultAtEnd_eq, hText, find, findFrom_append hSpace, hLast, findFrom_of_here hHere]
  rfl

theorem IsValue.trim_eq {v : List Char} (hv : IsValue v) : Text.trim v = v := by
  obtain ⟨c, m, d, rfl, hc, hd⟩ := hv.exists_eq
  refine Text.trim_eq_self (by simpa using isBlank_of_enclosesValue hc) ?_
  rw [← List.cons_append, List.getLast?_concat]
  simpa using isBlank_of_enclosesValue hd

theorem IsValue.isBlank_head {v : List Char} (hv : IsValue v) (x : List Char) :
    ∀ c ∈ (v ++ x).head?, Text.isBlank c = false := by
  obtain ⟨c, m, d, rfl, hc, -⟩ := hv.exists_eq
  simpa using isBlank_of_enclosesValue hc

/-- What is read of a value that holds a constraint is shorter than the value. -/
theorem defaultIn_value_of_holds {v : List Char} (hv : IsValue v) (h : holdsConstraint v = true) (x : List Char) :
    ∃ u, defaultIn (defaultLead ++ (v ++ x)) = some u ∧ u.length < v.length := by
  obtain ⟨u, hu, hLength⟩ := textFrom_value_of_holds hv h x
  refine ⟨Text.trim u, ?_, (Text.length_trim_le u).trans_lt hLength⟩
  rw [defaultIn_eq, foundValue_defaultLead (hv.isBlank_head x), hu, Option.some_or, Option.some_or]
  rfl

/-- A value before NOT NULL is read whole exactly when it holds no constraint. -/
theorem defaultIn_value_notNull {v : List Char} (hv : IsValue v) :
    defaultIn (defaultLead ++ (v ++ " NOT NULL".toList)) = some v ↔ holdsConstraint v = false := by
  cases h : holdsConstraint v with
  | true =>
    obtain ⟨u, hu, hLength⟩ := defaultIn_value_of_holds hv h " NOT NULL".toList
    refine iff_of_false (fun hEq => ?_) (by decide)
    obtain rfl : u = v := Option.some_inj.1 (hu.symm.trans hEq)
    exact lt_irrefl _ hLength
  | false =>
    refine iff_of_true ?_ rfl
    have hEnd : textBefore (blanks ++ defaultEnd) " NOT NULL".toList = some [] := by decide
    rw [defaultIn_eq, foundValue_defaultLead (hv.isBlank_head _), textFrom_value hv h, hEnd]
    show some (Text.trim (v ++ [])) = some v
    rw [List.append_nil, hv.trim_eq]

/-- Blanks stand before the constraint that a value holds. -/
theorem exists_blank_of_holdsConstraint (h : holdsConstraint s = true) : ∃ c ∈ s, Text.isBlank c = true := by
  obtain ⟨k, hFind⟩ := Option.isSome_iff_exists.1 h
  obtain ⟨a, b, rfl, hMem⟩ := exists_of_findFrom_eq_some hFind
  obtain ⟨n, m, hn, -, -⟩ := exists_of_mem_hits_append hMem
  obtain ⟨-, hNonempty, hBlank⟩ := of_mem_hits_many hn
  obtain ⟨c, t, hText⟩ := List.exists_cons_of_ne_nil hNonempty
  refine ⟨c, ?_, hBlank c (by simp [hText])⟩
  rw [← text_append_rest hn, hText]
  simp

/-- A value at the end of the definition is read whole exactly when it holds no blank. -/
theorem defaultIn_value_end {v : List Char} (hv : IsValue v) :
    defaultIn (defaultLead ++ v) = some v ↔ ∀ c ∈ v, Text.isBlank c = false := by
  cases h : holdsConstraint v with
  | true =>
    obtain ⟨u, hu, hLength⟩ := defaultIn_value_of_holds hv h []
    rw [List.append_nil] at hu
    refine iff_of_false (fun hEq => ?_) fun hSolid => ?_
    · obtain rfl : u = v := Option.some_inj.1 (hu.symm.trans hEq)
      exact lt_irrefl _ hLength
    · obtain ⟨c, hc, hBlank⟩ := exists_blank_of_holdsConstraint h
      rw [hSolid c hc] at hBlank
      exact Bool.false_ne_true hBlank
  | false =>
    rw [defaultIn_eq, foundValue_value hv h, Option.none_or]
    constructor
    · intro hEq
      obtain ⟨t, ht, hTrim⟩ := Option.map_eq_some_iff.1 hEq
      obtain ⟨k, hFind, rfl⟩ := Option.map_eq_some_iff.1 ht
      have hSolid := (groupText_defaultAtEnd hFind).2
      rw [Text.trim_of_forall hSolid] at hTrim
      exact hTrim ▸ hSolid
    · intro hSolid
      obtain ⟨c, m, d, hEq, -, -⟩ := hv.exists_eq
      rw [find_defaultAtEnd_value (by simp [hEq]) hSolid, Option.map_some, hv.trim_eq]

/-! ## The column of a definition -/

theorem map_ofList_inj {a b : Option (List Char)} : a.map String.ofList = b.map String.ofList ↔ a = b :=
  (Option.map_injective fun _ _ h => String.ofList_inj.1 h).eq_iff

/-- A definition that ends with no blank is read as a column, with the default that is found after its type. -/
theorem readColumn?_words {n t : List Char} (hn : n ≠ []) (hName : ∀ c ∈ n, Text.isWordChar c = true) (ht : t ≠ [])
    (hType : ∀ c ∈ t, Text.isWordChar c = true) (hs : ∀ c ∈ s.head?, Text.isWordChar c = false)
    (hLast : ∀ c ∈ s.getLast?, Text.isBlank c = false) :
    readColumn? (n ++ ([' '] ++ (t ++ s))) =
      some (columnOf ⟨n ++ [' '] ++ t, [(1, n), (2, t)], s⟩) := by
  have hTrim : Text.trim (n ++ ([' '] ++ (t ++ s))) = n ++ ([' '] ++ (t ++ s)) := by
    refine Text.trim_eq_self (Text.isBlank_head_append hn hName _) ?_
    rw [← List.append_assoc, ← List.append_assoc]
    refine Text.isBlank_getLast_append (fun c hc => ?_) hLast
    rw [List.getLast?_append_of_ne_nil _ ht] at hc
    exact Text.isBlank_of_isWordChar (hType c (List.mem_of_getLast? hc))
  rw [readColumn?_eq, hTrim, find_columnHead hn hName ht hType hs, Option.map_some]

/-- A literal default, or one in parentheses, always gives a column. At the end of the definition the default is the
whole value exactly when no blank is in it, and before NOT NULL exactly when no constraint word comes after
blanks in it. -/
theorem readColumn?_value {n t v : List Char} (hn : n ≠ []) (hName : ∀ c ∈ n, Text.isWordChar c = true) (ht : t ≠ [])
    (hType : ∀ c ∈ t, Text.isWordChar c = true) (hv : IsValue v) :
    (∃ c, readColumn? (n ++ [' '] ++ t ++ " DEFAULT ".toList ++ v) = some c ∧
      (c.defaultValue = some (String.ofList v) ↔ ∀ d ∈ v, Text.isBlank d = false)) ∧
    (∃ c, readColumn? (n ++ [' '] ++ t ++ " DEFAULT ".toList ++ v ++ " NOT NULL".toList) = some c ∧
      (c.defaultValue = some (String.ofList v) ↔ holdsConstraint v = false)) := by
  have hColumn : ∀ x : List Char, (∀ c ∈ (v ++ x).getLast?, Text.isBlank c = false) →
      ∃ c, readColumn? (n ++ [' '] ++ t ++ " DEFAULT ".toList ++ (v ++ x)) = some c ∧
        c.defaultValue = (defaultIn (defaultLead ++ (v ++ x))).map String.ofList := by
    intro x hx
    have hText : n ++ [' '] ++ t ++ " DEFAULT ".toList ++ (v ++ x) =
        n ++ ([' '] ++ (t ++ (defaultLead ++ (v ++ x)))) := by simp [defaultLead]
    have hHead : ∀ c ∈ (defaultLead ++ (v ++ x)).head?, Text.isWordChar c = false := by
      rw [show (defaultLead ++ (v ++ x)).head? = some ' ' from rfl]
      decide
    have hLast : ∀ c ∈ (defaultLead ++ (v ++ x)).getLast?, Text.isBlank c = false := by
      obtain ⟨e, m, d, rfl, -, -⟩ := hv.exists_eq
      rwa [List.getLast?_append_of_ne_nil _ (by simp)]
    refine ⟨columnOf ⟨n ++ [' '] ++ t, [(1, n), (2, t)], defaultLead ++ (v ++ x)⟩, ?_, ?_⟩
    · rw [hText, readColumn?_words hn hName ht hType hHead hLast]
    · rw [columnOf]
  have hWhole : ∀ o : Option (List Char), o.map String.ofList = some (String.ofList v) ↔ o = some v :=
    fun _ => map_ofList_inj (b := some v)
  refine ⟨?_, ?_⟩
  · have hLast : ∀ c ∈ (v ++ []).getLast?, Text.isBlank c = false := by
      obtain ⟨e, m, d, rfl, -, hd⟩ := hv.exists_eq
      rw [List.append_nil, ← List.cons_append, List.getLast?_concat]
      simpa using isBlank_of_enclosesValue hd
    obtain ⟨c, hc, hDefault⟩ := hColumn [] hLast
    rw [List.append_nil] at hc hDefault
    exact ⟨c, hc, by rw [hDefault, hWhole, defaultIn_value_end hv]⟩
  · have hLast : ∀ c ∈ (v ++ " NOT NULL".toList).getLast?, Text.isBlank c = false := by
      rw [List.getLast?_append_of_ne_nil _ (by decide)]
      decide
    obtain ⟨c, hc, hDefault⟩ := hColumn " NOT NULL".toList hLast
    rw [← List.append_assoc] at hc
    exact ⟨c, hc, by rw [hDefault, hWhole, defaultIn_value_notNull hv]⟩

/-- A literal with a doubled quote, and one that holds a constraint. -/
theorem readColumn?_value_status :
    (∃ c, readColumn? "status TEXT DEFAULT 'it''s'".toList = some c ∧
      (c.defaultValue = some "'it''s'" ↔ ∀ d ∈ "'it''s'".toList, Text.isBlank d = false)) ∧
    (∃ c, readColumn? "status TEXT DEFAULT 'it''s' NOT NULL".toList = some c ∧
      (c.defaultValue = some "'it''s'" ↔ holdsConstraint "'it''s'".toList = false)) :=
  readColumn?_value (n := "status".toList) (t := "TEXT".toList) (by decide) (by decide) (by decide) (by decide)
    (.literal "it's".toList)

/-- A literal with a blank is lost at the end of a definition. -/
theorem readColumn?_value_blank :
    IsValue "'x y'".toList ∧
      (readColumn? "a TEXT DEFAULT 'x y'".toList).map (·.defaultValue) = some none := by
  exact ⟨.literal "x y".toList, by decide +kernel⟩

end SqlSurvey.Ddl
