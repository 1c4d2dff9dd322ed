import SqlSurvey.Proofs.Ddl.Reference

/-!
# Defaults around a reference

A default that a constraint ends before the reference of its column is read the same whatever the reference is, and
so is one behind the reference. A default that is still open where the reference begins goes on in it, up to the first
constraint there. Of the whole reference the default depends on that part alone.
-/

namespace SqlSurvey.Ddl

open Pattern

variable {last : Option Char} {c d : Char} {a s x y : List Char}

/-- The word that begins a default and the blanks after it. -/
def defaultOpening : Pattern := defaultWord ++ blanks

/-- The first default of a text, if there is one, is ended there by a constraint. -/
def DefaultClosed (last : Option Char) (s : List Char) : Prop :=
  ∀ h ∈ defaultOpening.findFrom last s, (textFrom (blanks ++ endingConstraint) h.rest).isSome = true

instance (last : Option Char) (s : List Char) : Decidable (DefaultClosed last s) :=
  inferInstanceAs (Decidable (∀ h ∈ defaultOpening.findFrom last s, (textFrom _ h.rest).isSome = true))

theorem avoids_defaultWord_blank : defaultWord.Avoids Text.isBlank :=
  ⟨fun _ hd => Text.isWordChar_of_isBlank hd, avoids_keyword_blank (by decide)⟩

theorem here_defaultOpening (last : Option Char) (s : List Char) : defaultOpening.here last s =
    (defaultWord.here last s).bind fun h => (blanks.hits none h.rest).head?.map h.andThen := by
  rw [defaultOpening, here, here]
  rcases hits_defaultWord last s with hNone | ⟨t, r, hOne⟩
  · rw [hits_append_eq_nil hNone, hNone]
    rfl
  · rw [hits_append_of_singleton hOne, hOne, List.head?_map]
    rfl

/-! ## Texts that go on

A text is cut, and `o` is what a default that is open at the cut takes behind it.
-/

section

variable (o : Option (List Char))

/-- A value up to a constraint before the cut, or else over the cut. -/
def openFrom (x : List Char) : Option (List Char) := (textFrom (blanks ++ endingConstraint) x).or (o.map (x ++ ·))

/-- The value after the word. -/
def openAfter (r : List Char) : Option (List Char) := (blanks.hits none r).findSome? fun k => openFrom o k.rest

/-- The value of the first default that begins before the cut. -/
def openValue : Option Char → List Char → Option (List Char)
  | _, [] => none
  | last, c :: r => ((defaultWord.here last (c :: r)).bind fun h => openAfter o h.rest).or (openValue (some c) r)

/-- A default that is closed before the cut takes nothing behind it. -/
theorem openValue_of_closed (o' : Option (List Char)) (h : DefaultClosed last x) :
    openValue o last x = openValue o' last x := by
  induction x generalizing last with
  | nil => rfl
  | cons d x ih =>
    rw [DefaultClosed, findFrom, here_defaultOpening] at h
    rw [openValue, openValue]
    cases hWord : defaultWord.here last (d :: x) with
    | none =>
      rw [hWord, Option.bind_none, Option.none_or] at h
      rw [Option.bind_none, Option.bind_none, Option.none_or, Option.none_or, ih h]
    | some k =>
      rw [hWord, Option.bind_some] at h
      rw [Option.bind_some, Option.bind_some, openAfter, openAfter]
      cases hBlanks : blanks.hits none k.rest with
      | nil =>
        rw [hBlanks, List.head?_nil, Option.map_none, Option.none_or] at h
        rw [List.findSome?_nil, List.findSome?_nil, Option.none_or, Option.none_or, ih h]
      | cons m ms =>
        rw [hBlanks, List.head?_cons, Option.map_some, Option.some_or] at h
        obtain ⟨v, hv⟩ : ∃ v, textFrom (blanks ++ endingConstraint) m.rest = some v :=
          Option.isSome_iff_exists.1 (h (k.andThen m) rfl)
        rw [List.findSome?_cons, List.findSome?_cons, openFrom, openFrom, hv]
        rfl

end

/-! ## Where the value ends -/

section

variable (ref : WrittenReference)

/-- What a default takes that is still open where the reference begins. -/
def WrittenReference.taken (s : List Char) : Option (List Char) := textBefore (blanks ++ defaultEnd) (ref.clause ++ s)

/-- It takes nothing when no constraint comes in the reference or behind it. -/
theorem WrittenReference.taken_eq_none (hs : ∀ d ∈ s.getLast?, Text.isBlank d = false)
    (h : holdsConstraint (ref.clause ++ s) = false) : ref.taken s = none :=
  textBefore_defaultEnd_eq_none (Text.isBlank_getLast_append ref.isBlank_getLast_clause hs) h

/-- Nothing that ends a default depends on a reference behind the blanks. -/
theorem settledBefore_endingConstraint (hc : Text.isBlank c = true) (s : List Char) :
    (blanks ++ endingConstraint).SettledBefore c (ref.clause ++ s) := by
  have hLetters : ∀ word ∈ ["NOT", "NULL", "PRIMARY", "FOREIGN", "UNIQUE", "CHECK"], IsKeyword word ∧
      "REFERENCES".toList.head?.map Text.lowerAscii ≠ word.toList.head?.map Text.lowerAscii := by decide
  have hHere : ∀ word ∈ ["NOT", "NULL", "PRIMARY", "FOREIGN", "UNIQUE", "CHECK"], ∀ last,
      (keyword word.toList).hits last (ref.clause ++ s) = [] := fun word hWord last =>
    ref.hits_keyword_clause (hLetters word hWord).1 (hLetters word hWord).2 last s
  have hSettled : ∀ word ∈ ["NOT", "NULL", "PRIMARY", "FOREIGN", "UNIQUE", "CHECK"],
      (keyword word.toList).SettledBefore c (ref.clause ++ s) := fun word hWord =>
    settledBefore_of_avoids (avoids_keyword_blank (hLetters word hWord).1) hc _
  have hPhrase : (phrase "NOT" ["NULL"]).SettledBefore c (ref.clause ++ s) :=
    settledBefore_append_blanks_append (avoids_keyword_blank (by decide)) (avoids_keyword_blank (by decide)) hc
      (ref.isBlank_head_clause s) (hHere "NULL" (by decide)) fun _ => rfl
  have hEnd : endingConstraint.SettledBefore c (ref.clause ++ s) :=
    hPhrase.either ((hSettled _ (by decide)).either ((hSettled _ (by decide)).either ((hSettled _ (by decide)).either
      (hSettled _ (by decide)))))
  refine (settledBefore_many .longest c (ref.isBlank_head_clause s)).append hEnd (fun last => ?_) fun _ => rfl
  have hNot : (phrase "NOT" ["NULL"]).hits last (ref.clause ++ s) = [] :=
    hits_append_eq_nil (hits_append_eq_nil (hHere "NOT" (by decide) last))
  rw [endingConstraint, hits_either, hits_either, hits_either, hits_either, hNot, hHere "PRIMARY" (by decide),
    hHere "FOREIGN" (by decide), hHere "UNIQUE" (by decide), hHere "CHECK" (by decide)]
  rfl

/-- At each place before the reference a default ends, or not, as it does without the reference. -/
theorem hits_defaultEnd_eq_nil_iff (hc : Text.isBlank c = true) (s : List Char) :
    (blanks ++ defaultEnd).hits last (a ++ c :: (ref.clause ++ s)) = [] ↔
      (blanks ++ endingConstraint).hits last (a ++ [c]) = [] := by
  obtain ⟨d, w, hWord⟩ := List.exists_cons_of_ne_nil (ref.references.ne_nil (by decide))
  have hSolid := ref.references.isBlank_head (by decide) []
  rw [hWord] at hSolid
  have hMem : d ∈ a ++ c :: (ref.clause ++ s) := by simp [WrittenReference.clause, hWord]
  rw [hits_blanks_defaultEnd_eq_nil_iff, settledBefore_endingConstraint ref hc s, List.map_eq_nil_iff,
    and_iff_left (hits_blanks_atEnd hMem (hSolid d rfl))]

/-- A value ends before the reference, or where a default that is open there ends. -/
theorem textBefore_clause (hc : Text.isBlank c = true) (a s : List Char) :
    textBefore (blanks ++ defaultEnd) (a ++ c :: (ref.clause ++ s)) =
      (textBefore (blanks ++ endingConstraint) (a ++ [c])).or ((ref.taken s).map ((a ++ [c]) ++ ·)) := by
  induction a with
  | nil =>
    -- a blank alone is followed by no constraint
    have hHits : (blanks ++ endingConstraint).hits none [c] = [] := by
      rw [hits_append]
      simp [blanks, hits, runHits, hc, show ∀ last, endingConstraint.hits last [] = [] from fun _ => rfl]
    have hSame : (blanks ++ defaultEnd).hits none (c :: (ref.clause ++ s)) = [] :=
      (hits_defaultEnd_eq_nil_iff (a := []) ref hc s).2 hHits
    rw [List.nil_append, textBefore, hSame, List.nil_append, textBefore, hHits]
    rfl
  | cons d a ih =>
    have hSame : (blanks ++ defaultEnd).hits none (d :: (a ++ c :: (ref.clause ++ s))) = [] ↔
        (blanks ++ endingConstraint).hits none (d :: (a ++ [c])) = [] :=
      hits_defaultEnd_eq_nil_iff (a := d :: a) ref hc s
    rw [List.cons_append, List.cons_append, textBefore, textBefore]
    by_cases hHere : (blanks ++ endingConstraint).hits none (d :: (a ++ [c])) = []
    · rw [hSame.2 hHere, hHere, List.isEmpty_nil, if_pos rfl, if_pos rfl, ih, Option.map_or, Option.map_map]
      rfl
    · have hOther := fun hNil => hHere (hSame.1 hNil)
      rw [if_neg (by simpa using hOther), if_neg (by simpa using hHere), Option.some_or]

theorem textFrom_clause (hc : Text.isBlank c = true) (hx : x <:+ a ++ [c]) (s : List Char) :
    textFrom (blanks ++ defaultEnd) (x ++ (ref.clause ++ s)) = openFrom (ref.taken s) x := by
  rcases List.suffix_concat_iff.1 hx with rfl | ⟨b, rfl, -⟩
  · -- nothing ends a default where the reference begins
    obtain ⟨d, r, hText⟩ : ∃ d r, ref.clause ++ s = d :: r :=
      List.exists_cons_of_ne_nil (by simp [WrittenReference.clause])
    have hSolid := ref.isBlank_head_clause s
    rw [hText] at hSolid
    have hTaken : ref.taken s = (textBefore (blanks ++ defaultEnd) r).map (d :: ·) := by
      rw [WrittenReference.taken, hText, endsDefault_defaultEnd.textBefore_cons (hSolid d rfl)]
    rw [List.nil_append, hText, textFrom, ← hTaken, openFrom, textFrom, Option.none_or]
    simp
  · rw [List.append_assoc, List.singleton_append, openFrom]
    cases b with
    | nil =>
      rw [List.nil_append, List.nil_append, textFrom, textFrom]
      rfl
    | cons d b =>
      rw [List.cons_append, List.cons_append, textFrom, textFrom, textBefore_clause ref hc, Option.map_or,
        Option.map_map]
      rfl

/-! ## The first default -/

theorem hits_blanks_clause (hx : x <:+ a ++ [c]) (s : List Char) :
    blanks.hits none (x ++ (ref.clause ++ s)) = (blanks.hits none x).map (extend (ref.clause ++ s)) := by
  rcases List.suffix_concat_iff.1 hx with rfl | ⟨b, rfl, -⟩
  · exact hits_blanks_eq_nil (ref.isBlank_head_clause s) none
  · rw [List.append_assoc]
    exact settledBefore_many .longest c (ref.isBlank_head_clause s) none b

theorem valueAfter_clause (hc : Text.isBlank c = true) (hx : x <:+ a ++ [c]) (s : List Char) :
    valueAfter defaultEnd (x ++ (ref.clause ++ s)) = openAfter (ref.taken s) x := by
  rw [endsDefault_defaultEnd.valueAfter_eq, hits_blanks_clause ref hx, List.findSome?_map, openAfter,
    ← List.head?_filterMap, ← List.head?_filterMap]
  refine congrArg List.head? (List.filterMap_congr fun k hk => ?_)
  exact textFrom_clause ref hc (List.IsSuffix.trans ⟨k.text, text_append_rest hk⟩ hx) s

theorem valueHere_clause (hc : Text.isBlank c = true) (a s : List Char) :
    valueHere defaultEnd last (a ++ c :: (ref.clause ++ s)) =
      (defaultWord.here last (a ++ [c])).bind fun h => openAfter (ref.taken s) h.rest := by
  rw [valueHere, here, here, settledBefore_of_avoids avoids_defaultWord_blank hc (ref.clause ++ s) last a,
    List.head?_map, Option.bind_map]
  refine Option.bind_congr fun k hk => ?_
  exact valueAfter_clause ref hc ⟨k.text, text_append_rest (List.mem_of_mem_head? hk)⟩ s

/-- The value that is found is that of the first default before the reference, or one behind it. -/
theorem foundValue_clause (hc : Text.isBlank c = true) (last : Option Char) (a s : List Char) :
    foundValue defaultEnd last (a ++ c :: (ref.clause ++ s)) =
      (openValue (ref.taken s) last (a ++ [c])).or (foundValue defaultEnd (some c) (ref.clause ++ s)) := by
  induction a generalizing last with
  | nil =>
    have hWord : defaultWord.here last [c] = none := by rw [here, refuses_defaultWord last c [] hc, List.head?_nil]
    have hBlank := foundValue_blanks (e := defaultEnd) (w := [c]) (by simpa using hc) last (ref.clause ++ s)
    rw [List.nil_append, List.nil_append, openValue, hWord, Option.bind_none, Option.none_or, openValue, Option.none_or]
    exact hBlank
  | cons d a ih =>
    rw [List.cons_append, List.cons_append, endsDefault_defaultEnd.foundValue_cons, ← List.cons_append,
      valueHere_clause ref hc (d :: a) s, ih, ← Option.or_assoc, List.cons_append, openValue]

/-! ## The last word -/

/-- No last word goes over blanks. -/
theorem hits_lastWord_eq_nil (hc : Text.isBlank c = true) (hd : d ∈ y) (hSolid : Text.isBlank d = false)
    (last : Option Char) (x : List Char) : lastWord.hits last (x ++ c :: y) = [] := by
  refine List.eq_nil_iff_forall_not_mem.2 fun h hh => ?_
  obtain ⟨n, w, hn, hw, rfl⟩ := exists_of_mem_hits_append hh
  obtain ⟨g, e, hg, he, rfl⟩ := exists_of_mem_hits_append hw
  -- the blanks behind the word go to the end of the text
  have hBlank : ∀ b ∈ g.text, Text.isBlank b = true := by
    rcases List.mem_append.1 hg with hMany | hNone
    · exact (of_mem_hits_many hMany).2.2
    · rw [hits_empty, List.mem_singleton] at hNone
      simp [hNone]
  have hRest : g.rest = [] := by
    cases hRest : g.rest with
    | nil => rfl
    | cons b r => simp [hRest, hits] at he
  have hText : n.text ++ g.text = x ++ c :: y := by
    rw [← text_append_rest hn, ← text_append_rest hg, hRest, List.append_nil]
  have hWord : ∀ b ∈ n.text, Text.isBlank b = false := by
    obtain ⟨m, hm, rfl⟩ := List.mem_map.1 hn
    simpa using (of_mem_hits_many hm).2.2
  have hNot : d ∉ g.text := fun hMem => by
    rw [hBlank d hMem] at hSolid
    cases hSolid
  rcases List.append_eq_append_iff.1 hText with ⟨u, -, hBehind⟩ | ⟨u, hBefore, hBehind⟩
  · exact hNot (by rw [hBehind]; simp [hd])
  · cases u with
    | nil => exact hNot (by rw [← List.nil_append g.text, ← hBehind]; simp [hd])
    | cons b u =>
      obtain rfl := (List.cons.inj hBehind).1
      rw [hWord c (by rw [hBefore]; simp)] at hc
      cases hc

/-- So none begins before the reference. -/
theorem hits_lastWord_clause (last : Option Char) (x s : List Char) : lastWord.hits last (x ++ (ref.clause ++ s)) = [] := by
  obtain ⟨b, w, hSpace⟩ := List.exists_cons_of_ne_nil ref.referencesEnd.nonempty
  obtain ⟨d, n, hName⟩ := List.exists_cons_of_ne_nil ref.table.isSolid.1
  have hText : x ++ (ref.clause ++ s) = (x ++ ref.references.text) ++ b :: (w ++ (d :: n ++ (ref.tableEnd.text ++
      (['('] ++ (ref.column.text ++ [')']))) ++ s)) := by simp [WrittenReference.clause, hSpace, hName]
  rw [hText]
  refine hits_lastWord_eq_nil (ref.referencesEnd.blank b (by simp [hSpace])) (d := d) (by simp) ?_ last _
  exact ref.table.isSolid.head [] d (by simp [hName])

theorem passesOver_lastWord (hc : Text.isBlank c = true) (last : Option Char) (a s : List Char) :
    (defaultWord ++ (blanks ++ lastWord)).PassesOver last (a ++ [c]) (ref.clause ++ s) := by
  have hHits : ∀ last a, (defaultWord ++ (blanks ++ lastWord)).hits last (a ++ c :: (ref.clause ++ s)) = [] := by
    intro last a
    rw [← hits_append_assoc, hits_append,
      settledBefore_append_blanks avoids_defaultWord_blank hc (ref.isBlank_head_clause s), List.flatMap_eq_nil_iff]
    intro k hk
    obtain ⟨m, -, rfl⟩ := List.mem_map.1 hk
    rw [List.map_eq_nil_iff]
    exact hits_lastWord_clause ref _ m.rest s
  induction a generalizing last with
  | nil => exact ⟨hHits last [], trivial⟩
  | cons d a ih =>
    refine ⟨?_, ih (some d)⟩
    rw [← List.cons_append, List.append_eq, ← List.cons_append, List.append_assoc]
    exact hHits last (d :: a)

/-! ## Both searches -/

/-- Both searches for a default. -/
def defaultFrom (last : Option Char) (s : List Char) : Option (List Char) :=
  (foundValue defaultEnd last s).or ((defaultAtEnd.findFrom last s).map (·.groupText 1))

/-- Around a reference, the default is that of the first default before it, or else the one behind it. -/
theorem defaultIn_append_reference (u s : List Char) : defaultIn (u ++ (ref.text ++ s)) =
    ((openValue (ref.taken s) none (u ++ ref.start.text)).or (defaultFrom (some ')') s)).map Text.trim := by
  obtain ⟨b, c, hStart, hc⟩ := ref.exists_start
  have hText : u ++ (ref.text ++ s) = (u ++ b) ++ c :: (ref.clause ++ s) := by simp [WrittenReference.text, hStart]
  have hBefore : u ++ ref.start.text = (u ++ b) ++ [c] := by simp [hStart]
  have hFound : foundValue defaultEnd (some c) (ref.clause ++ s) = foundValue defaultEnd (some ')') s := by
    have hOver := ref.passesOver_clause_default (lazily (blanks ++ defaultEnd)) (some c) s
    rw [← passesOver_append_assoc] at hOver
    rw [foundValue, foundValue, defaultWord, defaultValue, findFrom_append hOver, ref.lastOf_clause]
  have hLast : defaultAtEnd.find ((u ++ b) ++ c :: (ref.clause ++ s)) = defaultAtEnd.findFrom (some ')') s := by
    have hOver := ref.passesOver_clause_default lastWord (some c) s
    have hBegin : lastOf none ((u ++ b) ++ [c]) = some c := by simp [lastOf]
    rw [← passesOver_append_assoc] at hOver
    rw [find, findFrom_defaultAtEnd, findFrom_defaultAtEnd, ← List.singleton_append, ← List.append_assoc,
      findFrom_append (passesOver_lastWord ref hc none _ s), hBegin, defaultWord, findFrom_append hOver, ref.lastOf_clause]
  rw [defaultIn_eq, hText, foundValue_clause ref hc, hFound, hLast, hBefore, Option.or_assoc]
  rfl

end

end SqlSurvey.Ddl
