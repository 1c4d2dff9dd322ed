import SqlSurvey.Proofs.Ddl.Value
import SqlSurvey.Proofs.Ddl.Column
import SqlSurvey.Proofs.Pattern.Words

/-!
# Defaults, word by word

What is read as a default from words with single spaces between: after the first DEFAULT with an ending constraint
further on than the next word, all words up to that constraint; without one, the last word if DEFAULT stands before it.
-/

namespace SqlSurvey.Ddl

open Pattern

variable {s v w : List Char} {ws us : List (List Char)} {last : Option Char}

/-! ## Values as words -/

/-- Words with single spaces between. -/
def joined : List (List Char) → List Char
  | [] => []
  | w :: ws => w ++ spaced ws

/-- Whether a word begins with a keyword. -/
def opens (word : String) (w : List Char) : Bool := ((keyword word.toList).here none w).isSome

/-- Whether words begin with a constraint that ends a default. -/
def beginsEnd : List (List Char) → Bool
  | [] => false
  | w :: ws =>
    decide (Spells "NOT".toList w) && ws.head?.any (opens "NULL") || opens "PRIMARY" w || opens "FOREIGN" w ||
      opens "UNIQUE" w || opens "CHECK" w

/-- The words before the first constraint that ends a default, if there is one. -/
def upToEnd : List (List Char) → Option (List (List Char))
  | [] => none
  | w :: ws => if beginsEnd (w :: ws) then some [] else (upToEnd ws).map (w :: ·)

/-- A first word, and the words after it up to an end. -/
def valueBeforeEnd : List (List Char) → Option (List (List Char))
  | [] => none
  | w :: ws => (upToEnd ws).map (w :: ·)

/-- The value after the first DEFAULT that an end comes after. -/
def endedValue : List (List Char) → Option (List (List Char))
  | [] => none
  | w :: ws => (if w = "DEFAULT".toList then valueBeforeEnd ws else none).or (endedValue ws)

/-- The last word, if DEFAULT stands before it. -/
def lastValue : List (List Char) → Option (List Char)
  | [] => none
  | [_] => none
  | [w, v] => if w = "DEFAULT".toList then some v else none
  | _ :: v :: u :: ws => lastValue (v :: u :: ws)

/-- The words that are read as a default. -/
def wordDefault (ws : List (List Char)) : Option (List (List Char)) :=
  (endedValue ws).or ((lastValue ws).map fun w => [w])

/-! ## The end of a value -/

/-- A keyword is found at the head of words when the first word begins with it. -/
theorem isEmpty_hits_keyword {word : String} (h : isLettered word = true) (w : List Char) (ws : List (List Char))
    (last : Option Char) : ((keyword word.toList).hits last (w ++ spaced ws)).isEmpty = !opens word w := by
  have hAvoids : (keyword word.toList).Avoids Text.isBlank :=
    avoids_keyword_of_isLettered (fun _ hc => Text.isWordChar_of_isBlank hc) h
  rw [hits_append_of_avoids hAvoids w (isBlank_head_spaced ws), List.isEmpty_map,
    (forward_keyword _).hits_eq last none, opens, here]
  cases (keyword word.toList).hits none w <;> rfl

theorem isEmpty_hits_defaultEnd (hw : IsSolid w) (hws : ∀ v ∈ ws, IsSolid v) :
    (defaultEnd.hits none (w ++ spaced ws)).isEmpty = !beginsEnd (w :: ws) := by
  have hPhrase : ((phrase "NOT" ["NULL"]).hits none (w ++ spaced ws)).isEmpty =
      !(decide (Spells "NOT".toList w) && ws.head?.any (opens "NULL")) := by
    show (((keyword "NOT".toList ++ blanks) ++ keyword "NULL".toList).hits none (w ++ spaced ws)).isEmpty = _
    rw [hits_append_assoc, hits_keyword_blanks (noBlanks_of_isAlpha (by decide)) hw.2 (isBlank_head_spaced ws)]
    by_cases hNot : Spells "NOT".toList w
    · rw [if_pos hNot, List.isEmpty_map, decide_eq_true hNot, Bool.true_and]
      cases ws with
      | nil => rfl
      | cons v vs =>
        have hSpace : blanks.Takes (keyword "NULL".toList) [' '] [] (v ++ spaced vs) :=
          takes_space ((hws v List.mem_cons_self).head _) _
        rw [spaced_cons, show ' ' :: (v ++ spaced vs) = [' '] ++ (v ++ spaced vs) from rfl, hSpace, List.isEmpty_map,
          isEmpty_hits_keyword (by decide)]
        rfl
    · rw [if_neg hNot, decide_eq_false hNot]
      rfl
  have hAtEnd : (atEnd.hits none (w ++ spaced ws)).isEmpty = true := by
    obtain ⟨c, v, rfl⟩ := List.exists_cons_of_ne_nil hw.1
    rfl
  have hBoth : ∀ hs ks : List Hit, (hs ++ ks).isEmpty = (hs.isEmpty && ks.isEmpty) := fun hs ks => by cases hs <;> rfl
  rw [defaultEnd, hits_either, hits_either, hits_either, hits_either, hits_either, hBoth, hBoth, hBoth, hBoth, hBoth,
    hPhrase, hAtEnd,
    isEmpty_hits_keyword (by decide), isEmpty_hits_keyword (by decide), isEmpty_hits_keyword (by decide),
    isEmpty_hits_keyword (by decide), beginsEnd, Bool.and_true, Bool.not_or, Bool.not_or, Bool.not_or, Bool.not_or]
  ac_rfl

theorem textBefore_solid (hw : ∀ c ∈ w, Text.isBlank c = false) (s : List Char) :
    textBefore (blanks ++ defaultEnd) (w ++ s) = (textBefore (blanks ++ defaultEnd) s).map (w ++ ·) := by
  induction w with
  | nil => simp
  | cons c w ih =>
    rw [List.cons_append, endsDefault_defaultEnd.textBefore_cons (hw c List.mem_cons_self),
      ih fun d hd => hw d (List.mem_cons_of_mem c hd), Option.map_map]
    rfl

/-- The text before the end of a default is made of the words before it. -/
theorem textBefore_spaced (hws : ∀ w ∈ ws, IsSolid w) :
    textBefore (blanks ++ defaultEnd) (spaced ws) = (upToEnd ws).map spaced := by
  induction ws with
  | nil => rfl
  | cons w ws ih =>
    have hw := hws w List.mem_cons_self
    have hRest := fun v hv => hws v (List.mem_cons_of_mem w hv)
    have hText : spaced (w :: ws) = [' '] ++ (w ++ spaced ws) := rfl
    have hEnd := isEmpty_hits_defaultEnd hw hRest
    rw [upToEnd]
    by_cases hBegins : beginsEnd (w :: ws) = true
    · rw [hBegins] at hEnd
      have hHits : ((blanks ++ defaultEnd).hits none (' ' :: (w ++ spaced ws))).isEmpty = false := by
        rw [show ' ' :: (w ++ spaced ws) = [' '] ++ (w ++ spaced ws) from rfl,
          endsDefault_defaultEnd.hits_blanks_append (by simp) (by decide) (hw.head _), List.isEmpty_map, hEnd]
        rfl
      rw [if_pos hBegins, spaced_cons, textBefore, hHits]
      rfl
    · rw [Bool.not_eq_true] at hBegins
      rw [hBegins, Bool.not_false, List.isEmpty_iff] at hEnd
      rw [hBegins, if_neg Bool.false_ne_true, hText,
        endsDefault_defaultEnd.textBefore_blanks (by decide) (hw.head _) hEnd, textBefore_solid hw.2, ih hRest,
        Option.map_map, Option.map_map, Option.map_map]
      rfl

theorem textFrom_word (hw : IsSolid w) (hws : ∀ v ∈ ws, IsSolid v) :
    textFrom (blanks ++ defaultEnd) (w ++ spaced ws) = (valueBeforeEnd (w :: ws)).map joined := by
  obtain ⟨c, v, rfl⟩ := List.exists_cons_of_ne_nil hw.1
  rw [List.cons_append, textFrom, textBefore_solid fun d hd => hw.2 d (List.mem_cons_of_mem c hd),
    textBefore_spaced hws, valueBeforeEnd, Option.map_map, Option.map_map, Option.map_map]
  rfl

/-- What is read after DEFAULT. -/
theorem valueAfter_spaced (hws : ∀ v ∈ ws, IsSolid v) :
    valueAfter defaultEnd (spaced ws) = (valueBeforeEnd ws).map joined := by
  cases ws with
  | nil => exact valueAfter_of_head (by simp)
  | cons w ws =>
    have hw := hws w List.mem_cons_self
    rw [spaced_cons, endsDefault_defaultEnd.valueAfter_singleton (by decide) (hw.head _),
      textFrom_word hw fun v hv => hws v (List.mem_cons_of_mem w hv)]

/-! ## From word to word -/

/-- Words in which DEFAULT is read only if it is the whole word. -/
def IsPlain (w : List Char) : Prop :=
  IsSolid w ∧ (w = "DEFAULT".toList ∨ ∀ (q : Pattern) (last : Option Char) (ws : List (List Char)),
    (defaultWord ++ (blanks ++ q)).PassesOver last w (spaced ws))

/-- DEFAULT is passed over when what must come after it does not. -/
theorem passesOver_default (q : Pattern) (h : ∀ last, (blanks ++ q).hits last (spaced ws) = []) (last : Option Char) :
    (defaultWord ++ (blanks ++ q)).PassesOver last "DEFAULT".toList (spaced ws) := by
  refine passesOver_append_assoc (blanks ++ q) |>.2 (passesOver_of_hits_eq_nil (by decide) ?_)
  rw [hits_keyword_blanks (noBlanks_of_isAlpha (by decide)) (by decide) (isBlank_head_spaced ws), h, List.map_nil,
    ite_self]

/-- The value that is found first is the one after the first DEFAULT that an end comes after. -/
theorem foundValue_spaced (hws : ∀ w ∈ ws, IsPlain w) (last : Option Char) :
    foundValue defaultEnd last (spaced ws) = (endedValue ws).map joined := by
  induction ws generalizing last with
  | nil => exact foundValue_nil last
  | cons w ws ih =>
    obtain ⟨hw, hPlain⟩ := hws w List.mem_cons_self
    have hRest : ∀ v ∈ ws, IsPlain v := fun v hv => hws v (List.mem_cons_of_mem w hv)
    have hText : spaced (w :: ws) = [' '] ++ (w ++ spaced ws) := rfl
    have hSpace : lastOf last [' '] = some ' ' := rfl
    rw [hText, foundValue_blanks (by decide), hSpace, endedValue]
    by_cases hDefault : w = "DEFAULT".toList
    · -- here a value may be read, and none can be read inside the word
      have hHere : valueHere defaultEnd (some ' ') ("DEFAULT".toList ++ spaced ws) =
          (valueBeforeEnd ws).map joined := by
        rw [valueHere, here, here_defaultWord]
        exact valueAfter_spaced fun v hv => (hRest v hv).1
      have hInside : (defaultWord ++ defaultValue defaultEnd).PassesOver (some 'D') "EFAULT".toList (spaced ws) :=
        passesOver_append_assoc (defaultValue defaultEnd) |>.2 ((refuses_default _).passesOver (by decide))
      have hLater : foundValue defaultEnd (some 'D') ("EFAULT".toList ++ spaced ws) = (endedValue ws).map joined := by
        rw [foundValue, findFrom_append hInside]
        exact ih hRest _
      have hSplit : "DEFAULT".toList ++ spaced ws = 'D' :: ("EFAULT".toList ++ spaced ws) := rfl
      rw [if_pos hDefault, hDefault, hSplit, endsDefault_defaultEnd.foundValue_cons, ← hSplit, hHere, hLater,
        Option.map_or]
    · have hOver : (defaultWord ++ defaultValue defaultEnd).PassesOver (some ' ') w (spaced ws) :=
        (hPlain.resolve_left hDefault) _ _ _
      rw [if_neg hDefault, Option.none_or, foundValue, findFrom_append hOver]
      exact ih hRest _

/-- A word that another word follows is not the last one. -/
theorem hits_blanks_lastWord (hv : IsSolid v) (hw : IsSolid w) (ws : List (List Char)) (last : Option Char) :
    (blanks ++ lastWord).hits last (spaced (v :: w :: ws)) = [] := by
  have hSpace : blanks.Takes lastWord [' '] [] (v ++ spaced (w :: ws)) := takes_space (hv.head _) _
  have hEnd : (gap ++ atEnd).Refuses fun c => !Text.isBlank c := by
    refine (refuses_many fun c hc => by simpa using hc).maybe_append fun _ c r _ => ?_
    simp [hits]
  have hWord : (group 1 (many (fun c => !Text.isBlank c) .longest)).Takes (gap ++ atEnd) v [(1, v)]
      (spaced (w :: ws)) :=
    takes_group_many 1 hv.1 (fun c hc => by simp [hv.2 c hc])
      (fun c hc => by simp [isBlank_head_spaced (w :: ws) c hc]) hEnd
  have hGap : gap.Takes atEnd [' '] [] (w ++ spaced ws) :=
    takes_gap (by decide) (hw.head _) fun _ c r _ => by simp [hits]
  have hMore : ∀ last, atEnd.hits last (w ++ spaced ws) = [] := by
    obtain ⟨c, u, rfl⟩ := List.exists_cons_of_ne_nil hw.1
    exact fun _ => rfl
  have hNext : ∀ last, (gap ++ atEnd).hits last (spaced (w :: ws)) = [] := fun last => by
    rw [spaced_cons, show ' ' :: (w ++ spaced ws) = [' '] ++ (w ++ spaced ws) from rfl, hGap, hMore, List.map_nil]
  rw [spaced_cons, show ' ' :: (v ++ spaced (w :: ws)) = [' '] ++ (v ++ spaced (w :: ws)) from rfl, hSpace, lastWord,
    hWord, hNext, List.map_nil, List.map_nil]

/-- The last word is a default when DEFAULT stands before it. -/
theorem map_find_defaultAtEnd_spaced (hws : ∀ w ∈ ws, IsPlain w) :
    (defaultAtEnd.find (spaced ws)).map (·.groupText 1) = lastValue ws := by
  have hRefuses : (defaultWord ++ (blanks ++ lastWord)).Refuses Text.isBlank := refuses_defaultWord.append _
  have hNil : ∀ last, (defaultWord ++ (blanks ++ lastWord)).hits last [] = [] := by
    intro last
    rw [defaultWord, hits_append_assoc, hits_atWordEdge_append]
    exact ite_self _
  -- a word is passed over unless DEFAULT and the last word are all that is left
  have hSkip : ∀ w ws, IsPlain w → (w = "DEFAULT".toList → ∀ last, (blanks ++ lastWord).hits last (spaced ws) = []) →
      (defaultWord ++ (blanks ++ lastWord)).find (spaced (w :: ws)) =
        (defaultWord ++ (blanks ++ lastWord)).find (spaced ws) := by
    intro w ws hw hNone
    refine find_spaced_cons_of_passesOver hRefuses hNil ?_
    rcases hw.2 with rfl | hOver
    · exact passesOver_default lastWord (hNone rfl) _
    · exact hOver lastWord _ ws
  have hNone : (defaultWord ++ (blanks ++ lastWord)).find (spaced []) = none := findFrom_spaced_nil hNil none
  have hSingle : ∀ w, IsPlain w → (defaultWord ++ (blanks ++ lastWord)).find (spaced [w]) = none := fun w hw => by
    rw [hSkip w [] hw fun _ _ => rfl, hNone]
  rw [find_defaultAtEnd_eq]
  induction ws using lastValue.induct with
  | case1 => rw [hNone]; rfl
  | case2 w => rw [hSingle w (hws w List.mem_cons_self)]; rfl
  | case3 v =>
    have hv : IsSolid v := (hws v (by simp)).1
    have hFind := find_defaultAtEnd_value hv.1 hv.2
    have hText : spaced ["DEFAULT".toList, v] = defaultLead ++ v := by
      rw [spaced_cons, spaced_cons, spaced_nil, List.append_nil]
      rfl
    rw [find_defaultAtEnd_eq] at hFind
    rw [hText, hFind, lastValue, if_pos rfl]
  | case4 w v hDefault =>
    rw [hSkip w [v] (hws w (by simp)) fun hEq => absurd hEq hDefault, hSingle v (hws v (by simp)), lastValue,
      if_neg hDefault]
    rfl
  | case5 w v u ws ih =>
    rw [hSkip w _ (hws w (by simp)) fun _ last => hits_blanks_lastWord (hws v (by simp)).1 (hws u (by simp)).1 ws last,
      ih fun x hx => hws x (List.mem_cons_of_mem w hx), lastValue]

/-! ## The default of words -/

theorem trim_joined (hws : ∀ w ∈ ws, IsSolid w) : Text.trim (joined ws) = joined ws := by
  cases ws with
  | nil => rfl
  | cons w ws =>
    have hw := hws w List.mem_cons_self
    refine Text.trim_eq_self (hw.head _) ?_
    exact Text.isBlank_getLast_append (fun c hc => hw.2 c (List.mem_of_getLast? hc))
      (isBlank_getLast_spaced fun v hv => hws v (List.mem_cons_of_mem w hv))

theorem mem_of_mem_upToEnd (h : upToEnd ws = some us) : ∀ u ∈ us, u ∈ ws := by
  induction ws generalizing us with
  | nil => cases h
  | cons w ws ih =>
    rw [upToEnd] at h
    split at h
    · obtain rfl : [] = us := Option.some_inj.1 h
      simp
    · obtain ⟨vs, hvs, rfl⟩ := Option.map_eq_some_iff.1 h
      intro u hu
      rcases List.mem_cons.1 hu with rfl | hu
      · exact List.mem_cons_self
      · exact List.mem_cons_of_mem w (ih hvs u hu)

theorem mem_of_mem_endedValue (h : endedValue ws = some us) : ∀ u ∈ us, u ∈ ws := by
  induction ws with
  | nil => cases h
  | cons w ws ih =>
    rw [endedValue] at h
    rcases Option.or_eq_some_iff.1 h with hHere | ⟨-, hLater⟩
    · split at hHere
      · cases ws with
        | nil => cases hHere
        | cons v ws =>
          obtain ⟨vs, hvs, rfl⟩ := Option.map_eq_some_iff.1 hHere
          intro u hu
          rcases List.mem_cons.1 hu with rfl | hu
          · simp
          · exact List.mem_cons_of_mem w (List.mem_cons_of_mem v (mem_of_mem_upToEnd hvs u hu))
      · cases hHere
    · exact fun u hu => List.mem_cons_of_mem w (ih hLater u hu)

/-- The default of words with single spaces between. -/
theorem defaultIn_spaced (hws : ∀ w ∈ ws, IsPlain w) : defaultIn (spaced ws) = (wordDefault ws).map joined := by
  rw [defaultIn_eq, foundValue_spaced hws, map_find_defaultAtEnd_spaced hws, wordDefault]
  cases hEnded : endedValue ws with
  | some us =>
    have hTrim := trim_joined fun u hu => (hws u (mem_of_mem_endedValue hEnded u hu)).1
    simp only [Option.map_some, Option.some_or, hTrim]
  | none =>
    cases hLast : lastValue ws with
    | none => rfl
    | some v =>
      have hFind := map_find_defaultAtEnd_spaced hws
      rw [hLast] at hFind
      obtain ⟨k, hk, rfl⟩ := Option.map_eq_some_iff.1 hFind
      have hTrim := Text.trim_of_forall (groupText_defaultAtEnd hk).2
      simp [hTrim, joined]

end SqlSurvey.Ddl
