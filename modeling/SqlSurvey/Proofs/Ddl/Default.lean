import SqlSurvey.Proofs.Ddl.Layout

/-!
# Defaults and their layout

The pattern for a default before a constraint takes as little text as it can, which is why it is not stable: when
a constraint comes right after the blanks, and there are three or more of them, a blank can pass for the
default. Otherwise the default lasts from the first character that is no blank to the blanks before a constraint,
and this does not depend on the layout.
-/

namespace SqlSurvey.Ddl

open Pattern

variable {e q : Pattern} {last : Option Char} {r s t w x : List Char} {c : Char}

/-! ## The text before the first hit -/

/-- The text before the first place at which a pattern has a hit. -/
def textBefore (q : Pattern) : List Char → Option (List Char)
  | [] => if (q.hits none []).isEmpty then none else some []
  | c :: r => if (q.hits none (c :: r)).isEmpty then (textBefore q r).map (c :: ·) else some []

/-- As few characters as can be, at least one, and then a pattern. -/
def lazily (q : Pattern) : Pattern := group 1 (many (fun _ => true) .shortest) ++ q

theorem groupText_andThen (n : Nat) (t u : List Char) (r : List Char) (k : Hit) :
    ((⟨t, [(n, u)], r⟩ : Hit).andThen k).groupText n = u := by
  simp [Hit.groupText, Hit.group?, Hit.andThen]

/-- A first character, which may be any, and the text from it to the first hit of a pattern. -/
def textFrom (q : Pattern) : List Char → Option (List Char)
  | [] => none
  | c :: r => (textBefore q r).map (c :: ·)

/-- What is taken lazily before a pattern is the text before its first hit, after one character. -/
theorem map_here_lazily (hq : q.Forward) (last : Option Char) (s : List Char) :
    ((lazily q).here last s).map (·.groupText 1) = textFrom q s := by
  -- some characters have been taken already
  suffices hAll : ∀ u : List Char,
      ((((runHits (fun _ => true) s).map fun h => (⟨u ++ h.text, [(1, u ++ h.text)], h.rest⟩ : Hit)).flatMap
        fun k => (q.hits none k.rest).map k.andThen).head?).map (·.groupText 1) =
          (textFrom q s).map (u ++ ·) by
    have hHits : (lazily q).hits last s =
        ((runHits (fun _ => true) s).map fun h => (⟨[] ++ h.text, [(1, [] ++ h.text)], h.rest⟩ : Hit)).flatMap
          fun k => (q.hits none k.rest).map k.andThen := by
      rw [lazily, hits_append, hits_group, List.flatMap_map, List.flatMap_map]
      refine List.flatMap_congr fun h hh => ?_
      rw [hq.hits_eq _ none, List.nil_append, (of_mem_hits_many hh).1]
    rw [here, hHits]
    simpa using hAll []
  induction s with
  | nil => exact fun u => rfl
  | cons d s ih =>
    intro u
    have hRest := ih (u ++ [d])
    rw [runHits, if_pos rfl, List.map_cons, List.flatMap_cons, List.map_map]
    simp only [Function.comp_def]
    cases hHits : q.hits none s with
    | cons k ks =>
      -- the pattern has a hit here
      have hBefore : textBefore q s = some [] := by cases s <;> simp [textBefore, hHits]
      simp [textFrom, hBefore, groupText_andThen]
    | nil =>
      have hBefore : textBefore q s = textFrom q s := by cases s <;> simp [textBefore, textFrom, hHits]
      simp only [List.append_assoc, List.singleton_append] at hRest
      rw [List.map_nil, List.nil_append, hRest, textFrom, hBefore, Option.map_map]
      rfl

theorem prefix_of_textBefore (h : textBefore q s = some t) : t <+: s := by
  induction s generalizing t with
  | nil =>
    by_cases hHits : (q.hits none []).isEmpty = true <;> simp_all [textBefore]
  | cons c s ih =>
    by_cases hHits : (q.hits none (c :: s)).isEmpty = true
    · rw [textBefore, if_pos hHits] at h
      obtain ⟨u, hu, rfl⟩ := Option.map_eq_some_iff.1 h
      exact List.cons_prefix_cons.2 ⟨rfl, ih hu⟩
    · rw [textBefore, if_neg hHits] at h
      obtain rfl : [] = t := by simpa using h
      exact List.nil_prefix

/-! ## The end of a default -/

/-- What may come after the blanks that end a default. -/
structure EndsDefault (e : Pattern) : Prop where
  stable : e.Stable
  refuses : e.Refuses Text.isBlank
  forward : e.Forward

/-- A run of blanks is taken whole before the end of a default. -/
theorem EndsDefault.hits_blanks_append (he : EndsDefault e) (hw : w ≠ [])
    (hBlank : ∀ c ∈ w, Text.isBlank c = true) (hx : ∀ c ∈ x.head?, Text.isBlank c = false) :
    (blanks ++ e).hits last (w ++ x) = (e.hits none x).map (⟨w, [], x⟩ : Hit).andThen := by
  have hTakes : blanks.Takes e w [] x := takes_many hw hBlank hx he.refuses
  rw [hTakes last, he.forward.hits_eq _ none]

theorem EndsDefault.hits_of_head (_ : EndsDefault e) (hx : ∀ c ∈ x.head?, Text.isBlank c = false) :
    (blanks ++ e).hits last x = [] := hits_many_append_of_not hx

theorem EndsDefault.textBefore_cons (he : EndsDefault e) (hc : Text.isBlank c = false) (s : List Char) :
    textBefore (blanks ++ e) (c :: s) = (textBefore (blanks ++ e) s).map (c :: ·) := by
  rw [textBefore, he.hits_of_head (by simpa using hc)]
  rfl

/-- Blanks that do not end a default belong to it. -/
theorem EndsDefault.textBefore_blanks (he : EndsDefault e) (hBlank : ∀ c ∈ w, Text.isBlank c = true)
    (hx : ∀ c ∈ x.head?, Text.isBlank c = false) (hNone : e.hits none x = []) :
    textBefore (blanks ++ e) (w ++ x) = (textBefore (blanks ++ e) x).map (w ++ ·) := by
  induction w with
  | nil => simp
  | cons c w ih =>
    have hHere : (blanks ++ e).hits none (c :: (w ++ x)) = [] := by
      rw [← List.cons_append, he.hits_blanks_append (by simp) hBlank hx, hNone, List.map_nil]
    rw [List.cons_append, textBefore, hHere, ih fun d hd => hBlank d (List.mem_cons_of_mem c hd), Option.map_map]
    rfl

/-- The text before the end of a default does not depend on the layout. -/
theorem EndsDefault.textBefore_squeeze (he : EndsDefault e) (s : List Char) :
    textBefore (blanks ++ e) (Text.squeeze s) = (textBefore (blanks ++ e) s).map Text.squeeze := by
  induction s using Text.runs_induction with
  | nil => rfl
  | char c s hc ih =>
    rw [Text.squeeze_cons hc, he.textBefore_cons hc, he.textBefore_cons hc, ih, Option.map_map, Option.map_map]
    exact congrArg (fun f => (textBefore (blanks ++ e) s).map f) (funext fun t => (Text.squeeze_cons hc t).symm)
  | blanks w s hw hBlank hs ih =>
    have hSqueeze := Text.isBlank_head_squeeze hs
    have hSame : e.hits none (Text.squeeze s) = (e.hits none s).map Hit.squeeze := he.stable.hits_squeeze none s
    have hRun : Text.squeeze (w ++ s) = [' '] ++ Text.squeeze s := Text.squeeze_blanks hw hBlank hs
    rw [hRun]
    by_cases hNone : e.hits none s = []
    · have hNoneSqueezed : e.hits none (Text.squeeze s) = [] := by rw [hSame, hNone, List.map_nil]
      rw [he.textBefore_blanks hBlank hs hNone, he.textBefore_blanks (by decide) hSqueeze hNoneSqueezed, ih,
        Option.map_map, Option.map_map]
      refine Option.map_congr fun t ht => ?_
      -- the text before the end begins as the rest of the text does
      have hHead : ∀ c ∈ t.head?, Text.isBlank c = false := by
        obtain ⟨u, rfl⟩ := prefix_of_textBefore ht
        exact fun c hc => hs c (by rw [List.head?_append, hc]; rfl)
      exact (Text.squeeze_blanks hw hBlank hHead).symm
    · have hHere : ∀ (w x : List Char), w ≠ [] → (∀ c ∈ w, Text.isBlank c = true) →
          (∀ c ∈ x.head?, Text.isBlank c = false) → e.hits none x ≠ [] →
          textBefore (blanks ++ e) (w ++ x) = some [] := by
        intro w x hw hBlank hx hSome
        obtain ⟨c, w, rfl⟩ := List.exists_cons_of_ne_nil hw
        have hHits : ((blanks ++ e).hits none (c :: (w ++ x))).isEmpty = false := by
          rw [← List.cons_append, he.hits_blanks_append hw hBlank hx]
          simpa using hSome
        rw [List.cons_append, textBefore, hHits, if_neg Bool.false_ne_true]
      rw [hHere w s hw hBlank hs hNone, hHere [' '] _ (by simp) (by decide) hSqueeze (by simp [hSame, hNone])]
      rfl

/-! ## The value after the word -/

/-- Blanks, a value, and the end of the default. -/
def defaultValue (e : Pattern) : Pattern := blanks ++ lazily (blanks ++ e)

/-- The value that is read after the word. -/
def valueAfter (e : Pattern) (r : List Char) : Option (List Char) :=
  ((defaultValue e).here none r).map (·.groupText 1)

theorem EndsDefault.forward_append (he : EndsDefault e) : (blanks ++ e).Forward := ⟨trivial, he.forward⟩

/-- The value from a character that is no blank does not depend on the layout. -/
theorem EndsDefault.textFrom_squeeze (he : EndsDefault e) (hx : ∀ c ∈ x.head?, Text.isBlank c = false) :
    textFrom (blanks ++ e) (Text.squeeze x) = (textFrom (blanks ++ e) x).map Text.squeeze := by
  cases x with
  | nil => rfl
  | cons c r =>
    have hc : Text.isBlank c = false := hx c rfl
    rw [Text.squeeze_cons hc, textFrom, textFrom, he.textBefore_squeeze, Option.map_map, Option.map_map]
    exact congrArg (fun f => (textBefore (blanks ++ e) r).map f) (funext fun t => (Text.squeeze_cons hc t).symm)

theorem textBefore_eq_none (hx : ∀ c ∈ x.head?, Text.isBlank c = false) (hNone : textFrom (blanks ++ e) x = none) :
    textBefore (blanks ++ e) x = none := by
  cases x with
  | nil => rfl
  | cons c r =>
    have hHere : (blanks ++ e).hits none (c :: r) = [] := hits_many_append_of_not hx
    rw [textBefore, hHere]
    exact hNone

theorem valueAfter_of_head (hr : ∀ c ∈ r.head?, Text.isBlank c = false) : valueAfter e r = none := by
  have hNone : (defaultValue e).hits none r = [] := hits_many_append_of_not hr
  rw [valueAfter, here, hNone]
  rfl

/-- After one blank, the value begins with what follows the blank. -/
theorem EndsDefault.valueAfter_singleton (he : EndsDefault e) (hc : Text.isBlank c = true)
    (hx : ∀ d ∈ x.head?, Text.isBlank d = false) : valueAfter e (c :: x) = textFrom (blanks ++ e) x := by
  have hTakes : blanks.Takes (lazily (blanks ++ e)) [c] [] x := takes_many_singleton hc hx _
  rw [← map_here_lazily he.forward_append (lastOf none [c]) x, valueAfter, here, defaultValue,
    show c :: x = [c] ++ x from rfl, hTakes none, List.head?_map, Option.map_map]
  rfl

/-- Blanks before the end of a default are all that is taken when no other end comes later. -/
theorem isBlank_of_textBefore (hBlank : ∀ c ∈ w, Text.isBlank c = true) (hNone : textBefore q x = none)
    (h : textBefore q (w ++ x) = some t) : ∀ c ∈ t, Text.isBlank c = true := by
  induction w generalizing t with
  | nil => simp [hNone] at h
  | cons c w ih =>
    rw [List.cons_append, textBefore] at h
    by_cases hHits : (q.hits none (c :: (w ++ x))).isEmpty = true
    · rw [if_pos hHits] at h
      obtain ⟨u, hu, rfl⟩ := Option.map_eq_some_iff.1 h
      exact List.forall_mem_cons.2 ⟨hBlank c List.mem_cons_self,
        ih (fun d hd => hBlank d (List.mem_cons_of_mem c hd)) hu⟩
    · rw [if_neg hHits] at h
      obtain rfl : [] = t := by simpa using h
      simp

/-- An end of a text that begins with a blank of the run at its head begins with a part of that run. -/
theorem exists_run_of_append {u : List Char} (hText : u ++ c :: r = w ++ x) (hc : Text.isBlank c = true)
    (hu : ∀ d ∈ u, Text.isBlank d = true) (hw : ∀ d ∈ w, Text.isBlank d = true)
    (hx : ∀ d ∈ x.head?, Text.isBlank d = false) : ∃ v, r = v ++ x ∧ ∀ d ∈ v, Text.isBlank d = true := by
  have hNot : ∀ d s, x = d :: s → Text.isBlank d = true → False := fun d s hEq hd => by
    rw [hx d (by rw [hEq]; rfl)] at hd
    exact Bool.noConfusion hd
  rcases List.append_eq_append_iff.1 hText with ⟨v, rfl, hv⟩ | ⟨v, rfl, hv⟩
  · cases v with
    | nil => exact (hNot c r hv.symm hc).elim
    | cons d v =>
      rw [List.cons_append, List.cons.injEq] at hv
      exact ⟨v, hv.2, fun f hf => hw f (by simp [hf])⟩
  · cases v with
    | nil => exact (hNot c r hv hc).elim
    | cons d v => exact (hNot d _ hv (hu d (by simp))).elim

/-- A value that begins in a run of blanks lies in the run, when no value begins after the run. -/
theorem isBlank_of_textFrom {u : List Char} (hText : u ++ c :: r = w ++ x) (hc : Text.isBlank c = true)
    (hu : ∀ d ∈ u, Text.isBlank d = true) (hw : ∀ d ∈ w, Text.isBlank d = true)
    (hx : ∀ d ∈ x.head?, Text.isBlank d = false) (hNone : textFrom (blanks ++ e) x = none)
    (h : textFrom (blanks ++ e) (c :: r) = some t) : ∀ d ∈ t, Text.isBlank d = true := by
  obtain ⟨v, rfl, hv⟩ := exists_run_of_append hText hc hu hw hx
  obtain ⟨t, ht, rfl⟩ := Option.map_eq_some_iff.1 h
  exact List.forall_mem_cons.2 ⟨hc, isBlank_of_textBefore hv (textBefore_eq_none hx hNone) ht⟩

/-- The value after the word begins after some of the blanks there, as many as can be. -/
theorem EndsDefault.valueAfter_eq (he : EndsDefault e) (r : List Char) :
    valueAfter e r = (blanks.hits none r).findSome? fun k => textFrom (blanks ++ e) k.rest := by
  rw [valueAfter, here, defaultValue, hits_append, List.head?_flatMap, List.map_findSome?,
    ← List.head?_filterMap, ← List.head?_filterMap]
  refine congrArg List.head? (List.filterMap_congr fun k hk => ?_)
  have hAndThen : ∀ n : Hit, (k.andThen n).groupText 1 = n.groupText 1 := fun n => by
    simp [Hit.groupText, Hit.group?, Hit.andThen, (of_mem_hits_many hk).1]
  rw [← map_here_lazily he.forward_append (lastOf none k.text) k.rest, here, Function.comp_apply, List.head?_map,
    Option.map_map]
  exact congrArg (Option.map · _) (funext hAndThen)

/-- After a run of blanks, the value begins with what follows the run, or it is a part of the run. -/
theorem EndsDefault.valueAfter_blanks (he : EndsDefault e) (hw : w ≠ [])
    (hBlank : ∀ c ∈ w, Text.isBlank c = true) (hx : ∀ c ∈ x.head?, Text.isBlank c = false) :
    valueAfter e (w ++ x) = textFrom (blanks ++ e) x ∨
      ∃ v, valueAfter e (w ++ x) = some v ∧ ∀ c ∈ v, Text.isBlank c = true := by
  obtain ⟨ks, hks, hRest⟩ := reverse_runHits hw hBlank hx
  have hks : blanks.hits none (w ++ x) = ⟨w, [], x⟩ :: ks := hks
  rw [he.valueAfter_eq, hks, List.findSome?_cons]
  cases hWhole : textFrom (blanks ++ e) x with
  | some v => exact .inl rfl
  | none =>
    cases hLater : ks.findSome? fun k => textFrom (blanks ++ e) k.rest with
    | none => exact .inl rfl
    | some v =>
      right
      obtain ⟨k, hk, hValue⟩ := List.exists_of_findSome?_eq_some hLater
      obtain ⟨c, r, hc, hEq⟩ := hRest k hk
      have hMem : k ∈ blanks.hits none (w ++ x) := by
        rw [hks]
        exact List.mem_cons_of_mem _ hk
      have hText : k.text ++ c :: r = w ++ x := by rw [← hEq, text_append_rest hMem]
      rw [hEq] at hValue
      exact ⟨v, rfl, isBlank_of_textFrom hText hc (of_mem_hits_many hMem).2.2 hBlank hx hWhole hValue⟩

/-- The value after the word does not depend on the layout, unless it is blank. -/
theorem EndsDefault.valueAfter_squeeze (he : EndsDefault e) (r : List Char) :
    valueAfter e (Text.squeeze r) = (valueAfter e r).map Text.squeeze ∨
      ∃ v, valueAfter e r = some v ∧ ∀ c ∈ v, Text.isBlank c = true := by
  induction r using Text.runs_induction with
  | nil => exact .inl rfl
  | char c s hc _ =>
    left
    rw [Text.squeeze_cons hc, valueAfter_of_head (by simpa using hc), valueAfter_of_head (by simpa using hc)]
    rfl
  | blanks w x hw hBlank hx _ =>
    refine (he.valueAfter_blanks hw hBlank hx).imp_left fun hValue => ?_
    rw [Text.squeeze_blanks hw hBlank hx, he.valueAfter_singleton (by decide) (Text.isBlank_head_squeeze hx),
      he.textFrom_squeeze hx, hValue]

/-- After squeezed blanks, a value begins with a character that is no blank. -/
theorem EndsDefault.head_valueAfter_squeeze (he : EndsDefault e) {v : List Char}
    (h : valueAfter e (Text.squeeze r) = some v) : ∃ c t, v = c :: t ∧ Text.isBlank c = false := by
  induction r using Text.runs_induction with
  | nil => cases h
  | char c s hc _ =>
    rw [Text.squeeze_cons hc, valueAfter_of_head (by simpa using hc)] at h
    cases h
  | blanks w x hw hBlank hx _ =>
    rw [Text.squeeze_blanks hw hBlank hx,
      he.valueAfter_singleton (by decide) (Text.isBlank_head_squeeze hx)] at h
    cases x with
    | nil => cases h
    | cons c x =>
      have hc : Text.isBlank c = false := hx c rfl
      rw [Text.squeeze_cons hc, textFrom] at h
      obtain ⟨t, -, rfl⟩ := Option.map_eq_some_iff.1 h
      exact ⟨c, t, rfl, hc⟩

/-! ## Searching for a default -/

/-- The word that a default begins with. -/
def defaultWord : Pattern := atWordEdge ++ keyword "DEFAULT".toList

theorem stable_defaultWord : defaultWord.Stable := stable_atWordEdge.append (stable_word (by decide))

theorem refuses_defaultWord : defaultWord.Refuses Text.isBlank :=
  (refuses_word (by decide : isPhraseWord "DEFAULT" = true)).atWordEdge_append

/-- A keyword is taken in one way. -/
theorem hits_keyword (ls : List Char) (last : Option Char) (s : List Char) :
    (keyword ls).hits last s = [] ∨ ∃ t r, (keyword ls).hits last s = [⟨t, [], r⟩] := by
  induction ls generalizing last s with
  | nil => exact .inr ⟨[], s, rfl⟩
  | cons l ls ih =>
    show (char (Text.sameLetter l) ++ keyword ls).hits last s = [] ∨
      ∃ t r, (char (Text.sameLetter l) ++ keyword ls).hits last s = [⟨t, [], r⟩]
    cases s with
    | nil => exact .inl rfl
    | cons c s =>
      by_cases hc : Text.sameLetter l c = true
      · rw [hits_append_of_singleton (h := ⟨[c], [], s⟩) (by simp [hits, hc])]
        rcases ih (lastOf last [c]) s with hNone | ⟨t, r, hOne⟩
        · exact .inl (by rw [hNone]; rfl)
        · exact .inr ⟨c :: t, r, by rw [hOne]; rfl⟩
      · exact .inl (hits_append_eq_nil (by simp [hits, hc]))

theorem hits_defaultWord (last : Option Char) (s : List Char) :
    defaultWord.hits last s = [] ∨ ∃ t r, defaultWord.hits last s = [⟨t, [], r⟩] := by
  rw [defaultWord, hits_atWordEdge_append]
  by_cases h : wordEdge last s = true
  · rw [if_pos h]
    exact hits_keyword _ last s
  · exact .inl (if_neg h)

/-- The value that is read at the head of a text. -/
def valueHere (e : Pattern) (last : Option Char) (s : List Char) : Option (List Char) :=
  (defaultWord.here last s).bind fun h => valueAfter e h.rest

theorem EndsDefault.map_here (he : EndsDefault e) (last : Option Char) (s : List Char) :
    ((defaultWord ++ defaultValue e).here last s).map (·.groupText 1) = valueHere e last s := by
  have hForward : (defaultValue e).Forward := ⟨trivial, trivial, he.forward_append⟩
  rw [valueHere, here, here]
  rcases hits_defaultWord last s with hNone | ⟨t, r, hOne⟩
  · rw [hits_append_eq_nil hNone, hNone]
    rfl
  · rw [hits_append_of_singleton hOne, hOne, hForward.hits_eq _ none, List.head?_map, Option.map_map]
    rfl

/-- The value that is found first. -/
def foundValue (e : Pattern) (last : Option Char) (s : List Char) : Option (List Char) :=
  ((defaultWord ++ defaultValue e).findFrom last s).map (·.groupText 1)

theorem EndsDefault.foundValue_cons (he : EndsDefault e) (last : Option Char) (c : Char) (s : List Char) :
    foundValue e last (c :: s) = (valueHere e last (c :: s)).or (foundValue e (some c) s) := by
  rw [foundValue, findFrom, Option.map_or, he.map_here, foundValue]

theorem foundValue_nil (last : Option Char) : foundValue e last [] = none := by
  have hWord : defaultWord.hits last [] = [] := by
    rw [defaultWord, hits_atWordEdge_append]
    exact ite_self _
  rw [foundValue, findFrom, here, hits_append_eq_nil hWord]
  rfl

theorem foundValue_blanks (hBlank : ∀ c ∈ w, Text.isBlank c = true) (last : Option Char) (s : List Char) :
    foundValue e last (w ++ s) = foundValue e (lastOf last w) s := by
  rw [foundValue, findFrom_append ((refuses_defaultWord.append _).passesOver hBlank), foundValue]

theorem valueHere_squeeze (last : Option Char) (s : List Char) :
    valueHere e (last.map Text.squeezeChar) (Text.squeeze s) =
      (defaultWord.here last s).bind fun h => valueAfter e (Text.squeeze h.rest) := by
  rw [valueHere, here, here, stable_defaultWord.hits_squeeze, List.head?_map]
  cases (defaultWord.hits last s).head? <;> rfl

/-- The value that is found does not depend on the layout, unless it is blank. -/
theorem EndsDefault.foundValue_squeeze (he : EndsDefault e) (last : Option Char) (s : List Char) :
    foundValue e (last.map Text.squeezeChar) (Text.squeeze s) = (foundValue e last s).map Text.squeeze ∨
      ∃ v, foundValue e last s = some v ∧ ∀ c ∈ v, Text.isBlank c = true := by
  induction s using Text.runs_induction generalizing last with
  | nil => exact .inl (by rw [Text.squeeze_nil, foundValue_nil, foundValue_nil, Option.map_none])
  | char c s hc ih =>
    have hHere := valueHere_squeeze (e := e) last (c :: s)
    have hRest := ih (some c)
    rw [Option.map_some, Text.squeezeChar_of_isBlank hc] at hRest
    rw [Text.squeeze_cons hc] at hHere ⊢
    rw [he.foundValue_cons, he.foundValue_cons, hHere, valueHere]
    cases defaultWord.here last (c :: s) with
    | none => simpa using hRest
    | some h =>
      rcases he.valueAfter_squeeze h.rest with hSame | ⟨v, hValue, hBlank⟩
      · rw [Option.bind_some, Option.bind_some, hSame]
        cases valueAfter e h.rest with
        | none => simpa using hRest
        | some v => exact .inl rfl
      · exact .inr ⟨v, by rw [Option.bind_some, hValue, Option.some_or], hBlank⟩
  | blanks w s hw hBlank hs ih =>
    have hRun : Text.squeeze (w ++ s) = [' '] ++ Text.squeeze s := Text.squeeze_blanks hw hBlank hs
    have hLast : lastOf (last.map Text.squeezeChar) [' '] = (lastOf last w).map Text.squeezeChar := by
      rw [← lastOf_squeeze]
      have hSqueeze := Text.squeeze_blanks hw hBlank (s := []) (by simp)
      rw [List.append_nil] at hSqueeze
      rw [hSqueeze]
      rfl
    rw [hRun, foundValue_blanks hBlank, foundValue_blanks (by decide), hLast]
    exact ih (lastOf last w)

/-- In a squeezed text, the value that is found begins with a character that is no blank. -/
theorem EndsDefault.head_foundValue_squeeze (he : EndsDefault e) (last : Option Char) {v : List Char}
    (h : foundValue e (last.map Text.squeezeChar) (Text.squeeze s) = some v) :
    ∃ c t, v = c :: t ∧ Text.isBlank c = false := by
  induction s using Text.runs_induction generalizing last with
  | nil =>
    rw [Text.squeeze_nil, foundValue_nil] at h
    cases h
  | char c s hc ih =>
    have hHere := valueHere_squeeze (e := e) last (c :: s)
    rw [Text.squeeze_cons hc] at h hHere
    rw [he.foundValue_cons, hHere] at h
    rcases Option.or_eq_some_iff.1 h with h | ⟨-, h⟩
    · obtain ⟨k, -, h⟩ := Option.bind_eq_some_iff.1 h
      exact he.head_valueAfter_squeeze h
    · refine ih (some c) ?_
      rwa [Option.map_some, Text.squeezeChar_of_isBlank hc]
  | blanks w s hw hBlank hs ih =>
    have hRun : Text.squeeze (w ++ s) = [' '] ++ Text.squeeze s := Text.squeeze_blanks hw hBlank hs
    rw [hRun, foundValue_blanks (by decide)] at h
    exact ih (some ' ') h

/-! ## The default of a column -/

/-- What ends a default: another constraint, or the end of the text. -/
def defaultEnd : Pattern :=
  either (phrase "NOT" ["NULL"]) (either (keyword "PRIMARY".toList) (either (keyword "FOREIGN".toList)
    (either (keyword "UNIQUE".toList) (either (keyword "CHECK".toList) atEnd))))

theorem endsDefault_defaultEnd : EndsDefault defaultEnd where
  stable := (stable_phrase (by decide) (by decide)).either ((stable_word (by decide)).either
    ((stable_word (by decide)).either ((stable_word (by decide)).either ((stable_word (by decide)).either
      stable_atEnd))))
  refuses := (refuses_phrase (by decide)).either ((refuses_word (by decide)).either
    ((refuses_word (by decide)).either ((refuses_word (by decide)).either ((refuses_word (by decide)).either
      fun _ _ _ _ => rfl))))
  forward := ⟨⟨⟨forward_keyword _, trivial⟩, forward_keyword _⟩, forward_keyword _, forward_keyword _,
    forward_keyword _, forward_keyword _, trivial⟩

theorem map_find_defaultBeforeConstraint (s : List Char) :
    (defaultBeforeConstraint.find s).map (·.groupText 1) = foundValue defaultEnd none s := by
  have hShape : defaultBeforeConstraint =
      defaultWord ++ blanks ++ group 1 (many (fun _ => true) .shortest) ++ blanks ++ defaultEnd := rfl
  rw [foundValue, hShape, find, findFrom_append_assoc, findFrom_append_assoc, findFrom_append_assoc]
  rfl

theorem stable_defaultAtEnd : defaultAtEnd.Stable :=
  stable_gap (stable_blanks stable_defaultWord ((stable_many .longest fun c hc => by simp [hc]).group 1)
    (refuses_group (refuses_many fun c hc => by simp [hc]) 1)) stable_atEnd fun _ _ _ _ => rfl

theorem refuses_defaultAtEnd : defaultAtEnd.Refuses Text.isBlank :=
  (((refuses_defaultWord.append _).append _).append _).append _

/-- The last word of a text is not empty and holds no blank. -/
theorem groupText_defaultAtEnd {h : Hit} (hFind : defaultAtEnd.find s = some h) :
    h.groupText 1 ≠ [] ∧ ∀ c ∈ h.groupText 1, Text.isBlank c = false := by
  obtain ⟨u, v, -, hWhole⟩ := exists_of_findFrom_eq_some hFind
  obtain ⟨_, _, hToGap, -, rfl⟩ := exists_of_mem_hits_append hWhole
  obtain ⟨_, _, hToValue, -, rfl⟩ := exists_of_mem_hits_append hToGap
  obtain ⟨_, m, hToBlanks, hm, rfl⟩ := exists_of_mem_hits_append hToValue
  obtain ⟨k, b, hk, hb, rfl⟩ := exists_of_mem_hits_append hToBlanks
  -- the word and the blanks keep nothing
  have hWord : k.groups = [] := by
    rcases hits_defaultWord (lastOf none u) v with hNone | ⟨t, r, hOne⟩
    · rw [← defaultWord, hNone] at hk
      exact absurd hk List.not_mem_nil
    · rw [← defaultWord, hOne] at hk
      rw [List.mem_singleton.1 hk]
  have hBlanks : b.groups = [] := (of_mem_hits_many hb).1
  obtain ⟨n, hn, rfl⟩ := List.mem_map.1 hm
  obtain ⟨-, hNonempty, hSolid⟩ := of_mem_hits_many hn
  have hText : n.text ≠ [] ∧ ∀ c ∈ n.text, Text.isBlank c = false := ⟨hNonempty, fun c hc => by
    simpa using hSolid c hc⟩
  simpa [Hit.groupText, Hit.group?, Hit.andThen, hWord, hBlanks] using hText

theorem defaultIn_eq (s : List Char) : defaultIn s =
    ((foundValue defaultEnd none s).or ((defaultAtEnd.find s).map (·.groupText 1))).map Text.trim := by
  rw [defaultIn, ← map_find_defaultBeforeConstraint, ← Option.map_or, Option.map_map]
  rfl

/-- The default does not depend on the layout, unless it is empty. -/
theorem defaultIn_squeeze (s : List Char) :
    defaultIn (Text.squeeze s) = (defaultIn s).map Text.squeeze ∨ defaultIn s = some [] := by
  rw [defaultIn_eq, defaultIn_eq]
  rcases endsDefault_defaultEnd.foundValue_squeeze none s with hSame | ⟨v, hValue, hBlank⟩
  · left
    have hEnd : (defaultAtEnd.find (Text.squeeze s)).map (·.groupText 1) =
        ((defaultAtEnd.find s).map (·.groupText 1)).map Text.squeeze := by
      rw [stable_defaultAtEnd.find_squeeze refuses_defaultAtEnd, Option.map_map, Option.map_map]
      exact congrArg (fun f => (defaultAtEnd.find s).map f) (funext fun h => h.groupText_squeeze 1)
    rw [show foundValue defaultEnd none (Text.squeeze s) = _ from hSame, hEnd, ← Option.map_or, Option.map_map,
      Option.map_map]
    exact congrArg (fun f => Option.map f _) (funext Text.trim_squeeze)
  · right
    rw [hValue, Option.some_or, Option.map_some, Text.trim_eq_nil hBlank]

/-- The default that is read from a squeezed text is not empty. -/
theorem defaultIn_squeeze_ne_nil (s : List Char) : defaultIn (Text.squeeze s) ≠ some [] := by
  intro h
  rw [defaultIn_eq] at h
  obtain ⟨v, hv, hTrim⟩ := Option.map_eq_some_iff.1 h
  rcases Option.or_eq_some_iff.1 hv with hv | ⟨-, hv⟩
  · obtain ⟨c, t, rfl, hc⟩ := endsDefault_defaultEnd.head_foundValue_squeeze none hv
    exact Text.trim_cons_ne_nil hc t hTrim
  · obtain ⟨k, hFind, rfl⟩ := Option.map_eq_some_iff.1 hv
    obtain ⟨hNonempty, hSolid⟩ := groupText_defaultAtEnd hFind
    rw [Text.trim_of_forall hSolid] at hTrim
    exact hNonempty hTrim

end SqlSurvey.Ddl
