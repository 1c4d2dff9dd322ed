import SqlSurvey.Proofs.Pattern.Parts
import SqlSurvey.Proofs.Text.Layout

/-!
# Patterns and the layout of texts

A stable pattern has the same hits in a text and in the squeezed text. Blanks that may be taken in part are not
stable, but what comes after them mostly refuses a blank, and then only the hits count that take a whole
run: a pattern with these hits the same is loose, and a loose pattern before a stable one that refuses
blanks is stable.
-/

namespace SqlSurvey

namespace Hit

/-- A hit with its texts squeezed. -/
def squeeze (h : Hit) : Hit where
  text := Text.squeeze h.text
  groups := h.groups.map fun g => (g.1, Text.squeeze g.2)
  rest := Text.squeeze h.rest

@[simp] theorem squeeze_text (h : Hit) : h.squeeze.text = Text.squeeze h.text := rfl

@[simp] theorem squeeze_rest (h : Hit) : h.squeeze.rest = Text.squeeze h.rest := rfl

theorem group?_squeeze (h : Hit) (n : Nat) : h.squeeze.group? n = (h.group? n).map Text.squeeze := by
  rw [group?, group?, squeeze, List.find?_map, Option.map_map, Option.map_map]
  rfl

theorem groupText_squeeze (h : Hit) (n : Nat) : h.squeeze.groupText n = Text.squeeze (h.groupText n) := by
  rw [groupText, groupText, group?_squeeze]
  cases h.group? n <;> rfl

/-- The hit cuts no run of blanks in two. -/
def Clean (h : Hit) : Prop :=
  (∀ c ∈ h.text.getLast?, Text.isBlank c = false) ∨ ∀ c ∈ h.rest.head?, Text.isBlank c = false

/-- The hit does not stop before a blank. -/
def stopsSolid (h : Hit) : Bool := !h.rest.head?.any Text.isBlank

theorem clean_of_stopsSolid {h : Hit} (hSolid : h.stopsSolid = true) : h.Clean := by
  right
  intro c hc
  rw [stopsSolid, Option.mem_def.1 hc] at hSolid
  simpa using hSolid

@[simp] theorem stopsSolid_squeeze (h : Hit) : h.squeeze.stopsSolid = h.stopsSolid := by
  rw [stopsSolid, stopsSolid, squeeze_rest, Text.head?_squeeze, Option.any_map]
  exact congrArg (fun f => !h.rest.head?.any f) (funext Text.isBlank_squeezeChar)

/-- After a clean hit, two hits in a row are squeezed one by one. -/
theorem squeeze_andThen {h k : Hit} (hClean : h.Clean) (hText : k.text ++ k.rest = h.rest) :
    (h.andThen k).squeeze = h.squeeze.andThen k.squeeze := by
  have hSeam : Text.squeeze (h.text ++ k.text) = Text.squeeze h.text ++ Text.squeeze k.text := by
    refine Text.squeeze_append (hClean.imp_right fun hRest c hc => hRest c ?_)
    rw [← hText, List.head?_append, hc]
    rfl
  simp [andThen, squeeze, hSeam]

end Hit

namespace Pattern

variable {p q : Pattern} {A : Char → Bool} {last : Option Char} {s w : List Char}

/-! ## Stable and loose patterns -/

/-- The pattern has the same hits whatever the lengths of the runs of blanks, and cuts no run in two. -/
structure Stable (p : Pattern) : Prop where
  hits_squeeze (last : Option Char) (s : List Char) :
    p.hits (last.map Text.squeezeChar) (Text.squeeze s) = (p.hits last s).map Hit.squeeze
  clean (last : Option Char) (s : List Char) : ∀ h ∈ p.hits last s, h.Clean

/-- The same for the hits that do not stop before a blank. -/
def Loose (p : Pattern) : Prop :=
  ∀ last s, (p.hits (last.map Text.squeezeChar) (Text.squeeze s)).filter Hit.stopsSolid =
    ((p.hits last s).filter Hit.stopsSolid).map Hit.squeeze

theorem filter_stopsSolid_map_squeeze (hs : List Hit) :
    (hs.map Hit.squeeze).filter Hit.stopsSolid = (hs.filter Hit.stopsSolid).map Hit.squeeze := by
  rw [List.filter_map]
  exact congrArg (fun P => (hs.filter P).map Hit.squeeze) (funext Hit.stopsSolid_squeeze)

theorem Stable.loose (hp : p.Stable) : p.Loose := by
  intro last s
  rw [hp.hits_squeeze, filter_stopsSolid_map_squeeze]

/-- The character before what follows a text is squeezed with the text. -/
theorem lastOf_squeeze (last : Option Char) (t : List Char) :
    lastOf (last.map Text.squeezeChar) (Text.squeeze t) = (lastOf last t).map Text.squeezeChar := by
  rw [lastOf, lastOf, Text.getLast?_squeeze, Option.map_or]

/-- What comes after a clean hit is squeezed with it. -/
theorem Stable.map_andThen (hq : q.Stable) {h : Hit} (hClean : h.Clean) (last : Option Char) :
    (q.hits (lastOf (last.map Text.squeezeChar) h.squeeze.text) h.squeeze.rest).map h.squeeze.andThen =
      ((q.hits (lastOf last h.text) h.rest).map h.andThen).map Hit.squeeze := by
  rw [Hit.squeeze_text, Hit.squeeze_rest, lastOf_squeeze, hq.hits_squeeze, List.map_map, List.map_map]
  exact List.map_congr_left fun k hk => (Hit.squeeze_andThen hClean (text_append_rest hk)).symm

/-- Two hits in a row are clean when both are. -/
theorem clean_andThen {h k : Hit} (hClean : h.Clean) (kClean : k.Clean) (hText : k.text ++ k.rest = h.rest) :
    (h.andThen k).Clean := by
  cases hNil : k.text with
  | nil =>
    -- the second hit is empty, so what follows it follows the first
    rw [hNil, List.nil_append] at hText
    simpa [Hit.Clean, hNil, hText] using hClean
  | cons c t =>
    refine kClean.imp_left fun hLast d hd => hLast d ?_
    rwa [Hit.andThen_text, List.getLast?_append_of_ne_nil _ (by simp [hNil])] at hd

theorem Stable.append (hp : p.Stable) (hq : q.Stable) : (p ++ q).Stable where
  hits_squeeze last s := by
    rw [hits_append, hits_append, hp.hits_squeeze, List.flatMap_map, List.map_flatMap]
    exact List.flatMap_congr fun h hh => hq.map_andThen (hp.clean last s h hh) last
  clean last s h hh := by
    obtain ⟨k, m, hk, hm, rfl⟩ := exists_of_mem_hits_append hh
    exact clean_andThen (hp.clean last s k hk) (hq.clean _ _ m hm) (text_append_rest hm)

/-- Before something that refuses blanks, only the hits count that do not stop before one. -/
theorem hits_append_eq_filter (p : Pattern) (hq : q.Refuses Text.isBlank) (last : Option Char) (s : List Char) :
    (p ++ q).hits last s = ((p.hits last s).filter Hit.stopsSolid).flatMap fun h =>
      (q.hits (lastOf last h.text) h.rest).map h.andThen := by
  refine (hits_append p q last s).trans (flatMap_eq_flatMap_filter fun h _ hSolid => ?_)
  cases hRest : h.rest with
  | nil => simp [Hit.stopsSolid, hRest] at hSolid
  | cons c r => rw [hq _ c r (by simpa [Hit.stopsSolid, hRest] using hSolid), List.map_nil]

theorem Loose.append (hp : p.Loose) (hq : q.Stable) (hRefuses : q.Refuses Text.isBlank) :
    (p ++ q).Stable where
  hits_squeeze last s := by
    rw [hits_append_eq_filter p hRefuses, hits_append_eq_filter p hRefuses, hp last s, List.flatMap_map,
      List.map_flatMap]
    refine List.flatMap_congr fun h hh => hq.map_andThen ?_ last
    exact Hit.clean_of_stopsSolid (List.mem_filter.1 hh).2
  clean last s h hh := by
    rw [hits_append_eq_filter p hRefuses] at hh
    obtain ⟨k, hk, hh⟩ := List.mem_flatMap.1 hh
    obtain ⟨m, hm, rfl⟩ := List.mem_map.1 hh
    exact clean_andThen (Hit.clean_of_stopsSolid (List.mem_filter.1 hk).2) (hq.clean _ _ m hm)
      (text_append_rest hm)

theorem Stable.append_loose (hp : p.Stable) (hq : q.Loose) : (p ++ q).Loose := by
  intro last s
  have hEach : ∀ (last : Option Char) (h : Hit) (s : List Char),
      ((q.hits last s).map h.andThen).filter Hit.stopsSolid =
        ((q.hits last s).filter Hit.stopsSolid).map h.andThen := fun last h s => List.filter_map
  simp only [hits_append, List.filter_flatMap, hEach]
  rw [hp.hits_squeeze, List.flatMap_map, List.map_flatMap]
  refine List.flatMap_congr fun h hh => ?_
  rw [Hit.squeeze_text, Hit.squeeze_rest, lastOf_squeeze, hq, List.map_map, List.map_map]
  refine List.map_congr_left fun k hk => ?_
  exact (Hit.squeeze_andThen (hp.clean last s h hh) (text_append_rest (List.mem_filter.1 hk).1)).symm

theorem Stable.either (hp : p.Stable) (hq : q.Stable) : (either p q).Stable where
  hits_squeeze last s := by
    rw [hits_either, hits_either, hp.hits_squeeze, hq.hits_squeeze, List.map_append]
  clean last s h hh := by
    rw [hits_either] at hh
    exact (List.mem_append.1 hh).elim (hp.clean last s h) (hq.clean last s h)

theorem Loose.either (hp : p.Loose) (hq : q.Loose) : (either p q).Loose := by
  intro last s
  rw [hits_either, hits_either, List.filter_append, List.filter_append, hp, hq, List.map_append]

theorem Stable.group (hp : p.Stable) (n : Nat) : (group n p).Stable where
  hits_squeeze last s := by
    rw [hits_group, hits_group, hp.hits_squeeze, List.map_map, List.map_map]
    rfl
  clean last s h hh := by
    rw [hits_group] at hh
    obtain ⟨k, hk, rfl⟩ := List.mem_map.1 hh
    exact hp.clean last s k hk

theorem Loose.group (hp : p.Loose) (n : Nat) : (group n p).Loose := by
  intro last s
  have hEach : ∀ hs : List Hit, (hs.map fun h => { h with groups := (n, h.text) :: h.groups }).filter
      Hit.stopsSolid = (hs.filter Hit.stopsSolid).map fun h => { h with groups := (n, h.text) :: h.groups } :=
    fun hs => List.filter_map
  rw [hits_group, hits_group, hEach, hEach, hp, List.map_map, List.map_map]
  rfl

/-- How three patterns in a row are bracketed does not matter. -/
theorem Stable.of_append_assoc {r : Pattern} (h : (p ++ (q ++ r)).Stable) : ((p ++ q) ++ r).Stable where
  hits_squeeze last s := by rw [hits_append_assoc, hits_append_assoc, h.hits_squeeze]
  clean last s := by rw [hits_append_assoc]; exact h.clean last s

/-! ## Simple patterns -/

theorem stable_empty : empty.Stable where
  hits_squeeze _ _ := rfl
  clean last s h hh := by
    obtain rfl := List.mem_singleton.1 hh
    exact .inl (by simp)

/-- One character that is no blank. -/
theorem stable_char (hA : ∀ c, Text.isBlank c = true → A c = false) : (char A).Stable where
  hits_squeeze last s := by
    induction s using Text.runs_induction with
    | nil => rfl
    | char c s hc _ =>
      have hOne : Text.squeeze [c] = [c] := Text.squeeze_cons hc []
      rw [Text.squeeze_cons hc]
      by_cases h : A c = true <;> simp [hits, h, Hit.squeeze, hOne]
    | blanks w s hw hBlank hs _ =>
      obtain ⟨d, w, rfl⟩ := List.exists_cons_of_ne_nil hw
      rw [Text.squeeze_blanks hw hBlank hs]
      simp [hits, hA ' ' (by decide), hA d (hBlank d List.mem_cons_self)]
  clean last s h hh := by
    cases s with
    | nil => exact absurd hh List.not_mem_nil
    | cons c r =>
      by_cases hc : A c = true
      · simp only [hits, hc, if_true, List.mem_singleton] at hh
        left
        intro d hd
        obtain rfl : c = d := by simpa [hh] using hd
        by_contra hBlank
        rw [hA c (by simpa using hBlank)] at hc
        exact Bool.noConfusion hc
      · simp [hits, hc] at hh

theorem runHits_squeeze (hA : ∀ c, Text.isBlank c = true → A c = false) (s : List Char) :
    runHits A (Text.squeeze s) = (runHits A s).map Hit.squeeze := by
  induction s using Text.runs_induction with
  | nil => rfl
  | char c s hc ih =>
    have hOne : Text.squeeze [c] = [c] := Text.squeeze_cons hc []
    rw [Text.squeeze_cons hc]
    by_cases h : A c = true
    · have hEach : (fun h : Hit => { h.squeeze with text := c :: h.squeeze.text }) =
          fun h => Hit.squeeze { h with text := c :: h.text } := by
        funext h
        simp [Hit.squeeze, Text.squeeze_cons hc]
      rw [runHits, runHits, if_pos h, if_pos h, ih, List.map_cons, List.map_map, List.map_map]
      simp only [Function.comp_def, hEach]
      simp [Hit.squeeze, hOne]
    · rw [runHits, runHits, if_neg h, if_neg h, List.map_nil]
  | blanks w s hw hBlank hs _ =>
    obtain ⟨d, w, rfl⟩ := List.exists_cons_of_ne_nil hw
    rw [Text.squeeze_blanks hw hBlank hs, List.cons_append, runHits_cons_of_not (hA ' ' (by decide)),
      runHits_cons_of_not (hA d (hBlank d List.mem_cons_self))]
    rfl

/-- Characters that are no blanks, as many as are preferred. -/
theorem stable_many (preference : Preference) (hA : ∀ c, Text.isBlank c = true → A c = false) :
    (many A preference).Stable where
  hits_squeeze last s := by
    cases preference with
    | longest => rw [hits, hits, runHits_squeeze hA, List.map_reverse]
    | shortest => exact runHits_squeeze hA s
  clean last s h hh := by
    left
    intro c hc
    by_contra hBlank
    have hClass := (of_mem_hits_many hh).2.2 c (List.mem_of_getLast? hc)
    rw [hA c (by simpa using hBlank)] at hClass
    exact Bool.noConfusion hClass

theorem stable_atStart : atStart.Stable where
  hits_squeeze last s := by cases last <;> rfl
  clean last s h hh := by
    cases last with
    | none =>
      obtain rfl : h = ⟨[], [], s⟩ := by simpa [hits] using hh
      exact .inl (by simp)
    | some c => simp [hits] at hh

theorem stable_atEnd : atEnd.Stable where
  hits_squeeze last s := by
    cases s with
    | nil => rfl
    | cons c s =>
      have hNil : Text.squeeze (c :: s) ≠ [] := fun h => List.cons_ne_nil c s (Text.squeeze_eq_nil_iff.1 h)
      simp [hits, hNil]
  clean last s h hh := by
    cases s with
    | nil =>
      obtain rfl : h = ⟨[], [], []⟩ := by simpa [hits] using hh
      exact .inl (by simp)
    | cons c s => simp [hits] at hh

/-- A blank is no part of a word, and neither is the space for it. -/
theorem isWordChar_squeezeChar (c : Char) : Text.isWordChar (Text.squeezeChar c) = Text.isWordChar c := by
  unfold Text.squeezeChar
  by_cases hc : Text.isBlank c = true
  · rw [if_pos hc, Text.isWordChar_of_isBlank hc]
    decide
  · rw [if_neg hc]

theorem wordEdge_squeeze (last : Option Char) (s : List Char) :
    wordEdge (last.map Text.squeezeChar) (Text.squeeze s) = wordEdge last s := by
  have hWord : ∀ c, wordEdge.isWord (Text.squeezeChar c) = wordEdge.isWord c := isWordChar_squeezeChar
  rw [wordEdge, wordEdge, Text.head?_squeeze, Option.any_map, Option.any_map]
  simp only [hWord]

theorem stable_atWordEdge : atWordEdge.Stable where
  hits_squeeze last s := by
    rw [hits, hits, wordEdge_squeeze]
    by_cases h : wordEdge last s = true <;> simp [h, Hit.squeeze]
  clean last s h hh := by
    by_cases hEdge : wordEdge last s = true
    · obtain rfl : h = ⟨[], [], s⟩ := by simpa [hits, hEdge] using hh
      exact .inl (by simp)
    · simp [hits, hEdge] at hh

/-! ## Blanks -/

/-- Of the hits of a run of blanks, the longest is the one that does not stop before a blank. -/
theorem filter_hits_blanks (hw : w ≠ []) (hBlank : ∀ c ∈ w, Text.isBlank c = true)
    (hs : ∀ c ∈ s.head?, Text.isBlank c = false) (last : Option Char) :
    (blanks.hits last (w ++ s)).filter Hit.stopsSolid = [⟨w, [], s⟩] := by
  obtain ⟨ks, hks, hRest⟩ := reverse_runHits hw hBlank hs
  have hSolid : (⟨w, [], s⟩ : Hit).stopsSolid = true := by
    cases s with
    | nil => rfl
    | cons c s => simp [Hit.stopsSolid, hs c rfl]
  have hNone : ks.filter Hit.stopsSolid = [] := by
    rw [List.filter_eq_nil_iff]
    intro k hk
    obtain ⟨c, r, hc, hEq⟩ := hRest k hk
    simp [Hit.stopsSolid, hEq, hc]
  rw [show blanks.hits last (w ++ s) = ⟨w, [], s⟩ :: ks from hks, List.filter_cons_of_pos hSolid, hNone]

theorem loose_blanks : blanks.Loose := by
  intro last s
  induction s using Text.runs_induction with
  | nil => rfl
  | char c s hc _ =>
    have hNone : ∀ last t, blanks.hits last (c :: t) = [] := fun _ t => by
      rw [blanks, hits, runHits_cons_of_not hc, List.reverse_nil]
    rw [Text.squeeze_cons hc, hNone, hNone]
    rfl
  | blanks w s hw hBlank hs _ =>
    have hSpace : Text.squeeze w = [' '] := by
      simpa using Text.squeeze_blanks hw hBlank (s := []) (by simp)
    rw [filter_hits_blanks hw hBlank hs, Text.squeeze_blanks hw hBlank hs]
    show (blanks.hits _ ([' '] ++ Text.squeeze s)).filter Hit.stopsSolid = _
    rw [filter_hits_blanks (by simp) (by decide) (Text.isBlank_head_squeeze hs)]
    simp [Hit.squeeze, hSpace]

theorem Loose.maybe (hp : p.Loose) : (maybe p).Loose := hp.either stable_empty.loose

theorem loose_gap : gap.Loose := loose_blanks.maybe

theorem Stable.maybe (hp : p.Stable) : (Pattern.maybe p).Stable := hp.either stable_empty

/-! ## Parts without blanks -/

/-- The text that is kept as part `n` holds no blank. -/
def KeepsSolid (n : Nat) : Pattern → Prop
  | seq p q => p.KeepsSolid n ∧ q.KeepsSolid n
  | either p q => p.KeepsSolid n ∧ q.KeepsSolid n
  | group m p => p.KeepsSolid n ∧ (m = n → p.Avoids Text.isBlank)
  | _ => True

theorem KeepsSolid.parts {n : Nat} (hp : p.KeepsSolid n) :
    p.Parts n fun t => ∀ c ∈ t, Text.isBlank c = false := by
  induction p with
  | seq p q ihp ihq => exact ⟨ihp hp.1, ihq hp.2⟩
  | either p q ihp ihq => exact ⟨ihp hp.1, ihq hp.2⟩
  | group m p ih => exact ⟨ih hp.1, fun hm last s h hh => not_mem_text_of_avoids (hp.2 hm) hh⟩
  | empty => trivial
  | char => trivial
  | many => trivial
  | atStart => trivial
  | atEnd => trivial
  | atWordEdge => trivial

theorem isBlank_groupText_of_mem {n : Nat} (hp : p.KeepsSolid n) {h : Hit} (hh : h ∈ p.hits last s) :
    ∀ c ∈ h.groupText n, Text.isBlank c = false := by
  have hPart := hp.parts.of_group?_of_mem hh
  rw [Hit.groupText]
  cases hGroup : h.group? n with
  | none => exact fun c hc => absurd hc List.not_mem_nil
  | some t => exact hPart t hGroup

/-- What is found keeps no blank in such a part. -/
theorem isBlank_groupText {n : Nat} (hp : p.KeepsSolid n) {h : Hit} (hFind : p.find s = some h) :
    ∀ c ∈ h.groupText n, Text.isBlank c = false := by
  obtain ⟨u, v, -, hHit⟩ := exists_of_findFrom_eq_some hFind
  exact isBlank_groupText_of_mem hp hHit

/-! ## Searching -/

/-- A search for a pattern that does not begin with a blank finds the same in the squeezed text. -/
theorem Stable.findFrom_squeeze (hp : p.Stable) (hRefuses : p.Refuses Text.isBlank) (last : Option Char)
    (s : List Char) :
    p.findFrom (last.map Text.squeezeChar) (Text.squeeze s) = (p.findFrom last s).map Hit.squeeze := by
  have hHere : ∀ last s, p.here (last.map Text.squeezeChar) (Text.squeeze s) =
      (p.here last s).map Hit.squeeze := fun last s => by
    rw [here, here, hp.hits_squeeze, List.head?_map]
  induction s using Text.runs_induction generalizing last with
  | nil => exact hHere last []
  | char c s hc ih =>
    have hFirst := hHere last (c :: s)
    have hRest := ih (some c)
    rw [Option.map_some, Text.squeezeChar_of_isBlank hc] at hRest
    rw [Text.squeeze_cons hc] at hFirst ⊢
    rw [findFrom, findFrom, hFirst, hRest, Option.map_or]
  | blanks w s hw hBlank hs ih =>
    obtain ⟨v, d, rfl⟩ := (List.eq_nil_or_concat' w).resolve_left hw
    have hd : Text.isBlank d = true := hBlank d (by simp)
    have hLast : ∀ last, lastOf last (v ++ [d]) = some d := fun _ => by simp [lastOf]
    have hSpace : p.PassesOver (last.map Text.squeezeChar) [' '] (Text.squeeze s) :=
      hRefuses.passesOver (by decide)
    have hRest := ih (some d)
    rw [Option.map_some, Text.squeezeChar, if_pos hd] at hRest
    rw [Text.squeeze_blanks hw hBlank hs, findFrom_append (hRefuses.passesOver hBlank), hLast, ← hRest]
    exact findFrom_append hSpace

theorem Stable.find_squeeze (hp : p.Stable) (hRefuses : p.Refuses Text.isBlank) (s : List Char) :
    p.find (Text.squeeze s) = (p.find s).map Hit.squeeze := hp.findFrom_squeeze hRefuses none s

theorem Stable.occursIn_squeeze (hp : p.Stable) (hRefuses : p.Refuses Text.isBlank) (s : List Char) :
    p.occursIn (Text.squeeze s) = p.occursIn s := by
  rw [occursIn, occursIn, hp.find_squeeze hRefuses, Option.isSome_map]

/-- The pattern has hits at the beginning of a text only. -/
def Anchored (p : Pattern) : Prop := ∀ c s, p.hits (some c) s = []

theorem anchored_atStart : atStart.Anchored := fun _ _ => rfl

theorem Anchored.append (hp : p.Anchored) (q : Pattern) : (p ++ q).Anchored :=
  fun c s => hits_append_eq_nil (hp c s)

theorem Anchored.find_eq (hp : p.Anchored) (s : List Char) : p.find s = p.here none s := by
  cases s with
  | nil => rfl
  | cons c r =>
    have hNone : p.findFrom (some c) r = none := by
      refine findFrom_eq_none_iff.2 fun u v _ => ?_
      obtain ⟨d, hd⟩ : ∃ d, lastOf (some c) u = some d := by
        cases hLast : u.getLast? <;> simp [lastOf, hLast]
      rw [hd, hp]
    rw [find, findFrom, hNone, Option.or_none]

/-- A pattern for the beginning of a text is found in the squeezed text as in the text. -/
theorem Stable.find_squeeze_of_anchored (hp : p.Stable) (hAnchored : p.Anchored) (s : List Char) :
    p.find (Text.squeeze s) = (p.find s).map Hit.squeeze := by
  rw [hAnchored.find_eq, hAnchored.find_eq, here, here, ← List.head?_map, ← hp.hits_squeeze]
  rfl

theorem Stable.occursIn_squeeze_of_anchored (hp : p.Stable) (hAnchored : p.Anchored) (s : List Char) :
    p.occursIn (Text.squeeze s) = p.occursIn s := by
  rw [occursIn, occursIn, hp.find_squeeze_of_anchored hAnchored, Option.isSome_map]

end Pattern

end SqlSurvey
