import SqlSurvey.Pattern.Basic
import Mathlib.Data.List.Basic
import Mathlib.Data.List.Forall2

/-!
# The hits of a pattern at one place

Equations for the list of hits, and the cases in which a pattern has to be tried in one way only: a
repetition that must take all it can get because what follows refuses the characters of its class, and
a keyword before something that refuses word characters.
-/

namespace SqlSurvey

namespace Hit

@[simp] theorem nil_andThen (s : List Char) : (⟨[], [], s⟩ : Hit).andThen = id := by
  funext k
  simp [andThen]

theorem andThen_assoc (h k l : Hit) : (h.andThen k).andThen l = h.andThen (k.andThen l) := by
  simp [andThen]

@[simp] theorem andThen_text (h k : Hit) : (h.andThen k).text = h.text ++ k.text := rfl

@[simp] theorem andThen_rest (h k : Hit) : (h.andThen k).rest = k.rest := rfl

end Hit

namespace Pattern

variable {p q r : Pattern} {A B : Char → Bool} {last : Option Char} {s : List Char}

/-! ## Equations -/

@[simp] theorem lastOf_nil (last : Option Char) : lastOf last [] = last := rfl

theorem lastOf_cons (last : Option Char) (c : Char) (t : List Char) :
    lastOf last (c :: t) = lastOf (some c) t := by
  cases t with
  | nil => rfl
  | cons d t => simp [lastOf, List.getLast?_eq_some_getLast]

theorem lastOf_lastOf (last : Option Char) (t u : List Char) :
    lastOf (lastOf last t) u = lastOf last (t ++ u) := by
  simp [lastOf, List.getLast?_append, Option.or_assoc]

theorem hits_empty (last : Option Char) (s : List Char) : empty.hits last s = [⟨[], [], s⟩] := rfl

theorem hits_append (p q : Pattern) (last : Option Char) (s : List Char) :
    (p ++ q).hits last s =
      (p.hits last s).flatMap fun h => (q.hits (lastOf last h.text) h.rest).map h.andThen := rfl

theorem hits_either (p q : Pattern) (last : Option Char) (s : List Char) :
    (either p q).hits last s = p.hits last s ++ q.hits last s := rfl

theorem hits_group (n : Nat) (p : Pattern) (last : Option Char) (s : List Char) :
    (group n p).hits last s =
      (p.hits last s).map fun h => { h with groups := (n, h.text) :: h.groups } := rfl

/-- How three patterns in a row are bracketed does not matter. -/
theorem hits_append_assoc (p q r : Pattern) (last : Option Char) (s : List Char) :
    ((p ++ q) ++ r).hits last s = (p ++ (q ++ r)).hits last s := by
  simp only [hits_append, List.flatMap_assoc, List.flatMap_map, List.map_flatMap, List.map_map]
  refine List.flatMap_congr fun h _ => List.flatMap_congr fun k _ => ?_
  rw [Hit.andThen_text, Hit.andThen_rest, lastOf_lastOf]
  exact List.map_congr_left fun l _ => Hit.andThen_assoc h k l

theorem hits_empty_append (q : Pattern) (last : Option Char) (s : List Char) :
    (empty ++ q).hits last s = q.hits last s := by
  simp [hits_append, hits_empty]

/-- A part that may be left out is tried before it is left out. -/
theorem hits_maybe_append (p q : Pattern) (last : Option Char) (s : List Char) :
    (maybe p ++ q).hits last s = (p ++ q).hits last s ++ q.hits last s := by
  simp [maybe, hits_append, hits_either, hits_empty]

/-- Hits that lead nowhere may be left out. -/
theorem flatMap_eq_flatMap_filter {P : Hit → Bool} {f : Hit → List Hit} {hs : List Hit}
    (h : ∀ k ∈ hs, P k = false → f k = []) : hs.flatMap f = (hs.filter P).flatMap f := by
  induction hs with
  | nil => rfl
  | cons k hs ih =>
    have hRest := ih fun m hm => h m (List.mem_cons_of_mem k hm)
    by_cases hk : P k = true
    · rw [List.filter_cons_of_pos hk, List.flatMap_cons, List.flatMap_cons, hRest]
    · rw [List.filter_cons_of_neg hk, List.flatMap_cons, h k List.mem_cons_self (by simpa using hk),
        List.nil_append, hRest]

theorem hits_append_eq_nil (hp : p.hits last s = []) : (p ++ q).hits last s = [] := by
  rw [hits_append, hp, List.flatMap_nil]

/-- When all hits but the first lead nowhere, only the first one counts. -/
theorem hits_append_of_cons {h : Hit} {hs : List Hit} (hp : p.hits last s = h :: hs)
    (hq : ∀ k ∈ hs, q.hits (lastOf last k.text) k.rest = []) :
    (p ++ q).hits last s = (q.hits (lastOf last h.text) h.rest).map h.andThen := by
  have hRest : hs.flatMap (fun k => (q.hits (lastOf last k.text) k.rest).map k.andThen) = [] := by
    rw [List.flatMap_eq_nil_iff]
    intro k hk
    rw [hq k hk, List.map_nil]
  rw [hits_append, hp, List.flatMap_cons, hRest, List.append_nil]

theorem hits_append_of_singleton {h : Hit} (hp : p.hits last s = [h]) :
    (p ++ q).hits last s = (q.hits (lastOf last h.text) h.rest).map h.andThen :=
  hits_append_of_cons hp fun _ hk => absurd hk List.not_mem_nil

/-! ## Patterns that take a text in one way -/

/-- Before `q` and the text `s`, the pattern takes the text `t`, with the parts `gs`, and nothing else. -/
def Takes (p q : Pattern) (t : List Char) (gs : List (Nat × List Char)) (s : List Char) : Prop :=
  ∀ last, (p ++ q).hits last (t ++ s) = (q.hits (lastOf last t) s).map (⟨t, gs, s⟩ : Hit).andThen

/-- A pattern in a row takes its text after that of the pattern before it. -/
theorem Takes.append {t u : List Char} {gs ks : List (Nat × List Char)}
    (hp : p.Takes (q ++ r) t gs (u ++ s)) (hq : q.Takes r u ks s) :
    (p ++ q).Takes r (t ++ u) (gs ++ ks) s := by
  intro last
  rw [hits_append_assoc, List.append_assoc, hp last, hq, List.map_map, lastOf_lastOf]
  exact List.map_congr_left fun k _ => (Hit.andThen_assoc ⟨t, gs, u ++ s⟩ ⟨u, ks, s⟩ k).symm

theorem Takes.hits {t : List Char} {gs : List (Nat × List Char)} (h : p.Takes empty t gs s)
    (last : Option Char) : p.hits last (t ++ s) = [⟨t, gs, s⟩] := by
  have hEmpty : (p ++ empty).hits last (t ++ s) = p.hits last (t ++ s) := by
    simp [hits_append, hits_empty, Hit.andThen]
  rw [← hEmpty, h last, hits_empty]
  simp [Hit.andThen]

theorem takes_empty (q : Pattern) (s : List Char) : empty.Takes q [] [] s := by
  intro last
  simp [hits_append, hits_empty]

theorem takes_char {c : Char} (hc : A c = true) (q : Pattern) (s : List Char) :
    (char A).Takes q [c] [] s :=
  fun _ => hits_append_of_singleton (h := ⟨[c], [], s⟩) (by simp [hits, hc])

/-- A pattern whose text is kept takes the text that it takes on its own. -/
theorem Takes.group {t : List Char} {gs : List (Nat × List Char)} (hp : p.Takes empty t gs s) (n : Nat)
    (q : Pattern) : (group n p).Takes q t ((n, t) :: gs) s :=
  fun last => hits_append_of_singleton (by rw [hits_group, hp.hits last, List.map_singleton])

/-- A pattern that may be left out is taken when leaving it out leads nowhere. -/
theorem Takes.maybe {t : List Char} {gs : List (Nat × List Char)} (hp : p.Takes q t gs s)
    (hq : ∀ last, q.hits last (t ++ s) = []) : (maybe p).Takes q t gs s := by
  intro last
  rw [hits_maybe_append, hq, List.append_nil, hp last]

/-- A pattern that may be left out is left out when taking it leads nowhere. -/
theorem takes_maybe_nil (h : ∀ last, (p ++ q).hits last s = []) : (Pattern.maybe p).Takes q [] [] s := by
  intro last
  rw [List.nil_append, hits_maybe_append, h, List.nil_append, lastOf_nil, Hit.nil_andThen, List.map_id]

theorem hits_either_append (p q r : Pattern) (last : Option Char) (s : List Char) :
    (either p q ++ r).hits last s = (p ++ r).hits last s ++ (q ++ r).hits last s := by
  rw [hits_append, hits_append, hits_append, hits_either, List.flatMap_append]

/-- What comes after the edge of a word is tried where there is one. -/
theorem hits_atWordEdge_append (q : Pattern) (last : Option Char) (s : List Char) :
    (atWordEdge ++ q).hits last s = if wordEdge last s = true then q.hits last s else [] := by
  rw [hits_append, hits]
  by_cases h : wordEdge last s = true
  · rw [if_pos h, if_pos h]
    simp
  · rw [if_neg h, if_neg h, List.flatMap_nil]

/-! ## Patterns that refuse a class -/

/-- A pattern without hits where a character of a class comes next. -/
def Refuses (q : Pattern) (A : Char → Bool) : Prop :=
  ∀ last c r, A c = true → q.hits last (c :: r) = []

theorem refuses_char (h : ∀ c, A c = true → B c = false) : (char B).Refuses A := by
  intro last c r hc
  simp [hits, h c hc]

theorem refuses_exactly {c : Char} (h : A c = false) : (exactly c).Refuses A := by
  refine refuses_char fun d hd => ?_
  rw [beq_eq_false_iff_ne]
  rintro rfl
  exact Bool.false_ne_true (h.symm.trans hd)

theorem runHits_cons_of_not {c : Char} (h : B c = false) (t : List Char) : runHits B (c :: t) = [] := by
  simp [runHits, h]

theorem refuses_many {preference : Preference} (h : ∀ c, A c = true → B c = false) :
    (many B preference).Refuses A := by
  intro last c r hc
  cases preference <;> simp [hits, runHits_cons_of_not (h c hc)]

theorem Refuses.mono (hp : p.Refuses B) (h : ∀ c, A c = true → B c = true) : p.Refuses A :=
  fun last c r hc => hp last c r (h c hc)

theorem Refuses.append (h : p.Refuses A) (q : Pattern) : (p ++ q).Refuses A :=
  fun last c r hc => hits_append_eq_nil (h last c r hc)

theorem Refuses.either (hp : p.Refuses A) (hq : q.Refuses A) : (either p q).Refuses A := by
  intro last c r hc
  rw [hits_either, hp last c r hc, hq last c r hc, List.append_nil]

theorem Refuses.maybe_append (hp : p.Refuses A) (hq : q.Refuses A) : (maybe p ++ q).Refuses A := by
  intro last c r hc
  rw [hits_maybe_append, hp.append q last c r hc, hq last c r hc, List.append_nil]

theorem Refuses.atWordEdge_append (hq : q.Refuses A) : (atWordEdge ++ q).Refuses A := by
  intro last c r hc
  rw [hits_atWordEdge_append, hq last c r hc, ite_self]

/-- A keyword refuses what its first letter does not stand for. -/
theorem refuses_keyword {l : Char} {ls : List Char} (h : ∀ c, A c = true → Text.sameLetter l c = false) :
    (keyword (l :: ls)).Refuses A := (refuses_char h).append _

/-! ## Repetitions that take all they can get -/

/-- A hit of a repetition takes characters of the class, at least one, and keeps nothing. -/
theorem of_mem_runHits {h : Hit} (hh : h ∈ runHits A s) :
    h.groups = [] ∧ h.text ≠ [] ∧ ∀ c ∈ h.text, A c = true := by
  induction s generalizing h with
  | nil => exact absurd hh List.not_mem_nil
  | cons d s ih =>
    by_cases hd : A d = true
    · rw [runHits, if_pos hd] at hh
      rcases List.mem_cons.1 hh with rfl | hh
      · exact ⟨rfl, by simp, by simpa using hd⟩
      · obtain ⟨k, hk, rfl⟩ := List.mem_map.1 hh
        exact ⟨(ih hk).1, by simp, List.forall_mem_cons.2 ⟨hd, (ih hk).2.2⟩⟩
    · rw [runHits, if_neg hd] at hh
      exact absurd hh List.not_mem_nil

theorem of_mem_hits_many {preference : Preference} {h : Hit} (hh : h ∈ (many A preference).hits last s) :
    h.groups = [] ∧ h.text ≠ [] ∧ ∀ c ∈ h.text, A c = true := by
  cases preference with
  | longest => exact of_mem_runHits (List.mem_reverse.1 hh)
  | shortest => exact of_mem_runHits hh

/-- The hits of a repetition: the longest run, and shorter ones after which a character of the class
comes next. -/
theorem reverse_runHits {w : List Char} (hw : w ≠ []) (hA : ∀ c ∈ w, A c = true)
    (hs : ∀ c ∈ s.head?, A c = false) :
    ∃ ks, (runHits A (w ++ s)).reverse = ⟨w, [], s⟩ :: ks ∧
      ∀ k ∈ ks, ∃ c r, A c = true ∧ k.rest = c :: r := by
  induction w with
  | nil => exact absurd rfl hw
  | cons c w ih =>
    have hc : A c = true := hA c List.mem_cons_self
    cases w with
    | nil =>
      -- nothing of the class follows, so there is one hit
      have hNone : runHits A s = [] := by
        cases s with
        | nil => rfl
        | cons d s => exact runHits_cons_of_not (hs d rfl) s
      exact ⟨[], by simp [runHits, hc, hNone], fun _ hk => absurd hk List.not_mem_nil⟩
    | cons d w =>
      have hd : A d = true := hA d (by simp)
      obtain ⟨ks, hks, hRest⟩ := ih (by simp) fun e he => hA e (List.mem_cons_of_mem c he)
      refine ⟨ks.map (fun k => { k with text := c :: k.text }) ++ [⟨[c], [], d :: w ++ s⟩], ?_, ?_⟩
      · rw [List.cons_append, runHits, if_pos hc, List.reverse_cons, ← List.map_reverse, hks]
        rfl
      · intro k hk
        rcases List.mem_append.1 hk with hk | hk
        · obtain ⟨m, hm, rfl⟩ := List.mem_map.1 hk
          exact hRest m hm
        · obtain rfl := List.mem_singleton.1 hk
          exact ⟨d, w ++ s, hd, rfl⟩

/-- A repetition before something that refuses its class takes the whole run. -/
theorem takes_many {w : List Char} (hw : w ≠ []) (hA : ∀ c ∈ w, A c = true)
    (hs : ∀ c ∈ s.head?, A c = false) (hq : q.Refuses A) : (many A .longest).Takes q w [] s := by
  intro last
  obtain ⟨ks, hks, hRest⟩ := reverse_runHits hw hA hs
  refine hits_append_of_cons hks fun k hk => ?_
  obtain ⟨c, t, hc, hk⟩ := hRest k hk
  rw [hk, hq _ c t hc]

/-- A repetition takes the one character of its class that there is, whatever follows it. -/
theorem takes_many_singleton {c : Char} (hc : A c = true) (hs : ∀ d ∈ s.head?, A d = false)
    (q : Pattern) : (many A .longest).Takes q [c] [] s := by
  intro last
  have hNone : runHits A s = [] := by
    cases s with
    | nil => rfl
    | cons d s => exact runHits_cons_of_not (hs d rfl) s
  exact hits_append_of_singleton (h := ⟨[c], [], s⟩) (by simp [hits, runHits, hc, hNone])

/-- The same for a repetition whose text is kept: the longest run comes first. -/
theorem hits_group_many {w : List Char} (n : Nat) (hw : w ≠ []) (hA : ∀ c ∈ w, A c = true)
    (hs : ∀ c ∈ s.head?, A c = false) :
    ∃ ks, (group n (many A .longest)).hits last (w ++ s) = ⟨w, [(n, w)], s⟩ :: ks ∧
      ∀ k ∈ ks, ∃ c r, A c = true ∧ k.rest = c :: r := by
  obtain ⟨ks, hks, hRest⟩ := reverse_runHits hw hA hs
  refine ⟨ks.map fun k => { k with groups := (n, k.text) :: k.groups }, ?_, fun k hk => ?_⟩
  · rw [hits_group, hits, hks, List.map_cons]
  · obtain ⟨m, hm, rfl⟩ := List.mem_map.1 hk
    exact hRest m hm

theorem takes_group_many {w : List Char} (n : Nat) (hw : w ≠ []) (hA : ∀ c ∈ w, A c = true)
    (hs : ∀ c ∈ s.head?, A c = false) (hq : q.Refuses A) :
    (group n (many A .longest)).Takes q w [(n, w)] s := by
  intro last
  obtain ⟨ks, hks, hRest⟩ := hits_group_many n hw hA hs
  refine hits_append_of_cons hks fun k hk => ?_
  obtain ⟨c, t, hc, hk⟩ := hRest k hk
  rw [hk, hq _ c t hc]

/-- Where no character of the class comes next, a repetition has no hit. -/
theorem hits_many_append_of_not {preference : Preference} (hs : ∀ c ∈ s.head?, A c = false) :
    (many A preference ++ q).hits last s = [] := by
  apply hits_append_eq_nil
  cases s with
  | nil => cases preference <;> rfl
  | cons c s => cases preference <;> simp [hits, runHits_cons_of_not (hs c rfl)]

/-- Blanks that may be missing, before something that refuses blanks. -/
theorem takes_gap {w : List Char} (hw : ∀ c ∈ w, Text.isBlank c = true)
    (hs : ∀ c ∈ s.head?, Text.isBlank c = false) (hq : q.Refuses Text.isBlank) : gap.Takes q w [] s := by
  cases w with
  | nil => exact takes_maybe_nil fun _ => hits_many_append_of_not hs
  | cons c w =>
    refine (takes_many (by simp) hw hs hq).maybe fun last => ?_
    exact hq last c _ (hw c List.mem_cons_self)

/-! ## Keywords -/

/-- A text that a keyword stands for. -/
def Spells (ls t : List Char) : Prop := List.Forall₂ (fun l c => Text.sameLetter l c = true) ls t

instance (ls t : List Char) : Decidable (Spells ls t) :=
  inferInstanceAs (Decidable (List.Forall₂ _ ls t))

theorem hits_keyword_cons_append (l : Char) (ls : List Char) (q : Pattern) (last : Option Char) (c : Char)
    (s : List Char) : (keyword (l :: ls) ++ q).hits last (c :: s) =
      if Text.sameLetter l c = true then
        ((keyword ls ++ q).hits (some c) s).map (⟨[c], [], s⟩ : Hit).andThen
      else [] := by
  rw [show keyword (l :: ls) = char (Text.sameLetter l) ++ keyword ls from rfl, hits_append_assoc]
  by_cases h : Text.sameLetter l c = true
  · rw [if_pos h, hits_append_of_singleton (h := ⟨[c], [], s⟩) (by simp [hits, h])]
    rfl
  · rw [if_neg h]
    exact hits_append_eq_nil (by simp [hits, h])

theorem hits_keyword_cons_append_nil (l : Char) (ls : List Char) (q : Pattern) (last : Option Char) :
    (keyword (l :: ls) ++ q).hits last [] = [] := hits_append_eq_nil (hits_append_eq_nil rfl)

/-- A keyword has no hit before a text that does not begin with its first letter. -/
theorem hits_keyword_cons_append_of_head {l : Char} {s : List Char}
    (h : ∀ d ∈ s.head?, Text.sameLetter l d ≠ true) (ls : List Char) (q : Pattern) (last : Option Char) :
    (keyword (l :: ls) ++ q).hits last s = [] := by
  cases s with
  | nil => exact hits_keyword_cons_append_nil ..
  | cons d s => rw [hits_keyword_cons_append, if_neg (h d rfl)]

/-- A keyword at the head of a text that begins with a spelling of it. -/
theorem takes_keyword {ls t : List Char} (ht : Spells ls t) (q : Pattern) (s : List Char) :
    (keyword ls).Takes q t [] s := by
  induction ht with
  | nil => exact takes_empty q s
  | cons hc _ ih => exact (takes_char hc _ _).append ih

/-- A keyword before something that has no hit inside a word stands for whole words only. -/
theorem hits_keyword_append_word {ls v : List Char} (hls : ∀ l ∈ ls, ∀ c, Text.sameLetter l c = true →
      Text.isWordChar c = true) (hv : ∀ c ∈ v, Text.isWordChar c = true)
    (hs : ∀ c ∈ s.head?, Text.isWordChar c = false)
    (hq : ∀ l c r, Text.isWordChar l = true → Text.isWordChar c = true → q.hits (some l) (c :: r) = [])
    (hLast : ls ≠ [] ∨ last.any Text.isWordChar = true) :
    (keyword ls ++ q).hits last (v ++ s) =
      if Spells ls v then (q.hits (lastOf last v) s).map (⟨v, [], s⟩ : Hit).andThen else [] := by
  by_cases h : Spells ls v
  · rw [if_pos h, takes_keyword h q s last]
  rw [if_neg h]
  induction ls generalizing v last with
  | nil =>
    cases v with
    | nil => exact absurd List.Forall₂.nil h
    | cons c v =>
      -- the word goes on after the keyword
      obtain ⟨l, rfl, hl⟩ := (Option.any_eq_true _ _).1 (hLast.resolve_left fun h => h rfl)
      rw [keyword, List.foldr_nil, hits_empty_append]
      exact hq l c _ hl (hv c List.mem_cons_self)
  | cons l ls ih =>
    cases v with
    | nil =>
      -- the keyword would have to take the character after the word
      refine hits_keyword_cons_append_of_head (fun d hd hld => ?_) ls q last
      simpa [hs d hd] using hls l List.mem_cons_self d hld
    | cons c v =>
      rw [List.cons_append, hits_keyword_cons_append]
      have hAny : (some c).any Text.isWordChar = true := hv c List.mem_cons_self
      by_cases hc : Text.sameLetter l c = true
      · rw [if_pos hc, ih (fun m hm => hls m (List.mem_cons_of_mem l hm))
          (fun d hd => hv d (List.mem_cons_of_mem c hd)) (.inr hAny)
          fun ht => h (List.Forall₂.cons hc ht), List.map_nil]
      · rw [if_neg hc]

end Pattern

end SqlSurvey
