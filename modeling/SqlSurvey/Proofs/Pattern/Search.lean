import SqlSurvey.Proofs.Pattern.Hits

/-!
# Searching a text for a pattern

Where the first hit stands in a text that is put together from parts: parts in which no hit begins are
passed over, and a pattern that takes no character of some class does not see past the first such
character.
-/

namespace SqlSurvey

namespace Pattern

variable {p q : Pattern} {A : Char → Bool} {last : Option Char} {s a b : List Char}

/-! ## Hits and no hits -/

theorem findFrom_of_here {h : Hit} (hp : p.here last s = some h) : p.findFrom last s = some h := by
  cases s with
  | nil => exact hp
  | cons c r => rw [findFrom, hp, Option.some_or]

/-- What a pattern takes at the head of a text is found there. -/
theorem Takes.find {t : List Char} {gs : List (Nat × List Char)} (h : p.Takes empty t gs s) :
    p.find (t ++ s) = some ⟨t, gs, s⟩ := findFrom_of_here (by rw [here, h.hits]; rfl)

/-- A search fails when there is no hit at any place. -/
theorem findFrom_eq_none_iff :
    p.findFrom last s = none ↔ ∀ u v, u ++ v = s → p.hits (lastOf last u) v = [] := by
  induction s generalizing last with
  | nil =>
    rw [findFrom, here, List.head?_eq_none_iff]
    constructor
    · intro h u v huv
      obtain ⟨rfl, rfl⟩ := List.append_eq_nil_iff.1 huv
      exact h
    · exact fun h => h [] [] rfl
  | cons c r ih =>
    rw [findFrom, Option.or_eq_none_iff, here, List.head?_eq_none_iff, ih]
    constructor
    · rintro ⟨hHere, hRest⟩ u v huv
      cases u with
      | nil => rw [List.nil_append] at huv; rw [huv]; exact hHere
      | cons d u =>
        obtain ⟨rfl, rfl⟩ := List.cons.inj huv
        rw [lastOf_cons]
        exact hRest u v rfl
    · intro h
      refine ⟨h [] (c :: r) rfl, fun u v huv => ?_⟩
      rw [← lastOf_cons]
      exact h (c :: u) v (by rw [List.cons_append, huv])

/-- Where the first part of a pattern is not found, the pattern is not. -/
theorem findFrom_append_of_left (h : p.findFrom last s = none) : (p ++ q).findFrom last s = none := by
  rw [findFrom_eq_none_iff] at h ⊢
  exact fun u v huv => hits_append_eq_nil (h u v huv)

/-- Where the second part of a pattern is not found, the pattern is not. -/
theorem findFrom_append_of_right (h : q.findFrom last s = none) : (p ++ q).findFrom last s = none := by
  rw [findFrom_eq_none_iff] at h ⊢
  intro u v huv
  rw [hits_append, List.flatMap_eq_nil_iff]
  intro k hk
  -- the second part would stand after the text of the first
  have hText := text_append_rest hk
  rw [lastOf_lastOf, h (u ++ k.text) k.rest (by rw [List.append_assoc, hText, huv]), List.map_nil]

theorem findFrom_append_assoc (p q r : Pattern) (last : Option Char) (s : List Char) :
    ((p ++ q) ++ r).findFrom last s = (p ++ (q ++ r)).findFrom last s := by
  induction s generalizing last with
  | nil => rw [findFrom, findFrom, here, here, hits_append_assoc]
  | cons c t ih => rw [findFrom, findFrom, here, here, hits_append_assoc, ih]

/-- A pattern for the beginning of a text has a hit there or nowhere. -/
theorem find_atStart_append (q : Pattern) (s : List Char) : (atStart ++ q).find s = q.here none s := by
  have hNone : (atStart ++ q).here none s = q.here none s := by
    rw [here, here, hits_append_of_singleton (h := ⟨[], [], s⟩) rfl]
    simp
  cases s with
  | nil => exact hNone
  | cons c r =>
    have hLater : (atStart ++ q).findFrom (some c) r = none := by
      refine findFrom_append_of_left (findFrom_eq_none_iff.2 fun u v _ => ?_)
      have hSome : (lastOf (some c) u).isNone = false := by
        cases u.getLast? <;> simp_all [lastOf]
      simp [hits, hSome]
    rw [find, findFrom, hNone, hLater, Option.or_none]

/-! ## Parts in which no hit begins -/

/-- No hit begins in the first text when the second one follows. -/
def PassesOver (p : Pattern) (last : Option Char) : List Char → List Char → Prop
  | [], _ => True
  | c :: a, b => p.hits last (c :: (a ++ b)) = [] ∧ PassesOver p (some c) a b

theorem findFrom_append (h : p.PassesOver last a b) :
    p.findFrom last (a ++ b) = p.findFrom (lastOf last a) b := by
  induction a generalizing last with
  | nil => rfl
  | cons c a ih =>
    rw [List.cons_append, findFrom, here, h.1, List.head?_nil, Option.none_or, ih h.2, lastOf_cons]

/-- A pattern passes over the characters that it refuses. -/
theorem Refuses.passesOver (hp : p.Refuses A) (ha : ∀ c ∈ a, A c = true) : p.PassesOver last a b := by
  induction a generalizing last with
  | nil => trivial
  | cons c a ih =>
    exact ⟨hp last c _ (ha c List.mem_cons_self), ih fun d hd => ha d (List.mem_cons_of_mem c hd)⟩

theorem PassesOver.append {c : List Char} (h : p.PassesOver last a (b ++ c))
    (k : p.PassesOver (lastOf last a) b c) : p.PassesOver last (a ++ b) c := by
  induction a generalizing last with
  | nil => exact k
  | cons d a ih =>
    refine ⟨?_, ih h.2 (by rwa [← lastOf_cons last])⟩
    show p.hits last (d :: (a ++ b ++ c)) = []
    rw [List.append_assoc]
    exact h.1

theorem passesOver_append_assoc (r : Pattern) :
    ((p ++ q) ++ r).PassesOver last a b ↔ (p ++ (q ++ r)).PassesOver last a b := by
  induction a generalizing last with
  | nil => exact Iff.rfl
  | cons c a ih => rw [PassesOver, PassesOver, hits_append_assoc, ih]

/-- A keyword passes over a word when what is to come after it is not found after the word. -/
theorem passesOver_word {ls : List Char} (hNonempty : ls ≠ [])
    (hls : ∀ l ∈ ls, ∀ c, Text.sameLetter l c = true → Text.isWordChar c = true)
    (ha : ∀ c ∈ a, Text.isWordChar c = true) (hb : ∀ c ∈ b.head?, Text.isWordChar c = false)
    (hq : q.Refuses Text.isWordChar) (hqb : ∀ last, q.hits last b = []) :
    (keyword ls ++ q).PassesOver last a b := by
  induction a generalizing last with
  | nil => trivial
  | cons c a ih =>
    refine ⟨?_, ih fun d hd => ha d (List.mem_cons_of_mem c hd)⟩
    rw [← List.cons_append, hits_keyword_append_word hls ha hb (fun m d r _ hd => hq (some m) d r hd)
      (.inl hNonempty), hqb, List.map_nil, ite_self]

/-- A hit that does not begin in the first of two texts is found in the second one. -/
theorem findFrom_of_length_le {h : Hit} (hFind : p.findFrom last (a ++ b) = some h)
    (hLength : (h.text ++ h.rest).length ≤ b.length) : p.findFrom (lastOf last a) b = some h := by
  induction a generalizing last with
  | nil => exact hFind
  | cons c a ih =>
    rw [List.cons_append, findFrom] at hFind
    rcases Option.or_eq_some_iff.1 hFind with hHere | ⟨-, hRest⟩
    · -- it would be as long as the whole text
      rw [text_append_rest (List.mem_of_mem_head? hHere)] at hLength
      simp only [List.length_cons, List.length_append] at hLength
      omega
    · rw [lastOf_cons]
      exact ih hRest

/-! ## Patterns that take no character of a class -/

/-- The pattern takes no character of the class, and none of them is seen from the place before it. -/
def Avoids (A : Char → Bool) : Pattern → Prop
  | empty => True
  | char B => ∀ c, A c = true → B c = false
  | many B _ => ∀ c, A c = true → B c = false
  | seq p q => p.Avoids A ∧ q.Avoids A
  | either p q => p.Avoids A ∧ q.Avoids A
  | group _ p => p.Avoids A
  | atStart => True
  | atEnd => False
  | atWordEdge => ∀ c, A c = true → Text.isWordChar c = false

/-- A hit on a text that has been continued. -/
def extend (b : List Char) (h : Hit) : Hit := { h with rest := h.rest ++ b }

theorem runHits_append_of_not (B : Char → Bool) (a : List Char) (hb : ∀ c ∈ b.head?, B c = false) :
    runHits B (a ++ b) = (runHits B a).map (extend b) := by
  induction a with
  | nil =>
    cases b with
    | nil => rfl
    | cons c b => exact runHits_cons_of_not (hb c rfl) b
  | cons c a ih =>
    by_cases hc : B c = true
    · rw [List.cons_append, runHits, runHits, if_pos hc, if_pos hc, ih]
      simp [extend, Function.comp_def]
    · rw [List.cons_append, runHits, runHits, if_neg hc, if_neg hc, List.map_nil]

/-- What follows from the first character of the class on makes no difference to the hits before it. -/
theorem hits_append_of_avoids (hp : p.Avoids A) (a : List Char) (hb : ∀ c ∈ b.head?, A c = true) :
    p.hits last (a ++ b) = (p.hits last a).map (extend b) := by
  induction p generalizing last a with
  | empty => rfl
  | char B =>
    cases a with
    | nil =>
      cases b with
      | nil => rfl
      | cons c b => simp [hits, hp c (hb c rfl)]
    | cons c a => by_cases hc : B c = true <;> simp [hits, hc, extend]
  | many B preference =>
    have hRun := runHits_append_of_not B a fun c hc => hp c (hb c hc)
    cases preference with
    | longest => simp only [hits, hRun, List.map_reverse]
    | shortest => exact hRun
  | seq p q ihp ihq =>
    simp only [hits, ihp hp.1 a, List.flatMap_map, List.map_flatMap, List.map_map]
    refine List.flatMap_congr fun h _ => ?_
    rw [show (extend b h).rest = h.rest ++ b from rfl, ihq hp.2 h.rest, List.map_map]
    rfl
  | either p q ihp ihq => rw [hits, hits, ihp hp.1 a, ihq hp.2 a, List.map_append]
  | group n p ih =>
    rw [hits, hits, ih hp a, List.map_map, List.map_map]
    rfl
  | atStart => by_cases hl : last.isNone = true <;> simp [hits, hl, extend]
  | atEnd => exact hp.elim
  | atWordEdge =>
    have hEdge : wordEdge last (a ++ b) = wordEdge last a := by
      cases a with
      | cons c a => rfl
      | nil =>
        cases b with
        | nil => rfl
        | cons c b => simp [wordEdge, wordEdge.isWord, hp c (hb c rfl)]
    by_cases he : wordEdge last a = true <;> simp [hits, hEdge, he, extend]

theorem here_append_of_avoids (hp : p.Avoids A) (a : List Char) (hb : ∀ c ∈ b.head?, A c = true) :
    p.here last (a ++ b) = (p.here last a).map (extend b) := by
  rw [here, hits_append_of_avoids hp a hb, List.head?_map, here]

/-- The first hit stands before the first character of the class or after it. -/
theorem findFrom_append_of_avoids (hp : p.Avoids A) (a : List Char) (hb : ∀ c ∈ b.head?, A c = true) :
    p.findFrom last (a ++ b) =
      ((p.findFrom last a).map (extend b)).or (p.findFrom (lastOf last a) b) := by
  induction a generalizing last with
  | nil =>
    have hHere : p.here last b = (p.here last []).map (extend b) := here_append_of_avoids hp [] hb
    rw [List.nil_append, lastOf_nil, findFrom]
    cases hp : p.here last [] with
    | none => rfl
    | some h => rw [hp] at hHere; rw [findFrom_of_here hHere]; rfl
  | cons c a ih =>
    rw [List.cons_append, findFrom, ← List.cons_append, here_append_of_avoids hp _ hb, ih, findFrom,
      lastOf_cons, Option.map_or, Option.or_assoc]

/-- A pattern in two parts passes over a text when its second part refuses every character of it, and what
comes next is refused as well or no hit of the first part reaches that far. -/
theorem passesOver_append {B : Char → Bool} {d : Char} (hp : p.Avoids A) (hd : A d = true) (hq : q.Refuses B)
    (ha : ∀ c ∈ a, B c = true) (hEnd : B d = true ∨ (p ++ atEnd).findFrom last a = none) :
    (p ++ q).PassesOver last a (d :: b) := by
  induction a generalizing last with
  | nil => trivial
  | cons c a ih =>
    rw [findFrom, Option.or_eq_none_iff, here, List.head?_eq_none_iff] at hEnd
    refine ⟨?_, ih (fun e he => ha e (List.mem_cons_of_mem c he)) (hEnd.imp_right And.right)⟩
    rw [← List.cons_append, hits_append, hits_append_of_avoids hp _ (by simpa using hd), List.flatMap_map,
      List.flatMap_eq_nil_iff]
    intro k hk
    rw [List.map_eq_nil_iff]
    show q.hits _ (k.rest ++ d :: b) = []
    cases hRest : k.rest with
    | cons e r =>
      -- the second part would begin inside the text
      have hMem : e ∈ c :: a := by
        rw [← text_append_rest hk, hRest]
        simp
      exact hq _ e _ (ha e hMem)
    | nil =>
      rcases hEnd with hNext | ⟨hNone, -⟩
      · exact hq _ d b hNext
      · -- the hit of the first part would end where the text does
        rw [hits_append, List.flatMap_eq_nil_iff] at hNone
        have hHere := hNone k hk
        simp [hRest, hits] at hHere

end Pattern

end SqlSurvey
