import SqlSurvey.Proofs.Pattern.Search
import Mathlib.Data.List.DropRight

/-!
# Searching across a seam

When a search in two texts, one after the other, is a search in the first and then a search in the second:
where a pattern takes no character of the class that the second text begins with, right after the
character that the pattern must end with, and where no hit begins in the first text.
-/

namespace SqlSurvey

namespace Pattern

variable {p q : Pattern} {A B : Char → Bool} {last : Option Char} {a b s : List Char} {c : Char}

/-! ## Patterns that do not look back -/

/-- The pattern does not look at the character before a text. -/
def Forward : Pattern → Prop
  | empty => True
  | char _ => True
  | many _ _ => True
  | seq p q => p.Forward ∧ q.Forward
  | either p q => p.Forward ∧ q.Forward
  | group _ p => p.Forward
  | atStart => False
  | atEnd => True
  | atWordEdge => False

theorem Forward.hits_eq (hp : p.Forward) (last last' : Option Char) (s : List Char) :
    p.hits last s = p.hits last' s := by
  induction p generalizing last last' s with
  | empty => rfl
  | char B => rfl
  | many B preference => cases preference <;> rfl
  | seq p q ihp ihq =>
    rw [hits, hits, ihp hp.1 last last']
    refine List.flatMap_congr fun h _ => ?_
    rw [ihq hp.2 (lastOf last h.text) (lastOf last' h.text)]
  | either p q ihp ihq => rw [hits, hits, ihp hp.1 last last', ihq hp.2 last last']
  | group n p ih => rw [hits, hits, ih hp last last']
  | atStart => exact hp.elim
  | atEnd => rfl
  | atWordEdge => exact hp.elim

theorem Forward.findFrom_eq (hp : p.Forward) (last last' : Option Char) (s : List Char) :
    p.findFrom last s = p.findFrom last' s := by
  cases s with
  | nil => rw [findFrom, findFrom, here, here, hp.hits_eq last last']
  | cons c r => rw [findFrom, findFrom, here, here, hp.hits_eq last last']

theorem forward_keyword (ls : List Char) : (keyword ls).Forward := by
  induction ls with
  | nil => trivial
  | cons l ls ih => exact ⟨trivial, ih⟩

/-- A pattern that takes nothing of a class takes nothing of a smaller one. -/
theorem Avoids.mono (hp : p.Avoids B) (h : ∀ c, A c = true → B c = true) : p.Avoids A := by
  induction p with
  | empty => trivial
  | char C => exact fun c hc => hp c (h c hc)
  | many C preference => exact fun c hc => hp c (h c hc)
  | seq p q ihp ihq => exact ⟨ihp hp.1, ihq hp.2⟩
  | either p q ihp ihq => exact ⟨ihp hp.1, ihq hp.2⟩
  | group n p ih => exact ih hp
  | atStart => trivial
  | atEnd => exact hp.elim
  | atWordEdge => exact fun c hc => hp c (h c hc)

/-! ## Where a hit is found -/

/-- A hit of two patterns in a row is a hit of the first and then one of the second. -/
theorem exists_of_mem_hits_append {h : Hit} (hh : h ∈ (p ++ q).hits last s) :
    ∃ k m, k ∈ p.hits last s ∧ m ∈ q.hits (lastOf last k.text) k.rest ∧ h = k.andThen m := by
  obtain ⟨k, hk, hh⟩ := List.mem_flatMap.1 hh
  obtain ⟨m, hm, rfl⟩ := List.mem_map.1 hh
  exact ⟨k, m, hk, hm, rfl⟩

/-- A hit of a pattern that takes nothing of a class has nothing of it in its text. -/
theorem not_mem_text_of_avoids (hp : p.Avoids A) {h : Hit} (hh : h ∈ p.hits last s) :
    ∀ c ∈ h.text, A c = false := by
  have hClass : ∀ {B : Char → Bool} {c : Char}, (∀ c, A c = true → B c = false) → B c = true → A c = false := by
    intro B c hB hc
    rw [← Bool.not_eq_true]
    intro hA
    rw [hB c hA] at hc
    exact Bool.noConfusion hc
  induction p generalizing last s h with
  | empty => simp_all [hits]
  | char B =>
    cases s with
    | nil => exact absurd hh List.not_mem_nil
    | cons d s =>
      by_cases hd : B d = true
      · simp only [hits, hd, if_true, List.mem_singleton] at hh
        intro c hc
        obtain rfl : c = d := by simpa [hh] using hc
        exact hClass hp hd
      · simp [hits, hd] at hh
  | many B preference => exact fun c hc => hClass hp ((of_mem_hits_many hh).2.2 c hc)
  | seq p q ihp ihq =>
    obtain ⟨k, m, hk, hm, rfl⟩ := exists_of_mem_hits_append hh
    intro c hc
    rcases List.mem_append.1 hc with hc | hc
    · exact ihp hp.1 hk c hc
    · exact ihq hp.2 hm c hc
  | either p q ihp ihq =>
    rcases List.mem_append.1 hh with hh | hh
    · exact ihp hp.1 hh
    · exact ihq hp.2 hh
  | group n p ih =>
    obtain ⟨k, hk, rfl⟩ := List.mem_map.1 hh
    exact ih (h := k) hp hk
  | atStart => by_cases hl : last.isNone = true <;> simp_all [hits]
  | atEnd => exact hp.elim
  | atWordEdge => by_cases he : wordEdge last s = true <;> simp_all [hits]

/-- A hit that is found stands somewhere in the text. -/
theorem exists_of_findFrom_eq_some {h : Hit} (hp : p.findFrom last s = some h) :
    ∃ u v, u ++ v = s ∧ h ∈ p.hits (lastOf last u) v := by
  induction s generalizing last with
  | nil => exact ⟨[], [], rfl, List.mem_of_mem_head? hp⟩
  | cons c r ih =>
    rw [findFrom] at hp
    rcases Option.or_eq_some_iff.1 hp with hHere | ⟨-, hRest⟩
    · exact ⟨[], c :: r, rfl, List.mem_of_mem_head? hHere⟩
    · obtain ⟨u, v, rfl, hMem⟩ := ih hRest
      exact ⟨c :: u, v, rfl, by rwa [lastOf_cons]⟩

/-- What is found in no part of a text is not found in its end either. -/
theorem findFrom_of_suffix (hp : p.Forward) (h : p.findFrom last s = none) (hSuffix : a <:+ s)
    (last' : Option Char) : p.findFrom last' a = none := by
  obtain ⟨u, rfl⟩ := hSuffix
  rw [hp.findFrom_eq last' (lastOf last u)]
  rw [findFrom_eq_none_iff] at h ⊢
  intro v w hvw
  rw [lastOf_lastOf]
  exact h (u ++ v) w (by rw [List.append_assoc, hvw])

/-! ## Parts in which no hit begins -/

theorem PassesOver.append_right (h : p.PassesOver last a b) (q : Pattern) : (p ++ q).PassesOver last a b := by
  induction a generalizing last with
  | nil => trivial
  | cons c a ih => exact ⟨hits_append_eq_nil h.1, ih h.2⟩

/-- No hit begins in a text without hits when the next text begins with a character that none can take. -/
theorem passesOver_of_avoids (hp : p.Avoids A) (h : p.findFrom last a = none)
    (hb : ∀ c ∈ b.head?, A c = true) : p.PassesOver last a b := by
  induction a generalizing last with
  | nil => trivial
  | cons c a ih =>
    rw [findFrom, Option.or_eq_none_iff, here, List.head?_eq_none_iff] at h
    refine ⟨?_, ih h.2⟩
    rw [← List.cons_append, hits_append_of_avoids hp (c :: a) hb, h.1, List.map_nil]

/-- The same when the text ends with such a character, whatever comes next. -/
theorem passesOver_concat_of_avoids (hp : p.Avoids A) (hRefuses : p.Refuses A) (hc : A c = true)
    (h : p.findFrom last (a ++ [c]) = none) : p.PassesOver last (a ++ [c]) b := by
  have hHead : ∀ d ∈ [c].head?, A d = true := by simpa using hc
  rw [findFrom_append_of_avoids hp a hHead, Option.or_eq_none_iff, Option.map_eq_none_iff] at h
  have hBefore : p.PassesOver last a ([c] ++ b) := passesOver_of_avoids hp h.1 (by simpa using hc)
  exact hBefore.append (hRefuses.passesOver (by simpa using hc))

/-! ## Seams -/

/-- No hit that begins in the first text depends on the second one. -/
def Seam (p : Pattern) (a b : List Char) : Prop :=
  ∀ last, p.findFrom last (a ++ b) = ((p.findFrom last a).map (extend b)).or (p.findFrom (lastOf last a) b)

theorem extend_extend (a b : List Char) (h : Hit) : extend b (extend a h) = extend (a ++ b) h := by
  simp [extend]

theorem seam_of_avoids (hp : p.Avoids A) (a : List Char) (hb : ∀ c ∈ b.head?, A c = true) : p.Seam a b :=
  fun _ => findFrom_append_of_avoids hp a hb

/-- A seam stays one when the first text is continued to the left. -/
theorem Seam.append (hWhole : p.Seam a (b ++ s)) (hLeft : p.Seam a b) (hRight : p.Seam b s) :
    p.Seam (a ++ b) s := by
  intro last
  have hMap : ((p.findFrom last a).map (extend b)).map (extend s) =
      (p.findFrom last a).map (extend (b ++ s)) := by
    rw [Option.map_map]
    exact congrArg (Option.map · _) (funext (extend_extend b s))
  rw [List.append_assoc, hWhole last, hRight, hLeft last, Option.map_or, hMap, Option.or_assoc, lastOf_lastOf]

/-! ## Patterns that end with a given character -/

/-- A pattern that ends with a character has no hit in a text without it. -/
theorem hits_append_exactly_of_not_mem (q : Pattern) (last : Option Char) (hs : c ∉ s) :
    (q ++ exactly c).hits last s = [] := by
  rw [hits_append, List.flatMap_eq_nil_iff]
  intro k hk
  rw [List.map_eq_nil_iff]
  have hText := text_append_rest hk
  cases hRest : k.rest with
  | nil => rfl
  | cons d r =>
    have hd : d ≠ c := by
      rintro rfl
      exact hs (by rw [← hText, hRest]; simp)
    simp [exactly, hits, hd]

/-- A hit of a pattern that ends with a character is a hit of the pattern before it, and then the character. -/
theorem exists_hit_of_append_exactly {h : Hit} (hh : h ∈ (q ++ exactly c).hits last s) :
    ∃ k ∈ q.hits last s, h.text = k.text ++ [c] := by
  obtain ⟨k, m, hk, hm, rfl⟩ := exists_of_mem_hits_append hh
  cases hRest : k.rest with
  | nil => simp [hRest, exactly, hits] at hm
  | cons d r =>
    by_cases hd : d = c
    · simp only [hRest, exactly, hits, hd, beq_self_eq_true, if_true, List.mem_singleton] at hm
      exact ⟨k, hk, by rw [hm]; rfl⟩
    · simp [hRest, exactly, hits, hd] at hm

theorem exists_text_of_append_exactly {h : Hit} (hh : h ∈ (q ++ exactly c).hits last s) :
    ∃ t, h.text = t ++ [c] :=
  let ⟨k, _, hText⟩ := exists_hit_of_append_exactly hh
  ⟨k.text, hText⟩

/-- Of two hits of such a pattern the one that begins first ends first, when nothing before its last character can take
that character. -/
theorem rest_suffix_of_hits {last' : Option Char} {h k : Hit} (hq : q.Avoids fun d => d == c)
    (hh : h ∈ (q ++ exactly c).hits last (a ++ b)) (hk : k ∈ (q ++ exactly c).hits last' b) : k.rest <:+ h.rest := by
  obtain ⟨m, hm, hFirst⟩ := exists_hit_of_append_exactly hh
  obtain ⟨t, hSecond⟩ := exists_text_of_append_exactly hk
  have hNone : c ∉ m.text := fun hc => by simpa using not_mem_text_of_avoids hq hm c hc
  have hText : m.text ++ c :: h.rest = (a ++ t) ++ c :: k.rest := by
    have hWhole := text_append_rest hh
    rw [← text_append_rest hk, hFirst, hSecond] at hWhole
    simpa using hWhole
  rcases List.append_eq_append_iff.1 hText with ⟨x, -, hRest⟩ | ⟨x, hx, hRest⟩
  · cases x with
    | nil => exact (List.cons.inj hRest).2 ▸ List.suffix_rfl
    | cons d x => exact ⟨x ++ [c], by simpa using (List.cons.inj hRest).2.symm⟩
  · cases x with
    | nil => exact (List.cons.inj hRest).2 ▸ List.suffix_rfl
    | cons d x =>
      -- the later one would end inside the first one
      obtain rfl := (List.cons.inj hRest).1
      exact absurd (hx ▸ List.mem_append_right _ List.mem_cons_self) hNone

/-- What is found in a text that goes before another one ends before what is found in that one. -/
theorem exists_findFrom_append {k : Hit} (hq : q.Avoids fun d => d == c)
    (hFind : (q ++ exactly c).findFrom (lastOf last a) b = some k) :
    ∃ h, (q ++ exactly c).findFrom last (a ++ b) = some h ∧ k.rest <:+ h.rest := by
  induction a generalizing last with
  | nil => exact ⟨k, hFind, List.suffix_rfl⟩
  | cons d a ih =>
    rw [lastOf_cons] at hFind
    obtain ⟨m, hLater, hSuffix⟩ := ih hFind
    rw [List.cons_append, findFrom]
    cases hHere : (q ++ exactly c).here last (d :: (a ++ b)) with
    | none => exact ⟨m, hLater, hSuffix⟩
    | some h =>
      obtain ⟨u, v, hText, hm⟩ := exists_of_findFrom_eq_some hLater
      have hh := List.mem_of_mem_head? hHere
      rw [← hText, ← List.cons_append] at hh
      exact ⟨h, rfl, hSuffix.trans (rest_suffix_of_hits hq hh hm)⟩

theorem findFrom_append_exactly_of_not_mem (q : Pattern) (last : Option Char) (hs : c ∉ s) :
    (q ++ exactly c).findFrom last s = none := by
  refine findFrom_eq_none_iff.2 fun u v huv => hits_append_exactly_of_not_mem q _ ?_
  rintro hc
  exact hs (by rw [← huv]; exact List.mem_append_right u hc)

/-- When nothing before its last character can take that character, a hit ends where it first stands. -/
theorem hits_append_exactly (hq : q.Avoids fun d => d == c) (last : Option Char) (a s : List Char) :
    (q ++ exactly c).hits last (a ++ c :: s) =
      ((q ++ exactly c).hits last (a ++ [c])).map (extend s) := by
  have hHead : ∀ t : List Char, ∀ d ∈ (c :: t).head?, (d == c) = true := by simp
  rw [hits_append, hits_append, hits_append_of_avoids hq a (hHead s), hits_append_of_avoids hq a (hHead [])]
  simp only [List.flatMap_map, List.map_flatMap, List.map_map]
  refine List.flatMap_congr fun k _ => ?_
  -- the next character is the same with and without what follows
  cases hRest : k.rest with
  | nil => simp [extend, hRest, exactly, hits, Hit.andThen]
  | cons d r => by_cases hd : d = c <;> simp [extend, hRest, exactly, hits, hd, Hit.andThen]

/-- What is found in a text is found when the text goes on. -/
theorem findFrom_append_exactly_of_some {h : Hit} (hq : q.Avoids fun d => d == c)
    (hFind : (q ++ exactly c).findFrom last a = some h) (b : List Char) :
    (q ++ exactly c).findFrom last (a ++ b) = some (extend b h) := by
  induction a generalizing last with
  | nil =>
    rw [findFrom_append_exactly_of_not_mem q last List.not_mem_nil] at hFind
    cases hFind
  | cons d a ih =>
    have hMem : c ∈ d :: a := by
      by_contra hNot
      rw [findFrom_append_exactly_of_not_mem q last hNot] at hFind
      cases hFind
    have hHere : (q ++ exactly c).here last (d :: a ++ b) = ((q ++ exactly c).here last (d :: a)).map (extend b) := by
      obtain ⟨u, v, hText⟩ := List.append_of_mem hMem
      have hEnd := hits_append_exactly hq last u v
      have hLonger := hits_append_exactly hq last u (v ++ b)
      rw [← List.cons_append, ← List.append_assoc, ← hText] at hLonger
      rw [← hText] at hEnd
      rw [here, here, hLonger, hEnd, List.head?_map, List.head?_map, Option.map_map]
      exact congrArg (Option.map · _) (funext fun k => (extend_extend v b k).symm)
    rw [findFrom] at hFind
    rw [List.cons_append, findFrom, ← List.cons_append, hHere]
    rcases Option.or_eq_some_iff.1 hFind with hFirst | ⟨hNone, hRest⟩
    · rw [hFirst]
      rfl
    · rw [hNone, ih hRest]
      rfl

theorem seam_of_not_mem (q : Pattern) (ha : c ∉ a) (hb : c ∉ b) : (q ++ exactly c).Seam a b := by
  intro last
  rw [findFrom_append_exactly_of_not_mem q last (by simp [ha, hb]),
    findFrom_append_exactly_of_not_mem q last ha, findFrom_append_exactly_of_not_mem q _ hb]
  rfl

/-- Such a pattern sees a seam after each such character. -/
theorem seam_after (hq : q.Avoids fun d => d == c) (a b : List Char) :
    (q ++ exactly c).Seam (a ++ [c]) b := by
  intro last
  have hNil : ∀ last, (q ++ exactly c).findFrom last [] = none := fun last =>
    findFrom_append_exactly_of_not_mem q last List.not_mem_nil
  induction a generalizing last with
  | nil =>
    have hHits := hits_append_exactly hq last [] b
    simp only [List.nil_append] at hHits
    simp only [List.nil_append, List.cons_append, findFrom, here, hHits, List.head?_map, Option.map_or,
      Option.or_assoc]
    -- nothing is found at the end of the first text
    rw [show ((q ++ exactly c).hits (some c) []).head? = none from hNil (some c)]
    rfl
  | cons d a ih =>
    have hHits := hits_append_exactly hq last (d :: a) b
    have hRest := ih (some d)
    simp only [List.cons_append, List.append_assoc, List.nil_append] at hHits hRest ⊢
    rw [findFrom, findFrom, here, here, hHits, List.head?_map, hRest, Option.map_or, Option.or_assoc,
      lastOf_cons]

/-- Such a pattern sees a seam wherever it would see one in the text after the last such character. -/
theorem seam_of_rtakeWhile (hq : q.Avoids fun d => d == c)
    (h : (q ++ exactly c).Seam (s.rtakeWhile (· != c)) b) : (q ++ exactly c).Seam s b := by
  have hSplit := List.rdropWhile_append_rtakeWhile (p := (· != c)) (l := s)
  generalize s.rtakeWhile (· != c) = t at h hSplit
  rcases List.eq_nil_or_concat' (s.rdropWhile (· != c)) with hNil | ⟨u, d, hu⟩
  · rw [hNil, List.nil_append] at hSplit
    rwa [← hSplit]
  · have hd : d = c := by
      have hLast := List.rdropWhile_last_not (· != c) s (by rw [hu]; simp)
      simpa [hu] using hLast
    rw [hd] at hu
    rw [hu] at hSplit
    rw [← hSplit]
    exact (seam_after hq u _).append (seam_after hq u _) h

end Pattern

end SqlSurvey
