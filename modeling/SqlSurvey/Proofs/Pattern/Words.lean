import SqlSurvey.Proofs.Pattern.Seam
import SqlSurvey.Proofs.Text.Basic
import Mathlib.Data.List.Infix

/-!
# Searching a text word by word

Words with one space before each. A keyword that blanks must follow is found only where a word ends in it, so a
search goes on from word to word.
-/

namespace SqlSurvey

namespace Pattern

variable {p q : Pattern} {ls s w : List Char} {ws : List (List Char)} {last : Option Char}

/-! ## Texts of words -/

/-- Words, each after one space. -/
def spaced (ws : List (List Char)) : List Char := ws.flatMap fun w => ' ' :: w

@[simp] theorem spaced_nil : spaced [] = [] := rfl

theorem spaced_cons (w : List Char) (ws : List (List Char)) : spaced (w :: ws) = ' ' :: (w ++ spaced ws) := rfl

theorem spaced_append (ws vs : List (List Char)) : spaced (ws ++ vs) = spaced ws ++ spaced vs :=
  List.flatMap_append

theorem head?_spaced (ws : List (List Char)) : ∀ c ∈ (spaced ws).head?, c = ' ' := by
  cases ws with
  | nil => simp
  | cons w ws => simp [spaced_cons]

theorem isBlank_head_spaced (ws : List (List Char)) : ∀ c ∈ (spaced ws).head?, Text.isBlank c = true := by
  intro c hc
  rw [head?_spaced ws c hc]
  decide

theorem isWordChar_head_spaced (ws : List (List Char)) : ∀ c ∈ (spaced ws).head?, Text.isWordChar c = false := by
  intro c hc
  rw [head?_spaced ws c hc]
  decide

/-- A text that can stand as a word: it is not empty and holds no blank. -/
def IsSolid (w : List Char) : Prop := w ≠ [] ∧ ∀ c ∈ w, Text.isBlank c = false

instance (w : List Char) : Decidable (IsSolid w) := inferInstanceAs (Decidable (_ ∧ _))

theorem IsSolid.head (h : IsSolid w) (s : List Char) : ∀ c ∈ (w ++ s).head?, Text.isBlank c = false := by
  intro c hc
  rw [List.head?_append_of_ne_nil _ h.1] at hc
  exact h.2 c (List.mem_of_mem_head? hc)

theorem isSolid_of_forall_isWordChar (hw : w ≠ []) (hWord : ∀ c ∈ w, Text.isWordChar c = true) : IsSolid w :=
  ⟨hw, fun c hc => Text.isBlank_of_isWordChar (hWord c hc)⟩

theorem isBlank_getLast_spaced (hws : ∀ w ∈ ws, IsSolid w) : ∀ c ∈ (spaced ws).getLast?, Text.isBlank c = false := by
  rcases List.eq_nil_or_concat' ws with rfl | ⟨vs, v, rfl⟩
  · simp
  · have hv := hws v (by simp)
    intro c hc
    rw [spaced_append, spaced_cons, spaced_nil, List.append_nil, List.getLast?_append_of_ne_nil _ (by simp),
      ← List.singleton_append, List.getLast?_append_of_ne_nil _ hv.1] at hc
    exact hv.2 c (List.mem_of_getLast? hc)

/-! ## Keywords before blanks -/

/-- Letters that stand for no blank. -/
def NoBlanks (ls : List Char) : Prop := ∀ l ∈ ls, ∀ c, Text.sameLetter l c = true → Text.isBlank c = false

theorem noBlanks_of_isAlpha (h : ∀ l ∈ ls, l.toLower.isAlpha = true) : NoBlanks ls :=
  fun l hl _ hc => Text.isBlank_of_isWordChar (Text.isWordChar_of_sameLetter (h l hl) hc)

/-- A keyword that blanks must follow stands for a whole word. -/
theorem hits_keyword_blanks (hls : NoBlanks ls) (hw : ∀ c ∈ w, Text.isBlank c = false)
    (hs : ∀ c ∈ s.head?, Text.isBlank c = true) (q : Pattern) (last : Option Char) :
    (keyword ls ++ (blanks ++ q)).hits last (w ++ s) =
      if Spells ls w then ((blanks ++ q).hits (lastOf last w) s).map (⟨w, [], s⟩ : Hit).andThen else [] := by
  by_cases h : Spells ls w
  · rw [if_pos h, takes_keyword h _ s last]
  rw [if_neg h]
  induction ls generalizing w last with
  | nil =>
    cases w with
    | nil => exact absurd List.Forall₂.nil h
    | cons c w =>
      -- no blank comes next
      rw [keyword, List.foldr_nil, hits_empty_append]
      exact hits_many_append_of_not (by simpa using hw c List.mem_cons_self)
  | cons l ls ih =>
    cases w with
    | nil =>
      refine hits_keyword_cons_append_of_head (fun d hd hld => ?_) ls _ last
      simpa [hs d hd] using hls l List.mem_cons_self d hld
    | cons c w =>
      rw [List.cons_append, hits_keyword_cons_append]
      by_cases hc : Text.sameLetter l c = true
      · rw [if_pos hc, ih (fun m hm => hls m (List.mem_cons_of_mem l hm))
          (fun d hd => hw d (List.mem_cons_of_mem c hd)) (some c) fun ht => h (List.Forall₂.cons hc ht), List.map_nil]
      · rw [if_neg hc]

/-- Whether a word ends in a keyword. -/
def endsIn (ls w : List Char) : Bool := w.tails.any fun v => decide (Spells ls v)

theorem not_spells_of_endsIn {u v : List Char} (h : endsIn ls (u ++ v) = false) : ¬ Spells ls v := by
  simp only [endsIn, List.any_eq_false, decide_eq_true_eq, List.mem_tails] at h
  exact h v (List.suffix_append u v)

/-- A word does not end in a keyword when its last character does not stand for the last letter. -/
theorem endsIn_eq_false {l c : Char} (h : Text.sameLetter l c = false) (ls w : List Char) :
    endsIn (ls ++ [l]) (w ++ [c]) = false := by
  simp only [endsIn, List.any_eq_false, decide_eq_true_eq, List.mem_tails]
  intro v hv hSpells
  have hLength : (ls ++ [l]).length = v.length := hSpells.length_eq
  rcases List.eq_nil_or_concat' v with rfl | ⟨u, d, rfl⟩
  · simp at hLength
  · obtain ⟨t, ht⟩ := hv
    have hLast : d = c := by
      have hEnds := congrArg List.getLast? ht
      rw [← List.append_assoc, List.getLast?_concat, List.getLast?_concat] at hEnds
      exact Option.some_inj.1 hEnds
    have hLetters : Text.sameLetter l d = true := by
      have hReverse := List.rel_reverse hSpells
      rw [List.reverse_append, List.reverse_append] at hReverse
      exact (List.forall₂_cons.1 hReverse).1
    rw [hLast, h] at hLetters
    exact Bool.false_ne_true hLetters

/-- A keyword that blanks must follow passes over words that do not end in it. -/
theorem passesOver_of_endsIn (hls : NoBlanks ls) (hw : ∀ c ∈ w, Text.isBlank c = false)
    (hs : ∀ c ∈ s.head?, Text.isBlank c = true) (h : endsIn ls w = false) (q : Pattern) (last : Option Char) :
    (keyword ls ++ (blanks ++ q)).PassesOver last w s := by
  induction w generalizing last with
  | nil => trivial
  | cons c w ih =>
    refine ⟨?_, ih (fun d hd => hw d (List.mem_cons_of_mem c hd)) ?_ (some c)⟩
    · rw [← List.cons_append, hits_keyword_blanks hls hw hs, if_neg (not_spells_of_endsIn (u := []) h)]
    · rw [endsIn, List.tails_cons, List.any_cons, Bool.or_eq_false_iff] at h
      exact h.2

theorem PassesOver.atWordEdge_append (h : p.PassesOver last w s) : (atWordEdge ++ p).PassesOver last w s := by
  induction w generalizing last with
  | nil => trivial
  | cons c w ih => exact ⟨by rw [hits_atWordEdge_append, h.1, ite_self], ih h.2⟩

/-- There is no edge inside a word of word characters. -/
theorem passesOver_of_hits_eq_nil (hw : ∀ c ∈ w, Text.isWordChar c = true) (h : p.hits last (w ++ s) = []) :
    (atWordEdge ++ p).PassesOver last w s := by
  have hInside : ∀ (v : List Char) (d : Char), Text.isWordChar d = true → (∀ c ∈ v, Text.isWordChar c = true) →
      (atWordEdge ++ p).PassesOver (some d) v s := by
    intro v
    induction v with
    | nil => exact fun _ _ _ => trivial
    | cons c v ih =>
      intro d hd hv
      have hc := hv c List.mem_cons_self
      refine ⟨?_, ih c hc fun e he => hv e (List.mem_cons_of_mem c he)⟩
      have hEdge : wordEdge (some d) (c :: (v ++ s)) = false := by simp [wordEdge, wordEdge.isWord, hd, hc]
      rw [hits_atWordEdge_append, hEdge, if_neg Bool.false_ne_true]
  cases w with
  | nil => trivial
  | cons c w =>
    refine ⟨?_, hInside w c (hw c List.mem_cons_self) fun e he => hw e (List.mem_cons_of_mem c he)⟩
    rw [hits_atWordEdge_append, ← List.cons_append, h, ite_self]

/-- At the edge of a word, a keyword passes over words of word characters that it does not stand for. -/
theorem passesOver_of_not_spells (hls : NoBlanks ls) (hw : ∀ c ∈ w, Text.isWordChar c = true)
    (hs : ∀ c ∈ s.head?, Text.isBlank c = true) (h : ¬ Spells ls w) (q : Pattern) (last : Option Char) :
    (atWordEdge ++ (keyword ls ++ (blanks ++ q))).PassesOver last w s := by
  refine passesOver_of_hits_eq_nil hw ?_
  rw [hits_keyword_blanks hls (fun c hc => Text.isBlank_of_isWordChar (hw c hc)) hs, if_neg h]

/-! ## From word to word -/

/-- Where no words are left, nothing is found that is not found at the end of texts. -/
theorem findFrom_spaced_nil (hNil : ∀ last, p.hits last [] = []) (last : Option Char) :
    p.findFrom last (spaced []) = none := by
  rw [spaced_nil, findFrom, here, hNil, List.head?_nil]

/-- Nothing is found at the space before the first word. -/
theorem findFrom_spaced_cons (hp : p.Refuses Text.isBlank) (last : Option Char) (w : List Char)
    (ws : List (List Char)) : p.findFrom last (spaced (w :: ws)) = p.findFrom (some ' ') (w ++ spaced ws) := by
  rw [spaced_cons, findFrom, here, hp last ' ' _ (by decide)]
  rfl

/-- What comes before the words does not matter. -/
theorem findFrom_spaced (hp : p.Refuses Text.isBlank) (hNil : ∀ last, p.hits last [] = []) (last : Option Char)
    (ws : List (List Char)) : p.findFrom last (spaced ws) = p.find (spaced ws) := by
  cases ws with
  | nil => rw [find, findFrom_spaced_nil hNil, findFrom_spaced_nil hNil]
  | cons w ws => rw [find, findFrom_spaced_cons hp, findFrom_spaced_cons hp]

/-- A word that is passed over may be left out. -/
theorem find_spaced_cons_of_passesOver (hp : p.Refuses Text.isBlank) (hNil : ∀ last, p.hits last [] = [])
    (h : p.PassesOver (some ' ') w (spaced ws)) : p.find (spaced (w :: ws)) = p.find (spaced ws) := by
  rw [find, findFrom_spaced_cons hp, findFrom_append h, findFrom_spaced hp hNil]

/-- A pattern that takes no blanks is looked for in each word. -/
theorem occursIn_spaced (hAvoids : p.Avoids Text.isBlank) (hp : p.Refuses Text.isBlank)
    (hNil : ∀ last, p.hits last [] = []) (hForward : p.Forward) (ws : List (List Char)) :
    p.occursIn (spaced ws) = ws.any p.occursIn := by
  induction ws with
  | nil => rw [occursIn, find, findFrom_spaced_nil hNil]; rfl
  | cons w ws ih =>
    have hRest : p.findFrom (lastOf (some ' ') w) (spaced ws) = p.find (spaced ws) := hForward.findFrom_eq _ _ _
    have hWord : p.findFrom (some ' ') w = p.find w := hForward.findFrom_eq _ _ _
    rw [List.any_cons, ← ih, occursIn, occursIn, occursIn, find, findFrom_spaced_cons hp,
      findFrom_append_of_avoids hAvoids w (isBlank_head_spaced ws), hRest, hWord, Option.isSome_or, Option.isSome_map]

end Pattern

end SqlSurvey
