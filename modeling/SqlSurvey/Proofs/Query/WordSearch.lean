import SqlSurvey.Proofs.Pattern.Written
import SqlSurvey.Proofs.Query.Tables

/-!
# Words after keywords

A text is made of words and of marks between them. Which words a pattern of keywords finds in it depends on these
terms alone: a keyword is met where a word ends in it, what has to follow is read from term to term, and the search
goes on behind the terms that were read.
-/

namespace SqlSurvey.Query

open Pattern

/-! ## Terms -/

/-- A word as it stands in a text. -/
structure Word where
  text : List Char
  nonempty : text ≠ []
  wordChars : ∀ c ∈ text, Text.isWordChar c = true

/-- A character that stands between words without being blank. -/
structure Mark where
  char : Char
  notBlank : Text.isBlank char = false
  notWordChar : Text.isWordChar char = false

/-- A word or a mark. -/
inductive Term where
  | word (w : Word)
  | mark (m : Mark)

/-- The characters of a term. -/
def Term.text : Term → List Char
  | word w => w.text
  | mark m => [m.char]

variable {ts us : List Term} {s text : List Char} {p q : Pattern} {last : Option Char} {ls : List Char}

/-- The text begins with the first of the terms and holds them all, with blanks after each. Where a word ends, no
other one begins. -/
inductive Begins : List Term → List Char → Prop
  | nil : Begins [] []
  | word (w : Word) (b : Gap) {ts : List Term} {s : List Char}
      (hs : ∀ c ∈ (b.text ++ s).head?, Text.isWordChar c = false) (h : Begins ts s) :
      Begins (.word w :: ts) (w.text ++ (b.text ++ s))
  | mark (m : Mark) (b : Gap) {ts : List Term} {s : List Char} (h : Begins ts s) :
      Begins (.mark m :: ts) (m.char :: (b.text ++ s))

/-- The text holds the terms, with blanks before, between and behind them. -/
def Laid (ts : List Term) (text : List Char) : Prop := ∃ (b : Gap) (s : List Char), text = b.text ++ s ∧ Begins ts s

theorem Begins.isBlank_head (h : Begins ts s) : ∀ c ∈ s.head?, Text.isBlank c = false := by
  cases h with
  | nil => simp
  | word w b hs h => exact (isSolid_of_forall_isWordChar w.nonempty w.wordChars).head _
  | mark m b h =>
    intro c hc
    obtain rfl := Option.some_inj.1 hc
    exact m.notBlank

/-- A term may stand before others with one space behind it. -/
theorem begins_space (t : Term) (h : Begins ts s) : Begins (t :: ts) (t.text ++ ([' '] ++ s)) := by
  cases t with
  | word w => exact .word w ⟨[' '], by decide⟩ (by simp; decide) h
  | mark m => exact .mark m ⟨[' '], by decide⟩ h

/-- Every text falls into words and marks, with blanks around them. -/
theorem exists_laid (text : List Char) : ∃ ts, Laid ts text := by
  induction hLength : text.length using Nat.strong_induction_on generalizing text with
  | _ n ih =>
    have hSplit : text = text.takeWhile Text.isBlank ++ text.dropWhile Text.isBlank :=
      List.takeWhile_append_dropWhile.symm
    have hNotBlank := List.head?_dropWhile_not Text.isBlank text
    have hBlanks : ∀ c ∈ text.takeWhile Text.isBlank, Text.isBlank c = true :=
      fun c hc => List.mem_takeWhile_imp hc
    cases hRest : text.dropWhile Text.isBlank with
    | nil =>
      rw [hRest] at hSplit
      exact ⟨[], ⟨_, hBlanks⟩, [], hSplit, .nil⟩
    | cons c r =>
      have hShorter : r.length < n := by
        rw [hRest] at hSplit
        rw [← hLength, hSplit, List.length_append, List.length_cons]
        omega
      rw [hRest] at hSplit hNotBlank
      rw [List.head?_cons] at hNotBlank
      by_cases hc : Text.isWordChar c = true
      · -- the word is as long as it can be
        have hWord : ∀ d ∈ c :: r.takeWhile Text.isWordChar, Text.isWordChar d = true := by
          intro d hd
          rcases List.mem_cons.1 hd with rfl | hd
          · exact hc
          · exact List.mem_takeWhile_imp hd
        have hEnd := List.head?_dropWhile_not Text.isWordChar r
        have hLe := (List.dropWhile_suffix Text.isWordChar (l := r)).length_le
        obtain ⟨ts, b, s, hText, hBegins⟩ := ih _ (by omega) (r.dropWhile Text.isWordChar) rfl
        refine ⟨.word ⟨_, List.cons_ne_nil _ _, hWord⟩ :: ts, ⟨_, hBlanks⟩, c :: r, hSplit, ?_⟩
        have hWhole : c :: r = (c :: r.takeWhile Text.isWordChar) ++ (b.text ++ s) := by
          rw [← hText, List.cons_append, List.takeWhile_append_dropWhile]
        rw [hWhole]
        refine .word ⟨_, List.cons_ne_nil _ _, hWord⟩ b (fun d hd => ?_) hBegins
        rw [← hText] at hd
        rw [hd] at hEnd
        simpa using hEnd
      · obtain ⟨ts, b, s, rfl, hBegins⟩ := ih _ hShorter r rfl
        refine ⟨.mark ⟨c, by simpa using hNotBlank, by simpa using hc⟩ :: ts, ⟨_, hBlanks⟩, _, hSplit, ?_⟩
        exact .mark ⟨c, _, _⟩ b hBegins

/-! ## Reading from term to term -/

/-- What is read from the head of a list of terms: the word that is kept, and how many terms it took. -/
abbrev Reader := List Term → Option (Word × Nat)

namespace Reader

variable {f g : Reader}

/-- What is read after one more term. -/
def later (r : Word × Nat) : Word × Nat := (r.1, r.2 + 1)

/-- A word, which is kept. -/
def word : Reader
  | .word w :: _ => some (w, 1)
  | _ => none

/-- A word that spells a keyword, and then what `f` reads. -/
def after (ls : List Char) (f : Reader) : Reader
  | .word w :: ts => if Spells ls w.text then (f ts).map later else none
  | _ => none

/-- Any word, and then what `f` reads. -/
def afterWord (f : Reader) : Reader
  | .word _ :: ts => (f ts).map later
  | _ => none

/-- What `f` reads, or else what `g` reads. -/
def orElse (f g : Reader) : Reader := fun ts => (f ts).or (g ts)

/-- What is read behind a word that ends in the keyword. -/
def behind (ls : List Char) (f : Reader) : Reader
  | .word w :: ts => if endsIn ls w.text then f ts else none
  | _ => none

variable {r : Word × Nat}

theorem word_eq_some_iff : word ts = some r ↔ ∃ w us, ts = .word w :: us ∧ r = (w, 1) := by
  match ts with
  | [] => simp [word]
  | .mark m :: ts => simp [word]
  | .word w :: ts => simp [word, eq_comm]

theorem after_eq_some_iff : f.after ls ts = some r ↔
    ∃ w us k, ts = .word w :: us ∧ Spells ls w.text ∧ f us = some k ∧ r = later k := by
  match ts with
  | [] => simp [after]
  | .mark m :: ts => simp [after]
  | .word w :: ts => by_cases h : Spells ls w.text <;> simp [after, h, eq_comm]

theorem afterWord_eq_some_iff : f.afterWord ts = some r ↔
    ∃ w us k, ts = .word w :: us ∧ f us = some k ∧ r = later k := by
  match ts with
  | [] => simp [afterWord]
  | .mark m :: ts => simp [afterWord]
  | .word w :: ts => simp [afterWord, eq_comm]

theorem behind_eq_some_iff : f.behind ls ts = some r ↔
    ∃ w us, ts = .word w :: us ∧ endsIn ls w.text = true ∧ f us = some r := by
  match ts with
  | [] => simp [behind]
  | .mark m :: ts => simp [behind]
  | .word w :: ts => by_cases h : endsIn ls w.text = true <;> simp [behind, h]

end Reader

variable {f g : Reader}

/-- The hit keeps the word that was read, and leaves a text of the terms that were not. -/
def Shows (ts : List Term) (h : Hit) (r : Word × Nat) : Prop :=
  h.groupText 1 = r.1.text ∧ Laid (ts.drop r.2) h.rest

/-- The first hit of the pattern is the one that the reader says. -/
structure Reads (q : Pattern) (f : Reader) : Prop where
  refuses : q.Refuses fun c => !Text.isWordChar c
  nil : ∀ last, q.hits last [] = []
  here : ∀ {ts s}, Begins ts s → ∀ last, Option.Rel (Shows ts) (q.here last s) (f ts)

theorem Reads.here_eq_none (hq : Reads q f) (hs : ∀ c ∈ s.head?, Text.isWordChar c = false) (last : Option Char) :
    q.here last s = none := by
  cases s with
  | nil => rw [Pattern.here, hq.nil, List.head?_nil]
  | cons c s => rw [Pattern.here, hq.refuses last c s (by simp [hs c rfl]), List.head?_nil]

/-- What a pattern takes before the hit leaves what the hit shows as it is. -/
theorem rel_andThen {x : Option Hit} {y : Option (Word × Nat)} (t : List Char) (h : Option.Rel (Shows ts) x y) :
    Option.Rel (Shows ts) (x.map (⟨t, [], s⟩ : Hit).andThen) y := by
  cases h with
  | some h => exact .some h
  | none => exact .none

theorem rel_later {x : Option Hit} {y : Option (Word × Nat)} (t : Term) (h : Option.Rel (Shows ts) x y) :
    Option.Rel (Shows (t :: ts)) x (y.map Reader.later) := by
  cases h with
  | some h => exact .some h
  | none => exact .none

/-- After a word, blanks are passed over. -/
theorem Reads.here_blanks (hq : Reads q f) (b : Gap) (h : Begins ts s)
    (hs : ∀ c ∈ (b.text ++ s).head?, Text.isWordChar c = false) (last : Option Char) :
    Option.Rel (Shows ts) ((blanks ++ q).here last (b.text ++ s)) (f ts) := by
  by_cases hb : b.text = []
  · -- without blanks there is no word to be read
    rw [hb, List.nil_append] at hs ⊢
    have hNone : (blanks ++ q).here last s = none := by
      rw [Pattern.here, blanks, hits_many_append_of_not h.isBlank_head, List.head?_nil]
    have hRead := hq.here h last
    rwa [hq.here_eq_none hs, ← hNone] at hRead
  · have hBlank : q.Refuses Text.isBlank := hq.refuses.mono fun c hc => by simp [Text.isWordChar_of_isBlank hc]
    have hTakes := Space.takes ⟨b, hb⟩ h.isBlank_head hBlank
    rw [Pattern.here, hTakes last, List.head?_map]
    exact rel_andThen b.text (hq.here h _)

/-- Only a word can be read, so it is enough to say what is read from there. -/
theorem reads_of_word (hRefuses : q.Refuses fun c => !Text.isWordChar c) (hNil : ∀ last, q.hits last [] = [])
    (hfNil : f [] = none) (hfMark : ∀ m ts, f (.mark m :: ts) = none)
    (hWord : ∀ (w : Word) (b : Gap) {ts s}, (∀ c ∈ (b.text ++ s).head?, Text.isWordChar c = false) → Begins ts s →
      ∀ last, Option.Rel (Shows (.word w :: ts)) (q.here last (w.text ++ (b.text ++ s))) (f (.word w :: ts))) :
    Reads q f where
  refuses := hRefuses
  nil := hNil
  here := by
    intro ts s h last
    cases h with
    | nil =>
      rw [Pattern.here, hNil, hfNil]
      exact .none
    | mark m b h =>
      rw [Pattern.here, hRefuses last m.char _ (by simp [m.notWordChar]), hfMark]
      exact .none
    | word w b hs h => exact hWord w b hs h last

theorem reads_word : Reads (group 1 word) Reader.word := by
  refine reads_of_word (Ddl.refuses_group (refuses_many fun c hc => by simpa using hc) 1) (fun _ => rfl) rfl
    (fun _ _ => rfl) fun w b ts s hs h last => ?_
  obtain ⟨ks, hHits, -⟩ := @hits_group_many Text.isWordChar last _ w.text 1 w.nonempty w.wordChars hs
  rw [Pattern.here, word, hHits]
  exact .some ⟨rfl, b, s, rfl, h⟩

/-- A keyword before blanks stands for whole words only. -/
theorem here_keyword_blanks {k : String} (hk : IsKeyword k) {w : List Char}
    (hw : ∀ c ∈ w, Text.isWordChar c = true) (hs : ∀ c ∈ s.head?, Text.isWordChar c = false) (q : Pattern)
    (last : Option Char) : (keyword k.toList ++ (blanks ++ q)).here last (w ++ s) =
      if Spells k.toList w then ((blanks ++ q).here (lastOf last w) s).map (⟨w, [], s⟩ : Hit).andThen else none := by
  have hBlanks : ∀ l c r, Text.isWordChar l = true → Text.isWordChar c = true →
      (blanks ++ q).hits (some l) (c :: r) = [] := fun l c r _ hc => Ddl.refuses_blanks.append q (some l) c r hc
  rw [Pattern.here, hits_keyword_append_word (fun l hl c => Text.isWordChar_of_sameLetter (hk.2 l hl)) hw hs hBlanks
    (.inl hk.1)]
  split
  · rw [List.head?_map, ← Pattern.here]
  · rfl

theorem Reads.after (hq : Reads q f) {k : String} (hk : IsKeyword k) :
    Reads (keyword k.toList ++ (blanks ++ q)) (f.after k.toList) := by
  have hNil : ∀ last, (keyword k.toList ++ (blanks ++ q)).hits last [] = [] := by
    obtain ⟨l, ls, hLetters⟩ := List.exists_cons_of_ne_nil hk.1
    rw [hLetters]
    exact hits_keyword_cons_append_nil l ls _
  refine reads_of_word ((hk.refuses fun c hc => by simpa using hc).append _) hNil rfl (fun _ _ => rfl)
    fun w b ts s hs h last => ?_
  rw [here_keyword_blanks hk w.wordChars hs, Reader.after]
  split
  · exact rel_later _ (rel_andThen w.text (hq.here_blanks b h hs _))
  · exact .none

theorem Reads.afterWord (hq : Reads q f) : Reads (word ++ (blanks ++ q)) f.afterWord := by
  refine reads_of_word ((refuses_many fun c hc => by simpa using hc).append _) (fun _ => rfl) rfl (fun _ _ => rfl)
    fun w b ts s hs h last => ?_
  rw [Pattern.here, word, takes_many w.nonempty w.wordChars hs (Ddl.refuses_blanks.append q) last, List.head?_map,
    ← Pattern.here]
  exact rel_later _ (rel_andThen w.text (hq.here_blanks b h hs _))

theorem Reads.orElse (hp : Reads (p ++ q) f) (hq : Reads q g) : Reads (maybe p ++ q) (f.orElse g) where
  refuses last c r hc := by rw [hits_maybe_append, hp.refuses last c r hc, hq.refuses last c r hc, List.append_nil]
  nil last := by rw [hits_maybe_append, hp.nil, hq.nil, List.append_nil]
  here := by
    intro ts s h last
    have hFirst := hp.here h last
    rw [Pattern.here, hits_maybe_append, List.head?_append, ← Pattern.here, ← Pattern.here, Reader.orElse]
    cases hHere : (p ++ q).here last s with
    | none =>
      rw [hHere] at hFirst
      cases hRead : f ts with
      | none => exact hq.here h last
      | some r => rw [hRead] at hFirst; cases hFirst
    | some k =>
      rw [hHere] at hFirst
      cases hRead : f ts with
      | none => rw [hRead] at hFirst; cases hFirst
      | some r => rwa [hRead] at hFirst

theorem Reads.congr (hp : Reads p f) (h : p.hits = q.hits) : Reads q f where
  refuses := by rw [Refuses, ← h]; exact hp.refuses
  nil := by rw [← h]; exact hp.nil
  here := by
    intro ts s hBegins last
    rw [Pattern.here, ← h]
    exact hp.here hBegins last

/-! ## The whole text -/

/-- The words that are kept by one reading after the other. `skip` terms still belong to the last one. -/
def found (ls : List Char) (f : Reader) (skip : Nat) : List Term → List Word
  | [] => []
  | t :: ts =>
    match skip with
    | n + 1 => found ls f n ts
    | 0 =>
      match f.behind ls (t :: ts) with
      | none => found ls f 0 ts
      | some r => r.1 :: found ls f r.2 ts

theorem found_eq_drop (ls : List Char) (f : Reader) (n : Nat) (ts : List Term) :
    found ls f n ts = found ls f 0 (ts.drop n) := by
  induction ts generalizing n with
  | nil => cases n <;> rfl
  | cons t ts ih =>
    cases n with
    | zero => rfl
    | succ n => exact ih n

theorem found_cons_of_none {t : Term} (h : f.behind ls (t :: ts) = none) :
    found ls f 0 (t :: ts) = found ls f 0 ts := by rw [found, h]

theorem found_cons_of_some {t : Term} {r : Word × Nat} (h : f.behind ls (t :: ts) = some r) :
    found ls f 0 (t :: ts) = r.1 :: found ls f 0 (ts.drop r.2) := by
  rw [found, h]
  exact congrArg (r.1 :: ·) (found_eq_drop ls f r.2 ts)

/-- A text in which nothing is met is passed over. -/
theorem findAll_append_of_here {v : List Char} (hp : p.Advances)
    (h : ∀ u, u ≠ [] → u <:+ v → p.here none (u ++ s) = none) : p.findAll (v ++ s) = p.findAll s := by
  induction v with
  | nil => rfl
  | cons c v ih =>
    have hHead : p.here none (c :: (v ++ s)) = none := h (c :: v) (by simp) (List.suffix_refl _)
    rw [List.cons_append, hp.findAll_cons_of_here hHead]
    exact ih fun u hu hSuffix => h u hu (hSuffix.trans (List.suffix_cons c v))

section

variable {k : String} (hp : p.Advances) (hHits : p.hits = (keyword k.toList ++ (blanks ++ q)).hits)
  (hk : IsKeyword k) (hq : Reads q f)

include hHits hk in
theorem here_of_hits {u : List Char} (hu : ∀ c ∈ u, Text.isWordChar c = true)
    (hs : ∀ c ∈ s.head?, Text.isWordChar c = false) : p.here none (u ++ s) =
      if Spells k.toList u then ((blanks ++ q).here (lastOf none u) s).map (⟨u, [], s⟩ : Hit).andThen else none := by
  rw [Pattern.here, hHits]
  exact here_keyword_blanks hk hu hs q none

include hp hHits hk hq

/-- A word is passed over if it does not end in the keyword or nothing can be read behind it. -/
theorem findAll_word_of_none (w : Word) (b : Gap) (hs : ∀ c ∈ (b.text ++ s).head?, Text.isWordChar c = false)
    (h : Begins ts s) (hNone : f.behind k.toList (.word w :: ts) = none) :
    p.findAll (w.text ++ (b.text ++ s)) = p.findAll (b.text ++ s) := by
  refine findAll_append_of_here hp fun u _ hSuffix => ?_
  obtain ⟨v, hText⟩ := hSuffix
  rw [here_of_hits hHits hk (fun c hc => w.wordChars c (by simp [← hText, hc])) hs]
  rw [Reader.behind] at hNone
  split at hNone
  · -- the keyword may be met, but nothing comes of it
    have hRead := hq.here_blanks b h hs (lastOf none u)
    rw [hNone] at hRead
    cases hHere : (blanks ++ q).here (lastOf none u) (b.text ++ s) with
    | none => rw [Option.map_none, ite_self]
    | some k => rw [hHere] at hRead; cases hRead
  · rename_i hEnds
    rw [if_neg]
    exact not_spells_of_endsIn (u := v) (by rw [hText]; simpa using hEnds)

/-- Behind a word that ends in the keyword, the search goes on after what is read. -/
theorem findAll_word_of_some (w : Word) (b : Gap) (hs : ∀ c ∈ (b.text ++ s).head?, Text.isWordChar c = false)
    (h : Begins ts s) {r : Word × Nat} (hSome : f.behind k.toList (.word w :: ts) = some r) :
    ∃ m, p.findAll (w.text ++ (b.text ++ s)) = m :: p.findAll m.rest ∧ Shows ts m r := by
  rw [Reader.behind] at hSome
  split at hSome
  · rename_i hEnds
    obtain ⟨v, ⟨u, hText⟩, hSpells⟩ := exists_suffix_of_endsIn hEnds
    have hWord : ∀ c ∈ u ++ v, Text.isWordChar c = true := hText ▸ w.wordChars
    -- only the end of the word has the length of the keyword
    have hPass : p.findAll (u ++ (v ++ (b.text ++ s))) = p.findAll (v ++ (b.text ++ s)) := by
      refine findAll_append_of_here hp fun x hx hSuffix => ?_
      rw [← List.append_assoc, here_of_hits hHits hk (fun c hc => hWord c ?_) hs, if_neg]
      · intro hLonger
        have hLengths := hLonger.length_eq.symm.trans hSpells.length_eq
        rw [List.length_append, Nat.add_eq_right, List.length_eq_zero_iff] at hLengths
        exact hx hLengths
      · rcases List.mem_append.1 hc with hc | hc
        · exact List.mem_append_left v (hSuffix.mem hc)
        · exact List.mem_append_right u hc
    have hRead := hq.here_blanks b h hs (lastOf none v)
    rw [hSome] at hRead
    cases hHere : (blanks ++ q).here (lastOf none v) (b.text ++ s) with
    | none => rw [hHere] at hRead; cases hRead
    | some m =>
      rw [hHere] at hRead
      cases hRead with
      | some hShows =>
        refine ⟨(⟨v, [], b.text ++ s⟩ : Hit).andThen m, ?_, hShows⟩
        rw [← hText, List.append_assoc, hPass]
        refine hp.findAll_of_here ?_
        rw [here_of_hits hHits hk (fun c hc => hWord c (List.mem_append_right u hc)) hs, if_pos hSpells, hHere]
        rfl
  · exact absurd hSome (by simp)

/-- The words that the pattern finds in a text are those that are read among its terms. -/
theorem foundBy_of_laid (h : Laid ts text) : foundBy text p = (found k.toList f 0 ts).map Word.text := by
  have hRefuses : p.Refuses fun c => !Text.isWordChar c := by
    rw [Refuses, hHits]
    exact (hk.refuses fun c hc => by simpa using hc).append _
  have hBlank : p.Refuses Text.isBlank := hRefuses.mono fun c hc => by simp [Text.isWordChar_of_isBlank hc]
  suffices hSkip : ∀ n text, Laid (ts.drop n) text → foundBy text p = (found k.toList f n ts).map Word.text from
    hSkip 0 text h
  clear h
  induction ts with
  | nil =>
    rintro n text ⟨b, s, rfl, h⟩
    rw [List.drop_nil] at h
    cases h
    rw [foundBy, hp.findAll_blanks_append hBlank b.blank, hp.findAll_nil]
    rfl
  | cons t ts ih =>
    intro n text h
    cases n with
    | succ n => exact ih n text h
    | zero =>
      obtain ⟨b, s, rfl, h⟩ := h
      rw [foundBy, hp.findAll_blanks_append hBlank b.blank, found]
      cases h with
      | mark m c h =>
        have hMark : ∀ s, p.here none (m.char :: s) = none := fun s => by
          rw [Pattern.here, hRefuses none m.char s (by simp [m.notWordChar]), List.head?_nil]
        rw [hp.findAll_cons_of_here (hMark _)]
        exact ih 0 _ ⟨c, _, rfl, h⟩
      | word w c hs h =>
        cases hRead : f.behind k.toList (.word w :: ts) with
        | none =>
          rw [findAll_word_of_none hp hHits hk hq w c hs h hRead]
          exact ih 0 _ ⟨c, _, rfl, h⟩
        | some r =>
          obtain ⟨m, hFound, hText, hRest⟩ := findAll_word_of_some hp hHits hk hq w c hs h hRead
          rw [hFound, List.map_cons, List.map_cons, hText]
          exact congrArg (r.1.text :: ·) (ih r.2 _ hRest)

end

/-! ## Tables -/

/-- `OR` with a word or nothing, then `INTO` and the word that is kept. -/
def Reader.insertion : Reader :=
  (((Reader.word.after "INTO".toList).afterWord).after "OR".toList).orElse (Reader.word.after "INTO".toList)

/-- `FROM` and the word that is kept. -/
def Reader.deletion : Reader := Reader.word.after "FROM".toList

/-- How three patterns in a row are bracketed does not matter. -/
theorem append_assoc_hits (p q r : Pattern) : ((p ++ q) ++ r).hits = (p ++ (q ++ r)).hits :=
  funext fun last => funext fun s => hits_append_assoc p q r last s

theorem foundBy_afterKeyword {k : String} (hk : IsKeyword k) (hMem : afterKeywords (keyword k.toList) ∈ tablePatterns)
    (h : Laid ts text) :
    foundBy text (afterKeywords (keyword k.toList)) = (found k.toList Reader.word 0 ts).map Word.text :=
  foundBy_of_laid (advances_of_mem_tablePatterns hMem) (append_assoc_hits _ _ _) hk reads_word h

theorem foundBy_deletePattern (h : Laid ts text) :
    foundBy text deletePattern = (found "DELETE".toList Reader.deletion 0 ts).map Word.text := by
  refine foundBy_of_laid (advances_of_mem_tablePatterns (by simp [tablePatterns])) ?_ (by decide)
    (reads_word.after (by decide)) h
  rw [deletePattern, afterKeywords, append_assoc_hits, append_assoc_hits, append_assoc_hits]

theorem foundBy_insertPattern (h : Laid ts text) :
    foundBy text insertPattern = (found "INSERT".toList Reader.insertion 0 ts).map Word.text := by
  have hInto : Reads (keyword "INTO".toList ++ (blanks ++ group 1 word)) (Reader.word.after "INTO".toList) :=
    reads_word.after (by decide)
  have hOr : Reads
      (keyword "OR".toList ++ blanks ++ word ++ blanks ++ (keyword "INTO".toList ++ (blanks ++ group 1 word)))
      (((Reader.word.after "INTO".toList).afterWord).after "OR".toList) := by
    refine (hInto.afterWord.after (k := "OR") (by decide)).congr ?_
    rw [append_assoc_hits, append_assoc_hits, append_assoc_hits]
  refine foundBy_of_laid (advances_of_mem_tablePatterns (by simp [tablePatterns])) ?_ (by decide)
    (hOr.orElse hInto) h
  rw [insertPattern, afterKeywords, append_assoc_hits, append_assoc_hits, append_assoc_hits, append_assoc_hits]

/-- A word that ends in `DELETE` does not end in `FROM`. -/
theorem endsIn_from_of_delete {w : List Char} (h : endsIn "DELETE".toList w = true) :
    endsIn "FROM".toList w = false := by
  rw [← Bool.not_eq_true]
  intro hFrom
  obtain ⟨u, hu, hDelete⟩ := exists_suffix_of_endsIn h
  obtain ⟨v, hv, hFrom⟩ := exists_suffix_of_endsIn hFrom
  have hShorter : v.length ≤ u.length := by
    rw [← hFrom.length_eq, ← hDelete.length_eq]
    decide
  have hSuffix : v <:+ u := List.suffix_of_suffix_length_le hv hu hShorter
  have hEnds : endsIn "FROM".toList u = true :=
    List.any_eq_true.2 ⟨v, (List.mem_tails v u).2 hSuffix, decide_eq_true hFrom⟩
  exact absurd (isSuffix_of_endsIn (by decide) (by decide) hEnds hDelete) (by decide)

/-- The word after `DELETE FROM` is found without the term before `FROM`. -/
theorem found_delete_cons_subset (t : Term) (us : List Term) (h : ∀ xs : List Term, xs.length ≤ us.length →
      found "DELETE".toList Reader.deletion 0 xs ⊆ found "FROM".toList Reader.word 0 xs) :
    found "DELETE".toList Reader.deletion 0 (t :: us) ⊆ found "FROM".toList Reader.word 0 us := by
  cases hRead : Reader.deletion.behind "DELETE".toList (t :: us) with
  | none =>
    rw [found_cons_of_none hRead]
    exact h us (Nat.le_refl _)
  | some r =>
    obtain ⟨w, vs, hTerms, -, hAfter⟩ := Reader.behind_eq_some_iff.1 hRead
    obtain ⟨rfl, rfl⟩ := List.cons.inj hTerms
    obtain ⟨v, vs, k, rfl, hSpells, hWord, rfl⟩ := Reader.after_eq_some_iff.1 hAfter
    obtain ⟨x, xs, rfl, rfl⟩ := Reader.word_eq_some_iff.1 hWord
    have hFrom := Reader.behind_eq_some_iff.2 ⟨v, _, rfl, endsIn_of_spells hSpells, hWord⟩
    rw [found_cons_of_some hRead, found_cons_of_some hFrom]
    exact List.cons_subset_cons x (h xs (by simp; omega))

/-- A word after `DELETE FROM` is one after `FROM`. -/
theorem found_delete_subset (ts : List Term) :
    found "DELETE".toList Reader.deletion 0 ts ⊆ found "FROM".toList Reader.word 0 ts := by
  induction hLength : ts.length using Nat.strong_induction_on generalizing ts with
  | _ n ih =>
    cases ts with
    | nil => exact List.Subset.refl _
    | cons t us =>
      rw [List.length_cons] at hLength
      cases hRead : Reader.word.behind "FROM".toList (t :: us) with
      | none =>
        rw [found_cons_of_none hRead]
        exact found_delete_cons_subset t us fun xs hxs => ih xs.length (by omega) xs rfl
      | some r =>
        -- `FROM` takes the word behind it, which may be `DELETE`, but not another `FROM` behind that
        obtain ⟨w, vs, hTerms, hEnds, hWord⟩ := Reader.behind_eq_some_iff.1 hRead
        obtain ⟨rfl, rfl⟩ := List.cons.inj hTerms
        obtain ⟨x, xs, rfl, rfl⟩ := Reader.word_eq_some_iff.1 hWord
        have hNone : Reader.deletion.behind "DELETE".toList (.word w :: .word x :: xs) = none := by
          have hNot : ¬ endsIn "DELETE".toList w.text = true := fun hDelete =>
            Bool.false_ne_true ((endsIn_from_of_delete hDelete).symm.trans hEnds)
          rw [Reader.behind, if_neg hNot]
        rw [List.length_cons] at hLength
        rw [found_cons_of_none hNone, found_cons_of_some hRead]
        have hRest := found_delete_cons_subset (.word x) xs fun ys hys => ih ys.length (by omega) ys rfl
        exact List.Subset.trans hRest (List.subset_cons_self x _)

/-- What is found after `DELETE FROM` is found after `FROM`. -/
theorem foundBy_deletePattern_subset (text : List Char) :
    foundBy text deletePattern ⊆ foundBy text fromPattern := by
  obtain ⟨ts, h⟩ := exists_laid text
  have hFrom : foundBy text fromPattern = (found "FROM".toList Reader.word 0 ts).map Word.text :=
    foundBy_afterKeyword (by decide) (by simp [tablePatterns, fromPattern]) h
  rw [hFrom, foundBy_deletePattern h]
  exact List.map_subset _ (found_delete_subset ts)

/-- The tables that four patterns find. -/
theorem tables_eq_distinct (text : List Char) :
    tables text = distinct ([fromPattern, joinPattern, insertPattern, updatePattern].flatMap (foundBy text)) := by
  have hSplit : tablePatterns.flatMap (foundBy text) =
      [fromPattern, joinPattern, insertPattern, updatePattern].flatMap (foundBy text) ++
        foundBy text deletePattern := by
    simp only [tablePatterns, List.flatMap_cons, List.flatMap_nil, List.append_nil, List.append_assoc]
  unfold tables
  rw [hSplit]
  apply distinct_append_of_subset
  intro x hx
  have hMem := foundBy_deletePattern_subset text hx
  simp only [List.flatMap_cons, List.mem_append, hMem, true_or]

/-- The tables that a query touches, read among its terms. -/
theorem tables_of_laid (h : Laid ts text) :
    tables text = distinct ((found "FROM".toList Reader.word 0 ts ++ found "JOIN".toList Reader.word 0 ts ++
      found "INSERT".toList Reader.insertion 0 ts ++ found "UPDATE".toList Reader.word 0 ts).map Word.text) := by
  have hFrom : foundBy text fromPattern = (found "FROM".toList Reader.word 0 ts).map Word.text :=
    foundBy_afterKeyword (by decide) (by simp [tablePatterns, fromPattern]) h
  have hJoin : foundBy text joinPattern = (found "JOIN".toList Reader.word 0 ts).map Word.text :=
    foundBy_afterKeyword (by decide) (by simp [tablePatterns, joinPattern]) h
  have hUpdate : foundBy text updatePattern = (found "UPDATE".toList Reader.word 0 ts).map Word.text :=
    foundBy_afterKeyword (by decide) (by simp [tablePatterns, updatePattern]) h
  rw [tables_eq_distinct]
  simp only [List.flatMap_cons, List.flatMap_nil, List.append_nil, hFrom, hJoin, foundBy_insertPattern h, hUpdate,
    List.map_append, ← List.append_assoc]

/-! ## One pattern is not needed -/

/-- The tables of a text are those that the patterns other than the last one find, in the same order: what is found
after `DELETE FROM` is found after `FROM`. -/
theorem tables_without_deletePattern (text : List Char) :
    tables text = distinct (tablePatterns.dropLast.flatMap (foundBy text)) ∧
      tablePatterns.getLast? = some deletePattern ∧
      ∀ name ∈ foundBy text deletePattern, name ∈ foundBy text fromPattern :=
  ⟨tables_eq_distinct text, rfl, fun _ h => foundBy_deletePattern_subset text h⟩

end SqlSurvey.Query
