import SqlSurvey.Text.Word

/-!
# Patterns

Search patterns over texts, with ordered choice: every way in which a pattern matches is listed, the
preferred one first, and a search takes the first way at the first place where there is one. A
repetition runs over characters of one class, which is all that these patterns need, so that the list
of ways is computed by recursion on the pattern.
-/

namespace SqlSurvey

/-- Which length of a repetition is preferred. -/
inductive Preference where
  | longest
  | shortest
deriving DecidableEq, Repr

/-- A search pattern. -/
inductive Pattern where
  /-- The empty text. -/
  | empty
  /-- One character of a class. -/
  | char (accepts : Char → Bool)
  /-- One character of a class or more. -/
  | many (accepts : Char → Bool) (preference : Preference)
  /-- One pattern after the other. -/
  | seq (first second : Pattern)
  /-- The first pattern, or else the second. -/
  | either (first second : Pattern)
  /-- A numbered part whose text is kept. -/
  | group (number : Nat) (inner : Pattern)
  /-- The beginning of the text. -/
  | atStart
  /-- The end of the text. -/
  | atEnd
  /-- A place where a word begins or ends. -/
  | atWordEdge

/-- One way in which a pattern matches at some place. -/
structure Hit where
  /-- The text that is matched. -/
  text : List Char
  /-- The texts of the numbered parts that took part. -/
  groups : List (Nat × List Char)
  /-- The text that follows. -/
  rest : List Char
deriving DecidableEq, Repr

namespace Hit

/-- The text of a numbered part, if that part took part. -/
def group? (h : Hit) (number : Nat) : Option (List Char) :=
  (h.groups.find? fun g => g.1 == number).map Prod.snd

/-- The text of a numbered part that always takes part. -/
def groupText (h : Hit) (number : Nat) : List Char := (h.group? number).getD []

/-- A hit, then another one on the text that follows it. -/
def andThen (h k : Hit) : Hit := ⟨h.text ++ k.text, h.groups ++ k.groups, k.rest⟩

end Hit

namespace Pattern

/-- The hits of a repetition with at least one character, the longest last. -/
def runHits (accepts : Char → Bool) : List Char → List Hit
  | [] => []
  | c :: r =>
    if accepts c then
      ⟨[c], [], r⟩ :: (runHits accepts r).map fun h => { h with text := c :: h.text }
    else []

/-- Whether a word begins or ends between two places. -/
def wordEdge (last : Option Char) (rest : List Char) : Bool :=
  last.any isWord != rest.head?.any isWord
where
  /-- The class of characters that words are made of. -/
  isWord (c : Char) : Bool := Text.isWordChar c

/-- The character before the text that follows `text`, when `last` came before `text`. -/
def lastOf (last : Option Char) (text : List Char) : Option Char := text.getLast?.or last

/-- All hits at the head of a text, the preferred one first; `last` is the character before it. -/
def hits : Pattern → Option Char → List Char → List Hit
  | empty, _, s => [⟨[], [], s⟩]
  | char accepts, _, s =>
    match s with
    | [] => []
    | c :: r => if accepts c then [⟨[c], [], r⟩] else []
  | many accepts .longest, _, s => (runHits accepts s).reverse
  | many accepts .shortest, _, s => runHits accepts s
  | seq p q, last, s =>
    (hits p last s).flatMap fun h => (hits q (lastOf last h.text) h.rest).map h.andThen
  | either p q, last, s => hits p last s ++ hits q last s
  | group n p, last, s =>
    (hits p last s).map fun h => { h with groups := (n, h.text) :: h.groups }
  | atStart, last, s => if last.isNone then [⟨[], [], s⟩] else []
  | atEnd, _, s => if s.isEmpty then [⟨[], [], s⟩] else []
  | atWordEdge, last, s => if wordEdge last s then [⟨[], [], s⟩] else []

/-- The preferred hit at the head of a text. -/
def here (p : Pattern) (last : Option Char) (s : List Char) : Option Hit := (p.hits last s).head?

/-- The first hit at or after the head of a text. -/
def findFrom (p : Pattern) (last : Option Char) : List Char → Option Hit
  | [] => p.here last []
  | c :: r => (p.here last (c :: r)).or (findFrom p (some c) r)

/-- The first hit in a text. -/
def find (p : Pattern) (s : List Char) : Option Hit := p.findFrom none s

/-- Whether a text has a hit. -/
def occursIn (p : Pattern) (s : List Char) : Bool := (p.find s).isSome

/-- The hits in a text that do not overlap, in order. `skip` characters still belong to the last hit. -/
def scan (p : Pattern) (last : Option Char) (skip : Nat) : List Char → List Hit
  | [] => if skip = 0 then (p.here last []).toList else []
  | c :: r =>
    match skip with
    | n + 1 => scan p (some c) n r
    | 0 =>
      match p.here last (c :: r) with
      | none => scan p (some c) 0 r
      | some h => h :: scan p (some c) (h.text.length - 1) r

/-- All hits in a text that do not overlap, in order. -/
def findAll (p : Pattern) (s : List Char) : List Hit := p.scan none 0 s

/-! ## Building patterns -/

instance : Append Pattern := ⟨seq⟩

/-- A pattern, or nothing. -/
def maybe (p : Pattern) : Pattern := either p empty

/-- A word of a language that does not tell the cases of letters apart. -/
def keyword (letters : List Char) : Pattern :=
  letters.foldr (fun c p => char (Text.sameLetter c) ++ p) empty

/-- One given character. -/
def exactly (c : Char) : Pattern := char fun d => d == c

/-- One blank or more. -/
def blanks : Pattern := many Text.isBlank .longest

/-- Blanks or nothing. -/
def gap : Pattern := maybe blanks

/-- A word: word characters, as many as there are. -/
def word : Pattern := many Text.isWordChar .longest

/-! ## What a hit is -/

/-- A hit splits the text at whose head it stands. -/
theorem text_append_rest {p : Pattern} {last : Option Char} {s : List Char} {h : Hit}
    (hp : h ∈ p.hits last s) : h.text ++ h.rest = s := by
  induction p generalizing last s h with
  | empty => simp only [hits, List.mem_singleton] at hp; simp [hp]
  | char accepts =>
    cases s with
    | nil => simp [hits] at hp
    | cons c r =>
      by_cases hc : accepts c = true
      · simp only [hits, hc, if_true, List.mem_singleton] at hp; simp [hp]
      · simp [hits, hc] at hp
  | many accepts preference =>
    -- whatever is preferred, the hits are the same
    have hRun : ∀ (s : List Char) (h : Hit), h ∈ runHits accepts s → h.text ++ h.rest = s := by
      intro s
      induction s with
      | nil => intro h hh; simp [runHits] at hh
      | cons c r ih =>
        intro h hh
        by_cases hc : accepts c = true
        · simp only [runHits, hc, if_true, List.mem_cons, List.mem_map] at hh
          rcases hh with rfl | ⟨k, hk, rfl⟩
          · rfl
          · simp [ih k hk]
        · simp [runHits, hc] at hh
    cases preference with
    | longest => exact hRun s h (by simpa [hits] using hp)
    | shortest => exact hRun s h (by simpa [hits] using hp)
  | seq p q ihp ihq =>
    -- the second hit splits what the first one leaves
    simp only [hits, List.mem_flatMap, List.mem_map] at hp
    obtain ⟨k, hk, m, hm, rfl⟩ := hp
    simp [Hit.andThen, ihq hm, ihp hk]
  | either p q ihp ihq =>
    simp only [hits, List.mem_append] at hp
    rcases hp with hp | hp
    · exact ihp hp
    · exact ihq hp
  | group n p ih =>
    simp only [hits, List.mem_map] at hp
    obtain ⟨k, hk, rfl⟩ := hp
    exact ih (h := k) hk
  | atStart =>
    by_cases hl : last.isNone = true
    · simp only [hits, hl, if_true, List.mem_singleton] at hp; simp [hp]
    · simp [hits, hl] at hp
  | atEnd =>
    by_cases hs : s.isEmpty = true
    · simp only [hits, hs, if_true, List.mem_singleton] at hp; simp [hp]
    · simp [hits, hs] at hp
  | atWordEdge =>
    by_cases hw : wordEdge last s = true
    · simp only [hits, hw, if_true, List.mem_singleton] at hp; simp [hp]
    · simp [hits, hw] at hp

end Pattern

end SqlSurvey
