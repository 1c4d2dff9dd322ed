import SqlSurvey.Proofs.Ddl.Layout
import SqlSurvey.Proofs.Pattern.Written

/-!
# What happens on deletion and on update

The actions of a reference as they are written, with any blanks and letters in any case. A search for the action on one
event takes it as a whole where it stands, and passes over what happens on the other event.
-/

namespace SqlSurvey.Ddl

open Pattern

variable {s : List Char} {last : Option Char} {event other first second word : String}

/-! ## Actions -/

/-- A referential action as it is written. -/
inductive WrittenAction where
  | cascade (word : Spelling "CASCADE")
  | restrict (word : Spelling "RESTRICT")
  | setNull (set : Spelling "SET") (between : Space) (null : Spelling "NULL")
  | setDefault (set : Spelling "SET") (between : Space) (default : Spelling "DEFAULT")
  | noAction (no : Spelling "NO") (between : Space) (action : Spelling "ACTION")

namespace WrittenAction

/-- The text of an action. -/
def text : WrittenAction → List Char
  | cascade w => w.text
  | restrict w => w.text
  | setNull v b w => v.text ++ b.text ++ w.text
  | setDefault v b w => v.text ++ b.text ++ w.text
  | noAction v b w => v.text ++ b.text ++ w.text

/-- The words of an action, with one space between them. -/
def shown : WrittenAction → List Char
  | cascade w => w.text
  | restrict w => w.text
  | setNull v _ w => v.text ++ ' ' :: w.text
  | setDefault v _ w => v.text ++ ' ' :: w.text
  | noAction v _ w => v.text ++ ' ' :: w.text

end WrittenAction

theorem collapse_spellings (hFirst : IsKeyword first) (hSecond : IsKeyword second) (v : Spelling first) (b : Space)
    (w : Spelling second) : Text.collapse (v.text ++ b.text ++ w.text) = v.text ++ ' ' :: w.text := by
  rw [Text.collapse, List.append_assoc, Text.words_append_run (v.ne_nil hFirst) (v.isSolid hFirst).2 b.nonempty b.blank,
    Text.words_of_forall (w.ne_nil hSecond) (w.isSolid hSecond).2, Text.unwords_cons (List.cons_ne_nil _ _),
    Text.unwords, List.intercalate_singleton]

theorem collapse_spelling (h : IsKeyword word) (w : Spelling word) : Text.collapse w.text = w.text := by
  rw [Text.collapse, Text.words_of_forall (w.ne_nil h) (w.isSolid h).2, Text.unwords, List.intercalate_singleton]

theorem WrittenAction.collapse_text (a : WrittenAction) : Text.collapse a.text = a.shown := by
  cases a with
  | cascade w => exact collapse_spelling (by decide) w
  | restrict w => exact collapse_spelling (by decide) w
  | setNull v b w => exact collapse_spellings (by decide) (by decide) v b w
  | setDefault v b w => exact collapse_spellings (by decide) (by decide) v b w
  | noAction v b w => exact collapse_spellings (by decide) (by decide) v b w

/-- A phrase does not begin with another keyword than its own. -/
theorem hits_phrase_of_not_spells (hFirst : IsKeyword first) {w : List Char} (hw : IsSolid w)
    (h : ¬ Spells first.toList w) (hs : ∀ c ∈ s.head?, Text.isBlank c = true) (second : String)
    (last : Option Char) : (phrase first [second]).hits last (w ++ s) = [] := by
  show ((keyword first.toList ++ blanks) ++ keyword second.toList).hits last (w ++ s) = []
  rw [hits_append_assoc, hits_keyword_blanks (noBlanks_of_isAlpha hFirst.2) hw.2 hs, if_neg h]

/-- An action of one word is taken as a word. -/
theorem head?_action_spelling {word : String} (hKeyword : IsKeyword word)
    (hNotSet : word.toList.map Text.lowerAscii ≠ "SET".toList.map Text.lowerAscii)
    (hNotNo : word.toList.map Text.lowerAscii ≠ "NO".toList.map Text.lowerAscii) (w : Spelling word)
    (hs : ∀ c ∈ s.head?, Text.isBlank c = true) (last : Option Char) :
    ((action 1).hits last (w.text ++ s)).head? = some ⟨w.text, [(1, w.text)], s⟩ := by
  have hSet : IsKeyword "SET" := by decide
  have hNo : IsKeyword "NO" := by decide
  obtain ⟨ks, hks, -⟩ := reverse_runHits (w.ne_nil hKeyword) (w.isWordChar hKeyword)
    fun c hc => Text.isWordChar_of_isBlank (hs c hc)
  have hNotSet := w.not_spells hKeyword hSet hNotSet
  have hNotNo := w.not_spells hKeyword hNo hNotNo
  rw [action, hits_group, hits_either, hits_either, hits_either,
    hits_phrase_of_not_spells hSet (w.isSolid hKeyword) hNotSet hs,
    hits_phrase_of_not_spells hSet (w.isSolid hKeyword) hNotSet hs,
    hits_phrase_of_not_spells hNo (w.isSolid hKeyword) hNotNo hs, List.nil_append, List.nil_append, List.nil_append,
    Pattern.word, hits, hks]
  rfl

theorem hits_phrase_spellings {first second : String} (hSecond : IsKeyword second) (v : Spelling first) (b : Space)
    (w : Spelling second) (last : Option Char) (s : List Char) :
    (phrase first [second]).hits last (v.text ++ b.text ++ w.text ++ s) = [⟨v.text ++ b.text ++ w.text, [], s⟩] :=
  Takes.hits (takes_phrase_spellings hSecond v b w empty s) last

/-- After `SET` another letter comes than that of `NULL`. -/
theorem hits_setNull_setDefault (v : Spelling "SET") (b : Space) (w : Spelling "DEFAULT") (last : Option Char)
    (s : List Char) : (phrase "SET" ["NULL"]).hits last (v.text ++ b.text ++ w.text ++ s) = [] := by
  have hLetter : ∀ last, (keyword "NULL".toList).hits last (w.text ++ s) = [] := fun last =>
    w.hits_keyword_eq_nil (by decide) (by decide) (by decide) last s
  have hBoth : ((keyword "SET".toList ++ blanks) ++ keyword "NULL".toList).hits last
      (v.text ++ b.text ++ (w.text ++ s)) = [] := by
    rw [((v.takes _ _).append (b.takes (w.isBlank_head (by decide) s) (refuses_keyword_blank (by decide)))) last,
      hLetter, List.map_nil]
  rwa [← List.append_assoc] at hBoth

/-- An action is taken as a whole. -/
theorem WrittenAction.head?_hits (a : WrittenAction) (hs : ∀ c ∈ s.head?, Text.isBlank c = true)
    (last : Option Char) : ((action 1).hits last (a.text ++ s)).head? = some ⟨a.text, [(1, a.text)], s⟩ := by
  cases a with
  | cascade w => exact head?_action_spelling (by decide) (by decide) (by decide) w hs last
  | restrict w => exact head?_action_spelling (by decide) (by decide) (by decide) w hs last
  | setNull v b w =>
    rw [action, hits_group, hits_either, text, hits_phrase_spellings (by decide) v b w]
    rfl
  | setDefault v b w =>
    rw [action, hits_group, hits_either, hits_either, text, hits_setNull_setDefault v b w,
      hits_phrase_spellings (by decide) v b w]
    rfl
  | noAction v b w =>
    have hNo : IsKeyword "NO" := by decide
    have hSet : IsKeyword "SET" := by decide
    have hNot := v.not_spells hNo hSet (by decide)
    have hOther : ∀ second, (phrase "SET" [second]).hits last (v.text ++ b.text ++ w.text ++ s) = [] := fun second => by
      rw [List.append_assoc, List.append_assoc]
      exact hits_phrase_of_not_spells hSet (v.isSolid hNo) hNot (b.isBlank_head _) second last
    rw [action, hits_group, hits_either, hits_either, hits_either, text, hOther, hOther,
      hits_phrase_spellings (by decide) v b w]
    rfl

/-! ## Events -/

/-- What comes after ON. -/
def afterOn (event : String) : Pattern := keyword event.toList ++ (blanks ++ action 1)

theorem hits_onEvent (event : String) (last : Option Char) (s : List Char) :
    (onEvent event).hits last s = (atWordEdge ++ (keyword "ON".toList ++ (blanks ++ afterOn event))).hits last s := by
  show (((atWordEdge ++ ((keyword "ON".toList ++ blanks) ++ keyword event.toList)) ++ blanks) ++ action 1).hits last s = _
  rw [hits_append_assoc, hits_append_assoc, hits_atWordEdge_append, hits_atWordEdge_append, hits_append_assoc,
    hits_append_assoc]
  rfl

theorem find_onEvent (event : String) (s : List Char) :
    (onEvent event).find s = (atWordEdge ++ (keyword "ON".toList ++ (blanks ++ afterOn event))).find s := by
  unfold find
  generalize (none : Option Char) = last
  induction s generalizing last with
  | nil => rw [findFrom, findFrom, here, here, hits_onEvent]
  | cons c s ih => rw [findFrom, findFrom, here, here, hits_onEvent, ih]

theorem refuses_on (q : Pattern) : (atWordEdge ++ (keyword "ON".toList ++ (blanks ++ q))).Refuses Text.isBlank :=
  ((refuses_word (by decide : isPhraseWord "ON" = true)).append _).atWordEdge_append

theorem hits_on_nil (q : Pattern) (last : Option Char) :
    (atWordEdge ++ (keyword "ON".toList ++ (blanks ++ q))).hits last [] = [] := by
  rw [hits_atWordEdge_append]
  exact ite_self _

/-- What happens on an event, as it is written. -/
structure EventClause (event : String) where
  on : Spelling "ON"
  onEnd : Space
  word : Spelling event
  wordEnd : Space
  does : WrittenAction

/-- The text of what happens on an event. -/
def EventClause.text (c : EventClause event) : List Char :=
  c.on.text ++ (c.onEnd.text ++ (c.word.text ++ (c.wordEnd.text ++ c.does.text)))

theorem hits_onEvent_nil (event : String) (last : Option Char) : (onEvent event).hits last [] = [] := by
  rw [hits_onEvent, hits_on_nil]

theorem passesOver_onEvent {a b : List Char} : (onEvent event).PassesOver last a b ↔
    (atWordEdge ++ (keyword "ON".toList ++ (blanks ++ afterOn event))).PassesOver last a b := by
  induction a generalizing last with
  | nil => exact Iff.rfl
  | cons c a ih => rw [PassesOver, PassesOver, hits_onEvent, ih]

namespace WrittenAction

/-- An action is read as a search for a word would pass over it. -/
theorem isSolid_head (a : WrittenAction) : ∀ c ∈ (a.text ++ s).head?, Text.isBlank c = false := by
  have hHead : ∀ {word : String} (w : Spelling word) (t : List Char), IsKeyword word →
      ∀ c ∈ (w.text ++ t).head?, Text.isBlank c = false := fun w t h => w.isBlank_head h t
  cases a with
  | cascade w => exact hHead w s (by decide)
  | restrict w => exact hHead w s (by decide)
  | setNull v b w => simpa [text] using hHead v (b.text ++ (w.text ++ s)) (by decide)
  | setDefault v b w => simpa [text] using hHead v (b.text ++ (w.text ++ s)) (by decide)
  | noAction v b w => simpa [text] using hHead v (b.text ++ (w.text ++ s)) (by decide)

/-- No word of an action is ON. -/
theorem passesOver (a : WrittenAction) (hs : ∀ c ∈ s.head?, Text.isBlank c = true) (q : Pattern)
    (last : Option Char) : (atWordEdge ++ (keyword "ON".toList ++ (blanks ++ q))).PassesOver last a.text s := by
  have hOver : ∀ {word : String} (w : Spelling word), IsKeyword word →
      word.toList.map Text.lowerAscii ≠ "ON".toList.map Text.lowerAscii → ∀ last t,
      (∀ c ∈ t.head?, Text.isBlank c = true) →
      (atWordEdge ++ (keyword "ON".toList ++ (blanks ++ q))).PassesOver last w.text t := fun w h hNe last t ht =>
    w.passesOver h (by decide) hNe ht q last
  have hBlanks : ∀ (b : Space) last t,
      (atWordEdge ++ (keyword "ON".toList ++ (blanks ++ q))).PassesOver last b.text t := fun b _ _ =>
    (refuses_on q).passesOver b.blank
  have hTwo : ∀ {first second : String} (v : Spelling first) (b : Space) (w : Spelling second),
      IsKeyword first → IsKeyword second → first.toList.map Text.lowerAscii ≠ "ON".toList.map Text.lowerAscii →
      second.toList.map Text.lowerAscii ≠ "ON".toList.map Text.lowerAscii →
      (atWordEdge ++ (keyword "ON".toList ++ (blanks ++ q))).PassesOver last (v.text ++ b.text ++ w.text) s :=
    fun v b w hFirst hSecond hv hw =>
      ((hOver v hFirst hv _ _ (b.isBlank_head _)).append (hBlanks b _ _)).append (hOver w hSecond hw _ _ hs)
  cases a with
  | cascade w => exact hOver w (by decide) (by decide) last s hs
  | restrict w => exact hOver w (by decide) (by decide) last s hs
  | setNull v b w => exact hTwo v b w (by decide) (by decide) (by decide) (by decide)
  | setDefault v b w => exact hTwo v b w (by decide) (by decide) (by decide) (by decide)
  | noAction v b w => exact hTwo v b w (by decide) (by decide) (by decide) (by decide)

end WrittenAction

/-- The action for an event is found where it stands. -/
theorem EventClause.find (hEvent : IsKeyword event) (c : EventClause event)
    (hs : ∀ c ∈ s.head?, Text.isBlank c = true) (hLast : ∀ c ∈ last, Text.isBlank c = true) :
    ((onEvent event).findFrom last (c.text ++ s)).map (·.groupText 1) = some c.does.text := by
  have hTakes : (phrase "ON" [event] ++ blanks).Takes (action 1)
      (c.on.text ++ c.onEnd.text ++ c.word.text ++ c.wordEnd.text) [] (c.does.text ++ s) :=
    (takes_phrase_spellings hEvent c.on c.onEnd c.word _ _).append
      (c.wordEnd.takes c.does.isSolid_head (refuses_action 1))
  have hText : c.text ++ s = c.on.text ++ c.onEnd.text ++ c.word.text ++ c.wordEnd.text ++
      (c.does.text ++ s) := by simp [EventClause.text]
  have hEdge : wordEdge last (c.text ++ s) = true := by
    obtain ⟨d, t, ht⟩ := List.exists_cons_of_ne_nil (c.on.ne_nil (by decide))
    have hd : Text.isWordChar d = true := c.on.isWordChar (by decide) d (by simp [ht])
    have hNot : last.any Text.isWordChar = false := by
      cases last with
      | none => rfl
      | some e => exact Text.isWordChar_of_isBlank (hLast e rfl)
    rw [EventClause.text, ht]
    show (last.any Text.isWordChar != Text.isWordChar d) = true
    rw [hNot, hd]
    rfl
  have hHits : (onEvent event).hits last (c.text ++ s) =
      ((phrase "ON" [event] ++ blanks) ++ action 1).hits last (c.text ++ s) := by
    show (((atWordEdge ++ phrase "ON" [event]) ++ blanks) ++ action 1).hits last (c.text ++ s) = _
    rw [hits_append_assoc, hits_append_assoc, hits_atWordEdge_append, if_pos hEdge, ← hits_append_assoc]
  have hHere := congrArg List.head? (hHits.trans (hText ▸ hTakes last))
  rw [List.head?_map, c.does.head?_hits hs] at hHere
  rw [findFrom_of_here hHere]
  rfl

/-- What happens on one event is passed over in a search for the other. -/
theorem EventClause.passesOver (hEvent : IsKeyword event) (hOther : IsKeyword other)
    (hNe : other.toList.map Text.lowerAscii ≠ event.toList.map Text.lowerAscii)
    (hOn : other.toList.map Text.lowerAscii ≠ "ON".toList.map Text.lowerAscii) (c : EventClause other)
    (hs : ∀ c ∈ s.head?, Text.isBlank c = true) (last : Option Char) :
    (onEvent event).PassesOver last c.text s := by
  have hWrong : ∀ last, (keyword "ON".toList ++ (blanks ++ afterOn event)).hits last
      (c.on.text ++ (c.onEnd.text ++ (c.word.text ++ (c.wordEnd.text ++ c.does.text)) ++ s)) = [] := by
    intro last
    have hNone : ∀ last t, (afterOn event).hits last (c.word.text ++ (c.wordEnd.text ++ t)) = [] := fun last t => by
      rw [afterOn, hits_keyword_blanks (noBlanks_of_isAlpha hEvent.2) (c.word.isSolid hOther).2
        (c.wordEnd.isBlank_head _), if_neg (c.word.not_spells hOther hEvent hNe)]
    have hRefuses : (afterOn event).Refuses Text.isBlank := hEvent.refuses_blank.append _
    have hTakes := ((c.on.takes _ _).append
      (c.onEnd.takes (c.word.isBlank_head hOther (c.wordEnd.text ++ (c.does.text ++ s))) hRefuses)) last
    rw [hNone, List.map_nil, hits_append_assoc] at hTakes
    simpa using hTakes
  have hBlanks : ∀ (b : Space) last t, (atWordEdge ++ (keyword "ON".toList ++ (blanks ++ afterOn event))).PassesOver
      last b.text t := fun b _ _ => (refuses_on _).passesOver b.blank
  have hWordEnd : ∀ t, ∀ d ∈ (c.wordEnd.text ++ c.does.text ++ t).head?, Text.isBlank d = true := fun t => by
    rw [List.append_assoc]
    exact c.wordEnd.isBlank_head _
  rw [passesOver_onEvent]
  refine (passesOver_of_hits_eq_nil (c.on.isWordChar (by decide)) (hWrong last)).append ?_
  refine (hBlanks c.onEnd _ _).append ?_
  refine (c.word.passesOver hOther (by decide) hOn (hWordEnd _) _ _).append ?_
  exact (hBlanks c.wordEnd _ _).append (c.does.passesOver hs _ _)

/-- What happens on deletion and on update: neither, one of them, or both in either order. -/
inductive EventClauses where
  | none
  | delete (before : Gap) (d : EventClause "DELETE")
  | update (before : Gap) (u : EventClause "UPDATE")
  | deleteUpdate (before : Gap) (d : EventClause "DELETE") (between : Space) (u : EventClause "UPDATE")
  | updateDelete (before : Gap) (u : EventClause "UPDATE") (between : Space) (d : EventClause "DELETE")

namespace EventClauses

/-- The text of what happens, before the text that follows it. -/
def textBefore (s : List Char) : EventClauses → List Char
  | none => s
  | delete b d => b.text ++ (d.text ++ s)
  | update b u => b.text ++ (u.text ++ s)
  | deleteUpdate b d m u => b.text ++ (d.text ++ (m.text ++ (u.text ++ s)))
  | updateDelete b u m d => b.text ++ (u.text ++ (m.text ++ (d.text ++ s)))

/-- What happens on deletion. -/
def onDelete : EventClauses → Option WrittenAction
  | none => .none
  | delete _ d => some d.does
  | update _ _ => .none
  | deleteUpdate _ d _ _ => some d.does
  | updateDelete _ _ _ d => some d.does

/-- What happens on update. -/
def onUpdate : EventClauses → Option WrittenAction
  | none => .none
  | delete _ _ => .none
  | update _ u => some u.does
  | deleteUpdate _ _ _ u => some u.does
  | updateDelete _ u _ _ => some u.does

end EventClauses

/-- The action for an event in what is left of a text. -/
def actionFrom (event : String) (last : Option Char) (s : List Char) : Option String :=
  ((onEvent event).findFrom last s).map fun h => String.ofList (Text.collapse (h.groupText 1))

theorem actionOn_eq (event : String) (s : List Char) : actionOn event s = actionFrom event none s := rfl

theorem actionFrom_gap (event : String) (last : Option Char) (b : Gap) (s : List Char) :
    actionFrom event last (b.text ++ s) = actionFrom event (lastOf last b.text) s := by
  rw [actionFrom, findFrom_append ((refuses_onEvent event).passesOver b.blank), actionFrom]

theorem actionFrom_nil (event : String) (last : Option Char) : actionFrom event last [] = none := by
  rw [actionFrom, findFrom, here, hits_onEvent_nil]
  rfl

theorem actionFrom_own (hEvent : IsKeyword event) (c : EventClause event) (hs : ∀ c ∈ s.head?, Text.isBlank c = true)
    (hLast : ∀ c ∈ last, Text.isBlank c = true) :
    actionFrom event last (c.text ++ s) = some (String.ofList c.does.shown) := by
  have hFind := congrArg (Option.map fun t => String.ofList (Text.collapse t)) (c.find hEvent hs hLast)
  rw [Option.map_map, Option.map_some, c.does.collapse_text] at hFind
  exact hFind

/-- What happens on the one event does not matter for the other. -/
theorem actionFrom_other (hEvents : event = "DELETE" ∧ other = "UPDATE" ∨ event = "UPDATE" ∧ other = "DELETE")
    (c : EventClause other) (hs : ∀ c ∈ s.head?, Text.isBlank c = true) (last : Option Char) :
    actionFrom event last (c.text ++ s) = actionFrom event (lastOf last c.text) s := by
  have hOver : (onEvent event).PassesOver last c.text s := by
    rcases hEvents with ⟨rfl, rfl⟩ | ⟨rfl, rfl⟩ <;>
      exact c.passesOver (by decide) (by decide) (by decide) (by decide) hs last
  rw [actionFrom, findFrom_append hOver, actionFrom]

theorem isBlank_lastOf_gap (b : Gap) : ∀ c ∈ lastOf none b.text, Text.isBlank c = true := by
  intro c hc
  rw [lastOf, Option.or_none] at hc
  exact b.blank c (List.mem_of_getLast? hc)

/-- Each action is read for its own event. -/
theorem actionOn_textBefore (e : EventClauses) (after : Gap) :
    actionOn "DELETE" (e.textBefore after.text) = e.onDelete.map (fun a => String.ofList a.shown) ∧
      actionOn "UPDATE" (e.textBefore after.text) = e.onUpdate.map fun a => String.ofList a.shown := by
  have hDelete : IsKeyword "DELETE" := by decide
  have hUpdate : IsKeyword "UPDATE" := by decide
  have hNone : ∀ event last, actionFrom event last after.text = none := fun event last => by
    have hGap := actionFrom_gap event last after []
    rwa [List.append_nil, actionFrom_nil] at hGap
  have hAfter : ∀ c ∈ after.text.head?, Text.isBlank c = true := fun c hc =>
    after.blank c (List.mem_of_mem_head? hc)
  rw [actionOn_eq, actionOn_eq]
  cases e with
  | none => exact ⟨hNone _ _, hNone _ _⟩
  | delete b d =>
    constructor
    · rw [EventClauses.textBefore, actionFrom_gap, actionFrom_own hDelete d hAfter (isBlank_lastOf_gap b)]; rfl
    · rw [EventClauses.textBefore, actionFrom_gap, actionFrom_other (by decide) d hAfter, hNone]; rfl
  | update b u =>
    constructor
    · rw [EventClauses.textBefore, actionFrom_gap, actionFrom_other (by decide) u hAfter, hNone]; rfl
    · rw [EventClauses.textBefore, actionFrom_gap, actionFrom_own hUpdate u hAfter (isBlank_lastOf_gap b)]; rfl
  | deleteUpdate b d m u =>
    constructor
    · rw [EventClauses.textBefore, actionFrom_gap, actionFrom_own hDelete d (m.isBlank_head _) (isBlank_lastOf_gap b)]
      rfl
    · rw [EventClauses.textBefore, actionFrom_gap, actionFrom_other (by decide) d (m.isBlank_head _), actionFrom_gap,
        actionFrom_own hUpdate u hAfter (m.isBlank_last _)]
      rfl
  | updateDelete b u m d =>
    constructor
    · rw [EventClauses.textBefore, actionFrom_gap, actionFrom_other (by decide) u (m.isBlank_head _), actionFrom_gap,
        actionFrom_own hDelete d hAfter (m.isBlank_last _)]
      rfl
    · rw [EventClauses.textBefore, actionFrom_gap, actionFrom_own hUpdate u (m.isBlank_head _) (isBlank_lastOf_gap b)]
      rfl

end SqlSurvey.Ddl
