import SqlSurvey.Proofs.Ddl.Constraint
import SqlSurvey.Proofs.Ddl.Event

/-!
# References among the constraints of a column

A reference is found wherever it stands among the constraints, with its actions whatever comes after them, and
without a reference nothing is found.
-/

namespace SqlSurvey.Ddl

open Pattern

variable {s w n t c : List Char} {ws vs : List (List Char)} {last : Option Char}

/-! ## Actions -/

/-- A word of a constraint that is not ON. -/
def IsOther (w : List Char) : Prop := (∃ k, WordOf k w) ∧ ¬ Spells "ON".toList w

/-- No action begins at words other than ON. -/
theorem find_onEvent_append (event : String) (hw : ∀ w ∈ ws, IsOther w) (vs : List (List Char)) :
    (onEvent event).find (spaced (ws ++ vs)) = (onEvent event).find (spaced vs) := by
  rw [find_onEvent, find_onEvent]
  induction ws with
  | nil => rfl
  | cons w ws ih =>
    obtain ⟨⟨k, hk⟩, hNot⟩ := hw w List.mem_cons_self
    have hOver : (atWordEdge ++ (keyword "ON".toList ++ (blanks ++ afterOn event))).PassesOver (some ' ') w
        (spaced (ws ++ vs)) := hk.passesOver (by decide) (by decide) hNot (isBlank_head_spaced _) _
    rw [List.cons_append, find_spaced_cons_of_passesOver (refuses_on _) (hits_on_nil _) hOver]
    exact ih fun v hv => hw v (List.mem_cons_of_mem w hv)

theorem find_onEvent_eq_none (event : String) (hw : ∀ w ∈ ws, IsOther w) : (onEvent event).find (spaced ws) = none := by
  have h := find_onEvent_append event hw []
  rw [List.append_nil] at h
  rw [h, find_onEvent, find, findFrom_spaced_nil (hits_on_nil _)]

/-- An action with one space between its words. -/
def ReferentialAction.written : ReferentialAction → WrittenAction
  | cascade => .cascade (.plain "CASCADE")
  | restrict => .restrict (.plain "RESTRICT")
  | setNull => .setNull (.plain "SET") .one (.plain "NULL")
  | setDefault => .setDefault (.plain "SET") .one (.plain "DEFAULT")
  | noAction => .noAction (.plain "NO") .one (.plain "ACTION")

theorem ReferentialAction.shown_written (a : ReferentialAction) : a.written.shown = a.text := by cases a <;> rfl

/-- What happens on an event, with single spaces. -/
def eventClause (event : String) (a : ReferentialAction) : EventClause event :=
  ⟨.plain "ON", .one, .plain event, .one, a.written⟩

theorem spaced_eventWords (event : String) (a : ReferentialAction) (ws : List (List Char)) :
    spaced (Constraint.eventWords event (some a) ++ ws) =
      Space.one.text ++ ((eventClause event a).text ++ spaced ws) := by
  have hAction : spaced (a.words ++ ws) = ' ' :: (a.written.text ++ spaced ws) := by cases a <;> rfl
  show spaced ("ON".toList :: event.toList :: (a.words ++ ws)) = _
  rw [spaced_cons, spaced_cons, hAction]
  simp [eventClause, EventClause.text, Space.one, Spelling.plain]

/-- The action for an event is read where it stands. -/
theorem actionOn_eventWords_self {event : String} (hEvent : IsKeyword event) (a : ReferentialAction)
    (ws : List (List Char)) : actionOn event (spaced (Constraint.eventWords event (some a) ++ ws)) =
      some (String.ofList a.text) := by
  rw [actionOn_eq, spaced_eventWords, actionFrom_gap, actionFrom_own hEvent _ (isBlank_head_spaced ws)
    (Space.one.isBlank_last none), ← a.shown_written]
  rfl

/-- What happens on one event does not matter for the other. -/
theorem actionOn_eventWords_other {event other : String} (hEvents : event = "DELETE" ∧ other = "UPDATE" ∨
      event = "UPDATE" ∧ other = "DELETE") (a : Option ReferentialAction) (ws : List (List Char)) :
    actionOn event (spaced (Constraint.eventWords other a ++ ws)) = actionOn event (spaced ws) := by
  cases a with
  | none => rfl
  | some a =>
    rw [actionOn_eq, spaced_eventWords, actionFrom_gap, actionFrom_other hEvents _ (isBlank_head_spaced ws), actionOn_eq,
      actionFrom, findFrom_spaced (refuses_onEvent event) (hits_onEvent_nil event), actionFrom,
      findFrom_spaced (refuses_onEvent event) (hits_onEvent_nil event)]

theorem actionOn_eq_none (event : String) (hw : ∀ w ∈ ws, IsOther w) : actionOn event (spaced ws) = none := by
  rw [actionOn, find_onEvent_eq_none event hw]
  rfl

/-- The two actions of a reference are read back, whatever constraints come after it. -/
theorem actionOn_eventWords (onDelete onUpdate : Option ReferentialAction) (hw : ∀ w ∈ ws, IsOther w) :
    actionOn "DELETE" (spaced (Constraint.eventWords "DELETE" onDelete ++
        (Constraint.eventWords "UPDATE" onUpdate ++ ws))) = onDelete.map (fun a => String.ofList a.text) ∧
      actionOn "UPDATE" (spaced (Constraint.eventWords "DELETE" onDelete ++
        (Constraint.eventWords "UPDATE" onUpdate ++ ws))) = onUpdate.map fun a => String.ofList a.text := by
  constructor
  · cases onDelete with
    | none =>
      rw [Constraint.eventWords, List.nil_append, actionOn_eventWords_other (.inl ⟨rfl, rfl⟩), actionOn_eq_none _ hw]
      rfl
    | some a => exact actionOn_eventWords_self (by decide) a _
  · rw [actionOn_eventWords_other (.inr ⟨rfl, rfl⟩)]
    cases onUpdate with
    | none =>
      rw [Constraint.eventWords, List.nil_append, actionOn_eq_none _ hw]
      rfl
    | some a => exact actionOn_eventWords_self (by decide) a ws

/-! ## References -/

/-- What comes after REFERENCES: a table and a column in parentheses. -/
def afterReferences : Pattern :=
  name 1 ++ (gap ++ (exactly '(' ++ (gap ++ (name 2 ++ (gap ++ exactly ')')))))

/-- REFERENCES with what comes after it. -/
def referencesPhrase : Pattern := keyword "REFERENCES".toList ++ (blanks ++ afterReferences)

theorem find_inlineReference (s : List Char) : inlineReference.find s = (atWordEdge ++ referencesPhrase).find s := by
  rw [find, inlineReference, findFrom_append_assoc, findFrom_append_assoc, findFrom_append_assoc,
    findFrom_append_assoc, findFrom_append_assoc, findFrom_append_assoc, findFrom_append_assoc,
    findFrom_append_assoc]
  rfl

theorem refuses_referencesPhrase : (atWordEdge ++ referencesPhrase).Refuses Text.isBlank :=
  ((refuses_word (by decide : isPhraseWord "REFERENCES" = true)).append _).atWordEdge_append

theorem hits_referencesPhrase_nil (last : Option Char) : (atWordEdge ++ referencesPhrase).hits last [] = [] := by
  rw [hits_atWordEdge_append]
  exact ite_self _

/-- No parenthesis begins the next word. -/
def NoParen (ws : List (List Char)) : Prop := ∀ w ∈ ws.head?, IsSolid w ∧ ∀ c ∈ w.head?, c ≠ '('

/-- A name needs a parenthesis after it to be a table that is referred to. -/
theorem hits_afterReferences (hn : n ≠ []) (hName : ∀ c ∈ n, Text.isWordChar c = true) (hws : NoParen ws)
    (last : Option Char) : afterReferences.hits last (n ++ spaced ws) = [] := by
  have hOpen : ∀ q : Pattern, (exactly '(' ++ q).Refuses fun c => c != '(' := fun q =>
    (refuses_char fun c hc => by simpa using hc).append q
  have hGap : ∀ (q : Pattern) (last : Option Char), (gap ++ (exactly '(' ++ q)).hits last (spaced ws) = [] := by
    intro q last
    cases ws with
    | nil => rfl
    | cons w ws =>
      obtain ⟨hSolid, hHead⟩ := hws w rfl
      have hTakes : gap.Takes (exactly '(' ++ q) [' '] [] (w ++ spaced ws) :=
        takes_gap (by decide) (hSolid.head _) (fun last c r hc => by
          refine hOpen q last c r ?_
          rw [bne_iff_ne]
          rintro rfl
          exact absurd hc (by decide))
      obtain ⟨c, v, rfl⟩ := List.exists_cons_of_ne_nil hSolid.1
      have hNone : (exactly '(' ++ q).hits (lastOf last [' ']) (c :: v ++ spaced ws) = [] :=
        hOpen q _ c _ (by simpa using hHead)
      have hAll := hTakes last
      rw [hNone] at hAll
      exact hAll
  have hRefuses : ∀ q : Pattern, (gap ++ (exactly '(' ++ q)).Refuses Text.isWordChar := fun q =>
    refuses_blanks.maybe_append ((refuses_exactly (by decide)).append q)
  have hTakes : (name 1).Takes (gap ++ (exactly '(' ++ (gap ++ (name 2 ++ (gap ++ exactly ')'))))) n [(1, n)]
      (spaced ws) := by
    refine takes_name 1 hn hName (fun c hc => ?_) (hRefuses _)
    rw [head?_spaced ws c hc]
    decide
  rw [afterReferences, hTakes, hGap, List.map_nil]

/-- What must come next for a word to be passed over even if it is REFERENCES: a name without a parenthesis after it,
or nothing. -/
def NoTarget (ws : List (List Char)) : Prop :=
  ∀ v ∈ ws.head?, (v ≠ [] ∧ ∀ c ∈ v, Text.isWordChar c = true) ∧ NoParen ws.tail

/-- A name or a type is passed over, even if it is REFERENCES. -/
theorem passesOver_referencesPhrase (hName : ∀ c ∈ n, Text.isWordChar c = true) (hws : NoTarget ws)
    (last : Option Char) : (atWordEdge ++ referencesPhrase).PassesOver last n (spaced ws) := by
  have hAfter : ∀ last, (blanks ++ afterReferences).hits last (spaced ws) = [] := by
    intro last
    cases ws with
    | nil => exact hits_many_append_of_not (by simp)
    | cons v vs =>
      obtain ⟨⟨hv, hWord⟩, hParen⟩ := hws v rfl
      have hSpace : blanks.Takes afterReferences [' '] [] (v ++ spaced vs) :=
        takes_space (Text.isBlank_head_append hv hWord _) _
      have hAll := hSpace last
      rw [hits_afterReferences hv hWord (show NoParen vs from hParen), List.map_nil] at hAll
      exact hAll
  refine passesOver_of_hits_eq_nil hName ?_
  rw [referencesPhrase, hits_keyword_blanks (noBlanks_of_isLettered (by decide))
    (fun c hc => Text.isBlank_of_isWordChar (hName c hc)) (isBlank_head_spaced ws), hAfter, List.map_nil, ite_self]

/-- A reference is read to its closing parenthesis. -/
theorem find_references (ht : t ≠ [] ∧ ∀ d ∈ t, Text.isWordChar d = true)
    (hc : c ≠ [] ∧ ∀ d ∈ c, Text.isWordChar d = true) (ws : List (List Char)) :
    ∃ x, (atWordEdge ++ referencesPhrase).find (spaced ("REFERENCES".toList :: Constraint.target t c :: ws)) =
      some ⟨x, [(1, t), (2, c)], spaced ws⟩ := by
  have hText : spaced ("REFERENCES".toList :: Constraint.target t c :: ws) =
      [' '] ++ ("REFERENCES".toList ++ ([' '] ++ (t ++ ([] ++ (['('] ++ ([] ++ (c ++ ([] ++ ([')'] ++
        spaced ws))))))))) := by
    simp [spaced_cons, Constraint.target]
  -- no blank and no word character can come next where a parenthesis must
  have hParen : ∀ (d : Char) (q : Pattern), Text.isWordChar d = false → Text.isBlank d = false →
      (gap ++ (exactly d ++ q)).Refuses Text.isWordChar ∧ (exactly d ++ q).Refuses Text.isBlank := fun d q hWord hBlank =>
    ⟨refuses_blanks.maybe_append ((refuses_exactly hWord).append q), (refuses_exactly hBlank).append q⟩
  have hTable : ∀ s, (name 1).Takes (gap ++ (exactly '(' ++ (gap ++ (name 2 ++ (gap ++ exactly ')'))))) t [(1, t)]
      ([] ++ (['('] ++ s)) := fun s =>
    takes_name 1 ht.1 ht.2 (by simp; decide) (hParen '(' _ (by decide) (by decide)).1
  have hBefore : ∀ s, gap.Takes (exactly '(' ++ (gap ++ (name 2 ++ (gap ++ exactly ')')))) [] [] (['('] ++ s) := fun s =>
    takes_gap (by simp) (by simp; decide) (hParen '(' _ (by decide) (by decide)).2
  have hOpen : ∀ s, (exactly '(').Takes (gap ++ (name 2 ++ (gap ++ exactly ')'))) ['('] [] s := fun s =>
    takes_char (by rfl) _ s
  have hInner : ∀ s, gap.Takes (name 2 ++ (gap ++ exactly ')')) [] [] (c ++ s) := fun s =>
    takes_gap (by simp) (Text.isBlank_head_append hc.1 hc.2 s) ((refuses_name 2).append _)
  have hColumn : ∀ s, (name 2).Takes (gap ++ exactly ')') c [(2, c)] ([] ++ ([')'] ++ s)) := fun s =>
    takes_name 2 hc.1 hc.2 (by simp; decide) (refuses_blanks.maybe_append (refuses_exactly (by decide)))
  have hAfter : ∀ s, gap.Takes (exactly ')') [] [] ([')'] ++ s) := fun s =>
    takes_gap (by simp) (by simp; decide) (refuses_exactly (by decide))
  have hClose : ∀ s last, (exactly ')').hits last ([')'] ++ s) = [⟨[')'], [], s⟩] := fun s last => rfl
  have hKeyword : ∀ s, (keyword "REFERENCES".toList).Takes (blanks ++ afterReferences) "REFERENCES".toList [] s := fun s =>
    takes_keyword (by decide) _ s
  have hSpace : ∀ s, blanks.Takes afterReferences [' '] [] (t ++ s) := fun s =>
    takes_space (Text.isBlank_head_append ht.1 ht.2 s) _
  have hEdge : ∀ s, wordEdge (some ' ') ("REFERENCES".toList ++ s) = true := fun s => rfl
  have hOver : ∀ s, (atWordEdge ++ referencesPhrase).PassesOver none [' '] s := fun s =>
    refuses_referencesPhrase.passesOver (by decide)
  have hLast : lastOf none [' '] = some ' ' := rfl
  have hHits := hKeyword ([' '] ++ (t ++ ([] ++ (['('] ++ ([] ++ (c ++ ([] ++ ([')'] ++ spaced ws)))))))) (some ' ')
  rw [hSpace, afterReferences, hTable, hBefore, hOpen, hInner, hColumn, hAfter, hClose] at hHits
  have hHere : (atWordEdge ++ referencesPhrase).here (some ' ')
      ("REFERENCES".toList ++ ([' '] ++ (t ++ ([] ++ (['('] ++ ([] ++ (c ++ ([] ++ ([')'] ++ spaced ws))))))))) =
      some ⟨"REFERENCES".toList ++ ([' '] ++ (t ++ ([] ++ (['('] ++ ([] ++ (c ++ ([] ++ [')']))))))),
        [(1, t), (2, c)], spaced ws⟩ := by
    rw [here, hits_atWordEdge_append, if_pos (hEdge _), referencesPhrase, afterReferences, hHits]
    rfl
  exact ⟨_, by rw [hText, find, findFrom_append (hOver _), hLast, findFrom_of_here hHere]⟩

/-! ## The reference of a column -/

/-- The words of constraints that are no references are passed over. -/
theorem find_referencesPhrase_append {cs : List Constraint} (hcs : ∀ c ∈ cs, c.WellFormed)
    (hNone : ∀ c ∈ cs, c.kind ≠ .references) (ws : List (List Char)) :
    (atWordEdge ++ referencesPhrase).find (spaced (constraintWords cs ++ ws)) =
      (atWordEdge ++ referencesPhrase).find (spaced ws) := by
  have hWords : ∀ w ∈ constraintWords cs, ∃ k, WordOf k w ∧ ¬ Spells "REFERENCES".toList w := by
    intro w hw
    obtain ⟨c, hc, hWord⟩ := WordOf.of_mem_constraintWords hcs hw
    exact ⟨c.kind, hWord, hWord.not_spells_of_ne (hNone c hc) (.inr rfl)⟩
  generalize constraintWords cs = vs at hWords
  induction vs with
  | nil => rfl
  | cons v vs ih =>
    obtain ⟨k, hWord, hNot⟩ := hWords v List.mem_cons_self
    have hOver : (atWordEdge ++ referencesPhrase).PassesOver (some ' ') v (spaced (vs ++ ws)) :=
      hWord.passesOver (by decide) (by decide) hNot (isBlank_head_spaced _) _
    rw [List.cons_append, find_spaced_cons_of_passesOver refuses_referencesPhrase hits_referencesPhrase_nil hOver]
    exact ih fun u hu => hWords u (List.mem_cons_of_mem v hu)

/-- A constraint begins with a keyword, and no parenthesis begins its second word or the next constraint. -/
theorem noTarget_constraintWords {cs : List Constraint} (hcs : ∀ c ∈ cs, c.WellFormed) :
    NoParen (constraintWords cs) ∧ NoTarget (constraintWords cs) := by
  have hParen : ∀ ws : List (List Char), (∀ w ∈ ws, w ∈ constraintWords cs) → NoParen ws := by
    intro ws hws w hw
    obtain ⟨c, -, hWord⟩ := WordOf.of_mem_constraintWords hcs (hws w (List.mem_of_mem_head? hw))
    exact ⟨hWord.isSolid, hWord.head_ne⟩
  refine ⟨hParen _ fun w hw => hw, fun v hv => ⟨?_, hParen _ fun w hw => List.mem_of_mem_tail hw⟩⟩
  cases cs with
  | nil => simp [constraintWords] at hv
  | cons c cs =>
    have hFirst : ∀ w ∈ c.words.head?, w ∈ c.kind.keywords := by
      cases c <;> simp [Constraint.words, Constraint.kind, Kind.keywords]
    have hHead : (constraintWords (c :: cs)).head? = c.words.head? := by cases c <;> rfl
    exact isWordChar_of_mem_keywords c.kind v (hFirst v (hHead ▸ hv))

/-- Neither the name nor the type of a column is taken for a reference. -/
theorem find_inlineReference_constrainedItem (hName : ∀ c ∈ n, Text.isWordChar c = true) (ht : t ≠ [])
    (hType : ∀ c ∈ t, Text.isWordChar c = true) {cs : List Constraint} (hcs : ∀ c ∈ cs, c.WellFormed) :
    inlineReference.find (constrainedItem n t cs) =
      (atWordEdge ++ referencesPhrase).find (spaced (constraintWords cs)) := by
  obtain ⟨hParen, hTarget⟩ := noTarget_constraintWords hcs
  have hText : constrainedItem n t cs = n ++ spaced (t :: constraintWords cs) := by
    simp [constrainedItem, spaced_cons]
  have hBoth : NoTarget (t :: constraintWords cs) := fun v hv => by
    obtain rfl : t = v := by simpa using hv
    exact ⟨⟨ht, hType⟩, hParen⟩
  have hOver := passesOver_referencesPhrase hName hBoth none
  have hTypeOver := passesOver_referencesPhrase hType hTarget (some ' ')
  rw [find_inlineReference, hText, find, findFrom_append hOver, findFrom_spaced_cons refuses_referencesPhrase,
    ← findFrom_spaced_cons refuses_referencesPhrase none, ← find,
    find_spaced_cons_of_passesOver refuses_referencesPhrase hits_referencesPhrase_nil hTypeOver]

/-- The reference of a column is that of the one constraint that declares one. -/
theorem readInlineReference?_constrainedItem {column : List Char} (hName : ∀ c ∈ n, Text.isWordChar c = true)
    (ht : t ≠ []) (hType : ∀ c ∈ t, Text.isWordChar c = true) {cs : List Constraint}
    (hcs : ∀ c ∈ cs, c.WellFormed) (hKinds : (cs.map Constraint.kind).Nodup) :
    readInlineReference? (String.ofList column) (constrainedItem n t cs) =
      cs.findSome? (Constraint.foreignKey? column) := by
  rw [readInlineReference?, find_inlineReference_constrainedItem hName ht hType hcs]
  clear ht hType hName
  induction cs with
  | nil => rfl
  | cons c cs ih =>
    rw [List.map_cons, List.nodup_cons] at hKinds
    have hc := hcs c List.mem_cons_self
    have hRest := ih (fun d hd => hcs d (List.mem_cons_of_mem c hd)) hKinds.2
    by_cases hKind : c.kind = .references
    · cases c with
      | references table referenced onDelete onUpdate =>
        obtain ⟨x, hFind⟩ := find_references hc.1 hc.2 (Constraint.eventWords "DELETE" onDelete ++
          (Constraint.eventWords "UPDATE" onUpdate ++ constraintWords cs))
        have hOther : ∀ w ∈ constraintWords cs, IsOther w := by
          intro w hw
          obtain ⟨d, hd, hWord⟩ := WordOf.of_mem_constraintWords (fun d hd => hcs d (List.mem_cons_of_mem _ hd)) hw
          have hNot : d.kind ≠ .references := fun hEq => hKinds.1 (List.mem_map.2 ⟨d, hd, hEq⟩)
          exact ⟨⟨d.kind, hWord⟩, hWord.not_spells_of_ne hNot (.inl rfl)⟩
        obtain ⟨hDelete, hUpdate⟩ := actionOn_eventWords onDelete onUpdate hOther
        have hText : constraintWords (.references table referenced onDelete onUpdate :: cs) =
            "REFERENCES".toList :: Constraint.target table referenced :: (Constraint.eventWords "DELETE" onDelete ++
              (Constraint.eventWords "UPDATE" onUpdate ++ constraintWords cs)) := by
          simp [constraintWords, Constraint.words]
        rw [hText, hFind, Option.map_some, hDelete, hUpdate]
        rfl
      | _ => cases hKind
    · have hOne : ∀ d ∈ [c], d.WellFormed := by simpa using hc
      have hText : constraintWords (c :: cs) = constraintWords [c] ++ constraintWords cs := by simp [constraintWords]
      have hNoKey : Constraint.foreignKey? column c = none := by cases c <;> first | rfl | exact absurd rfl hKind
      rw [hText, find_referencesPhrase_append hOne (by simpa using hKind), hRest, List.findSome?_cons_of_isNone]
      rw [hNoKey]
      rfl

end SqlSurvey.Ddl
