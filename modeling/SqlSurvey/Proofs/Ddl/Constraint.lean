import SqlSurvey.Proofs.Ddl.Value
import SqlSurvey.Proofs.Pattern.Words

/-!
# Constraints of a column, one after the other

A column written as its name, its type and a list of constraints, all with single spaces between. The flags of the
column and its foreign key are found by independent searches, and each search passes over the words of all constraints
but its own.
-/

namespace SqlSurvey.Ddl

open Pattern

variable {s w n t : List Char} {ws : List (List Char)} {last : Option Char}

/-! ## Constraints -/

/-- What may happen to a row when the row that it refers to is deleted or updated. -/
inductive ReferentialAction where
  | cascade
  | restrict
  | setNull
  | setDefault
  | noAction
deriving DecidableEq, Repr

/-- The words of an action. -/
def ReferentialAction.words : ReferentialAction → List (List Char)
  | cascade => ["CASCADE".toList]
  | restrict => ["RESTRICT".toList]
  | setNull => ["SET".toList, "NULL".toList]
  | setDefault => ["SET".toList, "DEFAULT".toList]
  | noAction => ["NO".toList, "ACTION".toList]

/-- An action as it is shown. -/
def ReferentialAction.text : ReferentialAction → List Char
  | cascade => "CASCADE".toList
  | restrict => "RESTRICT".toList
  | setNull => "SET NULL".toList
  | setDefault => "SET DEFAULT".toList
  | noAction => "NO ACTION".toList

/-- A constraint of a column. -/
inductive Constraint where
  | notNull
  | unique
  | primaryKey
  | autoIncrement
  | default (value : List Char)
  /-- A foreign key to a column of some table. -/
  | references (table column : List Char) (onDelete onUpdate : Option ReferentialAction)
deriving DecidableEq, Repr

/-- What a constraint is about. -/
inductive Kind where
  | notNull
  | unique
  | primaryKey
  | autoIncrement
  | default
  | references
deriving DecidableEq, Repr

namespace Constraint

/-- What a constraint is about. -/
def kind : Constraint → Kind
  | notNull => .notNull
  | unique => .unique
  | primaryKey => .primaryKey
  | autoIncrement => .autoIncrement
  | default _ => .default
  | references .. => .references

/-- Defaults are decimal integers, and tables and columns have words for names. -/
def WellFormed : Constraint → Prop
  | default n => Text.isDecimal n = true
  | references t c _ _ =>
    (t ≠ [] ∧ ∀ d ∈ t, Text.isWordChar d = true) ∧ c ≠ [] ∧ ∀ d ∈ c, Text.isWordChar d = true
  | _ => True

instance (k : Constraint) : Decidable k.WellFormed := by
  cases k <;> unfold WellFormed <;> infer_instance

/-- A table and its column, as a reference names them. -/
def target (table column : List Char) : List Char := table ++ '(' :: (column ++ [')'])

/-- The words for what happens on an event. -/
def eventWords (event : String) : Option ReferentialAction → List (List Char)
  | none => []
  | some a => "ON".toList :: event.toList :: a.words

/-- The words of a constraint. -/
def words : Constraint → List (List Char)
  | notNull => ["NOT".toList, "NULL".toList]
  | unique => ["UNIQUE".toList]
  | primaryKey => ["PRIMARY".toList, "KEY".toList]
  | autoIncrement => ["AUTOINCREMENT".toList]
  | default n => ["DEFAULT".toList, n]
  | references t c onDelete onUpdate =>
    "REFERENCES".toList :: target t c :: (eventWords "DELETE" onDelete ++ eventWords "UPDATE" onUpdate)

/-- The foreign key that a constraint declares for a column. -/
def foreignKey? (column : List Char) : Constraint → Option ForeignKey
  | references t c onDelete onUpdate => some {
      column := String.ofList column
      referencesTable := String.ofList t
      referencesColumn := String.ofList c
      onDelete := onDelete.map fun a => String.ofList a.text
      onUpdate := onUpdate.map fun a => String.ofList a.text }
  | _ => none

end Constraint

/-- The words of constraints. -/
def constraintWords (cs : List Constraint) : List (List Char) := cs.flatMap Constraint.words

/-- Whether one of some constraints is of a kind. -/
def lists (k : Kind) (cs : List Constraint) : Bool := cs.any fun c => c.kind == k

/-- A column with constraints, as an item of a table. -/
def constrainedItem (name type : List Char) (cs : List Constraint) : List Char :=
  name ++ [' '] ++ type ++ spaced (constraintWords cs)

/-! ## The words -/

/-- The keywords of the constraints of a kind. -/
def Kind.keywords : Kind → List (List Char)
  | notNull => ["NOT".toList, "NULL".toList]
  | unique => ["UNIQUE".toList]
  | primaryKey => ["PRIMARY".toList, "KEY".toList]
  | autoIncrement => ["AUTOINCREMENT".toList]
  | default => ["DEFAULT".toList]
  | references => ["REFERENCES".toList, "ON".toList, "DELETE".toList, "UPDATE".toList, "CASCADE".toList,
      "RESTRICT".toList, "SET".toList, "NULL".toList, "DEFAULT".toList, "NO".toList, "ACTION".toList]

/-- A word of a constraint: a keyword of its kind, a number or the target of a reference. -/
inductive WordOf (k : Kind) : List Char → Prop where
  | keyword {w : List Char} (h : w ∈ k.keywords) : WordOf k w
  | number {w : List Char} (h : Text.isDecimal w = true) : WordOf k w
  | target {t c : List Char} (ht : t ≠ [] ∧ ∀ d ∈ t, Text.isWordChar d = true)
      (hc : c ≠ [] ∧ ∀ d ∈ c, Text.isWordChar d = true) : WordOf k (Constraint.target t c)

theorem mem_keywords_of_mem_eventWords {event : String} (hEvent : event = "DELETE" ∨ event = "UPDATE")
    (a : Option ReferentialAction) : ∀ w ∈ Constraint.eventWords event a, w ∈ Kind.references.keywords := by
  rcases hEvent with rfl | rfl <;> rcases a with _ | a <;> (try cases a) <;> decide

theorem Constraint.wordOf {k : Constraint} (hk : k.WellFormed) (hw : w ∈ k.words) : WordOf k.kind w := by
  cases k with
  | notNull => exact .keyword hw
  | unique => exact .keyword hw
  | primaryKey => exact .keyword hw
  | autoIncrement => exact .keyword hw
  | default n =>
    rcases List.mem_cons.1 hw with rfl | hw
    · exact .keyword (show _ ∈ Kind.default.keywords by decide)
    · obtain rfl := List.mem_singleton.1 hw
      exact .number hk
  | references t c onDelete onUpdate =>
    rcases List.mem_cons.1 hw with rfl | hw
    · exact .keyword (show _ ∈ Kind.references.keywords by decide)
    rcases List.mem_cons.1 hw with rfl | hw
    · exact .target hk.1 hk.2
    rcases List.mem_append.1 hw with hw | hw
    · exact .keyword (mem_keywords_of_mem_eventWords (.inl rfl) onDelete w hw)
    · exact .keyword (mem_keywords_of_mem_eventWords (.inr rfl) onUpdate w hw)

theorem isWordChar_of_mem_keywords (k : Kind) :
    ∀ w ∈ k.keywords, w ≠ [] ∧ ∀ c ∈ w, Text.isWordChar c = true := by
  cases k <;> decide

/-- No word begins with an opening parenthesis. -/
theorem WordOf.head_ne {k : Kind} (h : WordOf k w) : ∀ c ∈ w.head?, c ≠ '(' := by
  have hWord : ∀ c, Text.isWordChar c = true → c ≠ '(' := by
    rintro c hc rfl
    exact absurd hc (by decide)
  intro c hc
  cases h with
  | keyword h => exact hWord c ((isWordChar_of_mem_keywords k w h).2 c (List.mem_of_mem_head? hc))
  | number h =>
    rintro rfl
    exact absurd (Text.isDecimalChar_of_mem h (List.mem_of_mem_head? hc)) (by decide)
  | target ht _ =>
    rw [Constraint.target, List.head?_append_of_ne_nil _ ht.1] at hc
    exact hWord c (ht.2 c (List.mem_of_mem_head? hc))

theorem WordOf.isSolid {k : Kind} (h : WordOf k w) : IsSolid w := by
  cases h with
  | keyword h =>
    obtain ⟨hw, hWord⟩ := isWordChar_of_mem_keywords k w h
    exact isSolid_of_forall_isWordChar hw hWord
  | number h =>
    exact ⟨Text.ne_nil_of_isDecimal h, fun c hc => Text.isBlank_of_isDecimalChar (Text.isDecimalChar_of_mem h hc)⟩
  | @target t c ht hc =>
    refine ⟨by simp [Constraint.target], fun d hd => ?_⟩
    simp only [Constraint.target, List.mem_append, List.mem_cons, List.not_mem_nil, or_false] at hd
    rcases hd with hd | rfl | hd | rfl
    · exact Text.isBlank_of_isWordChar (ht.2 d hd)
    · decide
    · exact Text.isBlank_of_isWordChar (hc.2 d hd)
    · decide

/-- A lettered keyword ends no number and no target. -/
theorem WordOf.mem_keywords_or {k : Kind} (h : WordOf k w) {word : String} (hWord : isLettered word = true)
    (hNil : word.toList ≠ []) : w ∈ k.keywords ∨ endsIn word.toList w = false := by
  obtain ⟨ls, l, hls⟩ := (List.eq_nil_or_concat' word.toList).resolve_left hNil
  have hl : l.toLower.isAlpha = true := List.all_eq_true.1 hWord l (by rw [hls]; simp)
  cases h with
  | keyword h => exact .inl h
  | number h =>
    obtain ⟨v, c, rfl⟩ := (List.eq_nil_or_concat' w).resolve_left (Text.ne_nil_of_isDecimal h)
    right
    rw [hls]
    exact endsIn_eq_false (Text.sameLetter_of_isDecimalChar hl (Text.isDecimalChar_of_mem h (by simp))) ls v
  | @target t c ht hc =>
    have hParen : Text.sameLetter l ')' = false := by
      rw [← Bool.not_eq_true]
      intro hSame
      exact absurd (Text.isWordChar_of_sameLetter hl hSame) (by decide)
    right
    rw [hls, show Constraint.target t c = (t ++ '(' :: c) ++ [')'] by simp [Constraint.target]]
    exact endsIn_eq_false hParen ls _

theorem noBlanks_of_isLettered {word : String} (h : isLettered word = true) : NoBlanks word.toList :=
  noBlanks_of_isAlpha (List.all_eq_true.1 h)

/-- At the edge of a word, a lettered keyword passes over every word that it does not stand for. -/
theorem WordOf.passesOver {k : Kind} (h : WordOf k w) {word : String} (hWord : isLettered word = true)
    (hNil : word.toList ≠ []) (hNot : ¬ Spells word.toList w) (hs : ∀ c ∈ s.head?, Text.isBlank c = true)
    (q : Pattern) : (atWordEdge ++ (Pattern.keyword word.toList ++ (blanks ++ q))).PassesOver last w s := by
  rcases h.mem_keywords_or hWord hNil with hMem | hEnds
  · exact passesOver_of_not_spells (noBlanks_of_isLettered hWord) (isWordChar_of_mem_keywords k w hMem).2 hs hNot q _
  · exact (passesOver_of_endsIn (noBlanks_of_isLettered hWord) h.isSolid.2 hs hEnds q _).atWordEdge_append

theorem WordOf.not_spells {k : Kind} (h : WordOf k w) {word : String} (hWord : isLettered word = true)
    (hNil : word.toList ≠ []) (hKeyword : ∀ v ∈ k.keywords, ¬ Spells word.toList v) : ¬ Spells word.toList w := by
  rcases h.mem_keywords_or hWord hNil with hMem | hEnds
  · exact hKeyword w hMem
  · exact not_spells_of_endsIn (u := []) hEnds

theorem WordOf.of_mem_constraintWords {cs : List Constraint} (hcs : ∀ c ∈ cs, c.WellFormed)
    (hw : w ∈ constraintWords cs) : ∃ c ∈ cs, WordOf c.kind w := by
  obtain ⟨c, hc, hMem⟩ := List.mem_flatMap.1 hw
  exact ⟨c, hc, c.wordOf (hcs c hc) hMem⟩

/-- ON and REFERENCES are words of references only. -/
theorem WordOf.not_spells_of_ne {k : Kind} (h : WordOf k w) (hk : k ≠ .references) {word : String}
    (hWord : word = "ON" ∨ word = "REFERENCES") : ¬ Spells word.toList w := by
  have hKeywords : ∀ v ∈ k.keywords, ¬ Spells "ON".toList v ∧ ¬ Spells "REFERENCES".toList v := by
    cases k <;> first | decide | exact absurd rfl hk
  rcases hWord with rfl | rfl
  · exact h.not_spells (by decide) (by decide) fun v hv => (hKeywords v hv).1
  · exact h.not_spells (by decide) (by decide) fun v hv => (hKeywords v hv).2

/-! ## The flags -/

theorem ne_nil_of_isPhraseWord {word : String} (h : isPhraseWord word = true) : word.toList ≠ [] := by
  obtain ⟨l, ls, hWord, -⟩ := exists_of_beginsWithLetter (Bool.and_eq_true_iff.1 h).2
  rw [hWord]
  exact List.cons_ne_nil l ls

theorem hits_phrase_nil {first second : String} (hFirst : isPhraseWord first = true) (last : Option Char) :
    (phrase first [second]).hits last [] = [] := by
  obtain ⟨l, ls, hls⟩ := List.exists_cons_of_ne_nil (ne_nil_of_isPhraseWord hFirst)
  show ((keyword first.toList ++ blanks) ++ keyword second.toList).hits last [] = []
  rw [hls]
  exact hits_append_eq_nil (hits_keyword_cons_append_nil l ls blanks last)

/-- Words that do not end in the first keyword of a phrase are passed over. -/
theorem find_phrase_append {first second : String} (hFirst : isPhraseWord first = true)
    (hw : ∀ w ∈ ws, IsSolid w ∧ endsIn first.toList w = false) (vs : List (List Char)) :
    (phrase first [second]).find (spaced (ws ++ vs)) = (phrase first [second]).find (spaced vs) := by
  have hLettered := (Bool.and_eq_true_iff.1 hFirst).1
  induction ws with
  | nil => rfl
  | cons w ws ih =>
    obtain ⟨hSolid, hEnds⟩ := hw w List.mem_cons_self
    have hOver : (phrase first [second]).PassesOver (some ' ') w (spaced (ws ++ vs)) :=
      passesOver_append_assoc (keyword second.toList) |>.2
        (passesOver_of_endsIn (noBlanks_of_isLettered hLettered) hSolid.2 (isBlank_head_spaced _) hEnds _ _)
    rw [List.cons_append, find_spaced_cons_of_passesOver (refuses_phrase hFirst) (hits_phrase_nil hFirst) hOver]
    exact ih fun v hv => hw v (List.mem_cons_of_mem w hv)

/-- A phrase occurs exactly where the constraint that it stands for is listed. -/
theorem occursIn_phrase_constraints {first second : String} {k : Kind} (hFirst : isPhraseWord first = true)
    (hSecond : beginsWithLetter second = true) (hSpells : Spells first.toList first.toList ∧
      Spells second.toList second.toList)
    (hOwn : ∀ c : Constraint, c.kind = k → c.words = [first.toList, second.toList])
    (hOther : ∀ k', k' ≠ k → ∀ w ∈ k'.keywords, endsIn first.toList w = false) {cs : List Constraint}
    (hcs : ∀ c ∈ cs, c.WellFormed) : (phrase first [second]).occursIn (spaced (constraintWords cs)) = lists k cs := by
  induction cs with
  | nil =>
    have hNone : (phrase first [second]).find (spaced []) = none := findFrom_spaced_nil (hits_phrase_nil hFirst) none
    rw [constraintWords, List.flatMap_nil, occursIn, hNone]
    rfl
  | cons c cs ih =>
    have hc := hcs c List.mem_cons_self
    have hRest := ih fun d hd => hcs d (List.mem_cons_of_mem c hd)
    have hText : constraintWords (c :: cs) = c.words ++ constraintWords cs := rfl
    have hLists : lists k (c :: cs) = (c.kind == k || lists k cs) := rfl
    rw [hText, hLists]
    by_cases hKind : c.kind = k
    · have hTakes : (phrase first [second]).Takes empty (first.toList ++ [' '] ++ second.toList) []
          (spaced (constraintWords cs)) := takes_phrase hSpells.1 hSpells.2 hSecond _ _
      have hSpaced : spaced ([first.toList, second.toList] ++ constraintWords cs) =
          ' ' :: (first.toList ++ [' '] ++ second.toList ++ spaced (constraintWords cs)) := by
        simp [spaced_cons]
      rw [hOwn c hKind, hSpaced, hKind, beq_self_eq_true, Bool.true_or, occursIn, find, findFrom, here,
        refuses_phrase hFirst none ' ' _ (by decide), List.head?_nil, Option.none_or,
        findFrom_of_here (by rw [here, hTakes.hits]; rfl)]
      rfl
    · have hWords : ∀ w ∈ c.words, IsSolid w ∧ endsIn first.toList w = false := fun w hw =>
        ⟨(c.wordOf hc hw).isSolid, ((c.wordOf hc hw).mem_keywords_or (Bool.and_eq_true_iff.1 hFirst).1
          (ne_nil_of_isPhraseWord hFirst)).elim (hOther c.kind hKind w) id⟩
      rw [occursIn, find_phrase_append hFirst hWords, ← occursIn, hRest, beq_eq_false_iff_ne.2 hKind, Bool.false_or]

theorem occursIn_notNull_constraints {cs : List Constraint} (hcs : ∀ c ∈ cs, c.WellFormed) :
    notNullPhrase.occursIn (spaced (constraintWords cs)) = lists .notNull cs := by
  refine occursIn_phrase_constraints (by decide) (by decide) (by decide) (fun c hc => ?_) (fun k hk => ?_) hcs
  · cases c <;> first | rfl | cases hc
  · cases k <;> first | decide | exact absurd rfl hk

theorem occursIn_primaryKey_constraints {cs : List Constraint} (hcs : ∀ c ∈ cs, c.WellFormed) :
    primaryKeyPhrase.occursIn (spaced (constraintWords cs)) = lists .primaryKey cs := by
  refine occursIn_phrase_constraints (by decide) (by decide) (by decide) (fun c hc => ?_) (fun k hk => ?_) hcs
  · cases c <;> first | rfl | cases hc
  · cases k <;> first | decide | exact absurd rfl hk

/-- Whether a constraint refers to a table or a column with AUTOINCREMENT in its name. -/
def Constraint.namesAutoIncrement : Constraint → Bool
  | references t c _ _ => autoIncrementPhrase.occursIn t || autoIncrementPhrase.occursIn c
  | _ => false

theorem forward_autoIncrementPhrase : autoIncrementPhrase.Forward :=
  ⟨⟨forward_keyword _, trivial, trivial⟩, forward_keyword _⟩

/-- AUTOINCREMENT takes word characters only. -/
theorem avoids_autoIncrementPhrase {A : Char → Bool} (hA : ∀ c, A c = true → Text.isWordChar c = false) :
    autoIncrementPhrase.Avoids A := by
  refine ⟨⟨avoids_keyword_of_isLettered hA (by decide), ?_, trivial⟩, avoids_keyword_of_isLettered hA (by decide)⟩
  intro c hc
  rw [beq_eq_false_iff_ne]
  rintro rfl
  exact absurd (hA '_' hc) (by decide)

/-- It is found in the target of a reference when it is found in one of the two names. -/
theorem occursIn_autoIncrement_target (t c : List Char) :
    autoIncrementPhrase.occursIn (Constraint.target t c) =
      (autoIncrementPhrase.occursIn t || autoIncrementPhrase.occursIn c) := by
  have hParens : autoIncrementPhrase.Avoids fun d => d == '(' || d == ')' := by
    refine avoids_autoIncrementPhrase fun d hd => ?_
    rw [Bool.or_eq_true, beq_iff_eq, beq_iff_eq] at hd
    rcases hd with rfl | rfl <;> decide
  have hOpen : autoIncrementPhrase.findFrom (lastOf none t) ('(' :: (c ++ [')'])) =
      autoIncrementPhrase.findFrom (some '(') (c ++ [')']) := rfl
  have hClose : autoIncrementPhrase.findFrom (lastOf (some '(') c) [')'] = none := rfl
  have hName : autoIncrementPhrase.findFrom (some '(') c = autoIncrementPhrase.find c :=
    forward_autoIncrementPhrase.findFrom_eq _ _ _
  rw [occursIn, occursIn, occursIn, find, Constraint.target,
    findFrom_append_of_avoids hParens t (by simp), hOpen,
    findFrom_append_of_avoids hParens c (by simp), hClose, hName, Option.or_none, Option.isSome_or,
    Option.isSome_map, Option.isSome_map]
  rfl

/-- AUTOINCREMENT is found where it is listed, and in names. -/
theorem occursIn_autoIncrement_constraints {cs : List Constraint} (hcs : ∀ c ∈ cs, c.WellFormed) :
    autoIncrementPhrase.occursIn (spaced (constraintWords cs)) =
      (lists .autoIncrement cs || cs.any Constraint.namesAutoIncrement) := by
  have hAvoids : autoIncrementPhrase.Avoids Text.isBlank :=
    avoids_autoIncrementPhrase fun _ hc => Text.isWordChar_of_isBlank hc
  have hEvents : ∀ event : String, event = "DELETE" ∨ event = "UPDATE" → ∀ a,
      (Constraint.eventWords event a).any autoIncrementPhrase.occursIn = false := by
    intro event hEvent a
    rcases hEvent with rfl | rfl <;> rcases a with _ | a <;> (try cases a) <;> decide
  have hWords : ∀ c : Constraint, c.WellFormed → c.words.any autoIncrementPhrase.occursIn =
      (c.kind == .autoIncrement || c.namesAutoIncrement) := by
    intro c hc
    cases c with
    | notNull => decide
    | unique => decide
    | primaryKey => decide
    | autoIncrement => decide
    | default n =>
      have hNumber : autoIncrementPhrase.find n = none :=
        findFrom_of_refuses (((refuses_keyword_decimal "AUTO" (by decide)).append _).append _) (fun _ => rfl)
          fun d hd => Text.isDecimalChar_of_mem hc hd
      have hKeyword : autoIncrementPhrase.occursIn "DEFAULT".toList = false := by decide
      rw [Constraint.words, List.any_cons, List.any_cons, hKeyword, occursIn, hNumber]
      rfl
    | references t c onDelete onUpdate =>
      have hKeyword : autoIncrementPhrase.occursIn "REFERENCES".toList = false := by decide
      rw [Constraint.words, List.any_cons, List.any_cons, List.any_append, hEvents _ (.inl rfl),
        hEvents _ (.inr rfl), hKeyword, occursIn_autoIncrement_target, Bool.or_false, Bool.or_false, Bool.false_or]
      rfl
  rw [occursIn_spaced hAvoids refuses_autoIncrementPhrase (fun _ => rfl) forward_autoIncrementPhrase]
  induction cs with
  | nil => rfl
  | cons c cs ih =>
    have hText : constraintWords (c :: cs) = c.words ++ constraintWords cs := rfl
    have hLists : lists .autoIncrement (c :: cs) = (c.kind == .autoIncrement || lists .autoIncrement cs) := rfl
    rw [hText, List.any_append, hWords c (hcs c List.mem_cons_self), ih fun d hd => hcs d (List.mem_cons_of_mem c hd),
      hLists, List.any_cons]
    ac_rfl

end SqlSurvey.Ddl
