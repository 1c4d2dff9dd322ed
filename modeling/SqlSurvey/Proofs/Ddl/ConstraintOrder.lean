import SqlSurvey.Proofs.Ddl.InlineReference
import SqlSurvey.Proofs.Ddl.DefaultWords

/-!
# The order of constraints

Name, type, nullability, key and foreign key of a column do not depend on the order of its constraints. The default
does: it is read right when the number is the last word or a constraint follows that ends it, and AUTOINCREMENT and
REFERENCES do not. SET DEFAULT before it is taken for a default as well.
-/

namespace SqlSurvey.Ddl

open Pattern

variable {n t v w : List Char} {us ws : List (List Char)} {cs cs' : List Constraint}

/-! ## What constraints say -/

/-- The default that a constraint gives. -/
def Constraint.default? : Constraint → Option (List Char)
  | default n => some n
  | _ => none

/-- The default that constraints give. -/
def listedDefault (cs : List Constraint) : Option (List Char) := cs.findSome? Constraint.default?

/-- Whether a constraint has an action that sets the default. -/
def Constraint.setsDefault : Constraint → Bool
  | references _ _ onDelete onUpdate => onDelete == some .setDefault || onUpdate == some .setDefault
  | _ => false

/-- Whether a default ends before the constraints of a kind. -/
def Kind.endsDefault : Kind → Bool
  | notNull => true
  | unique => true
  | primaryKey => true
  | _ => false

/-- No action sets the default before the default is given. -/
def DefaultFirst (cs : List Constraint) : Prop :=
  ∀ pre k post, cs = pre ++ k :: post → k.setsDefault = true → ∃ d ∈ pre, d.kind = .default

/-- What comes right after the default ends it. -/
def DefaultEnded (cs : List Constraint) : Prop :=
  ∀ pre n post, cs = pre ++ .default n :: post → ∀ k ∈ post.head?, k.kind.endsDefault = true

/-- What only one kind of constraints gives does not depend on the order. -/
theorem filterMap_eq_of_perm {β : Type} {f : Constraint → Option β} {k : Kind} (hf : ∀ c, f c ≠ none → c.kind = k)
    (hKinds : (cs.map Constraint.kind).Nodup) (hPerm : cs'.Perm cs) :
    cs'.filterMap f = cs.filterMap f ∧ (cs.filterMap f).length ≤ 1 := by
  have hLength : (cs.filterMap f).length ≤ 1 := by
    clear hPerm
    induction cs with
    | nil => simp
    | cons c cs ih =>
      rw [List.map_cons, List.nodup_cons] at hKinds
      cases hc : f c with
      | none =>
        rw [List.filterMap_cons_none hc]
        exact ih hKinds.2
      | some b =>
        have hNone : cs.filterMap f = [] := by
          rw [List.filterMap_eq_nil_iff]
          intro d hd
          by_contra hSome
          have hSame : d.kind = c.kind := (hf d hSome).trans (hf c (by simp [hc])).symm
          exact hKinds.1 (List.mem_map.2 ⟨d, hd, hSame⟩)
        rw [List.filterMap_cons_some hc, hNone]
        exact le_rfl
  refine ⟨?_, hLength⟩
  have hMapped := hPerm.filterMap f
  cases hs : cs.filterMap f with
  | nil =>
    rw [hs] at hMapped
    exact hMapped.eq_nil
  | cons b bs =>
    obtain rfl : bs = [] := by
      rw [hs] at hLength
      exact List.eq_nil_of_length_eq_zero (by simpa using hLength)
    rw [hs] at hMapped
    exact List.perm_singleton.1 hMapped

theorem lists_eq_of_perm (k : Kind) (hPerm : cs'.Perm cs) : lists k cs' = lists k cs := hPerm.any_eq

theorem listedDefault_eq_of_perm (hKinds : (cs.map Constraint.kind).Nodup) (hPerm : cs'.Perm cs) :
    listedDefault cs' = listedDefault cs := by
  obtain ⟨hSame, -⟩ := filterMap_eq_of_perm (f := Constraint.default?) (k := .default)
    (fun c hc => by cases c <;> first | rfl | exact absurd rfl hc) hKinds hPerm
  rw [listedDefault, listedDefault, ← List.head?_filterMap, ← List.head?_filterMap, hSame]

/-- The foreign key of a column is the one that its constraints declare, in whatever order they come. -/
theorem toList_readInlineReference?_constrainedItem (hName : ∀ c ∈ n, Text.isWordChar c = true)
    (ht : t ≠ []) (hType : ∀ c ∈ t, Text.isWordChar c = true) (hcs : ∀ c ∈ cs', c.WellFormed)
    (hKinds : (cs.map Constraint.kind).Nodup) (hPerm : cs'.Perm cs) :
    (readInlineReference? (String.ofList n) (constrainedItem n t cs')).toList =
      cs.filterMap (Constraint.foreignKey? n) := by
  have hKinds' : (cs'.map Constraint.kind).Nodup := (hPerm.map Constraint.kind).nodup_iff.2 hKinds
  obtain ⟨hKeys, hOne⟩ := filterMap_eq_of_perm (f := Constraint.foreignKey? n) (k := .references)
    (fun c hc => by cases c <;> first | rfl | exact absurd rfl hc) hKinds hPerm
  rw [readInlineReference?_constrainedItem hName ht hType hcs hKinds', ← List.head?_filterMap, hKeys]
  cases hs : cs.filterMap (Constraint.foreignKey? n) with
  | nil => rfl
  | cons k ks =>
    rw [hs] at hOne
    rw [List.eq_nil_of_length_eq_zero (l := ks) (by simpa using hOne)]
    rfl

/-! ## Words and defaults -/

theorem WordOf.isPlain {k : Kind} (h : WordOf k w) : IsPlain w := by
  refine ⟨h.isSolid, ?_⟩
  by_cases hSpells : Spells "DEFAULT".toList w
  · left
    have hDefault : isLettered "DEFAULT" = true := by decide
    rcases h.mem_keywords_or hDefault (by decide) with hMem | hEnds
    · have hAll : ∀ v ∈ k.keywords, Spells "DEFAULT".toList v → v = "DEFAULT".toList := by cases k <;> decide
      exact hAll w hMem hSpells
    · exact absurd hSpells (not_spells_of_endsIn (u := []) hEnds)
  · right
    intro q last ws
    exact passesOver_append_assoc (blanks ++ q) |>.2
      (h.passesOver (by decide) (by decide) hSpells (isBlank_head_spaced ws) q)

theorem isPlain_of_mem_constraintWords (hcs : ∀ c ∈ cs, c.WellFormed) : ∀ w ∈ constraintWords cs, IsPlain w := by
  intro w hw
  obtain ⟨c, -, hWord⟩ := WordOf.of_mem_constraintWords hcs hw
  exact hWord.isPlain

/-- The words of a constraint that is no default: keywords and the target of a reference. -/
theorem mem_keywords_or_target {c : Constraint} (hKind : c.kind ≠ .default) (hw : w ∈ c.words) :
    w ∈ c.kind.keywords ∨ ∃ t r, w = Constraint.target t r := by
  cases c with
  | notNull => exact .inl hw
  | unique => exact .inl hw
  | primaryKey => exact .inl hw
  | autoIncrement => exact .inl hw
  | default n => exact absurd rfl hKind
  | references t r onDelete onUpdate =>
    rcases List.mem_cons.1 hw with rfl | hw
    · exact .inl (show _ ∈ Kind.references.keywords by decide)
    rcases List.mem_cons.1 hw with rfl | hw
    · exact .inr ⟨t, r, rfl⟩
    rcases List.mem_append.1 hw with hw | hw
    · exact .inl (mem_keywords_of_mem_eventWords (.inl rfl) onDelete w hw)
    · exact .inl (mem_keywords_of_mem_eventWords (.inr rfl) onUpdate w hw)

theorem mem_target (t r : List Char) : ')' ∈ Constraint.target t r := by simp [Constraint.target]

/-- None of them is a number. -/
theorem isDecimal_of_mem_words {c : Constraint} (hKind : c.kind ≠ .default) (hw : w ∈ c.words) :
    Text.isDecimal w = false := by
  rcases mem_keywords_or_target hKind hw with hMem | ⟨t, r, rfl⟩
  · have hAll : ∀ k : Kind, ∀ v ∈ k.keywords, Text.isDecimal v = false := by
      intro k
      cases k <;> decide
    exact hAll c.kind w hMem
  · rw [← Bool.not_eq_true]
    intro hDecimal
    exact absurd (Text.isDecimalChar_of_mem hDecimal (mem_target t r)) (by decide)

/-- DEFAULT stands in a constraint only if it is a default or sets it. -/
theorem ne_default_of_mem_words {c : Constraint} (hKind : c.kind ≠ .default) (hSets : c.setsDefault = false)
    (hw : w ∈ c.words) : w ≠ "DEFAULT".toList := by
  have hEvent : ∀ (event : String) (a : Option ReferentialAction), event = "DELETE" ∨ event = "UPDATE" →
      (a == some .setDefault) = false → ∀ w ∈ Constraint.eventWords event a, w ≠ "DEFAULT".toList := by
    intro event a hEvent ha
    rcases hEvent with rfl | rfl <;> rcases a with _ | a <;> (try cases a) <;> first | decide | exact absurd ha (by decide)
  cases c with
  | notNull => revert w; decide
  | unique => revert w; decide
  | primaryKey => revert w; decide
  | autoIncrement => revert w; decide
  | default n => exact absurd rfl hKind
  | references t r onDelete onUpdate =>
    rw [Constraint.setsDefault, Bool.or_eq_false_iff] at hSets
    rcases List.mem_cons.1 hw with rfl | hw
    · decide
    rcases List.mem_cons.1 hw with rfl | hw
    · intro hEq
      have hMem := mem_target t r
      rw [hEq] at hMem
      exact absurd hMem (by decide)
    rcases List.mem_append.1 hw with hw | hw
    · exact hEvent "DELETE" onDelete (.inl rfl) hSets.1 w hw
    · exact hEvent "UPDATE" onUpdate (.inr rfl) hSets.2 w hw

theorem ne_default_of_mem_constraintWords (h : ∀ c ∈ cs, c.kind ≠ .default ∧ c.setsDefault = false) :
    ∀ w ∈ constraintWords cs, w ≠ "DEFAULT".toList := by
  intro w hw
  obtain ⟨c, hc, hMem⟩ := List.mem_flatMap.1 hw
  exact ne_default_of_mem_words (h c hc).1 (h c hc).2 hMem

/-! ## The default of words -/

theorem endedValue_append (hus : ∀ u ∈ us, u ≠ "DEFAULT".toList) (ws : List (List Char)) :
    endedValue (us ++ ws) = endedValue ws := by
  induction us with
  | nil => rfl
  | cons u us ih =>
    rw [List.cons_append, endedValue, if_neg (hus u List.mem_cons_self), Option.none_or]
    exact ih fun x hx => hus x (List.mem_cons_of_mem u hx)

theorem valueBeforeEnd_eq_none (h : upToEnd ws = none) : valueBeforeEnd ws = none := by
  cases ws with
  | nil => rfl
  | cons w ws =>
    rw [upToEnd] at h
    split at h
    · cases h
    · rw [valueBeforeEnd, Option.map_eq_none_iff.1 h]
      rfl

/-- Without an end there is no ended value. -/
theorem endedValue_eq_none (h : upToEnd ws = none) : endedValue ws = none := by
  induction ws with
  | nil => rfl
  | cons w ws ih =>
    rw [upToEnd] at h
    split at h
    · cases h
    · have hRest := Option.map_eq_none_iff.1 h
      rw [endedValue, ih hRest, valueBeforeEnd_eq_none hRest, ite_self, Option.or_none]

theorem lastValue_eq_some_iff : lastValue ws = some v ↔ ∃ us, ws = us ++ ["DEFAULT".toList, v] := by
  induction ws using lastValue.induct with
  | case1 => simp [lastValue]
  | case2 w =>
    rw [lastValue]
    refine iff_of_false (by simp) ?_
    rintro ⟨us, hus⟩
    have hLength := congrArg List.length hus
    simp at hLength
  | case3 u =>
    rw [lastValue, if_pos rfl, Option.some_inj]
    constructor
    · rintro rfl
      exact ⟨[], rfl⟩
    · rintro ⟨us, hus⟩
      have hLast := congrArg List.getLast? hus
      rw [List.getLast?_append_of_ne_nil _ (by simp)] at hLast
      simpa using hLast
  | case4 w u hNot =>
    rw [lastValue, if_neg hNot]
    refine iff_of_false (by simp) ?_
    rintro ⟨us, hus⟩
    cases us with
    | nil => exact hNot (List.cons.inj hus).1
    | cons x us =>
      have hLength := congrArg List.length hus
      simp at hLength
  | case5 x y z ws ih =>
    rw [lastValue, ih]
    constructor
    · rintro ⟨us, hus⟩
      exact ⟨x :: us, by rw [hus]; rfl⟩
    · rintro ⟨us, hus⟩
      cases us with
      | nil => simp at hus
      | cons u us => exact ⟨us, (List.cons.inj hus).2⟩

theorem getLast?_of_lastValue (h : lastValue ws = some v) : ws.getLast? = some v := by
  obtain ⟨us, rfl⟩ := lastValue_eq_some_iff.1 h
  rw [List.getLast?_append_of_ne_nil us (by simp)]
  rfl

theorem wordDefault_eq_none (h : ∀ w ∈ ws, w ≠ "DEFAULT".toList) : wordDefault ws = none := by
  have hEnded : endedValue ws = none := by
    have hAll := endedValue_append h []
    rwa [List.append_nil] at hAll
  have hLast : lastValue ws = none := by
    cases hSome : lastValue ws with
    | none => rfl
    | some v =>
      obtain ⟨us, rfl⟩ := lastValue_eq_some_iff.1 hSome
      exact absurd rfl (h "DEFAULT".toList (by simp))
  rw [wordDefault, hEnded, hLast]
  rfl

/-- The words of a constraint end a default when constraints of its kind do. -/
theorem beginsEnd_words {c : Constraint} (hKind : c.kind ≠ .default) (ws : List (List Char)) :
    beginsEnd (c.words ++ ws) = c.kind.endsDefault := by
  cases c with
  | notNull => rfl
  | unique => rfl
  | primaryKey => rfl
  | autoIncrement => rfl
  | default n => exact absurd rfl hKind
  | references t r onDelete onUpdate => rfl

theorem upToEnd_eq_some_nil_iff : upToEnd ws = some [] ↔ beginsEnd ws = true := by
  cases ws with
  | nil => simp [upToEnd, beginsEnd]
  | cons w ws =>
    rw [upToEnd]
    split <;> simp_all

/-- After words without DEFAULT, a word is read as the default exactly when nothing comes after it or an end does. -/
theorem wordDefault_value_iff (hus : ∀ u ∈ us, u ≠ "DEFAULT".toList) (hv : v ∉ ws) :
    (wordDefault (us ++ "DEFAULT".toList :: v :: ws)).map joined = some v ↔ ws = [] ∨ beginsEnd ws = true := by
  rw [wordDefault, endedValue_append hus, endedValue, if_pos rfl, valueBeforeEnd]
  cases hUpTo : upToEnd ws with
  | some vs =>
    -- all words up to the end are read
    have hNonempty : ws ≠ [] := by
      rintro rfl
      cases hUpTo
    rw [or_iff_right hNonempty, ← upToEnd_eq_some_nil_iff, hUpTo, Option.some_inj]
    show some (v ++ spaced vs) = some v ↔ vs = []
    rw [Option.some_inj, List.append_right_eq_self]
    cases vs <;> simp [spaced_cons]
  | none =>
    -- the last word is read
    have hEnds : ¬ beginsEnd ws = true := by
      rw [← upToEnd_eq_some_nil_iff, hUpTo]
      simp
    have hNone : endedValue (v :: ws) = none := by
      rw [endedValue, endedValue_eq_none hUpTo, valueBeforeEnd_eq_none hUpTo, ite_self, Option.or_none]
    have hJoined : ∀ o : Option (List Char), (o.map fun w => [w]).map joined = o := by
      intro o
      cases o <;> simp [joined]
    rw [hNone, or_iff_left hEnds, Option.map_none, Option.none_or, Option.none_or, hJoined]
    constructor
    · intro hLast
      by_contra hNonempty
      have hEnd := getLast?_of_lastValue hLast
      rw [show us ++ "DEFAULT".toList :: v :: ws = us ++ ["DEFAULT".toList, v] ++ ws by simp,
        List.getLast?_append_of_ne_nil _ hNonempty] at hEnd
      exact hv (List.mem_of_getLast? hEnd)
    · rintro rfl
      exact lastValue_eq_some_iff.2 ⟨us, rfl⟩

/-- After words without DEFAULT, a number is read as the default exactly when nothing comes after it or a constraint
that ends it does. -/
theorem wordDefault_default_iff (hus : ∀ u ∈ us, u ≠ "DEFAULT".toList) (hn : Text.isDecimal n = true)
    (hKinds : ∀ c ∈ cs, c.kind ≠ .default) :
    (wordDefault (us ++ "DEFAULT".toList :: n :: constraintWords cs)).map joined = some n ↔
      ∀ k ∈ cs.head?, k.kind.endsDefault = true := by
  have hOther : n ∉ constraintWords cs := by
    intro hMem
    obtain ⟨c, hc, hMem⟩ := List.mem_flatMap.1 hMem
    rw [isDecimal_of_mem_words (hKinds c hc) hMem] at hn
    cases hn
  rw [wordDefault_value_iff hus hOther]
  cases cs with
  | nil => exact iff_of_true (.inl rfl) (by simp)
  | cons k cs =>
    have hText : constraintWords (k :: cs) = k.words ++ constraintWords cs := rfl
    have hNonempty : k.words ++ constraintWords cs ≠ [] := by cases k <;> exact List.cons_ne_nil _ _
    rw [hText, or_iff_right hNonempty, beginsEnd_words (hKinds k List.mem_cons_self)]
    simp

/-! ## Columns with constraints -/

/-- Where no default is given, no action comes after one. -/
theorem DefaultFirst.setsDefault_eq_false (h : DefaultFirst (cs ++ cs')) (hNone : ∀ c ∈ cs, c.kind ≠ .default) :
    ∀ c ∈ cs, c.kind ≠ .default ∧ c.setsDefault = false := by
  intro c hc
  refine ⟨hNone c hc, ?_⟩
  rw [← Bool.not_eq_true]
  intro hSets
  obtain ⟨a, b, rfl⟩ := List.append_of_mem hc
  obtain ⟨d, hd, hDefault⟩ := h a c (b ++ cs') (by simp) hSets
  exact hNone d (List.mem_append_left _ hd) hDefault

theorem listedDefault_eq_none (hNone : ∀ c ∈ cs, c.kind ≠ .default) : listedDefault cs = none := by
  rw [listedDefault, List.findSome?_eq_none_iff]
  intro c hc
  have hKind := hNone c hc
  cases c <;> first | rfl | exact absurd rfl hKind

/-- Among constraints with one default, what comes right after it is what comes after that one. -/
theorem defaultEnded_append_iff (hPre : ∀ c ∈ cs, c.kind ≠ .default) (hPost : ∀ c ∈ cs', c.kind ≠ .default) :
    DefaultEnded (cs ++ .default n :: cs') ↔ ∀ k ∈ cs'.head?, k.kind.endsDefault = true := by
  constructor
  · exact fun hEnded => hEnded cs n cs' rfl
  · intro hEnds a m b hSplit
    have hNotPre : Constraint.default m ∉ cs := fun hMem => hPre _ hMem rfl
    have hNotPost : Constraint.default m ∉ cs' := fun hMem => hPost _ hMem rfl
    obtain ⟨-, -, rfl⟩ := (List.append_cons_inj_of_notMem hNotPre hNotPost).1 hSplit
    exact hEnds

/-- A default that is given first is read right exactly when nothing comes after it, or a constraint that ends it. -/
theorem defaultIn_constraintWords_iff (hcs : ∀ c ∈ cs, c.WellFormed) (hKinds : (cs.map Constraint.kind).Nodup)
    (hFirst : DefaultFirst cs) :
    (wordDefault (constraintWords cs)).map joined = listedDefault cs ↔ DefaultEnded cs := by
  by_cases hListed : ∃ n, Constraint.default n ∈ cs
  · obtain ⟨n, hMem⟩ := hListed
    obtain ⟨pre, post, rfl⟩ := List.append_of_mem hMem
    rw [List.map_append, List.map_cons, List.nodup_append, List.nodup_cons] at hKinds
    obtain ⟨-, ⟨hPost, -⟩, hPre⟩ := hKinds
    have hPreKinds : ∀ c ∈ pre, c.kind ≠ .default := fun c hc =>
      hPre _ (List.mem_map_of_mem hc) _ List.mem_cons_self
    have hPostKinds : ∀ c ∈ post, c.kind ≠ .default := fun c hc hEq => hPost (List.mem_map.2 ⟨c, hc, hEq⟩)
    have hText : constraintWords (pre ++ .default n :: post) =
        constraintWords pre ++ "DEFAULT".toList :: n :: constraintWords post := by
      simp [constraintWords, Constraint.words]
    have hDefault : listedDefault (pre ++ .default n :: post) = some n := by
      have hNone := listedDefault_eq_none hPreKinds
      rw [listedDefault] at hNone ⊢
      rw [List.findSome?_append, hNone]
      rfl
    rw [hText, hDefault, defaultEnded_append_iff hPreKinds hPostKinds]
    exact wordDefault_default_iff (ne_default_of_mem_constraintWords (hFirst.setsDefault_eq_false hPreKinds))
      (hcs _ hMem) hPostKinds
  · have hNone : ∀ c ∈ cs, c.kind ≠ .default := fun c hc hKind => by
      cases c with
      | default n => exact hListed ⟨n, hc⟩
      | _ => cases hKind
    rw [← List.append_nil cs] at hFirst
    rw [wordDefault_eq_none (ne_default_of_mem_constraintWords (hFirst.setsDefault_eq_false hNone)),
      listedDefault_eq_none hNone]
    refine iff_of_true rfl fun a m b hSplit => ?_
    exact absurd rfl (hNone (.default m) (by rw [hSplit]; simp))

/-- An item that begins as no key and no constraint of the table. -/
def BeginsColumn (item : List Char) : Prop :=
  foreignKeyItem.occursIn item = false ∧ primaryKeyItem.occursIn item = false ∧ constraintItem.occursIn item = false

/-- A name that begins no other item begins a column. -/
theorem beginsColumn_of_not_spells (hName : ∀ c ∈ n, Text.isWordChar c = true)
    (hFree : ∀ word ∈ reservedNames, ¬ Spells word.toList n) {s : List Char}
    (hs : ∀ c ∈ s.head?, Text.isWordChar c = false) : BeginsColumn (n ++ s) := by
  have hWords : ∀ word ∈ ["UNIQUE", "CHECK", "CONSTRAINT"], word ∈ reservedNames := by decide
  exact ⟨occursIn_atStart_phrase_of_not_spells (by decide) (by decide) hName hs (hFree "FOREIGN" (by decide)),
    occursIn_atStart_phrase_of_not_spells (by decide) (by decide) hName hs (hFree "PRIMARY" (by decide)),
    occursIn_constraintItem_of_not_spells hName hs fun word hWord => hFree word (hWords word hWord)⟩

/-- An item that begins a column is one if it can be read as one. -/
theorem addItem_of_beginsColumn {item : List Char} (h : BeginsColumn item) {column : Column}
    (hColumn : readColumn? item = some column) (table : Table) :
    addItem table item =
      Table.addColumn { table with foreignKeys := table.foreignKeys ++ (readInlineReference? column.name item).toList }
        column := by
  obtain ⟨hForeign, hPrimary, hConstraint⟩ := h
  rw [addItem, hForeign, if_neg Bool.false_ne_true, hPrimary, if_neg Bool.false_ne_true, hConstraint,
    if_neg Bool.false_ne_true, hColumn]

/-- In whatever order its constraints come, a column and its foreign key are what the constraints say, but for two
things. AUTOINCREMENT is also found in the names of a reference. The default is what is read word by word: where SET
DEFAULT does not come before it, that is the number exactly when nothing comes after the number, or a constraint that
ends a default. -/
theorem addItem_constrainedItem (hn : n ≠ []) (hName : ∀ c ∈ n, Text.isWordChar c = true)
    (hFree : ∀ word ∈ reservedNames, ¬ Spells word.toList n) (ht : t ≠ [])
    (hType : ∀ c ∈ t, Text.isWordChar c = true) (hcs : ∀ c ∈ cs, c.WellFormed)
    (hKinds : (cs.map Constraint.kind).Nodup) (hPerm : cs'.Perm cs) (table : Table) :
    ∃ column, addItem table (constrainedItem n t cs') =
        Table.addColumn { table with foreignKeys := table.foreignKeys ++ cs.filterMap (Constraint.foreignKey? n) }
          column ∧
      column.name = String.ofList n ∧ column.type = String.ofList (Text.upper t) ∧
      column.isPrimaryKey = lists .primaryKey cs ∧
      column.nullable = !(lists .primaryKey cs || lists .notNull cs) ∧
      column.isAutoIncrement = (lists .autoIncrement cs || cs.any Constraint.namesAutoIncrement) ∧
      column.defaultValue = ((wordDefault (constraintWords cs')).map joined).map String.ofList ∧
      (DefaultFirst cs' → (column.defaultValue = (listedDefault cs).map String.ofList ↔ DefaultEnded cs')) := by
  have hcs' : ∀ c ∈ cs', c.WellFormed := fun c hc => hcs c (hPerm.mem_iff.1 hc)
  have hKinds' : (cs'.map Constraint.kind).Nodup := (hPerm.map Constraint.kind).nodup_iff.2 hKinds
  have hSolid : ∀ w ∈ constraintWords cs', IsSolid w := fun w hw => (isPlain_of_mem_constraintWords hcs' w hw).1
  have hText : constrainedItem n t cs' = n ++ ([' '] ++ (t ++ spaced (constraintWords cs'))) := by
    simp [constrainedItem]
  have hColumn : readColumn? (constrainedItem n t cs') =
      some (columnOf ⟨n ++ [' '] ++ t, [(1, n), (2, t)], spaced (constraintWords cs')⟩) := by
    rw [hText]
    exact readColumn?_words hn hName ht hType (isWordChar_head_spaced _) (isBlank_getLast_spaced hSolid)
  have hSpace : ∀ c ∈ ([' '] ++ (t ++ spaced (constraintWords cs'))).head?, Text.isWordChar c = false := by
    simp
    decide
  have hReference := toList_readInlineReference?_constrainedItem hName ht hType hcs' hKinds hPerm
  have hWords := defaultIn_spaced (isPlain_of_mem_constraintWords hcs')
  refine ⟨columnOf ⟨n ++ [' '] ++ t, [(1, n), (2, t)], spaced (constraintWords cs')⟩, ?_, rfl, rfl, ?_, ?_, ?_, ?_,
    fun hFirst => ?_⟩
  · have hHead : (columnOf ⟨n ++ [' '] ++ t, [(1, n), (2, t)], spaced (constraintWords cs')⟩).name =
        String.ofList n := rfl
    have hBegins : BeginsColumn (constrainedItem n t cs') := by
      rw [hText]
      exact beginsColumn_of_not_spells hName hFree hSpace
    rw [addItem_of_beginsColumn hBegins hColumn table, hHead, hReference]
  · show primaryKeyPhrase.occursIn (spaced (constraintWords cs')) = _
    rw [occursIn_primaryKey_constraints hcs', lists_eq_of_perm _ hPerm]
  · show (!(primaryKeyPhrase.occursIn (spaced (constraintWords cs')) ||
      notNullPhrase.occursIn (spaced (constraintWords cs')))) = _
    rw [occursIn_primaryKey_constraints hcs', occursIn_notNull_constraints hcs', lists_eq_of_perm _ hPerm,
      lists_eq_of_perm _ hPerm]
  · show autoIncrementPhrase.occursIn (spaced (constraintWords cs')) = _
    rw [occursIn_autoIncrement_constraints hcs', lists_eq_of_perm _ hPerm, hPerm.any_eq]
  · show (defaultIn (spaced (constraintWords cs'))).map String.ofList = _
    rw [hWords]
  · show (defaultIn (spaced (constraintWords cs'))).map String.ofList = _ ↔ _
    rw [hWords, map_ofList_inj, ← listedDefault_eq_of_perm hKinds hPerm, defaultIn_constraintWords_iff hcs' hKinds' hFirst]

theorem addItem_constrainedItem_notNull :
    ∃ column, addItem (Table.named "t") (constrainedItem "a".toList "INT".toList
        [.default "0".toList, .notNull]) = (Table.named "t").addColumn column ∧
      column.nullable = false ∧ column.defaultValue = some "0" := by
  have hPerm : List.Perm [.default "0".toList, .notNull] [Constraint.notNull, .default "0".toList] := .swap _ _ _
  obtain ⟨column, hAdd, -, -, -, hNullable, -, -, hDefault⟩ := addItem_constrainedItem (n := "a".toList)
    (t := "INT".toList) (by decide) (by decide) (by decide) (by decide) (by decide) (by decide) (by decide) hPerm
    (Table.named "t")
  have hFirst : DefaultFirst [.default "0".toList, .notNull] := by
    intro pre k post hSplit hSets
    have hNone : ∀ c ∈ [Constraint.default "0".toList, .notNull], c.setsDefault = false := by decide
    rw [hNone k (by rw [hSplit]; simp)] at hSets
    cases hSets
  have hEnded : DefaultEnded [.default "0".toList, .notNull] := by
    intro pre n post hSplit
    cases pre with
    | nil =>
      obtain ⟨-, rfl⟩ := List.cons.inj hSplit
      decide
    | cons c pre =>
      have hMem : Constraint.default n ∈ [Constraint.notNull] := by
        rw [(List.cons.inj hSplit).2]
        simp
      simp at hMem
  exact ⟨column, hAdd, hNullable, (hDefault hFirst).2 hEnded⟩

/-- AUTOINCREMENT after a default takes the default away. -/
theorem addItem_constrainedItem_autoIncrement :
    ¬ ∀ cs cs' : List Constraint, (∀ c ∈ cs, c.WellFormed) → (cs.map Constraint.kind).Nodup → cs'.Perm cs →
      addItem (Table.named "t") (constrainedItem "a".toList "INT".toList cs') =
        addItem (Table.named "t") (constrainedItem "a".toList "INT".toList cs) := by
  intro h
  have hSame := h [.autoIncrement, .default "0".toList] [.default "0".toList, .autoIncrement] (by decide) (by decide)
    (List.Perm.swap _ _ _)
  have hLost : addItem (Table.named "t") (constrainedItem "a".toList "INT".toList
      [.default "0".toList, .autoIncrement]) ≠ addItem (Table.named "t") (constrainedItem "a".toList "INT".toList
        [.autoIncrement, .default "0".toList]) := by decide +kernel
  exact hLost hSame

end SqlSurvey.Ddl
