import SqlSurvey.Proofs.Ddl.Body
import SqlSurvey.Proofs.Ddl.ConstraintOrder

/-!
# What a default in quotes does to its column

Comments are gone when a column is searched for flags and references, but quoted texts are not: a column with a default
in quotes is read as if the quoted text stood among its constraints, in front of those that follow. Two quoted texts
give the same table, but for the default, exactly when they are read alike.
-/

namespace SqlSurvey.Ddl

open Pattern

variable {p q : Pattern} {n t x y k s w : List Char} {last : Option Char}

/-! ## Searches and quotes -/

theorem isWordChar_of_isSingleQuote {c : Char} (h : Sql.isSingleQuote c = true) : Text.isWordChar c = false := by
  obtain rfl : c = '\'' := by simpa [Sql.isSingleQuote] using h
  decide

theorem isBlank_of_isSingleQuote {c : Char} (h : Sql.isSingleQuote c = true) : Text.isBlank c = false := by
  obtain rfl : c = '\'' := by simpa [Sql.isSingleQuote] using h
  decide

/-- A pattern that takes no quote and does not tell a quote before it from the beginning of the text. -/
structure StopsAtQuote (p : Pattern) : Prop where
  avoids : p.Avoids Sql.isSingleQuote
  refuses : p.Refuses Sql.isSingleQuote
  find_eq : ∀ s, p.findFrom (some '\'') s = p.find s

namespace StopsAtQuote

/-- Both sides of a quote are searched on their own, the left one first. -/
theorem find_append (hp : StopsAtQuote p) (a s : List Char) :
    p.find (a ++ '\'' :: s) = ((p.find a).map (extend ('\'' :: s))).or (p.find s) := by
  have hQuote : ∀ last, p.findFrom last ('\'' :: s) = p.find s := fun last => by
    rw [findFrom, here, hp.refuses last '\'' s rfl, List.head?_nil, Option.none_or, hp.find_eq]
  rw [find, findFrom_append_of_avoids hp.avoids a (by simp; rfl), hQuote]
  rfl

theorem occursIn_append (hp : StopsAtQuote p) (a s : List Char) :
    p.occursIn (a ++ '\'' :: s) = (p.occursIn a || p.occursIn s) := by
  rw [occursIn, hp.find_append, Option.isSome_or, Option.isSome_map, occursIn, occursIn]

theorem of_forward (hForward : p.Forward) (hAvoids : p.Avoids Sql.isSingleQuote)
    (hRefuses : p.Refuses Sql.isSingleQuote) : StopsAtQuote p :=
  ⟨hAvoids, hRefuses, fun s => hForward.findFrom_eq _ _ s⟩

/-- A word begins behind a quote as it does at the beginning of a text. -/
theorem of_atWordEdge (hHits : ∀ last s, p.hits last s = (atWordEdge ++ q).hits last s) (hForward : q.Forward)
    (hAvoids : p.Avoids Sql.isSingleQuote) (hRefuses : q.Refuses Sql.isSingleQuote) : StopsAtQuote p := by
  have hSame : ∀ s, p.hits (some '\'') s = p.hits none s := fun s => by
    have hEdge : wordEdge (some '\'') s = wordEdge none s := by
      show (Text.isWordChar '\'' != _) = (false != _)
      rw [isWordChar_of_isSingleQuote rfl]
    rw [hHits, hHits, hits_atWordEdge_append, hits_atWordEdge_append, hEdge, hForward.hits_eq (some '\'') none]
  refine ⟨hAvoids, fun last c r hc => ?_, fun s => ?_⟩
  · rw [hHits]
    exact hRefuses.atWordEdge_append last c r hc
  · cases s with
    | nil => rw [find, findFrom, findFrom, here, here, hSame]
    | cons c s => rw [find, findFrom, findFrom, here, here, hSame]

end StopsAtQuote

/-! ## What stops at quotes -/

theorem avoids_keyword_quote {word : String} (h : IsKeyword word) : (keyword word.toList).Avoids Sql.isSingleQuote :=
  avoids_keyword_of_isLettered (fun _ hc => isWordChar_of_isSingleQuote hc) (List.all_eq_true.2 h.2)

theorem refuses_keyword_quote {word : String} (h : IsKeyword word) :
    (keyword word.toList).Refuses Sql.isSingleQuote := h.refuses fun _ hc => isWordChar_of_isSingleQuote hc

theorem avoids_blanks_quote : blanks.Avoids Sql.isSingleQuote := fun _ hc => isBlank_of_isSingleQuote hc

theorem avoids_exactly_quote {c : Char} (h : c ≠ '\'') : (exactly c).Avoids Sql.isSingleQuote := by
  intro d hd
  obtain rfl : d = '\'' := by simpa [Sql.isSingleQuote] using hd
  simpa using h.symm

theorem avoids_phrase_quote {first second : String} (hFirst : IsKeyword first) (hSecond : IsKeyword second) :
    (phrase first [second]).Avoids Sql.isSingleQuote :=
  ⟨⟨avoids_keyword_quote hFirst, avoids_blanks_quote⟩, avoids_keyword_quote hSecond⟩

theorem stopsAtQuote_phrase {first second : String} (hFirst : IsKeyword first) (hSecond : IsKeyword second) :
    StopsAtQuote (phrase first [second]) :=
  .of_forward ⟨⟨forward_keyword _, trivial⟩, forward_keyword _⟩ (avoids_phrase_quote hFirst hSecond)
    (((refuses_keyword_quote hFirst).append _).append _)

theorem stopsAtQuote_autoIncrementPhrase : StopsAtQuote autoIncrementPhrase :=
  .of_forward ⟨⟨forward_keyword _, trivial, trivial⟩, forward_keyword _⟩
    ⟨⟨avoids_keyword_quote (by decide), avoids_exactly_quote (by decide), trivial⟩, avoids_keyword_quote (by decide)⟩
    (((refuses_keyword_quote (by decide : IsKeyword "AUTO")).append _).append _)

theorem avoids_name_quote (i : Nat) : (name i).Avoids Sql.isSingleQuote := by
  have hQuote : ∀ c, Sql.isSingleQuote c = true → opensName c = false ∧ closesName c = false := fun c hc => by
    obtain rfl : c = '\'' := by simpa [Sql.isSingleQuote] using hc
    decide
  exact ⟨⟨⟨fun c hc => (hQuote c hc).1, trivial⟩, fun _ hc => isWordChar_of_isSingleQuote hc⟩,
    fun c hc => (hQuote c hc).2, trivial⟩

theorem hits_inlineReference (last : Option Char) (s : List Char) :
    inlineReference.hits last s = (atWordEdge ++ referencesPhrase).hits last s := by
  rw [inlineReference, hits_append_assoc, hits_append_assoc, hits_append_assoc, hits_append_assoc, hits_append_assoc,
    hits_append_assoc, hits_append_assoc, hits_append_assoc]
  rfl

theorem stopsAtQuote_inlineReference : StopsAtQuote inlineReference := by
  have hGap : gap.Avoids Sql.isSingleQuote := ⟨avoids_blanks_quote, trivial⟩
  have hName : ∀ i, (name i).Forward := fun i => ⟨⟨⟨trivial, trivial⟩, trivial⟩, trivial, trivial⟩
  have hForward : referencesPhrase.Forward :=
    ⟨forward_keyword _, trivial, hName 1, ⟨trivial, trivial⟩, trivial, ⟨trivial, trivial⟩, hName 2, ⟨trivial, trivial⟩,
      trivial⟩
  refine .of_atWordEdge hits_inlineReference hForward ?_ ((refuses_keyword_quote (by decide)).append _)
  exact ⟨⟨⟨⟨⟨⟨⟨⟨⟨fun _ hc => isWordChar_of_isSingleQuote hc, avoids_keyword_quote (by decide)⟩, avoids_blanks_quote⟩,
    avoids_name_quote 1⟩, hGap⟩, avoids_exactly_quote (by decide)⟩, hGap⟩, avoids_name_quote 2⟩, hGap⟩,
    avoids_exactly_quote (by decide)⟩

theorem stopsAtQuote_onEvent {event : String} (h : IsKeyword event) : StopsAtQuote (onEvent event) := by
  have hPhrase : ∀ first second : String, (phrase first [second]).Forward := fun first second =>
    ⟨⟨forward_keyword _, trivial⟩, forward_keyword _⟩
  have hForward : (keyword "ON".toList ++ (blanks ++ afterOn event)).Forward :=
    ⟨forward_keyword _, trivial, forward_keyword _, trivial, hPhrase _ _, hPhrase _ _, hPhrase _ _, trivial⟩
  have hAction : (action 1).Avoids Sql.isSingleQuote :=
    ⟨avoids_phrase_quote (by decide) (by decide), avoids_phrase_quote (by decide) (by decide),
      avoids_phrase_quote (by decide) (by decide), fun _ hc => isWordChar_of_isSingleQuote hc⟩
  refine .of_atWordEdge (hits_onEvent event) hForward ?_ ((refuses_keyword_quote (by decide)).append _)
  exact ⟨⟨⟨fun _ hc => isWordChar_of_isSingleQuote hc, avoids_phrase_quote (by decide) h⟩, avoids_blanks_quote⟩, hAction⟩

/-! ## What is read of a quoted text -/

/-- The flags and the foreign key of a column. -/
structure Shown where
  isPrimaryKey : Bool
  isAutoIncrement : Bool
  nullable : Bool
  foreignKey : Option ForeignKey
deriving DecidableEq, Repr

/-- What is read of a column when a text in quotes stands before its other constraints: a flag is looked for in both, and
a reference in the quoted text first, with its actions there or among the constraints. -/
def shown (column x k : List Char) : Shown where
  isPrimaryKey := primaryKeyPhrase.occursIn x || primaryKeyPhrase.occursIn k
  isAutoIncrement := autoIncrementPhrase.occursIn x || autoIncrementPhrase.occursIn k
  nullable := !(primaryKeyPhrase.occursIn x || primaryKeyPhrase.occursIn k ||
    (notNullPhrase.occursIn x || notNullPhrase.occursIn k))
  foreignKey := match inlineReference.find x with
    | none => readInlineReference? (String.ofList column) k
    | some h => some {
        column := String.ofList column
        referencesTable := String.ofList (h.groupText 1)
        referencesColumn := String.ofList (h.groupText 2)
        onDelete := (actionOn "DELETE" h.rest).or (actionOn "DELETE" k)
        onUpdate := (actionOn "UPDATE" h.rest).or (actionOn "UPDATE" k) }

/-- A text that no flag and no key is found in. -/
structure Silent (x : List Char) : Prop where
  primaryKey : primaryKeyPhrase.occursIn x = false
  autoIncrement : autoIncrementPhrase.occursIn x = false
  notNull : notNullPhrase.occursIn x = false
  foreignKey : (phrase "FOREIGN" ["KEY"]).occursIn x = false
  reference : inlineReference.occursIn x = false

/-- A silent text shows as much as no text at all. -/
theorem Silent.shown_eq (h : Silent x) (column k : List Char) : shown column x k = shown column [] k := by
  have hNone : ∀ s, inlineReference.occursIn s = false → inlineReference.find s = none := fun s hs =>
    Option.isNone_iff_eq_none.1 (Option.isSome_eq_false_iff.1 hs)
  have hEmpty : Silent [] := by constructor <;> decide +kernel
  simp only [shown, h.primaryKey, h.autoIncrement, h.notNull, hNone x h.reference, hEmpty.primaryKey,
    hEmpty.autoIncrement, hEmpty.notNull, hNone [] hEmpty.reference]

theorem actionOn_append_quote {event : String} (h : IsKeyword event) (a s : List Char) :
    actionOn event (a ++ '\'' :: s) = (actionOn event a).or (actionOn event s) := by
  rw [actionOn, (stopsAtQuote_onEvent h).find_append, Option.map_or, Option.map_map]
  rfl

/-- The reference of a column with a quoted default. -/
theorem readInlineReference?_quoted (hs : ')' ∉ s) (column x k : List Char) :
    readInlineReference? (String.ofList column) (s ++ '\'' :: (x ++ '\'' :: k)) = (shown column x k).foreignKey := by
  have hBefore : inlineReference.find s = none := findFrom_append_exactly_of_not_mem _ none hs
  rw [readInlineReference?, stopsAtQuote_inlineReference.find_append, hBefore, Option.map_none, Option.none_or,
    stopsAtQuote_inlineReference.find_append, shown]
  cases inlineReference.find x with
  | none => rfl
  | some h =>
    have hDelete := actionOn_append_quote (by decide : IsKeyword "DELETE") h.rest k
    have hUpdate := actionOn_append_quote (by decide : IsKeyword "UPDATE") h.rest k
    simp only [Option.map_some, Option.some_or, extend, hDelete, hUpdate]
    rfl

/-! ## The column as an item -/

/-- A column with a default in quotes and a text behind it. -/
def quotedItem (n t x k : List Char) : List Char :=
  n ++ ([' '] ++ (t ++ (defaultLead ++ '\'' :: (x ++ '\'' :: k))))

/-- A text that may stand behind a column in the body of a table: its quoted runs and comments are closed, its
parentheses have their counterparts, and no comma separates it. -/
structure IsConstraintText (k : List Char) : Prop where
  closed : Sql.Closed Sql.isSingleQuote k
  item : Sql.isItem 0 (Sql.pieces Sql.isSingleQuote k) = true

instance (k : List Char) : Decidable (IsConstraintText k) :=
  decidable_of_iff (Sql.Closed Sql.isSingleQuote k ∧ Sql.isItem 0 (Sql.pieces Sql.isSingleQuote k) = true)
    ⟨fun h => ⟨h.1, h.2⟩, fun h => ⟨h.1, h.2⟩⟩

/-- The constraints as they are read: without comments and without blanks at the end. -/
def readConstraints (k : List Char) : List Char := Text.trimEnd (Sql.withoutComments k)

theorem tame_of_forall_isWordChar (h : ∀ c ∈ w, Text.isWordChar c = true) : Sql.tame w = true := by
  refine Sql.tame_of_forall fun c hc => ⟨Sql.isTame_of_forall (by decide) (h c hc), ?_⟩
  rintro rfl
  exact absurd (h '-' hc) (by decide)

theorem isItemChar_of_isWordChar {c : Char} (h : Text.isWordChar c = true) : Sql.isItemChar c = true := by
  rw [Sql.isItemChar, Bool.not_eq_true', ← Bool.not_eq_true]
  intro hc
  simp only [Bool.or_eq_true, beq_iff_eq] at hc
  rcases hc with (rfl | rfl) | rfl <;> exact absurd h (by decide)

/-- The pieces of a column with a quoted default. -/
theorem pieces_quotedItem (hName : ∀ c ∈ n, Text.isWordChar c = true) (hType : ∀ c ∈ t, Text.isWordChar c = true)
    (hx : '\'' ∉ x) (k : List Char) :
    Sql.pieces Sql.isSingleQuote (quotedItem n t x k) = (n ++ ([' '] ++ (t ++ defaultLead))).map .plain ++
      .quoted ('\'' :: (x ++ ['\''])) :: Sql.pieces Sql.isSingleQuote k := by
  have hTame : Sql.tame (n ++ ([' '] ++ (t ++ defaultLead))) = true :=
    Sql.tame_append (tame_of_forall_isWordChar hName) (Sql.tame_append (by decide)
      (Sql.tame_append (tame_of_forall_isWordChar hType) (by decide)))
  have hQuoted : (Sql.Piece.quoted ('\'' :: (x ++ ['\'']))).Before Sql.isSingleQuote k := .quoted rfl hx
  have hText : quotedItem n t x k = (n ++ ([' '] ++ (t ++ defaultLead))) ++
      ((Sql.Piece.quoted ('\'' :: (x ++ ['\'']))).text ++ k) := by simp [quotedItem, Sql.Piece.text]
  rw [hText, Sql.pieces_append (Sql.closed_of_tame hTame) (by simp [Sql.Piece.text]), hQuoted.pieces_text_append,
    Sql.pieces_of_tame (fun _ hc => Sql.isTame_of_isSingleQuote hc) hTame]

theorem isBody_quotedItem (hName : ∀ c ∈ n, Text.isWordChar c = true) (hType : ∀ c ∈ t, Text.isWordChar c = true)
    (hx : '\'' ∉ x) (hk : IsConstraintText k) :
    Sql.IsBody (quotedItem n t x k) ∧ Sql.isItem 0 (Sql.pieces Sql.isSingleQuote (quotedItem n t x k)) = true := by
  have hTame : Sql.tame (n ++ ([' '] ++ (t ++ defaultLead))) = true :=
    Sql.tame_append (tame_of_forall_isWordChar hName) (Sql.tame_append (by decide)
      (Sql.tame_append (tame_of_forall_isWordChar hType) (by decide)))
  have hChars : ∀ c ∈ n ++ ([' '] ++ (t ++ defaultLead)), Sql.isItemChar c = true := by
    simp only [List.forall_mem_append]
    exact ⟨fun c hc => isItemChar_of_isWordChar (hName c hc), by decide,
      fun c hc => isItemChar_of_isWordChar (hType c hc), by decide⟩
  have hPieces := pieces_quotedItem hName hType hx k
  have hItem : Sql.isItem 0 (Sql.pieces Sql.isSingleQuote (quotedItem n t x k)) = true := by
    rw [hPieces, Sql.isItem_append_of_forall hChars]
    exact hk.item
  have hClosed : Sql.Piece.isClosed (.quoted ('\'' :: (x ++ ['\'']))) = true := by
    rw [Sql.Piece.isClosed, ← List.cons_append, List.getLast?_concat]
    simp
  refine ⟨⟨?_, Sql.balanced_of_isItem hItem⟩, hItem⟩
  have hLead := Sql.closed_of_tame hTame
  rw [Sql.Closed, Sql.pieces_of_tame (fun _ hc => Sql.isTame_of_isSingleQuote hc) hTame] at hLead
  rw [Sql.Closed, hPieces]
  exact hLead.append_cons (hk.closed.cons hClosed rfl)

theorem trim_quotedItem (hn : n ≠ []) (hName : ∀ c ∈ n, Text.isWordChar c = true) (k : List Char) :
    Text.trim (quotedItem n t x k) = quotedItem n t x (Text.trimEnd k) := by
  have hQuote : Text.isBlank '\'' = false := by decide
  have hStart : Text.trimStart (quotedItem n t x k) = quotedItem n t x k := by
    obtain ⟨c, m, rfl⟩ := List.exists_cons_of_ne_nil hn
    exact List.dropWhile_cons_of_neg (by simp [Text.isBlank_of_isWordChar (hName c List.mem_cons_self)])
  have hText : ∀ k, quotedItem n t x k = (n ++ ([' '] ++ (t ++ (defaultLead ++ '\'' :: x)))) ++ '\'' :: k := fun k => by
    simp [quotedItem]
  rw [Text.trim, hStart, hText, Text.trimEnd_append_cons hQuote, Text.trimEnd_cons hQuote, ← hText]

/-- The column is the one item of its table. -/
theorem items_quotedItem (hn : n ≠ []) (hName : ∀ c ∈ n, Text.isWordChar c = true)
    (hType : ∀ c ∈ t, Text.isWordChar c = true) (hx : '\'' ∉ x) (hk : IsConstraintText k) :
    Sql.items (quotedItem n t x k) = [quotedItem n t x (readConstraints k)] := by
  have hBare : Sql.withoutComments (quotedItem n t x k) = quotedItem n t x (Sql.withoutComments k) := by
    rw [Sql.withoutComments_eq, pieces_quotedItem hName hType hx, List.map_append, Sql.map_bare_plain, List.map_cons,
      Sql.textOf_append, Sql.textOf_map_plain, Sql.textOf_cons, ← Sql.withoutComments_eq]
    simp [quotedItem, Sql.Piece.bare, Sql.Piece.isComment, Sql.Piece.text]
  have hNonempty : (quotedItem n t x (readConstraints k)).isEmpty = false := by simp [quotedItem]
  rw [Sql.items_eq_filter_map, Sql.cutAtCommas_of_isItem (isBody_quotedItem hName hType hx hk).2, List.map_singleton,
    Sql.textOf_pieces, hBare, trim_quotedItem hn hName, ← readConstraints, List.filter_singleton, hNonempty]
  rfl


theorem quotedItem_eq (n t x k : List Char) :
    quotedItem n t x k = (n ++ ([' '] ++ (t ++ defaultLead))) ++ '\'' :: (x ++ '\'' :: k) := by simp [quotedItem]

/-- No parenthesis stands before the quoted text. -/
theorem not_mem_lead (hName : ∀ c ∈ n, Text.isWordChar c = true) (hType : ∀ c ∈ t, Text.isWordChar c = true) {c : Char}
    (h : Text.isWordChar c = false ∧ c ∉ defaultLead ∧ c ≠ ' ') : c ∉ n ++ ([' '] ++ (t ++ defaultLead)) := by
  obtain ⟨hWord, hLead, hSpace⟩ := h
  have hNot : ∀ w : List Char, (∀ d ∈ w, Text.isWordChar d = true) → c ∉ w := fun w hw hc => by
    simp [hw c hc] at hWord
  simp only [List.mem_append, List.mem_singleton, not_or]
  exact ⟨hNot n hName, hSpace, hNot t hType, hLead⟩

/-! ## Items that are no columns -/

/-- What an item begins with is seen before the quoted text. -/
theorem occursIn_anchored (hp : p.Anchored) (hAvoids : p.Avoids Sql.isSingleQuote) (a s : List Char) :
    p.occursIn (a ++ '\'' :: s) = p.occursIn a := by
  rw [occursIn, occursIn, hp.find_eq, hp.find_eq, here_append_of_avoids hAvoids a (by simp; rfl), Option.isSome_map]

/-- A clause that is found neither before a quoted text nor in it is found behind it. -/
theorem find_behind_quoted (hForward : p.Forward) (hRefuses : p.Refuses Sql.isSingleQuote)
    (hs : ∀ last b, p.PassesOver last s ('\'' :: b)) (hx : ∀ last b, p.PassesOver last x ('\'' :: b)) (k : List Char) :
    p.find (s ++ '\'' :: (x ++ '\'' :: k)) = p.find k := by
  have hQuote : ∀ last b, p.findFrom last ('\'' :: b) = p.find b := fun last b => by
    rw [findFrom, here, hRefuses last '\'' b rfl, List.head?_nil, Option.none_or]
    exact hForward.findFrom_eq _ _ b
  rw [find, findFrom_append (hs none _), hQuote, find, findFrom_append (hx none _), hQuote]

/-- A phrase and the list behind it. -/
def keyList (first second : String) : Pattern := phrase first [second] ++ gap ++ parenthesized 1

theorem passesOver_keyList_of_not_mem {first second : String} (hFirst : IsKeyword first) (hSecond : IsKeyword second)
    (hs : '(' ∉ s) (last : Option Char) (b : List Char) : (keyList first second).PassesOver last s ('\'' :: b) := by
  have hAvoids : ((phrase first [second] ++ gap) ++ exactly '(').Avoids Sql.isSingleQuote :=
    ⟨⟨avoids_phrase_quote hFirst hSecond, avoids_blanks_quote, trivial⟩, avoids_exactly_quote (by decide)⟩
  have hOver := passesOver_of_avoids (b := '\'' :: b) hAvoids (findFrom_append_exactly_of_not_mem _ last hs) (by simp; rfl)
  exact passesOver_append_assoc _ |>.1 ((passesOver_append_assoc _ |>.1 (hOver.append_right _)).append_right _)

theorem passesOver_keyList_of_occursIn {first second : String} (hFirst : IsKeyword first) (hSecond : IsKeyword second)
    (hs : (phrase first [second]).occursIn s = false) (last : Option Char) (b : List Char) :
    (keyList first second).PassesOver last s ('\'' :: b) := by
  have hStops := stopsAtQuote_phrase hFirst hSecond
  have hForward : (phrase first [second]).Forward := ⟨⟨forward_keyword _, trivial⟩, forward_keyword _⟩
  have hNone : (phrase first [second]).findFrom last s = none := by
    rw [hForward.findFrom_eq last none]
    exact Option.isNone_iff_eq_none.1 (Option.isSome_eq_false_iff.1 hs)
  exact ((passesOver_of_avoids hStops.avoids hNone (by simp; rfl)).append_right _).append_right _


theorem stopsAtQuote_primaryKeyPhrase : StopsAtQuote primaryKeyPhrase := stopsAtQuote_phrase (by decide) (by decide)

theorem stopsAtQuote_notNullPhrase : StopsAtQuote notNullPhrase := stopsAtQuote_phrase (by decide) (by decide)

/-! ## Items that are columns -/

/-- A column as it is shown, without its default. -/
def shownColumn (n t : List Char) (r : Shown) : Column where
  name := String.ofList n
  type := String.ofList (Text.upper t)
  nullable := r.nullable
  isPrimaryKey := r.isPrimaryKey
  isAutoIncrement := r.isAutoIncrement
  defaultValue := none

/-- A table with that one column. -/
def shownTable (w n t : List Char) (r : Shown) : Table where
  name := String.ofList w
  columns := [shownColumn n t r]
  primaryKey := if r.isPrimaryKey then [String.ofList n] else []
  foreignKeys := r.foreignKey.toList
  indexes := []

theorem shownTable_inj {r r' : Shown} (h : shownTable w n t r = shownTable w n t r') : r = r' := by
  obtain ⟨key, auto, nullable, reference⟩ := r
  obtain ⟨key', auto', nullable', reference'⟩ := r'
  simp only [shownTable, shownColumn, Table.mk.injEq, List.cons.injEq, Column.mk.injEq] at h
  obtain ⟨-, ⟨⟨-, -, rfl, rfl, rfl, -⟩, -⟩, -, hReference, -⟩ := h
  cases reference <;> cases reference' <;> simp_all

/-- A column that has lost its default. -/
def withoutDefault (c : Column) : Column := { c with defaultValue := none }

/-- A table whose columns have lost their defaults. -/
def withoutDefaults (t : Table) : Table := { t with columns := t.columns.map withoutDefault }

/-- Each flag of the column is looked for in the quoted text and behind it. -/
theorem columnOf_quoted (u x k : List Char) :
    withoutDefault (columnOf ⟨u, [(1, n), (2, t)], defaultLead ++ '\'' :: (x ++ '\'' :: k)⟩) =
      shownColumn n t (shown n x k) := by
  have hPrimary : primaryKeyPhrase.occursIn defaultLead = false := by decide +kernel
  have hAuto : autoIncrementPhrase.occursIn defaultLead = false := by decide +kernel
  have hNotNull : notNullPhrase.occursIn defaultLead = false := by decide +kernel
  simp only [withoutDefault, columnOf, shownColumn, shown, stopsAtQuote_primaryKeyPhrase.occursIn_append, hPrimary,
    Bool.false_or, stopsAtQuote_notNullPhrase.occursIn_append, hNotNull,
    stopsAtQuote_autoIncrementPhrase.occursIn_append, hAuto]
  rfl

theorem addItem_quotedItem_of_beginsColumn (hn : n ≠ []) (hName : ∀ c ∈ n, Text.isWordChar c = true) (ht : t ≠ [])
    (hType : ∀ c ∈ t, Text.isWordChar c = true) (hk : ∀ c ∈ k.getLast?, Text.isBlank c = false)
    (h : BeginsColumn (quotedItem n t x k)) (w : List Char) :
    withoutDefaults (addItem (Table.named (String.ofList w)) (quotedItem n t x k)) = shownTable w n t (shown n x k) := by
  have hHead : ∀ c ∈ (defaultLead ++ '\'' :: (x ++ '\'' :: k)).head?, Text.isWordChar c = false := by
    rw [show (defaultLead ++ '\'' :: (x ++ '\'' :: k)).head? = some ' ' from rfl]
    decide
  have hLast : ∀ c ∈ (defaultLead ++ '\'' :: (x ++ '\'' :: k)).getLast?, Text.isBlank c = false := by
    have hText : defaultLead ++ '\'' :: (x ++ '\'' :: k) = (defaultLead ++ '\'' :: (x ++ ['\''])) ++ k := by simp
    rw [hText]
    refine Text.isBlank_getLast_append ?_ hk
    rw [← List.cons_append, ← List.append_assoc, List.getLast?_concat]
    decide
  have hColumn : readColumn? (quotedItem n t x k) = some (columnOf ⟨n ++ [' '] ++ t, [(1, n), (2, t)],
      defaultLead ++ '\'' :: (x ++ '\'' :: k)⟩) := readColumn?_words hn hName ht hType hHead hLast
  have hReference : readInlineReference? (String.ofList n) (quotedItem n t x k) = (shown n x k).foreignKey := by
    rw [quotedItem_eq]
    exact readInlineReference?_quoted (not_mem_lead hName hType (by decide)) n x k
  have hFields := columnOf_quoted (n := n) (t := t) (n ++ [' '] ++ t) x k
  have hKey : (columnOf ⟨n ++ [' '] ++ t, [(1, n), (2, t)], defaultLead ++ '\'' :: (x ++ '\'' :: k)⟩).isPrimaryKey =
      (shown n x k).isPrimaryKey := congrArg Column.isPrimaryKey hFields
  have hColumnName : (columnOf ⟨n ++ [' '] ++ t, [(1, n), (2, t)], defaultLead ++ '\'' :: (x ++ '\'' :: k)⟩).name =
      String.ofList n := rfl
  rw [addItem_of_beginsColumn h hColumn]
  simp only [hColumnName, hReference, withoutDefaults, Table.addColumn, Table.named, List.nil_append,
    List.map_singleton, hFields, hKey, shownTable]

/-- Where an item begins as none but a column, depends on its name and type. -/
theorem occursIn_quotedItem (n t x k : List Char) :
    foreignKeyItem.occursIn (quotedItem n t x k) = foreignKeyItem.occursIn (n ++ ([' '] ++ (t ++ defaultLead))) ∧
    primaryKeyItem.occursIn (quotedItem n t x k) = primaryKeyItem.occursIn (n ++ ([' '] ++ (t ++ defaultLead))) ∧
    constraintItem.occursIn (quotedItem n t x k) = constraintItem.occursIn (n ++ ([' '] ++ (t ++ defaultLead))) := by
  have hPhrase : ∀ first second : String, IsKeyword first → IsKeyword second →
      (atStart ++ phrase first [second]).Avoids Sql.isSingleQuote := fun first second hFirst hSecond =>
    ⟨trivial, avoids_phrase_quote hFirst hSecond⟩
  have hConstraint : constraintItem.Avoids Sql.isSingleQuote :=
    ⟨⟨trivial, avoids_keyword_quote (by decide), avoids_keyword_quote (by decide), avoids_keyword_quote (by decide)⟩,
      fun _ hc => isWordChar_of_isSingleQuote hc⟩
  rw [quotedItem_eq]
  exact ⟨occursIn_anchored (anchored_atStart.append _) (hPhrase _ _ (by decide) (by decide)) _ _,
    occursIn_anchored (anchored_atStart.append _) (hPhrase _ _ (by decide) (by decide)) _ _,
    occursIn_anchored ((anchored_atStart.append _).append _) hConstraint _ _⟩

/-- A silent text adds nothing to a key of the table. -/
theorem readKeys_quotedItem (hName : ∀ c ∈ n, Text.isWordChar c = true) (hType : ∀ c ∈ t, Text.isWordChar c = true)
    (hx : Silent x) (k : List Char) : readForeignKeys (quotedItem n t x k) = readForeignKeys k ∧
      readPrimaryKey (quotedItem n t x k) = readPrimaryKey k := by
  have hParen : '(' ∉ n ++ ([' '] ++ (t ++ defaultLead)) := not_mem_lead hName hType (by decide)
  have hWords : IsKeyword "FOREIGN" ∧ IsKeyword "PRIMARY" ∧ IsKeyword "KEY" := by decide
  obtain ⟨hForeignWord, hPrimaryWord, hKeyWord⟩ := hWords
  have hForward : ∀ first second, (keyList first second).Forward := fun first second =>
    ⟨⟨⟨⟨forward_keyword _, trivial⟩, forward_keyword _⟩, trivial, trivial⟩, ⟨trivial, trivial⟩, trivial⟩
  have hRefuses : ∀ first second, IsKeyword first → (keyList first second).Refuses Sql.isSingleQuote :=
    fun first second hFirst => ((((refuses_keyword_quote hFirst).append _).append _).append _).append _
  have hForeign : foreignKeyClause.find (quotedItem n t x k) = foreignKeyClause.find k := by
    have hName : (name 2).Forward := ⟨⟨⟨trivial, trivial⟩, trivial⟩, trivial, trivial⟩
    have hWhole : foreignKeyClause.Forward :=
      ⟨⟨⟨⟨⟨⟨hForward _ _, trivial, trivial⟩, forward_keyword _⟩, trivial⟩, hName⟩, trivial, trivial⟩, ⟨trivial, trivial⟩,
        trivial⟩
    have hOver : ∀ s last b, (keyList "FOREIGN" "KEY").PassesOver last s b → foreignKeyClause.PassesOver last s b :=
      fun s last b h => (((((h.append_right _).append_right _).append_right _).append_right _).append_right _).append_right _
    rw [quotedItem_eq]
    refine find_behind_quoted hWhole ?_ (fun last b => hOver _ _ _ ?_) (fun last b => hOver _ _ _ ?_) k
    · exact ((((((hRefuses _ _ hForeignWord).append _).append _).append _).append _).append _).append _
    · exact passesOver_keyList_of_not_mem hForeignWord hKeyWord hParen last b
    · exact passesOver_keyList_of_occursIn hForeignWord hKeyWord hx.foreignKey last b
  have hPrimary : primaryKeyClause.find (quotedItem n t x k) = primaryKeyClause.find k := by
    rw [quotedItem_eq]
    exact find_behind_quoted (hForward "PRIMARY" "KEY") (hRefuses _ _ hPrimaryWord)
      (passesOver_keyList_of_not_mem hPrimaryWord hKeyWord hParen)
      (passesOver_keyList_of_occursIn hPrimaryWord hKeyWord hx.primaryKey) k
  exact ⟨by rw [readForeignKeys, hForeign, readForeignKeys], by rw [readPrimaryKey, hPrimary, readPrimaryKey]⟩

theorem isBlank_getLast_trimEnd (s : List Char) : ∀ c ∈ (Text.trimEnd s).getLast?, Text.isBlank c = false := by
  intro c hc
  have hHead := List.head?_dropWhile_not Text.isBlank s.reverse
  rw [Text.trimEnd, List.getLast?_reverse] at hc
  rw [hc] at hHead
  simpa using hHead

/-- Silent texts are read alike in every column. -/
theorem addItem_quotedItem_of_silent (hn : n ≠ []) (hName : ∀ c ∈ n, Text.isWordChar c = true) (ht : t ≠ [])
    (hType : ∀ c ∈ t, Text.isWordChar c = true) (hk : ∀ c ∈ k.getLast?, Text.isBlank c = false) (hx : Silent x)
    (hy : Silent y) (w : List Char) :
    withoutDefaults (addItem (Table.named (String.ofList w)) (quotedItem n t x k)) =
      withoutDefaults (addItem (Table.named (String.ofList w)) (quotedItem n t y k)) := by
  obtain ⟨hForeign, hPrimary, hConstraint⟩ := occursIn_quotedItem n t x k
  obtain ⟨hForeign', hPrimary', hConstraint'⟩ := occursIn_quotedItem n t y k
  by_cases hColumn : BeginsColumn (quotedItem n t x k)
  · have hColumn' : BeginsColumn (quotedItem n t y k) := by
      rw [BeginsColumn, hForeign', hPrimary', hConstraint', ← hForeign, ← hPrimary, ← hConstraint]
      exact hColumn
    rw [addItem_quotedItem_of_beginsColumn hn hName ht hType hk hColumn,
      addItem_quotedItem_of_beginsColumn hn hName ht hType hk hColumn', hx.shown_eq, hy.shown_eq]
  · -- the item is a key or a constraint of the table, and nothing of the quoted text is read
    obtain ⟨hKeys, hNames⟩ := readKeys_quotedItem hName hType hx k
    obtain ⟨hKeys', hNames'⟩ := readKeys_quotedItem hName hType hy k
    rw [BeginsColumn, hForeign, hPrimary, hConstraint] at hColumn
    rw [addItem, addItem, hForeign, hForeign', hPrimary, hPrimary', hConstraint, hConstraint', hKeys, hKeys', hNames,
      hNames']
    by_cases h : foreignKeyItem.occursIn (n ++ ([' '] ++ (t ++ defaultLead))) = true
    · rw [if_pos h, if_pos h]
    by_cases h' : primaryKeyItem.occursIn (n ++ ([' '] ++ (t ++ defaultLead))) = true
    · rw [if_neg h, if_neg h, if_pos h', if_pos h']
    by_cases h'' : constraintItem.occursIn (n ++ ([' '] ++ (t ++ defaultLead))) = true
    · rw [if_neg h, if_neg h, if_neg h', if_neg h', if_pos h'', if_pos h'']
    · simp only [Bool.not_eq_true] at h h' h''
      exact absurd ⟨h, h', h''⟩ hColumn


/-! ## Two quoted texts -/

/-- Two tables that differ in the quoted default of a column are both read. They agree but for the default when neither
text holds a phrase that is looked for, and, if the column has a name of its own, exactly when the two texts show the
same flags and the same reference together with the constraints behind them. -/
theorem readTable?_quotedItem (hw : w ≠ []) (hTable : ∀ c ∈ w, Text.isWordChar c = true) (hn : n ≠ [])
    (hName : ∀ c ∈ n, Text.isWordChar c = true) (ht : t ≠ []) (hType : ∀ c ∈ t, Text.isWordChar c = true)
    (hx : '\'' ∉ x) (hy : '\'' ∉ y) (hk : IsConstraintText k) (tail : List Char) :
    ∃ a b, readTable? (tableText w (quotedItem n t x k) tail) = some a ∧
      readTable? (tableText w (quotedItem n t y k) tail) = some b ∧
      (Silent x → Silent y → withoutDefaults a = withoutDefaults b) ∧
      ((∀ word ∈ reservedNames, ¬ Spells word.toList n) → (withoutDefaults a = withoutDefaults b ↔
        shown n x (readConstraints k) = shown n y (readConstraints k))) := by
  have hRead : ∀ x, '\'' ∉ x → readTable? (tableText w (quotedItem n t x k) tail) =
      some (addItem (Table.named (String.ofList w)) (quotedItem n t x (readConstraints k))) := fun x hx => by
    rw [readTable?_tableText hw hTable (isBody_quotedItem hName hType hx hk).1, declared,
      items_quotedItem hn hName hType hx hk]
    rfl
  have hLast : ∀ c ∈ (readConstraints k).getLast?, Text.isBlank c = false := isBlank_getLast_trimEnd _
  refine ⟨_, _, hRead x hx, hRead y hy, fun hSilent hSilent' => ?_, fun hFree => ?_⟩
  · exact addItem_quotedItem_of_silent hn hName ht hType hLast hSilent hSilent' w
  · have hBegins : ∀ x, BeginsColumn (quotedItem n t x (readConstraints k)) := fun x =>
      beginsColumn_of_not_spells hName hFree (by simp; decide)
    rw [addItem_quotedItem_of_beginsColumn hn hName ht hType hLast (hBegins x),
      addItem_quotedItem_of_beginsColumn hn hName ht hType hLast (hBegins y)]
    exact ⟨shownTable_inj, congrArg _⟩

/-- Commas, parentheses and comment marks in quotes change nothing, and neither does NOT NULL before a NOT NULL. -/
theorem readTable?_quotedItem_notNull :
    (∃ a b, readTable? "CREATE TABLE t (c TEXT DEFAULT 'a, (b' NOT NULL)".toList = some a ∧
      readTable? "CREATE TABLE t (c TEXT DEFAULT '-- /*' NOT NULL)".toList = some b ∧
      withoutDefaults a = withoutDefaults b) ∧
    ∃ a b, readTable? "CREATE TABLE t (c TEXT DEFAULT 'x' NOT NULL)".toList = some a ∧
      readTable? "CREATE TABLE t (c TEXT DEFAULT 'not null' NOT NULL)".toList = some b ∧
      withoutDefaults a = withoutDefaults b := by
  constructor
  · obtain ⟨a, b, ha, hb, hSilent, -⟩ := readTable?_quotedItem (w := "t".toList) (n := "c".toList) (t := "TEXT".toList)
      (x := "a, (b".toList) (y := "-- /*".toList) (k := " NOT NULL".toList) (by decide) (by decide) (by decide)
      (by decide) (by decide) (by decide) (by decide) (by decide) (by decide +kernel) []
    exact ⟨a, b, ha, hb, hSilent (by constructor <;> decide +kernel) (by constructor <;> decide +kernel)⟩
  · obtain ⟨a, b, ha, hb, -, hIff⟩ := readTable?_quotedItem (w := "t".toList) (n := "c".toList) (t := "TEXT".toList)
      (x := "x".toList) (y := "not null".toList) (k := " NOT NULL".toList) (by decide) (by decide) (by decide)
      (by decide) (by decide) (by decide) (by decide) (by decide) (by decide +kernel) []
    exact ⟨a, b, ha, hb, (hIff (by decide)).2 (by decide +kernel)⟩

/-- AUTOINCREMENT in quotes makes the column count. -/
theorem readTable?_quotedItem_autoIncrement :
    ¬ ∀ x y : List Char, '\'' ∉ x → '\'' ∉ y →
      (readTable? (tableText "t".toList (quotedItem "c".toList "TEXT".toList x []) [])).map withoutDefaults =
        (readTable? (tableText "t".toList (quotedItem "c".toList "TEXT".toList y []) [])).map withoutDefaults := by
  intro h
  have hSame := h "AUTOINCREMENT".toList "x".toList (by decide) (by decide)
  have hDiffer : (readTable? (tableText "t".toList (quotedItem "c".toList "TEXT".toList "AUTOINCREMENT".toList []) [])).map
      withoutDefaults ≠
        (readTable? (tableText "t".toList (quotedItem "c".toList "TEXT".toList "x".toList []) [])).map withoutDefaults := by
    decide +kernel
  exact hDiffer hSame

end SqlSurvey.Ddl
