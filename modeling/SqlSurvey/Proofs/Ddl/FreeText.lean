import SqlSurvey.Ddl.Index
import SqlSurvey.Proofs.Ddl.Reference

/-!
# Free texts

What stands in a table besides its names, such as constraints, may be any text that is part of an item and in which no
index is created. The search for CREATE INDEX passes over it, over names whatever their quotes are, and over
references.
-/

namespace SqlSurvey.Ddl

open Pattern

variable {p : Pattern} {s a : List Char} {c : Char} {word : String}

/-! ## Where no index goes on -/

/-- What comes after CREATE and blanks in a statement for an index. -/
def afterCreate : Pattern := maybe (keyword "UNIQUE".toList ++ blanks) ++ keyword "INDEX".toList

/-- CREATE with what comes after it. -/
def createIndexPhrase : Pattern := keyword "CREATE".toList ++ (blanks ++ afterCreate)

theorem find_createIndexShape (s : List Char) : createIndexShape.find s = createIndexPhrase.find s := by
  rw [find, createIndexShape, findFrom_append_assoc, findFrom_append_assoc]
  rfl

theorem hits_afterCreate (last : Option Char) (s : List Char) : afterCreate.hits last s =
    (keyword "UNIQUE".toList ++ (blanks ++ keyword "INDEX".toList)).hits last s ++
      (keyword "INDEX".toList).hits last s := by
  rw [afterCreate, hits_maybe_append, hits_append_assoc]

theorem refuses_afterCreate : afterCreate.Refuses fun c => !Text.isWordChar c :=
  (((by decide : IsKeyword "UNIQUE").refuses fun c hc => by simpa using hc).append blanks).maybe_append
    ((by decide : IsKeyword "INDEX").refuses fun c hc => by simpa using hc)

theorem refuses_afterCreate_blank : afterCreate.Refuses Text.isBlank :=
  refuses_afterCreate.mono fun c hc => by rw [Text.isWordChar_of_isBlank hc]; rfl

theorem refuses_createIndexPhrase : createIndexPhrase.Refuses fun c => !Text.isWordChar c :=
  refuses_keyword_blanks (by decide) afterCreate

theorem forward_createIndexPhrase : createIndexPhrase.Forward :=
  ⟨forward_keyword _, trivial, ⟨⟨forward_keyword _, trivial⟩, trivial⟩, forward_keyword _⟩

/-- What begins with a word has no hit where none begins. -/
theorem hits_eq_nil_of_head (hp : p.Refuses fun c => !Text.isWordChar c) (hNil : ∀ last, p.hits last [] = [])
    (hs : ∀ d ∈ s.head?, Text.isWordChar d = false) (last : Option Char) : p.hits last s = [] := by
  cases s with
  | nil => exact hNil last
  | cons d s => exact hp last d s (by simpa using hs d rfl)

theorem hits_keyword_eq_nil_of_head (h : IsKeyword word) (hs : ∀ d ∈ s.head?, Text.isWordChar d = false)
    (last : Option Char) : (keyword word.toList).hits last s = [] :=
  hits_eq_nil_of_head (h.refuses fun c hc => by simpa using hc) (hits_keyword_nil h) hs last

/-- A text that does not go on with what may have begun of CREATE INDEX before it. -/
structure EndsIndex (s : List Char) : Prop where
  word : ∀ d ∈ s.head?, Text.isWordChar d = false
  index : ∀ last, (blanks ++ keyword "INDEX".toList).hits last s = []
  create : ∀ last, (blanks ++ afterCreate).hits last s = []

/-- Another keyword behind blanks does not go on with it. -/
theorem endsIndex_gap (g : Gap) (hWord : ∀ d ∈ (g.text ++ s).head?, Text.isWordChar d = false)
    (hBlank : ∀ d ∈ s.head?, Text.isBlank d = false) (hUnique : ∀ last, (keyword "UNIQUE".toList).hits last s = [])
    (hIndex : ∀ last, (keyword "INDEX".toList).hits last s = []) : EndsIndex (g.text ++ s) where
  word := hWord
  index := hits_blanks_append_gap g (by decide : IsKeyword "INDEX").refuses_blank hBlank hIndex
  create := hits_blanks_append_gap g refuses_afterCreate_blank hBlank fun last => by
    rw [hits_afterCreate, hits_append_eq_nil (hUnique last), hIndex, List.append_nil]

theorem endsIndex_nil : EndsIndex [] := ⟨by simp, fun _ => rfl, fun _ => rfl⟩

/-- Neither does what is no word, behind blanks or not. -/
theorem endsIndex_mark (g : Gap) (hWord : Text.isWordChar c = false) (hBlank : Text.isBlank c = false)
    (s : List Char) : EndsIndex (g.text ++ c :: s) := by
  have hHead : ∀ d ∈ (c :: s).head?, Text.isWordChar d = false := by simpa using hWord
  exact endsIndex_gap g (g.isWordChar_head hHead) (by simpa using hBlank)
    (hits_keyword_eq_nil_of_head (by decide) hHead) (hits_keyword_eq_nil_of_head (by decide) hHead)

theorem WrittenReference.endsIndex (r : WrittenReference) (s : List Char) : EndsIndex (r.text ++ s) := by
  rw [text, List.append_assoc]
  exact endsIndex_gap r.start.toGap (r.start.isWordChar_head _)
    (r.isBlank_head_clause s) (fun last => r.hits_keyword_clause (by decide) (by decide) last s)
    fun last => r.hits_keyword_clause (by decide) (by decide) last s

/-! ## What is passed over -/

theorem WrittenName.passesOver_createIndex (n : WrittenName) (hs : EndsIndex s) (last : Option Char) :
    createIndexPhrase.PassesOver last n.text s := n.passesOver (by decide) hs.word hs.create last

theorem passesOver_createIndex_gap (g : Gap) (s : List Char) (last : Option Char) :
    createIndexPhrase.PassesOver last g.text s := g.passesOver refuses_createIndexPhrase last s

theorem ListedName.passesOver_createIndex (ns : List ListedName) (s : List Char) (last : Option Char) :
    createIndexPhrase.PassesOver last ('(' :: list ns ++ [')']) s :=
  passesOver_parenthesized (by decide) refuses_afterCreate ns s last

theorem WrittenReference.passesOver_createIndex (r : WrittenReference) (s : List Char) (last : Option Char) :
    createIndexPhrase.PassesOver last r.text s :=
  (passesOver_createIndex_gap r.start.toGap _ last).append
    (r.passesOver_clause (by decide) (by decide) refuses_afterCreate _ s)

/-- A keyword that does not end in CREATE is passed over. -/
theorem passesOver_createIndex_spelling (h : IsKeyword word)
    (hNot : ¬ "CREATE".toList.map Text.lowerAscii <:+ word.toList.map Text.lowerAscii) (w : Spelling word)
    (hs : ∀ d ∈ s.head?, Text.isWordChar d = false) (last : Option Char) :
    createIndexPhrase.PassesOver last w.text s :=
  passesOver_spelling h (by decide) hNot w hs afterCreate last

/-! ## Free texts -/

/-- A part of an item in which no index is created, and which does not end with a blank. -/
structure IsFree (s : List Char) : Prop where
  isPart : Sql.IsPart s
  ends : ∀ c ∈ s.getLast?, Text.isBlank c = false
  noIndex : createIndexShape.occursIn s = false

instance (s : List Char) : Decidable (IsFree s) :=
  decidable_of_iff (Sql.IsPart s ∧ (∀ c ∈ s.getLast?, Text.isBlank c = false) ∧ createIndexShape.occursIn s = false)
    ⟨fun h => ⟨h.1, h.2.1, h.2.2⟩, fun h => ⟨h.1, h.2, h.3⟩⟩

theorem isFree_nil : IsFree [] := by decide +kernel

theorem settledBefore_keyword (h : IsKeyword word) (hs : ∀ d ∈ s.head?, Text.isWordChar d = false) (c : Char) :
    (keyword word.toList).SettledBefore c s := by
  have hAvoids : (keyword word.toList).Avoids fun d => !Text.isWordChar d :=
    avoids_keyword_of_isLettered (fun d hd => by simpa using hd) (List.all_eq_true.2 h.2)
  intro last a
  have hHead : ∀ d ∈ s.head?, (!Text.isWordChar d) = true := fun d hd => by rw [hs d hd]; rfl
  rw [← List.singleton_append, ← List.append_assoc]
  exact hits_append_of_avoids hAvoids (a ++ [c]) hHead

theorem settledBefore_blanks (hc : Text.isBlank c = false) (s : List Char) : blanks.SettledBefore c s :=
  settledBefore_of_avoids (p := blanks) (A := fun d => !Text.isBlank d)
    (show ∀ d, _ → _ from fun d hd => by simpa using hd) (by rw [hc]; rfl) s

/-- Behind the last character of a free text, nothing of CREATE INDEX goes on. -/
theorem settledBefore_createIndexPhrase (hc : Text.isBlank c = false) (hs : EndsIndex s) :
    afterCreate.SettledBefore c s ∧ createIndexPhrase.SettledBefore c s := by
  have hIndex := settledBefore_keyword (by decide : IsKeyword "INDEX") hs.word c
  have hBlanks := settledBefore_blanks hc s
  have hUnique := (settledBefore_keyword (by decide : IsKeyword "UNIQUE") hs.word c).append
    (hBlanks.append hIndex (hits_keyword_eq_nil_of_head (by decide) hs.word) fun _ => rfl) hs.index fun _ => rfl
  have hAfter : afterCreate.SettledBefore c s := by
    intro last a
    rw [hits_afterCreate, hits_afterCreate, hUnique last a, hIndex last a, List.map_append]
  refine ⟨hAfter, (settledBefore_keyword (by decide : IsKeyword "CREATE") hs.word c).append
    (hBlanks.append hAfter (hits_eq_nil_of_head refuses_afterCreate (fun _ => rfl) hs.word) fun _ => rfl)
    hs.create fun _ => rfl⟩

namespace IsFree

/-- A free text is passed over. -/
theorem passesOver_createIndex (h : IsFree a) (hs : EndsIndex s) (last : Option Char) :
    createIndexPhrase.PassesOver last a s := by
  rcases List.eq_nil_or_concat' a with rfl | ⟨u, c, rfl⟩
  · trivial
  · have hc : Text.isBlank c = false := h.ends c (by simp)
    have hNone : createIndexPhrase.findFrom last (u ++ [c]) = none := by
      rw [forward_createIndexPhrase.findFrom_eq last none, ← find, ← find_createIndexShape]
      exact Option.isNone_iff_eq_none.1 (Option.isSome_eq_false_iff.1 h.noIndex)
    exact (settledBefore_createIndexPhrase hc hs).2.passesOver hNone

/-- What does not begin with INDEX or with UNIQUE INDEX goes on so. -/
theorem hits_afterCreate (h : IsFree a) (hNil : a ≠ []) (hNone : afterCreate.hits none a = []) (hs : EndsIndex s)
    (last : Option Char) : afterCreate.hits last (a ++ s) = [] := by
  obtain ⟨u, c, rfl⟩ := (List.eq_nil_or_concat' a).resolve_left hNil
  have hc : Text.isBlank c = false := h.ends c (by simp)
  have hForward : afterCreate.Forward := ⟨⟨⟨forward_keyword _, trivial⟩, trivial⟩, forward_keyword _⟩
  rw [List.append_assoc, List.singleton_append, (settledBefore_createIndexPhrase hc hs).1 last u,
    hForward.hits_eq last none, hNone, List.map_nil]

end IsFree

end SqlSurvey.Ddl
