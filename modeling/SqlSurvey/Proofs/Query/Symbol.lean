import SqlSurvey.Proofs.Query.WordSearch
import Mathlib.Data.Fintype.Defs

/-!
# Keywords, names and marks

What a statement consists of, apart from how a text writes it: with its keywords in any case and with any blanks
between. The words that are found behind a keyword are those that stand behind it. A name that ends in the keyword
passes for it as well where a word follows, so such names are told apart.
-/

namespace SqlSurvey.Query

open Pattern

/-! ## Symbols -/

/-- The keywords of the statements. -/
inductive Keyword where
  | SELECT | FROM | JOIN | ON | WHERE | ORDER | BY | DESC
  | INSERT | OR | INTO | VALUES | CONFLICT | DO | UPDATE | SET | DELETE
deriving DecidableEq

open Keyword in
instance : Fintype Keyword where
  elems := ⟨↑[SELECT, FROM, JOIN, ON, WHERE, ORDER, BY, DESC, INSERT, OR, INTO, VALUES, CONFLICT, DO, UPDATE, SET,
    DELETE], by decide⟩
  complete k := by cases k <;> decide

/-- The letters of a keyword. -/
def Keyword.letters : Keyword → List Char
  | SELECT => "SELECT".toList
  | FROM => "FROM".toList
  | JOIN => "JOIN".toList
  | ON => "ON".toList
  | WHERE => "WHERE".toList
  | ORDER => "ORDER".toList
  | BY => "BY".toList
  | DESC => "DESC".toList
  | INSERT => "INSERT".toList
  | OR => "OR".toList
  | INTO => "INTO".toList
  | VALUES => "VALUES".toList
  | CONFLICT => "CONFLICT".toList
  | DO => "DO".toList
  | UPDATE => "UPDATE".toList
  | SET => "SET".toList
  | DELETE => "DELETE".toList

/-- A name is a word that spells no keyword. -/
structure Name extends Word where
  notKeyword : ∀ k : Keyword, ¬ Spells k.letters text

/-- The characters make a name. -/
def IsName (s : List Char) : Prop :=
  s ≠ [] ∧ (∀ c ∈ s, Text.isWordChar c = true) ∧ ∀ k : Keyword, ¬ Spells k.letters s

instance (s : List Char) : Decidable (IsName s) := inferInstanceAs (Decidable (_ ∧ _ ∧ _))

/-- The name that a string holds. -/
def Name.ofString (s : String) (h : IsName s.toList) : Name := ⟨⟨s.toList, h.1, h.2.1⟩, h.2.2⟩

/-- A keyword, a word that is given, or a mark. -/
inductive Symbol where
  | keyword (k : Keyword)
  | word (w : Word)
  | mark (m : Mark)

/-- The symbol for a name. -/
abbrev Symbol.name (n : Name) : Symbol := .word n.toWord

/-- How a symbol may be written: keywords in any case, all else as it is. -/
inductive Symbol.Written : Symbol → Term → Prop
  | keyword (k : Keyword) (w : Word) (h : Spells k.letters w.text) : Written (.keyword k) (.word w)
  | word (w : Word) : Written (.word w) (.word w)
  | mark (m : Mark) : Written (.mark m) (.mark m)

/-- The text writes the symbols, with any blanks before, between and behind them. -/
def Writes (xs : List Symbol) (text : List Char) : Prop := ∃ ts, List.Forall₂ Symbol.Written xs ts ∧ Laid ts text

variable {k l : Keyword} {x : Symbol} {xs : List Symbol} {t : Term} {ts : List Term} {text : List Char}

theorem Keyword.isAlpha_letters : ∀ k : Keyword, ∀ l ∈ k.letters, l.toLower.isAlpha = true := by decide

/-- No keyword ends in another one. -/
theorem Keyword.eq_of_isSuffix : ∀ k l : Keyword,
    k.letters.map Text.lowerAscii <:+ l.letters.map Text.lowerAscii → k = l := by decide +kernel

theorem Keyword.letters_ne_nil : ∀ k : Keyword, k.letters ≠ [] := by decide

theorem Keyword.isWordChar_letters : ∀ k : Keyword, ∀ c ∈ k.letters, Text.isWordChar c = true := by decide +kernel

/-- The symbol with its letters as they are. -/
def Symbol.plain : Symbol → Term
  | keyword k => .word ⟨k.letters, k.letters_ne_nil, k.isWordChar_letters⟩
  | word w => .word w
  | mark m => .mark m

theorem Symbol.written_plain (x : Symbol) : x.Written x.plain := by
  cases x with
  | keyword k => exact .keyword k _ (spells_self k.letters)
  | word w => exact .word w
  | mark m => exact .mark m

/-- The symbols with one space after each. -/
def plainText (xs : List Symbol) : List Char := xs.flatMap fun x => x.plain.text ++ [' ']

/-- The plain text is one of the texts that write the symbols. -/
theorem writes_plainText (xs : List Symbol) : Writes xs (plainText xs) := by
  refine ⟨xs.map Symbol.plain, ?_, ⟨[], by simp⟩, plainText xs, rfl, ?_⟩
  · exact List.forall₂_map_right_iff.2 (List.forall₂_same.2 fun x _ => x.written_plain)
  · induction xs with
    | nil => exact .nil
    | cons x xs ih =>
      have hText : plainText (x :: xs) = x.plain.text ++ ([' '] ++ plainText xs) := by
        rw [plainText, List.flatMap_cons, List.append_assoc, plainText]
      rw [hText]
      exact begins_space x.plain ih

theorem eq_of_forall₂_written {ws vs : List Word} (h : List.Forall₂ Symbol.Written (ws.map .word) (vs.map .word)) :
    vs = ws := by
  rw [List.forall₂_map_left_iff, List.forall₂_map_right_iff] at h
  have hEq : List.Forall₂ Eq ws vs := h.imp fun w v hWritten => by
    cases hWritten
    rfl
  exact (List.forall₂_eq_eq_eq ▸ hEq).symm

/-- A word that spells a keyword ends in this keyword only. -/
theorem Keyword.eq_of_endsIn {w : List Char} (h : endsIn k.letters w = true) (hl : Spells l.letters w) : k = l :=
  eq_of_isSuffix k l (isSuffix_of_endsIn k.isAlpha_letters l.isAlpha_letters h hl)

/-! ## Words after a keyword -/

/-- The symbol is written as a word. -/
def Symbol.isWord : Symbol → Bool
  | mark _ => false
  | _ => true

/-- The symbol is the keyword, or a word that ends in it. -/
def Symbol.endsIn (k : Keyword) : Symbol → Bool
  | keyword l => l = k
  | word w => Pattern.endsIn k.letters w.text
  | mark _ => false

/-- The words that stand behind the keyword. One that is taken for such a word leads to no other. -/
def after (k : Keyword) : List Symbol → List Symbol
  | .keyword l :: x :: xs => if l = k ∧ x.isWord then x :: after k xs else after k (x :: xs)
  | _ :: xs => after k xs
  | [] => []

/-- No word that is given stands before another word and ends in the keyword, unless it stands behind the keyword
itself. -/
def isClear (k : Keyword) : List Symbol → Bool
  | .keyword l :: x :: xs => if l = k ∧ x.isWord then isClear k xs else isClear k (x :: xs)
  | .word w :: x :: xs => !(Pattern.endsIn k.letters w.text && x.isWord) && isClear k (x :: xs)
  | _ :: xs => isClear k xs
  | [] => true

theorem Symbol.Written.isWord_eq_false (h : x.Written t) (hx : x.isWord = false) : ∃ m, t = .mark m := by
  cases h with
  | keyword k w h => simp [isWord] at hx
  | word w => simp [isWord] at hx
  | mark m => exact ⟨m, rfl⟩

theorem Symbol.Written.exists_word (h : x.Written t) (hx : x.isWord = true) : ∃ w, t = .word w := by
  cases h with
  | keyword k w h => exact ⟨w, rfl⟩
  | word w => exact ⟨w, rfl⟩
  | mark m => simp [isWord] at hx

theorem Symbol.Written.endsIn {w : Word} (h : x.Written (.word w)) (hEnds : Pattern.endsIn k.letters w.text = true) :
    x.endsIn k = true := by
  cases h with
  | keyword l w h => exact decide_eq_true (Keyword.eq_of_endsIn hEnds h).symm
  | word w => exact hEnds

/-- Nothing is read behind a symbol that does not end in the keyword or has no word behind it. -/
theorem behind_eq_none (hx : x.Written t) (hxs : List.Forall₂ Symbol.Written xs ts)
    (h : x.endsIn k = true → ∀ y ∈ xs.head?, y.isWord = false) : Reader.word.behind k.letters (t :: ts) = none := by
  rw [Option.eq_none_iff_forall_ne_some]
  intro r hr
  obtain ⟨w, us, hTerms, hEnds, hWord⟩ := Reader.behind_eq_some_iff.1 hr
  obtain ⟨rfl, rfl⟩ := List.cons.inj hTerms
  obtain ⟨v, vs, rfl, -⟩ := Reader.word_eq_some_iff.1 hWord
  cases hxs with
  | cons hy _ =>
    obtain ⟨m, hm⟩ := hy.isWord_eq_false (h (hx.endsIn hEnds) _ rfl)
    exact Term.noConfusion hm

/-- Behind a symbol that is no keyword before others, nothing is to be read, and what follows is clear. -/
theorem isClear_cons (hNot : ∀ l y ys, x = .keyword l → xs = y :: ys → False) (hClear : isClear k (x :: xs) = true) :
    (x.endsIn k = true → ∀ y ∈ xs.head?, y.isWord = false) ∧ isClear k xs = true := by
  cases xs with
  | nil => simp [isClear]
  | cons y ys =>
    cases x with
    | keyword l => exact (hNot l y ys rfl rfl).elim
    | word w =>
      rw [isClear, Bool.and_eq_true, Bool.not_eq_true', Bool.and_eq_false_iff] at hClear
      refine ⟨fun hEnds z hz => ?_, hClear.2⟩
      obtain rfl := Option.some_inj.1 hz
      exact hClear.1.resolve_left fun hNone => Bool.false_ne_true (hNone.symm.trans hEnds)
    | mark m => exact ⟨fun hEnds => absurd hEnds Bool.false_ne_true, hClear⟩

/-- What is found behind the keyword are the words that stand there. -/
theorem forall₂_found (h : List.Forall₂ Symbol.Written xs ts) (hClear : isClear k xs = true) :
    List.Forall₂ Symbol.Written (after k xs) ((found k.letters Reader.word 0 ts).map .word) := by
  fun_induction after k xs generalizing ts with
  | case1 l x xs hLeads ih =>
    obtain ⟨rfl, hWord⟩ := hLeads
    cases h with
    | cons hKeyword h =>
    cases h with
    | cons hx h =>
    obtain ⟨w, rfl⟩ := hKeyword.exists_word rfl
    obtain ⟨v, rfl⟩ := hx.exists_word hWord
    cases hKeyword with
    | keyword _ _ hSpells =>
    rw [isClear, if_pos ⟨rfl, hWord⟩] at hClear
    rw [found_cons_of_some (Reader.behind_eq_some_iff.2 ⟨w, _, rfl, endsIn_of_spells hSpells, rfl⟩), List.map_cons]
    exact .cons hx (ih h hClear)
  | case2 l x xs hNot ih =>
    cases h with
    | cons hKeyword h =>
    rw [isClear, if_neg hNot] at hClear
    have hNone := behind_eq_none hKeyword h fun hEnds y hy => by
      obtain rfl := Option.some_inj.1 hy
      have hSame : l = k := of_decide_eq_true hEnds
      simpa [hSame] using hNot
    rw [found_cons_of_none hNone]
    exact ih h hClear
  | case3 x xs hNot ih =>
    cases h with
    | cons hx h =>
    obtain ⟨hHead, hRest⟩ := isClear_cons hNot hClear
    rw [found_cons_of_none (behind_eq_none hx h hHead)]
    exact ih h hRest
  | case4 =>
    cases h
    exact .nil

@[simp] theorem after_nil : after k [] = [] := rfl

@[simp] theorem after_mark (m : Mark) : after k (.mark m :: xs) = after k xs := rfl

@[simp] theorem after_word (w : Word) : after k (.word w :: xs) = after k xs := rfl

@[simp] theorem after_keyword_word (w : Word) : after k (.keyword k :: .word w :: xs) = .word w :: after k xs := by
  rw [after, if_pos ⟨rfl, rfl⟩]

@[simp] theorem after_keyword_keyword : after k (.keyword k :: .keyword l :: xs) = .keyword l :: after k xs := by
  rw [after, if_pos ⟨rfl, rfl⟩]

/-- Behind another keyword nothing is taken. -/
@[simp] theorem after_keyword_of_ne (h : l ≠ k) : after k (.keyword l :: xs) = after k xs := by
  cases xs with
  | nil => rfl
  | cons x xs => rw [after, if_neg fun hSame => h hSame.1]

/-! ## Insertions -/

/-- The symbol is not written as the keyword. -/
def Symbol.Avoids (k : Keyword) : Symbol → Prop
  | keyword l => l ≠ k
  | word w => ¬ Spells k.letters w.text
  | mark _ => True

theorem Symbol.Written.not_spells {w : Word} (h : x.Written (.word w)) (hx : x.Avoids k) :
    ¬ Spells k.letters w.text := by
  cases h with
  | keyword l w h => exact fun hk => hx (Keyword.eq_of_endsIn (endsIn_of_spells hk) h).symm
  | word w => exact hx

/-- An insertion needs `INTO`. -/
theorem exists_into_of_insertion {r : Word × Nat} (h : Reader.insertion ts = some r) :
    ∃ w, .word w ∈ ts ∧ Spells Keyword.INTO.letters w.text := by
  rw [Reader.insertion, Reader.orElse, Option.or_eq_some_iff] at h
  rcases h with h | ⟨-, h⟩
  · obtain ⟨v, us, k, rfl, -, h, -⟩ := Reader.after_eq_some_iff.1 h
    obtain ⟨u, vs, k, rfl, h, -⟩ := Reader.afterWord_eq_some_iff.1 h
    obtain ⟨w, ws, k, rfl, hSpells, -⟩ := Reader.after_eq_some_iff.1 h
    exact ⟨w, by simp, hSpells⟩
  · obtain ⟨w, ws, k, rfl, hSpells, -⟩ := Reader.after_eq_some_iff.1 h
    exact ⟨w, by simp, hSpells⟩

theorem found_insertion_eq_nil (h : List.Forall₂ Symbol.Written xs ts) (hAvoids : ∀ x ∈ xs, x.Avoids .INTO) :
    found Keyword.INSERT.letters Reader.insertion 0 ts = [] := by
  induction h with
  | nil => rfl
  | @cons x t xs ts hx h ih =>
    have hRest : ∀ y ∈ xs, y.Avoids .INTO := fun y hy => hAvoids y (List.mem_cons_of_mem x hy)
    have hNone : Reader.insertion.behind Keyword.INSERT.letters (t :: ts) = none := by
      rw [Option.eq_none_iff_forall_ne_some]
      intro r hr
      obtain ⟨v, us, hTerms, -, hRead⟩ := Reader.behind_eq_some_iff.1 hr
      obtain ⟨-, rfl⟩ := List.cons.inj hTerms
      obtain ⟨w, hw, hSpells⟩ := exists_into_of_insertion hRead
      obtain ⟨y, hy, hWritten⟩ := exists_of_mem_forall₂ h hw
      exact hWritten.not_spells (hRest y hy) hSpells
    rw [found_cons_of_none hNone]
    exact ih hRest

theorem avoids_name (k : Keyword) (n : Name) : (Symbol.name n).Avoids k := n.notKeyword k

theorem avoids_mark (k : Keyword) (m : Mark) : (Symbol.mark m).Avoids k := trivial

theorem avoids_keyword (h : l ≠ k) : (Symbol.keyword l).Avoids k := h

/-- What is read behind `INSERT`. -/
theorem insertion_into {v u : Word} (hv : Spells Keyword.INTO.letters v.text) :
    Reader.insertion (.word v :: .word u :: ts) = some (u, 2) := by
  have hNot : ¬ Spells Keyword.OR.letters v.text := fun hOr =>
    absurd (Keyword.eq_of_endsIn (endsIn_of_spells hOr) hv) (by simp)
  have hOr : (((Reader.word.after Keyword.INTO.letters).afterWord).after Keyword.OR.letters)
      (.word v :: .word u :: ts) = none := by rw [Reader.after, if_neg hNot]
  have hInto : (Reader.word.after Keyword.INTO.letters) (.word v :: .word u :: ts) = some (u, 2) := by
    rw [Reader.after, if_pos hv]
    rfl
  exact (Option.or_eq_right_of_none hOr).trans hInto

theorem insertion_or {v w x u : Word} (hv : Spells Keyword.OR.letters v.text)
    (hx : Spells Keyword.INTO.letters x.text) :
    Reader.insertion (.word v :: .word w :: .word x :: .word u :: ts) = some (u, 4) := by
  have hInto : (Reader.word.after Keyword.INTO.letters) (.word x :: .word u :: ts) = some (u, 2) := by
    rw [Reader.after, if_pos hx]
    rfl
  have hOr : (((Reader.word.after Keyword.INTO.letters).afterWord).after Keyword.OR.letters)
      (.word v :: .word w :: .word x :: .word u :: ts) = some (u, 4) := by
    rw [Reader.after, if_pos hv, Reader.afterWord, hInto]
    rfl
  exact congrArg (Option.or · _) hOr

end SqlSurvey.Query
