import SqlSurvey.Proofs.Pattern.Search

/-!
# Patterns that need another one

A pattern that begins like a longer one turns away no text in which the longer one is found. What parts a pattern
keeps makes no difference to where it is found, so a pattern that is only asked whether it occurs may leave
them out.
-/

namespace SqlSurvey

/-- The hit without the parts that it keeps. -/
def Hit.withoutParts (h : Hit) : Hit := { h with groups := [] }

namespace Pattern

variable {p q r : Pattern} {last : Option Char} {s : List Char}

/-! ## Patterns that keep no parts -/

/-- The pattern that takes the same texts and keeps no parts of them. -/
def withoutParts : Pattern → Pattern
  | seq p q => seq p.withoutParts q.withoutParts
  | either p q => either p.withoutParts q.withoutParts
  | group _ p => p.withoutParts
  | p => p

@[simp] theorem withoutParts_append (p q : Pattern) :
    (p ++ q).withoutParts = p.withoutParts ++ q.withoutParts := rfl

@[simp] theorem withoutParts_group (n : Nat) (p : Pattern) : (group n p).withoutParts = p.withoutParts := rfl

@[simp] theorem withoutParts_maybe (p : Pattern) : (maybe p).withoutParts = maybe p.withoutParts := rfl

@[simp] theorem withoutParts_blanks : blanks.withoutParts = blanks := rfl

@[simp] theorem withoutParts_keyword (ls : List Char) : (keyword ls).withoutParts = keyword ls := by
  induction ls with
  | nil => rfl
  | cons l ls ih => exact congrArg (char (Text.sameLetter l) ++ ·) ih

/-- The hits are the same but for the parts. -/
theorem hits_withoutParts (p : Pattern) (last : Option Char) (s : List Char) :
    p.withoutParts.hits last s = (p.hits last s).map Hit.withoutParts := by
  induction p generalizing last s with
  | empty => rfl
  | char A =>
    cases s with
    | nil => rfl
    | cons c s => by_cases hc : A c = true <;> simp [withoutParts, hits, hc, Hit.withoutParts]
  | many A preference =>
    -- a repetition keeps nothing to begin with
    have hSame : ∀ h ∈ (many A preference).hits last s, h.withoutParts = h := by
      rintro ⟨text, groups, rest⟩ hh
      obtain rfl : groups = [] := (of_mem_hits_many hh).1
      rfl
    rw [List.map_congr_left hSame, List.map_id']
    rfl
  | seq p q ihp ihq =>
    rw [withoutParts, hits, hits, ihp, List.flatMap_map, List.map_flatMap]
    refine List.flatMap_congr fun h _ => ?_
    rw [ihq, List.map_map, List.map_map]
    rfl
  | either p q ihp ihq => rw [withoutParts, hits, hits, ihp, ihq, List.map_append]
  | group n p ih =>
    rw [withoutParts, hits, ih, List.map_map]
    rfl
  | atStart => by_cases hl : last.isNone = true <;> simp [withoutParts, hits, hl, Hit.withoutParts]
  | atEnd => by_cases he : s.isEmpty = true <;> simp [withoutParts, hits, he, Hit.withoutParts]
  | atWordEdge => by_cases he : wordEdge last s = true <;> simp [withoutParts, hits, he, Hit.withoutParts]

/-! ## Patterns that have hits only where another one has -/

/-- The first pattern has hits only where the second one has. -/
def Needs (p q : Pattern) : Prop := ∀ last s, q.hits last s = [] → p.hits last s = []

theorem needs_self (p : Pattern) : p.Needs p := fun _ _ h => h

/-- What a pattern needs it also needs when more is to follow. -/
theorem Needs.append (h : p.Needs q) (r : Pattern) : (p ++ r).Needs q :=
  fun last s hq => hits_append_eq_nil (h last s hq)

theorem needs_withoutParts (p : Pattern) : p.Needs p.withoutParts := by
  intro last s h
  rwa [hits_withoutParts, List.map_eq_nil_iff] at h

/-- Where the pattern that is needed is not found, the other one is not. -/
theorem Needs.findFrom_eq_none (h : p.Needs q) (hq : q.findFrom last s = none) : p.findFrom last s = none := by
  rw [findFrom_eq_none_iff] at hq ⊢
  exact fun u v huv => h (lastOf last u) v (hq u v huv)

/-- A text in which a pattern is found has what the pattern needs. -/
theorem Needs.occursIn (h : p.Needs q) (hp : p.occursIn s = true) : q.occursIn s = true := by
  by_contra hq
  have hNone : q.find s = none := by simpa [Pattern.occursIn] using hq
  rw [Pattern.occursIn, find, h.findFrom_eq_none hNone] at hp
  cases hp

end Pattern

end SqlSurvey
