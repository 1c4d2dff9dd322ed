import SqlSurvey.Proofs.TypeScript.Lexeme

/-!
# What rules read

What it takes for a rule of each form to read something, and the nodes that rules read cover the text that they
read: of any rule whose nodes for literals are built as the language builds them.
-/

namespace SqlSurvey.TypeScript

namespace Rule

variable {σ : Type} {grammar : σ → Rule σ} {dialect : Dialect} {fuel n : Nat} {c e : Cursor} {ns : List Node}
  {k : Kind} {role : Role} {scan : Scanner} {a b : Rule σ}

/-! ## Rules of each form -/

theorem of_read_empty (h : read grammar dialect fuel empty c = some (ns, e)) : ns = [] ∧ e = c := by
  cases fuel with
  | zero => cases h
  | succ fuel =>
    obtain ⟨rfl, rfl⟩ := Prod.mk.inj (Option.some.inj h)
    exact ⟨rfl, rfl⟩

theorem of_read_lexeme (h : read grammar dialect fuel (lexeme k scan) c = some (ns, e)) :
    ∃ n, scan c.skipTrivia.2.rest = some n ∧ ns = c.skipTrivia.1 ++ [c.skipTrivia.2.leaf k n] ∧
      e = c.skipTrivia.2.advance n := by
  cases fuel with
  | zero => cases h
  | succ fuel =>
    obtain ⟨n, hn, hEq⟩ := Option.map_eq_some_iff.1 h
    obtain ⟨rfl, rfl⟩ := Prod.mk.inj hEq
    exact ⟨n, hn, rfl, rfl⟩

theorem of_read_glued (h : read grammar dialect fuel (glued k scan) c = some (ns, e)) :
    ∃ n, scan c.rest = some n ∧ ns = [c.leaf k n] ∧ e = c.advance n := by
  cases fuel with
  | zero => cases h
  | succ fuel =>
    obtain ⟨n, hn, hEq⟩ := Option.map_eq_some_iff.1 h
    obtain ⟨rfl, rfl⟩ := Prod.mk.inj hEq
    exact ⟨n, hn, rfl, rfl⟩

theorem of_read_seq (h : read grammar dialect fuel (seq a b) c = some (ns, e)) :
    ∃ m < fuel, ∃ us d vs, read grammar dialect m a c = some (us, d) ∧
      read grammar dialect m b d = some (vs, e) ∧ ns = us ++ vs := by
  cases fuel with
  | zero => cases h
  | succ fuel =>
    rw [read] at h
    split at h
    · cases h
    · rename_i p hp
      obtain ⟨q, hq, hEq⟩ := Option.map_eq_some_iff.1 h
      obtain ⟨rfl, rfl⟩ := Prod.mk.inj hEq
      exact ⟨fuel, Nat.lt_succ_self fuel, p.1, p.2, q.1, hp, hq, rfl⟩

/-- The second alternative is read where the first one cannot be. -/
theorem of_read_either (h : read grammar dialect fuel (either a b) c = some (ns, e)) :
    ∃ m, fuel = m + 1 ∧ (read grammar dialect m a c = some (ns, e) ∨
      read grammar dialect m a c = none ∧ read grammar dialect m b c = some (ns, e)) := by
  cases fuel with
  | zero => cases h
  | succ fuel =>
    refine ⟨fuel, rfl, ?_⟩
    rw [read] at h
    split at h
    · rename_i hNone
      exact .inr ⟨hNone, h⟩
    · rename_i p hp
      exact .inl (hp.trans h)

theorem of_read_node (h : read grammar dialect fuel (node k role a) c = some (ns, e)) :
    ∃ m < fuel, ∃ cs, read grammar dialect m a c.skipTrivia.2 = some (cs, e) ∧
      ns = c.skipTrivia.1 ++ [.node k role c.skipTrivia.2.offset e.offset cs] := by
  cases fuel with
  | zero => cases h
  | succ fuel =>
    obtain ⟨q, hq, hEq⟩ := Option.map_eq_some_iff.1 h
    obtain ⟨rfl, rfl⟩ := Prod.mk.inj hEq
    exact ⟨fuel, Nat.lt_succ_self fuel, q.1, hq, rfl⟩

theorem of_read_ahead (h : read grammar dialect fuel (ahead a) c = some (ns, e)) : ns = [] ∧ e = c := by
  cases fuel with
  | zero => cases h
  | succ fuel =>
    obtain ⟨-, -, hEq⟩ := Option.map_eq_some_iff.1 h
    obtain ⟨rfl, rfl⟩ := Prod.mk.inj hEq
    exact ⟨rfl, rfl⟩

theorem of_read_never (h : read grammar dialect fuel (never a) c = some (ns, e)) : ns = [] ∧ e = c := by
  cases fuel with
  | zero => cases h
  | succ fuel =>
    rw [read] at h
    split at h
    · obtain ⟨rfl, rfl⟩ := Prod.mk.inj (Option.some.inj h)
      exact ⟨rfl, rfl⟩
    · cases h

theorem of_read_sameLine (h : read grammar dialect fuel sameLine c = some (ns, e)) : ns = [] ∧ e = c := by
  cases fuel with
  | zero => cases h
  | succ fuel =>
    rw [read] at h
    split at h
    · cases h
    · obtain ⟨rfl, rfl⟩ := Prod.mk.inj (Option.some.inj h)
      exact ⟨rfl, rfl⟩

theorem of_read_lineRest (h : read grammar dialect fuel lineRest c = some (ns, e)) :
    c.lineComments = some (ns, e) ∨ ns = [] ∧ e = c := by
  cases fuel with
  | zero => cases h
  | succ fuel =>
    have hEq : c.lineComments.getD ([], c) = (ns, e) := Option.some.inj h
    cases hComments : c.lineComments with
    | none =>
      rw [hComments] at hEq
      obtain ⟨rfl, rfl⟩ := Prod.mk.inj hEq
      exact .inr ⟨rfl, rfl⟩
    | some p =>
      rw [hComments] at hEq
      exact .inl (congrArg some hEq)

theorem of_read_call {symbol : σ} (h : read grammar dialect fuel (call symbol) c = some (ns, e)) :
    ∃ m < fuel, read grammar dialect m (grammar symbol) c = some (ns, e) := by
  cases fuel with
  | zero => cases h
  | succ fuel => exact ⟨fuel, Nat.lt_succ_self fuel, h⟩

theorem of_read_only {d : Dialect} (h : read grammar dialect fuel (only d a) c = some (ns, e)) :
    ∃ m < fuel, read grammar dialect m a c = some (ns, e) := by
  cases fuel with
  | zero => cases h
  | succ fuel =>
    rw [read] at h
    split at h
    · exact ⟨fuel, Nat.lt_succ_self fuel, h⟩
    · cases h

/-- What holds of nothing, and of what is read in two parts if it holds of the parts, holds of what a repetition reads
if it holds of each item. -/
theorem of_read_many {P : Cursor → List Node → Cursor → Prop} (hNil : ∀ c, P c [] c)
    (hAppend : ∀ {c d e ns ms}, P c ns d → P d ms e → P c (ns ++ ms) e)
    (hItem : ∀ m < fuel, ∀ {c ns d}, read grammar dialect m a c = some (ns, d) → P c ns d)
    (h : read grammar dialect fuel (many a) c = some (ns, e)) : P c ns e := by
  induction fuel generalizing c ns with
  | zero => cases h
  | succ fuel ih =>
    have hStop : ∀ {ns e}, some (([] : List Node), c) = some (ns, e) → P c ns e := by
      intro ns e hEq
      obtain ⟨rfl, rfl⟩ := Prod.mk.inj (Option.some.inj hEq)
      exact hNil c
    rw [read] at h
    split at h
    · exact hStop h
    · rename_i p hp
      split at h
      · obtain ⟨q, hq, hEq⟩ := Option.map_eq_some_iff.1 h
        obtain ⟨rfl, rfl⟩ := Prod.mk.inj hEq
        exact hAppend (hItem fuel (Nat.lt_succ_self fuel) hp) (ih (fun m hm => hItem m (Nat.lt_succ_of_lt hm)) hq)
      · exact hStop h

/-- A glued lexeme is read wherever its scanner finds it. -/
theorem scan_eq_none (h : read grammar dialect (fuel + 1) (glued k scan) c = none) : scan c.rest = none :=
  Option.map_eq_none_iff.1 h

end Rule

end SqlSurvey.TypeScript
