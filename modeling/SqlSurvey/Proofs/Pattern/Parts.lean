import SqlSurvey.Proofs.Pattern.Seam

/-!
# The parts that a hit keeps

What holds of the text of every numbered part, and which parts take part in every hit. That a part is never empty
and always there is seen from the pattern alone, so it is computed.
-/

namespace SqlSurvey

namespace Pattern

variable {p q : Pattern} {last : Option Char} {s : List Char} {n : Nat} {P : List Char → Prop} {h : Hit}

/-! ## What holds of a part -/

/-- Every text that is kept as part `n` has the property. -/
def Parts (n : Nat) (P : List Char → Prop) : Pattern → Prop
  | seq p q => p.Parts n P ∧ q.Parts n P
  | either p q => p.Parts n P ∧ q.Parts n P
  | group m p => p.Parts n P ∧ (m = n → ∀ last s, ∀ h ∈ p.hits last s, P h.text)
  | _ => True

theorem Parts.of_mem_groups (hp : p.Parts n P) (hh : h ∈ p.hits last s) : ∀ g ∈ h.groups, g.1 = n → P g.2 := by
  induction p generalizing last s h with
  | empty => simp_all [hits]
  | char B =>
    cases s with
    | nil => exact absurd hh List.not_mem_nil
    | cons d s => by_cases hd : B d = true <;> simp_all [hits]
  | many B preference =>
    rw [(of_mem_hits_many hh).1]
    exact fun g hg => absurd hg List.not_mem_nil
  | seq p q ihp ihq =>
    obtain ⟨k, m, hk, hm, rfl⟩ := exists_of_mem_hits_append hh
    intro g hg
    rcases List.mem_append.1 hg with hg | hg
    · exact ihp hp.1 hk g hg
    · exact ihq hp.2 hm g hg
  | either p q ihp ihq =>
    rcases List.mem_append.1 hh with hh | hh
    · exact ihp hp.1 hh
    · exact ihq hp.2 hh
  | group m p ih =>
    obtain ⟨k, hk, rfl⟩ := List.mem_map.1 hh
    intro g hg hn
    rcases List.mem_cons.1 hg with rfl | hg
    · exact hp.2 hn last s k hk
    · exact ih hp.1 hk g hg hn
  | atStart => by_cases hl : last.isNone = true <;> simp_all [hits]
  | atEnd => by_cases he : s.isEmpty = true <;> simp_all [hits]
  | atWordEdge => by_cases he : wordEdge last s = true <;> simp_all [hits]

theorem Parts.of_group?_of_mem (hp : p.Parts n P) (hh : h ∈ p.hits last s) : ∀ t ∈ h.group? n, P t := by
  intro t ht
  obtain ⟨g, hg, rfl⟩ := Option.map_eq_some_iff.1 ht
  exact hp.of_mem_groups hh g (List.mem_of_find?_eq_some hg) (by simpa using List.find?_some hg)

/-- What is found has the property in part `n`, if that took part. -/
theorem Parts.of_group? (hp : p.Parts n P) (hFind : p.find s = some h) : ∀ t ∈ h.group? n, P t := by
  obtain ⟨u, v, -, hHit⟩ := exists_of_findFrom_eq_some hFind
  exact hp.of_group?_of_mem hHit

/-! ## Parts that are there and not empty -/

/-- Whether every hit takes a character. -/
def takesSome : Pattern → Bool
  | char _ => true
  | many _ _ => true
  | seq p q => p.takesSome || q.takesSome
  | either p q => p.takesSome && q.takesSome
  | group _ p => p.takesSome
  | _ => false

theorem text_ne_nil (hp : p.takesSome = true) (hh : h ∈ p.hits last s) : h.text ≠ [] := by
  induction p generalizing last s h with
  | empty => cases hp
  | char B =>
    cases s with
    | nil => exact absurd hh List.not_mem_nil
    | cons d s => by_cases hd : B d = true <;> simp_all [hits]
  | many B preference => exact (of_mem_hits_many hh).2.1
  | seq p q ihp ihq =>
    obtain ⟨k, m, hk, hm, rfl⟩ := exists_of_mem_hits_append hh
    rw [Hit.andThen_text]
    rcases Bool.or_eq_true_iff.1 hp with hp | hp
    · exact List.append_ne_nil_of_left_ne_nil (ihp hp hk) _
    · exact List.append_ne_nil_of_right_ne_nil _ (ihq hp hm)
  | either p q ihp ihq =>
    have hp := Bool.and_eq_true_iff.1 hp
    rcases List.mem_append.1 hh with hh | hh
    · exact ihp hp.1 hh
    · exact ihq hp.2 hh
  | group m p ih =>
    obtain ⟨k, hk, rfl⟩ := List.mem_map.1 hh
    exact ih (h := k) hp hk
  | atStart => cases hp
  | atEnd => cases hp
  | atWordEdge => cases hp

theorem hits_nil (hp : p.takesSome = true) (last : Option Char) : p.hits last [] = [] := by
  rw [List.eq_nil_iff_forall_not_mem]
  intro h hh
  exact text_ne_nil hp hh (List.append_eq_nil_iff.1 (text_append_rest hh)).1

/-- Whether part `n` takes part in every hit, with a character in it. -/
def fills (n : Nat) (p : Pattern) : Bool := always n p && neverEmpty n p
where
  /-- Whether part `n` takes part in every hit. -/
  always (n : Nat) : Pattern → Bool
    | seq p q => always n p || always n q
    | either p q => always n p && always n q
    | group m p => m == n || always n p
    | _ => false
  /-- Whether part `n` has a character in it wherever it takes part. -/
  neverEmpty (n : Nat) : Pattern → Bool
    | seq p q => neverEmpty n p && neverEmpty n q
    | either p q => neverEmpty n p && neverEmpty n q
    | group m p => neverEmpty n p && (m != n || p.takesSome)
    | _ => true

theorem parts_of_neverEmpty (hp : fills.neverEmpty n p = true) : p.Parts n (· ≠ []) := by
  induction p with
  | seq p q ihp ihq =>
    have hp := Bool.and_eq_true_iff.1 hp
    exact ⟨ihp hp.1, ihq hp.2⟩
  | either p q ihp ihq =>
    have hp := Bool.and_eq_true_iff.1 hp
    exact ⟨ihp hp.1, ihq hp.2⟩
  | group m p ih =>
    obtain ⟨hInner, hSome⟩ := Bool.and_eq_true_iff.1 hp
    refine ⟨ih hInner, fun hm last s h hh => text_ne_nil ?_ hh⟩
    simpa [hm] using hSome
  | empty => trivial
  | char => trivial
  | many => trivial
  | atStart => trivial
  | atEnd => trivial
  | atWordEdge => trivial

theorem exists_mem_groups_of_always (hp : fills.always n p = true) (hh : h ∈ p.hits last s) :
    ∃ g ∈ h.groups, g.1 = n := by
  induction p generalizing last s h with
  | seq p q ihp ihq =>
    obtain ⟨k, m, hk, hm, rfl⟩ := exists_of_mem_hits_append hh
    rcases Bool.or_eq_true_iff.1 hp with hp | hp
    · obtain ⟨g, hg, hn⟩ := ihp hp hk
      exact ⟨g, List.mem_append_left _ hg, hn⟩
    · obtain ⟨g, hg, hn⟩ := ihq hp hm
      exact ⟨g, List.mem_append_right _ hg, hn⟩
  | either p q ihp ihq =>
    have hp := Bool.and_eq_true_iff.1 hp
    rcases List.mem_append.1 hh with hh | hh
    · exact ihp hp.1 hh
    · exact ihq hp.2 hh
  | group m p ih =>
    obtain ⟨k, hk, rfl⟩ := List.mem_map.1 hh
    rcases Bool.or_eq_true_iff.1 hp with hm | hp
    · exact ⟨(m, k.text), List.mem_cons_self, beq_iff_eq.1 hm⟩
    · obtain ⟨g, hg, hn⟩ := ih hp hk
      exact ⟨g, List.mem_cons_of_mem _ hg, hn⟩
  | empty => cases hp
  | char => cases hp
  | many => cases hp
  | atStart => cases hp
  | atEnd => cases hp
  | atWordEdge => cases hp

/-- What is found keeps some text as a part that the pattern fills. -/
theorem groupText_ne_nil (hp : p.fills n = true) (hFind : p.find s = some h) : h.groupText n ≠ [] := by
  obtain ⟨hAlways, hNever⟩ := Bool.and_eq_true_iff.1 hp
  obtain ⟨u, v, -, hHit⟩ := exists_of_findFrom_eq_some hFind
  obtain ⟨g, hg, hn⟩ := exists_mem_groups_of_always hAlways hHit
  have hSome : (h.group? n).isSome = true := by
    rw [Hit.group?, Option.isSome_map, List.find?_isSome]
    exact ⟨g, hg, by simpa using hn⟩
  obtain ⟨t, ht⟩ := Option.isSome_iff_exists.1 hSome
  rw [Hit.groupText, ht]
  exact (parts_of_neverEmpty hNever).of_group? hFind t ht

end Pattern

end SqlSurvey
