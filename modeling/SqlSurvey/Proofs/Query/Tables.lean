import SqlSurvey.Query.Basic
import SqlSurvey.Proofs.FirstSeen
import SqlSurvey.Proofs.Ddl.Layout
import SqlSurvey.Proofs.Pattern.FindAll

/-!
# The tables of a query and its layout

A query touches the same tables however it is laid out: the patterns that look for them begin with keywords and end
with a word, so they see no difference between one blank and many.
-/

namespace SqlSurvey.Query

open Pattern

/-! ## The patterns -/

/-- Keywords after which a word can be looked for. -/
structure LeadsIn (k : Pattern) : Prop where
  stable : k.Stable
  refuses : k.Refuses Text.isBlank
  forward : k.Forward
  solid : ∀ n, k.KeepsSolid n

theorem leadsIn_keyword {word : String} (h : Ddl.isPhraseWord word = true) : LeadsIn (keyword word.toList) where
  stable := Ddl.stable_word h
  refuses := Ddl.refuses_word h
  forward := forward_keyword _
  solid n := Ddl.keepsSolid_keyword n _

/-- Keywords one after the other. -/
theorem LeadsIn.append {k m : Pattern} (hk : LeadsIn k) (hm : LeadsIn m) : LeadsIn (k ++ blanks ++ m) where
  stable := Ddl.stable_blanks hk.stable hm.stable hm.refuses
  refuses := (hk.refuses.append _).append _
  forward := ⟨⟨hk.forward, trivial⟩, hm.forward⟩
  solid n := ⟨⟨hk.solid n, trivial⟩, hm.solid n⟩

/-- Keywords with a keyword and a word between that may be left out. -/
theorem LeadsIn.append_maybe {k m o : Pattern} (hk : LeadsIn k) (ho : LeadsIn o) (hm : LeadsIn m) :
    LeadsIn (k ++ blanks ++ maybe (o ++ blanks ++ word ++ blanks) ++ m) where
  stable := by
    have hWord : (o ++ blanks ++ word).Stable := Ddl.stable_blanks ho.stable Ddl.stable_wordRun Ddl.refuses_wordRun
    exact Ddl.stable_blanks_maybe hk.stable (hWord.append_loose loose_blanks)
      (((ho.refuses.append _).append _).append _) hm.stable hm.refuses
  refuses := ((hk.refuses.append _).append _).append _
  forward := ⟨⟨⟨hk.forward, trivial⟩, ⟨⟨⟨ho.forward, trivial⟩, trivial⟩, trivial⟩, trivial⟩, hm.forward⟩
  solid n := ⟨⟨⟨hk.solid n, trivial⟩, ⟨⟨⟨ho.solid n, trivial⟩, trivial⟩, trivial⟩, trivial⟩, hm.solid n⟩

theorem LeadsIn.advances {k : Pattern} (hk : LeadsIn k) : (afterKeywords k).Advances where
  forward := ⟨⟨hk.forward, trivial⟩, trivial⟩
  takesSome := Bool.or_true _

/-- The words after keywords are the same in the collapsed text. -/
theorem LeadsIn.foundBy_collapse {k : Pattern} (hk : LeadsIn k) (sql : List Char) :
    foundBy (Text.collapse sql) (afterKeywords k) = foundBy sql (afterKeywords k) := by
  have hWord : ∀ c, Text.isBlank c = true → Text.isWordChar c = false := fun c hc => Text.isWordChar_of_isBlank hc
  have hStable : (afterKeywords k).Stable :=
    Ddl.stable_blanks hk.stable (Ddl.stable_wordRun.group 1) (Ddl.refuses_group Ddl.refuses_wordRun 1)
  have hSolid : (afterKeywords k).KeepsSolid 1 := ⟨⟨hk.solid 1, trivial⟩, trivial, fun _ => hWord⟩
  exact hk.advances.map_groupText_findAll_collapse hStable ((hk.refuses.append _).append _) hSolid hWord
    (Ddl.refuses_group Ddl.refuses_wordRun 1) rfl sql

theorem exists_leadsIn_of_mem_tablePatterns {p : Pattern} (hp : p ∈ tablePatterns) :
    ∃ k, LeadsIn k ∧ p = afterKeywords k := by
  have hFrom : LeadsIn (keyword "FROM".toList) := leadsIn_keyword (by decide)
  have hInsert : LeadsIn (keyword "INSERT".toList) := leadsIn_keyword (by decide)
  have hOr : LeadsIn (keyword "OR".toList) := leadsIn_keyword (by decide)
  have hInto : LeadsIn (keyword "INTO".toList) := leadsIn_keyword (by decide)
  have hDelete : LeadsIn (keyword "DELETE".toList) := leadsIn_keyword (by decide)
  simp only [tablePatterns, List.mem_cons, List.not_mem_nil, or_false] at hp
  rcases hp with rfl | rfl | rfl | rfl | rfl
  · exact ⟨_, hFrom, rfl⟩
  · exact ⟨_, leadsIn_keyword (by decide), rfl⟩
  · exact ⟨_, hInsert.append_maybe hOr hInto, rfl⟩
  · exact ⟨_, leadsIn_keyword (by decide), rfl⟩
  · exact ⟨_, hDelete.append hFrom, rfl⟩

theorem advances_of_mem_tablePatterns {p : Pattern} (hp : p ∈ tablePatterns) : p.Advances := by
  obtain ⟨k, hk, rfl⟩ := exists_leadsIn_of_mem_tablePatterns hp
  exact hk.advances

/-- The text of a query and the text that is shown for it touch the same tables. -/
theorem tables_collapse (sql : List Char) : tables (Text.collapse sql) = tables sql := by
  rw [tables, tables]
  refine congrArg distinct (List.flatMap_congr fun p hp => ?_)
  obtain ⟨k, hk, rfl⟩ := exists_leadsIn_of_mem_tablePatterns hp
  exact hk.foundBy_collapse sql

/-! ## Each table once -/

theorem distinct_eq_eraseDups {α : Type} [BEq α] [LawfulBEq α] (xs : List α) : distinct xs = xs.eraseDups := by
  classical
  induction xs using List.reverseRecOn with
  | nil => rfl
  | append_singleton xs x ih =>
    rw [eraseDups_concat, ← ih, distinct, List.foldl_append, List.foldl_cons, List.foldl_nil, ← distinct]
    simp only [List.contains_iff_mem]

/-- Members that are there already add nothing. -/
theorem distinct_append_of_subset {α : Type} [BEq α] [LawfulBEq α] {xs ys : List α} (h : ys ⊆ xs) :
    distinct (xs ++ ys) = distinct xs := by
  classical
  induction ys using List.reverseRecOn with
  | nil => rw [List.append_nil]
  | append_singleton ys y ih =>
    obtain ⟨hys, hy⟩ := List.append_subset.1 h
    have hMem : y ∈ (xs ++ ys).eraseDups := List.mem_eraseDups.2 (List.mem_append_left ys (hy List.mem_cons_self))
    rw [← ih hys, distinct_eq_eraseDups, distinct_eq_eraseDups, ← List.append_assoc, eraseDups_concat, if_pos hMem]

end SqlSurvey.Query
