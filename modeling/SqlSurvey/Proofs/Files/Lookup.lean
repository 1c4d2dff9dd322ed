import SqlSurvey.Files.Tree
import SqlSurvey.Proofs.Files.Path

/-!
# Where paths lead in a tree

In a tree that is well formed, only directories hold something, and each place has one entry. Then a file is found
below a directory by the names on the way to it.
-/

namespace SqlSurvey.FileTree

open SqlSurvey.Path

variable {t : FileTree} {p q : Path} {m place : Place} {n : List Char} {ss : List (List Char)} {r : Place}

/-- The entries have names that a file may have, there is one entry for a place, and only a directory has entries
below it. -/
structure WellFormed (t : FileTree) : Prop where
  names : ∀ e ∈ t.entries, ∀ n ∈ e.1, IsName n
  nodup : (t.entries.map Prod.fst).Nodup
  directory : ∀ e ∈ t.entries, ∀ f ∈ t.entries, e.1 <+: f.1 → e.1 ≠ f.1 → e.2 = .directory

/-- Whether a file is at a place. -/
def isFileAt (t : FileTree) (q : Place) : Bool := (t.at? q).any Entry.isFile

/-! ## What is at a place -/

theorem at?_of_mem (ht : t.WellFormed) {e : Place × Entry} (he : e ∈ t.entries) : t.at? e.1 = some e.2 := by
  have hFind : t.entries.find? (fun f => f.1 == e.1) = some e := by
    have hNodup := ht.nodup
    generalize t.entries = es at he hNodup
    induction es with
    | nil => exact absurd he List.not_mem_nil
    | cons f es ih =>
      rw [List.map_cons, List.nodup_cons] at hNodup
      rcases List.mem_cons.1 he with rfl | he
      · rw [List.find?_cons_of_pos (by simp)]
      · have hNe : f.1 ≠ e.1 := fun hEq => hNodup.1 (hEq ▸ List.mem_map_of_mem he)
        rw [List.find?_cons_of_neg (by simpa using hNe)]
        exact ih he hNodup.2
  rw [at?, hFind]

/-- A file has an entry of its own. -/
theorem exists_of_isFileAt (h : t.isFileAt m = true) : ∃ e ∈ t.entries, e.1 = m ∧ e.2.isFile = true := by
  unfold isFileAt at? at h
  cases hFind : t.entries.find? fun e => e.1 == m with
  | none =>
    rw [hFind] at h
    dsimp only at h
    split at h
    · cases h
    · cases h
  | some e =>
    rw [hFind] at h
    exact ⟨e, List.mem_of_find?_eq_some hFind, by simpa using List.find?_some hFind, h⟩

/-- What a file is in is a directory. -/
theorem at?_of_isFileAt (ht : t.WellFormed) (h : t.isFileAt (m ++ n :: r) = true) : t.at? m = some .directory := by
  obtain ⟨e, he, hPlace, -⟩ := exists_of_isFileAt h
  have hPrefix : m <+: e.1 := hPlace ▸ List.prefix_append m (n :: r)
  have hNe : m ≠ e.1 := by
    intro hEq
    rw [hPlace] at hEq
    exact absurd (List.self_eq_append_right.1 hEq) (by simp)
  unfold at?
  cases hFind : t.entries.find? fun f => f.1 == m with
  | none =>
    have hAny : (t.entries.any fun f => m.isPrefixOf f.1) = true :=
      List.any_eq_true.2 ⟨e, he, List.isPrefixOf_iff_prefix.2 hPrefix⟩
    simp [hAny]
  | some f =>
    have hf : f.1 = m := by simpa using List.find?_some hFind
    have hDirectory := ht.directory f (List.mem_of_find?_eq_some hFind) e he (hf ▸ hPrefix) (hf ▸ hNe)
    exact congrArg some hDirectory

/-- The files below a place are the files whose places begin with it. -/
theorem mem_filesBelow (ht : t.WellFormed) : r ∈ t.filesBelow place ↔ t.isFileAt (place ++ r) = true := by
  unfold filesBelow
  rw [List.mem_filterMap]
  constructor
  · rintro ⟨e, he, hr⟩
    split at hr
    · rename_i hFile
      have hPlace : place ++ r = e.1 := List.isPrefixOf?_eq_some_iff_append_eq.1 hr
      rw [isFileAt, hPlace, at?_of_mem ht he]
      exact hFile
    · cases hr
  · intro h
    obtain ⟨e, he, hPlace, hFile⟩ := exists_of_isFileAt h
    refine ⟨e, he, ?_⟩
    rw [if_pos hFile]
    exact List.isPrefixOf?_eq_some_iff_append_eq.2 hPlace.symm

theorem isName_of_isFileAt (ht : t.WellFormed) (h : t.isFileAt (m ++ r) = true) : ∀ n ∈ r, IsName n := by
  obtain ⟨e, he, hPlace, -⟩ := exists_of_isFileAt h
  intro n hn
  exact ht.names e he n (hPlace ▸ List.mem_append_right m hn)

theorem isFile_eq_any (t : FileTree) (p : Path) : t.isFile p = (t.place? p).any t.isFileAt := by
  unfold isFile entry?
  cases t.place? p <;> rfl

/-! ## Following pieces -/

theorem follow_append (t : FileTree) (as bs : List (List Char)) (m : Place) :
    t.follow (as ++ bs) m = (t.follow as m).bind (t.follow bs) := by
  induction as generalizing m with
  | nil => rfl
  | cons a as ih =>
    rw [List.cons_append, follow, follow]
    split
    · split
      · exact ih m
      split
      · exact ih _
      · exact ih _
    · rfl

theorem follow_name (hn : IsName n) (hDirectory : t.at? m = some .directory) : t.follow [n] m = some (m ++ [n]) := by
  rw [follow, if_pos hDirectory, if_neg fun h => h.elim hn.ne_nil hn.ne_dot, if_neg hn.ne_dots, follow]

/-- Empty pieces and single dots lead nowhere else. -/
theorem follow_of_staying (hss : ∀ s ∈ ss, s = [] ∨ s = ['.']) (hDirectory : t.at? m = some .directory) :
    t.follow ss m = some m := by
  induction ss with
  | nil => rfl
  | cons s ss ih =>
    rw [follow, if_pos hDirectory, if_pos (hss s List.mem_cons_self)]
    exact ih fun u hu => hss u (List.mem_cons_of_mem s hu)

/-- What is followed begins in a directory. -/
theorem at?_of_follow (h : t.follow ss m = some place) (hss : ss ≠ []) : t.at? m = some .directory := by
  obtain ⟨s, ss, rfl⟩ := List.exists_cons_of_ne_nil hss
  rw [follow] at h
  split at h
  · assumption
  · cases h

/-- An empty piece at the end leads nowhere else. -/
theorem follow_of_append_nil (h : t.follow (ss ++ [[]]) m = some place) : t.follow ss m = some place := by
  rw [follow_append] at h
  obtain ⟨q, hq, hEnd⟩ := Option.bind_eq_some_iff.1 h
  rw [follow] at hEnd
  split at hEnd
  · rw [if_pos (.inl rfl), follow] at hEnd
    rw [hq, hEnd]
  · cases hEnd

/-- The empty path leads nowhere. -/
theorem text_ne_nil_of_place? (h : t.place? p = some m) : p.text ≠ [] := by
  intro hNil
  rw [place?, if_pos hNil] at h
  cases h

/-- From where a path leads, the pieces of what is joined to it are followed. -/
theorem place?_join (hp : t.place? p = some m) (hq : q.isAbsolute = false) :
    t.place? (p.join q) = t.follow q.pieces m := by
  have hText := text_ne_nil_of_place? hp
  obtain ⟨ss, -, hPieces, hJoin⟩ := exists_pieces_join hText hq
  rw [place?, if_neg hText] at hp
  have hFirst : t.follow ss (if p.isAbsolute then [] else t.workingDirectory) = some m := by
    rcases hPieces with hPieces | hPieces
    · rw [← hPieces]
      exact hp
    · rw [hPieces] at hp
      exact follow_of_append_nil hp
  rw [place?, if_neg (text_join_ne_nil hText hq), isAbsolute_join hText hq, hJoin, follow_append, hFirst,
    Option.bind_some]

/-- Names and single dots lead nowhere else than the names do. -/
theorem eq_of_follow (hss : ∀ s ∈ ss, IsName s ∨ s = ['.']) (h : t.follow ss m = some place) :
    place = m ++ ss.filter (· != ['.']) := by
  induction ss generalizing m with
  | nil =>
    rw [follow, Option.some.injEq] at h
    rw [← h, List.filter_nil, List.append_nil]
  | cons s ss ih =>
    have hRest := fun {m} => ih (m := m) fun u hu => hss u (List.mem_cons_of_mem s hu)
    rw [follow] at h
    split at h
    · rcases hss s List.mem_cons_self with hs | rfl
      · have hKept : (s != ['.']) = true := by simpa using hs.ne_dot
        rw [if_neg fun h => h.elim hs.ne_nil hs.ne_dot, if_neg hs.ne_dots] at h
        rw [hRest h, List.filter_cons, if_pos hKept, List.append_assoc]
        rfl
      · rw [if_pos (.inr rfl)] at h
        rw [hRest h, List.filter_cons_of_neg (by simp)]
    · cases h

/-- The names on the way to a file lead to it, with single dots between them or not. -/
theorem follow_append_name (ht : t.WellFormed) (hss : ∀ s ∈ ss, IsName s ∨ s = ['.']) (hn : IsName n)
    (h : t.isFileAt (m ++ (ss.filter (· != ['.']) ++ [n])) = true) :
    t.follow (ss ++ [n]) m = some (m ++ (ss.filter (· != ['.']) ++ [n])) := by
  induction ss generalizing m with
  | nil => exact follow_name hn (at?_of_isFileAt ht h)
  | cons s ss ih =>
    have hRest := fun {m} => ih (m := m) fun u hu => hss u (List.mem_cons_of_mem s hu)
    have hDirectory : t.at? m = some .directory := by
      obtain ⟨x, xs, hx⟩ := List.exists_cons_of_ne_nil
        (List.append_ne_nil_of_right_ne_nil ((s :: ss).filter (· != ['.'])) (List.cons_ne_nil n []))
      rw [hx] at h
      exact at?_of_isFileAt ht h
    rw [List.cons_append, follow, if_pos hDirectory]
    rcases hss s List.mem_cons_self with hs | rfl
    · have hKept : (s != ['.']) = true := by simpa using hs.ne_dot
      rw [List.filter_cons, if_pos hKept, List.cons_append, List.append_cons] at h
      rw [if_neg fun h => h.elim hs.ne_nil hs.ne_dot, if_neg hs.ne_dots, hRest h, List.filter_cons, if_pos hKept,
        List.cons_append, ← List.append_cons]
    · rw [List.filter_cons_of_neg (by simp)] at h ⊢
      rw [if_pos (.inr rfl)]
      exact hRest h

/-- A file is found by names and single dots exactly if it is at the place that the names lead to. -/
theorem any_isFileAt_follow (ht : t.WellFormed) (hss : ∀ s ∈ ss, IsName s ∨ s = ['.']) (hn : IsName n) :
    (t.follow (ss ++ [n]) m).any t.isFileAt = t.isFileAt (m ++ (ss.filter (· != ['.']) ++ [n])) := by
  have hKept : [n].filter (· != ['.']) = [n] := List.filter_eq_self.2 (by simpa using hn.ne_dot)
  rw [Bool.eq_iff_iff, Option.any_eq_true]
  constructor
  · rintro ⟨q, hq, hFile⟩
    have hAll : ∀ s ∈ ss ++ [n], IsName s ∨ s = ['.'] :=
      List.forall_mem_append.2 ⟨hss, by simpa using .inl hn⟩
    rw [eq_of_follow hAll hq, List.filter_append, hKept] at hFile
    exact hFile
  · exact fun h => ⟨_, follow_append_name ht hss hn h, h⟩

/-- The names on the way to a file lead to it. -/
theorem follow_of_isFileAt (ht : t.WellFormed) (h : t.isFileAt (m ++ r) = true) : t.follow r m = some (m ++ r) := by
  induction r generalizing m with
  | nil => rw [follow, List.append_nil]
  | cons n r ih =>
    have hn := isName_of_isFileAt ht h n List.mem_cons_self
    rw [follow, if_pos (at?_of_isFileAt ht h), if_neg fun h => h.elim hn.ne_nil hn.ne_dot, if_neg hn.ne_dots, ih]
    · simp
    · simpa using h

end SqlSurvey.FileTree
