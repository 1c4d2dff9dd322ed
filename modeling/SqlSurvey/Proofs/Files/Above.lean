import SqlSurvey.Proofs.Files.Path

/-!
# The way up from a path

Cut off where one of its components ends, a path has the components up to there. So the directories above a path are
its parent, the parent of that one, and so on; each has fewer components than the one before, and the way up ends.
-/

namespace SqlSurvey.Path

variable {p q : Path} {l r : List (Component × Nat)} {c : Component} {e start : Nat} {s t n : List Char}

/-! ## Where components end -/

/-- A text is one piece, or a piece with a slash and a text behind it. -/
theorem text_induction {motive : List Char → Prop} (piece : ∀ s, IsPiece s → motive s)
    (slash : ∀ s t, IsPiece s → motive t → motive (s ++ '/' :: t)) (s : List Char) : motive s := by
  induction hLength : s.length using Nat.strongRecOn generalizing s with
  | _ k ih =>
    by_cases hSlash : '/' ∈ s
    · obtain ⟨a, b, rfl, ha⟩ := List.eq_append_cons_of_mem hSlash
      apply slash a b ha
      apply ih b.length _ b rfl
      rw [← hLength, List.length_append, List.length_cons]
      omega
    · exact piece s hSlash

theorem pieces_piece_slash (hs : IsPiece s) (t : List Char) : pieces ⟨s ++ '/' :: t⟩ = s :: pieces ⟨t⟩ := by
  rw [pieces_append_slash, pieces_of_isPiece hs, List.singleton_append]

theorem componentEnds_cons (isFirst : Bool) (start : Nat) (s : List Char) (ss : List (List Char)) :
    componentEnds isFirst start (s :: ss) =
      (component? isFirst s).toList.map (·, start + s.length) ++
        componentEnds false (start + s.length + 1) ss := by
  rw [componentEnds]
  cases component? isFirst s <;> rfl

/-- Behind a slash, components are counted on from there. -/
theorem componentEnds_append_slash (isFirst : Bool) (start : Nat) (s t : List Char) :
    componentEnds isFirst start (pieces ⟨s ++ '/' :: t⟩) =
      componentEnds isFirst start (pieces ⟨s⟩) ++
        componentEnds false (start + s.length + 1) (pieces ⟨t⟩) := by
  induction s using text_induction generalizing isFirst start with
  | piece s hs =>
    rw [pieces_piece_slash hs, pieces_of_isPiece hs, componentEnds_cons, componentEnds_cons]
    simp [componentEnds]
  | slash a b ha ih =>
    have hLength : start + a.length + 1 + b.length + 1 = start + (a ++ '/' :: b).length + 1 := by
      rw [List.length_append, List.length_cons]
      omega
    rw [List.append_assoc, List.cons_append, pieces_piece_slash ha, pieces_piece_slash ha, componentEnds_cons,
      componentEnds_cons, ih, hLength, List.append_assoc]

/-- Each component ends where some text ends that has the components up to that one. -/
theorem exists_of_componentEnds {isFirst : Bool} (h : componentEnds isFirst start (pieces ⟨s⟩) = l ++ (c, e) :: r) :
    ∃ a b, s = a ++ b ∧ e = start + a.length ∧ componentEnds isFirst start (pieces ⟨a⟩) = l ++ [(c, e)] := by
  induction s using text_induction generalizing isFirst start l with
  | piece s hs =>
    refine ⟨s, [], (List.append_nil s).symm, ?_⟩
    rw [pieces_of_isPiece hs, componentEnds_cons] at h ⊢
    cases hComponent : component? isFirst s with
    | none => simp [hComponent, componentEnds] at h
    | some d =>
      rw [hComponent] at h
      -- the one component of the piece is the one that is asked for
      have hOne : [(d, start + s.length)] = l ++ (c, e) :: r := h
      obtain ⟨rfl, hCons⟩ | ⟨l', rfl, hNil⟩ := List.cons_eq_append_iff.1 hOne
      · obtain ⟨hHead, -⟩ := List.cons.inj hCons
        exact ⟨congrArg Prod.snd hHead, by rw [hHead]; rfl⟩
      · simp at hNil
  | slash a b ha ih =>
    rw [pieces_piece_slash ha, componentEnds_cons] at h
    have hBehind : ∀ l', l = (component? isFirst a).toList.map (·, start + a.length) ++ l' →
        componentEnds false (start + a.length + 1) (pieces ⟨b⟩) = l' ++ (c, e) :: r →
        ∃ a' b', a ++ '/' :: b = a' ++ b' ∧ e = start + a'.length ∧
          componentEnds isFirst start (pieces ⟨a'⟩) = l ++ [(c, e)] := by
      rintro l' rfl hRest
      obtain ⟨a', b', rfl, hEnd, hEnds⟩ := ih hRest
      refine ⟨a ++ '/' :: a', b', by simp, ?_, ?_⟩
      · rw [hEnd, List.length_append, List.length_cons]
        omega
      · rw [pieces_piece_slash ha, componentEnds_cons, hEnds, List.append_assoc]
    cases hComponent : component? isFirst a with
    | none =>
      rw [hComponent] at h hBehind
      exact hBehind l rfl h
    | some d =>
      rw [hComponent] at h hBehind
      obtain ⟨rfl, hCons⟩ | ⟨l', rfl, hRest⟩ := List.cons_eq_append_iff.1 h
      · obtain ⟨hHead, -⟩ := List.cons.inj hCons
        refine ⟨a, '/' :: b, rfl, congrArg Prod.snd hHead, ?_⟩
        rw [pieces_of_isPiece ha, componentEnds_cons, hComponent, hHead]
        rfl
      · exact hBehind l' rfl hRest

theorem isAbsolute_take (p : Path) (he : e ≠ 0) : isAbsolute ⟨p.text.take e⟩ = p.isAbsolute := by
  unfold isAbsolute
  rw [List.head?_take, if_neg he]

/-- The components of the empty text are none. -/
theorem componentEnds_nil (isFirst : Bool) (start : Nat) : componentEnds isFirst start (pieces ⟨[]⟩) = [] := by
  cases isFirst <;> rfl

/-- Cut off where a component ends, a path has the components up to that one. -/
theorem ends_take (h : p.ends = l ++ (c, e) :: r) :
    ends ⟨p.text.take e⟩ = l ++ [(c, e)] ∧ 0 < e ∧ e ≤ p.text.length := by
  obtain ⟨text⟩ := p
  have hRelative : ∀ {l : List (Component × Nat)}, componentEnds true 0 (pieces ⟨text⟩) = l ++ (c, e) :: r →
      componentEnds true 0 (pieces ⟨text.take e⟩) = l ++ [(c, e)] ∧ 0 < e ∧ e ≤ text.length := by
    intro l hl
    obtain ⟨a, b, rfl, hEnd, hEnds⟩ := exists_of_componentEnds hl
    rw [Nat.zero_add] at hEnd
    subst hEnd
    have hNe : a ≠ [] := by
      rintro rfl
      rw [componentEnds_nil] at hEnds
      simp at hEnds
    rw [List.take_left' rfl, List.length_append]
    exact ⟨hEnds, List.length_pos_iff.2 hNe, by omega⟩
  unfold ends at h ⊢
  dsimp only at h ⊢
  by_cases hAbsolute : isAbsolute ⟨text⟩ = true
  · rw [if_pos hAbsolute] at h
    obtain ⟨rfl, hCons⟩ | ⟨l', rfl, hRest⟩ := List.cons_eq_append_iff.1 h
    · -- the root directory itself
      obtain ⟨hHead, -⟩ := List.cons.inj hCons
      obtain ⟨rfl, rfl⟩ := Prod.mk.inj hHead
      obtain ⟨x, text, rfl⟩ : ∃ x u, text = x :: u := by
        cases text with
        | nil => exact absurd hAbsolute (by decide)
        | cons x u => exact ⟨x, u, rfl⟩
      obtain rfl : x = '/' := by simpa [isAbsolute] using hAbsolute
      exact ⟨rfl, by omega, by simp⟩
    · obtain ⟨hEnds, hPos, hLe⟩ := hRelative hRest
      refine ⟨?_, hPos, hLe⟩
      rw [isAbsolute_take ⟨text⟩ (by omega), hAbsolute, if_pos rfl, hEnds]
      rfl
  · rw [if_neg hAbsolute] at h
    obtain ⟨hEnds, hPos, hLe⟩ := hRelative h
    refine ⟨?_, hPos, hLe⟩
    rw [isAbsolute_take ⟨text⟩ (by omega), if_neg hAbsolute, hEnds]

/-- Only the empty path has no component. -/
theorem text_of_ends_eq_nil (h : p.ends = []) : p.text = [] := by
  refine Decidable.byContradiction fun hText => ?_
  revert h
  unfold ends
  dsimp only
  by_cases hAbsolute : p.isAbsolute = true
  · rw [if_pos hAbsolute]
    exact List.cons_ne_nil _ _
  · rw [if_neg hAbsolute]
    obtain ⟨x, xs, hx⟩ := List.exists_cons_of_ne_nil p.pieces_ne_nil
    -- the first piece stands for something, or else the path would begin with a slash
    have hNe : x ≠ [] := by
      rintro rfl
      have hHead := p.head?_pieces_eq_nil_iff.1 (by rw [hx]; rfl)
      exact hHead.elim hText hAbsolute
    rw [hx, componentEnds_cons]
    unfold component?
    rw [if_neg hNe]
    split
    · simp
    split
    · simp
    · simp

/-! ## One step up -/

theorem above_of_ends (h : p.ends = l ++ [(c, e)]) :
    p.above = (l.reverse.map fun x => ⟨p.text.take x.2⟩) ++ if p.isAbsolute then [] else [⟨[]⟩] := by
  unfold above
  rw [h]
  simp

theorem above_of_ends_eq_nil (h : p.ends = []) : p.above = [] := by
  unfold above
  rw [h]
  simp

/-- The parent of a path with two components or more is the path without the last of them. -/
theorem parent?_of_ends {d : Component} {k : Nat} (h : p.ends = l ++ [(c, e), (d, k)]) :
    p.parent? = some ⟨p.text.take e⟩ := by
  have hSplit : p.ends = (l ++ [(c, e)]) ++ [(d, k)] := by rw [h, List.append_assoc]; rfl
  unfold parent?
  rw [above_of_ends hSplit, List.reverse_concat]
  rfl

/-- What is above a path is its parent and what is above that. -/
theorem above_eq (p : Path) : p.above = (p.parent?.map fun q => q :: q.above).getD [] := by
  rcases p.ends.eq_nil_or_concat' with hEnds | ⟨l, ⟨d, k⟩, hEnds⟩
  · unfold parent?
    rw [above_of_ends_eq_nil hEnds]
    rfl
  have hAbove := above_of_ends hEnds
  rcases l.eq_nil_or_concat' with rfl | ⟨l, ⟨c, e⟩, rfl⟩
  · -- of one component nothing is left, which is a directory unless it was the root
    unfold parent?
    rw [hAbove]
    by_cases hAbsolute : p.isAbsolute = true
    · rw [if_pos hAbsolute]
      rfl
    · rw [if_neg hAbsolute]
      rfl
  · rw [List.append_assoc, List.singleton_append] at hEnds
    obtain ⟨hTake, hPos, -⟩ := ends_take hEnds
    rw [parent?_of_ends hEnds, Option.map_some, Option.getD_some, above_of_ends hTake,
      isAbsolute_take p (by omega), hAbove, List.reverse_concat, List.map_cons, List.cons_append]
    congr 2
    refine List.map_congr_left fun y hy => ?_
    -- what ends before the last component ends within the path that is cut off there
    obtain ⟨a, b, hSplit⟩ := List.append_of_mem (List.mem_reverse.1 hy)
    have hEnd := (ends_take (p := ⟨p.text.take e⟩) (l := a) (c := y.1) (e := y.2) (r := b ++ [(c, e)])
      (by rw [hTake, hSplit]; simp)).2.2
    rw [List.length_take] at hEnd
    rw [List.take_take, Nat.min_eq_left (by omega)]

/-- A step up takes the last component away, and nothing follows the one that is the last then. -/
theorem ends_of_parent? (h : p.parent? = some q) :
    ∃ x, p.ends = q.ends ++ [x] ∧ ∀ l c e, q.ends = l ++ [(c, e)] → q.text.take e = q.text := by
  rcases p.ends.eq_nil_or_concat' with hEnds | ⟨l, x, hEnds⟩
  · unfold parent? at h
    rw [above_of_ends_eq_nil hEnds] at h
    cases h
  rcases l.eq_nil_or_concat' with rfl | ⟨l, ⟨c, e⟩, rfl⟩
  · unfold parent? at h
    rw [above_of_ends hEnds] at h
    obtain rfl : q = ⟨[]⟩ := by
      by_cases hAbsolute : p.isAbsolute = true
      · simp [hAbsolute] at h
      · simpa [hAbsolute, eq_comm] using h
    exact ⟨x, hEnds, fun _ _ _ _ => List.take_nil⟩
  · have hSplit := hEnds
    rw [List.append_assoc, List.singleton_append] at hSplit
    rw [parent?_of_ends hSplit] at h
    obtain rfl := Option.some.inj h
    have hTake := (ends_take hSplit).1
    refine ⟨x, by rw [hEnds, hTake], fun l' c' e' hLast => ?_⟩
    rw [hTake] at hLast
    obtain ⟨-, hSame⟩ := List.append_inj' hLast rfl
    obtain ⟨rfl, rfl⟩ := Prod.mk.inj (List.cons.inj hSame).1
    rw [List.take_take, Nat.min_self]

/-- A step up takes away a component. -/
theorem length_components_of_parent? (h : p.parent? = some q) : q.components.length < p.components.length := by
  obtain ⟨x, hEnds, -⟩ := ends_of_parent? h
  unfold components
  rw [hEnds]
  simp

/-! ## The way up -/

/-- The directory so many steps above a path. -/
def up? : Nat → Path → Option Path
  | 0, p => some p
  | n + 1, p => p.parent?.bind (up? n)

/-- No more steps lead up than there are components. -/
theorem up?_eq_none {n : Nat} (h : p.components.length < n) : p.up? n = none := by
  induction n generalizing p with
  | zero => omega
  | succ n ih =>
    unfold up?
    cases hParent : p.parent? with
    | none => rfl
    | some q =>
      have hFewer := length_components_of_parent? hParent
      apply ih
      omega

/-! ## Directories without what follows their last component -/

/-- A path up to the end of its last component. -/
def tidy (p : Path) : Path := ⟨p.text.take ((p.ends.getLast?.map Prod.snd).getD 0)⟩

theorem tidy_of_ends (h : p.ends = l ++ [(c, e)]) : p.tidy = ⟨p.text.take e⟩ := by
  unfold tidy
  rw [h, List.getLast?_concat]
  rfl

theorem ends_tidy (p : Path) : p.tidy.ends = p.ends := by
  rcases p.ends.eq_nil_or_concat' with hEnds | ⟨l, x, hEnds⟩
  · unfold tidy
    rw [hEnds]
    rfl
  · rw [tidy_of_ends hEnds, (ends_take hEnds).1, hEnds]

theorem components_tidy (p : Path) : p.tidy.components = p.components := by
  unfold components
  rw [ends_tidy]

theorem text_eq_nil_of_tidy (h : p.tidy.text = []) : p.text = [] := by
  apply text_of_ends_eq_nil
  rw [← ends_tidy]
  obtain hTidy : p.tidy = ⟨[]⟩ := congrArg Path.mk h
  rw [hTidy]
  rfl

/-- A directory above a path ends with its last component. -/
theorem tidy_of_parent? (h : p.parent? = some q) : q.tidy = q := by
  obtain ⟨-, -, hTake⟩ := ends_of_parent? h
  rcases q.ends.eq_nil_or_concat' with hEnds | ⟨l, x, hEnds⟩
  · have hEmpty := text_of_ends_eq_nil hEnds
    obtain ⟨text⟩ := q
    obtain rfl : text = [] := hEmpty
    rfl
  · rw [tidy_of_ends hEnds, hTake l x.1 x.2 hEnds]

theorem tidy_of_up? {m : Nat} (h : p.up? (m + 1) = some q) : q.tidy = q := by
  induction m generalizing p with
  | zero =>
    obtain ⟨d, hParent, hSelf⟩ := Option.bind_eq_some_iff.1 h
    obtain rfl := Option.some.inj hSelf
    exact tidy_of_parent? hParent
  | succ m ih =>
    obtain ⟨d, -, hUp⟩ := Option.bind_eq_some_iff.1 h
    exact ih hUp

theorem child_nil (hn : IsName n) : child ⟨[]⟩ n = ⟨n⟩ := by
  unfold child join
  rw [if_neg (by simp [isAbsolute_of_isPiece hn.isPiece]), if_pos (.inl rfl)]
  rfl

/-- A name in a directory is one component more. -/
theorem ends_child (hn : IsName n) (p : Path) :
    (p.child n).ends = p.ends ++ [(.name n, (p.child n).text.length)] ∧ p.text <+: (p.child n).text := by
  have hNotAbsolute : isAbsolute ⟨n⟩ = false := isAbsolute_of_isPiece hn.isPiece
  have hOne : ∀ isFirst, component? isFirst n = some (.name n) := by
    intro isFirst
    unfold component?
    rw [if_neg hn.ne_nil, if_neg hn.ne_dot, if_neg hn.ne_dots]
  have hLast : ∀ isFirst start,
      componentEnds isFirst start (pieces ⟨n⟩) = [(.name n, start + n.length)] := by
    intro isFirst start
    rw [pieces_of_isPiece hn.isPiece, componentEnds_cons, hOne]
    rfl
  by_cases hEmpty : p.text = []
  · obtain ⟨text⟩ := p
    obtain rfl : text = [] := hEmpty
    refine ⟨?_, List.nil_prefix⟩
    rw [child_nil hn]
    unfold ends
    rw [hNotAbsolute, hLast, Nat.zero_add]
    rfl
  · -- in both ways of writing it, one slash stands before the name
    obtain ⟨a, hText, hEnds, hPrefix⟩ : ∃ a, (p.child n).text = a ++ '/' :: n ∧
        componentEnds true 0 p.pieces = componentEnds true 0 (pieces ⟨a⟩) ∧ p.text <+: a ++ '/' :: n := by
      unfold child join
      rw [if_neg (by simp [hNotAbsolute])]
      by_cases hSlash : p.text.getLast? = some '/'
      · obtain ⟨a, ha⟩ := List.getLast?_eq_some_iff.1 hSlash
        refine ⟨a, ?_, ?_, ?_⟩
        · rw [if_pos (.inr hSlash), ha, List.append_assoc]
          rfl
        · show componentEnds true 0 (pieces ⟨p.text⟩) = _
          rw [ha, componentEnds_append_slash, componentEnds_nil, List.append_nil]
        · rw [ha]
          exact ⟨n, by simp⟩
      · rw [if_neg fun h => h.elim hEmpty hSlash]
        exact ⟨p.text, rfl, rfl, List.prefix_append _ _⟩
    have hAbsolute : (p.child n).isAbsolute = p.isAbsolute := isAbsolute_join hEmpty hNotAbsolute
    refine ⟨?_, hText ▸ hPrefix⟩
    have hLength : (p.child n).text.length = 0 + a.length + 1 + n.length := by
      rw [hText, List.length_append, List.length_cons]
      omega
    have hJoined : componentEnds true 0 (p.child n).pieces =
        componentEnds true 0 p.pieces ++ [(.name n, (p.child n).text.length)] := by
      show componentEnds true 0 (pieces ⟨(p.child n).text⟩) = _
      rw [hLength, hText, componentEnds_append_slash, hLast, hEnds]
    unfold ends
    dsimp only
    rw [hAbsolute, hJoined]
    by_cases hp : p.isAbsolute = true
    · rw [if_pos hp, if_pos hp]
      rfl
    · rw [if_neg hp, if_neg hp]

/-- A name is taken away again on the step up, with all that follows the last component of its directory. -/
theorem parent?_child (hn : IsName n) (p : Path) : (p.child n).parent? = some p.tidy := by
  obtain ⟨hEnds, a, ha⟩ := ends_child hn p
  rcases p.ends.eq_nil_or_concat' with hSplit | ⟨l, ⟨c, e⟩, hSplit⟩
  · have hEmpty := text_of_ends_eq_nil hSplit
    obtain ⟨text⟩ := p
    obtain rfl : text = [] := hEmpty
    have hRelative : (child ⟨[]⟩ n).isAbsolute = false := by
      rw [child_nil hn, isAbsolute_of_isPiece hn.isPiece]
    rw [hSplit] at hEnds
    unfold parent?
    rw [above_of_ends (l := []) hEnds, hRelative]
    rfl
  · rw [hSplit, List.append_assoc, List.singleton_append] at hEnds
    have hLe := (ends_take hSplit).2.2
    rw [parent?_of_ends hEnds, tidy_of_ends hSplit, ← ha, List.take_append_of_le_length hLe]

end SqlSurvey.Path
