import SqlSurvey.Files.Path
import Mathlib.Data.List.Basic

/-!
# Paths and their pieces

What the components of a path are in terms of the texts between its slashes, and what joining does to both. A
single dot at the beginning is the one component that two ways of writing a path may differ in.
-/

namespace SqlSurvey.Path

variable {p q : Path} {s piece : List Char} {ss : List (List Char)}

/-! ## Pieces -/

/-- A text that may stand between two slashes. -/
def IsPiece (s : List Char) : Prop := '/' ∉ s

/-- A name that something may have in a directory. -/
structure IsName (s : List Char) : Prop where
  ne_nil : s ≠ []
  isPiece : IsPiece s
  ne_dot : s ≠ ['.']
  ne_dots : s ≠ ['.', '.']

instance (s : List Char) : Decidable (IsPiece s) := inferInstanceAs (Decidable (¬ _))

instance (s : List Char) : Decidable (IsName s) :=
  decidable_of_iff (s ≠ [] ∧ IsPiece s ∧ s ≠ ['.'] ∧ s ≠ ['.', '.'])
    ⟨fun ⟨hNil, hPiece, hDot, hDots⟩ => ⟨hNil, hPiece, hDot, hDots⟩,
      fun h => ⟨h.ne_nil, h.isPiece, h.ne_dot, h.ne_dots⟩⟩

theorem pieces_ne_nil (p : Path) : p.pieces ≠ [] := List.splitOnP_ne_nil _ _

theorem pieces_cons (c : Char) (s : List Char) :
    pieces ⟨c :: s⟩ = if c = '/' then [] :: pieces ⟨s⟩ else (pieces ⟨s⟩).modifyHead (c :: ·) := by
  unfold pieces
  rw [List.splitOnP_cons_eq_if_modifyHead]
  by_cases hc : c = '/' <;> simp [hc]

theorem pieces_of_isPiece (h : IsPiece s) : pieces ⟨s⟩ = [s] := by
  refine List.splitOnP_eq_singleton fun c hc => ?_
  rw [beq_eq_false_iff_ne]
  rintro rfl
  exact h hc

theorem pieces_append_slash (a b : List Char) : pieces ⟨a ++ '/' :: b⟩ = pieces ⟨a⟩ ++ pieces ⟨b⟩ :=
  List.splitOnP_append_cons _ _ rfl

theorem isPiece_of_mem_pieces (h : piece ∈ p.pieces) : IsPiece piece := by
  obtain ⟨text⟩ := p
  induction text generalizing piece with
  | nil =>
    obtain rfl : piece = [] := List.mem_singleton.1 h
    exact List.not_mem_nil
  | cons c text ih =>
    rw [pieces_cons] at h
    obtain ⟨x, xs, hx⟩ := List.exists_cons_of_ne_nil (pieces_ne_nil ⟨text⟩)
    rw [hx] at h ih
    by_cases hc : c = '/'
    · rw [if_pos hc] at h
      rcases List.mem_cons.1 h with rfl | h
      · exact List.not_mem_nil
      · exact ih h
    · rw [if_neg hc, List.modifyHead_cons] at h
      rcases List.mem_cons.1 h with rfl | h
      · intro hMem
        rcases List.mem_cons.1 hMem with hEq | hMem
        · exact hc hEq.symm
        · exact ih List.mem_cons_self hMem
      · exact ih (List.mem_cons_of_mem x h)

/-- With a slash at its end, a path is its pieces with a slash behind each. -/
theorem text_append_slash (p : Path) : p.text ++ ['/'] = p.pieces.flatMap fun s => s ++ ['/'] := by
  obtain ⟨text⟩ := p
  induction text with
  | nil => rfl
  | cons c text ih =>
    obtain ⟨x, xs, hx⟩ := List.exists_cons_of_ne_nil (pieces_ne_nil ⟨text⟩)
    rw [pieces_cons, List.cons_append, ih, hx]
    by_cases hc : c = '/'
    · rw [if_pos hc, hc]
      rfl
    · rw [if_neg hc]
      rfl

theorem pieces_flatMap_slash (h : ∀ s ∈ ss, IsPiece s) : pieces ⟨ss.flatMap fun s => s ++ ['/']⟩ = ss ++ [[]] := by
  induction ss with
  | nil => rfl
  | cons s ss ih =>
    rw [List.flatMap_cons, List.append_assoc, List.singleton_append, pieces_append_slash,
      pieces_of_isPiece (h s List.mem_cons_self), ih fun t ht => h t (List.mem_cons_of_mem s ht)]
    rfl

/-- An absolute path begins with an empty piece, and only an empty path and an absolute one do. -/
theorem head?_pieces_eq_nil_iff (p : Path) : p.pieces.head? = some [] ↔ p.text = [] ∨ p.isAbsolute = true := by
  obtain ⟨text⟩ := p
  cases text with
  | nil => exact iff_of_true rfl (.inl rfl)
  | cons c text =>
    obtain ⟨x, xs, hx⟩ := List.exists_cons_of_ne_nil (pieces_ne_nil ⟨text⟩)
    rw [pieces_cons, hx]
    by_cases hc : c = '/'
    · simp [hc, isAbsolute]
    · simp [hc, isAbsolute]

/-! ## Components -/

/-- The components of a path without the single dot it may begin with. -/
def named (p : Path) : List Component :=
  (if p.isAbsolute then [.root] else []) ++ p.pieces.filterMap (component? false)

theorem named_of_relative (h : p.isAbsolute = false) : p.named = p.pieces.filterMap (component? false) := by
  rw [named, h, if_neg Bool.false_ne_true, List.nil_append]

theorem componentEnds_false (start : Nat) (ss : List (List Char)) :
    (componentEnds false start ss).map Prod.fst = ss.filterMap (component? false) := by
  induction ss generalizing start with
  | nil => rfl
  | cons s ss ih =>
    rw [componentEnds, List.filterMap_cons]
    cases component? false s with
    | none => exact ih _
    | some c => exact congrArg (c :: ·) (ih _)

theorem component?_true (piece : List Char) :
    component? true piece = if piece = ['.'] then some .here else component? false piece := by
  unfold component?
  by_cases hDot : piece = ['.']
  · subst hDot
    rfl
  · simp [hDot]

/-- The components are a single dot, if the path begins with one, and the others. -/
theorem components_eq (p : Path) :
    p.components = (if p.pieces.head? = some ['.'] then [.here] else []) ++ p.named := by
  obtain ⟨x, xs, hx⟩ := List.exists_cons_of_ne_nil p.pieces_ne_nil
  have hRelative : (componentEnds true 0 p.pieces).map Prod.fst =
      (if x = ['.'] then [.here] else []) ++ p.pieces.filterMap (component? false) := by
    rw [hx, componentEnds, component?_true, List.filterMap_cons]
    by_cases hDot : x = ['.']
    · rw [if_pos hDot, if_pos hDot, hDot]
      exact congrArg (Component.here :: ·) (componentEnds_false _ _)
    · rw [if_neg hDot, if_neg hDot]
      cases component? false x with
      | none => exact componentEnds_false _ _
      | some c => exact congrArg (c :: ·) (componentEnds_false _ _)
  have hHead : p.pieces.head? = some ['.'] ↔ x = ['.'] := by rw [hx, List.head?_cons, Option.some.injEq]
  simp only [components, ends, named, hHead]
  by_cases hAbsolute : p.isAbsolute = true
  · -- the first piece of an absolute path is empty
    have hNil : x = [] := by
      have hHead := p.head?_pieces_eq_nil_iff.2 (.inr hAbsolute)
      rw [hx, List.head?_cons, Option.some.injEq] at hHead
      exact hHead
    rw [if_pos hAbsolute, if_pos hAbsolute, List.map_cons, hRelative, hNil]
    rfl
  · rw [if_neg hAbsolute, if_neg hAbsolute, hRelative]
    rfl

theorem component?_eq_some_name_iff {piece n : List Char} (hn : IsName n) :
    component? false piece = some (.name n) ↔ piece = n := by
  unfold component?
  constructor
  · intro h
    split at h
    · cases h
    split at h
    · cases h
    split at h
    · cases h
    · exact Component.name.inj (Option.some.inj h)
  · rintro rfl
    rw [if_neg hn.ne_nil, if_neg hn.ne_dot, if_neg hn.ne_dots]

theorem component?_of_isName (h : IsName s) : component? false s = some (.name s) :=
  (component?_eq_some_name_iff h).2 rfl

theorem filterMap_component?_of_isName (h : ∀ s ∈ ss, IsName s) :
    ss.filterMap (component? false) = ss.map .name := by
  rw [← List.filterMap_eq_map]
  exact List.filterMap_congr fun s hs => component?_of_isName (h s hs)

/-- A single dot is no component of the rest of a path. -/
theorem here_not_mem_named (p : Path) : .here ∉ p.named := by
  intro h
  rcases List.mem_append.1 h with h | h
  · by_cases hAbsolute : p.isAbsolute = true <;> simp [hAbsolute] at h
  · obtain ⟨piece, -, hPiece⟩ := List.mem_filterMap.1 h
    unfold component? at hPiece
    split at hPiece
    · cases hPiece
    split at hPiece
    · cases hPiece
    split at hPiece <;> cases hPiece

/-- A name is a component exactly if it is a piece. -/
theorem name_mem_named_iff {n : List Char} (hn : IsName n) : .name n ∈ p.named ↔ n ∈ p.pieces := by
  have hRoot : Component.name n ∉ (if p.isAbsolute then [Component.root] else []) := by
    by_cases hAbsolute : p.isAbsolute = true <;> simp [hAbsolute]
  rw [named, List.mem_append, List.mem_filterMap]
  constructor
  · rintro (h | ⟨piece, hPiece, h⟩)
    · exact absurd h hRoot
    · rw [(component?_eq_some_name_iff hn).1 h] at hPiece
      exact hPiece
  · exact fun h => .inr ⟨n, h, component?_of_isName hn⟩

/-! ## Joining -/

theorem isAbsolute_of_isPiece (h : IsPiece s) : isAbsolute ⟨s⟩ = false := by
  unfold isAbsolute
  rw [beq_eq_false_iff_ne]
  intro hHead
  exact h (List.mem_of_mem_head? hHead)

/-- Joining puts the pieces one after the other, where an empty one at the end of the first path is left out. -/
theorem exists_pieces_join (hp : p.text ≠ []) (hq : q.isAbsolute = false) :
    ∃ ss, ss ≠ [] ∧ (p.pieces = ss ∨ p.pieces = ss ++ [[]]) ∧ (p.join q).pieces = ss ++ q.pieces := by
  unfold join
  rw [hq, if_neg Bool.false_ne_true]
  by_cases hSlash : p.text.getLast? = some '/'
  · rw [if_pos (.inr hSlash)]
    obtain ⟨a, ha⟩ := List.getLast?_eq_some_iff.1 hSlash
    refine ⟨pieces ⟨a⟩, pieces_ne_nil _, .inr ?_, ?_⟩
    · show pieces ⟨p.text⟩ = _
      rw [ha, pieces_append_slash]
      rfl
    · rw [ha, List.append_assoc]
      exact pieces_append_slash a q.text
  · have hNot : ¬ (p.text = [] ∨ p.text.getLast? = some '/') := fun h => h.elim hp hSlash
    rw [if_neg hNot]
    exact ⟨p.pieces, p.pieces_ne_nil, .inl rfl, pieces_append_slash p.text q.text⟩

theorem text_join_ne_nil (hp : p.text ≠ []) (hq : q.isAbsolute = false) : (p.join q).text ≠ [] := by
  unfold join
  rw [hq, if_neg Bool.false_ne_true]
  split <;> simp [hp]

theorem isAbsolute_join (hp : p.text ≠ []) (hq : q.isAbsolute = false) : (p.join q).isAbsolute = p.isAbsolute := by
  obtain ⟨c, t, ht⟩ := List.exists_cons_of_ne_nil hp
  unfold join
  rw [hq, if_neg Bool.false_ne_true]
  split <;> simp [isAbsolute, ht]

theorem head?_pieces_join (hp : p.text ≠ []) (hq : q.isAbsolute = false) :
    (p.join q).pieces.head? = p.pieces.head? := by
  obtain ⟨ss, hNe, hPieces, hJoin⟩ := exists_pieces_join hp hq
  rw [hJoin, List.head?_append_of_ne_nil _ hNe]
  rcases hPieces with hPieces | hPieces
  · rw [hPieces]
  · rw [hPieces, List.head?_append_of_ne_nil _ hNe]

theorem named_join (hp : p.text ≠ []) (hq : q.isAbsolute = false) :
    (p.join q).named = p.named ++ q.pieces.filterMap (component? false) := by
  obtain ⟨ss, -, hPieces, hJoin⟩ := exists_pieces_join hp hq
  have hFirst : p.pieces.filterMap (component? false) = ss.filterMap (component? false) := by
    rcases hPieces with hPieces | hPieces
    · rw [hPieces]
    · rw [hPieces, List.filterMap_append]
      exact List.append_nil _
  rw [named, named, isAbsolute_join hp hq, hJoin, List.filterMap_append, hFirst, List.append_assoc]

/-- Joining goes on from the components of a path. -/
theorem components_join (hp : p.text ≠ []) (hq : q.isAbsolute = false) :
    (p.join q).components = p.components ++ q.pieces.filterMap (component? false) := by
  rw [components_eq, components_eq, head?_pieces_join hp hq, named_join hp hq, List.append_assoc]

/-- Joining two paths one after the other is joining them with a slash between, if the first of them does not end with
one. -/
theorem join_join (hq : q.isAbsolute = false) (hNe : q.text ≠ []) (hEnd : q.text.getLast? ≠ some '/')
    (hs : IsPiece s) : (p.join q).join ⟨s⟩ = p.join ⟨q.text ++ '/' :: s⟩ := by
  have hBoth : isAbsolute ⟨q.text ++ '/' :: s⟩ = false := by
    obtain ⟨c, t, ht⟩ := List.exists_cons_of_ne_nil hNe
    rw [isAbsolute, ht] at hq
    rw [isAbsolute, ht]
    exact hq
  have hLast : ∀ a : List Char, (a ++ q.text).getLast? ≠ some '/' := by
    intro a
    rw [List.getLast?_append_of_ne_nil _ hNe]
    exact hEnd
  have hText : (p.join q).text ≠ [] ∧ (p.join q).text.getLast? ≠ some '/' := by
    unfold join
    rw [hq, if_neg Bool.false_ne_true]
    split
    · exact ⟨List.append_ne_nil_of_right_ne_nil _ hNe, hLast _⟩
    · refine ⟨by simp, ?_⟩
      have hSlash := hLast (p.text ++ ['/'])
      rw [List.append_assoc] at hSlash
      exact hSlash
  have hFirst : (p.join q).join ⟨s⟩ = ⟨(p.join q).text ++ '/' :: s⟩ := by
    rw [join, isAbsolute_of_isPiece hs, if_neg Bool.false_ne_true, if_neg fun h => h.elim hText.1 hText.2]
  rw [hFirst]
  unfold join
  rw [hq, hBoth, if_neg Bool.false_ne_true, if_neg Bool.false_ne_true]
  split
  · rw [List.append_assoc]
  · rw [List.append_assoc, List.cons_append]

end SqlSurvey.Path
