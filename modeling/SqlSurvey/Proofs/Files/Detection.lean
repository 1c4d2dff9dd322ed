import SqlSurvey.Files.Detection
import SqlSurvey.Proofs.Files.Lookup
import Mathlib.Data.List.Find
import Mathlib.Data.List.Lex
import Mathlib.Data.List.TakeWhile
import Mathlib.Data.Prod.Lex

/-!
# The schema file that is detected

A schema file in a well-known directory is found before all others, in the order of the directories and the names;
else the nearest one below the base that no passed-over directory is on the way to. Where the base stands, and what it
is called, makes no difference, unless it is written with a single dot at its beginning: the paths that are found are
written without it.
-/

namespace SqlSurvey.FoundFiles

open SqlSurvey.Path

variable {t : FileTree} {p base : Path} {m place : Place} {n piece : List Char} {ss : List (List Char)} {r s : Place}

/-! ## Paths written from a root -/

/-- A path that does not begin with a single dot, unless it is one. -/
structure Settled (p : Path) : Prop where
  text_ne_nil : p.text ≠ []
  eq_here : p.pieces.head? = some ['.'] → p = ⟨['.']⟩

theorem settled_here : Settled ⟨['.']⟩ := ⟨by simp, fun _ => rfl⟩

theorem settled_piece (hPiece : IsPiece piece) (hNe : piece ≠ []) : Settled ⟨piece⟩ where
  text_ne_nil := hNe
  eq_here := by
    rw [pieces_of_isPiece hPiece, List.head?_cons, Option.some.injEq]
    rintro rfl
    rfl

theorem Settled.components_eq (h : Settled p) (hNe : p ≠ ⟨['.']⟩) : p.components = p.named := by
  rw [Path.components_eq, if_neg (mt h.eq_here hNe), List.nil_append]

theorem Settled.extend_eq (h : Settled p) (hNe : p ≠ ⟨['.']⟩) (piece : List Char) :
    extend p piece = p.join ⟨piece⟩ := by
  unfold extend
  rw [h.components_eq hNe, if_neg]
  · rfl
  · intro hHere
    exact here_not_mem_named p (hHere ▸ List.mem_singleton_self _)

theorem extend_here (piece : List Char) : extend ⟨['.']⟩ piece = ⟨piece⟩ := if_pos rfl

theorem named_piece (hPiece : IsPiece piece) : named ⟨piece⟩ = (component? false piece).toList := by
  rw [named_of_relative (isAbsolute_of_isPiece hPiece), pieces_of_isPiece hPiece, List.filterMap_cons]
  cases component? false piece <;> rfl

/-- A path with one more piece: what the piece stands for is added to its components, and the piece is followed from
where the path leads. -/
theorem Settled.extend (h : Settled p) (hPiece : IsPiece piece) (hNe : p = ⟨['.']⟩ → piece ≠ []) :
    Settled (extend p piece) ∧ (extend p piece).named = p.named ++ (component? false piece).toList ∧
      ∀ {t : FileTree} {m}, t.place? p = some m → t.place? (extend p piece) = t.follow [piece] m := by
  have hRelative := isAbsolute_of_isPiece hPiece
  by_cases hHere : p = ⟨['.']⟩
  · -- the single dot is left out
    subst hHere
    rw [extend_here]
    refine ⟨settled_piece hPiece (hNe rfl), named_piece hPiece, fun {t m} hm => ?_⟩
    have hStart : m = t.workingDirectory := by
      simp only [FileTree.place?, pieces_of_isPiece (s := ['.']) (by decide), FileTree.follow] at hm
      simp at hm
      exact hm.2.symm
    rw [FileTree.place?, if_neg (hNe rfl), hRelative, pieces_of_isPiece hPiece, hStart]
    rfl
  · rw [h.extend_eq hHere]
    refine ⟨⟨text_join_ne_nil h.text_ne_nil hRelative, fun hDot => absurd ?_ hHere⟩, ?_, fun hm => ?_⟩
    · rw [head?_pieces_join h.text_ne_nil hRelative] at hDot
      exact h.eq_here hDot
    · rw [named_join h.text_ne_nil hRelative, ← named_piece hPiece, named_of_relative hRelative]
    · rw [FileTree.place?_join hm hRelative, pieces_of_isPiece hPiece]

/-- Pieces that a path may be extended with: after single dots only, there is no empty one. -/
def MayExtend (p : Path) (ss : List (List Char)) : Prop :=
  (∀ s ∈ ss, IsPiece s) ∧ (p = ⟨['.']⟩ → (ss.dropWhile (· == ['.'])).head? ≠ some [])

theorem mayExtend_of_isName (p : Path) (h : ∀ n ∈ ss, IsName n) : MayExtend p ss := by
  refine ⟨fun n hn => (h n hn).isPiece, fun _ hHead => ?_⟩
  have hMem : [] ∈ ss := (List.dropWhile_suffix _).subset (List.mem_of_mem_head? hHead)
  exact (h [] hMem).ne_nil rfl

theorem Settled.mayExtend_cons (h : Settled p) (hss : MayExtend p (piece :: ss)) :
    (p = ⟨['.']⟩ → piece ≠ []) ∧ MayExtend (FoundFiles.extend p piece) ss := by
  have hPiece := hss.1 piece List.mem_cons_self
  have hRest := fun s hs => hss.1 s (List.mem_cons_of_mem piece hs)
  by_cases hHere : p = ⟨['.']⟩
  · subst hHere
    have hFirst := hss.2 rfl
    rw [List.dropWhile_cons] at hFirst
    refine ⟨fun _ hNil => ?_, hRest, fun hExtend => ?_⟩
    · subst hNil
      exact hFirst rfl
    · rw [extend_here, Path.mk.injEq] at hExtend
      rw [if_pos (beq_iff_eq.2 hExtend)] at hFirst
      exact hFirst
  · refine ⟨fun hDot => absurd hDot hHere, hRest, fun hExtend => absurd ?_ hHere⟩
    have hHead := head?_pieces_join h.text_ne_nil (isAbsolute_of_isPiece hPiece)
    rw [← h.extend_eq hHere, hExtend] at hHead
    exact h.eq_here hHead.symm

/-- A path with more pieces. -/
theorem Settled.foldl_extend (h : Settled p) (hss : MayExtend p ss) :
    Settled (ss.foldl FoundFiles.extend p) ∧
      (ss.foldl FoundFiles.extend p).named = p.named ++ ss.filterMap (component? false) ∧
      ∀ {t : FileTree} {m q}, t.place? p = some m → t.follow ss m = some q →
        t.place? (ss.foldl FoundFiles.extend p) = some q := by
  induction ss generalizing p with
  | nil =>
    refine ⟨h, (List.append_nil _).symm, fun hm hq => ?_⟩
    rw [FileTree.follow] at hq
    rw [List.foldl_nil, hm, hq]
  | cons s ss ih =>
    obtain ⟨hNe, hRest⟩ := h.mayExtend_cons hss
    obtain ⟨hSettled, hNamed, hPlace⟩ := h.extend (hss.1 s List.mem_cons_self) hNe
    obtain ⟨hAll, hNamedAll, hPlaceAll⟩ := ih hSettled hRest
    refine ⟨hAll, ?_, fun {t m q} hm hq => ?_⟩
    · rw [List.foldl_cons, hNamedAll, hNamed, List.append_assoc, List.filterMap_cons]
      cases component? false s <;> rfl
    · rw [← List.singleton_append, FileTree.follow_append] at hq
      obtain ⟨k, hk, hq⟩ := Option.bind_eq_some_iff.1 hq
      exact hPlaceAll ((hPlace hm).trans hk) hq

/-! ## The root of a search -/

/-- A single dot at the beginning, and then one slash too many. -/
def DoublesSlash (base : Path) : Prop :=
  base.pieces.head? = some ['.'] ∧ (base.pieces.dropWhile (· == ['.'])).head? = some []

instance (base : Path) : Decidable (DoublesSlash base) := inferInstanceAs (Decidable (_ ∧ _))

/-- One step of the way to the root of a search. -/
def step? (p : Path) (piece : List Char) : Option Path :=
  if (extend p piece).text = [] then none else some (extend p piece)

theorem searchRoot?_of_relative (hBase : base.isAbsolute = false) :
    searchRoot? base = base.pieces.foldlM step? ⟨['.']⟩ := by
  rw [searchRoot?, hBase]
  rfl

theorem Settled.foldlM_step? (h : Settled p) (hss : MayExtend p ss) :
    ss.foldlM step? p = some (ss.foldl FoundFiles.extend p) := by
  induction ss generalizing p with
  | nil => rfl
  | cons s ss ih =>
    obtain ⟨hNe, hRest⟩ := h.mayExtend_cons hss
    obtain ⟨hSettled, -⟩ := h.extend (hss.1 s List.mem_cons_self) hNe
    rw [List.foldlM_cons, step?, if_neg hSettled.text_ne_nil]
    exact ih hSettled hRest

theorem foldlM_step?_here (h : (ss.dropWhile (· == ['.'])).head? = some []) :
    ss.foldlM step? ⟨['.']⟩ = none := by
  induction ss with
  | nil => cases h
  | cons s ss ih =>
    rw [List.dropWhile_cons] at h
    rw [List.foldlM_cons, step?, extend_here]
    by_cases hDot : s = ['.']
    · subst hDot
      exact ih h
    · rw [if_neg (by simpa using hDot), List.head?_cons, Option.some.injEq] at h
      rw [if_pos h]
      rfl

/-- The search below a relative base begins where the base leads, with the components of the base but for a single dot at
the beginning. -/
theorem exists_root_of_relative (hBase : base.isAbsolute = false) (hSlash : ¬ DoublesSlash base)
    (hPlace : t.place? base = some place) :
    ∃ root, searchRoot? base = some root ∧ Settled root ∧ root.named = base.named ∧
      t.place? root = some place := by
  have hText := FileTree.text_ne_nil_of_place? hPlace
  have hMay : MayExtend ⟨['.']⟩ base.pieces := by
    refine ⟨fun s hs => isPiece_of_mem_pieces hs, fun _ hHead => hSlash ⟨?_, hHead⟩⟩
    obtain ⟨x, xs, hx⟩ := List.exists_cons_of_ne_nil base.pieces_ne_nil
    rw [hx, List.dropWhile_cons] at hHead
    rw [hx, List.head?_cons, Option.some.injEq]
    by_contra hDot
    rw [if_neg (by simpa using hDot), ← hx, head?_pieces_eq_nil_iff, hBase] at hHead
    exact hHead.elim hText Bool.false_ne_true
  obtain ⟨hSettled, hNamed, hFollow⟩ := settled_here.foldl_extend hMay
  refine ⟨_, ?_, hSettled, ?_, ?_⟩
  · rw [searchRoot?_of_relative hBase]
    exact settled_here.foldlM_step? hMay
  · rw [hNamed, named_of_relative hBase]
    rfl
  · rw [FileTree.place?, if_neg hText, hBase, if_neg Bool.false_ne_true] at hPlace
    refine hFollow (m := t.workingDirectory) ?_ hPlace
    -- the pieces of the base are looked up in the working directory
    have hDirectory := FileTree.at?_of_follow hPlace base.pieces_ne_nil
    rw [FileTree.place?, if_neg (by simp), isAbsolute_of_isPiece (by decide), if_neg Bool.false_ne_true,
      pieces_of_isPiece (by decide), FileTree.follow, if_pos hDirectory, if_pos (.inr rfl), FileTree.follow]

/-- Whether a piece is empty or a single dot. -/
def stays (s : List Char) : Bool := s == [] || s == ['.']

theorem eq_or_of_stays (h : stays piece = true) : piece = [] ∨ piece = ['.'] := by
  rw [stays, Bool.or_eq_true, beq_iff_eq, beq_iff_eq] at h
  exact h

theorem component?_of_stays (h : stays piece = true) : component? false piece = none := by
  rcases eq_or_of_stays h with rfl | rfl <;> rfl

theorem filterMap_component?_of_stays (h : ∀ s ∈ ss, stays s = true) : ss.filterMap (component? false) = [] :=
  List.filterMap_eq_nil_iff.2 fun s hs => component?_of_stays (h s hs)

theorem foldl_length_succ (ss : List (List Char)) (k : Nat) :
    ss.foldl (fun n s => n + s.length + 1) k = k + (ss.flatMap fun s => s ++ ['/']).length := by
  induction ss generalizing k with
  | nil => rfl
  | cons s ss ih =>
    rw [List.foldl_cons, ih, List.flatMap_cons, List.length_append, List.length_append]
    simp only [List.length_cons, List.length_nil]
    omega

/-- What stands before the first name of an absolute path. -/
def absoluteStart (base : Path) : Path := ⟨(base.pieces.takeWhile stays).flatMap fun s => s ++ ['/']⟩

theorem searchRoot?_of_absolute (hBase : base.isAbsolute = true) :
    searchRoot? base = some ((base.pieces.dropWhile stays).foldl extend (absoluteStart base)) := by
  have hSplit : base.pieces = base.pieces.takeWhile stays ++ base.pieces.dropWhile stays :=
    List.takeWhile_append_dropWhile.symm
  have hDrop : base.pieces.drop (base.pieces.takeWhile stays).length = base.pieces.dropWhile stays :=
    (congrArg (List.drop _) hSplit).trans List.drop_left
  have hText : base.text ++ ['/'] = (absoluteStart base).text ++
      (base.pieces.dropWhile stays).flatMap fun s => s ++ ['/'] := by
    rw [text_append_slash]
    exact (congrArg (List.flatMap _) hSplit).trans List.flatMap_append
  have hStart : (base.text ++ ['/']).take
      ((base.pieces.takeWhile stays).foldl (fun n s => n + s.length + 1) 0) = (absoluteStart base).text := by
    rw [foldl_length_succ, Nat.zero_add, hText]
    exact List.take_left
  rw [searchRoot?, if_pos hBase, ← hDrop]
  exact congrArg (fun text => some (List.foldl extend ⟨text⟩ _)) hStart

/-- The search below an absolute base begins where the base leads, with its components. -/
theorem exists_root_of_absolute (hBase : base.isAbsolute = true) (hPlace : t.place? base = some place) :
    ∃ root, searchRoot? base = some root ∧ Settled root ∧ root.named = base.named ∧
      t.place? root = some place := by
  have hText := FileTree.text_ne_nil_of_place? hPlace
  have hSplit : base.pieces.takeWhile stays ++ base.pieces.dropWhile stays = base.pieces :=
    List.takeWhile_append_dropWhile
  have hStays : ∀ s ∈ base.pieces.takeWhile stays, stays s = true := fun s hs => List.mem_takeWhile_imp hs
  have hPieces : (absoluteStart base).pieces = base.pieces.takeWhile stays ++ [[]] :=
    pieces_flatMap_slash fun s hs => isPiece_of_mem_pieces ((List.takeWhile_prefix _).subset hs)
  -- the empty piece before the first slash stands there
  obtain ⟨xs, hFirst⟩ : ∃ xs, base.pieces.takeWhile stays = [] :: xs := by
    obtain ⟨x, xs, hx⟩ := List.exists_cons_of_ne_nil base.pieces_ne_nil
    have hHead := base.head?_pieces_eq_nil_iff.2 (.inr hBase)
    rw [hx, List.head?_cons, Option.some.injEq] at hHead
    rw [hx, hHead]
    exact ⟨_, rfl⟩
  have hHead : (absoluteStart base).pieces.head? = some [] := by
    rw [hPieces, hFirst]
    rfl
  have hStartText : (absoluteStart base).text ≠ [] := by
    rw [absoluteStart, hFirst, List.flatMap_cons]
    simp
  have hStartAbsolute : (absoluteStart base).isAbsolute = true :=
    ((head?_pieces_eq_nil_iff _).1 hHead).resolve_left hStartText
  have hSettled : Settled (absoluteStart base) := ⟨hStartText, fun hDot => by rw [hHead] at hDot; cases hDot⟩
  have hNotHere : absoluteStart base ≠ ⟨['.']⟩ := by
    intro hHere
    rw [hHere] at hStartAbsolute
    exact absurd hStartAbsolute (by decide)
  have hMay : MayExtend (absoluteStart base) (base.pieces.dropWhile stays) :=
    ⟨fun s hs => isPiece_of_mem_pieces ((List.dropWhile_suffix _).subset hs), fun hHere => absurd hHere hNotHere⟩
  obtain ⟨hAll, hNamed, hFollow⟩ := hSettled.foldl_extend hMay
  refine ⟨_, searchRoot?_of_absolute hBase, hAll, ?_, ?_⟩
  · -- what stands before the first name adds no component
    have hNone : (base.pieces.takeWhile stays).filterMap (component? false) = [] :=
      filterMap_component?_of_stays hStays
    have hStart : (absoluteStart base).named = [.root] := by
      rw [named, if_pos hStartAbsolute, hPieces, List.filterMap_append, hNone]
      rfl
    have hBaseNamed : base.named = .root :: (base.pieces.dropWhile stays).filterMap (component? false) := by
      rw [named, if_pos hBase, ← hSplit, List.filterMap_append, hNone, hSplit]
      rfl
    rw [hNamed, hStart, hBaseNamed]
    rfl
  · rw [FileTree.place?, if_neg hText, if_pos hBase] at hPlace
    have hDirectory := FileTree.at?_of_follow hPlace base.pieces_ne_nil
    have hBefore : t.follow (base.pieces.takeWhile stays) [] = some [] :=
      FileTree.follow_of_staying (fun s hs => eq_or_of_stays (hStays s hs)) hDirectory
    rw [← hSplit, FileTree.follow_append, hBefore, Option.bind_some] at hPlace
    refine hFollow (m := []) ?_ hPlace
    rw [FileTree.place?, if_neg hStartText, if_pos hStartAbsolute, hPieces, FileTree.follow_append, hBefore]
    exact FileTree.follow_of_staying (by simp) hDirectory

/-- Where the search below a base begins. -/
theorem exists_root (hSlash : ¬ DoublesSlash base) (hPlace : t.place? base = some place) :
    ∃ root, searchRoot? base = some root ∧ Settled root ∧ root.named = base.named ∧
      t.place? root = some place := by
  cases hBase : base.isAbsolute with
  | false => exact exists_root_of_relative hBase hSlash hPlace
  | true => exact exists_root_of_absolute hBase hPlace

/-- With a slash too many there is no search. -/
theorem searchRoot?_eq_none (hSlash : DoublesSlash base) : searchRoot? base = none := by
  have hBase : base.isAbsolute = false := by
    rw [← Bool.not_eq_true]
    intro hAbsolute
    have hHead := base.head?_pieces_eq_nil_iff.2 (.inr hAbsolute)
    rw [hSlash.1, Option.some.injEq] at hHead
    cases hHead
  rw [searchRoot?_of_relative hBase]
  exact foldlM_step?_here hSlash.2

/-! ## Paths below a base -/

/-- The names on the way to a file below the root give a path with the components of the root before them, and the path
leads to the file. -/
theorem Settled.foldl_extend_names {root : Path} (hRoot : Settled root) (hNames : ∀ n ∈ r, IsName n) :
    (r.foldl FoundFiles.extend root).named = root.named ++ r.map .name ∧
      (r ≠ [] → (r.foldl FoundFiles.extend root).components = root.named ++ r.map .name) ∧
      ∀ {t : FileTree} {place : Place}, t.WellFormed → t.place? root = some place →
        t.isFileAt (place ++ r) = true → t.place? (r.foldl FoundFiles.extend root) = some (place ++ r) := by
  obtain ⟨hSettled, hNamed, hPlace⟩ := hRoot.foldl_extend (mayExtend_of_isName root hNames)
  rw [filterMap_component?_of_isName hNames] at hNamed
  refine ⟨hNamed, fun hNe => ?_, fun ht hRootPlace hFile => hPlace hRootPlace (FileTree.follow_of_isFileAt ht hFile)⟩
  rw [← hNamed]
  refine hSettled.components_eq fun hHere => ?_
  rw [hHere] at hNamed
  have hLength := congrArg List.length hNamed
  have := List.length_pos_iff.2 hNe
  rw [List.length_append, List.length_map] at hLength
  exact absurd hLength (by show (0 : ℕ) ≠ _; omega)

theorem isName_of_mem_passedOver : ∀ d ∈ passedOver, IsName d.toList := by decide

theorem any_passedOver_iff (cs : List Component) :
    (cs.any fun c => passedOver.any fun d => c == .name d.toList) = true ↔
      ∃ d ∈ passedOver, .name d.toList ∈ cs := by
  simp only [List.any_eq_true, beq_iff_eq]
  constructor
  · rintro ⟨c, hc, d, hd, rfl⟩
    exact ⟨d, hd, hc⟩
  · rintro ⟨d, hd, hc⟩
    exact ⟨_, hc, d, hd, rfl⟩

/-- A single dot at the beginning, and a passed-over directory among those that are named after it. -/
def NamesPassedOver (base : Path) : Prop :=
  base.pieces.head? = some ['.'] ∧ ∃ d ∈ passedOver, d.toList ∈ base.pieces

instance (base : Path) : Decidable (NamesPassedOver base) := inferInstanceAs (Decidable (_ ∧ _))

/-- A path below a base is passed over for a directory on the way from the base, and for one on the way to the base
only if the base is written with a single dot at its beginning. -/
theorem isPassedOver_iff (hp : p.components = base.named ++ r.map .name) : isPassedOver base p = true ↔
    (∃ d ∈ passedOver, d.toList ∈ r) ∨ NamesPassedOver base := by
  have hBelow : ∀ {d : String}, .name d.toList ∈ r.map Component.name ↔ d.toList ∈ r :=
    List.mem_map_of_injective fun _ _ => Component.name.inj
  rw [isPassedOver, any_passedOver_iff, componentsBelow, Path.components_eq base]
  by_cases hDot : base.pieces.head? = some ['.']
  · -- the path does not begin with the dot, so all of it counts
    have hNone : (Component.here :: base.named).isPrefixOf? p.components = none := by
      rw [Option.eq_none_iff_forall_ne_some]
      intro rest hRest
      have hHead := congrArg List.head? (List.isPrefixOf?_eq_some_iff_append_eq.1 hRest)
      have hHere : Component.here ∈ p.components := List.mem_of_mem_head? hHead.symm
      rw [hp, List.mem_append] at hHere
      exact hHere.elim (here_not_mem_named base) (by simp)
    rw [if_pos hDot]
    show (∃ d ∈ passedOver, _ ∈ (List.isPrefixOf? (Component.here :: base.named) p.components).getD _) ↔ _
    rw [hNone, Option.getD_none, hp]
    simp only [List.mem_append, hBelow, NamesPassedOver, hDot, true_and]
    constructor
    · rintro ⟨d, hd, hMem | hMem⟩
      · exact .inr ⟨d, hd, (name_mem_named_iff (isName_of_mem_passedOver d hd)).1 hMem⟩
      · exact .inl ⟨d, hd, hMem⟩
    · rintro (⟨d, hd, hMem⟩ | ⟨d, hd, hMem⟩)
      · exact ⟨d, hd, .inr hMem⟩
      · exact ⟨d, hd, .inl ((name_mem_named_iff (isName_of_mem_passedOver d hd)).2 hMem)⟩
  · have hSome : base.named.isPrefixOf? (base.named ++ r.map .name) = some (r.map .name) :=
      List.isPrefixOf?_eq_some_iff_append_eq.2 rfl
    rw [if_neg hDot, List.nil_append, hp, hSome, Option.getD_some]
    simp only [hBelow, NamesPassedOver, hDot, false_and, or_false]

/-! ## The nearest path -/

/-- What paths are compared by: the number of their components, and then these. -/
def key (p : Path) : ℕ ×ₗ List (List ℕ) := toLex (p.components.length, p.components.map Component.rank)

theorem shallower_iff (p q : Path) : p.shallower q = true ↔ key p < key q := by
  rw [Path.shallower, key, key, Prod.Lex.toLex_lt_toLex, Bool.or_eq_true, Bool.and_eq_true, decide_eq_true_eq,
    beq_iff_eq, decide_eq_true_eq]

/-- The nearer of two paths, the first one if neither is. -/
def nearerOf (b p : Path) : Path := if p.shallower b then p else b

theorem nearerOf_spec (b p : Path) :
    (nearerOf b p = b ∨ nearerOf b p = p) ∧ key (nearerOf b p) ≤ key b ∧ key (nearerOf b p) ≤ key p := by
  unfold nearerOf
  split
  · rename_i h
    exact ⟨.inr rfl, le_of_lt ((shallower_iff p b).1 h), le_refl _⟩
  · rename_i h
    rw [shallower_iff] at h
    exact ⟨.inl rfl, le_refl _, not_lt.1 h⟩

/-- The path that is taken after one and some more comes before none of them. -/
theorem foldl_nearerOf_spec (b : Path) (ps : List Path) :
    (ps.foldl nearerOf b = b ∨ ps.foldl nearerOf b ∈ ps) ∧ key (ps.foldl nearerOf b) ≤ key b ∧
      ∀ q ∈ ps, key (ps.foldl nearerOf b) ≤ key q := by
  induction ps generalizing b with
  | nil => exact ⟨.inl rfl, le_refl _, fun q hq => absurd hq List.not_mem_nil⟩
  | cons p ps ih =>
    obtain ⟨hIs, hLe, hAll⟩ := ih (nearerOf b p)
    obtain ⟨hOne, hLeB, hLeP⟩ := nearerOf_spec b p
    rw [List.foldl_cons]
    refine ⟨?_, hLe.trans hLeB, fun q hq => ?_⟩
    · rcases hIs with hIs | hIs
      · rw [hIs]
        rcases hOne with hOne | hOne
        · exact .inl hOne
        · rw [hOne]
          exact .inr List.mem_cons_self
      · exact .inr (List.mem_cons_of_mem p hIs)
    · rcases List.mem_cons.1 hq with rfl | hq
      · exact hLe.trans hLeP
      · exact hAll q hq

theorem foldl_some (b : Path) (ps : List Path) :
    ps.foldl (fun best p => match best with
      | none => some p
      | some b => if p.shallower b then some p else some b) (some b) = some (ps.foldl nearerOf b) := by
  induction ps generalizing b with
  | nil => rfl
  | cons p ps ih =>
    rw [List.foldl_cons, List.foldl_cons, ← ih]
    dsimp only
    unfold nearerOf
    split <;> rfl

/-- Of some paths one is taken that comes before none of them. -/
theorem shallowest?_spec (ps : List Path) :
    (shallowest? ps = none ∧ ps = []) ∨ ∃ p ∈ ps, shallowest? ps = some p ∧ ∀ q ∈ ps, key p ≤ key q := by
  cases ps with
  | nil => exact .inl ⟨rfl, rfl⟩
  | cons b ps =>
    obtain ⟨hIs, hLe, hAll⟩ := foldl_nearerOf_spec b ps
    refine .inr ⟨ps.foldl nearerOf b, ?_, foldl_some b ps, fun q hq => ?_⟩
    · exact List.mem_cons.2 hIs
    · rcases List.mem_cons.1 hq with rfl | hq
      · exact hLe
      · exact hAll q hq

/-- The names on one way come before those on another: they are fewer, or as many that are smaller. -/
def Nearer (r s : Place) : Prop :=
  r.length < s.length ∨ r.length = s.length ∧
    r.map (fun n => Component.rank (.name n)) < s.map fun n => Component.rank (.name n)

theorem append_lt_append_iff (a b c : List (List ℕ)) : a ++ b < a ++ c ↔ b < c := by
  induction a with
  | nil => exact Iff.rfl
  | cons x a ih =>
    rw [List.cons_append, List.cons_append, List.cons_lt_cons_iff]
    simp [ih]

theorem rank_injective : Function.Injective Component.rank := by
  intro c d h
  cases c <;> cases d <;> simp_all [Component.rank]
  rename_i s t
  exact List.map_injective_iff.2 (fun a b hab => Char.toNat_inj.1 hab) h

/-- Paths that begin with the same components are compared by the names that follow. -/
theorem key_lt_iff {q : Path} {cs : List Component} (hp : p.components = cs ++ r.map .name)
    (hq : q.components = cs ++ s.map .name) : key p < key q ↔ Nearer r s := by
  rw [key, key, Prod.Lex.toLex_lt_toLex, hp, hq, Nearer]
  simp only [List.map_append, List.map_map, List.length_append, List.length_map, Nat.add_lt_add_iff_left,
    Nat.add_left_cancel_iff, append_lt_append_iff]
  rfl

theorem eq_or_nearer {q : Path} {cs : List Component} (hp : p.components = cs ++ r.map .name)
    (hq : q.components = cs ++ s.map .name) (h : key p ≤ key q) : s = r ∨ Nearer r s := by
  rcases lt_or_eq_of_le h with h | h
  · exact .inr ((key_lt_iff hp hq).1 h)
  · left
    have hRanks := congrArg (fun k => (ofLex k).2) h
    have hComponents := List.map_injective_iff.2 rank_injective hRanks
    rw [hp, hq] at hComponents
    exact (List.map_injective_iff.2 (fun _ _ => Component.name.inj) (List.append_cancel_left hComponents)).symm

/-! ## What is detected -/

/-- The names on the way to a schema file below a place, through no directory that is passed over. -/
structure IsSchemaBelow (t : FileTree) (place r : Place) : Prop where
  isFileAt : t.isFileAt (place ++ r) = true
  getLast? : ∃ n ∈ schemaNames, r.getLast? = some n.toList
  not_passedOver : ¬ ∃ d ∈ passedOver, d.toList ∈ r

/-- The path leads to a file below a place, over names that follow the components of the base. A single dot at the
beginning of either path does not count. -/
structure LeadsTo (t : FileTree) (base : Path) (place r : Place) (p : Path) : Prop where
  place : t.place? p = some (place ++ r)
  named : p.named = base.named ++ r.map .name

/-- No schema file is found below a base that is written so. -/
def Obscured (base : Path) : Prop := DoublesSlash base ∨ NamesPassedOver base

instance (base : Path) : Decidable (Obscured base) := inferInstanceAs (Decidable (_ ∨ _))

theorem IsSchemaBelow.ne_nil (h : IsSchemaBelow t place r) : r ≠ [] := by
  rintro rfl
  obtain ⟨n, -, hn⟩ := h.getLast?
  cases hn

/-- The paths among which the nearest is taken are those of the schema files below the base, unless the way to the base
is passed over. -/
theorem mem_below_iff (ht : t.WellFormed) (hPlace : t.place? base = some place) {root : Path}
    (hSearch : searchRoot? base = some root) (hRoot : Settled root) (hNamed : root.named = base.named) :
    p ∈ below t base schemaNames ↔
      ¬ NamesPassedOver base ∧ ∃ r, IsSchemaBelow t place r ∧ p = r.foldl extend root := by
  have hComponents : ∀ {r : Place}, t.isFileAt (place ++ r) = true → r ≠ [] →
      (r.foldl extend root).components = base.named ++ r.map .name := by
    intro r hFile hNe
    rw [← hNamed]
    exact (hRoot.foldl_extend_names (FileTree.isName_of_isFileAt ht hFile)).2.1 hNe
  unfold below
  rw [hSearch, hPlace]
  simp only [List.mem_filter, List.mem_map, Bool.not_eq_true', ← Bool.not_eq_true, FileTree.mem_filesBelow ht,
    List.any_eq_true, beq_iff_eq]
  constructor
  · rintro ⟨⟨r, ⟨hFile, hName⟩, rfl⟩, hNot⟩
    have hNe : r ≠ [] := by
      rintro rfl
      obtain ⟨n, -, hn⟩ := hName
      cases hn
    rw [isPassedOver_iff (hComponents hFile hNe), not_or] at hNot
    exact ⟨hNot.2, r, ⟨hFile, hName, hNot.1⟩, rfl⟩
  · rintro ⟨hOver, r, hr, rfl⟩
    refine ⟨⟨r, ⟨hr.isFileAt, hr.getLast?⟩, rfl⟩, ?_⟩
    rw [isPassedOver_iff (hComponents hr.isFileAt hr.ne_nil)]
    exact fun hIn => hIn.elim hr.not_passedOver hOver

/-- The search below a base that is not obscured finds the nearest schema file, if there is one. -/
theorem shallowest?_below (ht : t.WellFormed) (hPlace : t.place? base = some place) (hBase : ¬ Obscured base) :
    (shallowest? (below t base schemaNames) = none ∧ ∀ r, ¬ IsSchemaBelow t place r) ∨
      ∃ r p, shallowest? (below t base schemaNames) = some p ∧ IsSchemaBelow t place r ∧
        LeadsTo t base place r p ∧ ∀ s, IsSchemaBelow t place s → s = r ∨ Nearer r s := by
  obtain ⟨hSlash, hOver⟩ := not_or.1 hBase
  obtain ⟨root, hSearch, hRoot, hNamed, hRootPlace⟩ := exists_root hSlash hPlace
  have hMem := fun p => mem_below_iff (p := p) ht hPlace hSearch hRoot hNamed
  have hPath : ∀ {r : Place}, IsSchemaBelow t place r → LeadsTo t base place r (r.foldl extend root) ∧
      (r.foldl extend root).components = base.named ++ r.map .name := by
    intro r hr
    obtain ⟨hPathNamed, hComponents, hLeads⟩ :=
      hRoot.foldl_extend_names (FileTree.isName_of_isFileAt ht hr.isFileAt)
    rw [hNamed] at hPathNamed hComponents
    exact ⟨⟨hLeads ht hRootPlace hr.isFileAt, hPathNamed⟩, hComponents hr.ne_nil⟩
  rcases shallowest?_spec (below t base schemaNames) with ⟨hNone, hNil⟩ | ⟨p, hp, hSome, hLeast⟩
  · refine .inl ⟨hNone, fun r hr => ?_⟩
    have hIn := (hMem _).2 ⟨hOver, r, hr, rfl⟩
    rw [hNil] at hIn
    exact absurd hIn List.not_mem_nil
  · obtain ⟨-, r, hr, rfl⟩ := (hMem p).1 hp
    refine .inr ⟨r, _, hSome, hr, (hPath hr).1, fun s hs => ?_⟩
    exact eq_or_nearer (hPath hr).2 (hPath hs).2 (hLeast _ ((hMem _).2 ⟨hOver, s, hs, rfl⟩))

/-- The search below an obscured base finds nothing. -/
theorem shallowest?_below_of_obscured (ht : t.WellFormed) (hPlace : t.place? base = some place)
    (hBase : Obscured base) : shallowest? (below t base schemaNames) = none := by
  suffices hNil : below t base schemaNames = [] by
    rw [hNil]
    rfl
  by_cases hSlash : DoublesSlash base
  · rw [below, searchRoot?_eq_none hSlash]
  · obtain ⟨root, hSearch, hRoot, hNamed, -⟩ := exists_root hSlash hPlace
    rw [List.eq_nil_iff_forall_not_mem]
    intro p hp
    exact ((mem_below_iff ht hPlace hSearch hRoot hNamed).1 hp).1 (hBase.resolve_left hSlash)

/-! ## The well-known directories -/

/-- The names on the way to a directory that is written as a path. -/
def steps (directory : String) : Place := (Path.ofString directory).pieces.filter (· != ['.'])

/-- The well-known directories, each with the names that a schema file in it may have, in the order in which they are
tried. -/
def candidates : List (String × String) := knownDirectories.flatMap fun d => schemaNames.map fun n => (d, n)

/-- The names on the way to a candidate. -/
def way (candidate : String × String) : Place := steps candidate.1 ++ [candidate.2.toList]

/-- The path of a candidate. -/
def pathOf (base : Path) (candidate : String × String) : Path :=
  (base.join (.ofString candidate.1)).join (.ofString candidate.2)

example : candidates.map way = ["schema.ts", "schema.js", "src/db/schema.ts", "src/db/schema.js",
    "src/database/schema.ts", "src/database/schema.js", "db/schema.ts", "db/schema.js", "database/schema.ts",
    "database/schema.js", "lib/db/schema.ts", "lib/db/schema.js", "lib/database/schema.ts",
    "lib/database/schema.js"].map fun s => (Path.ofString s).pieces := by decide

theorem known?_eq (t : FileTree) (base : Path) :
    known? t base schemaNames = (candidates.find? fun c => t.isFile (pathOf base c)).map (pathOf base) := by
  have hEach : ∀ d : String, inDirectory? t (base.join (.ofString d)) schemaNames =
      ((schemaNames.map fun n => (d, n)).find? fun c => t.isFile (pathOf base c)).map (pathOf base) := by
    intro d
    rw [inDirectory?, List.find?_map, List.find?_map, Option.map_map]
    rfl
  unfold known? candidates
  rw [List.find?_flatMap, List.map_findSome?]
  simp only [hEach]
  rfl

/-- What the proofs need of the candidates. -/
theorem of_mem_candidates : ∀ c ∈ candidates, (Path.ofString c.1).isAbsolute = false ∧
    (Path.ofString c.1).text ≠ [] ∧ (Path.ofString c.1).text.getLast? ≠ some '/' ∧ IsName c.2.toList ∧
      (∀ s ∈ (Path.ofString c.1).pieces, IsName s ∨ s = ['.']) ∧
      isAbsolute ⟨(Path.ofString c.1).text ++ '/' :: c.2.toList⟩ = false ∧
      ((Path.ofString c.1).pieces ++ [c.2.toList]).filterMap (component? false) = (way c).map .name := by
  decide

/-- The pieces of a candidate's path are those of its directory, and its name. -/
theorem pathOf_eq {c : String × String} (hc : c ∈ candidates) (base : Path) :
    pathOf base c = base.join ⟨(Path.ofString c.1).text ++ '/' :: c.2.toList⟩ ∧
      pieces ⟨(Path.ofString c.1).text ++ '/' :: c.2.toList⟩ = (Path.ofString c.1).pieces ++ [c.2.toList] := by
  obtain ⟨hRelative, hNe, hEnd, hName, -, -, -⟩ := of_mem_candidates c hc
  exact ⟨join_join hRelative hNe hEnd hName.isPiece,
    (pieces_append_slash _ _).trans (by rw [pieces_of_isPiece hName.isPiece])⟩

/-- A candidate is a file exactly if one is at its place below the base. -/
theorem isFile_pathOf (ht : t.WellFormed) (hPlace : t.place? base = some place) {c : String × String}
    (hc : c ∈ candidates) : t.isFile (pathOf base c) = t.isFileAt (place ++ way c) := by
  obtain ⟨hPath, hPieces⟩ := pathOf_eq hc base
  obtain ⟨-, -, -, hName, hSteps, hRelative, -⟩ := of_mem_candidates c hc
  rw [FileTree.isFile_eq_any, hPath, FileTree.place?_join hPlace hRelative, hPieces,
    FileTree.any_isFileAt_follow ht hSteps hName]
  rfl

/-- The path of a candidate that is a file leads to it. -/
theorem leadsTo_pathOf (ht : t.WellFormed) (hPlace : t.place? base = some place) {c : String × String}
    (hc : c ∈ candidates) (hFile : t.isFile (pathOf base c) = true) :
    LeadsTo t base place (way c) (pathOf base c) := by
  rw [isFile_pathOf ht hPlace hc] at hFile
  obtain ⟨hPath, hPieces⟩ := pathOf_eq hc base
  obtain ⟨-, -, -, hName, hSteps, hRelative, hWay⟩ := of_mem_candidates c hc
  have hText := FileTree.text_ne_nil_of_place? hPlace
  refine ⟨?_, ?_⟩
  · rw [hPath, FileTree.place?_join hPlace hRelative, hPieces]
    exact FileTree.follow_append_name ht hSteps hName hFile
  · rw [hPath, named_join hText hRelative, hPieces, hWay]

/-! ## What is detected -/

/-- The first candidate that is a file below a place, in the order of the directories and of the names. -/
def firstKnown? (t : FileTree) (place : Place) : Option Place :=
  (candidates.map way).find? fun r => t.isFileAt (place ++ r)

theorem known?_cases (ht : t.WellFormed) (hPlace : t.place? base = some place) :
    (known? t base schemaNames = none ∧ firstKnown? t place = none) ∨
      ∃ r p, known? t base schemaNames = some p ∧ firstKnown? t place = some r ∧ LeadsTo t base place r p := by
  have hFirst : firstKnown? t place = (candidates.find? fun c => t.isFile (pathOf base c)).map way := by
    rw [firstKnown?, List.find?_map]
    exact congrArg (Option.map way) (List.find?_congr fun c hc => (isFile_pathOf ht hPlace hc).symm)
  rw [known?_eq, hFirst]
  cases hFind : candidates.find? fun c => t.isFile (pathOf base c) with
  | none => exact .inl ⟨rfl, rfl⟩
  | some c =>
    have hFile : t.isFile (pathOf base c) = true := by simpa using List.find?_some hFind
    exact .inr ⟨way c, pathOf base c, rfl, rfl, leadsTo_pathOf ht hPlace (List.mem_of_find?_eq_some hFind) hFile⟩

/-- The names on the way to the schema file that is to be found below a place: to the first candidate that is there, or
else to the nearest schema file. -/
def Expected (t : FileTree) (place : Place) : Option Place → Prop
  | none => firstKnown? t place = none ∧ ∀ r, ¬ IsSchemaBelow t place r
  | some r => firstKnown? t place = some r ∨
    firstKnown? t place = none ∧ IsSchemaBelow t place r ∧ ∀ s, IsSchemaBelow t place s → s = r ∨ Nearer r s

/-- The schema path that is detected for a base leads there, over the same names. -/
def Detects (t : FileTree) (base : Path) (place : Place) : Option Place → Prop
  | none => (detect t base).schemaPath = none
  | some r => ∃ p, (detect t base).schemaPath = some p ∧ LeadsTo t base place r p

theorem Nearer.asymm (h : Nearer r s) (k : Nearer s r) : False := by
  rcases h with h | ⟨h, hLt⟩
  · rcases k with k | ⟨k, -⟩ <;> omega
  · rcases k with k | ⟨-, kLt⟩
    · omega
    · exact lt_asymm hLt kLt

/-- What is to be found is one file at most. -/
theorem Expected.unique {a b : Option Place} (ha : Expected t place a) (hb : Expected t place b) : a = b := by
  cases a with
  | none =>
    cases b with
    | none => rfl
    | some s =>
      rcases hb with hb | ⟨-, hb, -⟩
      · exact absurd (ha.1.symm.trans hb) (by simp)
      · exact absurd hb (ha.2 s)
  | some r =>
    cases b with
    | none =>
      rcases ha with ha | ⟨-, ha, -⟩
      · exact absurd (hb.1.symm.trans ha) (by simp)
      · exact absurd ha (hb.2 r)
    | some s =>
      rcases ha with ha | ⟨hNone, hr, hAll⟩
      · rcases hb with hb | ⟨hNone, -⟩
        · exact ha.symm.trans hb
        · exact absurd (hNone.symm.trans ha) (by simp)
      · rcases hb with hb | ⟨-, hs, hAll'⟩
        · exact absurd (hNone.symm.trans hb) (by simp)
        · rcases hAll s hs with hEq | hNear
          · rw [hEq]
          · rcases hAll' r hr with hEq | hNear'
            · rw [hEq]
            · exact (hNear.asymm hNear').elim

/-- Only the files below the place make a difference to what is to be found. -/
theorem expected_congr {u : FileTree} {place' : Place}
    (h : ∀ r, t.isFileAt (place ++ r) = u.isFileAt (place' ++ r)) (found : Option Place) :
    Expected t place found ↔ Expected u place' found := by
  have hBelow : ∀ r, IsSchemaBelow t place r ↔ IsSchemaBelow u place' r := fun r =>
    ⟨fun hr => ⟨(h r).symm.trans hr.isFileAt, hr.getLast?, hr.not_passedOver⟩,
      fun hr => ⟨(h r).trans hr.isFileAt, hr.getLast?, hr.not_passedOver⟩⟩
  have hKnown : firstKnown? t place = firstKnown? u place' := by
    unfold firstKnown?
    simp only [h]
  cases found with
  | none => simp only [Expected, hKnown, hBelow]
  | some r => simp only [Expected, hKnown, hBelow]

/-- For every directory and every way to write it but two, the schema path that is detected is the first well-known file
there is or else the nearest schema file below the directory, and there is none only if there is no such file; what the
directories on the way to it are called makes no difference. The two are a single dot at the beginning with a
passed-over directory after it, and one with another slash right after it: then only the well-known files
are found. -/
theorem detect_schemaPath (ht : t.WellFormed) (hPlace : t.place? base = some place)
    (hDirectory : t.at? place = some .directory) :
    (¬ Obscured base → ∃ found, Detects t base place found ∧ Expected t place found) ∧
      (Obscured base → Detects t base place (firstKnown? t place)) ∧
      (∀ a b, Expected t place a → Expected t place b → a = b) ∧
      ∀ (u : FileTree) (place' : Place), (∀ r, t.isFileAt (place ++ r) = u.isFileAt (place' ++ r)) →
        ∀ found, Expected t place found ↔ Expected u place' found := by
  have hIsDirectory : t.isDirectory base = true := by
    rw [FileTree.isDirectory, FileTree.entry?, hPlace, Option.bind_some, hDirectory]
    rfl
  refine ⟨fun hBase => ?_, fun hBase => ?_, fun a b => Expected.unique, fun u place' => expected_congr⟩
  · rcases known?_cases ht hPlace with ⟨hKnown, hFirst⟩ | ⟨r, p, hKnown, hFirst, hLeads⟩
    · have hDetect : (detect t base).schemaPath = shallowest? (below t base schemaNames) := by
        simp [detect, hKnown, hIsDirectory]
      rcases shallowest?_below ht hPlace hBase with ⟨hNone, hNot⟩ | ⟨r, p, hSome, hr, hLeads, hAll⟩
      · exact ⟨none, hDetect.trans hNone, hFirst, hNot⟩
      · exact ⟨some r, ⟨p, hDetect.trans hSome, hLeads⟩, .inr ⟨hFirst, hr, hAll⟩⟩
    · exact ⟨some r, ⟨p, by simp [detect, hKnown], hLeads⟩, .inl hFirst⟩
  · rcases known?_cases ht hPlace with ⟨hKnown, hFirst⟩ | ⟨r, p, hKnown, hFirst, hLeads⟩
    · have hDetect : (detect t base).schemaPath = shallowest? (below t base schemaNames) := by
        simp [detect, hKnown, hIsDirectory]
      rw [hFirst]
      exact hDetect.trans (shallowest?_below_of_obscured ht hPlace hBase)
    · rw [hFirst]
      exact ⟨p, by simp [detect, hKnown], hLeads⟩

/-- A tree with one schema file, in a directory whose name is passed over below a base. -/
def builtTree : FileTree := ⟨[], [(["dist", "app", "schema.ts"].map String.toList, .text [])]⟩

theorem wellFormed_builtTree : builtTree.WellFormed where
  names := by decide
  nodup := by decide
  directory := by decide

theorem isSchemaBelow_builtTree :
    IsSchemaBelow builtTree ["dist".toList] (["app", "schema.ts"].map String.toList) where
  isFileAt := by decide
  getLast? := ⟨"schema.ts", by decide, by decide⟩
  not_passedOver := by decide

theorem expected_builtTree :
    Expected builtTree ["dist".toList] (some (["app", "schema.ts"].map String.toList)) := by
  refine .inr ⟨by decide, isSchemaBelow_builtTree, fun s hs => .inl ?_⟩
  obtain ⟨e, he, hPlace, -⟩ := FileTree.exists_of_isFileAt hs.isFileAt
  obtain rfl := List.mem_singleton.1 he
  exact (List.cons.inj hPlace).2.symm

/-- The name of the base does not count. -/
theorem detect_schemaPath_dist :
    Detects builtTree (.ofString "dist") ["dist".toList] (some (["app", "schema.ts"].map String.toList)) := by
  obtain ⟨hShown, -, hUnique, -⟩ := detect_schemaPath wellFormed_builtTree
    (show builtTree.place? (.ofString "dist") = some ["dist".toList] by decide) (by decide)
  obtain ⟨found, hFound, hExpected⟩ := hShown (by decide)
  rw [hUnique _ _ hExpected expected_builtTree] at hFound
  exact hFound

/-- When the base is written with a single dot at its beginning, its name does count. -/
theorem not_detects_dot_dist :
    ¬ ∀ (t : FileTree) (base : Path) (place : Place), t.WellFormed → t.place? base = some place →
      t.at? place = some .directory → ∃ found, Detects t base place found ∧ Expected t place found := by
  intro h
  obtain ⟨found, hFound, hExpected⟩ := h builtTree (.ofString "./dist") ["dist".toList] wellFormed_builtTree
    (by decide) (by decide)
  obtain rfl := hExpected.unique expected_builtTree
  obtain ⟨p, hPath, -⟩ := hFound
  have hNone : (detect builtTree (.ofString "./dist")).schemaPath = none := by decide +kernel
  rw [hNone] at hPath
  cases hPath

end SqlSurvey.FoundFiles
