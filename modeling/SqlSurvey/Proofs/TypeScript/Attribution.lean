import SqlSurvey.TypeScript.Source
import SqlSurvey.Proofs.TypeScript.Outline
import SqlSurvey.Proofs.TypeScript.Descendants

/-!
# Which literals go to which declaration

The declarations of a tree are read off by a recursion that stops at declarations, functions and classes, their
literals by one that stops nowhere. Here both are described by the nodes that they come upon, without recursion:
`Node.recorded` are the named declarations that nothing encloses, `Node.literalsIn` are the literals at or below the
body of one of them. No literal is among those of two declarations, or twice among those of one.
-/

namespace SqlSurvey.TypeScript

/-- A node whose contents are not searched for declarations. -/
def Kind.isEnclosing (k : Kind) : Bool := k.isDeclaration || k.isFunctionScope

namespace Node

/-- A declaration with a name. -/
def isNamedDeclaration (n : Node) : Bool := n.kind.isDeclaration && n.children.any fun c => c.role == .name

/-- Whether a node of a list stands below a declaration, function or class of the list. -/
def Descendant.isEnclosed (ds : List Descendant) (d : Descendant) : Bool :=
  ds.any fun e => e.node.kind.isEnclosing && e.path != d.path && e.path.isPrefixOf d.path

/-- The named declarations of a list of nodes that none of the list encloses. -/
def outermost (ds : List Descendant) : List Descendant :=
  ds.filter fun d => d.node.isNamedDeclaration && !d.isEnclosed ds

/-- The named declarations of a tree that no declaration, function or class encloses. -/
def recorded (root : Node) : List Descendant := outermost root.descendants

/-- The literals of a tree at or below the body of a node of the tree. -/
def literalsIn (root : Node) (d : Descendant) : List Descendant :=
  match d.node.children.findIdx? fun c => c.role == .body with
  | some i => root.descendants.filter fun l => l.node.kind.isLiteral && (d.path ++ [i]).isPrefixOf l.path
  | none => []

/-! ## Enclosed nodes -/

variable {i : Nat} {n root : Node} {d e l : Descendant} {ds es : List Descendant}

theorem isEnclosed_iff : d.isEnclosed ds = true ↔
    ∃ e ∈ ds, e.node.kind.isEnclosing = true ∧ e.path ≠ d.path ∧ e.path <+: d.path := by
  simp only [Descendant.isEnclosed, List.any_eq_true, Bool.and_eq_true, bne_iff_ne, List.isPrefixOf_iff_prefix,
    and_assoc]

/-- Nodes that are not above a node do not enclose it. -/
theorem isEnclosed_eq_false (h : ∀ e ∈ ds, ¬ e.path <+: d.path) : d.isEnclosed ds = false := by
  rw [← Bool.not_eq_true, isEnclosed_iff]
  rintro ⟨e, he, -, -, hPrefix⟩
  exact h e he hPrefix

theorem isEnclosed_append (d : Descendant) (ds es : List Descendant) :
    d.isEnclosed (ds ++ es) = (d.isEnclosed ds || d.isEnclosed es) := List.any_append

theorem isEnclosed_map_under (i : Nat) (d : Descendant) (ds : List Descendant) :
    (d.under i).isEnclosed (ds.map (Descendant.under i)) = d.isEnclosed ds := by
  rw [Bool.eq_iff_iff, isEnclosed_iff, isEnclosed_iff]
  simp [List.cons_prefix_cons]

theorem outermost_map_under (i : Nat) (ds : List Descendant) :
    outermost (ds.map (Descendant.under i)) = (outermost ds).map (Descendant.under i) := by
  rw [outermost, List.filter_map]
  simp only [Function.comp_def, isEnclosed_map_under, Descendant.node_under]
  rfl

/-- Nodes of two lists with none above one of the other do not enclose each other. -/
theorem outermost_append (h : ∀ d ∈ ds, ∀ e ∈ es, ¬ d.path <+: e.path ∧ ¬ e.path <+: d.path) :
    outermost (ds ++ es) = outermost ds ++ outermost es := by
  rw [outermost, List.filter_append]
  congr 1
  · refine List.filter_congr fun d hd => ?_
    rw [isEnclosed_append, isEnclosed_eq_false fun e he => (h d hd e he).2, Bool.or_false]
  · refine List.filter_congr fun e he => ?_
    rw [isEnclosed_append, isEnclosed_eq_false fun d hd => (h d hd e he).1, Bool.false_or]

theorem outermost_descendantsAmong_cons (i : Nat) (n : Node) (ns : List Node) :
    outermost (descendantsAmong i (n :: ns)) =
      (outermost n.descendants).map (Descendant.under i) ++ outermost (descendantsAmong (i + 1) ns) := by
  rw [descendantsAmong_cons, outermost_append, outermost_map_under]
  intro d hd e he
  obtain ⟨f, -, rfl⟩ := List.mem_map.1 hd
  exact not_prefix_of_under he

theorem isEnclosed_root (k : Kind) (r : Role) (a b : Nat) (cs : List Node) (i : Nat) :
    (⟨[], node k r a b cs⟩ : Descendant).isEnclosed (⟨[], node k r a b cs⟩ :: descendantsAmong i cs) = false := by
  rw [← Bool.not_eq_true, isEnclosed_iff]
  rintro ⟨e, -, -, hPath, hPrefix⟩
  exact hPath (List.prefix_nil.1 hPrefix)

theorem isNamedDeclaration_eq_false (hn : n.kind.isDeclaration = false) : n.isNamedDeclaration = false := by
  rw [isNamedDeclaration, hn, Bool.false_and]

/-- What encloses at the root encloses all that is below it. -/
theorem isEnclosed_cons_root (hd : d.path ≠ []) :
    d.isEnclosed (⟨[], n⟩ :: ds) = (n.kind.isEnclosing || d.isEnclosed ds) := by
  rw [Bool.eq_iff_iff, Bool.or_eq_true, isEnclosed_iff, isEnclosed_iff]
  simp [Ne.symm hd]

theorem outermost_descendants_of_isEnclosing (hn : n.kind.isEnclosing = true) :
    outermost n.descendants = if n.isNamedDeclaration then [⟨[], n⟩] else [] := by
  obtain ⟨k, r, a, b, cs⟩ := n
  have hRest : (descendantsAmong 0 cs).filter (fun d => d.node.isNamedDeclaration &&
      !d.isEnclosed (⟨[], node k r a b cs⟩ :: descendantsAmong 0 cs)) = [] := by
    refine List.filter_eq_nil_iff.2 fun d hd => ?_
    rw [isEnclosed_cons_root (path_ne_nil_of_mem_descendantsAmong hd), hn]
    simp
  rw [outermost, descendants, List.filter_cons, isEnclosed_root, hRest]
  simp

theorem outermost_descendants_of_not_isEnclosing (hn : n.kind.isEnclosing = false) :
    outermost n.descendants = outermost (descendantsAmong 0 n.children) := by
  obtain ⟨k, r, a, b, cs⟩ := n
  have hNamed := isNamedDeclaration_eq_false (Bool.or_eq_false_iff.1 hn).1
  rw [outermost, descendants, List.filter_cons_of_neg (by simp [hNamed])]
  refine List.filter_congr fun d hd => ?_
  rw [isEnclosed_cons_root (path_ne_nil_of_mem_descendantsAmong hd), hn, Bool.false_or]
  rfl

/-! ## What the recursions come upon -/

mutual

/-- The declarations read off a node are the named ones that nothing at or below it encloses. -/
theorem map_node_sitesBelow : ∀ (n : Node) (parent : Kind) (parentPrevious previous : Option Node),
    (sitesBelow parent parentPrevious previous n).map Site.node = (outermost n.descendants).map Descendant.node
  | node k r a b cs, parent, parentPrevious, previous => by
    rw [sitesBelow]
    split
    case isTrue hDeclaration =>
      -- a declaration encloses all that is below it, so that at most the node itself is left
      have hEnclosing : (node k r a b cs).kind.isEnclosing = true := Bool.or_eq_true_iff.2 (.inl hDeclaration)
      have hNamed : (node k r a b cs).isNamedDeclaration = cs.any fun c => c.role == .name := by
        rw [isNamedDeclaration, show (node k r a b cs).kind.isDeclaration = true from hDeclaration, Bool.true_and]
        rfl
      rw [outermost_descendants_of_isEnclosing hEnclosing, hNamed]
      split <;> rfl
    case isFalse hDeclaration =>
      rw [Bool.not_eq_true] at hDeclaration
      split
      case isTrue hScope =>
        have hEnclosing : (node k r a b cs).kind.isEnclosing = true := Bool.or_eq_true_iff.2 (.inr hScope)
        have hNamed : (node k r a b cs).isNamedDeclaration = false := isNamedDeclaration_eq_false hDeclaration
        rw [outermost_descendants_of_isEnclosing hEnclosing, hNamed]
        rfl
      case isFalse hScope =>
        -- a node that encloses nothing is no declaration either, so that all is up to its children
        rw [Bool.not_eq_true] at hScope
        have hEnclosing : (node k r a b cs).kind.isEnclosing = false := Bool.or_eq_false_iff.2 ⟨hDeclaration, hScope⟩
        rw [outermost_descendants_of_not_isEnclosing hEnclosing]
        exact map_node_sitesAmong cs 0 k previous none

theorem map_node_sitesAmong : ∀ (ns : List Node) (i : Nat) (parent : Kind) (parentPrevious previous : Option Node),
    (sitesAmong parent parentPrevious previous ns).map Site.node =
      (outermost (descendantsAmong i ns)).map Descendant.node
  | [], i, parent, parentPrevious, previous => by
    rw [sitesAmong, descendantsAmong_nil]
    rfl
  | n :: ns, i, parent, parentPrevious, previous => by
    rw [sitesAmong, List.map_append, outermost_descendantsAmong_cons, List.map_append, List.map_map,
      map_node_sitesBelow n, map_node_sitesAmong ns (i + 1)]
    rfl

end

mutual

/-- The literals read off a node are all those at or below it. -/
theorem map_node_filter_isLiteral : ∀ n : Node,
    (n.descendants.filter fun d => d.node.kind.isLiteral).map Descendant.node = n.literals
  | node k r a b cs => by
    rw [descendants, literals, List.filter_cons]
    have hAmong := map_node_filter_isLiteral_descendantsAmong cs 0
    show List.map _ (if k.isLiteral = true then _ else _) = _
    split
    · rw [List.map_cons, hAmong]
    · exact hAmong

theorem map_node_filter_isLiteral_descendantsAmong : ∀ (ns : List Node) (i : Nat),
    ((descendantsAmong i ns).filter fun d => d.node.kind.isLiteral).map Descendant.node = literalsAmong ns
  | [], i => by simp
  | n :: ns, i => by
    rw [descendantsAmong_cons, literalsAmong_cons, List.filter_append, List.map_append, List.filter_map, List.map_map,
      map_node_filter_isLiteral_descendantsAmong ns (i + 1), ← map_node_filter_isLiteral n]
    rfl

end

/-! ## The literals of a declaration -/

theorem at?_append (p q : List Nat) (n : Node) : at? (p ++ q) n = (at? p n).bind (at? q) := by
  induction p generalizing n with
  | nil => rfl
  | cons i p ih =>
    rw [List.cons_append, at?, at?]
    cases n.children[i]? with
    | none => rfl
    | some c => exact ih c

/-- The literals in the body of a node of a tree, counted from the body. -/
theorem literalsIn_eq {body : Node} (hd : at? d.path root = some d.node)
    (hIndex : d.node.children.findIdx? (fun c => c.role == .body) = some i) (hBody : d.node.children[i]? = some body) :
    root.literalsIn d =
      (body.descendants.filter fun l => l.node.kind.isLiteral).map (Descendant.below (d.path ++ [i])) := by
  have hAt : at? (d.path ++ [i]) root = some body := by
    rw [at?_append, hd, Option.bind_some, at?, hBody]
    rfl
  rw [literalsIn, hIndex]
  show root.descendants.filter _ = _
  rw [← List.filter_filter, filter_descendants hAt, List.filter_map]
  rfl

/-- The literals that are read off the body of a node of a tree are those of the tree at or below that body. -/
theorem bodyLiterals_eq (hd : at? d.path root = some d.node) (source : List Char) :
    d.node.bodyLiterals source = (root.literalsIn d).map fun l => l.node.bodyLiteral source := by
  -- the body is the first child of its role, and the path to it ends with its number
  have hChild : d.node.child? .body =
      (d.node.children.findIdx? fun c => c.role == .body).bind (d.node.children[·]?) :=
    List.find?_eq_bind_findIdx?_getElem?
  cases hIndex : d.node.children.findIdx? fun c => c.role == .body with
  | none =>
    rw [hIndex, Option.bind_none] at hChild
    rw [bodyLiterals, hChild, literalsIn, hIndex]
    rfl
  | some i =>
    obtain ⟨hLength, -⟩ := List.findIdx?_eq_some_iff_getElem.1 hIndex
    have hBody := List.getElem?_eq_getElem hLength
    rw [hIndex, Option.bind_some, hBody] at hChild
    rw [bodyLiterals, hChild, literalsIn_eq hd hIndex hBody, List.map_map]
    show d.node.children[i].literals.map _ = _
    rw [← map_node_filter_isLiteral, List.map_map]
    rfl

/-- What is in a declaration of a tree lies below it and in its range. -/
theorem bounds_of_mem_literalsIn (h : root.isLaid = true) (hd : at? d.path root = some d.node)
    (hl : l ∈ root.literalsIn d) :
    d.path <+: l.path ∧ d.node.start ≤ l.node.start ∧ l.node.start ≤ l.node.stop ∧ l.node.stop ≤ d.node.stop := by
  have hPath : d.path <+: l.path ∧ l ∈ root.descendants := by
    rw [literalsIn] at hl
    split at hl
    · rename_i i _
      obtain ⟨hMem, hl⟩ := List.mem_filter.1 hl
      rw [Bool.and_eq_true, List.isPrefixOf_iff_prefix] at hl
      exact ⟨(List.prefix_append d.path [i]).trans hl.2, hMem⟩
    · cases hl
  have hBelow : l ∈ root.descendants.filter fun e => d.path.isPrefixOf e.path :=
    List.mem_filter.2 ⟨hPath.2, List.isPrefixOf_iff_prefix.2 hPath.1⟩
  rw [filter_descendants hd] at hBelow
  obtain ⟨e, he, rfl⟩ := List.mem_map.1 hBelow
  have hIn := bounds_of_mem_descendants d.node (isLaid_of_at? h hd) he
  exact ⟨hPath.1, hIn⟩

theorem literalsIn_sublist (root : Node) (d : Descendant) : (root.literalsIn d).Sublist root.descendants := by
  rw [literalsIn]
  split
  · exact List.filter_sublist
  · exact List.nil_sublist _

/-! ## Recorded declarations -/

theorem at?_of_mem_recorded (hd : d ∈ root.recorded) : at? d.path root = some d.node :=
  mem_descendants_iff.1 (List.mem_filter.1 hd).1

/-- A declaration, function or class that a recorded declaration stands at or below is that declaration. -/
theorem eq_of_mem_recorded (hd : d ∈ root.recorded) (he : e ∈ root.descendants)
    (hEnclosing : e.node.kind.isEnclosing = true) (hPrefix : e.path <+: d.path) : e = d := by
  by_contra hNe
  have hPath : e.path ≠ d.path := by
    intro hPath
    have hAt : at? e.path root = some e.node := mem_descendants_iff.1 he
    rw [hPath, at?_of_mem_recorded hd, Option.some_inj] at hAt
    exact hNe (Descendant.ext hPath hAt.symm)
  have hEnclosed := isEnclosed_iff.2 ⟨e, he, hEnclosing, hPath, hPrefix⟩
  have hOutermost := (List.mem_filter.1 hd).2
  rw [hEnclosed] at hOutermost
  simp at hOutermost

theorem isEnclosing_of_mem_recorded (hd : d ∈ root.recorded) : d.node.kind.isEnclosing = true := by
  have hNamed := (List.mem_filter.1 hd).2
  simp only [isNamedDeclaration, Bool.and_eq_true] at hNamed
  exact Bool.or_eq_true_iff.2 (.inl hNamed.1.1)

/-- A recorded declaration ends before the next begins, and neither is above the other. -/
theorem pairwise_recorded (h : root.isLaid = true) :
    root.recorded.Pairwise fun d e => (¬ d.path <+: e.path ∧ ¬ e.path <+: d.path) ∧ d.node.stop ≤ e.node.start := by
  have hBefore : root.recorded.Pairwise Descendant.Before := (pairwise_descendants root h).sublist List.filter_sublist
  refine hBefore.imp_of_mem fun {d e} hd he hBefore => ?_
  -- the first one encloses all that stands below it
  have hNotAbove : ¬ d.path <+: e.path := by
    intro hPrefix
    have hEq := eq_of_mem_recorded he (List.mem_filter.1 hd).1 (isEnclosing_of_mem_recorded hd) hPrefix
    exact hBefore.not_below (hEq ▸ List.prefix_rfl)
  exact ⟨⟨hNotAbove, hBefore.not_below⟩, hBefore.above_or_ends.resolve_left hNotAbove⟩

/-- The literals of all declarations, one declaration after the other, stand in order and each once. -/
theorem pairwise_flatMap_literalsIn (h : root.isLaid = true) :
    (root.recorded.flatMap root.literalsIn).Pairwise fun l m =>
      ¬ m.path <+: l.path ∧ l.node.start ≤ m.node.start := by
  refine List.pairwise_flatMap.2 ⟨fun d hd => ?_, ?_⟩
  · have hBefore := (pairwise_descendants root h).sublist (literalsIn_sublist root d)
    exact hBefore.imp fun hBefore => ⟨hBefore.not_below, hBefore.start_le⟩
  · refine (pairwise_recorded h).imp_of_mem fun {d e} hd he hApart l hl m hm => ?_
    obtain ⟨hBelow, hIn⟩ := bounds_of_mem_literalsIn h (at?_of_mem_recorded hd) hl
    obtain ⟨hBelow', hIn'⟩ := bounds_of_mem_literalsIn h (at?_of_mem_recorded he) hm
    obtain ⟨⟨hNot, hNot'⟩, hEnds⟩ := hApart
    refine ⟨fun hPrefix => ?_, by omega⟩
    -- a path below both declarations would put one of them above the other
    rcases List.prefix_or_prefix_of_prefix hBelow (hBelow'.trans hPrefix) with hAbove | hAbove
    · exact hNot hAbove
    · exact hNot' hAbove

/-! ## Attribution -/

/-- The literals of a tree go to its declarations, no literal to two of them or twice to one. -/
structure Attribution (root : Node) : Prop where
  /-- A node is listed with a path if and only if the path leads to it. -/
  complete : ∀ p m, ⟨p, m⟩ ∈ root.descendants ↔ at? p root = some m
  /-- The declarations read off the tree are the named ones that no declaration, function or class encloses. -/
  declarations : root.sites.map Site.node = root.recorded.map Descendant.node
  /-- None stands below a declaration, function or class. -/
  outermost : ∀ d ∈ root.recorded, ∀ e ∈ root.descendants,
    e.node.kind.isDeclaration = true ∨ e.node.kind.isFunctionScope = true → e.path <+: d.path → e = d
  /-- They stand in order, and their ranges are disjoint. -/
  disjoint : root.recorded.Pairwise fun d e => d.node.stop ≤ e.node.start
  /-- None stands below another. -/
  apart : root.recorded.Pairwise fun d e => ¬ d.path <+: e.path ∧ ¬ e.path <+: d.path
  /-- The literals of each are those at or below its body, and no others. -/
  literals : ∀ source, root.sites.map (fun s => (s.declaration source).literals) =
    root.recorded.map fun d => (root.literalsIn d).map fun l => l.node.bodyLiteral source
  /-- In the literals of all declarations, none comes back or comes behind one that is inside it, and none begins
  before an earlier one. -/
  once : (root.recorded.flatMap root.literalsIn).Pairwise fun l m =>
    ¬ m.path <+: l.path ∧ l.node.start ≤ m.node.start

/-- In a tree with ranges in order, the recursion for declarations and the one for literals give each literal in the
body of an outermost declaration to that declaration, once and in order, and no other literal to any. -/
theorem attribution_of_isLaid (h : root.isLaid = true) : root.Attribution where
  complete _ _ := mem_descendants_iff
  declarations := map_node_sitesBelow root .other none none
  outermost _ hd _ he hKind := eq_of_mem_recorded hd he (Bool.or_eq_true_iff.2 hKind)
  disjoint := (pairwise_recorded h).imp fun hApart => hApart.2
  apart := (pairwise_recorded h).imp fun hApart => hApart.1
  literals source := by
    have hSites : root.sites.map (fun s => (s.declaration source).literals) =
        (root.sites.map Site.node).map fun n => n.bodyLiterals source := by
      rw [List.map_map]
      rfl
    rw [hSites, sites, map_node_sitesBelow root, List.map_map]
    exact List.map_congr_left fun d hd => bodyLiterals_eq (at?_of_mem_recorded hd) source
  once := pairwise_flatMap_literalsIn h

/-- A declaration with a function and a template inside, behind a class with a declaration in a method, and before
another declaration. -/
theorem attribution_of_isLaid_nested :
    ∃ root, root = ofSource .typescript ("class C\x7bm()\x7bfunction n()\x7b'a'\x7d\x7d\x7d" ++
        "function f()\x7bfunction g()\x7b'b'\x7d`c$\x7b'd'\x7d`\x7dfunction h()\x7b'e'\x7d").toList ∧
      root.isLaid = true ∧ (root.recorded.map fun d => (root.literalsIn d).length) = [3, 1] ∧ root.Attribution :=
  ⟨_, rfl, by decide +kernel, by decide +kernel, attribution_of_isLaid (by decide +kernel)⟩

end Node

end SqlSurvey.TypeScript
