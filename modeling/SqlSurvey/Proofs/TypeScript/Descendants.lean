import SqlSurvey.TypeScript.Node
import Mathlib.Data.List.Infix

/-!
# The nodes of a syntax tree and the paths to them

Equal nodes may stand at several places of a tree, so which nodes a recursion over a tree has come upon is said of
nodes with their paths. `Node.descendants` lists them, a node before those below it, and `Node.isLaid` says that the
ranges of a tree lie within and behind each other as the nodes do.
-/

namespace SqlSurvey.TypeScript

namespace Node

/-- A node at or below another one. The path to it has the number of a child for each step down. -/
@[ext]
structure Descendant where
  path : List Nat
  node : Node

namespace Descendant

/-- A descendant of the child of number `i`, as one of the parent. -/
def under (i : Nat) (d : Descendant) : Descendant := ⟨i :: d.path, d.node⟩

/-- A descendant of the node at a path, as one of the root. -/
def below (p : List Nat) (d : Descendant) : Descendant := ⟨p ++ d.path, d.node⟩

@[simp] theorem path_under (i : Nat) (d : Descendant) : (d.under i).path = i :: d.path := rfl

@[simp] theorem node_under (i : Nat) (d : Descendant) : (d.under i).node = d.node := rfl

/-- One descendant comes before another: it does not stand at or below the other, does not begin behind it, and has the
other below it or ends before the other begins. -/
structure Before (d e : Descendant) : Prop where
  not_below : ¬ e.path <+: d.path
  start_le : d.node.start ≤ e.node.start
  above_or_ends : d.path <+: e.path ∨ d.node.stop ≤ e.node.start

theorem Before.under {d e : Descendant} (h : d.Before e) (i : Nat) : (d.under i).Before (e.under i) where
  not_below hPrefix := h.not_below ((List.prefix_cons_inj i).1 hPrefix)
  start_le := h.start_le
  above_or_ends := h.above_or_ends.imp_left (List.prefix_cons_inj i).2

end Descendant

mutual

/-- The nodes at or below a node, a node before those below it. -/
def descendants : Node → List Descendant
  | node k r a b cs => ⟨[], node k r a b cs⟩ :: descendantsAmong 0 cs

/-- The nodes at or below the nodes of a list, the first of which is the child of number `i`. -/
def descendantsAmong (i : Nat) : List Node → List Descendant
  | [] => []
  | c :: cs => c.descendants.map (Descendant.under i) ++ descendantsAmong (i + 1) cs

end

/-- The node that a path leads to. -/
def at? : List Nat → Node → Option Node
  | [], n => some n
  | i :: p, n => n.children[i]?.bind fun c => at? p c

mutual

/-- Whether the ranges at or below a node are those of a tree: the ranges of children lie in that of their parent, in
order and disjoint, and a template has two bytes at least. -/
def isLaid : Node → Bool
  | node k _ a b cs => (k != .template || decide (a + 2 ≤ b)) && laidAmong a b cs

/-- Whether the ranges at or below the nodes of a list are those of trees and lie from `a` to `b`, in order and
disjoint. -/
def laidAmong (a b : Nat) : List Node → Bool
  | [] => decide (a ≤ b)
  | c :: cs => decide (a ≤ c.start) && c.isLaid && laidAmong c.stop b cs

end

/-! ## Which nodes are listed -/

variable {i : Nat} {p : List Nat} {n m : Node} {ns : List Node} {d : Descendant}

@[simp] theorem descendantsAmong_nil (i : Nat) : descendantsAmong i [] = [] := by
  rw [descendantsAmong]

@[simp] theorem descendantsAmong_cons (i : Nat) (n : Node) (ns : List Node) :
    descendantsAmong i (n :: ns) = n.descendants.map (Descendant.under i) ++ descendantsAmong (i + 1) ns := by
  rw [descendantsAmong]

/-- The path to a descendant begins with the number of a node of the list. -/
theorem exists_path_of_mem_descendantsAmong (hd : d ∈ descendantsAmong i ns) :
    ∃ j p, i ≤ j ∧ d.path = j :: p := by
  induction ns generalizing i with
  | nil => simp at hd
  | cons n ns ih =>
    rw [descendantsAmong_cons, List.mem_append, List.mem_map] at hd
    rcases hd with ⟨e, -, rfl⟩ | hd
    · exact ⟨i, e.path, le_rfl, rfl⟩
    · obtain ⟨j, p, hj, hPath⟩ := ih hd
      exact ⟨j, p, Nat.le_of_succ_le hj, hPath⟩

theorem path_ne_nil_of_mem_descendantsAmong (hd : d ∈ descendantsAmong i ns) : d.path ≠ [] := by
  obtain ⟨j, p, -, hPath⟩ := exists_path_of_mem_descendantsAmong hd
  rw [hPath]
  exact List.cons_ne_nil j p

/-- Nodes below different children do not lie below each other. -/
theorem not_prefix_of_under {e : Descendant} (hd : d ∈ descendantsAmong (i + 1) ns) :
    ¬ (e.under i).path <+: d.path ∧ ¬ d.path <+: (e.under i).path := by
  obtain ⟨j, p, hj, hPath⟩ := exists_path_of_mem_descendantsAmong hd
  rw [hPath, Descendant.path_under, List.cons_prefix_cons, List.cons_prefix_cons]
  omega

/-- The descendants below a child are those of the child. -/
theorem filter_descendantsAmong {j : Nat} (hn : ns[j]? = some n) (p : List Nat) :
    (descendantsAmong i ns).filter (fun d => ((i + j) :: p).isPrefixOf d.path) =
      (n.descendants.filter fun d => p.isPrefixOf d.path).map (Descendant.under (i + j)) := by
  induction ns generalizing i j with
  | nil => simp at hn
  | cons m ns ih =>
    rw [descendantsAmong_cons, List.filter_append]
    cases j with
    | zero =>
      -- no node further on has the number of the first one
      obtain rfl : m = n := by simpa using hn
      have hRest : (descendantsAmong (i + 1) ns).filter (fun d => (i :: p).isPrefixOf d.path) = [] := by
        refine List.filter_eq_nil_iff.2 fun d hd hPrefix => ?_
        exact (not_prefix_of_under (e := ⟨p, m⟩) hd).1 (List.isPrefixOf_iff_prefix.1 hPrefix)
      rw [Nat.add_zero, hRest, List.append_nil, List.filter_map]
      congr 2
      funext d
      simp [Descendant.under]
    | succ j =>
      -- none of the first one's descendants begins with a later number
      have hFirst : (m.descendants.map (Descendant.under i)).filter
          (fun d => ((i + (j + 1)) :: p).isPrefixOf d.path) = [] := by
        refine List.filter_eq_nil_iff.2 fun d hd hPrefix => ?_
        obtain ⟨e, -, rfl⟩ := List.mem_map.1 hd
        have hHead := (List.cons_prefix_cons.1 (List.isPrefixOf_iff_prefix.1 hPrefix)).1
        omega
      rw [hFirst, List.nil_append, show i + (j + 1) = i + 1 + j by omega]
      exact ih (by simpa using hn)

/-- The descendants below a path are those of the node there. -/
theorem filter_descendants (h : at? p n = some m) :
    n.descendants.filter (fun d => p.isPrefixOf d.path) = m.descendants.map (Descendant.below p) := by
  induction p generalizing n with
  | nil =>
    obtain rfl : n = m := by simpa [at?] using h
    have hAll : n.descendants.filter (fun d => [].isPrefixOf d.path) = n.descendants :=
      List.filter_eq_self.2 fun _ _ => rfl
    rw [hAll]
    exact (List.map_id _).symm
  | cons i p ih =>
    obtain ⟨k, r, a, b, cs⟩ := n
    obtain ⟨c, hc, hAt⟩ := Option.bind_eq_some_iff.1 h
    have hChild := filter_descendantsAmong (i := 0) hc p
    rw [Nat.zero_add, ih hAt, List.map_map] at hChild
    rw [descendants, List.filter_cons_of_neg (by simp)]
    exact hChild

/-- The node that a path leads to is listed first among its own descendants. -/
theorem mem_descendants_self (n : Node) : ⟨[], n⟩ ∈ n.descendants := by
  cases n
  rw [descendants]
  exact List.mem_cons_self

mutual

/-- The path to a descendant leads to it. -/
theorem at?_of_mem_descendants : ∀ (n : Node) {d : Descendant}, d ∈ n.descendants → at? d.path n = some d.node
  | node k r a b cs, d, hd => by
    rw [descendants, List.mem_cons] at hd
    rcases hd with rfl | hd
    · rfl
    · obtain ⟨j, c, p, hc, hPath, hAt⟩ := at?_of_mem_descendantsAmong cs hd
      rw [hPath, Nat.zero_add, at?]
      show cs[j]?.bind _ = _
      rw [hc]
      exact hAt

theorem at?_of_mem_descendantsAmong : ∀ (ns : List Node) {i : Nat} {d : Descendant}, d ∈ descendantsAmong i ns →
    ∃ j c p, ns[j]? = some c ∧ d.path = (i + j) :: p ∧ at? p c = some d.node
  | [], _, _, hd => by simp at hd
  | n :: ns, i, d, hd => by
    rw [descendantsAmong_cons, List.mem_append, List.mem_map] at hd
    rcases hd with ⟨e, he, rfl⟩ | hd
    · exact ⟨0, n, e.path, rfl, rfl, at?_of_mem_descendants n he⟩
    · obtain ⟨j, c, p, hc, hPath, hAt⟩ := at?_of_mem_descendantsAmong ns hd
      exact ⟨j + 1, c, p, hc, by rw [hPath]; congr 1; omega, hAt⟩

end

/-- A node is listed with a path if and only if the path leads to it. -/
theorem mem_descendants_iff : ⟨p, m⟩ ∈ n.descendants ↔ at? p n = some m := by
  refine ⟨fun h => at?_of_mem_descendants n h, fun h => ?_⟩
  have hMem : (⟨p, m⟩ : Descendant) ∈ m.descendants.map (Descendant.below p) :=
    List.mem_map.2 ⟨⟨[], m⟩, mem_descendants_self m, by simp [Descendant.below]⟩
  rw [← filter_descendants h] at hMem
  exact (List.mem_filter.1 hMem).1

/-! ## Ranges -/

theorem laidAmong_cons {a b : Nat} (h : laidAmong a b (n :: ns) = true) :
    a ≤ n.start ∧ n.isLaid = true ∧ laidAmong n.stop b ns = true := by
  rw [laidAmong, Bool.and_eq_true, Bool.and_eq_true, decide_eq_true_eq] at h
  exact ⟨h.1.1, h.1.2, h.2⟩

theorem laidAmong_of_isLaid (h : n.isLaid = true) : laidAmong n.start n.stop n.children = true := by
  cases n
  rw [isLaid, Bool.and_eq_true] at h
  exact h.2

mutual

/-- A descendant lies in the range of the node. -/
theorem bounds_of_mem_descendants : ∀ (n : Node) {d : Descendant}, n.isLaid = true → d ∈ n.descendants →
    n.start ≤ d.node.start ∧ d.node.start ≤ d.node.stop ∧ d.node.stop ≤ n.stop
  | node k r a b cs, d, h, hd => by
    have hAmong : laidAmong a b cs = true := laidAmong_of_isLaid h
    rw [descendants, List.mem_cons] at hd
    rcases hd with rfl | hd
    · exact ⟨le_rfl, (bounds_of_mem_descendantsAmong cs 0 hAmong).1, le_rfl⟩
    · exact (bounds_of_mem_descendantsAmong cs 0 hAmong).2 d hd

theorem bounds_of_mem_descendantsAmong : ∀ (ns : List Node) {a b : Nat} (i : Nat), laidAmong a b ns = true →
    a ≤ b ∧ ∀ d ∈ descendantsAmong i ns, a ≤ d.node.start ∧ d.node.start ≤ d.node.stop ∧ d.node.stop ≤ b
  | [], a, b, i, h => by
    rw [laidAmong, decide_eq_true_eq] at h
    exact ⟨h, by simp⟩
  | n :: ns, a, b, i, h => by
    obtain ⟨hStart, hFirst, hRest⟩ := laidAmong_cons h
    have hSelf := bounds_of_mem_descendants n hFirst (mem_descendants_self n)
    obtain ⟨hStop, hBehind⟩ := bounds_of_mem_descendantsAmong ns (i + 1) hRest
    refine ⟨by omega, fun d hd => ?_⟩
    rw [descendantsAmong_cons, List.mem_append, List.mem_map] at hd
    rcases hd with ⟨e, he, rfl⟩ | hd
    · have hIn := bounds_of_mem_descendants n hFirst he
      rw [Descendant.node_under]
      omega
    · have hIn := hBehind d hd
      omega

end

mutual

/-- The descendants of a node are listed in order. -/
theorem pairwise_descendants : ∀ n : Node, n.isLaid = true → n.descendants.Pairwise Descendant.Before
  | node k r a b cs, h => by
    have hAmong : laidAmong a b cs = true := laidAmong_of_isLaid h
    rw [descendants]
    refine List.pairwise_cons.2 ⟨fun d hd => ?_, pairwise_descendantsAmong cs 0 hAmong⟩
    exact ⟨fun hPrefix => path_ne_nil_of_mem_descendantsAmong hd (List.prefix_nil.1 hPrefix),
      ((bounds_of_mem_descendantsAmong cs 0 hAmong).2 d hd).1, .inl List.nil_prefix⟩

theorem pairwise_descendantsAmong : ∀ (ns : List Node) {a b : Nat} (i : Nat), laidAmong a b ns = true →
    (descendantsAmong i ns).Pairwise Descendant.Before
  | [], _, _, _, _ => by simp
  | n :: ns, a, b, i, h => by
    obtain ⟨-, hFirst, hRest⟩ := laidAmong_cons h
    rw [descendantsAmong_cons]
    refine List.pairwise_append.2 ⟨?_, pairwise_descendantsAmong ns (i + 1) hRest, ?_⟩
    · exact (pairwise_descendants n hFirst).map _ fun _ _ hBefore => hBefore.under i
    · -- what is below one node ends before what is below a later one
      intro d hd e he
      obtain ⟨f, hf, rfl⟩ := List.mem_map.1 hd
      have hIn := bounds_of_mem_descendants n hFirst hf
      have hBehind := (bounds_of_mem_descendantsAmong ns (i + 1) hRest).2 e he
      have hEnds : (f.under i).node.stop ≤ e.node.start := by
        rw [Descendant.node_under]
        omega
      have hStarts : (f.under i).node.start ≤ e.node.start := by
        rw [Descendant.node_under]
        omega
      exact ⟨(not_prefix_of_under he).2, hStarts, .inr hEnds⟩

end

theorem isLaid_of_mem {a b : Nat} (h : laidAmong a b ns = true) (hn : n ∈ ns) : n.isLaid = true := by
  induction ns generalizing a with
  | nil => cases hn
  | cons m ns ih =>
    obtain ⟨-, hFirst, hRest⟩ := laidAmong_cons h
    rcases List.mem_cons.1 hn with rfl | hn
    · exact hFirst
    · exact ih hRest hn

theorem isLaid_of_at? (h : n.isLaid = true) (hAt : at? p n = some m) : m.isLaid = true := by
  induction p generalizing n with
  | nil =>
    obtain rfl : n = m := by simpa [at?] using hAt
    exact h
  | cons i p ih =>
    obtain ⟨c, hc, hAt⟩ := Option.bind_eq_some_iff.1 hAt
    exact ih (isLaid_of_mem (laidAmong_of_isLaid h) (List.mem_of_getElem? hc)) hAt

end Node

end SqlSurvey.TypeScript
