import SqlSurvey.Proofs.TypeScript.Grammar
import SqlSurvey.Proofs.TypeScript.Passing
import SqlSurvey.Proofs.Literal.Place

/-!
# The literals of functions among the fragments

The literals in the bodies of functions are read off the syntax tree of a source, its fragments by a scanner that
knows only quotes, comments and braces. A literal that looks like SQL as it is written is found by
both, at the same place, if what begins before its end is clear to the scanner.
-/

namespace SqlSurvey.TypeScript

open Literal (Occurrence State)

variable {dialect : Dialect} {source : List Char}

namespace Node

/-! ## Literals of declarations -/

mutual

/-- The literals of a declaration below a node are literals of the node. -/
theorem literals_of_mem_sitesBelow : ∀ (n : Node) {parent : Kind} {parentPrevious previous : Option Node} {s : Site},
    s ∈ sitesBelow parent parentPrevious previous n → ∀ l ∈ s.node.literals, l ∈ n.literals
  | node k r a b cs, parent, parentPrevious, previous, s, hs, l, hl => by
    rw [sitesBelow] at hs
    split at hs
    · split at hs
      · rw [List.mem_singleton.1 hs] at hl
        exact hl
      · cases hs
    split at hs
    · cases hs
    · have hAmong := literals_of_mem_sitesAmong cs hs l hl
      rw [literals]
      split
      · exact List.mem_cons_of_mem _ hAmong
      · exact hAmong

theorem literals_of_mem_sitesAmong : ∀ (ns : List Node) {parent : Kind} {parentPrevious previous : Option Node}
    {s : Site}, s ∈ sitesAmong parent parentPrevious previous ns → ∀ l ∈ s.node.literals, l ∈ literalsAmong ns
  | [], _, _, _, _, hs, _, _ => by
    rw [sitesAmong] at hs
    cases hs
  | n :: ns, parent, parentPrevious, previous, s, hs, l, hl => by
    rw [sitesAmong, List.mem_append] at hs
    rw [literalsAmong, List.mem_append]
    rcases hs with hs | hs
    · exact .inl (literals_of_mem_sitesBelow n hs l hl)
    · exact .inr (literals_of_mem_sitesAmong ns hs l hl)

end

theorem literals_subset_literalsAmong {n : Node} {ns : List Node} (hn : n ∈ ns) :
    n.literals ⊆ literalsAmong ns := by
  induction ns with
  | nil => cases hn
  | cons m ns ih =>
    rw [literalsAmong]
    rcases List.mem_cons.1 hn with rfl | hn
    · exact List.subset_append_left _ _
    · exact List.Subset.trans (ih hn) (List.subset_append_right _ _)

theorem literalsAmong_children_subset (n : Node) : literalsAmong n.children ⊆ n.literals := by
  cases n
  rw [literals]
  split
  · exact List.subset_cons_self _ _
  · exact List.Subset.refl _

/-- A literal in the body of a function is the one at a node among those below the root. -/
theorem exists_of_mem_bodyLiterals {n : Node} {l : BodyLiteral} (hl : l ∈ n.bodyLiterals source) :
    ∃ m ∈ n.literals, l = m.bodyLiteral source := by
  unfold bodyLiterals at hl
  split at hl
  · rename_i body hBody
    obtain ⟨m, hm, rfl⟩ := List.mem_map.1 hl
    have hChild : body ∈ n.children := List.mem_of_find?_eq_some hBody
    exact ⟨m, n.literalsAmong_children_subset (literals_subset_literalsAmong hChild hm), rfl⟩
  · cases hl

end Node

theorem exists_node_of_mem_declarations {d : Declaration} {l : BodyLiteral} (hd : d ∈ declarations dialect source)
    (hl : l ∈ d.literals) :
    ∃ n ∈ Node.literalsAmong (Node.ofSource dialect source).children, l = n.bodyLiteral source := by
  obtain ⟨s, hs, rfl⟩ := List.mem_map.1 hd
  obtain ⟨n, hn, rfl⟩ := Node.exists_of_mem_bodyLiterals hl
  refine ⟨n, ?_, rfl⟩
  have hRoot := Node.literals_of_mem_sitesBelow _ hs n hn
  exact hRoot

/-! ## Fragments -/

/-- Between its delimiters, which take one byte each, stands the body of a literal. -/
theorem StandsAt.innerText_eq {n : Node} {o : Occurrence} (h : StandsAt source n o) : n.innerText source = o.body := by
  obtain ⟨-, u, v, hu, hSource⟩ := h.within
  obtain rfl : o.before = u := hu
  have hSlice := Text.slice_append (o.before ++ o.delimiter) o.body (o.delimiter ++ v)
  have hStart : n.start + 1 = Text.byteLength (o.before ++ o.delimiter) := by
    rw [Text.byteLength_append, h.delimiter, h.start]
  have hStop : n.stop - 1 = Text.byteLength (o.before ++ o.delimiter) + Text.byteLength o.body := by
    rw [h.stop, Occurrence.text]
    simp only [Text.byteLength_append, h.delimiter]
    omega
  have hSplit : o.before ++ o.delimiter ++ (o.body ++ (o.delimiter ++ v)) = source := by
    rw [← hSource, Occurrence.text]
    simp only [List.append_assoc]
  rw [Node.innerText, hStart, hStop, ← hSplit, hSlice]

/-- A literal that has been recorded where a node stands gives a fragment with the span of the node. -/
theorem exists_fragment_of_recorded {n : Node} (h : Recorded source n (Literal.allIn source))
    (hSql : looksLikeSql (Text.trim (n.innerText source)) = true) :
    ∃ f ∈ Fragment.allIn source, f.span.offset = n.start ∧ f.span.length = n.stop - n.start := by
  obtain ⟨o, ho, hMem⟩ := h
  rw [ho.innerText_eq] at hSql
  have hFragment := Literal.ofLiteral?_literal ho.within
  rw [Occurrence.fragment?, if_pos hSql] at hFragment
  refine ⟨_, List.mem_filterMap.2 ⟨o.literal, hMem, hFragment⟩, ho.start.symm, ?_⟩
  show Text.byteLength o.text = n.stop - n.start
  rw [ho.start, ho.stop, Text.byteLength_append]
  omega

/-- The literal at a node is recorded if what begins before its end is clear. -/
theorem recorded_allIn {n : Node} (hn : n ∈ Node.literalsAmong (Node.ofSource dialect source).children)
    (hClear : ∀ m ∈ (Node.ofSource dialect source).outline .code, m.start < n.stop → m.isClear source = true) :
    Recorded source n (Literal.allIn source) := by
  obtain ⟨d, hCovers⟩ := covers_ofSource dialect source
  have hStart : (⟨source, 0⟩ : Cursor).Follows source [] := ⟨rfl, rfl⟩
  have hRoot : (Node.ofSource dialect source).outline .code =
      Node.ofSource dialect source :: Node.outlineAmong .code (Node.ofSource dialect source).children :=
    Node.outline_of_isPlain rfl
  rw [hRoot] at hClear
  have hFinds : Context.code.Finds source _ _ n :=
    hCovers.finds hStart hn fun m hm => hClear m (List.mem_cons_of_mem _ hm)
  -- no template is open around the source
  have hOutside : depthsAfter (Node.codeAmong source (Node.ofSource dialect source).children) none = some none := rfl
  obtain ⟨o, ho, hMem⟩ : Recorded source n (State.initial.outcome source) := hFinds 0 [] [] hOutside
  refine ⟨o, ho, (Literal.perm_foldl_insertByStart _ []).mem_iff.2 ?_⟩
  rw [List.append_nil]
  exact hMem

/-- In a source, a literal of a function looks like SQL, and no fragment has its span. -/
def Misses (dialect : Dialect) (source : List Char) : Prop :=
  ∃ d ∈ declarations dialect source, ∃ l ∈ d.literals, looksLikeSql (Text.trim l.body) = true ∧
    ∀ f ∈ Fragment.allIn source, ¬ (f.span.offset = l.span.offset ∧ f.span.length = l.span.length)

instance (dialect : Dialect) (source : List Char) : Decidable (Misses dialect source) :=
  inferInstanceAs (Decidable (∃ d ∈ declarations dialect source, ∃ l ∈ d.literals,
    looksLikeSql (Text.trim l.body) = true ∧
      ∀ f ∈ Fragment.allIn source, ¬ (f.span.offset = l.span.offset ∧ f.span.length = l.span.length)))

end SqlSurvey.TypeScript
