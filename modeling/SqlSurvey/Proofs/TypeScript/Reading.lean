import SqlSurvey.Proofs.TypeScript.Rule

/-!
# What the grammar reads

The nodes that the rules of the language read cover the text that they read.
-/

namespace SqlSurvey.TypeScript

namespace Lexeme

variable {s w : List Char} {n : Nat}

theorem exactly_spec (h : exactly w s = some n) : ∃ r, s = w ++ r ∧ n = w.length := by
  unfold exactly at h
  split at h
  · rename_i hPrefix
    obtain ⟨r, rfl⟩ := List.isPrefixOf_iff_prefix.1 hPrefix
    exact ⟨r, rfl, (Option.some.inj h).symm⟩
  · cases h

theorem templateEscape_spec (h : templateEscape s = some n) : n = 2 ∧ ∃ x r, s = '\\' :: x :: r := by
  unfold templateEscape at h
  split at h
  · rename_i x r
    exact ⟨(Option.some.inj h).symm, x, r, rfl⟩
  · cases h

/-- Where no text of a template stands, no white space and no comment does. -/
theorem skipTrivia_of_templateChars {c : Cursor} (h : templateChars c.rest = none) : c.skipTrivia = ([], c) := by
  have hZero : templateLength c.rest = 0 := by
    unfold templateChars at h
    split at h
    · assumption
    · cases h
  cases hRest : c.rest with
  | nil =>
    rw [Cursor.skipTrivia]
    split <;> simp_all
  | cons d r =>
    rw [hRest] at hZero
    have hMarks : d = '\x60' ∨ d = '\\' ∨ d = '$' := by
      unfold templateLength at hZero
      split at hZero <;> simp_all
    rcases hMarks with rfl | rfl | rfl
    · exact Cursor.skipTrivia_of_head hRest (by decide) (by decide)
    · exact Cursor.skipTrivia_of_head hRest (by decide) (by decide)
    · exact Cursor.skipTrivia_of_head hRest (by decide) (by decide)

end Lexeme

namespace Grammar

open Rule

variable {dialect : Dialect} {fuel : Nat} {c d e : Cursor} {ns : List Node} {q : Char} {k : Kind}

/-! ## Strings -/

/-- Nodes without literals stand where a text of some form does. -/
def StandFor (P : List Char → Prop) (c : Cursor) (ns : List Node) (d : Cursor) : Prop :=
  Node.literalsAmong ns = [] ∧ ∃ text, P text ∧ c.rest = text ++ d.rest ∧ d = c.advance text.length

variable {P : List Char → Prop}

theorem standFor_nil (h : P []) (c : Cursor) : StandFor P c [] c :=
  ⟨Node.literalsAmong_nil, [], h, rfl, c.advance_zero.symm⟩

theorem standFor_leaf {n : Nat} (h : P (c.rest.take n)) : StandFor P c [c.leaf .other n] (c.advance n) :=
  ⟨by simp [Cursor.leaf, Node.literals, Kind.isLiteral], c.rest.take n, h, c.rest_advance n,
    (c.advance_length_take n).symm⟩

theorem StandFor.append (hP : ∀ {u v}, P u → P v → P (u ++ v)) {ms : List Node} (h : StandFor P c ns d)
    (h' : StandFor P d ms e) : StandFor P c (ns ++ ms) e := by
  obtain ⟨hns, u, hu, hRest, rfl⟩ := h
  obtain ⟨hms, v, hv, hRest', rfl⟩ := h'
  refine ⟨by simp [hns, hms], u ++ v, hP hu hv, ?_, ?_⟩
  · rw [hRest, hRest', List.append_assoc]
  · rw [Cursor.advance_advance, List.length_append]

theorem StandFor.mono {Q : List Char → Prop} (hPQ : ∀ {u}, P u → Q u) (h : StandFor P c ns d) :
    StandFor Q c ns d :=
  ⟨h.1, h.2.imp fun _ hu => ⟨hPQ hu.1, hu.2⟩⟩

/-- A text that adds no quote to any text behind it. -/
def Transparent (q : Char) (text : List Char) : Prop := ∀ r, quoteless q r = true → quoteless q (text ++ r) = true

theorem Transparent.append {u v : List Char} (hu : Transparent q u) (hv : Transparent q v) :
    Transparent q (u ++ v) := by
  intro r hr
  rw [List.append_assoc]
  exact hu _ (hv r hr)

theorem Transparent.quoteless {u : List Char} (h : Transparent q u) : quoteless q u = true := by
  simpa using h [] rfl

theorem transparent_of_forall {u : List Char} (h : ∀ x ∈ u, x ≠ '\\' ∧ x ≠ q) : Transparent q u := by
  intro r hr
  rw [quoteless_append h, hr]

theorem transparent_escape {s : List Char} {n : Nat} (hq : Literal.isStringQuote q = true)
    (h : Lexeme.escape s = some n) : Transparent q (s.take n) := by
  intro r hr
  obtain ⟨x, u, hTake, hu⟩ := Lexeme.escape_spec h
  have hInert : ∀ y ∈ u, y ≠ '\\' ∧ y ≠ q := by
    intro y hy
    obtain ⟨hBackslash, hQuote⟩ := hu y hy
    refine ⟨hBackslash, ?_⟩
    rintro rfl
    rw [hq] at hQuote
    cases hQuote
  rw [hTake, List.cons_append, List.cons_append, TypeScript.quoteless, quoteless_append hInert, hr]

/-- A text without a quote. -/
theorem quoteless_of_not_mem {u : List Char} (h : q ∉ u) : quoteless q u = true := by
  fun_induction quoteless q u with
  | case1 => rfl
  | case2 x u ih => exact ih (fun hu => h (by simp [hu]))
  | case3 x u _ ih =>
    rw [List.mem_cons, not_or] at h
    simp [ih h.2, Ne.symm h.1]

/-- What is read between two quotes makes a string. -/
theorem covers_string {m : Nat} {text : R} (hk : k.isString = true) (hq : Literal.isStringQuote q = true)
    (hText : ∀ {m c ns d}, read rules dialect m text c = some (ns, d) →
      StandFor (fun u => quoteless q u = true) c ns d)
    (h : read rules dialect m (node k .none (inOrder [
      lexeme .token (Lexeme.exactly [q]), text, glued .token (Lexeme.exactly [q])])) c = some (ns, e)) :
    Covers .code c ns e := by
  obtain ⟨_, -, cs, hInner, rfl⟩ := of_read_node h
  obtain ⟨_, -, _, d, _, hOpen, hRest, rfl⟩ := of_read_seq hInner
  obtain ⟨n, hn, rfl, rfl⟩ := of_read_lexeme hOpen
  obtain ⟨_, -, us, d, _, hText', hClose, rfl⟩ := of_read_seq hRest
  obtain ⟨n', hn', rfl, rfl⟩ := of_read_glued hClose
  obtain ⟨hus, body, hBody, hBodyRest, rfl⟩ := hText hText'
  rw [Cursor.skipTrivia_skipTrivia] at *
  obtain ⟨r, hr, rfl⟩ := Lexeme.exactly_spec hn
  obtain ⟨r', hr', rfl⟩ := Lexeme.exactly_spec hn'
  have hWhole : c.skipTrivia.2.rest = q :: (body ++ q :: r') := by
    have hTail : (c.skipTrivia.2.advance [q].length).rest = r := by
      rw [Cursor.advance, hr, List.drop_left]
    rw [hr, ← hTail, hBodyRest, hr']
    rfl
  have hEnd : ((c.skipTrivia.2.advance [q].length).advance body.length).advance [q].length =
      c.skipTrivia.2.advance (body.length + 2) := by
    rw [Cursor.advance_advance, Cursor.advance_advance, List.length_singleton]
    congr 1
    omega
  rw [hEnd]
  refine (c.covers_skipTrivia).append (.string .none hk ?_ hq hBody hWhole)
  simp [hus, Cursor.leaf, Node.literals, Kind.isLiteral]

theorem covers_quotedString (hq : Literal.isStringQuote q = true)
    (h : read rules dialect fuel (quotedString q) c = some (ns, e)) : Covers .code c ns e := by
  refine covers_string rfl hq (fun hText => ?_) h
  have hUnits : StandFor (Transparent q) _ _ _ :=
    of_read_many (standFor_nil fun _ hr => hr) (StandFor.append Transparent.append) (fun m _ c ns d hItem => by
      obtain ⟨_, -, hChars | ⟨-, hEscape⟩⟩ := of_read_either hItem
      · obtain ⟨n, hn, rfl, rfl⟩ := of_read_glued hChars
        refine standFor_leaf (transparent_of_forall fun x hx => ?_)
        have hStops := Lexeme.upTo_spec hn x hx
        simp_all
      · obtain ⟨n, hn, rfl, rfl⟩ := of_read_glued hEscape
        exact standFor_leaf (transparent_escape hq hn)) hText
  exact hUnits.mono Transparent.quoteless

theorem covers_markupString (hq : Literal.isStringQuote q = true)
    (h : read rules dialect fuel (markupString q) c = some (ns, e)) : Covers .code c ns e := by
  refine covers_string rfl hq (fun hText => ?_) h
  obtain ⟨m, -, hText | ⟨-, hEmpty⟩⟩ := of_read_either hText
  · obtain ⟨n, hn, rfl, rfl⟩ := of_read_glued hText
    refine standFor_leaf (quoteless_of_not_mem fun hMem => ?_)
    simpa using Lexeme.upTo_spec hn q hMem
  · obtain ⟨rfl, rfl⟩ := of_read_empty hEmpty
    exact standFor_nil (P := fun u => quoteless q u = true) rfl _

/-! ## Templates -/

/-- A substitution, where no text of the template stands. -/
theorem covers_substitution {substitution : R} (hNone : Lexeme.templateChars c.rest = none)
    (hSubstitution : ∀ m < fuel, ∀ {c ns d}, read rules dialect m substitution c = some (ns, d) →
      Covers .code c ns d)
    (h : read rules dialect fuel (node .substitution .none (inOrder [
      glued .token (Lexeme.exactly ['$', '\x7b']), substitution, closeBrace])) c = some (ns, e)) :
    Covers .template c ns e := by
  obtain ⟨m₁, hm₁, cs, hInner, rfl⟩ := of_read_node h
  rw [Lexeme.skipTrivia_of_templateChars hNone] at *
  obtain ⟨m₂, hm₂, _, d, _, hOpen, hRest, rfl⟩ := of_read_seq hInner
  obtain ⟨n, hn, rfl, rfl⟩ := of_read_glued hOpen
  obtain ⟨r, hr, rfl⟩ := Lexeme.exactly_spec hn
  obtain ⟨m₃, hm₃, us, d, _, hCode, hClose, rfl⟩ := of_read_seq hRest
  obtain ⟨n, hn, rfl, rfl⟩ := of_read_lexeme hClose
  obtain ⟨s, hs, rfl⟩ := Lexeme.exactly_spec hn
  have hCovers := (hSubstitution m₃ (by omega) hCode).append d.covers_skipTrivia
  simpa using Covers.substitution .none hr hCovers hs

theorem covers_backticks {substitution : R} (hk : k.isTemplate = true)
    (hSubstitution : ∀ m < fuel, ∀ {c ns d}, read rules dialect m substitution c = some (ns, d) →
      Covers .code c ns d)
    (h : read rules dialect fuel (backticks k substitution) c = some (ns, e)) : Covers .code c ns e := by
  obtain ⟨m₁, hm₁, cs, hInner, rfl⟩ := of_read_node h
  obtain ⟨m₂, hm₂, _, d, _, hOpen, hRest, rfl⟩ := of_read_seq hInner
  obtain ⟨n, hn, rfl, rfl⟩ := of_read_lexeme hOpen
  obtain ⟨m₃, hm₃, us, d, _, hText, hClose, rfl⟩ := of_read_seq hRest
  obtain ⟨n', hn', rfl, rfl⟩ := of_read_glued hClose
  rw [Cursor.skipTrivia_skipTrivia] at *
  obtain ⟨r, hr, rfl⟩ := Lexeme.exactly_spec hn
  obtain ⟨s, hs, rfl⟩ := Lexeme.exactly_spec hn'
  have hParts : Covers .template (c.skipTrivia.2.advance 1) us d := by
    refine of_read_many .done Covers.append (fun m hm c ns d hItem => ?_) hText
    obtain ⟨m, rfl, hChars | ⟨hNone, hItem⟩⟩ := of_read_either hItem
    · obtain ⟨n, hn, rfl, rfl⟩ := of_read_glued hChars
      exact .chars hn
    obtain ⟨m, rfl, hEscape | ⟨-, hItem⟩⟩ := of_read_either hItem
    · obtain ⟨n, hn, rfl, rfl⟩ := of_read_glued hEscape
      obtain ⟨rfl, x, r, hRest⟩ := Lexeme.templateEscape_spec hn
      exact .escape hRest
    · exact covers_substitution (scan_eq_none hNone) (fun m' hm' => hSubstitution m' (by omega)) hItem
  exact (c.covers_skipTrivia).append (by simpa using Covers.template .none hk hr hParts hs)

/-! ## Sound rules -/

/-- A rule whose lexemes and nodes are code, apart from the strings and templates of the language. -/
inductive Sound : R → Prop
  | empty : Sound .empty
  | lexeme {k : Kind} {scan : Scanner} (hk : k.isPlain = true) : Sound (.lexeme k scan)
  | glued {k : Kind} {scan : Scanner} (hk : k.isPlain = true) : Sound (.glued k scan)
  | seq {a b : R} (ha : Sound a) (hb : Sound b) : Sound (.seq a b)
  | either {a b : R} (ha : Sound a) (hb : Sound b) : Sound (.either a b)
  | many {a : R} (ha : Sound a) : Sound (.many a)
  | node {k : Kind} {role : Role} {a : R} (hk : k.isPlain = true) (ha : Sound a) : Sound (.node k role a)
  | call {symbol : Symbol} : Sound (.call symbol)
  | ahead {a : R} : Sound (.ahead a)
  | never {a : R} : Sound (.never a)
  | sameLine : Sound .sameLine
  | lineRest : Sound .lineRest
  | only {d : Dialect} {a : R} (ha : Sound a) : Sound (.only d a)
  | quotedString {q : Char} (hq : Literal.isStringQuote q = true) : Sound (quotedString q)
  | markupString {q : Char} (hq : Literal.isStringQuote q = true) : Sound (markupString q)
  | backticks {k : Kind} {a : R} (hk : k.isTemplate = true) (ha : Sound a) : Sound (backticks k a)

/-- The nodes that a sound rule reads cover what it reads, if the rules of all symbols are sound. -/
theorem Sound.covers (hRules : ∀ symbol, Sound (rules symbol)) {rule : R} (hRule : Sound rule)
    (h : read rules dialect fuel rule c = some (ns, e)) : Covers .code c ns e := by
  induction fuel using Nat.strongRecOn generalizing rule c ns e with
  | ind fuel ih =>
  cases hRule with
  | empty =>
    obtain ⟨rfl, rfl⟩ := of_read_empty h
    exact .done _
  | lexeme hk =>
    obtain ⟨n, -, rfl, rfl⟩ := of_read_lexeme h
    exact c.covers_skipTrivia.append (.leaf _ n .none hk)
  | glued hk =>
    obtain ⟨n, -, rfl, rfl⟩ := of_read_glued h
    exact .leaf _ n .none hk
  | seq ha hb =>
    obtain ⟨m, hm, us, d, vs, hFirst, hSecond, rfl⟩ := of_read_seq h
    exact (ih m hm ha hFirst).append (ih m hm hb hSecond)
  | either ha hb =>
    obtain ⟨m, rfl, hFirst | ⟨-, hSecond⟩⟩ := of_read_either h
    · exact ih m (Nat.lt_succ_self m) ha hFirst
    · exact ih m (Nat.lt_succ_self m) hb hSecond
  | many ha => exact of_read_many .done Covers.append (fun m hm _ _ _ hItem => ih m hm ha hItem) h
  | node hk ha =>
    obtain ⟨m, hm, cs, hInner, rfl⟩ := of_read_node h
    have hCovers := ih m hm ha hInner
    refine c.covers_skipTrivia.append ?_
    cases cs with
    | nil =>
      obtain ⟨n, rfl⟩ := hCovers.exists_advance
      exact .leaf _ n _ hk
    | cons n cs => exact .inner _ hk (List.cons_ne_nil n cs) hCovers
  | call =>
    obtain ⟨m, hm, hCall⟩ := of_read_call h
    exact ih m hm (hRules _) hCall
  | ahead =>
    obtain ⟨rfl, rfl⟩ := of_read_ahead h
    exact .done _
  | never =>
    obtain ⟨rfl, rfl⟩ := of_read_never h
    exact .done _
  | sameLine =>
    obtain ⟨rfl, rfl⟩ := of_read_sameLine h
    exact .done _
  | lineRest =>
    rcases of_read_lineRest h with hComments | ⟨rfl, rfl⟩
    · exact Cursor.covers_lineComments hComments
    · exact .done _
  | only ha =>
    obtain ⟨m, hm, hInner⟩ := of_read_only h
    exact ih m hm ha hInner
  | quotedString hq => exact covers_quotedString hq h
  | markupString hq => exact covers_markupString hq h
  | backticks hk ha => exact covers_backticks hk (fun m hm _ _ _ hInner => ih m hm ha hInner) h

end Grammar

end SqlSurvey.TypeScript
