import SqlSurvey.Proofs.Literal.Scan
import SqlSurvey.Proofs.Text.Location
import Mathlib.Data.List.Basic

/-!
# The fragments of a closed text

The literals of a closed text begin at different places, so putting what the scanner has recorded in
order gives the literals of the tree, and each of them is cut out of the source as the tree has it.
-/

namespace SqlSurvey.Literal

/-! ## Literals in order -/

theorem perm_insertByStart (l : Literal) (ms : List Literal) : (insertByStart l ms).Perm (l :: ms) := by
  induction ms with
  | nil => exact .refl _
  | cons m ms ih =>
    rw [insertByStart]
    split
    · exact .refl _
    · exact (ih.cons m).trans (.swap l m ms)

theorem pairwise_insertByStart {l : Literal} {ms : List Literal}
    (h : ms.Pairwise fun a b => a.start < b.start) (hNew : ∀ m ∈ ms, l.start ≠ m.start) :
    (insertByStart l ms).Pairwise fun a b => a.start < b.start := by
  induction ms with
  | nil => simp [insertByStart]
  | cons m ms ih =>
    obtain ⟨hm, hms⟩ := List.pairwise_cons.1 h
    have hlm := hNew m List.mem_cons_self
    rw [insertByStart]
    by_cases hlt : l.start < m.start
    · rw [if_pos hlt]
      refine List.pairwise_cons.2 ⟨fun a ha => ?_, h⟩
      rcases List.mem_cons.1 ha with rfl | ha
      · exact hlt
      · exact Nat.lt_trans hlt (hm a ha)
    · rw [if_neg hlt]
      refine List.pairwise_cons.2 ⟨fun a ha => ?_, ih hms fun a ha => hNew a (List.mem_cons_of_mem m ha)⟩
      rcases List.mem_cons.1 ((perm_insertByStart l ms).subset ha) with rfl | ha
      · omega
      · exact hm a ha

theorem perm_foldl_insertByStart (ls ms : List Literal) :
    (ls.foldl (fun acc l => insertByStart l acc) ms).Perm (ls ++ ms) := by
  induction ls generalizing ms with
  | nil => exact .refl _
  | cons l ls ih => exact (ih (insertByStart l ms)).trans (((perm_insertByStart l ms).append_left ls).trans
      List.perm_middle)

/-- Literals that begin at different places are put in order. -/
theorem pairwise_foldl_insertByStart (ls : List Literal) {ms : List Literal}
    (hNe : (ls ++ ms).Pairwise fun a b => a.start ≠ b.start) (hms : ms.Pairwise fun a b => a.start < b.start) :
    (ls.foldl (fun acc l => insertByStart l acc) ms).Pairwise fun a b => a.start < b.start := by
  induction ls generalizing ms with
  | nil => exact hms
  | cons l ls ih =>
    have hMove : (l :: (ls ++ ms)).Perm (ls ++ insertByStart l ms) :=
      List.perm_middle.symm.trans ((perm_insertByStart l ms).symm.append_left ls)
    have hNew : ∀ m ∈ ms, l.start ≠ m.start := fun m hm =>
      (List.pairwise_cons.1 hNe).1 m (List.mem_append_right ls hm)
    exact ih (hNe.perm hMove Ne.symm) (pairwise_insertByStart hms hNew)

/-- Literals that begin at different places are put in the one order there is. -/
theorem foldl_insertByStart {ls ms : List Literal} (hPerm : ls.Perm ms)
    (hms : ms.Pairwise fun a b => a.start < b.start) :
    ls.foldl (fun acc l => insertByStart l acc) [] = ms := by
  have hNe : (ls ++ []).Pairwise fun a b : Literal => a.start ≠ b.start := by
    rw [List.append_nil]
    exact (hms.imp Nat.ne_of_lt).perm hPerm.symm Ne.symm
  have hOrdered : (ls.foldl (fun acc l => insertByStart l acc) []).Perm ms := by
    have hFold := perm_foldl_insertByStart ls []
    rw [List.append_nil] at hFold
    exact hFold.trans hPerm
  exact hOrdered.eq_of_pairwise (fun a b _ _ hab hba => by omega) (pairwise_foldl_insertByStart ls hNe .nil) hms

/-! ## Literals at their places -/

/-- A literal that stands in `text`, which stands after `before`. -/
def Occurrence.Within (o : Occurrence) (before text : List Char) : Prop :=
  o.delimiter ≠ [] ∧ ∃ u v, o.before = before ++ u ∧ u ++ o.text ++ v = text

theorem Occurrence.Within.append {o : Occurrence} {before a text : List Char} (b : List Char)
    (h : o.Within (before ++ a) text) : o.Within before (a ++ text ++ b) := by
  obtain ⟨hDelimiter, u, v, hu, rfl⟩ := h
  exact ⟨hDelimiter, a ++ u, v ++ b, by rw [hu, List.append_assoc], by simp⟩

mutual

/-- The literals of a piece of program stand in its text. -/
theorem Code.within_of_mem : ∀ (code : Code) {inside : Option Nat} (_ : code.Closed inside)
    {before : List Char} {o : Occurrence}, o ∈ code.occurrences before → o.Within before code.text
  | .done, _, _, _, _, ho => absurd ho List.not_mem_nil
  | .plain c rest, _, h, _, _, ho => by
    simpa [Code.text] using (rest.within_of_mem h.2.2.2 ho).append []
  | .lineComment body rest, _, h, _, _, ho => by
    simpa [Code.text] using (rest.within_of_mem h.2.2 ho).append []
  | .blockComment body rest, _, h, _, _, ho => by
    simpa [Code.text] using (rest.within_of_mem h.2 ho).append []
  | .tripled q body rest, _, h, before, o, ho => by
    rcases List.mem_cons.1 ho with rfl | ho
    · exact ⟨by simp, [], rest.text, by simp, by simp [Occurrence.text, Code.text]⟩
    · simpa [Code.text] using (rest.within_of_mem h.2.2 ho).append []
  | .quoted q body rest, _, h, before, o, ho => by
    rcases List.mem_cons.1 ho with rfl | ho
    · exact ⟨by simp, [], rest.text, by simp, by simp [Occurrence.text, Code.text]⟩
    · simpa [Code.text] using (rest.within_of_mem h.2.2.2 ho).append []
  | .template body rest, _, h, before, o, ho => by
    rcases List.mem_cons.1 ho with rfl | ho
    · exact ⟨by simp, [], rest.text, by simp, by simp [Occurrence.text, Code.text]⟩
    · rcases List.mem_append.1 ho with ho | ho
      · simpa [Code.text] using (body.within_of_mem h.1 ho).append (['\x60'] ++ rest.text)
      · simpa [Code.text] using (rest.within_of_mem h.2 ho).append []

/-- The literals in the substitutions of a template stand in its text. -/
theorem Template.within_of_mem : ∀ (body : Template) (_ : body.Closed) {before : List Char}
    {o : Occurrence}, o ∈ body.occurrences before → o.Within before body.text
  | .done, _, _, _, ho => absurd ho List.not_mem_nil
  | .symbol (.escape c) rest, h, _, _, ho => by
    simpa [Template.text, Symbol.text] using (rest.within_of_mem h ho).append []
  | .symbol (.char c) rest, h, _, _, ho => by
    simpa [Template.text, Symbol.text] using (rest.within_of_mem h.2.2.2 ho).append []
  | .substitution code rest, h, _, _, ho => by
    rcases List.mem_append.1 ho with ho | ho
    · simpa [Template.text] using (code.within_of_mem h.1 ho).append (['\x7d'] ++ rest.text)
    · simpa [Template.text] using (rest.within_of_mem h.2 ho).append []

end

/-- A literal begins where its text does or later, and before its end. -/
theorem Occurrence.Within.start_bounds {o : Occurrence} {before text : List Char} (h : o.Within before text) :
    Text.byteLength before ≤ Text.byteLength o.before ∧
      Text.byteLength o.before < Text.byteLength (before ++ text) := by
  obtain ⟨hDelimiter, u, v, hu, rfl⟩ := h
  obtain ⟨c, d, hd⟩ := List.exists_cons_of_ne_nil hDelimiter
  have := c.utf8Size_pos
  rw [hu, Occurrence.text, hd]
  simp only [Text.byteLength_append, Text.byteLength_cons]
  omega

/-- One literal begins before another. -/
def Occurrence.Precedes (o p : Occurrence) : Prop := Text.byteLength o.before < Text.byteLength p.before

/-- What begins in a text precedes what begins after it. -/
theorem Occurrence.Within.precedes {o p : Occurrence} {before a text text' : List Char}
    (ho : o.Within before a) (hp : p.Within (before ++ a ++ text) text') : o.Precedes p := by
  have hEnd := ho.start_bounds.2
  have hStart := hp.start_bounds.1
  simp only [Text.byteLength_append] at hEnd hStart
  unfold Precedes
  omega

/-- A literal precedes those that begin after its delimiter. -/
theorem Occurrence.precedes_of_within {before delimiter body a text : List Char} {p : Occurrence}
    (hDelimiter : delimiter ≠ []) (hp : p.Within (before ++ (delimiter ++ a)) text) :
    (⟨before, delimiter, body⟩ : Occurrence).Precedes p := by
  obtain ⟨c, d, rfl⟩ := List.exists_cons_of_ne_nil hDelimiter
  have hStart := hp.start_bounds.1
  have := c.utf8Size_pos
  simp only [Text.byteLength_append, Text.byteLength_cons] at hStart
  show Text.byteLength before < Text.byteLength p.before
  omega

mutual

/-- The literals of a piece of program are listed in the order in which they begin. -/
theorem Code.pairwise_occurrences : ∀ (code : Code) {inside : Option Nat} (_ : code.Closed inside)
    (before : List Char), (code.occurrences before).Pairwise Occurrence.Precedes
  | .done, _, _, _ => .nil
  | .plain c rest, _, h, _ => rest.pairwise_occurrences h.2.2.2 _
  | .lineComment body rest, _, h, _ => rest.pairwise_occurrences h.2.2 _
  | .blockComment body rest, _, h, _ => rest.pairwise_occurrences h.2 _
  | .tripled q body rest, _, h, before => by
    refine .cons (fun p hp => ?_) (rest.pairwise_occurrences h.2.2 _)
    have hWithin := rest.within_of_mem h.2.2 hp
    rw [List.append_assoc [q, q, q]] at hWithin
    exact Occurrence.precedes_of_within (by simp) hWithin
  | .quoted q body rest, _, h, before => by
    refine .cons (fun p hp => ?_) (rest.pairwise_occurrences h.2.2.2 _)
    have hWithin := rest.within_of_mem h.2.2.2 hp
    rw [List.append_assoc [q]] at hWithin
    exact Occurrence.precedes_of_within (by simp) hWithin
  | .template body rest, _, h, before => by
    refine .cons (fun p hp => ?_) (List.pairwise_append.2
      ⟨body.pairwise_occurrences h.1 _, rest.pairwise_occurrences h.2 _, fun o ho p hp => ?_⟩)
    · rcases List.mem_append.1 hp with hp | hp
      · exact Occurrence.precedes_of_within (a := []) (by simp) (body.within_of_mem h.1 hp)
      · have hWithin := rest.within_of_mem h.2 hp
        rw [List.append_assoc ['\x60']] at hWithin
        exact Occurrence.precedes_of_within (by simp) hWithin
    · -- what is inside the template comes before what is after it
      have hWithin := rest.within_of_mem h.2 hp
      rw [← List.append_assoc, ← List.append_assoc] at hWithin
      exact (body.within_of_mem h.1 ho).precedes hWithin

/-- The literals in the substitutions of a template are listed in the order in which they begin. -/
theorem Template.pairwise_occurrences : ∀ (body : Template) (_ : body.Closed) (before : List Char),
    (body.occurrences before).Pairwise Occurrence.Precedes
  | .done, _, _ => .nil
  | .symbol (.escape c) rest, h, _ => rest.pairwise_occurrences h _
  | .symbol (.char c) rest, h, _ => rest.pairwise_occurrences h.2.2.2 _
  | .substitution code rest, h, before => by
    refine List.pairwise_append.2 ⟨code.pairwise_occurrences h.1 _, rest.pairwise_occurrences h.2 _,
      fun o ho p hp => ?_⟩
    have hWithin := rest.within_of_mem h.2 hp
    rw [← List.append_assoc, ← List.append_assoc] at hWithin
    exact (code.within_of_mem h.1 ho).precedes hWithin

end

/-! ## What is read from a closed text -/

/-- The scanner finds exactly the literals of a closed text, in the order in which they begin. -/
theorem allIn_text {code : Code} (h : code.Closed none) :
    Literal.allIn code.text = (code.occurrences []).map Occurrence.literal := by
  have hEnd : ([] : List Char).head? = (none : Option Nat).map fun _ => '\x7d' := rfl
  obtain ⟨ls, hPerm, hOut⟩ := code.outcome_text h hEnd [] 0 [] []
  rw [List.append_nil, List.append_nil, List.nil_append] at hOut
  have hEnded : (State.initial.run code.text).literals = ls.reverse := hOut
  rw [Literal.allIn, hEnded]
  refine foldl_insertByStart ((List.reverse_perm ls).trans hPerm) ?_
  rw [List.pairwise_map]
  exact code.pairwise_occurrences h []

/-- What a literal shows, with its delimiters and without them. -/
theorem Occurrence.Within.slice {o : Occurrence} {source : List Char} (h : o.Within [] source) :
    Text.slice source o.literal.start o.literal.stop = o.text ∧
      Text.slice source o.literal.bodyStart o.literal.bodyStop = o.body := by
  obtain ⟨-, u, v, hu, rfl⟩ := h
  obtain rfl : o.before = u := hu
  refine ⟨?_, ?_⟩
  · have hSlice := Text.slice_append o.before o.text v
    rw [← List.append_assoc, ← Text.byteLength_append] at hSlice
    exact hSlice
  · have hSlice := Text.slice_append (o.before ++ o.delimiter) o.body (o.delimiter ++ v)
    have hStop : o.literal.bodyStop = Text.byteLength (o.before ++ o.delimiter) + Text.byteLength o.body := by
      simp only [Occurrence.literal, Occurrence.text, Text.byteLength_append]
      omega
    have hStart : o.literal.bodyStart = Text.byteLength (o.before ++ o.delimiter) := by
      rw [Text.byteLength_append]
      rfl
    rw [hStart, hStop]
    simpa [Occurrence.text] using hSlice

/-- The fragment in a recorded literal is the one of the literal at its place in the tree. -/
theorem ofLiteral?_literal {o : Occurrence} {source : List Char} (h : o.Within [] source) :
    Fragment.ofLiteral? source o.literal = o.fragment? := by
  have hBody := h.slice.2
  obtain ⟨-, u, v, hu, rfl⟩ := h
  obtain rfl : o.before = u := hu
  have hSpan : Text.Span.locate (o.before ++ o.text ++ v) o.literal.start (o.literal.stop - o.literal.start) =
      ⟨Text.byteLength o.before, Text.byteLength o.text, (Text.positionAfter o.before).line,
        (Text.positionAfter o.before).column⟩ := by
    have hLength : o.literal.stop - o.literal.start = Text.byteLength o.text := by
      simp only [Occurrence.literal, Text.byteLength_append]
      omega
    rw [hLength, List.append_assoc]
    exact Text.locate_append o.before (o.text ++ v) _
  rw [Fragment.ofLiteral?, hBody, hSpan]
  rfl

/-- The texts of the fragments are the trimmed bodies of the literals, those that look like SQL. -/
theorem map_text_allIn {code : Code} (h : code.Closed none) :
    (Fragment.allIn code.text).map Fragment.text =
      ((code.occurrences []).map fun o => Text.trim o.body).filter looksLikeSql := by
  rw [Fragment.allIn, allIn_text h, List.filterMap_map, List.map_filterMap, ← List.filterMap_eq_filter,
    List.filterMap_map]
  refine List.filterMap_congr fun o ho => ?_
  rw [Function.comp, Function.comp, ofLiteral?_literal (code.within_of_mem h ho), Occurrence.fragment?]
  by_cases hSql : looksLikeSql (Text.trim o.body) = true <;> simp [hSql, Option.guard]

/-- The fragments of a closed text are the literals at any depth whose trimmed body looks like SQL, in the
order in which they begin, each with its trimmed body and its place. -/
theorem fragments_text {code : Code} (h : code.Closed none) :
    Fragment.allIn code.text = (code.occurrences []).filterMap Occurrence.fragment? := by
  rw [Fragment.allIn, allIn_text h, List.filterMap_map]
  refine List.filterMap_congr fun o ho => ?_
  exact ofLiteral?_literal (code.within_of_mem h ho)

/-- A string in the substitution of a template gives a fragment of its own, after that of the template. -/
theorem fragments_text_nested :
    Fragment.allIn "f(`DROP $\x7b'ALTER'\x7d`)".toList =
      [⟨"DROP $\x7b'ALTER'\x7d".toList, ⟨2, 17, 1, 3⟩⟩, ⟨"ALTER".toList, ⟨10, 7, 1, 11⟩⟩] := by
  have h := @fragments_text (.plain 'f' (.plain '(' (.template
    ("DROP ".toList.foldr (fun c rest => .symbol (.char c) rest)
      (.substitution (.quoted '\'' ("ALTER".toList.map .char) .done) .done)) (.plain ')' .done))))
    (by simp [Code.Closed, Template.Closed, QuotedBody, opensLiteral, isStringQuote])
  exact h.trans (by decide +kernel)

end SqlSurvey.Literal
