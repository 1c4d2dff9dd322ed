import SqlSurvey.Proofs.Ddl.Head
import SqlSurvey.Proofs.Pattern.Layout
import SqlSurvey.Proofs.Sql.Layout

/-!
# Double quotes between statements and in bodies

Between statements both kinds of quote open a run; in a body the single quote alone does, so that a double-quoted
run is so many characters there. The body of a table is then delimited and cut as the statement around it shows, if
none of these characters begins a run or a comment, counts as a parenthesis or stands as a comma where items end.
-/

namespace SqlSurvey.Sql

variable {isQuote : Char → Bool} {p : Piece} {ps qs : List Piece} {s t : List Char} {depth : Nat}

/-! ## Characters in the place of a run -/

namespace Piece

/-- A run between double quotes. -/
def isDoubleQuoted : Piece → Bool
  | quoted t => t.head? == some '"'
  | _ => false

/-- The pieces that a piece falls into where a double quote is a character like others. -/
def singly (p : Piece) : List Piece := if p.isDoubleQuoted then p.text.map plain else [p]

@[simp] theorem textOf_singly (p : Piece) : textOf p.singly = p.text := by
  unfold singly
  split
  · exact textOf_map_plain p.text
  · exact List.append_nil p.text

/-- A piece that is no double-quoted run is the same piece where only the single quote opens runs. -/
theorem Before.isSingleQuote_of_not (h : p.Before isAnyQuote t) (hp : p.isDoubleQuoted = false) :
    p.Before isSingleQuote t := by
  have hSingle : ∀ {c}, isAnyQuote c = false → isSingleQuote c = false := fun hc =>
    (Bool.or_eq_false_iff.1 hc).1
  have hQuote : ∀ {q : Char} {inner : List Char}, isAnyQuote q = true →
      (Piece.quoted (q :: inner)).isDoubleQuoted = false → isSingleQuote q = true := by
    intro q inner hq hNot
    have hNot : ¬ q = '"' := by simpa [isDoubleQuoted] using hNot
    simpa [isAnyQuote, isSingleQuote, hNot] using hq
  cases h with
  | plain hc hLine hBlock => exact .plain (hSingle hc) hLine hBlock
  | quoted hq hInner => exact .quoted (hQuote hq hp) hInner
  | openQuoted hq hInner => exact .openQuoted (hQuote hq hp) hInner
  | line hc hInner hNext => exact .line (hSingle hc) hInner hNext
  | block hc hInner => exact .block (hSingle hc) hInner
  | openBlock hc hInner => exact .openBlock (hSingle hc) hInner

/-- A double-quoted run ends with its quote, or at the end of the text. -/
theorem Before.text_of_isDoubleQuoted (h : p.Before isAnyQuote t) (hp : p.isDoubleQuoted = true) :
    (∃ u, p.text = u ++ ['"']) ∨ t = [] := by
  cases h with
  | plain => cases hp
  | @quoted q inner =>
    obtain rfl : q = '"' := by simpa [isDoubleQuoted] using hp
    exact .inl ⟨'"' :: inner, rfl⟩
  | openQuoted => exact .inr rfl
  | line => cases hp
  | block => cases hp
  | openBlock => cases hp

end Piece

@[simp] theorem textOf_flatMap_singly (ps : List Piece) : textOf (ps.flatMap Piece.singly) = textOf ps := by
  induction ps with
  | nil => rfl
  | cons p ps ih => rw [List.flatMap_cons, textOf_append, textOf_cons, Piece.textOf_singly, ih]

/-- Nothing in the text begins a single-quoted run or a comment. -/
structure Unhidden (s : List Char) : Prop where
  single : '\'' ∉ s
  line : ¬ ['-', '-'] <:+: s
  block : ¬ ['/', '*'] <:+: s

instance (s : List Char) : Decidable (Unhidden s) :=
  decidable_of_iff ('\'' ∉ s ∧ ¬ ['-', '-'] <:+: s ∧ ¬ ['/', '*'] <:+: s)
    ⟨fun ⟨hs, hl, hb⟩ => ⟨hs, hl, hb⟩, fun h => ⟨h.single, h.line, h.block⟩⟩

theorem plain_before_iff {c : Char} : (Piece.plain c).Before isSingleQuote t ↔
    c ≠ '\'' ∧ ¬ ['-', '-'] <+: c :: t ∧ ¬ ['/', '*'] <+: c :: t := by
  have hPair : ∀ a b : Char, [a, b] <+: c :: t ↔ c = a ∧ t.head? = some b := by
    intro a b
    rw [List.cons_prefix_cons, List.singleton_prefix_iff_head?_eq_some, eq_comm]
  rw [hPair, hPair]
  constructor
  · rintro (⟨hQuote, hLine, hBlock⟩)
    refine ⟨by simpa [isSingleQuote] using hQuote, ?_, ?_⟩
    · simpa [Piece.lineCommentOpens] using hLine
    · simpa [Piece.blockCommentOpens] using hBlock
  · rintro ⟨hQuote, hLine, hBlock⟩
    refine .plain (by simpa [isSingleQuote] using hQuote) ?_ ?_
    · simpa [Piece.lineCommentOpens] using hLine
    · simpa [Piece.blockCommentOpens] using hBlock

/-- The characters of a text are pieces of their own exactly if nothing in it begins a run or a comment. -/
theorem lexed_map_plain_iff : Lexed isSingleQuote (t.map .plain) ↔ Unhidden t := by
  induction t with
  | nil => exact ⟨fun _ => ⟨by simp, by simp, by simp⟩, fun _ => trivial⟩
  | cons c t ih =>
    have hCons : Lexed isSingleQuote ((c :: t).map .plain) ↔
        (Piece.plain c).Before isSingleQuote t ∧ Lexed isSingleQuote (t.map .plain) := by
      rw [List.map_cons, Lexed, textOf_map_plain]
    rw [hCons, ih, plain_before_iff]
    constructor
    · rintro ⟨⟨hc, hLine, hBlock⟩, h⟩
      refine ⟨?_, ?_, ?_⟩
      · rw [List.mem_cons, not_or]
        exact ⟨Ne.symm hc, h.single⟩
      · rw [List.infix_cons_iff, not_or]
        exact ⟨hLine, h.line⟩
      · rw [List.infix_cons_iff, not_or]
        exact ⟨hBlock, h.block⟩
    · rintro ⟨hSingle, hLine, hBlock⟩
      rw [List.mem_cons, not_or] at hSingle
      rw [List.infix_cons_iff, not_or] at hLine hBlock
      exact ⟨⟨Ne.symm hSingle.1, hLine.1, hBlock.1⟩, hSingle.2, hLine.2, hBlock.2⟩

/-- After a double quote any pieces may stand. -/
theorem Lexed.quote_append (h : Lexed isSingleQuote ((t ++ ['"']).map .plain)) (k : Lexed isSingleQuote qs) :
    Lexed isSingleQuote ((t ++ ['"']).map .plain ++ qs) := by
  induction t with
  | nil => exact ⟨.plain rfl rfl rfl, k⟩
  | cons c t ih =>
    refine ⟨?_, ih h.2⟩
    show (Piece.plain c).Before isSingleQuote (textOf ((t ++ ['"']).map .plain ++ qs))
    rw [textOf_append]
    have hNe : textOf ((t ++ ['"']).map .plain) ≠ [] := by
      rw [textOf_map_plain]
      simp
    exact h.1.append_of_ne_nil hNe _

/-- Where only the single quote opens runs, pieces are read as they are but for the double-quoted runs, which are read
by the character: exactly if nothing in these begins a single-quoted run or a comment. -/
theorem pieces_isSingleQuote_eq_iff (s : List Char) :
    pieces isSingleQuote s = (pieces isAnyQuote s).flatMap Piece.singly ↔
      ∀ p ∈ pieces isAnyQuote s, p.isDoubleQuoted = true → Unhidden p.text := by
  have hLexed := lexed_pieces isAnyQuote s
  have hText := textOf_pieces isAnyQuote s
  generalize pieces isAnyQuote s = ps at hLexed hText ⊢
  subst hText
  constructor
  · intro hEq p hp hDouble
    have hAll := lexed_pieces isSingleQuote (textOf ps)
    rw [hEq] at hAll
    have hInfix : p.text.map Piece.plain <:+: ps.flatMap Piece.singly := by
      obtain ⟨as, bs, rfl⟩ := List.append_of_mem hp
      refine ⟨as.flatMap Piece.singly, bs.flatMap Piece.singly, ?_⟩
      rw [List.flatMap_append, List.flatMap_cons, Piece.singly, if_pos hDouble, List.append_assoc]
    exact lexed_map_plain_iff.1 (hAll.within hInfix)
  · intro hRuns
    rw [← textOf_flatMap_singly ps]
    refine Lexed.pieces_textOf ?_
    induction ps with
    | nil => trivial
    | cons p ps ih =>
      have hRest := ih hLexed.2 fun q hq => hRuns q (List.mem_cons_of_mem p hq)
      rw [List.flatMap_cons, Piece.singly]
      split
      · rename_i hDouble
        have hRun := lexed_map_plain_iff.2 (hRuns p List.mem_cons_self hDouble)
        rcases hLexed.1.text_of_isDoubleQuoted hDouble with ⟨u, hu⟩ | hNil
        · rw [hu] at hRun ⊢
          exact hRun.quote_append hRest
        · obtain rfl := hLexed.2.eq_nil_of_textOf hNil
          rwa [List.flatMap_nil, List.append_nil]
      · rename_i hDouble
        refine ⟨?_, hRest⟩
        show p.Before isSingleQuote (textOf (ps.flatMap Piece.singly))
        rw [textOf_flatMap_singly]
        exact hLexed.1.isSingleQuote_of_not (by simpa using hDouble)

/-! ## Parentheses and commas in double-quoted runs -/

/-- No parenthesis stands in the text. -/
def Unnested (s : List Char) : Prop := '(' ∉ s ∧ ')' ∉ s

instance (s : List Char) : Decidable (Unnested s) := inferInstanceAs (Decidable (_ ∧ _))

theorem Unnested.tail {c : Char} (h : Unnested (c :: t)) : Unnested t :=
  ⟨fun hMem => h.1 (List.mem_cons_of_mem c hMem), fun hMem => h.2 (List.mem_cons_of_mem c hMem)⟩

theorem Unnested.depthAfter {c : Char} (h : Unnested (c :: t)) (depth : Nat) :
    (Piece.plain c).depthAfter depth = depth ∧ Piece.plain c ≠ .plain ')' := by
  have hOpen : c ≠ '(' := fun hc => h.1 (hc ▸ List.mem_cons_self)
  have hClose : c ≠ ')' := fun hc => h.2 (hc ▸ List.mem_cons_self)
  refine ⟨?_, fun hc => hClose (Piece.plain.inj hc)⟩
  unfold Piece.depthAfter
  split
  · rename_i hc
    exact absurd (Piece.plain.inj hc) hOpen
  · rename_i hc
    exact absurd (Piece.plain.inj hc) hClose
  · rfl

/-- A double-quoted run changes the depth no more than its characters do. -/
theorem Piece.depthAfter_of_isDoubleQuoted (h : p.isDoubleQuoted = true) (depth : Nat) :
    p.depthAfter depth = depth := by
  cases p with
  | plain => cases h
  | quoted => rfl
  | comment => cases h

theorem Piece.ne_plain_of_isDoubleQuoted (h : p.isDoubleQuoted = true) (c : Char) : p ≠ .plain c := by
  rintro rfl
  cases h

theorem closedBody_map_plain_append (h : Unnested t) (qs : List Piece) :
    closedBody depth (t.map .plain ++ qs) = (closedBody depth qs).map (t.map .plain ++ ·) := by
  induction t with
  | nil => simp
  | cons c t ih =>
    obtain ⟨hDepth, hClose⟩ := h.depthAfter depth
    rw [List.map_cons, List.cons_append, closedBody, if_neg fun hc => hClose hc.2, hDepth, ih h.tail, Option.map_map]
    rfl

/-- The closing parenthesis is the same whether double-quoted runs are read as runs or by the character. -/
theorem closedBody_flatMap_singly (h : ∀ p ∈ ps, p.isDoubleQuoted = true → Unnested p.text) :
    closedBody depth (ps.flatMap Piece.singly) = (closedBody depth ps).map (·.flatMap Piece.singly) := by
  induction ps generalizing depth with
  | nil => rfl
  | cons p ps ih =>
    have hRest := @ih (p.depthAfter depth) fun q hq => h q (List.mem_cons_of_mem p hq)
    rw [List.flatMap_cons, closedBody, Piece.singly]
    by_cases hDouble : p.isDoubleQuoted = true
    · rw [if_pos hDouble, if_neg fun hc => p.ne_plain_of_isDoubleQuoted hDouble _ hc.2,
        closedBody_map_plain_append (h p List.mem_cons_self hDouble), Option.map_map]
      rw [p.depthAfter_of_isDoubleQuoted hDouble] at hRest ⊢
      rw [hRest, Option.map_map]
      refine congrArg (fun f => Option.map f _) (funext fun qs => ?_)
      simp [Piece.singly, hDouble]
    · rw [if_neg hDouble, List.singleton_append, closedBody, hRest]
      split
      · rfl
      · rw [Option.map_map, Option.map_map]
        refine congrArg (fun f => Option.map f _) (funext fun qs => ?_)
        simp [Piece.singly, hDouble]

/-- The pieces that begin outside all parentheses. -/
def outside (depth : Nat) : List Piece → List Piece
  | [] => []
  | p :: ps => if depth = 0 then p :: outside (p.depthAfter depth) ps else outside (p.depthAfter depth) ps

/-- How many commas stand in the double-quoted runs that begin outside all parentheses. -/
def quotedCommas (depth : Nat) (ps : List Piece) : Nat :=
  (textOf ((outside depth ps).filter Piece.isDoubleQuoted)).count ','

theorem quotedCommas_cons_of_isDoubleQuoted (h : p.isDoubleQuoted = true) (depth : Nat) (ps : List Piece) :
    quotedCommas depth (p :: ps) = (if depth = 0 then p.text.count ',' else 0) + quotedCommas depth ps := by
  rw [quotedCommas, outside, p.depthAfter_of_isDoubleQuoted h]
  by_cases hZero : depth = 0
  · rw [if_pos hZero, if_pos hZero, List.filter_cons_of_pos h, textOf_cons, List.count_append]
    rfl
  · rw [if_neg hZero, if_neg hZero, Nat.zero_add]
    rfl

theorem quotedCommas_cons_of_not (h : ¬ p.isDoubleQuoted = true) (depth : Nat) (ps : List Piece) :
    quotedCommas depth (p :: ps) = quotedCommas (p.depthAfter depth) ps := by
  rw [quotedCommas, outside]
  split
  · rw [List.filter_cons_of_neg h]
    rfl
  · rfl

theorem quotedCommas_eq_zero_iff : quotedCommas depth ps = 0 ↔
    ∀ p ∈ outside depth ps, p.isDoubleQuoted = true → ',' ∉ p.text := by
  rw [quotedCommas, List.count_eq_zero, textOf, List.mem_flatMap]
  simp

theorem length_cutAtCommas_map_plain_append (h : Unnested t) (qs : List Piece) :
    (cutAtCommas depth (t.map .plain ++ qs)).length =
      (if depth = 0 then t.count ',' else 0) + (cutAtCommas depth qs).length := by
  induction t with
  | nil => simp
  | cons c t ih =>
    have hDepth := (h.depthAfter depth).1
    rw [List.map_cons, List.cons_append, cutAtCommas, hDepth, List.count_cons]
    by_cases hZero : depth = 0
    · subst hZero
      by_cases hComma : c = ','
      · subst hComma
        rw [if_pos ⟨rfl, rfl⟩, List.length_cons, ih h.tail]
        simp
        omega
      · rw [if_neg fun hc => hComma (Piece.plain.inj hc.2), List.length_modifyHead, ih h.tail]
        simp [hComma]
    · rw [if_neg fun hc => hZero hc.1, List.length_modifyHead, ih h.tail]
      simp [hZero]

/-- Reading double-quoted runs by the character makes one more cut for each comma in those outside all
parentheses. -/
theorem length_cutAtCommas_flatMap_singly (h : ∀ p ∈ ps, p.isDoubleQuoted = true → Unnested p.text) :
    (cutAtCommas depth (ps.flatMap Piece.singly)).length = quotedCommas depth ps + (cutAtCommas depth ps).length := by
  induction ps generalizing depth with
  | nil => rfl
  | cons p ps ih =>
    have hRest := fun d => @ih d fun q hq => h q (List.mem_cons_of_mem p hq)
    rw [List.flatMap_cons, Piece.singly]
    by_cases hDouble : p.isDoubleQuoted = true
    · have hComma : ¬ (depth = 0 ∧ p = .plain ',') := fun hc => p.ne_plain_of_isDoubleQuoted hDouble _ hc.2
      rw [if_pos hDouble, length_cutAtCommas_map_plain_append (h p List.mem_cons_self hDouble),
        quotedCommas_cons_of_isDoubleQuoted hDouble, cutAtCommas, if_neg hComma, List.length_modifyHead,
        p.depthAfter_of_isDoubleQuoted hDouble, hRest, Nat.add_assoc]
    · rw [if_neg hDouble, List.singleton_append, cutAtCommas, cutAtCommas, quotedCommas_cons_of_not hDouble]
      by_cases hComma : depth = 0 ∧ p = .plain ','
      · obtain ⟨rfl, rfl⟩ := hComma
        rw [if_pos ⟨rfl, rfl⟩, if_pos ⟨rfl, rfl⟩, List.length_cons, List.length_cons, hRest]
        rfl
      · rw [if_neg hComma, if_neg hComma, List.length_modifyHead, List.length_modifyHead, hRest]

theorem cutAtCommas_map_plain_append (h : Unnested t) (hComma : depth = 0 → ',' ∉ t) (qs : List Piece) :
    cutAtCommas depth (t.map .plain ++ qs) = (cutAtCommas depth qs).modifyHead (t.map .plain ++ ·) := by
  induction t with
  | nil => exact (congrFun List.modifyHead_id _).symm
  | cons c t ih =>
    have hDepth := (h.depthAfter depth).1
    have hc : ¬ (depth = 0 ∧ Piece.plain c = .plain ',') := by
      rintro ⟨hZero, hc⟩
      exact hComma hZero (Piece.plain.inj hc ▸ List.mem_cons_self)
    rw [List.map_cons, List.cons_append, cutAtCommas, if_neg hc, hDepth,
      ih h.tail fun hZero hMem => hComma hZero (List.mem_cons_of_mem c hMem), List.modifyHead_modifyHead]
    rfl

/-- Without such a comma the cuts are the same. -/
theorem cutAtCommas_flatMap_singly (h : ∀ p ∈ ps, p.isDoubleQuoted = true → Unnested p.text)
    (hCommas : ∀ p ∈ outside depth ps, p.isDoubleQuoted = true → ',' ∉ p.text) :
    cutAtCommas depth (ps.flatMap Piece.singly) = (cutAtCommas depth ps).map (·.flatMap Piece.singly) := by
  induction ps generalizing depth with
  | nil => rfl
  | cons p ps ih =>
    have hRest := @ih (p.depthAfter depth) (fun q hq => h q (List.mem_cons_of_mem p hq)) fun q hq =>
      hCommas q (by
        rw [outside]
        split
        · exact List.mem_cons_of_mem p hq
        · exact hq)
    have hHead : ∀ qss : List (List Piece), (qss.modifyHead (p :: ·)).map (·.flatMap Piece.singly) =
        (qss.map (·.flatMap Piece.singly)).modifyHead (p.singly ++ ·) := by
      rintro (_ | ⟨qs, qss⟩) <;> rfl
    rw [List.flatMap_cons]
    by_cases hDouble : p.isDoubleQuoted = true
    · have hComma : ¬ (depth = 0 ∧ p = .plain ',') := fun hc => p.ne_plain_of_isDoubleQuoted hDouble _ hc.2
      have hNone : depth = 0 → ',' ∉ p.text := fun hZero =>
        hCommas p (by rw [outside, if_pos hZero]; exact List.mem_cons_self) hDouble
      rw [cutAtCommas, if_neg hComma, hHead, ← hRest, p.depthAfter_of_isDoubleQuoted hDouble, Piece.singly,
        if_pos hDouble, cutAtCommas_map_plain_append (h p List.mem_cons_self hDouble) hNone]
    · have hSingly : p.singly = [p] := if_neg hDouble
      rw [hSingly, List.singleton_append, cutAtCommas, cutAtCommas]
      by_cases hComma : depth = 0 ∧ p = .plain ','
      · obtain ⟨rfl, rfl⟩ := hComma
        rw [if_pos ⟨rfl, rfl⟩, if_pos ⟨rfl, rfl⟩, List.map_cons]
        exact congrArg ([] :: ·) hRest
      · rw [if_neg hComma, if_neg hComma, hHead, ← hRest, hSingly]
        rfl

/-- The texts between the cuts are the same exactly if no comma stands in a double-quoted run outside all
parentheses. -/
theorem map_textOf_cutAtCommas_iff (h : ∀ p ∈ ps, p.isDoubleQuoted = true → Unnested p.text) :
    (cutAtCommas depth (ps.flatMap Piece.singly)).map textOf = (cutAtCommas depth ps).map textOf ↔
      ∀ p ∈ outside depth ps, p.isDoubleQuoted = true → ',' ∉ p.text := by
  constructor
  · intro hEq
    have hLength := congrArg List.length hEq
    rw [List.length_map, List.length_map, length_cutAtCommas_flatMap_singly h] at hLength
    exact quotedCommas_eq_zero_iff.1 (by omega)
  · intro hCommas
    rw [cutAtCommas_flatMap_singly h hCommas, List.map_map]
    exact List.map_congr_left fun qs _ => textOf_flatMap_singly qs

/-! ## Where a body begins -/

/-- A piece with a parenthesis in it that is neither a comment nor a run is that parenthesis. -/
theorem Piece.Before.eq_paren (h : p.Before isAnyQuote t) (hParen : '(' ∈ p.text)
    (hHead : ∀ d ∈ p.text.head?, d ≠ '-' ∧ d ≠ '/' ∧ d ≠ '\'') (hRun : p.isDoubleQuoted = true → '(' ∉ p.text) :
    p = .plain '(' := by
  have hNot : ∀ {q : Char} {inner : List Char}, isAnyQuote q = true → p = .quoted (q :: inner) → False := by
    rintro q inner hq rfl
    have hSingle : q ≠ '\'' := (hHead q rfl).2.2
    have hDouble : (Piece.quoted (q :: inner)).isDoubleQuoted = true := by
      simpa [isAnyQuote, isDoubleQuoted, hSingle] using hq
    exact hRun hDouble hParen
  cases h with
  | plain => rw [List.mem_singleton.1 hParen]
  | quoted hq => exact (hNot hq rfl).elim
  | openQuoted hq => exact (hNot hq rfl).elim
  | line => exact absurd rfl (hHead '-' rfl).1
  | block => exact absurd rfl (hHead '/' rfl).2.1
  | openBlock => exact absurd rfl (hHead '/' rfl).2.1

/-- A parenthesis after a text in which no comment and no single-quoted run begins is a piece of its own, if it is in
no double-quoted run. -/
theorem Lexed.exists_of_append_paren (h : Lexed isAnyQuote ps) (hText : textOf ps = s ++ '(' :: t)
    (hs : ∀ c ∈ s, c ≠ '-' ∧ c ≠ '/' ∧ c ≠ '\'') (hRuns : ∀ p ∈ ps, p.isDoubleQuoted = true → '(' ∉ p.text) :
    ∃ qs, ps = qs ++ .plain '(' :: pieces isAnyQuote t := by
  induction ps generalizing s with
  | nil => exact absurd hText (by simp)
  | cons p ps ih =>
    obtain ⟨hp, hps⟩ := h
    rw [textOf_cons] at hText
    have hTail := fun q hq => hRuns q (List.mem_cons_of_mem p hq)
    rcases List.append_eq_append_iff.1 hText with ⟨v, rfl, hRest⟩ | ⟨v, hv, hRest⟩
    · -- the parenthesis stands behind the first piece
      obtain ⟨qs, rfl⟩ := ih hps hRest (fun c hc => hs c (List.mem_append_right _ hc)) hTail
      exact ⟨p :: qs, rfl⟩
    cases v with
    | nil =>
      have hEmpty : textOf ps = [] ++ '(' :: t := hRest.symm
      obtain ⟨qs, rfl⟩ := ih hps hEmpty (fun _ hc => absurd hc List.not_mem_nil) hTail
      exact ⟨p :: qs, rfl⟩
    | cons c v =>
      -- it stands in the first piece
      obtain ⟨rfl, rfl⟩ := List.cons.inj hRest
      have hHead : ∀ d ∈ p.text.head?, d ≠ '-' ∧ d ≠ '/' ∧ d ≠ '\'' := by
        rw [hv]
        cases s with
        | nil => simp
        | cons c s => simpa using hs c List.mem_cons_self
      have hParen : '(' ∈ p.text := hv ▸ List.mem_append_right s List.mem_cons_self
      obtain rfl := hp.eq_paren hParen hHead (hRuns p List.mem_cons_self)
      have hLength := congrArg List.length hv
      simp only [Piece.text, List.length_append, List.length_cons, List.length_nil] at hLength
      obtain rfl : v = [] := List.length_eq_zero_iff.1 (by omega)
      exact ⟨[], congrArg (Piece.plain '(' :: ·) hps.pieces_textOf.symm⟩

end SqlSurvey.Sql

namespace SqlSurvey.Ddl

open Pattern Sql

variable {sql : List Char} {h : Hit}

/-! ## Tables with double-quoted texts -/

/-- No quoted run and no comment goes on where the head begins. -/
def HeadShown (sql : List Char) (h : Hit) : Prop :=
  ∃ lead, pieces isAnyQuote sql = lead ++ pieces isAnyQuote (h.text ++ h.rest)

/-- The parenthesis that opens the body of a table is a piece of its own. -/
theorem exists_pieces_before_body (hHead : createTableHead.find sql = some h) (hShown : HeadShown sql h)
    (hParens : ∀ p ∈ pieces isAnyQuote sql, p.isDoubleQuoted = true → Unnested p.text) :
    ∃ before, pieces isAnyQuote sql = before ++ .plain '(' :: pieces isAnyQuote h.rest := by
  obtain ⟨lead, hLead⟩ := hShown
  obtain ⟨u, v, -, hHit⟩ := exists_of_findFrom_eq_some hHead
  obtain ⟨t, ht⟩ := exists_text_of_append_exactly hHit
  have hMarks := not_mem_text_of_avoids avoids_createTableHead hHit
  rw [ht] at hMarks
  have hText : textOf (pieces isAnyQuote (h.text ++ h.rest)) = t ++ '(' :: h.rest := by
    rw [textOf_pieces, ht, List.append_assoc]
    rfl
  obtain ⟨before, hBefore⟩ := (lexed_pieces isAnyQuote _).exists_of_append_paren hText
    (fun c hc => by simpa [hidingMarks] using hMarks c (List.mem_append_left _ hc))
    fun p hp hDouble => (hParens p (hLead ▸ List.mem_append_right lead hp) hDouble).1
  exact ⟨lead ++ before, by rw [hLead, hBefore, List.append_assoc]⟩

/-- A statement whose table begins outside quoted runs and comments, and whose double-quoted runs hold no
parentheses. Behind the parenthesis that opens the body the two ways of reading quotes agree, but for the characters of
the double-quoted runs, exactly if nothing in these begins a single-quoted run or a comment. Then the body ends
at the same parenthesis, and it is cut into the same stretches exactly if no comma stands in a double-quoted run
outside all parentheses; the table has what these stretches add to it. -/
theorem readTable?_doubleQuotes (hHead : createTableHead.find sql = some h) (hShown : HeadShown sql h)
    (hParens : ∀ p ∈ pieces isAnyQuote sql, p.isDoubleQuoted = true → Unnested p.text) :
    (∃ before, pieces isAnyQuote sql = before ++ .plain '(' :: pieces isAnyQuote h.rest) ∧
      (pieces isSingleQuote h.rest = (pieces isAnyQuote h.rest).flatMap Piece.singly ↔
        ∀ p ∈ pieces isAnyQuote h.rest, p.isDoubleQuoted = true → Unhidden p.text) ∧
      ((∀ p ∈ pieces isAnyQuote h.rest, p.isDoubleQuoted = true → Unhidden p.text) →
        (closedBody 0 (pieces isSingleQuote h.rest)).map textOf =
            (closedBody 0 (pieces isAnyQuote h.rest)).map textOf ∧
          ∀ body, closedBody 0 (pieces isAnyQuote h.rest) = some body →
            ((cutAtCommas 0 (pieces isSingleQuote (textOf body))).map textOf = (cutAtCommas 0 body).map textOf ↔
              ∀ p ∈ outside 0 body, p.isDoubleQuoted = true → ',' ∉ p.text) ∧
            ((∀ p ∈ outside 0 body, p.isDoubleQuoted = true → ',' ∉ p.text) →
              readTable? sql = some ((((cutAtCommas 0 body).map fun ps =>
                Text.trim (withoutComments (textOf ps))).filter fun t => !t.isEmpty).foldl addItem
                  (Table.named (String.ofList (h.groupText 1)))))) := by
  obtain ⟨before, hBefore⟩ := exists_pieces_before_body hHead hShown hParens
  have hRest : ∀ p ∈ pieces isAnyQuote h.rest, p ∈ pieces isAnyQuote sql := fun p hp => by
    rw [hBefore]
    exact List.mem_append_right before (List.mem_cons_of_mem _ hp)
  have hNested := fun p hp => hParens p (hRest p hp)
  refine ⟨⟨before, hBefore⟩, pieces_isSingleQuote_eq_iff h.rest, fun hRuns => ?_⟩
  have hPieces := (pieces_isSingleQuote_eq_iff h.rest).2 hRuns
  have hClosed : closedBody 0 _ = _ := closedBody_flatMap_singly hNested
  rw [← hPieces] at hClosed
  have hTexts : (closedBody 0 (pieces isSingleQuote h.rest)).map textOf =
      (closedBody 0 (pieces isAnyQuote h.rest)).map textOf := by
    rw [hClosed, Option.map_map]
    exact congrArg (fun f => Option.map f _) (funext textOf_flatMap_singly)
  refine ⟨hTexts, fun body hBody => ?_⟩
  have hPrefix := prefix_of_closedBody hBody
  -- the body itself is read as it is read in its place
  have hLexed : Lexed isAnyQuote body := (lexed_pieces isAnyQuote h.rest).within hPrefix.isInfix
  have hBodyPieces : pieces isSingleQuote (textOf body) = body.flatMap Piece.singly := by
    have hIff := (pieces_isSingleQuote_eq_iff (textOf body)).2
    rw [hLexed.pieces_textOf] at hIff
    exact hIff fun p hp => hRuns p (hPrefix.subset hp)
  have hCuts : (cutAtCommas 0 (pieces isSingleQuote (textOf body))).map textOf = (cutAtCommas 0 body).map textOf ↔
      ∀ p ∈ outside 0 body, p.isDoubleQuoted = true → ',' ∉ p.text := by
    rw [hBodyPieces]
    exact map_textOf_cutAtCommas_iff fun p hp => hNested p (hPrefix.subset hp)
  refine ⟨hCuts, fun hCommas => ?_⟩
  have hItems : items (textOf body) = ((cutAtCommas 0 body).map fun ps =>
      Text.trim (withoutComments (textOf ps))).filter fun t => !t.isEmpty := by
    have hEach : ∀ qss : List (List Piece), (qss.map fun ps => Text.trim (withoutComments (textOf ps))) =
        (qss.map textOf).map fun t => Text.trim (withoutComments t) := by
      intro qss
      rw [List.map_map]
      rfl
    rw [items_eq_filter_map, hEach, hEach, hCuts.2 hCommas]
  have hAfter : bodyAfterParen h.rest = some (textOf body) := by
    rw [bodyAfterParen, hTexts, hBody]
    rfl
  rw [readTable?, hHead]
  show (bodyAfterParen h.rest).bind _ = _
  rw [hAfter, ← hItems]
  rfl

/-- A name and a default in double quotes leave a table as it is written. -/
theorem readTable?_doubleQuotes_default : ∃ t,
    readTable? "CREATE TABLE \"t\" (a TEXT DEFAULT \"x y\", b INT)".toList = some t ∧
      t.columns.map Column.name = ["a", "b"] := by
  have hHead : createTableHead.find "CREATE TABLE \"t\" (a TEXT DEFAULT \"x y\", b INT)".toList =
      some ⟨"CREATE TABLE \"t\" (".toList, [(1, ['t'])], "a TEXT DEFAULT \"x y\", b INT)".toList⟩ := by
    decide +kernel
  have hRead := (readTable?_doubleQuotes hHead ⟨[], rfl⟩ (by decide +kernel)).2.2 (by decide +kernel)
  have hBody : closedBody 0 (pieces isAnyQuote "a TEXT DEFAULT \"x y\", b INT)".toList) =
      some (pieces isAnyQuote "a TEXT DEFAULT \"x y\", b INT".toList) := by
    decide +kernel
  exact ⟨_, (hRead.2 _ hBody).2 (by decide +kernel), by decide +kernel⟩

/-- If every quoted run and every comment is closed, still not every body ends and is cut as the statement around it
shows: a comma in double quotes is taken for one between items, and if no parenthesis closes the body, the last one there
is does, though it may be quoted. -/
theorem bodies_disagree :
    (¬ ∀ (sql : List Char) (h : Hit) (body : List Piece), createTableHead.find sql = some h → HeadShown sql h →
      (∀ p ∈ pieces isAnyQuote sql, p.isClosed = true) → closedBody 0 (pieces isAnyQuote h.rest) = some body →
        (cutAtCommas 0 (pieces isSingleQuote (textOf body))).map textOf = (cutAtCommas 0 body).map textOf) ∧
      ¬ ∀ (sql : List Char) (h : Hit), createTableHead.find sql = some h → HeadShown sql h →
        (∀ p ∈ pieces isAnyQuote sql, p.isClosed = true) →
          bodyAfterParen h.rest = (closedBody 0 (pieces isAnyQuote h.rest)).map textOf := by
  constructor
  · intro hAll
    have hCut := hAll "CREATE TABLE t (a TEXT DEFAULT \"x,y\", b INT)".toList
      ⟨"CREATE TABLE t (".toList, [(1, ['t'])], "a TEXT DEFAULT \"x,y\", b INT)".toList⟩
      (pieces isAnyQuote "a TEXT DEFAULT \"x,y\", b INT".toList) (by decide +kernel) ⟨[], rfl⟩ (by decide +kernel)
      (by decide +kernel)
    revert hCut
    decide +kernel
  · intro hAll
    have hEnd := hAll "CREATE TABLE t (a TEXT DEFAULT ')'".toList
      ⟨"CREATE TABLE t (".toList, [(1, ['t'])], "a TEXT DEFAULT ')'".toList⟩ (by decide +kernel) ⟨[], rfl⟩
      (by decide +kernel)
    revert hEnd
    decide +kernel

end SqlSurvey.Ddl
