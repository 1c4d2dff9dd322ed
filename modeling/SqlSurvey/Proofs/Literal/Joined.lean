import SqlSurvey.Proofs.Literal.Place
import SqlSurvey.Proofs.Text.Position

/-!
# Source texts put together

A scanner that has come to the end of a line with nothing open reads on as it would read a new text, only that
its offsets count the bytes before. The literals of two texts put together at such a place are those of the
first and, moved behind it, those of the second; so are the fragments, and the schema that they define.
-/

namespace SqlSurvey

/-! ## Moving places -/

/-- The span behind so many more bytes and lines. -/
def Text.Span.moved (s : Text.Span) (bytes lines : Nat) : Text.Span :=
  { s with offset := s.offset + bytes, line := s.line + lines }

/-- The fragment behind so many more bytes and lines. -/
def Fragment.moved (bytes lines : Nat) (f : Fragment) : Fragment :=
  { f with span := f.span.moved bytes lines }

namespace Text

/-- Lines are counted on from where a text begins; the column in the line stays the same. -/
theorem foldl_advance (s : List Char) (line column lines : Nat) :
    s.foldl Position.advance ⟨line + lines, column⟩ =
      ⟨(s.foldl Position.advance ⟨line, column⟩).line + lines,
        (s.foldl Position.advance ⟨line, column⟩).column⟩ := by
  induction s generalizing line column with
  | nil => rfl
  | cons c s ih =>
    by_cases hc : c = '\n'
    · simp only [List.foldl_cons, Position.advance, if_pos hc]
      rw [Nat.add_right_comm, ih]
    · simp only [List.foldl_cons, Position.advance, if_neg hc]
      rw [ih]

/-- After a text that ends with a line feed, a line begins. -/
theorem positionAfter_of_getLast? {s : List Char} (h : s.getLast? = some '\n') :
    positionAfter s = ⟨1 + s.count '\n', 1⟩ := by
  have hLine := line_foldl_advance s Position.start
  obtain ⟨r, rfl⟩ := List.getLast?_eq_some_iff.1 h
  have hColumn : (positionAfter (r ++ ['\n'])).column = 1 := by
    simp [positionAfter, Position.advance]
  exact congrArg₂ Position.mk hLine hColumn

/-- A place behind whole lines has their number added to its line. -/
theorem positionAfter_append {s : List Char} (h : s.getLast? = some '\n') (u : List Char) :
    positionAfter (s ++ u) = ⟨(positionAfter u).line + s.count '\n', (positionAfter u).column⟩ := by
  rw [positionAfter, List.foldl_append]
  show u.foldl Position.advance (positionAfter s) = _
  rw [positionAfter_of_getLast? h, foldl_advance]
  rfl

end Text

namespace Literal

/-- The recorded literal behind so many more bytes. -/
def moved (bytes : Nat) (l : Literal) : Literal :=
  ⟨l.start + bytes, l.stop + bytes, l.bodyStart + bytes, l.bodyStop + bytes⟩

/-- The mode behind so many more bytes. -/
def Mode.moved (bytes : Nat) : Mode → Mode
  | .code => .code
  | .slash => .slash
  | .lineComment => .lineComment
  | .blockComment => .blockComment
  | .blockCommentStar => .blockCommentStar
  | .oneQuote q start => .oneQuote q (start + bytes)
  | .twoQuotes q start => .twoQuotes q (start + bytes)
  | .quoted q start => .quoted q (start + bytes)
  | .quotedEscape q start => .quotedEscape q (start + bytes)
  | .tripled q start closing => .tripled q (start + bytes) closing
  | .tripledEscape q start => .tripledEscape q (start + bytes)
  | .template start => .template (start + bytes)
  | .templateEscape start => .templateEscape (start + bytes)
  | .templateDollar start => .templateDollar (start + bytes)

/-- The open template behind so many more bytes. -/
def Frame.moved (bytes : Nat) (f : Frame) : Frame := ⟨f.start + bytes, f.depth⟩

namespace State

variable {before : List Char} {s : State} {bytes start width stop closing : Nat} {earlier : List Literal}
  {q c : Char}

/-- The state behind so many more bytes, in which the `earlier` literals have been recorded. -/
def moved (bytes : Nat) (earlier : List Literal) (s : State) : State where
  offset := s.offset + bytes
  mode := s.mode.moved bytes
  frames := s.frames.map (Frame.moved bytes)
  found := s.found.map (Literal.moved bytes) ++ earlier

/-! ## One character later -/

/-- A literal that is wide enough for its delimiters is recorded alike. -/
theorem record_moved (h : width ≤ stop) :
    (s.moved bytes earlier).record (start + bytes) width (stop + bytes) =
      (s.record start width stop).moved bytes earlier := by
  have hStart : start + bytes + width = start + width + bytes := Nat.add_right_comm ..
  have hStop : stop + bytes - width = stop - width + bytes := Nat.sub_add_comm h
  simp only [record, moved, Literal.moved, Mode.moved, List.map_cons, List.cons_append, hStart, hStop]

theorem stepCode_moved :
    (s.moved bytes earlier).stepCode c = (s.stepCode c).moved bytes earlier := by
  unfold stepCode
  by_cases hBacktick : c = '\x60'
  · rw [if_pos hBacktick, if_pos hBacktick]
    rfl
  rw [if_neg hBacktick, if_neg hBacktick]
  by_cases hQuote : c = '"' ∨ c = '\''
  · rw [if_pos hQuote, if_pos hQuote]
    rfl
  rw [if_neg hQuote, if_neg hQuote]
  by_cases hSlash : c = '/'
  · rw [if_pos hSlash, if_pos hSlash]
    rfl
  rw [if_neg hSlash, if_neg hSlash]
  obtain ⟨offset, mode, frames, found⟩ := s
  cases frames with
  | nil => rfl
  | cons f fs =>
    obtain ⟨start, depth⟩ := f
    show (if c = '\x7b' then _ else if c = '\x7d' then _ else _) =
      moved bytes earlier (if c = '\x7b' then _ else if c = '\x7d' then _ else _)
    split
    · rfl
    split
    · cases depth <;> rfl
    · rfl

theorem stepTemplate_moved :
    (s.moved bytes earlier).stepTemplate (start + bytes) c =
      (s.stepTemplate start c).moved bytes earlier := by
  unfold stepTemplate
  split
  · rfl
  split
  · rw [← record_moved (Nat.le_add_left 1 s.offset)]
    exact congrArg _ (Nat.add_right_comm ..)
  split
  · rfl
  · rfl

theorem stepQuoted_moved :
    (s.moved bytes earlier).stepQuoted q (start + bytes) c =
      (s.stepQuoted q start c).moved bytes earlier := by
  unfold stepQuoted
  split
  · rfl
  split
  · rfl
  split
  · rw [← record_moved (Nat.le_add_left 1 s.offset)]
    exact congrArg _ (Nat.add_right_comm ..)
  · rfl

/-- Three quotes to begin with make the string wide enough. -/
theorem stepTripled_moved (h : 2 ≤ s.offset) :
    (s.moved bytes earlier).stepTripled q (start + bytes) closing c =
      (s.stepTripled q start closing c).moved bytes earlier := by
  unfold stepTripled
  split
  · rfl
  split
  · split
    · rw [← record_moved (by omega)]
      exact congrArg _ (Nat.add_right_comm ..)
    · rfl
  · rfl

/-- Two quotes have been read, so there is a byte for the second. -/
theorem record_moved_of_twoQuotes (hm : s.mode = .twoQuotes q start) (hMode : s.mode.Began before)
    (hOffset : s.offset = Text.byteLength before) :
    (s.moved bytes earlier).record (start + bytes) 1 (s.offset + bytes) =
      (s.record start 1 s.offset).moved bytes earlier := by
  rw [hm] at hMode
  have hWide := hMode.2.opened.byteLength_le
  simp only [Text.byteLength_cons, Text.byteLength_nil, utf8Size_of_isStringQuote hMode.1] at hWide
  exact record_moved (by omega)

/-- A moved state reads a character as the state itself does. -/
theorem react_moved (hMode : s.mode.Began before) (hOffset : s.offset = Text.byteLength before) :
    (s.moved bytes earlier).react c = (s.react c).moved bytes earlier := by
  have hMoved : (s.moved bytes earlier).mode = s.mode.moved bytes := rfl
  unfold react
  rw [hMoved]
  cases hm : s.mode with
  | code => exact stepCode_moved
  | slash =>
    dsimp only [Mode.moved]
    split
    · rfl
    split
    · rfl
    · exact stepCode_moved
  | lineComment =>
    dsimp only [Mode.moved]
    split <;> rfl
  | blockComment =>
    dsimp only [Mode.moved]
    split <;> rfl
  | blockCommentStar =>
    dsimp only [Mode.moved]
    split
    · rfl
    split <;> rfl
  | oneQuote q start =>
    dsimp only [Mode.moved]
    split
    · rfl
    · exact stepQuoted_moved
  | twoQuotes q start =>
    dsimp only [Mode.moved]
    split
    · rfl
    · exact (congrArg (stepCode · c) (record_moved_of_twoQuotes hm hMode hOffset)).trans stepCode_moved
  | quoted q start => exact stepQuoted_moved
  | quotedEscape q start => rfl
  | tripled q start closing =>
    rw [hm] at hMode
    have hWide := hMode.2.byteLength_le
    simp only [Text.byteLength_cons, Text.byteLength_nil, utf8Size_of_isStringQuote hMode.1] at hWide
    exact stepTripled_moved (by omega)
  | tripledEscape q start => rfl
  | template start => exact stepTemplate_moved
  | templateEscape start => rfl
  | templateDollar start =>
    dsimp only [Mode.moved]
    split
    · rfl
    · exact stepTemplate_moved

theorem step_moved (hMode : s.mode.Began before) (hOffset : s.offset = Text.byteLength before) :
    (s.moved bytes earlier).step c = (s.step c).moved bytes earlier := by
  unfold step
  rw [react_moved hMode hOffset]
  exact congrArg (fun offset => State.mk offset _ _ _) (Nat.add_right_comm ..)

/-! ## A text later -/

/-- A moved state reads a text as the state itself does. -/
theorem run_moved (h : s.Holds before) (hOffset : s.offset = Text.byteLength before) (t : List Char) :
    (s.moved bytes earlier).run t = (s.run t).moved bytes earlier := by
  induction t generalizing s before with
  | nil => rfl
  | cons c t ih =>
    rw [run_cons, run_cons, step_moved h.mode hOffset]
    exact ih (h.step hOffset c) (offset_step hOffset c)

/-- What a moved state has recorded in the end. -/
theorem literals_moved (h : s.Holds before) (hOffset : s.offset = Text.byteLength before) :
    (s.moved bytes earlier).literals = earlier.reverse ++ s.literals.map (Literal.moved bytes) := by
  have hMoved : (s.moved bytes earlier).mode = s.mode.moved bytes := rfl
  have hFound : ∀ s : State, (s.moved bytes earlier).found.reverse =
      earlier.reverse ++ s.found.reverse.map (Literal.moved bytes) := by
    intro s
    simp [moved]
  unfold literals
  rw [hMoved]
  cases hm : s.mode with
  | twoQuotes q start =>
    have hRecord : (s.moved bytes earlier).record (start + bytes) 1 (s.offset + bytes) =
        (s.record start 1 s.offset).moved bytes earlier := record_moved_of_twoQuotes hm h.mode hOffset
    exact (congrArg (fun s : State => s.found.reverse) hRecord).trans (hFound _)
  | _ => exact hFound s

end State

/-! ## Where nothing is open -/

/-- Whether the scanner is inside a literal or a block comment. -/
def Mode.isOpen : Mode → Bool
  | .code | .slash | .lineComment => false
  | _ => true

/-- Neither a literal nor a block comment is open, nor a template around the present place. -/
def State.Settled (s : State) : Prop := s.mode.isOpen = false ∧ s.frames = []

instance (s : State) : Decidable s.Settled := inferInstanceAs (Decidable (_ ∧ _))

/-- A line feed leads back to code, or something is open after it. -/
theorem State.mode_react_lineFeed (s : State) :
    (s.react '\n').mode = .code ∨ (s.react '\n').mode.isOpen = true := by
  have hCode : ∀ s : State, (s.stepCode '\n').mode = .code := by
    intro s
    obtain ⟨offset, mode, frames, found⟩ := s
    cases frames <;> rfl
  unfold State.react
  cases hm : s.mode with
  | code => exact .inl (hCode s)
  | slash => exact .inl (hCode s)
  | lineComment => exact .inl rfl
  | blockComment => exact .inr (congrArg Mode.isOpen hm)
  | blockCommentStar => exact .inr rfl
  | oneQuote q start =>
    dsimp only
    split
    · exact .inr rfl
    · exact .inl rfl
  | twoQuotes q start =>
    dsimp only
    split
    · exact .inr rfl
    · exact .inl (hCode _)
  | quoted q start => exact .inl rfl
  | quotedEscape q start => exact .inr rfl
  | tripled q start closing =>
    dsimp only [State.stepTripled]
    split
    · exact .inr rfl
    split
    · split
      · exact .inl rfl
      · exact .inr rfl
    · exact .inr rfl
  | tripledEscape q start => exact .inr rfl
  | template start => exact .inr rfl
  | templateEscape start => exact .inr rfl
  | templateDollar start => exact .inr rfl

/-- At the end of a line, a scanner in which nothing is open is where it began, only further on. -/
theorem State.run_of_settled {s : List Char} (hEnd : s.getLast? = some '\n')
    (hSettled : (State.initial.run s).Settled) :
    State.initial.run s = State.initial.moved (Text.byteLength s) (State.initial.run s).found := by
  obtain ⟨hOpen, hFrames⟩ := hSettled
  have hMode : (State.initial.run s).mode = .code := by
    obtain ⟨r, rfl⟩ := List.getLast?_eq_some_iff.1 hEnd
    rw [run_append] at hOpen ⊢
    rcases mode_react_lineFeed (State.initial.run r) with h | h
    · exact h
    · exact absurd (h.symm.trans hOpen) (by decide)
  have hOffset : (State.initial.run s).offset = 0 + Text.byteLength s := offset_run State.initial s
  generalize State.initial.run s = final at hMode hFrames hOffset
  obtain ⟨offset, mode, frames, found⟩ := final
  obtain rfl : mode = .code := hMode
  obtain rfl : frames = [] := hFrames
  obtain rfl : offset = 0 + Text.byteLength s := hOffset
  rfl

/-! ## Literals in order -/

/-- What begins no earlier than what is there already comes after it. -/
theorem insertByStart_append {l : Literal} {ls : List Literal} (h : ∀ m ∈ ls, m.start ≤ l.start)
    (ms : List Literal) : insertByStart l (ls ++ ms) = ls ++ insertByStart l ms := by
  induction ls with
  | nil => rfl
  | cons m ls ih =>
    have hm : ¬ l.start < m.start := Nat.not_lt.2 (h m List.mem_cons_self)
    rw [List.cons_append, insertByStart, if_neg hm, ih fun k hk => h k (List.mem_cons_of_mem m hk)]
    rfl

theorem insertByStart_moved (bytes : Nat) (l : Literal) (ms : List Literal) :
    insertByStart (l.moved bytes) (ms.map (moved bytes)) = (insertByStart l ms).map (moved bytes) := by
  induction ms with
  | nil => rfl
  | cons m ms ih =>
    have hIff : (l.moved bytes).start < (m.moved bytes).start ↔ l.start < m.start := by
      simp [moved]
    rw [List.map_cons, insertByStart, insertByStart]
    by_cases hlm : l.start < m.start
    · rw [if_pos hlm, if_pos (hIff.2 hlm)]
      rfl
    · rw [if_neg hlm, if_neg (mt hIff.1 hlm), ih]
      rfl

/-- Literals behind all that are there already are put in order among themselves. -/
theorem foldl_insertByStart_moved {bytes : Nat} {earlier : List Literal}
    (h : ∀ m ∈ earlier, m.start ≤ bytes) (ls ms : List Literal) :
    (ls.map (moved bytes)).foldl (fun acc l => insertByStart l acc) (earlier ++ ms.map (moved bytes)) =
      earlier ++ (ls.foldl (fun acc l => insertByStart l acc) ms).map (moved bytes) := by
  induction ls generalizing ms with
  | nil => rfl
  | cons l ls ih =>
    have hStart : ∀ m ∈ earlier, m.start ≤ (l.moved bytes).start := fun m hm =>
      Nat.le_trans (h m hm) (Nat.le_add_left bytes l.start)
    rw [List.map_cons, List.foldl_cons, insertByStart_append hStart, insertByStart_moved, ih]
    rfl

theorem StandsIn.start_le {text : List Char} {l : Literal} (h : l.StandsIn text) :
    l.start ≤ Text.byteLength text := by
  obtain ⟨o, ho, rfl⟩ := h
  exact Nat.le_of_lt ho.start_bounds.2

/-- The literals of two texts, the first of which ends a line with nothing open. -/
theorem allIn_append {s t : List Char} (hEnd : s.getLast? = some '\n')
    (hSettled : (State.initial.run s).Settled) :
    Literal.allIn (s ++ t) =
      Literal.allIn s ++ (Literal.allIn t).map (moved (Text.byteLength s)) := by
  have hRun := State.run_of_settled hEnd hSettled
  have hFirst : (State.initial.run s).literals = (State.initial.run s).found.reverse := by
    rw [hRun]
    rfl
  have hBoth : (State.initial.run (s ++ t)).literals = (State.initial.run s).literals ++
      (State.initial.run t).literals.map (moved (Text.byteLength s)) := by
    rw [State.run_append, hFirst, hRun, State.run_moved State.holds_initial rfl,
      State.literals_moved (State.holds_run_initial t) ((State.offset_run _ t).trans (Nat.zero_add _))]
    rfl
  have hEarlier : ∀ m ∈ Literal.allIn s, m.start ≤ Text.byteLength s := fun m hm =>
    (standsIn_of_mem_allIn hm).start_le
  rw [Literal.allIn, hBoth, List.foldl_append]
  have hFold := foldl_insertByStart_moved hEarlier (State.initial.run t).literals []
  rw [List.map_nil, List.append_nil] at hFold
  exact hFold

/-! ## Fragments -/

/-- The occurrence behind some other text. -/
def Occurrence.behind (s : List Char) (o : Occurrence) : Occurrence := { o with before := s ++ o.before }

theorem Occurrence.literal_behind (s : List Char) (o : Occurrence) :
    (o.behind s).literal = o.literal.moved (Text.byteLength s) := by
  have hWidth : Text.byteLength o.delimiter ≤ Text.byteLength (o.before ++ o.text) := by
    simp only [Occurrence.text, Text.byteLength_append]
    omega
  simp only [literal, behind, moved, Occurrence.text, Text.byteLength_append, Literal.mk.injEq] at hWidth ⊢
  omega

/-- A literal gives the same fragment when its text goes on. -/
theorem ofLiteral?_append {s : List Char} {l : Literal} (h : l.StandsIn s) (t : List Char) :
    Fragment.ofLiteral? (s ++ t) l = Fragment.ofLiteral? s l := by
  obtain ⟨o, ho, rfl⟩ := h
  have hLonger : o.Within [] (s ++ t) := by simpa using Occurrence.Within.append (a := []) t (by simpa using ho)
  rw [ofLiteral?_literal hLonger, ofLiteral?_literal ho]

/-- Behind whole lines, a literal gives the fragment that it gave, moved. -/
theorem ofLiteral?_moved {s t : List Char} {l : Literal} (hEnd : s.getLast? = some '\n') (h : l.StandsIn t) :
    Fragment.ofLiteral? (s ++ t) (l.moved (Text.byteLength s)) =
      (Fragment.ofLiteral? t l).map (Fragment.moved (Text.byteLength s) (s.count '\n')) := by
  obtain ⟨o, ho, rfl⟩ := h
  have hBehind : (o.behind s).Within [] (s ++ t) := by
    obtain ⟨hDelimiter, u, v, hu, rfl⟩ := ho
    refine ⟨hDelimiter, s ++ u, v, ?_, by simp [Occurrence.behind, Occurrence.text]⟩
    simp [Occurrence.behind, hu]
  rw [← Occurrence.literal_behind, ofLiteral?_literal hBehind, ofLiteral?_literal ho]
  simp only [Occurrence.fragment?, Occurrence.behind, Occurrence.text, Text.byteLength_append,
    Text.positionAfter_append hEnd]
  split
  · rw [Option.map_some, Fragment.moved, Text.Span.moved, Nat.add_comm (Text.byteLength s)]
  · rfl

end Literal

/-- Fragments are found text by text, and so is the schema that they define: a text that ends a line with
nothing open has no influence on what comes after it, apart from its place. -/
theorem Fragment.allIn_append_of_settled {s t : List Char} (hEnd : s.getLast? = some '\n')
    (hSettled : (Literal.State.initial.run s).Settled) :
    Fragment.allIn (s ++ t) = Fragment.allIn s ++
        (Fragment.allIn t).map (Fragment.moved (Text.byteLength s) (s.count '\n')) ∧
      ∀ schema : Schema, schema.afterSource (s ++ t) = (schema.afterSource s).afterSource t := by
  have hFragments : Fragment.allIn (s ++ t) = Fragment.allIn s ++
      (Fragment.allIn t).map (Fragment.moved (Text.byteLength s) (s.count '\n')) := by
    rw [Fragment.allIn, Literal.allIn_append hEnd hSettled, List.filterMap_append, List.filterMap_map,
      Fragment.allIn, Fragment.allIn, List.map_filterMap]
    congr 1
    · exact List.filterMap_congr fun l hl => Literal.ofLiteral?_append (Literal.standsIn_of_mem_allIn hl) t
    · exact List.filterMap_congr fun l hl =>
        Literal.ofLiteral?_moved hEnd (Literal.standsIn_of_mem_allIn hl)
  refine ⟨hFragments, fun schema => ?_⟩
  -- the schema takes in the texts of the fragments, which are the same at another place
  rw [Schema.afterSource, hFragments, List.foldl_append, List.foldl_map]
  rfl

/-- A string that is abandoned at the end of its line, between two literals. -/
theorem Fragment.allIn_append_abandoned :
    "run('DROP a'); it's\n".toList.getLast? = some '\n' ∧
      (Literal.State.initial.run "run('DROP a'); it's\n".toList).Settled ∧
      Fragment.allIn ("run('DROP a'); it's\n".toList ++ "run(`DROP b`)".toList) =
        [⟨"DROP a".toList, ⟨4, 8, 1, 5⟩⟩, ⟨"DROP b".toList, ⟨24, 8, 2, 5⟩⟩] := by
  have hEnd : "run('DROP a'); it's\n".toList.getLast? = some '\n' := by decide +kernel
  have hSettled : (Literal.State.initial.run "run('DROP a'); it's\n".toList).Settled := by decide +kernel
  refine ⟨hEnd, hSettled, ?_⟩
  rw [(Fragment.allIn_append_of_settled hEnd hSettled).1]
  decide +kernel

end SqlSurvey
