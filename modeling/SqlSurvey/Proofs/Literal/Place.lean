import SqlSurvey.Proofs.Literal.Scan
import SqlSurvey.Proofs.Literal.Fragments

/-!
# Where recorded literals stand

Whatever text the scanner has read, closed or not: what it is in the middle of began at the offset that the
scanner holds, and every literal that it has recorded stands in the text between two equal delimiters.
-/

namespace SqlSurvey.Literal

variable {before delimiter tail : List Char} {start : Nat} {q : Char}

/-! ## What has been read of a literal -/

/-- The text `last` has been read last, from the offset `start` on. -/
def Fresh (before : List Char) (start : Nat) (last : List Char) : Prop :=
  ∃ u, start = Text.byteLength u ∧ before = u ++ last

/-- A delimiter begins at the offset `start`; after it stands any text, and then `tail`. -/
def Opened (before : List Char) (start : Nat) (delimiter tail : List Char) : Prop :=
  ∃ body, Fresh before start (delimiter ++ body ++ tail)

/-- The recorded literal is one that stands in the text. -/
def StandsIn (text : List Char) (l : Literal) : Prop := ∃ o : Occurrence, o.Within [] text ∧ o.literal = l

theorem fresh_here (before last : List Char) : Fresh (before ++ last) (Text.byteLength before) last :=
  ⟨before, rfl, rfl⟩

theorem Fresh.append {last : List Char} (h : Fresh before start last) (t : List Char) :
    Fresh (before ++ t) start (last ++ t) := by
  obtain ⟨u, hStart, rfl⟩ := h
  exact ⟨u, hStart, by rw [List.append_assoc]⟩

theorem Fresh.opened (h : Fresh before start delimiter) : Opened before start delimiter [] :=
  ⟨[], by simpa using h⟩

theorem Opened.append (h : Opened before start delimiter tail) (t : List Char) :
    Opened (before ++ t) start delimiter (tail ++ t) := by
  obtain ⟨body, hFresh⟩ := h
  exact ⟨body, by simpa using hFresh.append t⟩

/-- What stands at the end may be counted as body. -/
theorem Opened.body (h : Opened before start delimiter tail) : Opened before start delimiter [] := by
  obtain ⟨body, hFresh⟩ := h
  exact ⟨body ++ tail, by simpa using hFresh⟩

/-- One more character of the body. -/
theorem Opened.char (h : Opened before start delimiter tail) (c : Char) :
    Opened (before ++ [c]) start delimiter [] := (h.append [c]).body

/-- A delimiter takes its bytes. -/
theorem Opened.byteLength_le (h : Opened before start delimiter tail) :
    Text.byteLength delimiter + Text.byteLength tail ≤ Text.byteLength before := by
  obtain ⟨body, u, -, rfl⟩ := h
  simp only [Text.byteLength_append]
  omega

theorem StandsIn.append {text : List Char} {l : Literal} (h : l.StandsIn text) (t : List Char) :
    l.StandsIn (text ++ t) := by
  obtain ⟨o, ho, hl⟩ := h
  exact ⟨o, by simpa using Occurrence.Within.append (a := []) t (by simpa using ho), hl⟩

/-- A literal whose two delimiters have been read is recorded as it stands. -/
theorem Opened.standsIn (h : Opened before start delimiter delimiter) (hDelimiter : delimiter ≠ []) :
    StandsIn before ⟨start, Text.byteLength before, start + Text.byteLength delimiter,
      Text.byteLength before - Text.byteLength delimiter⟩ := by
  obtain ⟨body, u, rfl, rfl⟩ := h
  exact ⟨⟨u, delimiter, body⟩, ⟨hDelimiter, u, [], by simp, by simp [Occurrence.text]⟩, rfl⟩

/-! ## What the scanner holds -/

/-- What the scanner is in the middle of has been opened where the mode says. -/
def Mode.Began (before : List Char) : Mode → Prop
  | .code | .slash | .lineComment | .blockComment | .blockCommentStar => True
  | .oneQuote q start => isStringQuote q = true ∧ Fresh before start [q]
  | .twoQuotes q start => isStringQuote q = true ∧ Fresh before start [q, q]
  | .quoted q start | .quotedEscape q start => isStringQuote q = true ∧ Opened before start [q] []
  | .tripled q start closing =>
    isStringQuote q = true ∧ Opened before start [q, q, q] (List.replicate closing q)
  | .tripledEscape q start => isStringQuote q = true ∧ Opened before start [q, q, q] []
  | .template start | .templateEscape start | .templateDollar start => Opened before start ['\x60'] []

namespace State

/-- After the text `before`, the scanner holds nothing that does not stand in it. -/
structure Holds (before : List Char) (s : State) : Prop where
  mode : s.mode.Began before
  frames : ∀ f ∈ s.frames, Opened before f.start ['\x60'] []
  found : ∀ l ∈ s.found, l.StandsIn before

variable {s : State} {c : Char}

theorem holds_initial : initial.Holds [] where
  mode := trivial
  frames := fun _ hf => absurd hf List.not_mem_nil
  found := fun _ hl => absurd hl List.not_mem_nil

/-- In another mode, what stood in the text still does. -/
theorem Holds.enter (h : s.Holds before) {next : Mode} (hNext : next.Began (before ++ [c])) :
    (s.enter next).Holds (before ++ [c]) where
  mode := hNext
  frames := fun f hf => (h.frames f hf).char c
  found := fun l hl => (h.found l hl).append [c]

/-- Recording a literal with its two delimiters. -/
theorem Holds.record (h : s.Holds before) {text : List Char} (t : List Char) (hText : text = before ++ t)
    (hDelimiter : delimiter ≠ []) (hOpened : Opened text start delimiter delimiter) {width stop : Nat}
    (hWidth : width = Text.byteLength delimiter) (hStop : stop = Text.byteLength text) :
    (s.record start width stop).Holds text where
  mode := trivial
  frames := fun f hf => by rw [hText]; exact ((h.frames f hf).append t).body
  found := by
    intro l hl
    rcases List.mem_cons.1 hl with rfl | hl
    · rw [hWidth, hStop]
      exact hOpened.standsIn hDelimiter
    · rw [hText]
      exact (h.found l hl).append t

theorem Holds.stepCode (h : s.Holds before) (hOffset : s.offset = Text.byteLength before) (c : Char) :
    (s.stepCode c).Holds (before ++ [c]) := by
  have hFrames := fun f hf => (h.frames f hf).char c
  have hFound := fun l hl => (h.found l hl).append [c]
  unfold State.stepCode
  rw [hOffset]
  split
  · rename_i hc
    exact h.enter (hc ▸ (fresh_here before [c]).opened)
  split
  · rename_i hc
    refine h.enter ⟨?_, fresh_here before [c]⟩
    rcases hc with rfl | rfl <;> rfl
  split
  · exact h.enter trivial
  split
  · exact h.enter trivial
  rename_i f fs hfs
  have hHead : Opened (before ++ [c]) f.start ['\x60'] [] := hFrames f (by rw [hfs]; exact List.mem_cons_self)
  have hTail : ∀ g ∈ fs, Opened (before ++ [c]) g.start ['\x60'] [] := fun g hg =>
    hFrames g (by rw [hfs]; exact List.mem_cons_of_mem f hg)
  have hAgain : ∀ depth, ∀ g ∈ (⟨f.start, depth⟩ :: fs : List Frame),
      Opened (before ++ [c]) g.start ['\x60'] [] := by
    intro depth g hg
    rcases List.mem_cons.1 hg with rfl | hg
    · exact hHead
    · exact hTail g hg
  split
  · exact ⟨trivial, hAgain _, hFound⟩
  split
  · split
    · exact ⟨hHead, hTail, hFound⟩
    · exact ⟨trivial, hAgain _, hFound⟩
  · exact h.enter trivial

theorem Holds.stepTemplate (h : s.Holds before) (hOffset : s.offset = Text.byteLength before)
    (hOpened : Opened before start ['\x60'] []) (c : Char) :
    (s.stepTemplate start c).Holds (before ++ [c]) := by
  unfold State.stepTemplate
  split
  · exact h.enter (hOpened.char c)
  split
  · rename_i hc
    subst hc
    refine h.record ['\x60'] rfl (by simp) (hOpened.append ['\x60']) rfl ?_
    rw [hOffset, Text.byteLength_append]
    rfl
  split
  · exact h.enter (hOpened.char c)
  · exact h.enter (hOpened.char c)

theorem Holds.stepQuoted (h : s.Holds before) (hOffset : s.offset = Text.byteLength before)
    (hq : isStringQuote q = true) (hOpened : Opened before start [q] []) (c : Char) :
    (s.stepQuoted q start c).Holds (before ++ [c]) := by
  unfold State.stepQuoted
  split
  · exact h.enter ⟨hq, hOpened.char c⟩
  split
  · exact h.enter trivial
  split
  · rename_i hc
    subst hc
    refine h.record [c] rfl (by simp) (hOpened.append [c]) ?_ ?_
    · simp [utf8Size_of_isStringQuote hq]
    · simp [hOffset, utf8Size_of_isStringQuote hq]
  · exact h.enter ⟨hq, hOpened.char c⟩

theorem Holds.stepTripled (h : s.Holds before) (hOffset : s.offset = Text.byteLength before) {closing : Nat}
    (hq : isStringQuote q = true) (hOpened : Opened before start [q, q, q] (List.replicate closing q))
    (c : Char) : (s.stepTripled q start closing c).Holds (before ++ [c]) := by
  unfold State.stepTripled
  split
  · exact h.enter ⟨hq, hOpened.char c⟩
  split
  · rename_i hc
    subst hc
    have hMore := hOpened.append [c]
    rw [← List.replicate_succ'] at hMore
    split
    · rename_i hClosing
      rw [hClosing] at hMore
      refine h.record [c] rfl (by simp) hMore ?_ ?_
      · simp [utf8Size_of_isStringQuote hq]
      · simp [hOffset, utf8Size_of_isStringQuote hq]
    · exact h.enter ⟨hq, hMore⟩
  · exact h.enter ⟨hq, hOpened.char c⟩

/-- The scanner may stay in its mode. -/
theorem Holds.again (h : s.Holds before) (hMode : s.mode.Began (before ++ [c])) : s.Holds (before ++ [c]) :=
  h.enter hMode

/-- A character later, the scanner still holds nothing that does not stand in the text. -/
theorem Holds.react (h : s.Holds before) (hOffset : s.offset = Text.byteLength before) (c : Char) :
    (s.react c).Holds (before ++ [c]) := by
  have hMode := h.mode
  unfold State.react
  cases hm : s.mode with
  | code => exact h.stepCode hOffset c
  | slash =>
    dsimp only
    split
    · exact h.enter trivial
    split
    · exact h.enter trivial
    · exact h.stepCode hOffset c
  | lineComment =>
    dsimp only
    split
    · exact h.enter trivial
    · exact h.again (by rw [hm]; trivial)
  | blockComment =>
    dsimp only
    split
    · exact h.enter trivial
    · exact h.again (by rw [hm]; trivial)
  | blockCommentStar =>
    dsimp only
    split
    · exact h.enter trivial
    split
    · exact h.again (by rw [hm]; trivial)
    · exact h.enter trivial
  | oneQuote q start =>
    rw [hm] at hMode
    dsimp only
    split
    · rename_i hc
      subst hc
      exact h.enter ⟨hMode.1, hMode.2.append [c]⟩
    · exact h.stepQuoted hOffset hMode.1 hMode.2.opened c
  | twoQuotes q start =>
    rw [hm] at hMode
    dsimp only
    split
    · rename_i hc
      subst hc
      exact h.enter ⟨hMode.1, (hMode.2.append [c]).opened⟩
    · -- the empty string is recorded before the character is read as code
      have hEmpty : Opened before start [q] [q] := ⟨[], hMode.2⟩
      have hRecord : (s.record start 1 s.offset).Holds before :=
        h.record [] (by simp) (by simp) hEmpty (by simp [utf8Size_of_isStringQuote hMode.1]) hOffset
      exact hRecord.stepCode hOffset c
  | quoted q start =>
    rw [hm] at hMode
    exact h.stepQuoted hOffset hMode.1 hMode.2 c
  | quotedEscape q start =>
    rw [hm] at hMode
    exact h.enter ⟨hMode.1, hMode.2.char c⟩
  | tripled q start closing =>
    rw [hm] at hMode
    exact h.stepTripled hOffset hMode.1 hMode.2 c
  | tripledEscape q start =>
    rw [hm] at hMode
    exact h.enter ⟨hMode.1, hMode.2.char c⟩
  | template start =>
    rw [hm] at hMode
    exact h.stepTemplate hOffset hMode c
  | templateEscape start =>
    rw [hm] at hMode
    exact h.enter (hMode.char c)
  | templateDollar start =>
    rw [hm] at hMode
    dsimp only
    split
    · refine ⟨trivial, fun f hf => ?_, fun l hl => (h.found l hl).append [c]⟩
      rcases List.mem_cons.1 hf with rfl | hf
      · exact hMode.char c
      · exact (h.frames f hf).char c
    · exact h.stepTemplate hOffset hMode c

theorem Holds.step (h : s.Holds before) (hOffset : s.offset = Text.byteLength before) (c : Char) :
    (s.step c).Holds (before ++ [c]) := by
  obtain ⟨hMode, hFrames, hFound⟩ := h.react hOffset c
  exact ⟨hMode, hFrames, hFound⟩

theorem offset_step (hOffset : s.offset = Text.byteLength before) (c : Char) :
    (s.step c).offset = Text.byteLength (before ++ [c]) := by
  simp [State.step, hOffset]

/-- A text later, the scanner holds nothing that does not stand in the two texts. -/
theorem Holds.run (h : s.Holds before) (hOffset : s.offset = Text.byteLength before) (t : List Char) :
    (s.run t).Holds (before ++ t) := by
  induction t generalizing s before with
  | nil =>
    rw [List.append_nil]
    exact h
  | cons c t ih =>
    have hRest := ih (h.step hOffset c) (offset_step hOffset c)
    rw [List.append_assoc] at hRest
    exact hRest

theorem holds_run_initial (text : List Char) : (initial.run text).Holds text := holds_initial.run rfl text

/-- What is recorded in the end stands in the text, the empty string at its very end included. -/
theorem Holds.literals (h : s.Holds before) (hOffset : s.offset = Text.byteLength before) :
    ∀ l ∈ s.literals, l.StandsIn before := by
  intro l hl
  unfold State.literals at hl
  split at hl
  · rename_i q start hm
    have hMode := h.mode
    rw [hm] at hMode
    have hEmpty : Opened before start [q] [q] := ⟨[], hMode.2⟩
    have hRecord : (s.record start 1 s.offset).Holds before :=
      h.record [] (by simp) (by simp) hEmpty (by simp [utf8Size_of_isStringQuote hMode.1]) hOffset
    exact hRecord.found l (List.mem_reverse.1 hl)
  · exact h.found l (List.mem_reverse.1 hl)

end State

/-- Every literal that is found in a text stands in it. -/
theorem standsIn_of_mem_allIn {source : List Char} {l : Literal} (h : l ∈ Literal.allIn source) :
    l.StandsIn source := by
  have hMem := (perm_foldl_insertByStart _ _).subset h
  rw [List.append_nil] at hMem
  refine (State.holds_run_initial source).literals ?_ l hMem
  rw [State.offset_run]
  exact Nat.zero_add _

end SqlSurvey.Literal
