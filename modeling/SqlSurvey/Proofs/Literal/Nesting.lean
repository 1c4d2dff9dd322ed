import SqlSurvey.Proofs.Literal.DescentRun

/-!
# Literals are nested

Of every source, well formed or not: each scan of a literal or a substitution ends within the source, each literal
stands between two equal delimiters, and of any two literals one ends before the other begins or lies in the body of
the other, which is a template. So the fragments come in the order in which they begin, each with the trimmed body of
its literal.
-/

namespace SqlSurvey.Literal

variable {source : List Char} {l m : Literal} {d : List UInt8}

/-! ## Delimiters -/

/-- What may stand on either side of the body of a literal: a backtick, a quote, or three quotes. -/
def delimiters : List (List Char) := Descent.delimiters.map Text.ofBytes

/-- The literal is a template: its body stands between backticks. -/
def IsTemplate (source : List Char) (l : Literal) : Prop :=
  ∃ o : Occurrence, o.Within [] source ∧ o.literal = l ∧ o.delimiter = ['\x60']

theorem toNat_lt_of_mem_delimiters : ∀ d ∈ Descent.delimiters, ∀ b ∈ d, b.toNat < 128 := by decide +kernel

/-- A literal is recorded by the descent as it is found. -/
theorem perm_allIn (source : List Char) :
    (Literal.allIn source).Perm (Descent.code (Text.byteLength source) none 0 (Text.bytes source)).found := by
  have hPerm := perm_foldl_insertByStart (State.initial.run source).literals []
  rw [List.append_nil] at hPerm
  rw [← literals_run]
  exact hPerm

theorem sound_allIn (source : List Char) : Descent.Sound (Text.bytes source) 0
    (Descent.code (Text.byteLength source) none 0 (Text.bytes source)) := by
  rw [← Text.length_bytes]
  exact Descent.sound_code none 0 _ rfl

/-- The bytes of a literal begin with those of its delimiter. -/
theorem drop_bytes_before {o : Occurrence} (ho : o.Within [] source) :
    ∃ rest, (Text.bytes source).drop (Text.byteLength o.before) = Text.bytes o.delimiter ++ rest := by
  obtain ⟨-, u, v, hBefore, rfl⟩ := ho
  obtain rfl : o.before = u := hBefore
  refine ⟨Text.bytes (o.body ++ o.delimiter ++ v), ?_⟩
  rw [List.append_assoc, Text.bytes_append, ← Text.length_bytes, List.drop_left, Occurrence.text]
  simp

/-- The delimiter that the bytes show is the one that stands in the text. -/
theorem delimiter_eq {o : Occurrence} (ho : o.Within [] source) (hd : d ∈ Descent.delimiters)
    (hPrefix : d <+: (Text.bytes source).drop (Text.byteLength o.before))
    (hLength : d.length = Text.byteLength o.delimiter) : o.delimiter = Text.ofBytes d := by
  obtain ⟨rest, hDrop⟩ := drop_bytes_before ho
  rw [hDrop] at hPrefix
  have hBytes : d = Text.bytes o.delimiter :=
    List.prefix_iff_eq_take.1 hPrefix |>.trans (by rw [hLength, ← Text.length_bytes, List.take_left])
  exact Text.eq_ofBytes_of_bytes hBytes.symm (toNat_lt_of_mem_delimiters d hd)

/-- Every literal stands in the source, between two delimiters of one of the five kinds. -/
theorem exists_occurrence (h : l ∈ Literal.allIn source) :
    ∃ o : Occurrence, o.Within [] source ∧ o.literal = l ∧ o.delimiter ∈ delimiters := by
  obtain ⟨o, ho, rfl⟩ := standsIn_of_mem_allIn h
  obtain ⟨d, hd, hOpen, -, hBody, -, -⟩ := (sound_allIn source).marked _ ((perm_allIn source).subset h)
  have hLength : d.length = Text.byteLength o.delimiter := (Nat.add_left_cancel hBody).symm
  refine ⟨o, ho, rfl, ?_⟩
  rw [delimiter_eq ho hd hOpen hLength]
  exact List.mem_map_of_mem hd

/-- Of the five delimiters only the backtick begins with the byte of a backtick, and none is empty. -/
theorem eq_backtick_of_mem_delimiters : ∀ d ∈ delimiters,
    Text.bytes d ≠ [] ∧ ((Text.bytes d).head? = some Descent.backtick → d = ['\x60']) := by decide

/-- A literal that begins with a backtick is a template. -/
theorem isTemplate_of_backtick (h : l ∈ Literal.allIn source)
    (hTick : [Descent.backtick] <+: (Text.bytes source).drop l.start) : IsTemplate source l := by
  obtain ⟨o, ho, rfl, hDelimiter⟩ := exists_occurrence h
  obtain ⟨hNe, hEq⟩ := eq_backtick_of_mem_delimiters _ hDelimiter
  obtain ⟨rest, hDrop⟩ := drop_bytes_before ho
  obtain ⟨more, hMore⟩ := hTick
  refine ⟨o, ho, rfl, hEq ?_⟩
  rw [← List.head?_append_of_ne_nil _ hNe, ← hDrop]
  show ((Text.bytes source).drop o.literal.start).head? = _
  rw [← hMore]
  rfl

/-! ## Order -/

theorem marked_of_mem_allIn (h : l ∈ Literal.allIn source) : Descent.Marked (Text.bytes source) l :=
  (sound_allIn source).marked l ((perm_allIn source).subset h)

/-- Any two literals lie apart, whichever was recorded first. -/
theorem pairwise_apart_allIn (source : List Char) : (Literal.allIn source).Pairwise fun l m =>
    Descent.Apart (Text.bytes source) l m ∨ Descent.Apart (Text.bytes source) m l :=
  ((sound_allIn source).apart.imp Or.inl).perm (perm_allIn source).symm Or.symm

/-- Of two literals that lie apart, the one that begins first ends before the other or has it in its body, and then
begins with a backtick. -/
theorem Descent.Apart.of_marked {bytes : List UInt8} (hl : Descent.Marked bytes l) (hm : Descent.Marked bytes m)
    (h : Descent.Apart bytes l m ∨ Descent.Apart bytes m l) : l.start ≠ m.start ∧
      (l.start < m.start → l.stop ≤ m.start ∨
        [Descent.backtick] <+: bytes.drop l.start ∧ l.bodyStart ≤ m.start ∧ m.stop ≤ l.bodyStop) := by
  have hlBounds := hl.bounds
  have hmBounds := hm.bounds
  rcases h with (h | ⟨-, hStart, hStop⟩) | (h | ⟨hTick, hStart, hStop⟩)
  · exact ⟨by omega, fun _ => .inl h⟩
  · exact ⟨by omega, fun _ => by omega⟩
  · exact ⟨by omega, fun _ => by omega⟩
  · exact ⟨by omega, fun _ => .inr ⟨hTick, hStart, hStop⟩⟩

/-- The literals are listed by where they begin. -/
theorem pairwise_start_allIn (source : List Char) : (Literal.allIn source).Pairwise fun l m => l.start < m.start := by
  refine pairwise_foldl_insertByStart _ ?_ .nil
  rw [List.append_nil, literals_run]
  refine (sound_allIn source).apart.imp_of_mem fun hl hm h => ?_
  exact (Descent.Apart.of_marked ((sound_allIn source).marked _ hl) ((sound_allIn source).marked _ hm) (.inl h)).1

/-- A later literal comes behind the end of an earlier one or lies in its body; then the earlier one is a template. -/
theorem pairwise_allIn (source : List Char) : (Literal.allIn source).Pairwise fun l m =>
    l.start < m.start ∧ (l.stop ≤ m.start ∨ IsTemplate source l ∧ l.bodyStart ≤ m.start ∧ m.stop ≤ l.bodyStop) := by
  refine ((pairwise_start_allIn source).and (pairwise_apart_allIn source)).imp_of_mem fun hl hm h => ⟨h.1, ?_⟩
  have hNested := (Descent.Apart.of_marked (marked_of_mem_allIn hl) (marked_of_mem_allIn hm) h.2).2 h.1
  exact hNested.imp_right fun hIn => ⟨isTemplate_of_backtick hl hIn.1, hIn.2⟩

/-! ## What holds of every source -/

/-- The scan ends between two offsets. -/
def Descent.Scan.EndsIn (p : Scan) (low high : Nat) : Prop := low ≤ p.stop ∧ p.stop ≤ high

/-- Every scan of a piece of the bytes ends within them: that of a template or a string behind the byte with which
the piece begins, and that of a substitution where it begins or later. -/
structure Descent.ScansEnd (bytes : List UInt8) : Prop where
  template : ∀ start rest, bytes.drop start = backtick :: rest →
    (template bytes.length start (start + 1) rest).EndsIn (start + 1) bytes.length
  tripled : ∀ start q rest, isQuote q = true → bytes.drop start = q :: q :: q :: rest →
    (tripled bytes.length q start (start + 3) rest).EndsIn (start + 1) bytes.length
  quoted : ∀ start q rest, isQuote q = true → bytes.drop start = q :: rest →
    (quoted bytes.length q start (start + 1) rest).EndsIn (start + 1) bytes.length
  substitution : ∀ i ≤ bytes.length, (code bytes.length (some 0) i (bytes.drop i)).EndsIn i bytes.length

theorem Descent.scansEnd (bytes : List UInt8) : ScansEnd bytes where
  template := fun start rest hRest => by
    have hSound := (ends_template start (start + 1) rest (drop_succ hRest 0)).sound ⟨rest, hRest.symm⟩
    exact ⟨hSound.2, hSound.1.stop_le⟩
  tripled := fun start q rest hq hRest => by
    have hOpen : [q, q, q] <+: bytes.drop start := ⟨rest, hRest.symm⟩
    have hSound := sound_tripled hq hOpen (Nat.le_refl _) (drop_succ hRest 2)
    exact ⟨hSound.2, hSound.1.stop_le⟩
  quoted := fun start q rest hq hRest => by
    have hOpen : [q] <+: bytes.drop start := ⟨rest, hRest.symm⟩
    have hSound := sound_quoted hq hOpen (Nat.lt_succ_self start) (drop_succ hRest 0)
    exact ⟨hSound.2, hSound.1.stop_le⟩
  substitution := fun i hi => by
    have hSound := sound_code (some 0) i (bytes.drop i) rfl
    have := hSound.le_stop
    exact ⟨by omega, hSound.stop_le⟩

/-- A character begins at the offset, or the text ends there. -/
def Boundary (source : List Char) (i : Nat) : Prop := ∃ u v, source = u ++ v ∧ i = Text.byteLength u

/-- The body of the literal lies in the literal and the literal in the source, and no offset is inside a
character. -/
structure WellPlaced (source : List Char) (l : Literal) : Prop where
  start_lt : l.start < l.bodyStart
  body_le : l.bodyStart ≤ l.bodyStop
  lt_stop : l.bodyStop < l.stop
  stop_le : l.stop ≤ Text.byteLength source
  boundary : ∀ i ∈ [l.start, l.bodyStart, l.bodyStop, l.stop], Boundary source i

theorem Occurrence.Within.wellPlaced {o : Occurrence} (ho : o.Within [] source)
    (hMarked : Descent.Marked (Text.bytes source) o.literal) : WellPlaced source o.literal := by
  have hBounds := hMarked.bounds
  obtain ⟨-, u, v, hBefore, hSource⟩ := ho
  obtain rfl : o.before = u := hBefore
  subst hSource
  have hLength := congrArg Text.byteLength (show o.text = o.delimiter ++ o.body ++ o.delimiter from rfl)
  simp only [Text.byteLength_append] at hLength
  refine ⟨hBounds.1, hBounds.2.1, hBounds.2.2, ?_, ?_⟩
  · simp only [Occurrence.literal, Text.byteLength_append]
    omega
  · simp only [List.forall_mem_cons, List.not_mem_nil, false_implies, implies_true, and_true, Occurrence.literal]
    refine ⟨⟨o.before, o.text ++ v, by simp, rfl⟩,
      ⟨o.before ++ o.delimiter, o.body ++ o.delimiter ++ v, by simp [Occurrence.text], by simp⟩,
      ⟨o.before ++ o.delimiter ++ o.body, o.delimiter ++ v, by simp [Occurrence.text], ?_⟩,
      ⟨o.before ++ o.text, v, rfl, by simp⟩⟩
    simp only [Text.byteLength_append]
    omega

/-- Every literal of a source is well placed. -/
theorem wellPlaced_of_mem_allIn (h : l ∈ Literal.allIn source) : WellPlaced source l := by
  obtain ⟨o, ho, rfl, -⟩ := exists_occurrence h
  exact ho.wellPlaced (marked_of_mem_allIn h)

/-- The span of the fragment is that of a literal, which shows a body between two equal delimiters, and the text of
the fragment is that body, trimmed. -/
def CutFrom (source : List Char) (f : Fragment) : Prop :=
  ∃ l ∈ Literal.allIn source, f.span.offset = l.start ∧ f.span.offset + f.span.length = l.stop ∧
    ∃ d ∈ delimiters, Text.slice source l.start l.stop = d ++ Text.slice source l.bodyStart l.bodyStop ++ d ∧
      f.text = Text.trim (Text.slice source l.bodyStart l.bodyStop)

/-- What a fragment takes from its literal. -/
theorem eq_of_ofLiteral? {f : Fragment} (h : Fragment.ofLiteral? source l = some f) :
    f.text = Text.trim (Text.slice source l.bodyStart l.bodyStop) ∧ f.span.offset = l.start ∧
      f.span.length = l.stop - l.start := by
  unfold Fragment.ofLiteral? at h
  dsimp only at h
  split at h
  · rw [Option.some.injEq] at h
    subst h
    exact ⟨rfl, rfl, rfl⟩
  · cases h

/-- Every fragment is cut from a literal. -/
theorem cutFrom_of_mem_allIn {f : Fragment} (h : f ∈ Fragment.allIn source) : CutFrom source f := by
  obtain ⟨l, hl, hf⟩ := List.mem_filterMap.1 h
  have hBounds := (marked_of_mem_allIn hl).bounds
  obtain ⟨hText, hOffset, hLength⟩ := eq_of_ofLiteral? hf
  obtain ⟨o, ho, rfl, hDelimiter⟩ := exists_occurrence hl
  obtain ⟨hShown, hBody⟩ := ho.slice
  refine ⟨o.literal, hl, hOffset, ?_, o.delimiter, hDelimiter, ?_, hText⟩
  · rw [hOffset, hLength]
    omega
  · rw [hShown, hBody]
    rfl

/-- The fragments are listed by where their literals begin. -/
theorem pairwise_offset_allIn (source : List Char) :
    (Fragment.allIn source).Pairwise fun f g => f.span.offset < g.span.offset := by
  rw [Fragment.allIn, List.pairwise_filterMap]
  refine (pairwise_start_allIn source).imp fun h f hf g hg => ?_
  rw [(eq_of_ofLiteral? hf).2.1, (eq_of_ofLiteral? hg).2.1]
  exact h

/-- Literals are safe and nested in every source, well formed or not. Reading the source a character at a time finds
what the scans of its bytes find by recursive descent, and each of those scans ends within the source; every literal is
well placed; literals begin at different places, and of any two the first ends before the second begins, or has it in
its body and is a template; and the fragments stand in the order of their offsets, each with the trimmed body of its
literal. -/
theorem allIn_nested (source : List Char) :
    (Literal.allIn source).Perm (Descent.code (Text.byteLength source) none 0 (Text.bytes source)).found ∧
      Descent.ScansEnd (Text.bytes source) ∧
      (∀ l ∈ Literal.allIn source, WellPlaced source l) ∧
      ((Literal.allIn source).Pairwise fun l m => l.start < m.start ∧
        (l.stop ≤ m.start ∨ IsTemplate source l ∧ l.bodyStart ≤ m.start ∧ m.stop ≤ l.bodyStop)) ∧
      ((Fragment.allIn source).Pairwise fun f g => f.span.offset < g.span.offset) ∧
      ∀ f ∈ Fragment.allIn source, CutFrom source f :=
  ⟨perm_allIn source, Descent.scansEnd _, fun _ hl => wellPlaced_of_mem_allIn hl, pairwise_allIn source,
    pairwise_offset_allIn source, fun _ hf => cutFrom_of_mem_allIn hf⟩

/-- A string in the substitution of a template lies in the body of the template, also if the source breaks off
behind them. -/
theorem allIn_nested_broken :
    Literal.allIn "\x60a$\x7b'b'\x7dc\x60 'd\\".toList = [⟨0, 10, 1, 9⟩, ⟨4, 7, 5, 6⟩] ∧
      IsTemplate "\x60a$\x7b'b'\x7dc\x60 'd\\".toList ⟨0, 10, 1, 9⟩ := by
  have hFound : Literal.allIn "\x60a$\x7b'b'\x7dc\x60 'd\\".toList = [⟨0, 10, 1, 9⟩, ⟨4, 7, 5, 6⟩] := by
    decide +kernel
  have hNested := (allIn_nested "\x60a$\x7b'b'\x7dc\x60 'd\\".toList).2.2.2.1
  rw [hFound, List.pairwise_pair] at hNested
  exact ⟨hFound, (hNested.2.resolve_left (by decide)).1⟩

end SqlSurvey.Literal
