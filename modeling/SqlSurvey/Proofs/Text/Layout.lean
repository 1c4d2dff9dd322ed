import SqlSurvey.Proofs.Text.Basic
import Mathlib.Data.List.Infix

/-!
# Texts up to their layout

`squeeze` puts one space for each run of blanks. A text is gone through by its runs: a character that is no
blank, or a run of blanks and the text after it. What does not cut a run in two is done before or after
squeezing with the same result.
-/

namespace SqlSurvey.Text

variable {a b s t u w : List Char} {c d : Char}

/-- One space for each run of blanks. -/
def squeeze : List Char → List Char
  | [] => []
  | c :: r =>
    if isBlank c then if r.head?.any isBlank then squeeze r else ' ' :: squeeze r
    else c :: squeeze r

/-- A space for a blank. -/
def squeezeChar (c : Char) : Char := if isBlank c then ' ' else c

/-! ## The runs of a text -/

@[simp] theorem squeeze_nil : squeeze [] = [] := rfl

theorem squeeze_cons (hc : isBlank c = false) (s : List Char) : squeeze (c :: s) = c :: squeeze s := by
  simp [squeeze, hc]

/-- A run of blanks becomes one space. -/
theorem squeeze_blanks (hw : w ≠ []) (hBlank : ∀ c ∈ w, isBlank c = true) (hs : ∀ c ∈ s.head?, isBlank c = false) :
    squeeze (w ++ s) = ' ' :: squeeze s := by
  induction w with
  | nil => exact absurd rfl hw
  | cons c w ih =>
    have hc : isBlank c = true := hBlank c List.mem_cons_self
    cases w with
    | nil =>
      have hNext : s.head?.any isBlank = false := by
        cases s with
        | nil => rfl
        | cons d s => exact hs d rfl
      simp [squeeze, hc, hNext]
    | cons d w =>
      have hd : isBlank d = true := hBlank d (by simp)
      have hRest := ih (by simp) fun e he => hBlank e (List.mem_cons_of_mem c he)
      rw [List.cons_append, squeeze, if_pos hc, if_pos (by simpa using hd), hRest]

/-- A text is empty, or a character that is no blank and a text, or a run of blanks and a text that does not
begin with one. -/
theorem runs_induction {motive : List Char → Prop} (nil : motive [])
    (char : ∀ c s, isBlank c = false → motive s → motive (c :: s))
    (blanks : ∀ w s, w ≠ [] → (∀ c ∈ w, isBlank c = true) → (∀ c ∈ s.head?, isBlank c = false) → motive s →
      motive (w ++ s))
    (s : List Char) : motive s := by
  -- a blank in front makes a run of its own or makes the first run longer
  suffices hAll : motive s ∧ ∀ w, (∀ c ∈ w, isBlank c = true) → motive (w ++ s) from hAll.1
  induction s with
  | nil =>
    refine ⟨nil, fun w hw => ?_⟩
    by_cases hNil : w = []
    · rw [hNil]
      exact nil
    · exact blanks w [] hNil hw (by simp) nil
  | cons c s ih =>
    by_cases hc : isBlank c = true
    · have hRun : ∀ w, (∀ d ∈ w, isBlank d = true) → motive (w ++ c :: s) := fun w hw => by
        have hBlank : ∀ d ∈ w ++ [c], isBlank d = true := by
          intro d hd
          rcases List.mem_append.1 hd with hd | hd
          · exact hw d hd
          · rwa [List.mem_singleton.1 hd]
        simpa using ih.2 (w ++ [c]) hBlank
      exact ⟨hRun [] (by simp), hRun⟩
    · have hc : isBlank c = false := by simpa using hc
      have hHere := char c s hc ih.1
      refine ⟨hHere, fun w hw => ?_⟩
      by_cases hNil : w = []
      · rwa [hNil]
      · exact blanks w (c :: s) hNil hw (by simpa using hc) hHere

/-! ## The ends of a squeezed text -/

theorem isBlank_squeezeChar (c : Char) : isBlank (squeezeChar c) = isBlank c := by
  unfold squeezeChar
  by_cases hc : isBlank c = true
  · rw [if_pos hc, hc]
    decide
  · rw [if_neg hc]

theorem squeezeChar_of_isBlank (h : isBlank c = false) : squeezeChar c = c := by simp [squeezeChar, h]

theorem head?_squeeze (s : List Char) : (squeeze s).head? = s.head?.map squeezeChar := by
  induction s using runs_induction with
  | nil => rfl
  | char c s hc _ => simp [squeeze_cons hc, squeezeChar_of_isBlank hc]
  | blanks w s hw hBlank hs _ =>
    obtain ⟨d, w, rfl⟩ := List.exists_cons_of_ne_nil hw
    have hd : isBlank d = true := hBlank d List.mem_cons_self
    rw [squeeze_blanks hw hBlank hs]
    simp [squeezeChar, hd]

theorem squeeze_eq_nil_iff : squeeze s = [] ↔ s = [] := by
  rw [← List.head?_eq_none_iff, head?_squeeze, Option.map_eq_none_iff, List.head?_eq_none_iff]

theorem getLast?_squeeze (s : List Char) : (squeeze s).getLast? = s.getLast?.map squeezeChar := by
  induction s using runs_induction with
  | nil => rfl
  | char c s hc ih =>
    rw [squeeze_cons hc, List.getLast?_cons, List.getLast?_cons, ih]
    cases s.getLast? <;> simp [squeezeChar_of_isBlank hc]
  | blanks w s hw hBlank hs ih =>
    rw [squeeze_blanks hw hBlank hs, List.getLast?_cons, ih, List.getLast?_append]
    cases hLast : s.getLast? with
    | some d => rfl
    | none =>
      obtain ⟨v, d, rfl⟩ := (List.eq_nil_or_concat' w).resolve_left hw
      have hd : isBlank d = true := hBlank d (by simp)
      simp [squeezeChar, hd]

theorem isEmpty_squeeze (s : List Char) : (squeeze s).isEmpty = s.isEmpty :=
  Bool.eq_iff_iff.2 (by rw [List.isEmpty_iff, List.isEmpty_iff, squeeze_eq_nil_iff])

/-- A text begins with a blank when the squeezed text does. -/
theorem isBlank_head_squeeze (h : ∀ c ∈ s.head?, isBlank c = false) :
    ∀ c ∈ (squeeze s).head?, isBlank c = false := by
  intro c hc
  rw [head?_squeeze] at hc
  obtain ⟨d, hd, rfl⟩ := Option.map_eq_some_iff.1 hc
  rw [isBlank_squeezeChar, h d hd]

/-- A blank is none of the other characters. -/
theorem beq_of_isBlank (hd : isBlank d = false) (hc : isBlank c = true) : (c == d) = false := by
  rw [beq_eq_false_iff_ne]
  rintro rfl
  rw [hd] at hc
  exact Bool.noConfusion hc

/-! ## Texts put together -/

/-- Two texts between which no run of blanks is cut are squeezed one by one. -/
theorem squeeze_append (h : (∀ c ∈ a.getLast?, isBlank c = false) ∨ ∀ c ∈ b.head?, isBlank c = false) :
    squeeze (a ++ b) = squeeze a ++ squeeze b := by
  induction a using runs_induction with
  | nil => rfl
  | char c a hc ih =>
    rw [List.cons_append, squeeze_cons hc, squeeze_cons hc, ih, List.cons_append]
    refine h.imp_left fun hLast d hd => hLast d ?_
    rw [List.getLast?_cons, hd]
    rfl
  | blanks w a hw hBlank ha ih =>
    cases a with
    | nil =>
      -- the run goes on unless the second text begins with something else
      have hb : ∀ c ∈ b.head?, isBlank c = false := by
        refine h.resolve_left fun hLast => ?_
        obtain ⟨v, d, rfl⟩ := (List.eq_nil_or_concat' w).resolve_left hw
        have hd := hLast d (by simp)
        rw [hBlank d (by simp)] at hd
        exact Bool.noConfusion hd
      rw [List.append_nil, squeeze_blanks hw hBlank hb, ← List.append_nil w,
        squeeze_blanks hw hBlank (by simp)]
      rfl
    | cons c a =>
      have hRest := ih (h.imp_left fun hLast d hd => hLast d (by rw [List.getLast?_append, hd]; rfl))
      rw [List.append_assoc, squeeze_blanks hw hBlank (by simpa using ha), squeeze_blanks hw hBlank ha, hRest,
        List.cons_append]

theorem squeeze_append_cons (hc : isBlank c = false) (a b : List Char) :
    squeeze (a ++ c :: b) = squeeze a ++ c :: squeeze b := by
  rw [squeeze_append (.inr (by simpa using hc)), squeeze_cons hc]

theorem squeeze_of_forall (h : ∀ c ∈ s, isBlank c = false) : squeeze s = s := by
  induction s with
  | nil => rfl
  | cons c s ih => rw [squeeze_cons (h c List.mem_cons_self), ih fun d hd => h d (List.mem_cons_of_mem c hd)]

theorem mem_squeeze (hc : isBlank c = false) : c ∈ squeeze s ↔ c ∈ s := by
  induction s using runs_induction with
  | nil => rfl
  | char d s hd ih => rw [squeeze_cons hd, List.mem_cons, List.mem_cons, ih]
  | blanks w s hw hBlank hs ih =>
    have hSpace : c ≠ ' ' := fun h => by simp [h, isBlank, inRanges, blankRanges] at hc
    have hRun : c ∉ w := fun h => by simp [hBlank c h] at hc
    rw [squeeze_blanks hw hBlank hs, List.mem_cons, List.mem_append, ih]
    simp [hSpace, hRun]

theorem isBlank_of_mem_squeeze (h : ∀ c ∈ s, isBlank c = true) : ∀ c ∈ squeeze s, isBlank c = true := by
  intro c hc
  by_contra hNot
  rw [Bool.not_eq_true] at hNot
  rw [h c ((mem_squeeze hNot).1 hc)] at hNot
  exact Bool.noConfusion hNot

/-- Two characters that are no blanks stand side by side in a squeezed text only where they did before. -/
theorem pair_infix_of_squeeze (hc : isBlank c = false) (hd : isBlank d = false)
    (h : [c, d] <:+: squeeze s) : [c, d] <:+: s := by
  induction s using runs_induction with
  | nil => exact h
  | char e s he ih =>
    rw [squeeze_cons he, List.infix_cons_iff] at h
    rcases h with h | h
    · -- the second character is the first of the squeezed rest
      rw [List.cons_prefix_cons] at h
      obtain ⟨rfl, ⟨t, ht⟩⟩ := h
      have hHead : (squeeze s).head? = some d := by rw [← ht]; rfl
      rw [head?_squeeze, Option.map_eq_some_iff] at hHead
      obtain ⟨e, hs, hSame⟩ := hHead
      have he : isBlank e = false := by rw [← isBlank_squeezeChar, hSame, hd]
      rw [squeezeChar_of_isBlank he] at hSame
      obtain ⟨r, rfl⟩ := List.head?_eq_some_iff.1 hs
      exact ⟨[], r, by simp [hSame]⟩
    · exact (ih h).trans (List.suffix_cons e s).isInfix
  | blanks w s hw hBlank hs ih =>
    rw [squeeze_blanks hw hBlank hs, List.infix_cons_iff] at h
    rcases h with h | h
    · rw [List.cons_prefix_cons] at h
      rw [h.1] at hc
      exact absurd hc (by decide)
    · exact (ih h).trans (List.suffix_append w s).isInfix

/-! ## Trimming -/

theorem isBlank_getLast_trim {s : List Char} : ∀ c ∈ (trim s).getLast?, isBlank c = false := by
  intro c hc
  rw [trim, trimEnd, List.getLast?_reverse] at hc
  have := List.head?_dropWhile_not isBlank (trimStart s).reverse
  rw [hc] at this
  simpa using this

theorem trim_eq_nil (h : ∀ c ∈ s, isBlank c = true) : trim s = [] := by
  simpa using trim_append_blanks h (r := []) (by simp) []

theorem trim_eq_nil_iff : trim s = [] ↔ ∀ c ∈ s, isBlank c = true := by
  refine ⟨fun h => ?_, trim_eq_nil⟩
  obtain ⟨l, r, hs, hl, hr⟩ := exists_eq_append_trim s
  rw [hs, h, List.append_nil]
  exact List.forall_mem_append.2 ⟨hl, hr⟩

theorem trim_trim (s : List Char) : trim (trim s) = trim s :=
  trim_eq_self (fun _ hc => isBlank_head_trim hc) isBlank_getLast_trim

/-- Whether a text is trimmed before it is squeezed or after makes no difference. -/
theorem trim_squeeze (s : List Char) : trim (squeeze s) = squeeze (trim s) := by
  obtain ⟨l, r, hs, hl, hr⟩ := exists_eq_append_trim s
  have hHead : ∀ c ∈ (trim s).head?, isBlank c = false := fun c hc => isBlank_head_trim hc
  have hLast : ∀ c ∈ (trim s).getLast?, isBlank c = false := isBlank_getLast_trim
  by_cases hNil : trim s = []
  · have hAll : ∀ c ∈ s, isBlank c = true := trim_eq_nil_iff.1 hNil
    rw [hNil, trim_eq_nil (isBlank_of_mem_squeeze hAll), squeeze_nil]
  · -- the blanks at the ends are squeezed apart from what is between
    have hMiddle : trim (squeeze (trim s)) = squeeze (trim s) := by
      refine trim_eq_self (isBlank_head_squeeze hHead) fun c hc => ?_
      rw [getLast?_squeeze] at hc
      obtain ⟨d, hd, rfl⟩ := Option.map_eq_some_iff.1 hc
      rw [isBlank_squeezeChar, hLast d hd]
    have hLeft : ∀ c ∈ (l ++ trim s).getLast?, isBlank c = false := by
      intro c hc
      rw [List.getLast?_append_of_ne_nil _ hNil] at hc
      exact hLast c hc
    conv_lhs => rw [hs, squeeze_append (.inl hLeft), squeeze_append (.inr hHead),
      trim_append_blanks (isBlank_of_mem_squeeze hl) (isBlank_of_mem_squeeze hr)]
    exact hMiddle

/-! ## Cutting -/

theorem squeeze_reverse (s : List Char) : squeeze s.reverse = (squeeze s).reverse := by
  induction s using runs_induction with
  | nil => rfl
  | char c s hc ih =>
    rw [List.reverse_cons, squeeze_append_cons hc, ih, squeeze_cons hc, List.reverse_cons]
    rfl
  | blanks w s hw hBlank hs ih =>
    have hLast : ∀ c ∈ s.reverse.getLast?, isBlank c = false := by
      rw [List.getLast?_reverse]
      exact hs
    have hRun : squeeze w.reverse = [' '] := by
      have hReverse := squeeze_blanks (w := w.reverse) (s := []) (by simpa using hw)
        (fun c hc => hBlank c (List.mem_reverse.1 hc)) (by simp)
      simpa using hReverse
    rw [List.reverse_append, squeeze_append (.inl hLast), ih, hRun, squeeze_blanks hw hBlank hs,
      List.reverse_cons]

/-- Dropping characters that are no blanks commutes with squeezing. -/
theorem dropWhile_squeeze {P : Char → Bool} (hP : ∀ c, isBlank c = true → P c = false) (s : List Char) :
    (squeeze s).dropWhile P = squeeze (s.dropWhile P) := by
  induction s using runs_induction with
  | nil => rfl
  | char c s hc ih =>
    rw [squeeze_cons hc]
    by_cases h : P c = true
    · rw [List.dropWhile_cons_of_pos h, List.dropWhile_cons_of_pos h, ih]
    · rw [List.dropWhile_cons_of_neg h, List.dropWhile_cons_of_neg h, squeeze_cons hc]
  | blanks w s hw hBlank hs _ =>
    have hSqueeze := squeeze_blanks hw hBlank hs
    obtain ⟨d, w, rfl⟩ := List.exists_cons_of_ne_nil hw
    rw [hSqueeze, List.cons_append, List.dropWhile_cons_of_neg (by simp [hP ' ' (by decide)]),
      List.dropWhile_cons_of_neg (by simp [hP d (hBlank d List.mem_cons_self)]), ← hSqueeze, List.cons_append]

/-- The first stretch between separators begins as the text does, if at all. -/
theorem head_head_splitOnP {P : Char → Bool} (s : List Char) :
    ∀ g ∈ (s.splitOnP P).head?, ∀ c ∈ g.head?, c ∈ s.head? := by
  cases s with
  | nil => simp
  | cons d s =>
    obtain ⟨g, gs, hCut⟩ := List.exists_cons_of_ne_nil (List.splitOnP_ne_nil P s)
    rw [List.splitOnP_cons_eq_if_modifyHead, hCut]
    by_cases h : P d = true <;> simp [h]

/-- Blanks at the head of a text stay at the head of its first stretch. -/
theorem splitOnP_blanks_append {P : Char → Bool} (hP : ∀ c, isBlank c = true → P c = false)
    (hBlank : ∀ c ∈ w, isBlank c = true) (s : List Char) :
    (w ++ s).splitOnP P = (s.splitOnP P).modifyHead (w ++ ·) := by
  induction w with
  | nil =>
    rw [List.nil_append]
    cases s.splitOnP P <;> rfl
  | cons c w ih =>
    rw [List.cons_append, List.splitOnP_cons_eq_if_modifyHead, hP c (hBlank c List.mem_cons_self),
      if_neg Bool.false_ne_true, ih fun d hd => hBlank d (List.mem_cons_of_mem c hd)]
    cases s.splitOnP P <;> rfl

/-- Blanks at the end of a text stay at the end of its last stretch. -/
theorem exists_splitOnP_append_blanks {P : Char → Bool} (hP : ∀ c, isBlank c = true → P c = false)
    (hBlank : ∀ c ∈ w, isBlank c = true) (s : List Char) :
    ∃ gs g, s.splitOnP P = gs ++ [g] ∧ (s ++ w).splitOnP P = gs ++ [g ++ w] := by
  induction s with
  | nil => exact ⟨[], [], by simp, List.splitOnP_eq_singleton fun c hc => hP c (hBlank c hc)⟩
  | cons c s ih =>
    obtain ⟨gs, g, hs, hsw⟩ := ih
    rw [List.cons_append, List.splitOnP_cons_eq_if_modifyHead, List.splitOnP_cons_eq_if_modifyHead, hs, hsw]
    by_cases hc : P c = true
    · exact ⟨[] :: gs, g, by simp [hc], by simp [hc]⟩
    · cases gs with
      | nil => exact ⟨[], c :: g, by simp [hc], by simp [hc]⟩
      | cons k gs => exact ⟨(c :: k) :: gs, g, by simp [hc], by simp [hc]⟩

/-- Blanks at the ends of a text make no difference to its trimmed stretches. -/
theorem map_trim_splitOnP_trim {P : Char → Bool} (hP : ∀ c, isBlank c = true → P c = false) (s : List Char) :
    ((trim s).splitOnP P).map trim = (s.splitOnP P).map trim := by
  obtain ⟨l, r, hs, hl, hr⟩ := exists_eq_append_trim s
  obtain ⟨gs, g, hLeft, hBoth⟩ := exists_splitOnP_append_blanks hP hr (l ++ trim s)
  have hEnd : trim (g ++ r) = trim g := trim_append_blanks (l := []) (by simp) hr g
  have hTrim : ∀ t, trim (l ++ t) = trim t := fun t => by simpa using trim_append_blanks hl (r := []) (by simp) t
  have hStart : ((l ++ trim s).splitOnP P).map trim = ((trim s).splitOnP P).map trim := by
    rw [splitOnP_blanks_append hP hl]
    cases (trim s).splitOnP P with
    | nil => rfl
    | cons k ks => simp [hTrim]
  conv_rhs => rw [hs, hBoth]
  rw [← hStart, hLeft, List.map_append, List.map_append, List.map_singleton, List.map_singleton, hEnd]

/-- Stretches are squeezed with a character put before the first of them. -/
theorem modifyHead_cons_squeeze (hc : isBlank c = false) (gs : List (List Char)) :
    (gs.map squeeze).modifyHead (c :: ·) = (gs.modifyHead (c :: ·)).map squeeze := by
  cases gs with
  | nil => rfl
  | cons g gs => simp [squeeze_cons hc]

/-- They are squeezed with blanks put before the first of them, unless it begins with a blank. -/
theorem modifyHead_blanks_squeeze (hw : w ≠ []) (hBlank : ∀ c ∈ w, isBlank c = true) {gs : List (List Char)}
    (hHead : ∀ g ∈ gs.head?, ∀ c ∈ g.head?, isBlank c = false) :
    (gs.map squeeze).modifyHead (' ' :: ·) = (gs.modifyHead (w ++ ·)).map squeeze := by
  cases gs with
  | nil => rfl
  | cons g gs => simp [squeeze_blanks hw hBlank (hHead g rfl)]

/-- A text that is cut at characters that are no blanks is cut at the same places when it is squeezed. -/
theorem splitOnP_squeeze {P : Char → Bool} (hP : ∀ c, isBlank c = true → P c = false) (s : List Char) :
    (squeeze s).splitOnP P = (s.splitOnP P).map squeeze := by
  induction s using runs_induction with
  | nil => rfl
  | char c s hc ih =>
    rw [squeeze_cons hc, List.splitOnP_cons_eq_if_modifyHead, List.splitOnP_cons_eq_if_modifyHead, ih]
    by_cases h : P c = true
    · rw [if_pos h, if_pos h]
      rfl
    · rw [if_neg h, if_neg h, modifyHead_cons_squeeze hc]
  | blanks w s hw hBlank hs ih =>
    rw [squeeze_blanks hw hBlank hs, splitOnP_blanks_append hP hBlank, List.splitOnP_cons_eq_if_modifyHead,
      hP ' ' (by decide), if_neg Bool.false_ne_true, ih]
    exact modifyHead_blanks_squeeze hw hBlank fun g hg c hc => hs c (head_head_splitOnP s g hg c hc)

/-! ## Words -/

/-- Words do not reach over a blank. -/
theorem words_append_blank (hc : isBlank c = true) (a b : List Char) :
    words (a ++ c :: b) = words a ++ words b := by
  rw [words, List.splitOnP_append_cons a b hc, List.filter_append]
  rfl

theorem words_cons_blank (hc : isBlank c = true) (b : List Char) : words (c :: b) = words b :=
  words_append_blank hc [] b

theorem words_append_blanks (hw : ∀ c ∈ w, isBlank c = true) (b : List Char) : words (w ++ b) = words b := by
  induction w with
  | nil => rfl
  | cons c w ih =>
    rw [List.cons_append, words_cons_blank (hw c List.mem_cons_self),
      ih fun d hd => hw d (List.mem_cons_of_mem c hd)]

theorem words_of_forall (hNil : u ≠ []) (hu : ∀ c ∈ u, isBlank c = false) : words u = [u] := by
  rw [words, List.splitOnP_eq_singleton hu]
  simp [hNil]

/-- A squeezed text has the same words. -/
theorem words_squeeze (s : List Char) : words (squeeze s) = words s := by
  -- a word may have begun before the text
  suffices hAll : ∀ u, (∀ c ∈ u, isBlank c = false) → words (u ++ squeeze s) = words (u ++ s) from
    hAll [] (by simp)
  induction s using runs_induction with
  | nil => exact fun _ _ => rfl
  | char c s hc ih =>
    intro u hu
    have hBoth : ∀ d ∈ u ++ [c], isBlank d = false := by
      intro d hd
      rcases List.mem_append.1 hd with hd | hd
      · exact hu d hd
      · rwa [List.mem_singleton.1 hd]
    simpa [squeeze_cons hc] using ih (u ++ [c]) hBoth
  | blanks w s hw hBlank hs ih =>
    intro u _
    obtain ⟨d, w, rfl⟩ := List.exists_cons_of_ne_nil hw
    rw [squeeze_blanks hw hBlank hs, words_append_blank (by decide), List.cons_append,
      words_append_blank (hBlank d List.mem_cons_self),
      words_append_blanks fun c hc => hBlank c (List.mem_cons_of_mem d hc)]
    exact congrArg (words u ++ ·) (ih [] (by simp))

theorem collapse_squeeze (s : List Char) : collapse (squeeze s) = collapse s := by
  rw [collapse, collapse, words_squeeze]

theorem unwords_cons {u : List Char} {ws : List (List Char)} (h : ws ≠ []) :
    unwords (u :: ws) = u ++ ' ' :: unwords ws := by
  obtain ⟨v, vs, rfl⟩ := List.exists_cons_of_ne_nil h
  rw [unwords, List.intercalate_cons_cons, List.append_assoc]
  rfl

theorem trimEnd_append_blanks (hw : ∀ c ∈ w, isBlank c = true) (s : List Char) :
    trimEnd (s ++ w) = trimEnd s := by
  rw [trimEnd, trimEnd, List.reverse_append,
    List.dropWhile_append_of_pos fun c hc => hw c (List.mem_reverse.1 hc)]

theorem trimEnd_append_cons (hc : isBlank c = false) (a b : List Char) :
    trimEnd (a ++ c :: b) = a ++ trimEnd (c :: b) := by
  have hNone : ((c :: b).reverse.dropWhile isBlank).isEmpty = false := by
    rw [← Bool.not_eq_true, List.isEmpty_iff, List.dropWhile_eq_nil_iff]
    intro hAll
    rw [hAll c (by simp)] at hc
    exact Bool.noConfusion hc
  rw [trimEnd, trimEnd, List.reverse_append, List.dropWhile_append, hNone, if_neg Bool.false_ne_true,
    List.reverse_append, List.reverse_reverse]

theorem trimEnd_cons (hc : isBlank c = false) (s : List Char) : trimEnd (c :: s) = c :: trimEnd s := by
  rw [trimEnd, trimEnd, List.reverse_cons, List.dropWhile_append]
  by_cases h : (s.reverse.dropWhile isBlank).isEmpty = true
  · rw [if_pos h, List.isEmpty_iff.1 h, List.dropWhile_cons_of_neg (by simp [hc])]
    rfl
  · rw [if_neg h, List.reverse_append]
    rfl

theorem trimEnd_of_forall (hu : ∀ c ∈ u, isBlank c = false) : trimEnd u = u := by
  rcases List.eq_nil_or_concat' u with rfl | ⟨v, d, rfl⟩
  · rfl
  · have hd : isBlank d = false := hu d (by simp)
    simp [trimEnd, hd]

/-- A word and the blanks after it come before the words that follow. -/
theorem words_append_run (hNil : u ≠ []) (hu : ∀ c ∈ u, isBlank c = false) (hw : w ≠ [])
    (hBlank : ∀ c ∈ w, isBlank c = true) (s : List Char) : words (u ++ (w ++ s)) = u :: words s := by
  obtain ⟨d, w, rfl⟩ := List.exists_cons_of_ne_nil hw
  rw [List.cons_append, words_append_blank (hBlank d List.mem_cons_self), words_of_forall hNil hu,
    words_append_blanks fun c hc => hBlank c (List.mem_cons_of_mem d hc)]
  rfl

theorem unwords_words_append_run (hNil : u ≠ []) (hu : ∀ c ∈ u, isBlank c = false) (hw : w ≠ [])
    (hBlank : ∀ c ∈ w, isBlank c = true) (hs : ∀ c ∈ s.head?, isBlank c = false)
    (hRest : s ≠ [] → unwords (words s) = squeeze (trimEnd s)) :
    unwords (words (u ++ (w ++ s))) = squeeze (trimEnd (u ++ (w ++ s))) := by
  rw [words_append_run hNil hu hw hBlank]
  cases s with
  | nil =>
    rw [List.append_nil, trimEnd_append_blanks hBlank, trimEnd_of_forall hu, squeeze_of_forall hu]
    simp [unwords, words]
  | cons c s =>
    have hc : isBlank c = false := hs c rfl
    have hCons := trimEnd_cons hc s
    have hRest := hRest (List.cons_ne_nil c s)
    have hSome : words (c :: s) ≠ [] := by
      intro hNone
      rw [hNone, hCons] at hRest
      have hEmpty : squeeze (c :: trimEnd s) = [] := hRest.symm
      simp [squeeze_eq_nil_iff] at hEmpty
    have hLast : ∀ d ∈ u.getLast?, isBlank d = false := fun d hd => hu d (List.mem_of_getLast? hd)
    rw [unwords_cons hSome, hRest, ← List.append_assoc, trimEnd_append_cons hc, List.append_assoc,
      squeeze_append (.inl hLast), squeeze_of_forall hu, squeeze_blanks hw hBlank (by rw [hCons]; simpa using hc)]

/-- A text that does not begin with a blank, squeezed and trimmed at its end, is its words with one space
between. -/
theorem unwords_words (hNil : s ≠ []) (hHead : ∀ c ∈ s.head?, isBlank c = false) :
    unwords (words s) = squeeze (trimEnd s) := by
  -- a word may have begun before the text
  suffices hAll : ∀ u, (∀ c ∈ u, isBlank c = false) → u ++ s ≠ [] →
      (∀ c ∈ (u ++ s).head?, isBlank c = false) → unwords (words (u ++ s)) = squeeze (trimEnd (u ++ s)) from
    hAll [] (by simp) hNil hHead
  clear hNil hHead
  induction s using runs_induction with
  | nil =>
    intro u hu hNil _
    rw [List.append_nil] at hNil ⊢
    rw [words_of_forall hNil hu, trimEnd_of_forall hu, squeeze_of_forall hu]
    simp [unwords]
  | char c s hc ih =>
    intro u hu _ hHead
    have hBoth : ∀ d ∈ u ++ [c], isBlank d = false := by
      intro d hd
      rcases List.mem_append.1 hd with hd | hd
      · exact hu d hd
      · rwa [List.mem_singleton.1 hd]
    have hText : u ++ c :: s = u ++ [c] ++ s := by simp
    rw [hText] at hHead ⊢
    exact ih (u ++ [c]) hBoth (by simp) hHead
  | blanks w s hw hBlank hs ih =>
    intro u hu _ hHead
    have hNil : u ≠ [] := by
      rintro rfl
      obtain ⟨d, w, rfl⟩ := List.exists_cons_of_ne_nil hw
      have hd := hHead d rfl
      rw [hBlank d List.mem_cons_self] at hd
      exact Bool.noConfusion hd
    exact unwords_words_append_run hNil hu hw hBlank hs fun hRest => ih [] (by simp) hRest hs

theorem words_trimStart (s : List Char) : words (trimStart s) = words s := by
  conv_rhs => rw [← List.takeWhile_append_dropWhile (p := isBlank) (l := s)]
  exact (words_append_blanks (fun c hc => List.all_eq_true.1 List.all_takeWhile c hc) _).symm

/-- A text is collapsed by squeezing what is left of it when it is trimmed. -/
theorem collapse_eq (s : List Char) : collapse s = squeeze (trim s) := by
  rw [collapse, ← words_trimStart, trim]
  by_cases hNil : trimStart s = []
  · rw [hNil]
    rfl
  · refine unwords_words hNil fun c hc => ?_
    have hFirst := List.head?_dropWhile_not isBlank s
    rw [← trimStart, hc] at hFirst
    simpa using hFirst

theorem collapse_trim (s : List Char) : collapse (trim s) = collapse s := by
  rw [collapse_eq, collapse_eq, trim_trim]

/-! ## Strings -/

/-- A string with one space for each run of blanks. -/
def squeezed (s : String) : String := String.ofList (squeeze s.toList)

/-- A string with one space for each run of blanks, trimmed. -/
def collapsed (s : String) : String := String.ofList (collapse s.toList)

theorem squeezed_ofList (s : List Char) : squeezed (String.ofList s) = String.ofList (squeeze s) := by
  rw [squeezed, String.toList_ofList]

theorem collapsed_squeezed (s : String) : collapsed (squeezed s) = collapsed s := by
  rw [collapsed, collapsed, squeezed, String.toList_ofList, collapse_squeeze]

end SqlSurvey.Text
