import SqlSurvey.Literal.Scanner
import Mathlib.Data.List.Basic

/-!
# Scanning by recursive descent

A second reading of literals, over the bytes of a source: each template, string, comment and substitution is
scanned by a function of its own, which says at which offset it ends, and the scan of a template calls the scan
of the code in its substitutions. An escape takes two bytes, whatever they are, and may lead past the end.
Whatever the bytes are, every scan ends within them, and the literals that it records are nested.
-/

namespace SqlSurvey.Literal.Descent

/-! ## The scans -/

/-- Where a scan ends, and the literals that it has recorded, in the order in which they ended. -/
structure Scan where
  stop : Nat
  found : List Literal
deriving DecidableEq, Repr

/-- One scan after the other. -/
def Scan.andThen (p q : Scan) : Scan := ⟨q.stop, p.found ++ q.found⟩

def backtick : UInt8 := 0x60
def singleQuote : UInt8 := 0x27
def doubleQuote : UInt8 := 0x22
def backslash : UInt8 := 0x5c
def slash : UInt8 := 0x2f
def star : UInt8 := 0x2a
def dollar : UInt8 := 0x24
def openBrace : UInt8 := 0x7b
def closeBrace : UInt8 := 0x7d
def lineFeed : UInt8 := 0x0a

/-- The two bytes that strings are quoted with. -/
def isQuote (b : UInt8) : Bool := b == singleQuote || b == doubleQuote

/-- The rest of a string in one quote that began at `start`, from the offset `i` on. A line feed abandons it. `len`
is the length of all bytes, and `bytes` are those from `i` on, here and below. -/
def quoted (len : Nat) (q : UInt8) (start i : Nat) (bytes : List UInt8) : Scan :=
  match bytes with
  | [] => ⟨len, []⟩
  | b :: bs =>
    if b = backslash then quoted len q start (i + 2) (bs.drop 1)
    else if b = lineFeed then ⟨i, []⟩
    else if b = q then ⟨i + 1, [⟨start, i + 1, start + 1, i⟩]⟩
    else quoted len q start (i + 1) bs
termination_by bytes.length

/-- The rest of a string in three quotes. -/
def tripled (len : Nat) (q : UInt8) (start i : Nat) (bytes : List UInt8) : Scan :=
  match bytes with
  | [] => ⟨len, []⟩
  | b :: bs =>
    if b = backslash then tripled len q start (i + 2) (bs.drop 1)
    else if [q, q, q] <+: b :: bs then ⟨i + 3, [⟨start, i + 3, start + 3, i⟩]⟩
    else tripled len q start (i + 1) bs
termination_by bytes.length

/-- A line comment, which ends before its line feed. -/
def lineComment (i : Nat) (bytes : List UInt8) : Scan := ⟨i + (bytes.takeWhile fun b => b != lineFeed).length, []⟩

/-- The rest of a block comment. -/
def blockComment (len i : Nat) : List UInt8 → Scan
  | [] => ⟨len, []⟩
  | b :: bs => if [star, slash] <+: b :: bs then ⟨i + 2, []⟩ else blockComment len (i + 1) bs

/-- The string or comment that begins at the offset `i` with the byte `b`, if one does. -/
def lexeme? (len i : Nat) (b : UInt8) (bs : List UInt8) : Option Scan :=
  if isQuote b = true then
    some (if [b, b] <+: bs then tripled len b i (i + 3) (bs.drop 2) else quoted len b i (i + 1) bs)
  else if [slash, slash] <+: b :: bs then some (lineComment i (b :: bs))
  else if [slash, star] <+: b :: bs then some (blockComment len (i + 2) (bs.drop 1))
  else none

/-- How many braces are open after a byte of code. -/
def depthAfter (b : UInt8) (depth : Nat) : Nat :=
  if b = openBrace then depth + 1 else if b = closeBrace then depth - 1 else depth

mutual

/-- Code, from the offset `i` on: outside all substitutions to the end of the bytes, and in a substitution, where
`inside` counts the open braces, through the brace that closes it. -/
def code (len : Nat) (inside : Option Nat) (i : Nat) (bytes : List UInt8) : Scan :=
  match bytes with
  | [] => ⟨len, []⟩
  | b :: bs =>
    if b = backtick then
      let p := template len i (i + 1) bs
      p.andThen (code len inside p.stop (bs.drop (p.stop - (i + 1))))
    else match lexeme? len i b bs with
      | some p => p.andThen (code len inside p.stop (bs.drop (p.stop - (i + 1))))
      | none =>
        if b = closeBrace ∧ inside = some 0 then ⟨i + 1, []⟩
        else code len (inside.map (depthAfter b)) (i + 1) bs
termination_by bytes.length
decreasing_by all_goals (simp only [List.length_drop, List.length_cons]; omega)

/-- The rest of a template that began at `start`. -/
def template (len start i : Nat) (bytes : List UInt8) : Scan :=
  match bytes with
  | [] => ⟨len, []⟩
  | b :: bs =>
    if b = backslash then template len start (i + 2) (bs.drop 1)
    else if b = backtick then ⟨i + 1, [⟨start, i + 1, start + 1, i⟩]⟩
    else if [dollar, openBrace] <+: b :: bs then
      let p := code len (some 0) (i + 2) (bs.drop 1)
      p.andThen (template len start p.stop (bs.drop (p.stop - (i + 1))))
    else template len start (i + 1) bs
termination_by bytes.length
decreasing_by all_goals (simp only [List.length_drop, List.length_cons]; omega)

end

/-! ## What a scan keeps -/

variable {source bytes bs : List UInt8} {b q : UInt8} {i j k start : Nat} {p r : Scan} {inside : Option Nat}

/-- What may stand on either side of the body of a literal. -/
def delimiters : List (List UInt8) :=
  [[backtick], [singleQuote], [doubleQuote], [singleQuote, singleQuote, singleQuote],
    [doubleQuote, doubleQuote, doubleQuote]]

/-- A literal has a body between two equal delimiters of the source. -/
def Marked (source : List UInt8) (l : Literal) : Prop :=
  ∃ d ∈ delimiters, d <+: source.drop l.start ∧ d <+: source.drop l.bodyStop ∧
    l.bodyStart = l.start + d.length ∧ l.bodyStart ≤ l.bodyStop ∧ l.stop = l.bodyStop + d.length

/-- A literal lies before another one begins, or in the body of the other one, which is a template. -/
def Apart (source : List UInt8) (l m : Literal) : Prop :=
  l.stop ≤ m.start ∨ [backtick] <+: source.drop m.start ∧ m.bodyStart ≤ l.start ∧ l.stop ≤ m.bodyStop

/-- A scan from the offset `i` on ends between there and the end of the source, and has recorded literals of this
stretch, nested. Only an escape at the very end leads past the end. -/
structure Sound (source : List UInt8) (i : Nat) (p : Scan) : Prop where
  le_stop : min i source.length ≤ p.stop
  stop_le : p.stop ≤ source.length
  within : ∀ l ∈ p.found, i ≤ l.start ∧ l.stop ≤ p.stop
  marked : ∀ l ∈ p.found, Marked source l
  apart : p.found.Pairwise (Apart source)

theorem length_pos_of_mem_delimiters : ∀ d ∈ delimiters, 0 < d.length := by decide

/-- A literal has its delimiters before its body and behind it. -/
theorem Marked.bounds {l : Literal} (h : Marked source l) :
    l.start < l.bodyStart ∧ l.bodyStart ≤ l.bodyStop ∧ l.bodyStop < l.stop := by
  obtain ⟨d, hd, -, -, hBody, hLe, hStop⟩ := h
  have := length_pos_of_mem_delimiters d hd
  omega

theorem sound_empty (hi : min i source.length ≤ j) (hj : j ≤ source.length) : Sound source i ⟨j, []⟩ where
  le_stop := hi
  stop_le := hj
  within := by simp
  marked := by simp
  apart := .nil

/-- A scan that starts further on. -/
theorem Sound.mono (h : Sound source j p) (hij : i ≤ j) : Sound source i p where
  le_stop := by
    have := h.le_stop
    omega
  stop_le := h.stop_le
  within := fun l hl => ⟨Nat.le_trans hij (h.within l hl).1, (h.within l hl).2⟩
  marked := h.marked
  apart := h.apart

/-- What a scan records and what the next one records lie apart. -/
theorem Sound.andThen (hp : Sound source i p) (hr : Sound source p.stop r) : Sound source i (p.andThen r) where
  le_stop := by
    have := hp.le_stop
    have := hp.stop_le
    have := hr.le_stop
    show _ ≤ r.stop
    omega
  stop_le := hr.stop_le
  within := by
    intro l hl
    have hStop := hp.stop_le
    have hLeft := hp.le_stop
    have hRight := hr.le_stop
    rcases List.mem_append.1 hl with hl | hl
    · have := hp.within l hl
      show _ ∧ _ ≤ r.stop
      omega
    · have := hr.within l hl
      have := (hr.marked l hl).bounds
      have := hr.stop_le
      show _ ∧ _ ≤ r.stop
      omega
  marked := by
    intro l hl
    rcases List.mem_append.1 hl with hl | hl
    · exact hp.marked l hl
    · exact hr.marked l hl
  apart := by
    refine List.pairwise_append.2 ⟨hp.apart, hr.apart, fun l hl m hm => .inl ?_⟩
    have := hp.within l hl
    have := hr.within m hm
    omega

/-! ## Strings and comments -/

theorem lt_length_of_drop (h : source.drop i = b :: bs) : i < source.length := by
  refine Decidable.byContradiction fun hi => ?_
  rw [List.drop_eq_nil_of_le (Nat.le_of_not_lt hi)] at h
  cases h

theorem drop_succ (h : source.drop i = b :: bs) (n : Nat) : source.drop (i + 1 + n) = bs.drop n := by
  rw [Nat.add_assoc, ← List.drop_drop, h, Nat.add_comm, List.drop_succ_cons]

theorem drop_stop (h : source.drop i = b :: bs) (hStop : i + 1 ≤ j) : bs.drop (j - (i + 1)) = source.drop j := by
  rw [← drop_succ h, Nat.add_sub_cancel' hStop]

/-- A single literal, recorded where a scan ends. -/
theorem sound_literal {d : List UInt8} (hd : d ∈ delimiters) (hOpen : d <+: source.drop start)
    (hClose : d <+: source.drop j) (hBody : start + d.length ≤ j) :
    Sound source start ⟨j + d.length, [⟨start, j + d.length, start + d.length, j⟩]⟩ where
  le_stop := by
    show _ ≤ j + d.length
    omega
  stop_le := by
    have hLength := hClose.length_le
    rw [List.length_drop] at hLength
    have := length_pos_of_mem_delimiters d hd
    show j + d.length ≤ _
    omega
  within := by simp
  marked := by
    intro l hl
    rw [List.mem_singleton] at hl
    subst hl
    exact ⟨d, hd, hOpen, hClose, rfl, hBody, rfl⟩
  apart := List.pairwise_singleton ..

theorem quote_mem_delimiters (hq : isQuote q = true) : [q] ∈ delimiters ∧ [q, q, q] ∈ delimiters := by
  rw [isQuote, Bool.or_eq_true, beq_iff_eq, beq_iff_eq] at hq
  rcases hq with rfl | rfl <;> decide

theorem sound_quoted (hq : isQuote q = true) (hOpen : [q] <+: source.drop start) (hStart : start < i)
    (hBytes : source.drop i = bytes) :
    Sound source start (quoted source.length q start i bytes) ∧
      start < (quoted source.length q start i bytes).stop := by
  have hLen : start < source.length := by
    obtain ⟨r, hr⟩ := hOpen
    exact lt_length_of_drop hr.symm
  fun_induction quoted source.length q start i bytes with
  | case1 i => exact ⟨sound_empty (by omega) (Nat.le_refl _), hLen⟩
  | case2 i bs ih => exact ih (by omega) (drop_succ hBytes 1)
  | case3 i bs _ =>
    have := lt_length_of_drop hBytes
    exact ⟨sound_empty (by omega) (by omega), hStart⟩
  | case4 i bs _ _ =>
    have hClose : [q] <+: source.drop i := ⟨bs, hBytes.symm⟩
    exact ⟨sound_literal (quote_mem_delimiters hq).1 hOpen hClose hStart, Nat.lt_succ_of_lt hStart⟩
  | case5 i b bs _ _ _ ih => exact ih (by omega) (drop_succ hBytes 0)

theorem sound_tripled (hq : isQuote q = true) (hOpen : [q, q, q] <+: source.drop start) (hStart : start + 3 ≤ i)
    (hBytes : source.drop i = bytes) :
    Sound source start (tripled source.length q start i bytes) ∧
      start < (tripled source.length q start i bytes).stop := by
  have hLen : start < source.length := by
    obtain ⟨r, hr⟩ := hOpen
    exact lt_length_of_drop hr.symm
  fun_induction tripled source.length q start i bytes with
  | case1 i => exact ⟨sound_empty (by omega) (Nat.le_refl _), hLen⟩
  | case2 i bs ih => exact ih (by omega) (drop_succ hBytes 1)
  | case3 i b bs _ hClose =>
    rw [← hBytes] at hClose
    refine ⟨sound_literal (quote_mem_delimiters hq).2 hOpen hClose hStart, ?_⟩
    show start < i + 3
    omega
  | case4 i b bs _ _ ih => exact ih (by omega) (drop_succ hBytes 0)

theorem sound_lineComment (hBytes : source.drop i = bytes) (hi : i ≤ source.length) :
    Sound source i (lineComment i bytes) := by
  have hLength := (List.takeWhile_prefix (l := bytes) fun b => b != lineFeed).length_le
  have hAll := congrArg List.length hBytes
  rw [List.length_drop] at hAll
  exact sound_empty (by omega) (by omega)

theorem sound_blockComment (hBytes : source.drop i = bytes) :
    Sound source i (blockComment source.length i bytes) := by
  fun_induction blockComment source.length i bytes with
  | case1 i => exact sound_empty (by omega) (Nat.le_refl _)
  | case2 i b bs hClose =>
    rw [← hBytes] at hClose
    have hLength := hClose.length_le
    rw [List.length_drop] at hLength
    have := lt_length_of_drop hBytes
    simp only [List.length_cons, List.length_nil] at hLength
    exact sound_empty (by omega) (by omega)
  | case3 i b bs _ ih => exact (ih (drop_succ hBytes 0)).mono (by omega)

/-- A comment holds no literals. -/
theorem found_blockComment (len i : Nat) (bytes : List UInt8) : (blockComment len i bytes).found = [] := by
  fun_induction blockComment len i bytes with
  | case1 => rfl
  | case2 => rfl
  | case3 i b bs _ ih => exact ih

/-- A string or comment ends behind the byte with which it begins. -/
theorem sound_lexeme (hBytes : source.drop i = b :: bs) (h : lexeme? source.length i b bs = some p) :
    Sound source i p ∧ i < p.stop := by
  have hLen := lt_length_of_drop hBytes
  unfold lexeme? at h
  split at h
  · rename_i hq
    rw [Option.some.injEq] at h
    subst h
    split
    · rename_i hThree
      have hOpen : [b, b, b] <+: source.drop i := by
        rw [hBytes]
        exact List.cons_prefix_cons.2 ⟨rfl, hThree⟩
      exact sound_tripled hq hOpen (Nat.le_refl _) (drop_succ hBytes 2)
    · have hOpen : [b] <+: source.drop i := ⟨bs, hBytes.symm⟩
      exact sound_quoted hq hOpen (Nat.lt_succ_self i) (drop_succ hBytes 0)
  split at h
  · rename_i hSlash
    rw [Option.some.injEq] at h
    subst h
    refine ⟨sound_lineComment hBytes (Nat.le_of_lt hLen), ?_⟩
    have hb : b = slash := (List.cons_prefix_cons.1 hSlash).1.symm
    have hTake : (b :: bs).takeWhile (fun b => b != lineFeed) = b :: bs.takeWhile fun b => b != lineFeed :=
      List.takeWhile_cons_of_pos (by rw [hb]; decide)
    show i < i + ((b :: bs).takeWhile fun b => b != lineFeed).length
    rw [hTake, List.length_cons]
    omega
  split at h
  · rename_i hStar
    rw [Option.some.injEq] at h
    subst h
    have hSound : Sound source (i + 2) _ := sound_blockComment (drop_succ hBytes 1)
    have hTwo : i + 2 ≤ source.length := by
      have hLength := hStar.length_le
      rw [← hBytes, List.length_drop] at hLength
      simp only [List.length_cons, List.length_nil] at hLength
      omega
    have hStop := hSound.le_stop
    exact ⟨hSound.mono (by omega), by omega⟩
  · cases h

/-! ## Code and templates -/

/-- The scan of the rest of a template: the literals in its substitutions, and then the template itself, if its
closing backtick was found. -/
def EndsTemplate (source : List UInt8) (start i : Nat) (p : Scan) : Prop :=
  ∃ stop nested, Sound source i ⟨stop, nested⟩ ∧
    (p = ⟨stop, nested⟩ ∨ p = ⟨stop + 1, nested ++ [⟨start, stop + 1, start + 1, stop⟩]⟩ ∧
      [backtick] <+: source.drop stop)

theorem EndsTemplate.mono (h : EndsTemplate source start j p) (hij : i ≤ j) : EndsTemplate source start i p := by
  obtain ⟨stop, nested, hSound, hp⟩ := h
  exact ⟨stop, nested, hSound.mono hij, hp⟩

theorem EndsTemplate.andThen (hp : Sound source i p) (hr : EndsTemplate source start p.stop r) :
    EndsTemplate source start i (p.andThen r) := by
  obtain ⟨stop, nested, hSound, hr⟩ := hr
  refine ⟨stop, p.found ++ nested, hp.andThen hSound, ?_⟩
  rcases hr with rfl | ⟨rfl, hClose⟩
  · exact .inl rfl
  · exact .inr ⟨by rw [Scan.andThen, List.append_assoc], hClose⟩

/-- The literals in the substitutions of a template lie in its body. -/
theorem EndsTemplate.sound (h : EndsTemplate source start (start + 1) p)
    (hOpen : [backtick] <+: source.drop start) : Sound source start p ∧ start < p.stop := by
  obtain ⟨stop, nested, hSound, hp⟩ := h
  have hLen : start < source.length := by
    obtain ⟨r, hr⟩ := hOpen
    exact lt_length_of_drop hr.symm
  have hStop : start + 1 ≤ stop := by
    have : min (start + 1) source.length ≤ stop := hSound.le_stop
    omega
  rcases hp with rfl | ⟨rfl, hClose⟩
  · exact ⟨hSound.mono (by omega), hStop⟩
  have hSelf := sound_literal (by decide) hOpen hClose hStop
  refine ⟨⟨?_, hSelf.stop_le, ?_, ?_, ?_⟩, Nat.lt_succ_of_le (Nat.le_of_succ_le hStop)⟩
  · exact hSelf.le_stop
  · intro l hl
    rcases List.mem_append.1 hl with hl | hl
    · have hWithin : start + 1 ≤ l.start ∧ l.stop ≤ stop := hSound.within l hl
      show _ ∧ _ ≤ stop + 1
      omega
    · exact hSelf.within l hl
  · intro l hl
    rcases List.mem_append.1 hl with hl | hl
    · exact hSound.marked l hl
    · exact hSelf.marked l hl
  · refine List.pairwise_append.2 ⟨hSound.apart, List.pairwise_singleton .., fun l hl m hm => .inr ?_⟩
    rw [List.mem_singleton] at hm
    subst hm
    have hWithin := hSound.within l hl
    exact ⟨hOpen, hWithin.1, hWithin.2⟩

/-- Outside all substitutions, code is scanned to the end. -/
theorem stop_code_none (len : Nat) : ∀ (i : Nat) (bytes : List UInt8), (code len none i bytes).stop = len
  | i, [] => by rw [code]
  | i, b :: bs => by
    rw [code]
    split
    · exact stop_code_none len _ _
    split
    · exact stop_code_none len _ _
    split
    · rename_i hClose
      cases hClose.2
    · exact stop_code_none len (i + 1) bs
termination_by _ bytes => bytes.length
decreasing_by all_goals (simp only [List.length_drop, List.length_cons]; omega)

mutual

/-- Code is scanned soundly, whatever its bytes are. -/
theorem sound_code : ∀ (inside : Option Nat) (i : Nat) (bytes : List UInt8), source.drop i = bytes →
    Sound source i (code source.length inside i bytes)
  | inside, i, [], _ => by
    rw [code]
    exact sound_empty (by omega) (Nat.le_refl _)
  | inside, i, b :: bs, hBytes => by
    rw [code]
    split
    · -- a template, and then the code behind it
      rename_i hb
      have hOpen : [backtick] <+: source.drop i := ⟨bs, by rw [hBytes, ← hb]; rfl⟩
      obtain ⟨hSound, hStop⟩ := (ends_template i (i + 1) bs (drop_succ hBytes 0)).sound hOpen
      exact hSound.andThen (sound_code inside _ _ (drop_stop hBytes hStop).symm)
    split
    · rename_i p hp
      obtain ⟨hSound, hStop⟩ := sound_lexeme hBytes hp
      exact hSound.andThen (sound_code inside _ _ (drop_stop hBytes hStop).symm)
    split
    · have := lt_length_of_drop hBytes
      exact sound_empty (by omega) (by omega)
    · exact (sound_code _ (i + 1) bs (drop_succ hBytes 0)).mono (by omega)
termination_by _ _ bytes => bytes.length
decreasing_by all_goals (simp only [List.length_drop, List.length_cons]; omega)

/-- The rest of a template is scanned soundly. -/
theorem ends_template : ∀ (start i : Nat) (bytes : List UInt8), source.drop i = bytes →
    EndsTemplate source start i (template source.length start i bytes)
  | start, i, [], _ => by
    rw [template]
    exact ⟨source.length, [], sound_empty (by omega) (Nat.le_refl _), .inl rfl⟩
  | start, i, b :: bs, hBytes => by
    have hLen := lt_length_of_drop hBytes
    rw [template]
    split
    · exact (ends_template start (i + 2) _ (drop_succ hBytes 1)).mono (by omega)
    split
    · rename_i hb
      exact ⟨i, [], sound_empty (by omega) (by omega), .inr ⟨rfl, bs, by rw [hBytes, ← hb]; rfl⟩⟩
    split
    · -- the code of a substitution, and then the template behind it
      rename_i hDollar
      have hSound := sound_code (some 0) (i + 2) _ (drop_succ hBytes 1)
      have hStop : i + 1 ≤ (code source.length (some 0) (i + 2) (bs.drop 1)).stop := by
        have := hSound.le_stop
        omega
      have hRest := ends_template start _ _ (drop_stop hBytes hStop).symm
      exact .andThen (hSound.mono (by omega)) hRest
    · exact (ends_template start (i + 1) bs (drop_succ hBytes 0)).mono (by omega)
termination_by _ _ bytes => bytes.length
decreasing_by all_goals (simp only [List.length_drop, List.length_cons]; omega)

end

end SqlSurvey.Literal.Descent
