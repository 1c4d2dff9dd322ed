import SqlSurvey.Proofs.Text.Location
import Mathlib.Data.List.Infix

/-!
# Bytes

The bytes of a text in UTF-8. A byte below 128 is a character of its own and stands for itself; the bytes of every
other character are all from 128 on, so that a reader that looks for ASCII characters only may read bytes in their
place.
-/

namespace SqlSurvey.Text

/-- The bytes of a text in UTF-8. -/
def bytes (s : List Char) : List UInt8 := s.flatMap String.utf8EncodeChar

/-- The character that stands in for every byte of a character that takes more than one. -/
def filler : Char := '\x7f'

/-- The character that a byte is read as. -/
def ofByte (b : UInt8) : Char := if b.toNat < asciiEnd then Char.ofNat b.toNat else filler
where
  /-- Below this value a byte is a character of its own. -/
  asciiEnd : Nat := 128

/-- Bytes, read as characters. -/
def ofBytes (bs : List UInt8) : List Char := bs.map ofByte

@[simp] theorem bytes_nil : bytes [] = [] := rfl

@[simp] theorem bytes_cons (c : Char) (s : List Char) : bytes (c :: s) = String.utf8EncodeChar c ++ bytes s := by
  simp [bytes]

@[simp] theorem bytes_append (s t : List Char) : bytes (s ++ t) = bytes s ++ bytes t := by
  simp [bytes]

@[simp] theorem length_bytes (s : List Char) : (bytes s).length = byteLength s := by
  induction s with
  | nil => rfl
  | cons c s ih => rw [bytes_cons, List.length_append, String.length_utf8EncodeChar, ih, byteLength_cons]

@[simp] theorem ofBytes_nil : ofBytes [] = [] := rfl

@[simp] theorem ofBytes_cons (b : UInt8) (bs : List UInt8) : ofBytes (b :: bs) = ofByte b :: ofBytes bs := rfl

@[simp] theorem ofBytes_append (as bs : List UInt8) : ofBytes (as ++ bs) = ofBytes as ++ ofBytes bs :=
  List.map_append

theorem toNat_ofNat {n : Nat} (h : n < 128) : (Char.ofNat n).toNat = n := by
  have hValid : n.isValidChar := Or.inl (by omega)
  rw [Char.ofNat, dif_pos hValid]
  rfl

/-- A byte is read as a character that takes one byte. -/
theorem toNat_ofByte_lt (b : UInt8) : (ofByte b).toNat < 128 := by
  unfold ofByte ofByte.asciiEnd
  split
  · rename_i h
    rw [toNat_ofNat h]
    exact h
  · decide

theorem utf8Size_of_toNat_lt {c : Char} (h : c.toNat < 128) : c.utf8Size = 1 := by
  rw [Char.utf8Size_eq_one_iff, UInt32.le_iff_toNat_le]
  exact Nat.le_of_lt_succ h

@[simp] theorem utf8Size_ofByte (b : UInt8) : (ofByte b).utf8Size = 1 := utf8Size_of_toNat_lt (toNat_ofByte_lt b)

@[simp] theorem byteLength_ofBytes (bs : List UInt8) : byteLength (ofBytes bs) = bs.length := by
  induction bs with
  | nil => rfl
  | cons b bs ih =>
    rw [ofBytes_cons, byteLength_cons, ih, utf8Size_ofByte, List.length_cons]
    omega

/-- Two bytes are read as the same character only if they are the same, or stand in for others. -/
theorem ofByte_eq_iff {b k : UInt8} (hk : k.toNat < 127) : ofByte b = ofByte k ↔ b = k := by
  refine ⟨fun h => ?_, fun h => h ▸ rfl⟩
  have hNat := congrArg Char.toNat h
  have hOfK : (ofByte k).toNat = k.toNat := by
    unfold ofByte ofByte.asciiEnd
    rw [if_pos (by omega), toNat_ofNat (by omega)]
  rw [hOfK] at hNat
  unfold ofByte ofByte.asciiEnd at hNat
  split at hNat
  · rename_i hb
    rw [toNat_ofNat hb] at hNat
    exact UInt8.toNat_inj.1 hNat
  · rw [show filler.toNat = 127 from rfl] at hNat
    omega

/-! ## The bytes of a character -/

/-- An ASCII character is its own byte. -/
theorem utf8EncodeChar_of_ascii {c : Char} (h : c.toNat < 128) :
    String.utf8EncodeChar c = [UInt8.ofNat c.toNat] := by
  unfold String.utf8EncodeChar
  dsimp only
  rw [if_pos (show c.val.toNat ≤ 127 from Nat.le_of_lt_succ h)]
  rfl

/-- Every other character has bytes from 128 on only, and two of them at least. -/
theorem utf8EncodeChar_of_not_ascii {c : Char} (h : ¬ c.toNat < 128) :
    (∀ b ∈ String.utf8EncodeChar c, 128 ≤ b.toNat) ∧ 2 ≤ c.utf8Size := by
  have hNot : ¬ c.val.toNat ≤ 127 := fun hLe => h (Nat.lt_succ_of_le hLe)
  rw [← String.length_utf8EncodeChar]
  unfold String.utf8EncodeChar
  dsimp only
  rw [if_neg hNot]
  split
  · refine ⟨?_, by simp⟩
    simp only [List.forall_mem_cons, UInt8.toNat_ofNat']
    refine ⟨by omega, by omega, by simp⟩
  split
  · refine ⟨?_, by simp⟩
    simp only [List.forall_mem_cons, UInt8.toNat_ofNat']
    refine ⟨by omega, by omega, by omega, by simp⟩
  · refine ⟨?_, by simp⟩
    simp only [List.forall_mem_cons, UInt8.toNat_ofNat']
    refine ⟨by omega, by omega, by omega, by omega, by simp⟩

/-- The bytes of a character are read as the character, or as nothing but stand-ins. -/
theorem ofBytes_utf8EncodeChar (c : Char) :
    ofBytes (String.utf8EncodeChar c) =
      if c.toNat < 128 then [c] else List.replicate c.utf8Size filler := by
  split
  · rename_i h
    rw [utf8EncodeChar_of_ascii h]
    have hByte : (UInt8.ofNat c.toNat).toNat = c.toNat := by
      rw [UInt8.toNat_ofNat']
      omega
    show [ofByte _] = _
    unfold ofByte ofByte.asciiEnd
    rw [hByte, if_pos h, Char.ofNat_toNat]
  · rename_i h
    rw [List.eq_replicate_iff]
    refine ⟨by simp [ofBytes], fun d hd => ?_⟩
    obtain ⟨b, hb, rfl⟩ := List.mem_map.1 hd
    have := (utf8EncodeChar_of_not_ascii h).1 b hb
    unfold ofByte ofByte.asciiEnd
    rw [if_neg (by omega)]

/-- A text that has only ASCII bytes is those bytes, read as characters. -/
theorem eq_ofBytes_of_bytes {s : List Char} {bs : List UInt8} (h : bytes s = bs)
    (hAscii : ∀ b ∈ bs, b.toNat < 128) : s = ofBytes bs := by
  induction s generalizing bs with
  | nil => rw [← h]; rfl
  | cons c s ih =>
    subst h
    rw [bytes_cons] at hAscii
    rw [List.forall_mem_append] at hAscii
    have hc : c.toNat < 128 := by
      refine Decidable.byContradiction fun hc => ?_
      obtain ⟨b, hb⟩ := List.exists_mem_of_ne_nil _ (String.utf8EncodeChar_ne_nil (c := c))
      have := (utf8EncodeChar_of_not_ascii hc).1 b hb
      have := hAscii.1 b hb
      omega
    rw [bytes_cons, ofBytes_append, ofBytes_utf8EncodeChar, if_pos hc, ← ih rfl hAscii.2]
    rfl

/-! ## Looking for ASCII characters -/

variable {mark s : List Char} {c : Char}

/-- Text that begins with a character of more than one byte begins with a stand-in in its bytes. -/
theorem ofBytes_bytes_cons_of_not_ascii (hc : ¬ c.toNat < 128) (s : List Char) :
    ofBytes (bytes (c :: s)) = List.replicate c.utf8Size filler ++ ofBytes (bytes s) := by
  rw [bytes_cons, ofBytes_append, ofBytes_utf8EncodeChar, if_neg hc]

theorem ofBytes_bytes_cons_of_ascii (hc : c.toNat < 128) (s : List Char) :
    ofBytes (bytes (c :: s)) = c :: ofBytes (bytes s) := by
  rw [bytes_cons, ofBytes_append, ofBytes_utf8EncodeChar, if_pos hc]
  rfl

/-- No mark begins with a stand-in. -/
theorem not_prefix_filler (hNil : mark ≠ []) (hMark : ∀ d ∈ mark, d.toNat < 127) (s : List Char) :
    ¬ mark <+: filler :: s := by
  obtain ⟨d, ds, rfl⟩ := List.exists_cons_of_ne_nil hNil
  intro h
  have hd := hMark d List.mem_cons_self
  rw [(List.cons_prefix_cons.1 h).1] at hd
  exact absurd hd (by decide)

/-- The bytes of a text begin with an ASCII mark just where the text does. -/
theorem prefix_ofBytes_bytes_iff (hMark : ∀ d ∈ mark, d.toNat < 127) :
    mark <+: ofBytes (bytes s) ↔ mark <+: s := by
  induction mark generalizing s with
  | nil => exact iff_of_true List.nil_prefix List.nil_prefix
  | cons d ds ih =>
    have hd := hMark d List.mem_cons_self
    have hds : ∀ e ∈ ds, e.toNat < 127 := fun e he => hMark e (List.mem_cons_of_mem d he)
    cases s with
    | nil => exact Iff.rfl
    | cons c s =>
      by_cases hc : c.toNat < 128
      · rw [ofBytes_bytes_cons_of_ascii hc, List.cons_prefix_cons, List.cons_prefix_cons, ih hds]
      · refine iff_of_false ?_ ?_
        · obtain ⟨n, hn⟩ := Nat.exists_eq_add_of_le' c.utf8Size_pos
          rw [ofBytes_bytes_cons_of_not_ascii hc, hn]
          exact not_prefix_filler (List.cons_ne_nil d ds) hMark _
        · intro h
          rw [← (List.cons_prefix_cons.1 h).1] at hc
          omega

/-- Stand-ins before a text hide no mark. -/
theorem infix_replicate_filler_iff (hNil : mark ≠ []) (hMark : ∀ d ∈ mark, d.toNat < 127) (n : Nat) :
    mark <:+: List.replicate n filler ++ s ↔ mark <:+: s := by
  induction n with
  | zero => exact Iff.rfl
  | succ n ih =>
    rw [List.replicate_succ, List.cons_append, List.infix_cons_iff, ih]
    exact or_iff_right (not_prefix_filler hNil hMark _)

/-- The bytes of a text hold an ASCII mark just if the text does. -/
theorem infix_ofBytes_bytes_iff (hNil : mark ≠ []) (hMark : ∀ d ∈ mark, d.toNat < 127) :
    mark <:+: ofBytes (bytes s) ↔ mark <:+: s := by
  induction s with
  | nil => exact Iff.rfl
  | cons c s ih =>
    have hPrefix := @prefix_ofBytes_bytes_iff mark (c :: s) hMark
    rw [List.infix_cons_iff, ← ih, ← hPrefix]
    by_cases hc : c.toNat < 128
    · rw [ofBytes_bytes_cons_of_ascii hc]
      exact List.infix_cons_iff
    · rw [ofBytes_bytes_cons_of_not_ascii hc, infix_replicate_filler_iff hNil hMark]
      refine (or_iff_right_of_imp fun h => ?_).symm
      exact (infix_replicate_filler_iff hNil hMark _).1 h.isInfix

/-- The bytes of a text hold an ASCII character just if the text does. -/
theorem mem_ofBytes_bytes_iff (hc : c.toNat < 127) : c ∈ ofBytes (bytes s) ↔ c ∈ s := by
  have hMark : ∀ d ∈ [c], d.toNat < 127 := by simpa using hc
  rw [← List.singleton_infix_iff, ← List.singleton_infix_iff,
    infix_ofBytes_bytes_iff (List.cons_ne_nil c []) hMark]

end SqlSurvey.Text
