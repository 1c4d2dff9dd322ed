import SqlSurvey.Proofs.Sql.Plain
import SqlSurvey.Proofs.Text.Bytes

/-!
# Pieces of bytes

Every character that opens or closes a piece is in ASCII, so that the bytes of a text fall into the same pieces as
the text itself. Only a plain character of more than one byte becomes several pieces, none of which means anything.
-/

namespace SqlSurvey.Sql

open Text (bytes ofBytes filler byteLength)

variable {p : Piece} {ps qs : List Piece} {t : List Char}

/-- The pieces that the bytes of a piece fall into. -/
def Piece.onBytes : Piece → List Piece
  | plain c => (ofBytes (String.utf8EncodeChar c)).map plain
  | quoted t => [quoted (ofBytes (bytes t))]
  | comment t => [comment (ofBytes (bytes t))]

theorem Piece.onBytes_plain_of_ascii {c : Char} (hc : c.toNat < 128) : (plain c).onBytes = [plain c] := by
  rw [onBytes, Text.ofBytes_utf8EncodeChar, if_pos hc]
  rfl

theorem Piece.onBytes_plain_of_not_ascii {c : Char} (hc : ¬ c.toNat < 128) :
    (plain c).onBytes = List.replicate c.utf8Size (plain filler) := by
  rw [onBytes, Text.ofBytes_utf8EncodeChar, if_neg hc, List.map_replicate]

/-- The pieces of the bytes make up the bytes. -/
theorem Piece.textOf_onBytes (p : Piece) : textOf p.onBytes = ofBytes (bytes p.text) := by
  cases p with
  | plain c =>
    rw [onBytes, textOf_map_plain, text, Text.bytes_cons, Text.bytes_nil, List.append_nil]
  | quoted t => exact List.append_nil _
  | comment t => exact List.append_nil _

theorem textOf_flatMap_onBytes (ps : List Piece) :
    textOf (ps.flatMap Piece.onBytes) = ofBytes (bytes (textOf ps)) := by
  induction ps with
  | nil => rfl
  | cons p ps ih =>
    rw [List.flatMap_cons, textOf_append, ih, Piece.textOf_onBytes, textOf_cons, Text.bytes_append,
      Text.ofBytes_append]

/-! ## Reading the bytes -/

/-- A stand-in means nothing, whatever follows it. -/
theorem Lexed.replicate_filler (h : Lexed isSingleQuote qs) (n : Nat) :
    Lexed isSingleQuote (List.replicate n (.plain filler) ++ qs) := by
  induction n with
  | zero => exact h
  | succ n ih => exact ⟨.plain rfl rfl rfl, ih⟩

/-- The bytes of a text begin with an ASCII character just if the text does. -/
theorem head?_ofBytes_bytes_iff {d : Char} (hd : d.toNat < 127) :
    (ofBytes (bytes t)).head? = some d ↔ t.head? = some d := by
  have hPrefix : ∀ l : List Char, l.head? = some d ↔ [d] <+: l :=
    fun l => List.head?_eq_some_iff.trans (exists_congr fun _ => eq_comm)
  rw [hPrefix, hPrefix]
  apply Text.prefix_ofBytes_bytes_iff
  simpa using hd

/-- A character opens a comment before the bytes of a text just if it does before the text. -/
theorem opens_ofBytes_bytes (c : Char) (t : List Char) :
    Piece.lineCommentOpens c (ofBytes (bytes t)) = Piece.lineCommentOpens c t ∧
      Piece.blockCommentOpens c (ofBytes (bytes t)) = Piece.blockCommentOpens c t := by
  have hHead : ∀ d : Char, d.toNat < 127 → ((ofBytes (bytes t)).head? == some d) = (t.head? == some d) := by
    intro d hd
    rw [Bool.eq_iff_iff, beq_iff_eq, beq_iff_eq]
    exact head?_ofBytes_bytes_iff hd
  unfold Piece.lineCommentOpens Piece.blockCommentOpens
  rw [hHead '-' (by decide), hHead '*' (by decide)]
  exact ⟨rfl, rfl⟩

/-- The bytes of a piece are read as its own pieces before the bytes of what follows. -/
theorem Piece.Before.lexed_onBytes (h : p.Before isSingleQuote t) (k : Lexed isSingleQuote qs)
    (hText : textOf qs = ofBytes (bytes t)) : Lexed isSingleQuote (p.onBytes ++ qs) := by
  have hOne : ∀ q : Piece, q.Before isSingleQuote (ofBytes (bytes t)) → Lexed isSingleQuote ([q] ++ qs) := by
    intro q hq
    refine ⟨?_, k⟩
    show q.Before isSingleQuote (textOf qs)
    rw [hText]
    exact hq
  cases h with
  | @plain c t hQuote hLine hBlock =>
    by_cases hc : c.toNat < 128
    · rw [onBytes_plain_of_ascii hc]
      apply hOne
      obtain ⟨hLineBytes, hBlockBytes⟩ := opens_ofBytes_bytes c t
      exact .plain hQuote (hLineBytes.trans hLine) (hBlockBytes.trans hBlock)
    · rw [onBytes_plain_of_not_ascii hc]
      exact k.replicate_filler _
  | @quoted q inner t hQuote hInner =>
    apply hOne
    obtain rfl : q = '\'' := by simpa [isSingleQuote] using hQuote
    rw [Text.ofBytes_bytes_cons_of_ascii (by decide), Text.bytes_append, Text.ofBytes_append]
    exact .quoted hQuote fun hm => hInner ((Text.mem_ofBytes_bytes_iff (by decide)).1 hm)
  | @openQuoted q inner hQuote hInner =>
    apply hOne
    obtain rfl : q = '\'' := by simpa [isSingleQuote] using hQuote
    rw [Text.ofBytes_bytes_cons_of_ascii (by decide)]
    exact .openQuoted hQuote fun hm => hInner ((Text.mem_ofBytes_bytes_iff (by decide)).1 hm)
  | @line inner t hQuote hInner hNext =>
    apply hOne
    rw [Text.ofBytes_bytes_cons_of_ascii (by decide), Text.ofBytes_bytes_cons_of_ascii (by decide)]
    refine .line hQuote (fun hm => hInner ((Text.mem_ofBytes_bytes_iff (by decide)).1 hm)) ?_
    -- the line feed at which the comment stops is a byte of its own
    cases t with
    | nil => exact hNext
    | cons d t =>
      obtain rfl := hNext d rfl
      rw [Text.ofBytes_bytes_cons_of_ascii (by decide)]
      exact hNext
  | @block inner t hQuote hInner =>
    apply hOne
    rw [Text.ofBytes_bytes_cons_of_ascii (by decide), Text.ofBytes_bytes_cons_of_ascii (by decide),
      Text.bytes_append, Text.ofBytes_append]
    refine .block hQuote fun hi => hInner ?_
    apply (Text.infix_ofBytes_bytes_iff (by simp) (by decide)).1
    rw [Text.bytes_append, Text.ofBytes_append]
    exact hi
  | @openBlock inner hQuote hInner =>
    apply hOne
    rw [Text.ofBytes_bytes_cons_of_ascii (by decide), Text.ofBytes_bytes_cons_of_ascii (by decide)]
    exact .openBlock hQuote fun hi => hInner ((Text.infix_ofBytes_bytes_iff (by simp) (by decide)).1 hi)

theorem Lexed.flatMap_onBytes (h : Lexed isSingleQuote ps) :
    Lexed isSingleQuote (ps.flatMap Piece.onBytes) := by
  induction ps with
  | nil => trivial
  | cons p ps ih => exact h.1.lexed_onBytes (ih h.2) (textOf_flatMap_onBytes ps)

/-- The bytes of a text fall into the pieces of the text. -/
theorem pieces_ofBytes_bytes (s : List Char) :
    pieces isSingleQuote (ofBytes (bytes s)) = (pieces isSingleQuote s).flatMap Piece.onBytes := by
  have hRead := (lexed_pieces isSingleQuote s).flatMap_onBytes.pieces_textOf
  rw [textOf_flatMap_onBytes, textOf_pieces] at hRead
  exact hRead

end SqlSurvey.Sql
