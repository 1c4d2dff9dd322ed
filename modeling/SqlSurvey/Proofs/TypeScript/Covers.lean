import SqlSurvey.Proofs.TypeScript.Outline
import SqlSurvey.Proofs.Text.Location

/-!
# Nodes that cover a text

When nodes cover the text between two places: every character is white space between nodes or belongs to a
lexeme, a comment or a literal, and the nodes say where these begin and end. Strings and templates
are covered by nodes with the quotes and marks in their places.
-/

namespace SqlSurvey.TypeScript

open Text (byteLength)

/-! ## Places -/

namespace Cursor

variable {source : List Char} {c : Cursor}

/-- A place in a source, and the text before it. -/
def Follows (c : Cursor) (source before : List Char) : Prop :=
  before ++ c.rest = source ∧ c.offset = byteLength before

theorem rest_advance (c : Cursor) (n : Nat) : c.rest = c.rest.take n ++ (c.advance n).rest :=
  (List.take_append_drop n c.rest).symm

theorem offset_advance (c : Cursor) (n : Nat) : (c.advance n).offset = c.offset + byteLength (c.rest.take n) := rfl

theorem Follows.advance {before : List Char} (h : c.Follows source before) (n : Nat) :
    (c.advance n).Follows source (before ++ c.rest.take n) := by
  refine ⟨?_, ?_⟩
  · rw [List.append_assoc, ← rest_advance, h.1]
  · rw [offset_advance, h.2, Text.byteLength_append]

theorem Follows.after_eq {before : List Char} (h : c.Follows source before) :
    Text.after source c.offset = c.rest := by
  rw [← h.1, h.2, Text.after_append_byteLength]

/-- The text between a place and another one further on. -/
theorem Follows.slice_eq {before text : List Char} {d : Cursor} (h : c.Follows source before)
    (hd : d.Follows source (before ++ text)) : Text.slice source c.offset d.offset = text := by
  rw [h.2, hd.2, Text.byteLength_append, ← hd.1, List.append_assoc, Text.slice_append]

theorem advance_zero (c : Cursor) : c.advance 0 = c := by
  simp [advance]

theorem advance_advance (c : Cursor) (n m : Nat) : (c.advance n).advance m = c.advance (n + m) := by
  simp [advance, List.take_add, Nat.add_assoc]

theorem advance_length_take (c : Cursor) (n : Nat) : c.advance (c.rest.take n).length = c.advance n := by
  rcases Nat.le_total n c.rest.length with hn | hn
  · rw [List.length_take, Nat.min_eq_left hn]
  · simp [advance, List.take_of_length_le hn, List.drop_of_length_le hn]

end Cursor

/-! ## Strings -/

/-- Whether a text holds a quote only right behind a backslash, where a backslash takes the next character with it. -/
def quoteless (q : Char) : List Char → Bool
  | [] => true
  | '\\' :: _ :: text => quoteless q text
  | c :: text => c != q && quoteless q text

/-! ## Covering -/

/-- Nodes cover the text between two places, in code or between backticks. -/
inductive Covers : Context → Cursor → List Node → Cursor → Prop
  | done {ctx : Context} (c : Cursor) : Covers ctx c [] c
  | append {ctx : Context} {c d e : Cursor} {ns ms : List Node} (first : Covers ctx c ns d)
      (second : Covers ctx d ms e) : Covers ctx c (ns ++ ms) e
  | space {c : Cursor} {x : Char} {r : List Char} (hRest : c.rest = x :: r) (hx : Lexeme.isSpace x = true) :
      Covers .code c [] (c.advance 1)
  | leaf (c : Cursor) (n : Nat) {k : Kind} (role : Role) (hk : k.isPlain = true) :
      Covers .code c [.node k role c.offset (c.advance n).offset []] (c.advance n)
  | comment {c : Cursor} {n : Nat} (h : Lexeme.commentTail c.rest = some n) :
      Covers .code c [c.leaf .comment (n + 1)] (c.advance (n + 1))
  | inner {c d : Cursor} {cs : List Node} {k : Kind} (role : Role) (hk : k.isPlain = true) (hcs : cs ≠ [])
      (h : Covers .code c cs d) : Covers .code c [.node k role c.offset d.offset cs] d
  | string {c : Cursor} {q : Char} {body r : List Char} {k : Kind} {cs : List Node} (role : Role)
      (hk : k.isString = true) (hcs : Node.literalsAmong cs = []) (hq : Literal.isStringQuote q = true)
      (hBody : quoteless q body = true) (hRest : c.rest = q :: (body ++ q :: r)) :
      Covers .code c [.node k role c.offset (c.advance (body.length + 2)).offset cs]
        (c.advance (body.length + 2))
  | template {c d : Cursor} {ps : List Node} {k : Kind} {r s : List Char} (role : Role) (hk : k.isTemplate = true)
      (hRest : c.rest = '\x60' :: r) (h : Covers .template (c.advance 1) ps d) (hEnd : d.rest = '\x60' :: s) :
      Covers .code c [.node k role c.offset (d.advance 1).offset (c.leaf .token 1 :: (ps ++ [d.leaf .token 1]))]
        (d.advance 1)
  | chars {c : Cursor} {n : Nat} (h : Lexeme.templateChars c.rest = some n) :
      Covers .template c [c.leaf .other n] (c.advance n)
  | escape {c : Cursor} {x : Char} {r : List Char} (hRest : c.rest = '\\' :: x :: r) :
      Covers .template c [c.leaf .other 2] (c.advance 2)
  | substitution {c d : Cursor} {cs : List Node} {r s : List Char} (role : Role)
      (hRest : c.rest = '$' :: '\x7b' :: r) (h : Covers .code (c.advance 2) cs d) (hEnd : d.rest = '\x7d' :: s) :
      Covers .template c
        [.node .substitution role c.offset (d.advance 1).offset (c.leaf .token 2 :: (cs ++ [d.leaf .token 1]))]
        (d.advance 1)

namespace Covers

variable {source before : List Char} {ctx : Context} {c d : Cursor} {ns : List Node}

/-- The second place is further on in the text. -/
theorem exists_advance (h : Covers ctx c ns d) : ∃ n, d = c.advance n := by
  induction h with
  | done c => exact ⟨0, c.advance_zero.symm⟩
  | append _ _ ih₁ ih₂ =>
    obtain ⟨n, rfl⟩ := ih₁
    obtain ⟨m, rfl⟩ := ih₂
    exact ⟨n + m, Cursor.advance_advance _ n m⟩
  | template _ _ _ _ _ ih =>
    obtain ⟨n, rfl⟩ := ih
    exact ⟨_, by rw [Cursor.advance_advance, Cursor.advance_advance]⟩
  | substitution _ _ _ _ ih =>
    obtain ⟨n, rfl⟩ := ih
    exact ⟨_, by rw [Cursor.advance_advance, Cursor.advance_advance]⟩
  | inner _ _ _ _ ih => exact ih
  | space | leaf | comment | string | chars | escape => exact ⟨_, rfl⟩

theorem offset_le (h : Covers ctx c ns d) : c.offset ≤ d.offset := by
  obtain ⟨n, rfl⟩ := h.exists_advance
  exact Nat.le_add_right _ _

/-- Between a place of a source and another that nodes cover stands a text. -/
theorem exists_follows (h : Covers ctx c ns d) (hc : c.Follows source before) :
    ∃ text, d.Follows source (before ++ text) := by
  obtain ⟨n, rfl⟩ := h.exists_advance
  exact ⟨_, hc.advance n⟩

/-! ## Bounds -/

theorem offset_le_advance (c : Cursor) (n : Nat) : c.offset ≤ (c.advance n).offset := Nat.le_add_right _ _

/-- What is listed of nodes begins in the text that they cover. -/
theorem start_bounds (h : Covers ctx c ns d) :
    ∀ n ∈ Node.outlineAmong ctx ns, c.offset ≤ n.start ∧ n.start ≤ d.offset := by
  induction h with
  | done | space => simp
  | append h₁ h₂ ih₁ ih₂ =>
    intro n hn
    rw [Node.outlineAmong_append, List.mem_append] at hn
    have hLe₁ := h₁.offset_le
    have hLe₂ := h₂.offset_le
    rcases hn with hn | hn
    · have := ih₁ n hn
      omega
    · have := ih₂ n hn
      omega
  | leaf c n role hk => simp [Node.outline_of_isPlain hk, Node.start, offset_le_advance]
  | comment => simp [Cursor.leaf, Node.outline_comment, Node.start, offset_le_advance]
  | string role hk => simp [Node.outline_of_isString hk, Node.start, offset_le_advance]
  | chars | escape => simp [Cursor.leaf, Node.outline_template]
  | inner role hk hcs h ih =>
    simpa [Node.outline_of_isPlain hk, Node.start, h.offset_le] using ih
  | @template c d ps k r s role hk hRest h hEnd ih =>
    intro n hn
    have hLe := h.offset_le
    have hStart := offset_le_advance c 1
    have hStop := offset_le_advance d 1
    have hParts : n = .node k role c.offset (d.advance 1).offset (c.leaf .token 1 :: (ps ++ [d.leaf .token 1])) ∨
        n ∈ Node.outlineAmong .template ps := by
      simpa [Node.outline_of_isTemplate hk, Cursor.leaf, Node.outline_template] using hn
    rcases hParts with rfl | hn
    · exact ⟨Nat.le_refl _, by show c.offset ≤ _; omega⟩
    · have := ih n hn
      omega
  | @substitution c d cs r s role hRest h hEnd ih =>
    intro n hn
    have hLe := h.offset_le
    have hStart := offset_le_advance c 2
    have hStop := offset_le_advance d 1
    rw [Node.outlineAmong_cons, Node.outline_substitution] at hn
    simp only [Node.outlineAmong_cons, Node.outlineAmong_append, Node.outlineAmong_nil, List.append_nil,
      List.mem_cons, List.mem_append, Cursor.leaf, Node.outline_of_isPlain (show Kind.token.isPlain = true from rfl),
      List.cons_append, List.nil_append, List.not_mem_nil, or_false] at hn
    rcases hn with rfl | rfl | hn | rfl
    · exact ⟨Nat.le_refl _, by show c.offset ≤ _; omega⟩
    · exact ⟨Nat.le_refl _, by show c.offset ≤ _; omega⟩
    · have := ih n hn
      omega
    · exact ⟨by show c.offset ≤ d.offset; omega, hStop⟩

/-- A character at a place takes bytes. -/
theorem offset_lt_advance {c : Cursor} {x : Char} {r : List Char} (hRest : c.rest = x :: r) (n : Nat) :
    c.offset < (c.advance (n + 1)).offset := by
  have := x.utf8Size_pos
  rw [Cursor.offset_advance, hRest, List.take_succ_cons, Text.byteLength_cons]
  omega

/-- A literal in a node between two marks is the node itself or stands between the marks. -/
theorem mem_literals_between {k : Kind} {role : Role} {a b n m : Nat} {c d : Cursor} {ps : List Node} {l : Node}
    (hl : l ∈ Node.literalsAmong [.node k role a b (c.leaf .token n :: (ps ++ [d.leaf .token m]))]) :
    k.isLiteral = true ∧ l = .node k role a b (c.leaf .token n :: (ps ++ [d.leaf .token m])) ∨
      l ∈ Node.literalsAmong ps := by
  have hTokens : ∀ (e : Cursor) (n : Nat), (e.leaf .token n).literals = [] := fun e n => by
    simp [Cursor.leaf, Node.literals, Kind.isLiteral]
  by_cases hLiteral : k.isLiteral = true
  · simpa [Node.literals_of_isLiteral hLiteral, hTokens, hLiteral] using hl
  · right
    simpa [Node.literals_of_not_isLiteral (by simpa using hLiteral), hTokens] using hl

/-- The literals in nodes begin in the text that they cover, and hold text. -/
theorem literal_bounds (h : Covers ctx c ns d) :
    ∀ l ∈ Node.literalsAmong ns, c.offset ≤ l.start ∧ l.start < l.stop := by
  induction h with
  | done | space => simp
  | append h₁ h₂ ih₁ ih₂ =>
    intro l hl
    rw [Node.literalsAmong_append, List.mem_append] at hl
    have hLe := h₁.offset_le
    rcases hl with hl | hl
    · exact ih₁ l hl
    · have := ih₂ l hl
      omega
  | leaf c n role hk => simp [Node.literals_of_not_isLiteral (Node.isLiteral_of_isPlain hk)]
  | comment | chars | escape => simp [Cursor.leaf, Node.literals, Kind.isLiteral]
  | inner role hk hcs h ih => simpa [Node.literals_of_not_isLiteral (Node.isLiteral_of_isPlain hk)] using ih
  | string role hk hcs hq hBody hRest =>
    simp only [Node.literalsAmong_cons, Node.literals_of_isLiteral (Node.isLiteral_of_isString hk), hcs,
      Node.literalsAmong_nil, List.append_nil, List.mem_singleton, forall_eq]
    exact ⟨Nat.le_refl _, offset_lt_advance hRest _⟩
  | @template c d ps k r s role hk hRest h hEnd ih =>
    intro l hl
    have hLe := h.offset_le
    have hStart : c.offset < (c.advance 1).offset := offset_lt_advance hRest 0
    have hStop : d.offset < (d.advance 1).offset := offset_lt_advance hEnd 0
    rcases mem_literals_between hl with ⟨-, rfl⟩ | hl
    · exact ⟨Nat.le_refl _, by show c.offset < (d.advance 1).offset; omega⟩
    · have := ih l hl
      omega
  | @substitution c d cs r s role hRest h hEnd ih =>
    intro l hl
    have hStart := offset_le_advance c 2
    have := ih l ((mem_literals_between hl).resolve_left fun h => Bool.false_ne_true h.1)
    omega

end Covers

end SqlSurvey.TypeScript
