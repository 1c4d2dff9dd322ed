import SqlSurvey.TypeScript.Dialect
import SqlSurvey.TypeScript.Node
import SqlSurvey.TypeScript.Lexeme

/-!
# Grammar rules

Rules that read a text into nodes, with ordered choice: an alternative is tried only if the ones before it
fail, and a repetition takes as much as it can. The rules of a grammar refer to each other by
symbols. Comments may stand before every lexeme and become nodes where they stand.
-/

namespace SqlSurvey.TypeScript

/-- A rule over symbols. -/
inductive Rule (σ : Type) where
  /-- Nothing. -/
  | empty
  /-- A lexeme after white space and comments. -/
  | lexeme (kind : Kind) (scan : Scanner)
  /-- A lexeme at the very place. -/
  | glued (kind : Kind) (scan : Scanner)
  /-- One rule after the other. -/
  | seq (first second : Rule σ)
  /-- The first rule, or else the second. -/
  | either (first second : Rule σ)
  /-- A rule as often as it succeeds. -/
  | many (item : Rule σ)
  /-- What a rule reads, as the children of one node. -/
  | node (kind : Kind) (role : Role) (inner : Rule σ)
  /-- The rule of a symbol. -/
  | call (symbol : σ)
  /-- A place where a rule would succeed. -/
  | ahead (inner : Rule σ)
  /-- A place where a rule would fail. -/
  | never (inner : Rule σ)
  /-- A place from which the next lexeme stands on the same line. -/
  | sameLine
  /-- The comments in the rest of a line, if it holds nothing else. -/
  | lineRest
  /-- A rule of one dialect. -/
  | only (dialect : Dialect) (inner : Rule σ)

/-- A place in a text. -/
structure Cursor where
  /-- The text from here on. -/
  rest : List Char
  /-- The bytes before it. -/
  offset : Nat

namespace Cursor

/-- The place some characters further on. -/
def advance (c : Cursor) (n : Nat) : Cursor :=
  ⟨c.rest.drop n, c.offset + Text.byteLength (c.rest.take n)⟩

/-- A node without children for the next characters. -/
def leaf (c : Cursor) (kind : Kind) (n : Nat) : Node :=
  .node kind .none c.offset (c.advance n).offset []

/-- The comments at a place, with the place after them and the white space around them. -/
def skipTrivia (c : Cursor) : List Node × Cursor :=
  match _hRest : c.rest with
  | [] => ([], c)
  | d :: _ =>
    if Lexeme.isSpace d then (c.advance 1).skipTrivia
    else match Lexeme.commentTail c.rest with
      | none => ([], c)
      | some n =>
        let p := (c.advance (n + 1)).skipTrivia
        (c.leaf .comment (n + 1) :: p.1, p.2)
termination_by c.rest.length
decreasing_by all_goals simp only [advance, _hRest, List.length_drop, List.length_cons]; omega

/-- Whether a line ends between the place and the next lexeme. -/
def lineEndsBefore (c next : Cursor) : Bool :=
  (c.rest.take (c.rest.length - next.rest.length)).any Lexeme.isLineEnd

/-- The comments in the rest of a line that holds nothing else, with the place after the last of them. -/
def lineComments (c : Cursor) : Option (List Node × Cursor) :=
  match _hRest : c.rest with
  | [] => some ([], c)
  | d :: _ =>
    if d = '\n' then some ([], c)
    else if Lexeme.isSpace d then ((c.advance 1).lineComments).map fun p => if p.1.isEmpty then (p.1, c) else p
    else match Lexeme.commentTail c.rest with
      | none => none
      | some n => ((c.advance (n + 1)).lineComments).map fun p => (c.leaf .comment (n + 1) :: p.1, p.2)
termination_by c.rest.length
decreasing_by all_goals simp only [advance, _hRest, List.length_drop, List.length_cons]; omega

end Cursor

namespace Rule

variable {σ : Type}

/-- What a rule reads at a place: the nodes, and the place after them. The number bounds the depth of the
reading. -/
def read (grammar : σ → Rule σ) (dialect : Dialect) :
    Nat → Rule σ → Cursor → Option (List Node × Cursor)
  | 0, _, _ => none
  | fuel + 1, rule, c =>
    match rule with
    | empty => some ([], c)
    | lexeme kind scan =>
      let p := c.skipTrivia
      (scan p.2.rest).map fun n => (p.1 ++ [p.2.leaf kind n], p.2.advance n)
    | glued kind scan => (scan c.rest).map fun n => ([c.leaf kind n], c.advance n)
    | seq first second =>
      match read grammar dialect fuel first c with
      | none => none
      | some p => (read grammar dialect fuel second p.2).map fun q => (p.1 ++ q.1, q.2)
    | either first second =>
      match read grammar dialect fuel first c with
      | none => read grammar dialect fuel second c
      | some p => some p
    | many item =>
      match read grammar dialect fuel item c with
      | none => some ([], c)
      | some p =>
        -- an item that takes nothing ends the repetition
        if p.2.rest.length < c.rest.length then
          (read grammar dialect fuel (many item) p.2).map fun q => (p.1 ++ q.1, q.2)
        else some ([], c)
    | node kind role inner =>
      let p := c.skipTrivia
      (read grammar dialect fuel inner p.2).map fun q =>
        (p.1 ++ [.node kind role p.2.offset q.2.offset q.1], q.2)
    | call symbol => read grammar dialect fuel (grammar symbol) c
    | ahead inner => (read grammar dialect fuel inner c).map fun _ => ([], c)
    | never inner =>
      match read grammar dialect fuel inner c with
      | none => some ([], c)
      | some _ => none
    | sameLine => if c.lineEndsBefore c.skipTrivia.2 then none else some ([], c)
    | lineRest => some (c.lineComments.getD ([], c))
    | only d inner => if dialect = d then read grammar dialect fuel inner c else none

/-! ## Building rules -/

/-- Rules one after the other. -/
def inOrder : List (Rule σ) → Rule σ
  | [] => empty
  | [r] => r
  | r :: rs => seq r (inOrder rs)

/-- The first of some rules that succeeds. -/
def firstOf : List (Rule σ) → Rule σ
  | [] => never empty
  | [r] => r
  | r :: rs => either r (firstOf rs)

/-- A rule, or nothing. -/
def maybe (r : Rule σ) : Rule σ := either r empty

/-- A given word. -/
def word (w : String) : Rule σ := lexeme .token (Lexeme.keyword w.toList)

/-- One of some given words. -/
def oneWord (ws : List String) : Rule σ :=
  lexeme .token fun s => ws.findSome? fun w => Lexeme.keyword w.toList s

/-- A given mark. -/
def mark (m : String) : Rule σ := lexeme .token (Lexeme.exactly m.toList)

/-- A given mark without any of some others directly behind it. -/
def markWithout (m others : String) : Rule σ :=
  lexeme .token (Lexeme.exactlyWithout m.toList others.toList)

/-- Items with commas between them and perhaps one more behind, or nothing. -/
def commaList (item : Rule σ) : Rule σ :=
  maybe (inOrder [item, many (inOrder [mark ",", item]), maybe (mark ",")])

end Rule

end SqlSurvey.TypeScript
