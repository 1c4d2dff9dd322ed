import SqlSurvey.TypeScript.Source
import SqlSurvey.Proofs.Literal.Grammar

/-!
# What a scanner of literals sees of a syntax tree

A scanner that knows only quotes, comments and braces keeps in step with a syntax tree as long as each node
looks to it like what it is. `Node.isClear` says so of one node, given the source; `Node.outline` lists
the nodes that the scanner has to do with.
-/

namespace SqlSurvey.TypeScript

/-! ## Texts -/

/-- Whether no character of a text begins a literal or, with what follows, a comment. -/
def quiet : List Char → List Char → Bool
  | [], _ => true
  | c :: text, rest =>
    !Literal.opensLiteral c && !(c == '/' && (text ++ rest).head?.any fun d => d == '/' || d == '*') &&
      quiet text rest

/-- Whether nothing but white space stands before the next line feed. -/
def lineIsOver (rest : List Char) : Bool := (rest.takeWhile fun c => c != '\n').all Lexeme.isSpace

/-- Whether a text, in which a backslash takes the next character with it, has no line feed and no backslash without
a next character. -/
def unbroken : List Char → Bool
  | [] => true
  | '\\' :: _ :: text => unbroken text
  | c :: text => c != '\\' && c != '\n' && unbroken text

/-- How many braces are open after a text, unless one closes that is not open. -/
def depthAfter : List Char → Nat → Option Nat
  | [], depth => some depth
  | c :: text, depth => if c = '\x7d' ∧ depth = 0 then none else depthAfter text (Literal.braceDepth c depth)

/-! ## Nodes -/

namespace Kind

/-- A string in quotes of either kind. -/
def isString (k : Kind) : Bool := k == string || k == markupString

/-- What stands in backticks. -/
def isTemplate (k : Kind) : Bool := k == template || k == templateType

/-- A node of code. -/
def isPlain (k : Kind) : Bool := !(k.isString || k.isTemplate || k == substitution || k == comment)

end Kind

/-- Where nodes stand. -/
inductive Context where
  | code
  /-- Between backticks. -/
  | template
deriving DecidableEq

/-- Where the children of a node stand. -/
def Kind.context (k : Kind) : Context := if k.isTemplate then .template else .code

namespace Node

mutual

/-- The code of a node: its text without the comments and literals in it. -/
def code (source : List Char) : Node → List Char
  | node k _ a b cs =>
    if !k.isPlain then [] else if cs.isEmpty then Text.slice source a b else codeAmong source cs

/-- The code of the nodes of a list. -/
def codeAmong (source : List Char) : List Node → List Char
  | [] => []
  | c :: cs => c.code source ++ codeAmong source cs

end

/-- The nodes between the first and the last child. -/
def inside (n : Node) : List Node := n.children.tail.dropLast

mutual

/-- The nodes at or below a node, without the parts of strings and the text of templates. -/
def outline (ctx : Context) : Node → List Node
  | node k r a b cs =>
    if ctx = .template ∧ k ≠ .substitution then []
    else node k r a b cs :: if k.isString then [] else outlineAmong k.context cs

/-- The nodes at or below the nodes of a list, without the parts of strings and the text of templates. -/
def outlineAmong (ctx : Context) : List Node → List Node
  | [] => []
  | c :: cs => c.outline ctx ++ outlineAmong ctx cs

end

/-- Whether a scanner that knows only quotes, comments and braces takes a node for what it is: a line comment ends with
its line, a string where it is first closed, an empty string is not taken for the beginning of three quotes, a
substitution ends with the brace that closes it, and code begins neither a literal nor a comment. -/
def isClear (source : List Char) (n : Node) : Bool :=
  let text := Text.slice source n.start n.stop
  let rest := Text.after source n.stop
  match n.kind with
  | .comment => !(['/', '/'].isPrefixOf text) || lineIsOver rest
  | .string | .markupString => unbroken (n.innerText source) && (n.stop != n.start + 2 || rest.head? != text.head?)
  | .template | .templateType => true
  | .substitution => depthAfter (codeAmong source n.inside) 0 == some 0
  | _ => !n.children.isEmpty || quiet text rest

/-! ## Lists of nodes -/

@[simp] theorem codeAmong_nil (source : List Char) : codeAmong source [] = [] := by
  rw [codeAmong]

@[simp] theorem codeAmong_cons (source : List Char) (n : Node) (ns : List Node) :
    codeAmong source (n :: ns) = n.code source ++ codeAmong source ns := by
  rw [codeAmong]

@[simp] theorem codeAmong_append (source : List Char) (ns ms : List Node) :
    codeAmong source (ns ++ ms) = codeAmong source ns ++ codeAmong source ms := by
  induction ns with
  | nil => simp
  | cons n ns ih => simp [ih]

@[simp] theorem outlineAmong_nil (ctx : Context) : outlineAmong ctx [] = [] := by
  rw [outlineAmong]

@[simp] theorem outlineAmong_cons (ctx : Context) (n : Node) (ns : List Node) :
    outlineAmong ctx (n :: ns) = n.outline ctx ++ outlineAmong ctx ns := by
  rw [outlineAmong]

@[simp] theorem outlineAmong_append (ctx : Context) (ns ms : List Node) :
    outlineAmong ctx (ns ++ ms) = outlineAmong ctx ns ++ outlineAmong ctx ms := by
  induction ns with
  | nil => simp
  | cons n ns ih => simp [ih]

theorem mem_outlineAmong_append_left {ctx : Context} {n : Node} {ns : List Node} (hn : n ∈ outlineAmong ctx ns)
    (ms : List Node) : n ∈ outlineAmong ctx (ns ++ ms) := by
  rw [outlineAmong_append]
  exact List.mem_append_left _ hn

theorem mem_outlineAmong_append_right {ctx : Context} {n : Node} {ms : List Node} (hn : n ∈ outlineAmong ctx ms)
    (ns : List Node) : n ∈ outlineAmong ctx (ns ++ ms) := by
  rw [outlineAmong_append]
  exact List.mem_append_right _ hn

@[simp] theorem literalsAmong_nil : literalsAmong [] = [] := by
  rw [literalsAmong]

@[simp] theorem literalsAmong_cons (n : Node) (ns : List Node) :
    literalsAmong (n :: ns) = n.literals ++ literalsAmong ns := by
  rw [literalsAmong]

@[simp] theorem literalsAmong_append (ns ms : List Node) :
    literalsAmong (ns ++ ms) = literalsAmong ns ++ literalsAmong ms := by
  induction ns with
  | nil => simp
  | cons n ns ih => simp [ih]

/-! ## Nodes of each kind -/

variable {source : List Char} {k : Kind} {role : Role} {a b : Nat} {cs : List Node}

theorem isPlain_of_isString (hk : k.isString = true) : k.isPlain = false := by
  simp [Kind.isPlain, hk]

theorem isPlain_of_isTemplate (hk : k.isTemplate = true) : k.isPlain = false := by
  simp [Kind.isPlain, hk]

theorem kind_ne_of_isPlain (hk : k.isPlain = true) : k.isString = false ∧ k.isTemplate = false := by
  cases k <;> first | exact ⟨rfl, rfl⟩ | exact absurd hk (by decide)

theorem outline_of_isPlain (hk : k.isPlain = true) :
    (node k role a b cs).outline .code = node k role a b cs :: outlineAmong .code cs := by
  obtain ⟨hString, hTemplate⟩ := kind_ne_of_isPlain hk
  simp [outline, hString, Kind.context, hTemplate]

theorem outline_of_isString (hk : k.isString = true) :
    (node k role a b cs).outline .code = [node k role a b cs] := by
  simp [outline, hk]

theorem outline_of_isTemplate (hk : k.isTemplate = true) :
    (node k role a b cs).outline .code = node k role a b cs :: outlineAmong .template cs := by
  have hString : k.isString = false := by cases k <;> first | rfl | exact absurd hk (by decide)
  simp [outline, hString, Kind.context, hk]

theorem outline_comment :
    (node .comment role a b []).outline .code = [node .comment role a b []] := by
  simp [outline, Kind.isString]

theorem outline_substitution :
    (node .substitution role a b cs).outline .template = node .substitution role a b cs :: outlineAmong .code cs := by
  simp [outline, Kind.isString, Kind.context, Kind.isTemplate]

theorem mem_outlineAmong_template (role : Role) (a b : Nat) (cs : List Node) :
    node .substitution role a b cs ∈ outlineAmong .template [node .substitution role a b cs] := by
  simp [outline]

theorem mem_outlineAmong_code (n : Node) : n ∈ outlineAmong .code [n] := by
  cases n
  simp [outline]

/-- What is listed of the children of a node of code is listed of the node. -/
theorem mem_outline_inner (hk : k.isPlain = true) {n : Node} (hn : n ∈ outlineAmong .code cs) :
    n ∈ outlineAmong .code [node k role a b cs] := by
  simp [outline_of_isPlain hk, hn]

/-- What is listed of the text of a template is listed of the template. -/
theorem mem_outline_of_isTemplate (hk : k.isTemplate = true) (first last : Node) {n : Node}
    (hn : n ∈ outlineAmong .template cs) :
    n ∈ outlineAmong .code [node k role a b (first :: (cs ++ [last]))] := by
  simp [outline_of_isTemplate hk, hn]

/-- What is listed of the code of a substitution is listed of the substitution. -/
theorem mem_outline_substitution (first last : Node) {n : Node} (hn : n ∈ outlineAmong .code cs) :
    n ∈ outlineAmong .template [node .substitution role a b (first :: (cs ++ [last]))] := by
  simp [outline_substitution, hn]

/-- The text of a template is not listed. -/
theorem outline_template (hk : k ≠ .substitution) : (node k role a b cs).outline .template = [] := by
  rw [outline, if_pos ⟨rfl, hk⟩]

theorem literals_of_isLiteral (hk : k.isLiteral = true) :
    (node k role a b cs).literals = node k role a b cs :: literalsAmong cs := by
  rw [literals, if_pos hk]

theorem literals_of_not_isLiteral (hk : k.isLiteral = false) : (node k role a b cs).literals = literalsAmong cs := by
  rw [literals, hk, if_neg Bool.false_ne_true]

theorem isLiteral_of_isPlain (hk : k.isPlain = true) : k.isLiteral = false := by
  cases k <;> first | rfl | exact absurd hk (by decide)

theorem isLiteral_of_isString (hk : k.isString = true) : k.isLiteral = true := by
  cases k <;> first | rfl | exact absurd hk (by decide)

theorem code_leaf (hk : k.isPlain = true) : (node k role a b []).code source = Text.slice source a b := by
  simp [code, hk]

theorem code_inner (hk : k.isPlain = true) (hcs : cs ≠ []) :
    (node k role a b cs).code source = codeAmong source cs := by
  simp [code, hk, hcs]

theorem code_of_not_isPlain (hk : k.isPlain = false) : (node k role a b cs).code source = [] := by
  simp [code, hk]

/-! ## Clear nodes of each kind -/

theorem isClear_leaf (hk : k.isPlain = true) :
    (node k role a b []).isClear source = quiet (Text.slice source a b) (Text.after source b) := by
  cases k <;> first | rfl | exact absurd hk (by decide)

theorem isClear_comment (cs : List Node) :
    (node .comment role a b cs).isClear source =
      (!(['/', '/'].isPrefixOf (Text.slice source a b)) || lineIsOver (Text.after source b)) := rfl

theorem isClear_string (hk : k.isString = true) :
    (node k role a b cs).isClear source = (unbroken (Text.slice source (a + 1) (b - 1)) &&
      (b != a + 2 || (Text.after source b).head? != (Text.slice source a b).head?)) := by
  cases k <;> first | rfl | exact absurd hk (by decide)

theorem isClear_substitution (first last : Node) :
    (node .substitution role a b (first :: (cs ++ [last]))).isClear source =
      (depthAfter (codeAmong source cs) 0 == some 0) := by
  have hInside : (node .substitution role a b (first :: (cs ++ [last]))).inside = cs := by
    simp [inside, children]
  show (depthAfter (codeAmong source (inside _)) 0 == some 0) = _
  rw [hInside]

end Node

end SqlSurvey.TypeScript
