/-!
# Syntax trees

A source file as a tree of nodes, down to its tokens and comments, with the byte range of each. Two things are
read off a tree: the function declarations that do not lie inside another function, and the string
literals below a node.
-/

namespace SqlSurvey.TypeScript

/-- What a node is, as far as it matters. -/
inductive Kind where
  /-- A named function as a statement. -/
  | functionDeclaration
  /-- A named function as a statement, without a body. -/
  | functionSignature
  | functionExpression
  | arrowFunction
  | method
  | classBody
  | exportStatement
  | parameter
  /-- A string in quotes. -/
  | string
  /-- A string in quotes without escapes, in markup. -/
  | markupString
  /-- A template in backticks. -/
  | template
  /-- A type in backticks. -/
  | templateType
  /-- A substitution in backticks, with the marks around it. -/
  | substitution
  | comment
  /-- A keyword or a punctuation mark. -/
  | token
  /-- Any other node. -/
  | other
deriving DecidableEq, Repr

/-- What a node is to its parent, as far as it matters. -/
inductive Role where
  | name
  | parameters
  | pattern
  | type
  | returnType
  | body
  | none
deriving DecidableEq, Repr

/-- A node of a syntax tree, with the bytes from `start` to `stop`. -/
inductive Node where
  | node (kind : Kind) (role : Role) (start stop : Nat) (children : List Node)
deriving Repr

namespace Kind

/-- A named function as a statement. -/
def isDeclaration (k : Kind) : Bool := k == functionDeclaration || k == functionSignature

/-- A node whose contents belong to a function or class of its own. -/
def isFunctionScope (k : Kind) : Bool :=
  k == arrowFunction || k == functionExpression || k == method || k == classBody

/-- A literal with text in it. -/
def isLiteral (k : Kind) : Bool := k == string || k == markupString || k == template

end Kind

namespace Node

/-- What the node is. -/
def kind : Node → Kind
  | node k _ _ _ _ => k

/-- What the node is to its parent. -/
def role : Node → Role
  | node _ r _ _ _ => r

/-- The byte at which the node begins. -/
def start : Node → Nat
  | node _ _ a _ _ => a

/-- The byte before which the node ends. -/
def stop : Node → Nat
  | node _ _ _ b _ => b

/-- The nodes that the node consists of, in order. -/
def children : Node → List Node
  | node _ _ _ _ cs => cs

/-- The first child of a role. -/
def child? (n : Node) (r : Role) : Option Node := n.children.find? fun c => c.role == r

/-! ## Declarations -/

/-- A function declaration in its place. -/
structure Site where
  node : Node
  /-- Whether the declaration stands directly under an export statement. -/
  isExported : Bool
  /-- The node directly before the declaration, or before its export statement. -/
  previous : Option Node

mutual

/-- The declarations at or below a node that do not lie inside a function or class. `parent` is the kind of the
node above it, `parentPrevious` and `previous` are the nodes directly before that one and this one. -/
def sitesBelow (parent : Kind) (parentPrevious previous : Option Node) : Node → List Site
  | node k r a b cs =>
    if k.isDeclaration then
      if cs.any fun c => c.role == .name then
        [⟨node k r a b cs, parent == .exportStatement,
          if parent == .exportStatement then parentPrevious else previous⟩]
      else []
    else if k.isFunctionScope then []
    else sitesAmong k previous none cs

/-- The declarations at or below the nodes of a list, the first of which follows `previous`. -/
def sitesAmong (parent : Kind) (parentPrevious previous : Option Node) : List Node → List Site
  | [] => []
  | c :: cs =>
    sitesBelow parent parentPrevious previous c ++ sitesAmong parent parentPrevious (some c) cs

end

/-- The function declarations of a tree, in source order. -/
def sites (root : Node) : List Site := sitesBelow .other none none root

/-! ## Literals -/

mutual

/-- The literals at or below a node, a literal before those inside it. -/
def literals : Node → List Node
  | node k r a b cs =>
    if k.isLiteral then node k r a b cs :: literalsAmong cs else literalsAmong cs

/-- The literals at or below the nodes of a list. -/
def literalsAmong : List Node → List Node
  | [] => []
  | c :: cs => c.literals ++ literalsAmong cs

end

end Node

end SqlSurvey.TypeScript
