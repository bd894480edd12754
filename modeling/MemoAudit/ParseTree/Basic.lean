import MemoAudit.Span

/-!
# Parse trees

The concrete trees that a grammar for Ruby yields.  A node carries its kind, the points where it
starts and ends, whether it is *named* (punctuation and keywords are not), and the name of the field
that it fills in its parent, if any.

Comments and the bodies of here-documents may turn up below any node.  They are *extras*: what a
node is made of are its named children that are not extras (`ParseTree.content`).
-/

namespace MemoAudit

/-- A place in a source: the offset in bytes, and the row and column counted from zero. -/
structure Point where
  byte : Int
  row : Int
  column : Int
  deriving DecidableEq, Repr, Inhabited

/-- What a node says about itself. -/
structure Token where
  kind : String
  start : Point
  stop : Point
  named : Bool := true
  field : Option String := none
  deriving DecidableEq, Repr, Inhabited

namespace Token

/-- The span of a node; lines and columns of spans are counted from one. -/
def span (token : Token) : Span :=
  { startByte := token.start.byte
    endByte := token.stop.byte
    first := ⟨token.start.row + 1, token.start.column + 1⟩
    last := ⟨token.stop.row + 1, token.stop.column + 1⟩ }

/-- The source that a node covers. -/
def text (source : Bytes) (token : Token) : String := token.span.text source

/-- The kinds of nodes that may turn up anywhere and mean nothing. -/
def extraKinds : List String := ["comment", "heredoc_body", "uninterpreted"]

def isExtra (token : Token) : Bool := extraKinds.contains token.kind

/-- Whether two nodes have the same kind and the same bytes. -/
def sameAs (a b : Token) : Bool :=
  a.kind == b.kind && a.start.byte == b.start.byte && a.stop.byte == b.stop.byte

end Token

inductive ParseTree where
  | node (token : Token) (children : List ParseTree)
  deriving Repr, Inhabited

namespace ParseTree

def token : ParseTree → Token
  | .node token _ => token

def children : ParseTree → List ParseTree
  | .node _ children => children

def kind (tree : ParseTree) : String := tree.token.kind

theorem sizeOf_lt_of_mem_children {tree child : ParseTree} (h : child ∈ tree.children) :
    sizeOf child < sizeOf tree := by
  obtain ⟨token, children⟩ := tree
  have : sizeOf child < sizeOf children := List.sizeOf_lt_of_mem h
  simp only [node.sizeOf_spec]
  omega

/-- Induction along the children. -/
theorem childInduction {P : ParseTree → Prop}
    (step : ∀ tree, (∀ child ∈ tree.children, P child) → P tree) (tree : ParseTree) : P tree :=
  step tree fun child mem =>
    have : sizeOf child < sizeOf tree := sizeOf_lt_of_mem_children mem
    childInduction step child
  termination_by sizeOf tree

/-- The first child that fills a field. -/
def field? (tree : ParseTree) (name : String) : Option ParseTree :=
  tree.children.find? fun child => child.token.field == some name

/-- Whether a node is part of what its parent is made of. -/
def isContent (tree : ParseTree) : Bool := tree.token.named && !tree.token.isExtra

/-- The named children that are not extras. -/
def content (tree : ParseTree) : List ParseTree := tree.children.filter isContent

/-- A node and everything below it, each before its children. -/
def descendants (tree : ParseTree) : List ParseTree :=
  tree :: tree.children.attach.flatMap fun child => descendants child.1
  termination_by sizeOf tree
  decreasing_by exact sizeOf_lt_of_mem_children child.2

theorem descendants_eq (tree : ParseTree) :
    tree.descendants = tree :: tree.children.flatMap descendants := by
  rw [descendants]
  simp only [List.flatMap_subtype, List.unattach_attach]

/-- The node reached by going down along positions of children. -/
def at? (tree : ParseTree) : List Nat → Option ParseTree
  | [] => some tree
  | position :: rest => tree.children[position]?.bind (at? · rest)

/-! ## Statistics -/

/-- The kinds of method definitions. -/
def methodKinds : List String := ["method", "singleton_method"]

def isMethod (tree : ParseTree) : Bool := methodKinds.contains tree.kind

def nodeCount (tree : ParseTree) : Nat := tree.descendants.length

def methodCount (tree : ParseTree) : Nat := tree.descendants.countP isMethod

end ParseTree

end MemoAudit
