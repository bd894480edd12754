import MemoAudit.Expr.Basic
import MemoAudit.ParseTree.Shape

/-!
# From parse trees to expressions

`lower` turns a parse tree into an expression.  It is the fold along shapes: read the shape of a
node, lower its parts, and assemble (`lower_eq`).  All that is particular to a surface form has
happened in `ParseTree.shape`; all that is particular to expressions happens in `assemble`.  The
source is read in `assemble` only, and there only for the names of variables and methods.

`lowerFile` makes sure that the result for a whole file is a program.
-/

namespace MemoAudit

/-- A branch as a body. -/
def Clause.body : Clause Expr → Option Expr
  | .direct e => some e
  | .block statements => Expr.collapse statements

/-- What a `return` gives back: several values make a list. -/
def returned : List Expr → Option Expr
  | [] => none
  | [e] => some e
  | first :: second :: rest =>
    let last := (second :: rest).getLast (List.cons_ne_nil _ _)
    some (.other "argument_list" (first :: second :: rest) (first.span.through last.span))

/-- The expression that a node stands for, given its shape with the parts already lowered. -/
def assemble (source : Bytes) (token : Token) : Shape Expr → Expr
  | .program statements => .program statements token.span
  | .method name statements singleton =>
    .method (name.elim "" (·.text source)) (Expr.collapse statements) token.span
      (name.elim token.span (·.span)) singleton
  | .ivar => .ivar (token.text source) token.span
  | .ivarAssign name value => .ivarAssign (name.text source) value token.span name.span
  | .orAssign target value => .orAssign (some target) value token.span
  | .conditional condition thenClause elseClause =>
    .conditional (some condition) (thenClause.bind Clause.body) (elseClause.bind Clause.body)
      token.span
  | .definedCheck argument => .definedCheck argument token.span
  | .returns values => .returns (returned values) token.span
  | .other children => .other token.kind children token.span

/-- The expression that a parse tree stands for. -/
def lower (source : Bytes) (tree : ParseTree) : Expr :=
  assemble source tree.token <|
    tree.shape.pmap (P := fun part => sizeOf part < sizeOf tree)
      (fun part _ => lower source part)
      (fun _ mem => ParseTree.sizeOf_lt_of_mem_shape mem)
  termination_by sizeOf tree

theorem lower_eq (source : Bytes) (tree : ParseTree) :
    lower source tree = assemble source tree.token (tree.shape.map (lower source)) := by
  rw [lower, Shape.pmap_eq_map]

/-- The node itself fixes where its expression stands. -/
theorem span_assemble (source : Bytes) (token : Token) (shape : Shape Expr) :
    (assemble source token shape).span = token.span := by
  cases shape <;> rfl

theorem span_lower (source : Bytes) (tree : ParseTree) :
    (lower source tree).span = tree.token.span := by
  rw [lower_eq, span_assemble]

/-- Induction along the parts of shapes. -/
theorem ParseTree.shapeInduction {P : ParseTree → Prop}
    (step : ∀ tree, (∀ part ∈ tree.shape.parts, P part) → P tree) (tree : ParseTree) : P tree :=
  step tree fun part mem =>
    have : sizeOf part < sizeOf tree := ParseTree.sizeOf_lt_of_mem_shape mem
    ParseTree.shapeInduction step part
  termination_by sizeOf tree

/-- An expression as a program; one that is not a program becomes its only statement. -/
def Expr.asProgram : Expr → Expr
  | .program statements span => .program statements span
  | e => .program [e] e.span

/-- The program that the tree of a whole file stands for. -/
def lowerFile (source : Bytes) (root : ParseTree) : Expr := (lower source root).asProgram

end MemoAudit
