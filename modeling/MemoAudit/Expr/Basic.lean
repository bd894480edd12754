import MemoAudit.Span

/-!
# Expressions

The part of Ruby that the rule looks at.  Ten forms are told apart; whatever is not one of the first
nine is kept as `other`, so that methods below it are still reached.

Expressions are trees, and nearly everything here is done along `Expr.children`, the list of direct
subexpressions.  `Expr.childInduction` is induction along that list, and
`Expr.sizeOf_lt_of_mem_children` is the measure by which functions recurse along it.

A method's body is absent, a single expression, or a `sequence`; `Expr.statementsOf` reads all three
as a list of statements.
-/

namespace MemoAudit

inductive Expr where
  | program (statements : List Expr) (span : Span)
  /-- `def name … end`, or `def self.name … end` for a singleton. -/
  | method (name : String) (body : Option Expr) (span nameSpan : Span) (singleton : Bool)
  /-- A read of `@name`; the name keeps its sigil. -/
  | ivar (name : String) (span : Span)
  /-- `@name = value`; the name's own span is that of the variable. -/
  | ivarAssign (name : String) (value : Option Expr) (span nameSpan : Span)
  /-- `target ||= value`. -/
  | orAssign (target value : Option Expr) (span : Span)
  /-- Every kind of `if` and `unless`, with the branches in the order of an `if`. -/
  | conditional (condition thenBranch elseBranch : Option Expr) (span : Span)
  /-- `defined?(argument)`. -/
  | definedCheck (argument : Option Expr) (span : Span)
  /-- `return value`. -/
  | returns (value : Option Expr) (span : Span)
  /-- Statements in a row. -/
  | sequence (statements : List Expr) (span : Span)
  /-- Any other construct, named by its kind in the grammar. -/
  | other (kind : String) (children : List Expr) (span : Span)
  deriving Repr, Inhabited

namespace Expr

/-- Where an expression stands in the source. -/
def span : Expr → Span
  | .program _ span | .method _ _ span _ _ | .ivar _ span | .ivarAssign _ _ span _
  | .orAssign _ _ span | .conditional _ _ _ span | .definedCheck _ span | .returns _ span
  | .sequence _ span | .other _ _ span => span

/-- The direct subexpressions, in the order of the source but for those of a conditional: there the
condition comes first, also if it was written last, and the branches in the order of an `if`. -/
def children : Expr → List Expr
  | .program statements _ => statements
  | .method _ body _ _ _ => body.toList
  | .ivar _ _ => []
  | .ivarAssign _ value _ _ => value.toList
  | .orAssign target value _ => target.toList ++ value.toList
  | .conditional condition thenBranch elseBranch _ =>
    condition.toList ++ thenBranch.toList ++ elseBranch.toList
  | .definedCheck argument _ => argument.toList
  | .returns value _ => value.toList
  | .sequence statements _ => statements
  | .other _ children _ => children

theorem sizeOf_lt_of_mem_toList {e : Expr} {o : Option Expr} (h : e ∈ o.toList) :
    sizeOf e < sizeOf o := by
  cases o with
  | none => simp at h
  | some x =>
    obtain rfl : e = x := by simpa using h
    simp

theorem sizeOf_lt_of_mem_children {e child : Expr} (h : child ∈ e.children) :
    sizeOf child < sizeOf e := by
  cases e with
  | program statements _ | sequence statements _ =>
    have : sizeOf child < sizeOf statements := List.sizeOf_lt_of_mem h
    simp only [program.sizeOf_spec, sequence.sizeOf_spec]
    omega
  | other _ children _ =>
    have : sizeOf child < sizeOf children := List.sizeOf_lt_of_mem h
    simp only [other.sizeOf_spec]
    omega
  | ivar _ _ => simp [children] at h
  | method _ body _ _ _ =>
    have := sizeOf_lt_of_mem_toList (o := body) h
    simp only [method.sizeOf_spec]
    omega
  | ivarAssign _ value _ _ =>
    have := sizeOf_lt_of_mem_toList (o := value) h
    simp only [ivarAssign.sizeOf_spec]
    omega
  | definedCheck argument _ =>
    have := sizeOf_lt_of_mem_toList (o := argument) h
    simp only [definedCheck.sizeOf_spec]
    omega
  | returns value _ =>
    have := sizeOf_lt_of_mem_toList (o := value) h
    simp only [returns.sizeOf_spec]
    omega
  | orAssign target value _ =>
    simp only [orAssign.sizeOf_spec]
    rcases List.mem_append.1 h with h | h <;> have := sizeOf_lt_of_mem_toList h <;> omega
  | conditional condition thenBranch elseBranch _ =>
    simp only [conditional.sizeOf_spec]
    rcases List.mem_append.1 h with h | h
    · rcases List.mem_append.1 h with h | h <;> have := sizeOf_lt_of_mem_toList h <;> omega
    · have := sizeOf_lt_of_mem_toList h
      omega

/-- Induction along the direct subexpressions. -/
theorem childInduction {P : Expr → Prop} (step : ∀ e, (∀ child ∈ e.children, P child) → P e)
    (e : Expr) : P e :=
  step e fun child mem =>
    have : sizeOf child < sizeOf e := sizeOf_lt_of_mem_children mem
    childInduction step child
  termination_by sizeOf e

/-- An expression and everything below it, each before its subexpressions. -/
def descendants (e : Expr) : List Expr :=
  e :: e.children.attach.flatMap fun child => descendants child.1
  termination_by sizeOf e
  decreasing_by exact sizeOf_lt_of_mem_children child.2

theorem descendants_eq (e : Expr) : e.descendants = e :: e.children.flatMap descendants := by
  rw [descendants]
  simp only [List.flatMap_subtype, List.unattach_attach]

/-- The statements of a body. -/
def statementsOf : Option Expr → List Expr
  | none => []
  | some (.sequence statements _) => statements
  | some e => [e]

/-- A list of statements as a body: nothing for none, the statement itself for one, and a sequence
from the first to the last for more. -/
def collapse : List Expr → Option Expr
  | [] => none
  | [e] => some e
  | first :: second :: rest =>
    let last := (second :: rest).getLast (List.cons_ne_nil _ _)
    some (.sequence (first :: second :: rest) (first.span.through last.span))

end Expr

end MemoAudit
