import MemoAudit.Expr.Basic
import MemoAudit.Naming

/-!
# Walking an expression

Two equal expressions at different places are different things to the rule, which asks whether a
method *ends with this very* assignment.  Places are told apart by their `Address`: the positions of
children to follow from the root.  An `Occurrence` is an expression at an address, and two
occurrences of one tree are the same exactly if their addresses are.

`Expr.walk` lists every occurrence, each before those below it, together with its *trail*: the
occurrences on the way up to the root, nearest first.
-/

namespace MemoAudit

/-- The positions of children that lead from the root to a place. -/
abbrev Address := List Nat

/-- An expression at a place. -/
structure Occurrence where
  address : Address
  expr : Expr
  deriving Repr, Inhabited

/-- An occurrence and the ones above it, nearest first. -/
structure Visit where
  site : Occurrence
  trail : List Occurrence
  deriving Repr, Inhabited

namespace Occurrence

/-- The occurrences of the direct subexpressions. -/
def children (o : Occurrence) : List Occurrence :=
  o.expr.children.mapIdx fun position child => ⟨o.address ++ [position], child⟩

theorem expr_mem_children {o child : Occurrence} (h : child ∈ o.children) :
    child.expr ∈ o.expr.children := by
  obtain ⟨position, bound, rfl⟩ := List.mem_mapIdx.1 h
  exact List.getElem_mem bound

theorem map_expr_children (o : Occurrence) : o.children.map expr = o.expr.children := by
  apply List.ext_getElem <;> simp [children]

theorem sizeOf_expr_lt_of_mem_children {o child : Occurrence} (h : child ∈ o.children) :
    sizeOf child.expr < sizeOf o.expr :=
  Expr.sizeOf_lt_of_mem_children (expr_mem_children h)

/-- Every occurrence at or below this one, each before those below it, with its trail. -/
def walk (trail : List Occurrence) (o : Occurrence) : List Visit :=
  ⟨o, trail⟩ :: o.children.attach.flatMap fun child => walk (o :: trail) child.1
  termination_by sizeOf o.expr
  decreasing_by exact sizeOf_expr_lt_of_mem_children child.2

theorem walk_eq (trail : List Occurrence) (o : Occurrence) :
    o.walk trail = ⟨o, trail⟩ :: o.children.flatMap (walk (o :: trail)) := by
  rw [walk]
  simp only [List.flatMap_subtype, List.unattach_attach]

end Occurrence

/-- Every occurrence of an expression, with its trail. -/
def Expr.walk (e : Expr) : List Visit := Occurrence.walk [] ⟨[], e⟩

/-! ## The enclosing method -/

/-- A method definition at a place. -/
structure MethodSite where
  address : Address
  name : String
  body : Option Expr
  deriving Repr, Inhabited

/-- Whether the method sets up an object. -/
def MethodSite.isInitializer (method : MethodSite) : Bool := method.name == initializerName

namespace Occurrence

/-- The method that an occurrence defines, if it is a definition. -/
def method? (o : Occurrence) : Option MethodSite :=
  match o.expr with
  | .method name body _ _ _ => some ⟨o.address, name, body⟩
  | _ => none

end Occurrence

/-- The innermost method on a trail. -/
def enclosingMethod? (trail : List Occurrence) : Option MethodSite :=
  trail.findSome? Occurrence.method?

end MemoAudit
