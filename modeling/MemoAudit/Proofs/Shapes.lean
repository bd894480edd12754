import MemoAudit.Lowering
import Mathlib.Tactic.Common

/-!
# Which nodes have which shape

`ParseTree.shape` decides by the kind of a node, its fields and its operator.  `HasShape` says the
same as a list of cases, one for each way in which a node can get its shape, and `hasShape_shape`
that there are no others; this is where proofs about all nodes split.  `shape_eq` is the way back
for a node that has been recognised as something in particular.

Lowering assembles an expression from the shape, so each kind of expression comes from one kind of
shape.  The second half reads this off for the expressions that the idioms are made of:
`lower_eq_…_iff` says which nodes are lowered to an instance variable, an assignment, a `return` and
so on.
-/

namespace MemoAudit

namespace ParseTree

/-- The ways in which a node gets its shape. -/
inductive HasShape (tree : ParseTree) : Shape ParseTree → Prop
  | program (hkind : tree.kind = "program") : HasShape tree (.program tree.content)
  | method (hkind : tree.isMethod = true) :
      HasShape tree (.method ((tree.field? "name").map token) tree.methodStatements
        (tree.kind == "singleton_method"))
  | ivar (hkind : tree.kind = "instance_variable") : HasShape tree .ivar
  | ivarAssign {left : ParseTree} (hkind : tree.kind = "assignment")
      (hleft : tree.field? "left" = some left) (hivar : left.kind = "instance_variable") :
      HasShape tree (.ivarAssign left.token (tree.field? "right"))
  | orAssign {left : ParseTree} (hkind : tree.kind = "operator_assignment")
      (hoperator : tree.hasOperator "||=" = true) (hleft : tree.field? "left" = some left) :
      HasShape tree (.orAssign left (tree.field? "right"))
  | ifBlock {condition : ParseTree} (hkind : tree.kind = "if" ∨ tree.kind = "elsif")
      (hcondition : tree.field? "condition" = some condition) :
      HasShape tree (.conditional condition ((tree.field? "consequence").map clause)
        ((tree.field? "alternative").map clause))
  | unlessBlock {condition : ParseTree} (hkind : tree.kind = "unless")
      (hcondition : tree.field? "condition" = some condition) :
      HasShape tree (.conditional condition ((tree.field? "alternative").map clause)
        ((tree.field? "consequence").map clause))
  | ifModifier {body condition : ParseTree} (hkind : tree.kind = "if_modifier")
      (hbody : tree.field? "body" = some body)
      (hcondition : tree.field? "condition" = some condition) :
      HasShape tree (.conditional condition (some (.direct body)) none)
  | unlessModifier {body condition : ParseTree} (hkind : tree.kind = "unless_modifier")
      (hbody : tree.field? "body" = some body)
      (hcondition : tree.field? "condition" = some condition) :
      HasShape tree (.conditional condition none (some (.direct body)))
  | definedCheck (hkind : tree.kind = "unary") (hoperator : tree.hasOperator "defined?" = true) :
      HasShape tree (.definedCheck tree.definedOperand)
  | returns (hkind : tree.kind = "return") : HasShape tree (.returns tree.returnValues)
  | other (hmethod : tree.isMethod = false) : HasShape tree (.other tree.content)

theorem isMethod_iff {tree : ParseTree} :
    tree.isMethod = true ↔ tree.kind = "method" ∨ tree.kind = "singleton_method" := by
  simp [isMethod, methodKinds]

theorem isMethod_eq_false {tree : ParseTree} {kind : String} (hkind : tree.kind = kind)
    (h : methodKinds.contains kind = false) : tree.isMethod = false := by
  rw [isMethod, hkind, h]

theorem hasShape_assignment {tree : ParseTree} (hkind : tree.kind = "assignment") :
    tree.HasShape tree.assignment := by
  have hmethod : tree.isMethod = false := isMethod_eq_false hkind rfl
  unfold assignment
  split
  · exact .other hmethod
  · rename_i left hleft
    split
    · exact .ivarAssign hkind hleft ‹_›
    · exact .other hmethod

theorem hasShape_operatorAssignment {tree : ParseTree} (hkind : tree.kind = "operator_assignment") :
    tree.HasShape tree.operatorAssignment := by
  have hmethod : tree.isMethod = false := isMethod_eq_false hkind rfl
  unfold operatorAssignment
  split
  · exact .other hmethod
  · rename_i left hleft
    split
    · exact .orAssign hkind ‹_› hleft
    · exact .other hmethod

theorem hasShape_blockConditional {tree : ParseTree} (hmethod : tree.isMethod = false)
    (hkind : tree.kind = "unless" ∨ tree.kind = "if" ∨ tree.kind = "elsif") :
    tree.HasShape tree.blockConditional := by
  unfold blockConditional
  split
  · exact .other hmethod
  · rename_i condition hcondition
    dsimp only
    split
    · exact .unlessBlock ‹_› hcondition
    · rename_i hunless
      exact .ifBlock (hkind.resolve_left hunless) hcondition

theorem hasShape_modifierConditional {tree : ParseTree} (hmethod : tree.isMethod = false)
    (hkind : tree.kind = "if_modifier" ∨ tree.kind = "unless_modifier") :
    tree.HasShape tree.modifierConditional := by
  unfold modifierConditional
  split
  · rename_i body condition hbody hcondition
    split
    · exact .ifModifier ‹_› hbody hcondition
    · rename_i hif
      exact .unlessModifier (hkind.resolve_left hif) hbody hcondition
  · exact .other hmethod

/-- Every node gets its shape in one of these ways. -/
theorem hasShape_shape (tree : ParseTree) : tree.HasShape tree.shape := by
  unfold shape
  split
  · exact .program ‹_›
  · rename_i hkind
    have h := HasShape.method (isMethod_iff.2 (.inl hkind))
    rwa [hkind] at h
  · rename_i hkind
    have h := HasShape.method (isMethod_iff.2 (.inr hkind))
    rwa [hkind] at h
  · exact .ivar ‹_›
  · exact hasShape_assignment ‹_›
  · exact hasShape_operatorAssignment ‹_›
  · rename_i hkind
    exact hasShape_blockConditional (isMethod_eq_false hkind rfl) (.inr (.inl hkind))
  · rename_i hkind
    exact hasShape_blockConditional (isMethod_eq_false hkind rfl) (.inl hkind)
  · rename_i hkind
    exact hasShape_blockConditional (isMethod_eq_false hkind rfl) (.inr (.inr hkind))
  · rename_i hkind
    exact hasShape_modifierConditional (isMethod_eq_false hkind rfl) (.inl hkind)
  · rename_i hkind
    exact hasShape_modifierConditional (isMethod_eq_false hkind rfl) (.inr hkind)
  · rename_i hkind
    split
    · exact .definedCheck hkind ‹_›
    · exact .other (isMethod_eq_false hkind rfl)
  · exact .returns ‹_›
  · refine .other ?_
    rw [← Bool.not_eq_true, isMethod_iff]
    rintro (hkind | hkind) <;> simp_all

/-- A node that has been recognised as something in particular has that shape. -/
theorem shape_eq {tree : ParseTree} {shape : Shape ParseTree} (h : tree.HasShape shape)
    (hother : ∀ children, shape ≠ .other children) : tree.shape = shape := by
  unfold ParseTree.shape
  cases h with
  | program hkind => simp [hkind]
  | method hkind =>
    rcases isMethod_iff.1 hkind with hkind | hkind <;> rw [hkind] <;> rfl
  | ivar hkind => simp [hkind]
  | ivarAssign hkind hleft hivar =>
    rw [hkind]
    simp [assignment, hleft, hivar]
  | orAssign hkind hoperator hleft =>
    rw [hkind]
    simp [operatorAssignment, hleft, hoperator]
  | ifBlock hkind hcondition =>
    rcases hkind with hkind | hkind <;> rw [hkind] <;> simp [blockConditional, hcondition, hkind]
  | unlessBlock hkind hcondition =>
    rw [hkind]
    simp [blockConditional, hcondition, hkind]
  | ifModifier hkind hbody hcondition =>
    rw [hkind]
    simp [modifierConditional, hbody, hcondition, hkind]
  | unlessModifier hkind hbody hcondition =>
    rw [hkind]
    simp [modifierConditional, hbody, hcondition, hkind]
  | definedCheck hkind hoperator =>
    rw [hkind]
    simp [hoperator]
  | returns hkind => simp [hkind]
  | other => exact absurd rfl (hother _)

end ParseTree

/-! ## What is lowered to what -/

section

variable {source : Bytes} {tree : ParseTree}

theorem lower_eq_of_hasShape {shape : Shape ParseTree} (h : tree.HasShape shape)
    (hother : ∀ children, shape ≠ .other children) :
    lower source tree = assemble source tree.token (shape.map (lower source)) := by
  rw [lower_eq, ParseTree.shape_eq h hother]

/-- An expression comes from a shape that the node has. -/
theorem exists_hasShape {e : Expr} (h : lower source tree = e) :
    ∃ shape, tree.HasShape shape ∧ assemble source tree.token (shape.map (lower source)) = e :=
  ⟨tree.shape, tree.hasShape_shape, by rw [← lower_eq, h]⟩

theorem lower_ne_sequence {statements : List Expr} {span : Span} :
    lower source tree ≠ .sequence statements span := by
  intro h
  obtain ⟨shape, hshape, h⟩ := exists_hasShape h
  cases hshape <;> cases h

theorem lower_eq_ivar_iff {name : String} {span : Span} :
    lower source tree = .ivar name span ↔
      tree.kind = "instance_variable" ∧ name = tree.token.text source ∧ span = tree.token.span := by
  constructor
  · intro h
    obtain ⟨shape, hshape, h⟩ := exists_hasShape h
    cases hshape with
    | ivar hkind =>
      cases h
      exact ⟨hkind, rfl, rfl⟩
    | _ => cases h
  · rintro ⟨hkind, rfl, rfl⟩
    exact lower_eq_of_hasShape (.ivar hkind) (by simp)

theorem lower_eq_method_iff {name : String} {body : Option Expr} {span nameSpan : Span}
    {singleton : Bool} :
    lower source tree = .method name body span nameSpan singleton ↔
      tree.isMethod = true ∧
        name = (tree.field? "name").elim "" (·.token.text source) ∧
        body = Expr.collapse (tree.methodStatements.map (lower source)) ∧
        span = tree.token.span ∧
        nameSpan = (tree.field? "name").elim tree.token.span (·.token.span) ∧
        singleton = (tree.kind == "singleton_method") := by
  constructor
  · intro h
    obtain ⟨shape, hshape, h⟩ := exists_hasShape h
    cases hshape with
    | method hkind =>
      cases h
      refine ⟨hkind, ?_, rfl, rfl, ?_, rfl⟩ <;> cases tree.field? "name" <;> rfl
    | _ => cases h
  · rintro ⟨hkind, rfl, rfl, rfl, rfl, rfl⟩
    rw [lower_eq_of_hasShape (.method hkind) (by simp)]
    cases tree.field? "name" <;> rfl

theorem lower_eq_ivarAssign_iff {name : String} {value : Option Expr} {span nameSpan : Span} :
    lower source tree = .ivarAssign name value span nameSpan ↔
      tree.kind = "assignment" ∧ ∃ left, tree.field? "left" = some left ∧
        left.kind = "instance_variable" ∧ name = left.token.text source ∧
        value = (tree.field? "right").map (lower source) ∧ span = tree.token.span ∧
        nameSpan = left.token.span := by
  constructor
  · intro h
    obtain ⟨shape, hshape, h⟩ := exists_hasShape h
    cases hshape with
    | ivarAssign hkind hleft hivar =>
      cases h
      exact ⟨hkind, _, hleft, hivar, rfl, rfl, rfl, rfl⟩
    | _ => cases h
  · rintro ⟨hkind, left, hleft, hivar, rfl, rfl, rfl, rfl⟩
    exact lower_eq_of_hasShape (.ivarAssign hkind hleft hivar) (by simp)

theorem lower_eq_orAssign_iff {target value : Option Expr} {span : Span} :
    lower source tree = .orAssign target value span ↔
      tree.kind = "operator_assignment" ∧ tree.hasOperator "||=" = true ∧
        ∃ left, tree.field? "left" = some left ∧ target = some (lower source left) ∧
          value = (tree.field? "right").map (lower source) ∧ span = tree.token.span := by
  constructor
  · intro h
    obtain ⟨shape, hshape, h⟩ := exists_hasShape h
    cases hshape with
    | orAssign hkind hoperator hleft =>
      cases h
      exact ⟨hkind, hoperator, _, hleft, rfl, rfl, rfl⟩
    | _ => cases h
  · rintro ⟨hkind, hoperator, left, hleft, rfl, rfl, rfl⟩
    exact lower_eq_of_hasShape (.orAssign hkind hoperator hleft) (by simp)

theorem lower_eq_definedCheck_iff {argument : Option Expr} {span : Span} :
    lower source tree = .definedCheck argument span ↔
      tree.kind = "unary" ∧ tree.hasOperator "defined?" = true ∧
        argument = tree.definedOperand.map (lower source) ∧ span = tree.token.span := by
  constructor
  · intro h
    obtain ⟨shape, hshape, h⟩ := exists_hasShape h
    cases hshape with
    | definedCheck hkind hoperator =>
      cases h
      exact ⟨hkind, hoperator, rfl, rfl⟩
    | _ => cases h
  · rintro ⟨hkind, hoperator, rfl, rfl⟩
    exact lower_eq_of_hasShape (.definedCheck hkind hoperator) (by simp)

theorem lower_eq_returns_iff {value : Option Expr} {span : Span} :
    lower source tree = .returns value span ↔
      tree.kind = "return" ∧ value = returned (tree.returnValues.map (lower source)) ∧
        span = tree.token.span := by
  constructor
  · intro h
    obtain ⟨shape, hshape, h⟩ := exists_hasShape h
    cases hshape with
    | returns hkind =>
      cases h
      exact ⟨hkind, rfl, rfl⟩
    | _ => cases h
  · rintro ⟨hkind, rfl, rfl⟩
    exact lower_eq_of_hasShape (.returns hkind) (by simp)

/-- The branch that a clause is lowered to. -/
def loweredBranch (source : Bytes) (clause : Option (Clause ParseTree)) : Option Expr :=
  (clause.map (·.map (lower source))).bind Clause.body

theorem lower_eq_conditional_iff {condition thenBranch elseBranch : Option Expr} {span : Span} :
    lower source tree = .conditional condition thenBranch elseBranch span ↔
      ∃ test thenClause elseClause,
        tree.HasShape (.conditional test thenClause elseClause) ∧
        condition = some (lower source test) ∧
        thenBranch = loweredBranch source thenClause ∧
        elseBranch = loweredBranch source elseClause ∧ span = tree.token.span := by
  constructor
  · intro h
    obtain ⟨shape, hshape, h⟩ := exists_hasShape h
    cases shape with
    | conditional test thenClause elseClause =>
      cases h
      exact ⟨test, thenClause, elseClause, hshape, rfl, rfl, rfl, rfl⟩
    | _ => cases h
  · rintro ⟨test, thenClause, elseClause, hshape, rfl, rfl, rfl, rfl⟩
    exact lower_eq_of_hasShape hshape (by simp)

end

/-! ## Trees of one line -/

/-- A span on the first line. -/
def inlineSpan (start stop : Int) : Span := ⟨start, stop, ⟨1, start + 1⟩, ⟨1, stop + 1⟩⟩

/-- A node on the first line. -/
def inlineNode (kind : String) (start stop : Int) (field : Option String)
    (children : List ParseTree) (named : Bool := true) : ParseTree :=
  .node { kind, start := ⟨start, 0, start⟩, stop := ⟨stop, 0, stop⟩, named, field } children

end MemoAudit
