import MemoAudit.Lowering
import Mathlib.Data.List.Basic

/-!
# Changes of a tree that shapes go along with

Shapes are read from little: from the kind of a node, the children that fill its fields, its
operator, its content, and, for a method without a body, from which children look like its
signature.  A change of trees that commutes with these is a *morphism* (`ParseTree.IsMorphism`).  It
may relabel the tokens, as long as their kinds stay and nodes that look the same go on looking the
same, and it may drop or add children that none of these readings sees.

A morphism commutes with the reading of shapes (`ParseTree.IsMorphism.shape_eq`): the parts of the
changed node are the changed parts, and the tokens that the shape carries are the relabelled ones.
Since lowering is a fold along shapes, whatever is to be said about the lowered tree after a change
then needs an argument about `assemble` only.
-/

namespace MemoAudit

/-! ## Changing a shape -/

namespace Shape

variable {α β γ : Type}

theorem map_map (f : α → β) (g : β → γ) (shape : Shape α) :
    (shape.map f).map g = shape.map (g ∘ f) := by
  have hclause (clause : Option (Clause α)) :
      (clause.map (·.map f)).map (·.map g) = clause.map (·.map (g ∘ f)) := by
    match clause with
    | none => rfl
    | some (.direct part) => rfl
    | some (.block parts) => simp [Clause.map]
  cases shape <;> simp [map, hclause]

theorem map_congr {f g : α → β} {shape : Shape α} (h : ∀ part ∈ shape.parts, f part = g part) :
    shape.map f = shape.map g := by
  have hclause {clause : Option (Clause α)} (h : ∀ part ∈ clauseParts clause, f part = g part) :
      clause.map (·.map f) = clause.map (·.map g) := by
    match clause with
    | none => rfl
    | some (.direct part) => simpa [clauseParts, Clause.parts, Clause.map] using h
    | some (.block parts) => simpa [clauseParts, Clause.parts, Clause.map] using h
  cases shape with
  | ivar => rfl
  | program statements | method _ statements _ | returns statements | other statements =>
    simpa [map, parts] using h
  | ivarAssign _ value | definedCheck value =>
    cases value <;> simp_all [map, parts]
  | orAssign target value =>
    cases value <;> simp_all [map, parts]
  | conditional condition thenClause elseClause =>
    rw [parts, List.forall_mem_cons, List.forall_mem_append] at h
    rw [map, map, h.1, hclause h.2.1, hclause h.2.2]

/-- The shape with its tokens replaced. -/
def relabel (g : Token → Token) : Shape α → Shape α
  | .method name statements singleton => .method (name.map g) statements singleton
  | .ivarAssign name value => .ivarAssign (g name) value
  | shape => shape

theorem relabel_id (shape : Shape α) : shape.relabel id = shape := by
  cases shape with
  | method name statements singleton => cases name <;> rfl
  | _ => rfl

end Shape

namespace ParseTree

/-- The change of trees goes along with everything that shapes are read from. -/
structure IsMorphism (g : Token → Token) (f : ParseTree → ParseTree) : Prop where
  token_eq : ∀ tree, (f tree).token = g tree.token
  kind_eq : ∀ token, (g token).kind = token.kind
  sameAs_eq : ∀ a b, (g a).sameAs (g b) = a.sameAs b
  field?_eq : ∀ tree name, (f tree).field? name = (tree.field? name).map f
  operator?_eq : ∀ tree, (f tree).operator? = tree.operator?.map f
  content_eq : ∀ tree, (f tree).content = tree.content.map f

namespace IsMorphism

variable {g : Token → Token} {f : ParseTree → ParseTree}

/-! ## What shapes are read from -/

theorem treeKind_eq (hf : IsMorphism g f) (tree : ParseTree) : (f tree).kind = tree.kind := by
  rw [kind, kind, hf.token_eq, hf.kind_eq]

theorem isExtra_eq (hf : IsMorphism g f) (tree : ParseTree) :
    (f tree).token.isExtra = tree.token.isExtra := by
  rw [Token.isExtra, Token.isExtra, hf.token_eq, hf.kind_eq]

theorem hasOperator_eq (hf : IsMorphism g f) (tree : ParseTree) (kind : String) :
    (f tree).hasOperator kind = tree.hasOperator kind := by
  rw [hasOperator, hasOperator, hf.operator?_eq, Option.any_map]
  congr 1
  funext operator
  exact congrArg (· == kind) (hf.treeKind_eq operator)

theorem signature_eq (hf : IsMorphism g f) (tree : ParseTree) :
    (f tree).signature = tree.signature.map f := by
  rw [signature, signature, List.map_filterMap]
  congr 1
  funext name
  exact hf.field?_eq tree name

theorem looksLikeSignature_eq (hf : IsMorphism g f) (tree child : ParseTree) :
    (f tree).signature.any (·.token.sameAs (f child).token) =
      tree.signature.any (·.token.sameAs child.token) := by
  rw [hf.signature_eq, List.any_map]
  congr 1
  funext node
  show (f node).token.sameAs (f child).token = _
  rw [hf.token_eq, hf.token_eq, hf.sameAs_eq]

theorem methodStatements_eq (hf : IsMorphism g f) (tree : ParseTree) :
    (f tree).methodStatements = tree.methodStatements.map f := by
  unfold methodStatements
  rw [hf.field?_eq]
  cases tree.field? "body" with
  | none =>
    dsimp only [Option.map_none]
    rw [hf.content_eq, List.filter_map]
    congr 1
    refine List.filter_congr fun child _ => ?_
    exact congrArg (!·) (hf.looksLikeSignature_eq tree child)
  | some body =>
    dsimp only [Option.map_some]
    rw [hf.treeKind_eq]
    by_cases hkind : body.kind = "body_statement"
    · rw [if_pos hkind, if_pos hkind, hf.content_eq]
    · rw [if_neg hkind, if_neg hkind]
      cases hextra : body.token.isExtra <;> simp [hf.isExtra_eq, hextra]

theorem clause_eq (hf : IsMorphism g f) (tree : ParseTree) :
    (f tree).clause = tree.clause.map f := by
  unfold clause
  rw [hf.treeKind_eq]
  by_cases hkind : tree.kind = "elsif"
  · rw [if_pos hkind, if_pos hkind]
    rfl
  · rw [if_neg hkind, if_neg hkind, hf.content_eq]
    rfl

theorem fieldClause_eq (hf : IsMorphism g f) (tree : ParseTree) (name : String) :
    ((f tree).field? name).map clause = ((tree.field? name).map clause).map (·.map f) := by
  rw [hf.field?_eq, Option.map_map, Option.map_map]
  congr 1
  funext child
  exact hf.clause_eq child

theorem definedOperand_eq (hf : IsMorphism g f) (tree : ParseTree) :
    (f tree).definedOperand = tree.definedOperand.map f := by
  unfold definedOperand
  rw [hf.field?_eq, Option.map_map, Option.map_map]
  congr 1
  funext operand
  show (if (f operand).kind = "parenthesized_statements" then _ else _) = f (ite _ _ _)
  rw [hf.treeKind_eq, hf.content_eq]
  by_cases hkind : operand.kind = "parenthesized_statements"
  · rw [if_pos hkind, if_pos hkind]
    match operand.content with
    | [] => rfl
    | [_] => rfl
    | _ :: _ :: _ => rfl
  · rw [if_neg hkind, if_neg hkind]

theorem returnValues_eq (hf : IsMorphism g f) (tree : ParseTree) :
    (f tree).returnValues = tree.returnValues.map f := by
  unfold returnValues
  rw [hf.content_eq, List.flatMap_map, List.map_flatMap]
  refine List.flatMap_congr fun child _ => ?_
  rw [hf.treeKind_eq, hf.content_eq]
  by_cases hkind : child.kind = "argument_list"
  · rw [if_pos hkind, if_pos hkind]
  · rw [if_neg hkind, if_neg hkind]
    rfl

/-! ## Shapes -/

theorem other_eq (hf : IsMorphism g f) (tree : ParseTree) :
    Shape.other (f tree).content = ((Shape.other tree.content).map f).relabel g :=
  congrArg Shape.other (hf.content_eq tree)

theorem assignment_eq (hf : IsMorphism g f) (tree : ParseTree) :
    (f tree).assignment = (tree.assignment.map f).relabel g := by
  unfold assignment
  rw [hf.field?_eq]
  cases tree.field? "left" with
  | none => exact hf.other_eq tree
  | some left =>
    show (if (f left).kind = "instance_variable" then _ else _) = _
    rw [hf.treeKind_eq]
    by_cases hkind : left.kind = "instance_variable"
    · rw [if_pos hkind]
      simp only [hkind, ↓reduceIte, Shape.map, Shape.relabel, hf.token_eq, hf.field?_eq]
    · rw [if_neg hkind]
      simp only [hkind, ↓reduceIte]
      exact hf.other_eq tree

theorem operatorAssignment_eq (hf : IsMorphism g f) (tree : ParseTree) :
    (f tree).operatorAssignment = (tree.operatorAssignment.map f).relabel g := by
  unfold operatorAssignment
  rw [hf.field?_eq, hf.hasOperator_eq]
  cases tree.field? "left" with
  | none => exact hf.other_eq tree
  | some left =>
    cases tree.hasOperator "||=" with
    | true => simp only [Option.map_some, ↓reduceIte, Shape.map, Shape.relabel, hf.field?_eq]
    | false => exact hf.other_eq tree

theorem blockConditional_eq (hf : IsMorphism g f) (tree : ParseTree) :
    (f tree).blockConditional = (tree.blockConditional.map f).relabel g := by
  unfold blockConditional
  rw [hf.field?_eq, hf.treeKind_eq, hf.fieldClause_eq, hf.fieldClause_eq]
  cases tree.field? "condition" with
  | none => exact hf.other_eq tree
  | some condition =>
    by_cases hkind : tree.kind = "unless"
    · simp only [Option.map_some, hkind, ↓reduceIte, Shape.map, Shape.relabel]
    · simp only [Option.map_some, hkind, ↓reduceIte, Shape.map, Shape.relabel]

theorem modifierConditional_eq (hf : IsMorphism g f) (tree : ParseTree) :
    (f tree).modifierConditional = (tree.modifierConditional.map f).relabel g := by
  unfold modifierConditional
  rw [hf.field?_eq, hf.field?_eq, hf.treeKind_eq]
  cases tree.field? "body" with
  | none => exact hf.other_eq tree
  | some body =>
    cases tree.field? "condition" with
    | none => exact hf.other_eq tree
    | some condition =>
      by_cases hkind : tree.kind = "if_modifier"
      · simp [hkind, Shape.map, Shape.relabel, Clause.map]
      · simp [hkind, Shape.map, Shape.relabel, Clause.map]

theorem method_eq (hf : IsMorphism g f) (tree : ParseTree) (singleton : Bool) :
    Shape.method (((f tree).field? "name").map token) (f tree).methodStatements singleton =
      ((Shape.method ((tree.field? "name").map token) tree.methodStatements singleton).map
        f).relabel g := by
  rw [hf.field?_eq, hf.methodStatements_eq]
  cases tree.field? "name" with
  | none => rfl
  | some name => simp only [Option.map_some, Shape.map, Shape.relabel, hf.token_eq]

/-- The shape of the changed node is the changed shape. -/
theorem shape_eq (hf : IsMorphism g f) (tree : ParseTree) :
    (f tree).shape = (tree.shape.map f).relabel g := by
  unfold shape
  rw [hf.treeKind_eq]
  split
  · exact congrArg Shape.program (hf.content_eq tree)
  · exact hf.method_eq tree false
  · exact hf.method_eq tree true
  · rfl
  · exact hf.assignment_eq tree
  · exact hf.operatorAssignment_eq tree
  · exact hf.blockConditional_eq tree
  · exact hf.blockConditional_eq tree
  · exact hf.blockConditional_eq tree
  · exact hf.modifierConditional_eq tree
  · exact hf.modifierConditional_eq tree
  · rw [hf.hasOperator_eq]
    cases tree.hasOperator "defined?" with
    | true => exact congrArg Shape.definedCheck (hf.definedOperand_eq tree)
    | false => exact hf.other_eq tree
  · exact congrArg Shape.returns (hf.returnValues_eq tree)
  · exact hf.other_eq tree

end IsMorphism

end ParseTree

end MemoAudit
