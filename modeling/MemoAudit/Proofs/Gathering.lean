import MemoAudit.Proofs.Definitions
import MemoAudit.Proofs.Origins
import Mathlib.Data.List.Induction

/-!
# How parts are gathered into subexpressions

A direct subexpression of a lowered node is not always a lowered part.  Several statements of a body
or a branch become one `sequence`, and several returned values become one list, so that in general a
subexpression stands for a *group* of parts.  `Shape.groups` divides the parts of a shape into
groups, and an expression is assembled by gathering each group, where nothing comes of a group that
is empty (`children_lower`).

What can come of a group is listed by `Expr.Gathers`: the only member of the group as it is, a
sequence, or a list of values; the last two reach from the first member to the last.  Below that
there are lowered parts again.  So in a lowered tree there are two kinds of expressions, those that
a node is lowered to and the direct subexpressions of these, and a property of all of them has to be
checked for one node at a time (`forall_descendants_lower`).  Which nodes these are is said by
`ParseTree.lowered`.
-/

namespace MemoAudit

/-! ## The nodes that lowering goes to -/

namespace ParseTree

/-- The nodes that lowering goes to, each before those below it. -/
def lowered (tree : ParseTree) : List ParseTree :=
  tree :: tree.shape.parts.attach.flatMap fun part => lowered part.1
  termination_by sizeOf tree
  decreasing_by exact sizeOf_lt_of_mem_shape part.2

theorem lowered_eq (tree : ParseTree) :
    tree.lowered = tree :: tree.shape.parts.flatMap lowered := by
  rw [lowered]
  simp only [List.flatMap_subtype, List.unattach_attach]

theorem self_mem_lowered (tree : ParseTree) : tree ∈ tree.lowered := by
  rw [lowered_eq]
  exact List.mem_cons_self

theorem lowered_subset_of_mem_parts {tree part : ParseTree} (h : part ∈ tree.shape.parts) :
    part.lowered ⊆ tree.lowered := by
  intro node hnode
  rw [lowered_eq tree]
  exact List.mem_cons_of_mem _ (List.mem_flatMap.2 ⟨part, h, hnode⟩)

theorem lowered_subset_descendants (tree : ParseTree) : tree.lowered ⊆ tree.descendants := by
  induction tree using shapeInduction with
  | step tree ih =>
    intro node hnode
    rw [lowered_eq, List.mem_cons, List.mem_flatMap] at hnode
    rcases hnode with rfl | ⟨part, hpart, hnode⟩
    · exact node.self_mem_descendants
    · exact mem_descendants_trans (mem_descendants_of_mem_parts hpart) (ih part hpart hnode)

end ParseTree

/-! ## Groups of parts -/

namespace Shape

variable {α β : Type}

/-- The parts, those that go into one subexpression together. -/
def groups : Shape α → List (List α)
  | .program statements => statements.map ([·])
  | .method _ statements _ => [statements]
  | .ivar => []
  | .ivarAssign _ value => [value.toList]
  | .orAssign target value => [[target], value.toList]
  | .conditional condition thenClause elseClause =>
    [[condition], clauseParts thenClause, clauseParts elseClause]
  | .definedCheck argument => [argument.toList]
  | .returns values => [values]
  | .other children => children.map ([·])

theorem flatten_groups (shape : Shape α) : shape.groups.flatten = shape.parts := by
  have hsingles (parts : List α) : (parts.map ([·])).flatten = parts := by
    rw [← List.flatMap_def, List.flatMap_singleton']
  cases shape with
  | program parts | other parts => exact hsingles parts
  | _ => simp [groups, parts]

theorem mem_parts_of_mem_groups {shape : Shape α} {group : List α} {part : α}
    (hgroup : group ∈ shape.groups) (h : part ∈ group) : part ∈ shape.parts := by
  rw [← flatten_groups]
  exact List.mem_flatten.2 ⟨group, hgroup, h⟩

theorem groups_map (f : α → β) (shape : Shape α) :
    (shape.map f).groups = shape.groups.map (·.map f) := by
  have hvalue (value : Option α) : (value.map f).toList = value.toList.map f := by
    cases value <;> rfl
  cases shape with
  | program | other => simp [map, groups]
  | method | ivar | returns => rfl
  | ivarAssign | orAssign | definedCheck => simp [map, groups, hvalue]
  | conditional => simp [map, groups, clauseParts_map]

/-- What a group becomes in an expression of the shape. -/
def gather (shape : Shape α) : List Expr → Option Expr :=
  match shape with
  | .returns _ => returned
  | _ => Expr.collapse

end Shape

/-! ## Gathering a group -/

/-- The expression is what the expressions of a group become. -/
inductive Expr.Gathers : Expr → List Expr → Prop
  /-- One stays as it is. -/
  | one (e : Expr) : Gathers e [e]
  /-- Several statements make a sequence from the first to the last. -/
  | sequence (first : Expr) (middle : List Expr) (last : Expr) :
      Gathers (.sequence (first :: (middle ++ [last])) (first.span.through last.span))
        (first :: (middle ++ [last]))
  /-- Several values make a list from the first to the last. -/
  | values (first : Expr) (middle : List Expr) (last : Expr) :
      Gathers (.other "argument_list" (first :: (middle ++ [last])) (first.span.through last.span))
        (first :: (middle ++ [last]))

theorem collapse_several (first : Expr) (middle : List Expr) (last : Expr) :
    Expr.collapse (first :: (middle ++ [last])) =
      some (.sequence (first :: (middle ++ [last])) (first.span.through last.span)) := by
  cases middle <;> simp [Expr.collapse]

theorem returned_several (first : Expr) (middle : List Expr) (last : Expr) :
    returned (first :: (middle ++ [last])) =
      some
        (.other "argument_list" (first :: (middle ++ [last])) (first.span.through last.span)) := by
  cases middle <;> simp [returned]

theorem gathers_of_collapse {es : List Expr} {e : Expr} (h : Expr.collapse es = some e) :
    e.Gathers es := by
  cases es using List.bidirectionalRec with
  | nil => cases h
  | singleton single =>
    obtain rfl := Option.some.inj h
    exact .one _
  | cons_append first middle last =>
    rw [collapse_several] at h
    obtain rfl := Option.some.inj h
    exact .sequence first middle last

theorem gathers_of_returned {es : List Expr} {e : Expr} (h : returned es = some e) :
    e.Gathers es := by
  cases es using List.bidirectionalRec with
  | nil => cases h
  | singleton single =>
    obtain rfl := Option.some.inj h
    exact .one _
  | cons_append first middle last =>
    rw [returned_several] at h
    obtain rfl := Option.some.inj h
    exact .values first middle last

theorem gathers_of_gather {α : Type} {shape : Shape α} {es : List Expr} {e : Expr}
    (h : shape.gather es = some e) : e.Gathers es := by
  cases shape with
  | returns => exact gathers_of_returned h
  | _ => exact gathers_of_collapse h

/-! ## Subexpressions from groups -/

/-- The branch that comes of a clause is what its parts become. -/
theorem bind_body_eq_collapse (clause : Option (Clause Expr)) :
    clause.bind Clause.body = Expr.collapse (Shape.clauseParts clause) := by
  match clause with
  | none => rfl
  | some (.direct e) => rfl
  | some (.block statements) => simp [Clause.body, Shape.clauseParts, Clause.parts]

/-- The direct subexpressions of what is assembled from a shape come of its groups. -/
theorem children_assemble (source : Bytes) (token : Token) (shape : Shape Expr) :
    (assemble source token shape).children = shape.groups.filterMap shape.gather := by
  have hsingles (es : List Expr) : (es.map ([·])).filterMap Expr.collapse = es := by
    rw [List.filterMap_map]
    exact List.filterMap_some
  have hone (e : Expr) : Expr.collapse [e] = some e := rfl
  have hoption (value : Option Expr) : Expr.collapse value.toList = value := by
    cases value <;> rfl
  cases shape with
  | program es | other es => exact (hsingles es).symm
  | ivar => rfl
  | method | ivarAssign | orAssign | conditional | definedCheck | returns =>
    simp [assemble, Expr.children, Shape.groups, Shape.gather, List.filterMap_eq_flatMap_toList,
      hone, hoption, bind_body_eq_collapse]

/-- The direct subexpressions of a lowered node come of its groups. -/
theorem children_lower (source : Bytes) (tree : ParseTree) :
    (lower source tree).children = tree.shape.groups.filterMap fun group =>
      tree.shape.gather (group.map (lower source)) := by
  have hgather : (tree.shape.map (lower source)).gather = tree.shape.gather := by
    cases tree.shape <;> rfl
  rw [lower_eq, children_assemble, Shape.groups_map, List.filterMap_map, hgather]
  rfl

section

variable {source : Bytes} {tree : ParseTree}

theorem exists_group_of_mem_children {e : Expr} (h : e ∈ (lower source tree).children) :
    ∃ group ∈ tree.shape.groups, e.Gathers (group.map (lower source)) := by
  rw [children_lower, List.mem_filterMap] at h
  obtain ⟨group, hgroup, hgather⟩ := h
  exact ⟨group, hgroup, gathers_of_gather hgather⟩

/-- What holds between groups of parts carries over to what comes of them. -/
theorem pairwise_children_lower {R : Expr → Expr → Prop}
    {S : List ParseTree → List ParseTree → Prop} (hgroups : tree.shape.groups.Pairwise S)
    (h : ∀ group group' e e', S group group' → e.Gathers (group.map (lower source)) →
      e'.Gathers (group'.map (lower source)) → R e e') :
    (lower source tree).children.Pairwise R := by
  rw [children_lower, List.pairwise_filterMap]
  refine hgroups.imp fun {group group'} hS e he e' he' => ?_
  exact h group group' e e' hS (gathers_of_gather he) (gathers_of_gather he')

/-- What is in a gathered group is it itself or in one of its members. -/
theorem Expr.Gathers.mem_descendants {e d : Expr} {es : List Expr} (h : e.Gathers es)
    (hd : d ∈ e.descendants) : d = e ∨ ∃ member ∈ es, d ∈ member.descendants := by
  cases h with
  | one => exact .inr ⟨e, List.mem_singleton_self e, hd⟩
  | sequence | values =>
    rw [Expr.descendants_eq, List.mem_cons, List.mem_flatMap] at hd
    exact hd

/-- In a lowered tree there are lowered nodes and their direct subexpressions, nothing else. -/
theorem exists_lowered_of_mem_descendants {e : Expr} (h : e ∈ (lower source tree).descendants) :
    ∃ node ∈ tree.lowered, e = lower source node ∨ e ∈ (lower source node).children := by
  induction tree using ParseTree.shapeInduction with
  | step tree ih =>
    rw [Expr.descendants_eq, List.mem_cons, List.mem_flatMap] at h
    rcases h with rfl | ⟨child, hchild, h⟩
    · exact ⟨tree, tree.self_mem_lowered, .inl rfl⟩
    · obtain ⟨group, hgroup, hgathers⟩ := exists_group_of_mem_children hchild
      rcases hgathers.mem_descendants h with rfl | ⟨member, hmember, h⟩
      · exact ⟨tree, tree.self_mem_lowered, .inr hchild⟩
      · obtain ⟨part, hpart, rfl⟩ := List.mem_map.1 hmember
        have hparts := Shape.mem_parts_of_mem_groups hgroup hpart
        obtain ⟨node, hnode, he⟩ := ih part hparts h
        exact ⟨node, ParseTree.lowered_subset_of_mem_parts hparts hnode, he⟩

/-- A property of all expressions in a lowered tree is checked node by node. -/
theorem forall_descendants_lower {P : Expr → Prop}
    (hnode : ∀ node ∈ tree.lowered, P (lower source node))
    (hchild : ∀ node ∈ tree.lowered, ∀ child ∈ (lower source node).children, P child) :
    ∀ e ∈ (lower source tree).descendants, P e := by
  intro e he
  obtain ⟨node, hmem, rfl | hbelow⟩ := exists_lowered_of_mem_descendants he
  · exact hnode node hmem
  · exact hchild node hmem e hbelow

theorem span_lowerFile (source : Bytes) (root : ParseTree) :
    (lowerFile source root).span = root.token.span := by
  unfold lowerFile Expr.asProgram
  split
  · rename_i heq
    rw [← span_lower source, heq]
  · exact span_lower source root

/-- The program of a file adds nothing to the lowered tree but at most itself, and then it reaches
as far as what it is put around. -/
theorem forall_descendants_lowerFile {P : Expr → Prop}
    (h : ∀ e ∈ (lower source tree).descendants, P e)
    (hprogram : P (.program [lower source tree] tree.token.span)) :
    ∀ e ∈ (lowerFile source tree).descendants, P e := by
  intro e he
  unfold lowerFile Expr.asProgram at he
  split at he
  · rename_i heq
    rw [← heq] at he
    exact h e he
  · rw [Expr.descendants_eq, List.mem_cons, Expr.children, List.flatMap_singleton] at he
    rcases he with rfl | he
    · rw [span_lower]
      exact hprogram
    · exact h e he

end

end MemoAudit
