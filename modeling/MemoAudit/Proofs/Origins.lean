import MemoAudit.Proofs.Shapes

/-!
# Where lowered expressions come from

Lowering goes down a parse tree along the parts of shapes, and the parts of a node are nodes below
it (`ParseTree.mem_descendants_of_mem_parts`).  So whatever is found in a lowered tree was made from
nodes of that tree.  Nearly always it is what one of them is lowered to; the exceptions are the
lists that lowering makes up itself, a `sequence` for several statements and an argument list for
several returned values, and what is gathered in them are lowered nodes again.  `Expr.MadeFrom` says
this as a list of three cases, and `madeFrom_lower` that there are no others.

A reader who meets an expression in the program of a file, a definition of a method say, gets back
from here to the node of the file that it stands for (`exists_node_of_method`).
-/

namespace MemoAudit

/-! ## Nodes below a node -/

namespace ParseTree

variable {tree : ParseTree}

theorem self_mem_descendants (tree : ParseTree) : tree ∈ tree.descendants := by
  rw [descendants_eq]
  exact List.mem_cons_self

theorem mem_descendants_of_mem_children {child node : ParseTree} (hchild : child ∈ tree.children)
    (h : node ∈ child.descendants) : node ∈ tree.descendants := by
  rw [descendants_eq]
  exact List.mem_cons_of_mem _ (List.mem_flatMap.2 ⟨child, hchild, h⟩)

theorem mem_descendants_trans {middle node : ParseTree} (hmiddle : middle ∈ tree.descendants)
    (h : node ∈ middle.descendants) : node ∈ tree.descendants := by
  induction tree using childInduction with
  | step tree ih =>
    rw [descendants_eq, List.mem_cons, List.mem_flatMap] at hmiddle
    rcases hmiddle with rfl | ⟨child, hchild, hbelow⟩
    · exact h
    · exact mem_descendants_of_mem_children hchild (ih child hchild hbelow)

theorem mem_descendants_of_field? {name : String} {child : ParseTree}
    (h : tree.field? name = some child) : child ∈ tree.descendants :=
  mem_descendants_of_mem_children (List.mem_of_find?_eq_some h) child.self_mem_descendants

theorem mem_descendants_of_mem_content {child : ParseTree} (h : child ∈ tree.content) :
    child ∈ tree.descendants :=
  mem_descendants_of_mem_children (List.mem_filter.1 h).1 child.self_mem_descendants

theorem mem_descendants_of_mem_methodStatements {statement : ParseTree}
    (h : statement ∈ tree.methodStatements) : statement ∈ tree.descendants := by
  unfold methodStatements at h
  split at h
  · exact mem_descendants_of_mem_content (List.mem_filter.1 h).1
  · rename_i body hbody
    have hbelow := mem_descendants_of_field? hbody
    split at h
    · exact mem_descendants_trans hbelow (mem_descendants_of_mem_content h)
    · obtain rfl : statement = body := by simpa using (List.mem_filter.1 h).1
      exact hbelow

theorem mem_descendants_of_mem_clause {name : String} {part : ParseTree}
    (h : part ∈ Shape.clauseParts ((tree.field? name).map clause)) : part ∈ tree.descendants := by
  cases hfield : tree.field? name with
  | none => simp [Shape.clauseParts, hfield] at h
  | some child =>
    have hbelow := mem_descendants_of_field? hfield
    have hpart : part ∈ child.clause.parts := by simpa [Shape.clauseParts, hfield] using h
    unfold clause at hpart
    split at hpart
    · obtain rfl : part = child := by simpa [Clause.parts] using hpart
      exact hbelow
    · exact mem_descendants_trans hbelow (mem_descendants_of_mem_content hpart)

theorem mem_descendants_of_definedOperand {operand : ParseTree}
    (h : tree.definedOperand = some operand) : operand ∈ tree.descendants := by
  obtain ⟨field, hfield, rfl⟩ := Option.map_eq_some_iff.1 h
  have hbelow := mem_descendants_of_field? hfield
  split
  · split
    · rename_i inner hinner
      have hcontent : inner ∈ field.content := by rw [hinner]; exact List.mem_singleton_self _
      exact mem_descendants_trans hbelow (mem_descendants_of_mem_content hcontent)
    · exact hbelow
  · exact hbelow

theorem mem_descendants_of_mem_returnValues {value : ParseTree} (h : value ∈ tree.returnValues) :
    value ∈ tree.descendants := by
  obtain ⟨child, hchild, hvalue⟩ := List.mem_flatMap.1 h
  have hbelow := mem_descendants_of_mem_content hchild
  split at hvalue
  · exact mem_descendants_trans hbelow (mem_descendants_of_mem_content hvalue)
  · obtain rfl : value = child := by simpa using hvalue
    exact hbelow

/-- The parts of a node stand below it. -/
theorem mem_descendants_of_mem_parts {part : ParseTree} (h : part ∈ tree.shape.parts) :
    part ∈ tree.descendants := by
  have hfield {name : String} (h : part ∈ (tree.field? name).toList) : part ∈ tree.descendants :=
    mem_descendants_of_field? (by simpa using h)
  have hshape := tree.hasShape_shape
  generalize tree.shape = shape at h hshape
  cases hshape with
  | program | other => exact mem_descendants_of_mem_content h
  | method => exact mem_descendants_of_mem_methodStatements h
  | ivar => cases h
  | ivarAssign => exact hfield h
  | orAssign _ _ hleft =>
    rcases List.mem_cons.1 h with rfl | h
    · exact mem_descendants_of_field? hleft
    · exact hfield h
  | ifBlock _ hcondition | unlessBlock _ hcondition =>
    rcases List.mem_cons.1 h with rfl | h
    · exact mem_descendants_of_field? hcondition
    · rcases List.mem_append.1 h with h | h <;> exact mem_descendants_of_mem_clause h
  | ifModifier _ hbody hcondition | unlessModifier _ hbody hcondition =>
    rcases List.mem_cons.1 h with rfl | h
    · exact mem_descendants_of_field? hcondition
    · obtain rfl := List.mem_singleton.1 (by simpa [Shape.clauseParts, Clause.parts] using h)
      exact mem_descendants_of_field? hbody
  | definedCheck => exact mem_descendants_of_definedOperand (by simpa [Shape.parts] using h)
  | returns => exact mem_descendants_of_mem_returnValues h

end ParseTree

/-! ## Expressions of a lowered tree -/

/-- What an expression in a lowered tree was made from. -/
inductive Expr.MadeFrom (source : Bytes) (nodes : List ParseTree) : Expr → Prop
  /-- A node is lowered to it. -/
  | node {node : ParseTree} (mem : node ∈ nodes) : MadeFrom source nodes (lower source node)
  /-- The statements in it are lowered nodes. -/
  | sequence {statements : List ParseTree} {span : Span} (mem : statements ⊆ nodes) :
      MadeFrom source nodes (.sequence (statements.map (lower source)) span)
  /-- The returned values in it are lowered nodes. -/
  | values {values : List ParseTree} {span : Span} (mem : values ⊆ nodes) :
      MadeFrom source nodes (.other "argument_list" (values.map (lower source)) span)

section

variable {source : Bytes} {tree : ParseTree} {nodes : List ParseTree} {e : Expr}

theorem Expr.MadeFrom.mono {more : List ParseTree} (h : e.MadeFrom source nodes)
    (hmore : nodes ⊆ more) : e.MadeFrom source more := by
  cases h with
  | node mem => exact .node (hmore mem)
  | sequence mem => exact .sequence (List.Subset.trans mem hmore)
  | values mem => exact .values (List.Subset.trans mem hmore)

theorem madeFrom_of_mem_map (h : e ∈ nodes.map (lower source)) : e.MadeFrom source nodes := by
  obtain ⟨node, hnode, rfl⟩ := List.mem_map.1 h
  exact .node hnode

theorem madeFrom_of_mem_collapse (h : e ∈ Expr.collapse (nodes.map (lower source))) :
    e.MadeFrom source nodes := by
  match nodes with
  | [] => cases h
  | [node] =>
    obtain rfl := Option.some.inj h
    exact .node (List.mem_singleton_self node)
  | first :: second :: rest =>
    obtain rfl := Option.some.inj h
    exact .sequence (List.Subset.refl (first :: second :: rest))

theorem madeFrom_of_mem_returned (h : e ∈ returned (nodes.map (lower source))) :
    e.MadeFrom source nodes := by
  match nodes with
  | [] => cases h
  | [node] =>
    obtain rfl := Option.some.inj h
    exact .node (List.mem_singleton_self node)
  | first :: second :: rest =>
    obtain rfl := Option.some.inj h
    exact .values (List.Subset.refl (first :: second :: rest))

theorem madeFrom_of_mem_branch {clause : Option (Clause ParseTree)}
    (h : e ∈ loweredBranch source clause) : e.MadeFrom source (Shape.clauseParts clause) := by
  match clause with
  | none => cases h
  | some (.direct part) =>
    obtain rfl := Option.some.inj h
    exact .node (List.mem_singleton_self part)
  | some (.block parts) =>
    have hparts : Shape.clauseParts (some (.block parts)) = parts := by
      simp [Shape.clauseParts, Clause.parts]
    rw [hparts]
    exact madeFrom_of_mem_collapse h

/-- The direct subexpressions of a lowered node are made from its parts. -/
theorem madeFrom_of_mem_children (h : e ∈ (lower source tree).children) :
    e.MadeFrom source tree.shape.parts := by
  rw [lower_eq] at h
  generalize tree.shape = shape at h
  cases shape with
  | program statements => exact madeFrom_of_mem_map h
  | method name statements singleton => exact madeFrom_of_mem_collapse (Option.mem_toList.1 h)
  | ivar => cases h
  | ivarAssign name value =>
    obtain ⟨part, hpart, rfl⟩ := Option.map_eq_some_iff.1 (Option.mem_toList.1 h)
    exact .node (Option.mem_toList.2 hpart)
  | orAssign target value =>
    rcases List.mem_append.1 h with h | h
    · obtain rfl := List.mem_singleton.1 h
      exact .node List.mem_cons_self
    · obtain ⟨part, hpart, rfl⟩ := Option.map_eq_some_iff.1 (Option.mem_toList.1 h)
      exact .node (List.mem_cons_of_mem _ (Option.mem_toList.2 hpart))
  | conditional condition thenClause elseClause =>
    rcases List.mem_append.1 h with h | helse
    · rcases List.mem_append.1 h with hcondition | hthen
      · obtain rfl := List.mem_singleton.1 hcondition
        exact .node List.mem_cons_self
      · refine (madeFrom_of_mem_branch (Option.mem_toList.1 hthen)).mono ?_
        exact List.subset_cons_of_subset _ (List.subset_append_left _ _)
    · refine (madeFrom_of_mem_branch (Option.mem_toList.1 helse)).mono ?_
      exact List.subset_cons_of_subset _ (List.subset_append_right _ _)
  | definedCheck argument =>
    obtain ⟨part, hpart, rfl⟩ := Option.map_eq_some_iff.1 (Option.mem_toList.1 h)
    exact .node (Option.mem_toList.2 hpart)
  | returns values => exact madeFrom_of_mem_returned (Option.mem_toList.1 h)
  | other children => exact madeFrom_of_mem_map h

/-- Whatever is in a lowered tree was made from nodes of the tree. -/
theorem madeFrom_lower (h : e ∈ (lower source tree).descendants) :
    e.MadeFrom source tree.descendants := by
  induction tree using ParseTree.shapeInduction with
  | step tree ih =>
    have hbelow : tree.shape.parts ⊆ tree.descendants := fun part hpart =>
      ParseTree.mem_descendants_of_mem_parts hpart
    have hpart {part : ParseTree} (hpart : part ∈ tree.shape.parts)
        (h : e ∈ (lower source part).descendants) : e.MadeFrom source tree.descendants := by
      refine (ih part hpart h).mono fun node hnode => ?_
      exact ParseTree.mem_descendants_trans (hbelow hpart) hnode
    -- In a list that was made up there are only parts.
    have hlist {parts : List ParseTree} (hparts : parts ⊆ tree.shape.parts)
        (h : e ∈ (parts.map (lower source)).flatMap Expr.descendants) :
        e.MadeFrom source tree.descendants := by
      rw [List.flatMap_map, List.mem_flatMap] at h
      obtain ⟨part, hmem, h⟩ := h
      exact hpart (hparts hmem) h
    rw [Expr.descendants_eq, List.mem_cons, List.mem_flatMap] at h
    rcases h with rfl | ⟨child, hchild, h⟩
    · exact .node tree.self_mem_descendants
    · cases madeFrom_of_mem_children hchild with
      | node mem => exact hpart mem h
      | sequence mem =>
        rw [Expr.descendants_eq, List.mem_cons] at h
        rcases h with rfl | h
        · exact .sequence (List.Subset.trans mem hbelow)
        · exact hlist mem h
      | values mem =>
        rw [Expr.descendants_eq, List.mem_cons] at h
        rcases h with rfl | h
        · exact .values (List.Subset.trans mem hbelow)
        · exact hlist mem h

/-- In the program of a file there is nothing else, unless the program had to be put around it. -/
theorem madeFrom_lowerFile (h : e ∈ (lowerFile source tree).descendants) :
    e.MadeFrom source tree.descendants ∨
      e = .program [lower source tree] (lower source tree).span := by
  unfold lowerFile Expr.asProgram at h
  split at h
  · rename_i hprogram
    rw [← hprogram] at h
    exact .inl (madeFrom_lower h)
  · rw [Expr.descendants_eq, List.mem_cons] at h
    rcases h with rfl | h
    · exact .inr rfl
    · rw [Expr.children, List.flatMap_singleton] at h
      exact .inl (madeFrom_lower h)

/-- A definition in the program of a file stands for a node of the file. -/
theorem exists_node_of_method {name : String} {body : Option Expr} {span nameSpan : Span}
    {singleton : Bool}
    (h : .method name body span nameSpan singleton ∈ (lowerFile source tree).descendants) :
    ∃ node ∈ tree.descendants, lower source node = .method name body span nameSpan singleton := by
  rcases madeFrom_lowerFile h with h | h
  · generalize hmethod : Expr.method name body span nameSpan singleton = e at h
    cases h with
    | node mem => exact ⟨_, mem, rfl⟩
    | sequence | values => cases hmethod
  · cases h

end

end MemoAudit
