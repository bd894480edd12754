import MemoAudit.Proofs.Gathering
import Mathlib

/-!
# Where expressions stand

A parser gives every node a stretch of the source.  Below a node the stretches of its children lie
one after the other, and this file shows that lowering keeps to that, although it drops nodes, takes
children out of the middle of other nodes, turns branches around and makes up expressions of its
own.

The order of places is left open for most of the file.  A point is looked at through a `key` in some
preorder, and a stretch is an `Extent` between two keys.  So one development serves for bytes alone,
for lines and columns, and for both at once; `Point.place` is the key for the last.

The parts of a node are nodes below it, so each of them lies within it.  Each group of parts stands
in a row (`ParseTree.inRow_of_mem_groups`), since a group is taken from the children of one node,
and different groups are apart (`ParseTree.aside_groups`), since they are taken from different
children.  What is gathered from a group reaches from its first member to its last and so inherits
both.  All in all every expression of a lowered file lies within the one above it, apart from its
siblings (`lowerFile_isNested`).
-/

namespace MemoAudit

/-! ## Extents -/

/-- A stretch between two places. -/
structure Extent (κ : Type) where
  start : κ
  stop : κ

namespace Extent

variable {κ : Type} [Preorder κ] {a b inner outer : Extent κ}

/-- The stretch does not end before it starts. -/
def IsForward (a : Extent κ) : Prop := a.start ≤ a.stop

/-- One stretch ends before the other starts. -/
def Precedes (a b : Extent κ) : Prop := a.stop ≤ b.start

/-- One stretch is part of another. -/
def Within (inner outer : Extent κ) : Prop := outer.start ≤ inner.start ∧ inner.stop ≤ outer.stop

/-- The stretches have nothing in common. -/
def Apart (a b : Extent κ) : Prop := a.Precedes b ∨ b.Precedes a

theorem Within.refl (a : Extent κ) : a.Within a := ⟨le_rfl, le_rfl⟩

theorem Within.trans {middle : Extent κ} (h : inner.Within middle) (h' : middle.Within outer) :
    inner.Within outer := ⟨h'.1.trans h.1, h.2.trans h'.2⟩

theorem Precedes.mono {a' b' : Extent κ} (h : a.Precedes b) (ha : a'.Within a)
    (hb : b'.Within b) : a'.Precedes b' := (ha.2.trans h).trans hb.1

variable [DecidableLE κ]

instance : Decidable a.IsForward := inferInstanceAs (Decidable (_ ≤ _))

instance : Decidable (a.Precedes b) := inferInstanceAs (Decidable (_ ≤ _))

instance : Decidable (inner.Within outer) := inferInstanceAs (Decidable (_ ∧ _))

end Extent

/-! ## Extents of nodes and expressions -/

namespace Span

/-- The point where a span starts. -/
def start (span : Span) : Point := ⟨span.startByte, span.first.line - 1, span.first.column - 1⟩

/-- The point where a span ends. -/
def stop (span : Span) : Point := ⟨span.endByte, span.last.line - 1, span.last.column - 1⟩

end Span

@[simp] theorem Token.start_span (token : Token) : token.span.start = token.start := by
  simp [span, Span.start]

@[simp] theorem Token.stop_span (token : Token) : token.span.stop = token.stop := by
  simp [span, Span.stop]

section

variable {κ : Type} (key : Point → κ)

/-- The stretch of a node. -/
def ParseTree.extent (tree : ParseTree) : Extent κ :=
  ⟨key tree.token.start, key tree.token.stop⟩

/-- The stretch of an expression. -/
def Expr.extent (e : Expr) : Extent κ := ⟨key e.span.start, key e.span.stop⟩

@[simp] theorem extent_lower (source : Bytes) (tree : ParseTree) :
    (lower source tree).extent key = tree.extent key := by
  simp [Expr.extent, ParseTree.extent, span_lower]

/-- A gathered group reaches from one of its members to another. -/
theorem Expr.Gathers.exists_extent_eq {e : Expr} {es : List Expr} (h : e.Gathers es) :
    ∃ first ∈ es, ∃ last ∈ es,
      e.extent key = ⟨(first.extent key).start, (last.extent key).stop⟩ := by
  cases h with
  | one => exact ⟨e, List.mem_singleton_self e, e, List.mem_singleton_self e, rfl⟩
  | sequence first middle last | values first middle last =>
    exact ⟨first, by simp, last, by simp, rfl⟩

end

variable {κ : Type} [Preorder κ] {key : Point → κ}

/-! ## Placed trees -/

namespace ParseTree

/-- Nodes stand one after the other. -/
def InRow (key : Point → κ) (nodes : List ParseTree) : Prop :=
  nodes.Pairwise fun a b => (a.extent key).Precedes (b.extent key)

/-- A node and its children are where they should be. -/
@[mk_iff]
structure LocallyPlaced (key : Point → κ) (tree : ParseTree) : Prop where
  forward : (tree.extent key).IsForward
  inside : ∀ child ∈ tree.children, (child.extent key).Within (tree.extent key)
  inRow : InRow key tree.children

/-- All nodes of a tree are where they should be. -/
def IsPlaced (key : Point → κ) (tree : ParseTree) : Prop :=
  ∀ node ∈ tree.descendants, node.LocallyPlaced key

section

variable [DecidableLE κ]

instance (nodes : List ParseTree) : Decidable (InRow key nodes) :=
  inferInstanceAs (Decidable (nodes.Pairwise _))

instance (tree : ParseTree) : Decidable (tree.LocallyPlaced key) :=
  decidable_of_iff _ (locallyPlaced_iff key tree).symm

instance (tree : ParseTree) : Decidable (tree.IsPlaced key) :=
  inferInstanceAs (Decidable (∀ node ∈ tree.descendants, node.LocallyPlaced key))

end

variable {tree : ParseTree}

theorem IsPlaced.locally (h : tree.IsPlaced key) : tree.LocallyPlaced key :=
  h tree tree.self_mem_descendants

theorem IsPlaced.below {node : ParseTree} (h : tree.IsPlaced key)
    (hnode : node ∈ tree.descendants) : node.IsPlaced key := fun below hbelow =>
  h below (mem_descendants_trans hnode hbelow)

theorem IsPlaced.part {part : ParseTree} (h : tree.IsPlaced key)
    (hpart : part ∈ tree.shape.parts) : part.IsPlaced key :=
  h.below (mem_descendants_of_mem_parts hpart)

/-- Whatever is below a node lies within it. -/
theorem IsPlaced.within {node : ParseTree} (h : tree.IsPlaced key)
    (hnode : node ∈ tree.descendants) : (node.extent key).Within (tree.extent key) := by
  induction tree using childInduction with
  | step tree ih =>
    rw [descendants_eq, List.mem_cons, List.mem_flatMap] at hnode
    rcases hnode with rfl | ⟨child, hchild, hnode⟩
    · exact .refl _
    · have hbelow := mem_descendants_of_mem_children hchild child.self_mem_descendants
      exact (ih child hchild (h.below hbelow) hnode).trans (h.locally.inside child hchild)

theorem inRow_content (h : tree.IsPlaced key) : InRow key tree.content :=
  List.Pairwise.sublist List.filter_sublist h.locally.inRow

theorem inRow_singleton (node : ParseTree) : InRow key [node] := List.pairwise_singleton _ _

/-! ## Groups of placed trees -/

theorem inRow_methodStatements (h : tree.IsPlaced key) : InRow key tree.methodStatements := by
  unfold methodStatements
  split
  · exact List.Pairwise.sublist List.filter_sublist (inRow_content h)
  · rename_i body hbody
    split
    · exact inRow_content (h.below (mem_descendants_of_field? hbody))
    · exact List.Pairwise.sublist List.filter_sublist (inRow_singleton body)

theorem inRow_returnValues (h : tree.IsPlaced key) : InRow key tree.returnValues := by
  have hvalues {child value : ParseTree} (hchild : child ∈ tree.content)
      (hvalue : value ∈ if child.kind = "argument_list" then child.content else [child]) :
      (value.extent key).Within (child.extent key) := by
    split at hvalue
    · exact (h.below (mem_descendants_of_mem_content hchild)).within
        (mem_descendants_of_mem_content hvalue)
    · obtain rfl := List.mem_singleton.1 hvalue
      exact .refl _
  rw [InRow, returnValues, List.pairwise_flatMap]
  constructor
  · intro child hchild
    split
    · exact inRow_content (h.below (mem_descendants_of_mem_content hchild))
    · exact inRow_singleton child
  · refine List.Pairwise.imp_of_mem ?_ (inRow_content h)
    intro child child' hchild hchild' hprecedes value hvalue value' hvalue'
    exact hprecedes.mono (hvalues hchild hvalue) (hvalues hchild' hvalue')

theorem inRow_clauseParts (h : tree.IsPlaced key) (name : String) :
    InRow key (Shape.clauseParts ((tree.field? name).map clause)) := by
  cases hfield : tree.field? name with
  | none => exact List.Pairwise.nil
  | some child =>
    rw [Option.map_some, Shape.clauseParts, Option.toList_some, List.flatMap_singleton, clause]
    split
    · exact inRow_singleton child
    · exact inRow_content (h.below (mem_descendants_of_field? hfield))

theorem inRow_toList (node : Option ParseTree) : InRow key node.toList := by
  cases node with
  | none => exact List.Pairwise.nil
  | some node => exact inRow_singleton node

theorem inRow_singletons (nodes : List ParseTree) :
    ∀ group ∈ nodes.map ([·]), InRow key group := by
  intro group hgroup
  obtain ⟨node, -, rfl⟩ := List.mem_map.1 hgroup
  exact inRow_singleton node

theorem inRow_conditional (condition : ParseTree)
    {thenClause elseClause : Option (Clause ParseTree)}
    (hthen : InRow key (Shape.clauseParts thenClause))
    (helse : InRow key (Shape.clauseParts elseClause)) :
    ∀ group ∈ (Shape.conditional condition thenClause elseClause).groups, InRow key group :=
  List.forall_mem_cons.2 ⟨inRow_singleton condition,
    List.forall_mem_cons.2 ⟨hthen, List.forall_mem_singleton.2 helse⟩⟩

/-- The members of a group stand in a row. -/
theorem inRow_of_mem_groups (h : tree.IsPlaced key) :
    ∀ group ∈ tree.shape.groups, InRow key group := by
  have hshape := tree.hasShape_shape
  generalize tree.shape = shape at hshape
  cases hshape with
  | program | other => exact inRow_singletons _
  | method => exact List.forall_mem_singleton.2 (inRow_methodStatements h)
  | ivar => exact List.forall_mem_nil _
  | ivarAssign | definedCheck => exact List.forall_mem_singleton.2 (inRow_toList _)
  | orAssign =>
    exact List.forall_mem_cons.2
      ⟨inRow_singleton _, List.forall_mem_singleton.2 (inRow_toList _)⟩
  | ifBlock | unlessBlock =>
    exact inRow_conditional _ (inRow_clauseParts h _) (inRow_clauseParts h _)
  | ifModifier => exact inRow_conditional _ (inRow_singleton _) List.Pairwise.nil
  | unlessModifier => exact inRow_conditional _ List.Pairwise.nil (inRow_singleton _)
  | returns => exact List.forall_mem_singleton.2 (inRow_returnValues h)

/-! ## Different groups -/

/-- All the nodes come from the child that fills a field. -/
def FromField (tree : ParseTree) (name : String) (nodes : List ParseTree) : Prop :=
  ∀ node ∈ nodes, ∃ child, tree.field? name = some child ∧ node ∈ child.descendants

theorem fromField_nil (name : String) : tree.FromField name [] := List.forall_mem_nil _

theorem fromField_singleton {name : String} {child : ParseTree}
    (h : tree.field? name = some child) : tree.FromField name [child] :=
  List.forall_mem_singleton.2 ⟨child, h, child.self_mem_descendants⟩

theorem fromField_toList (name : String) : tree.FromField name (tree.field? name).toList := by
  cases hfield : tree.field? name with
  | none => exact fromField_nil name
  | some child => exact fromField_singleton hfield

theorem fromField_clauseParts (name : String) :
    tree.FromField name (Shape.clauseParts ((tree.field? name).map clause)) := by
  intro part hpart
  cases hfield : tree.field? name with
  | none => simp [Shape.clauseParts, hfield] at hpart
  | some child =>
    refine ⟨child, rfl, ?_⟩
    replace hpart : part ∈ child.clause.parts := by
      simpa [Shape.clauseParts, hfield] using hpart
    unfold clause at hpart
    split at hpart
    · obtain rfl := List.mem_singleton.1 hpart
      exact part.self_mem_descendants
    · exact mem_descendants_of_mem_content hpart

/-- Every node of one list precedes every node of the other. -/
def Before (key : Point → κ) (nodes nodes' : List ParseTree) : Prop :=
  ∀ a ∈ nodes, ∀ b ∈ nodes', (a.extent key).Precedes (b.extent key)

/-- One of the lists stands before the other. -/
def Aside (key : Point → κ) (nodes nodes' : List ParseTree) : Prop :=
  Before key nodes nodes' ∨ Before key nodes' nodes

/-- What comes from two fields stands as the children stand that fill them. -/
theorem FromField.before {name name' : String} {nodes nodes' : List ParseTree}
    (hplaced : tree.IsPlaced key) (hnodes : tree.FromField name nodes)
    (hnodes' : tree.FromField name' nodes')
    (h : ∀ child child', tree.field? name = some child → tree.field? name' = some child' →
      (child.extent key).Precedes (child'.extent key)) : Before key nodes nodes' := by
  intro node hnode node' hnode'
  obtain ⟨child, hchild, hbelow⟩ := hnodes node hnode
  obtain ⟨child', hchild', hbelow'⟩ := hnodes' node' hnode'
  have hwithin := (hplaced.below (mem_descendants_of_field? hchild)).within hbelow
  have hwithin' := (hplaced.below (mem_descendants_of_field? hchild')).within hbelow'
  exact (h child child' hchild hchild').mono hwithin hwithin'

/-- Different fields are filled by children that are apart. -/
theorem apart_of_field? {name name' : String} {child child' : ParseTree}
    (hplaced : tree.IsPlaced key) (hne : name ≠ name') (hchild : tree.field? name = some child)
    (hchild' : tree.field? name' = some child') :
    (child.extent key).Apart (child'.extent key) := by
  have hfield : child.token.field = some name := by simpa using List.find?_some hchild
  have hfield' : child'.token.field = some name' := by simpa using List.find?_some hchild'
  have hdistinct : child ≠ child' := by
    rintro rfl
    exact hne (Option.some.inj (hfield.symm.trans hfield'))
  have hapart := hplaced.locally.inRow.imp
    (S := fun a b => (a.extent key).Apart (b.extent key)) .inl
  have : Std.Symm fun a b : ParseTree => (a.extent key).Apart (b.extent key) := ⟨fun _ _ => Or.symm⟩
  exact hapart.forall (List.mem_of_find?_eq_some hchild) (List.mem_of_find?_eq_some hchild')
    hdistinct

theorem FromField.aside {name name' : String} {nodes nodes' : List ParseTree}
    (hplaced : tree.IsPlaced key) (hne : name ≠ name') (hnodes : tree.FromField name nodes)
    (hnodes' : tree.FromField name' nodes') : Aside key nodes nodes' := by
  cases hchild : tree.field? name with
  | none => exact .inl (hnodes.before hplaced hnodes' (by simp [hchild]))
  | some child =>
    cases hchild' : tree.field? name' with
    | none => exact .inl (hnodes.before hplaced hnodes' (by simp [hchild']))
    | some child' =>
      rcases apart_of_field? hplaced hne hchild hchild' with h | h
      · exact .inl (hnodes.before hplaced hnodes' (by simpa [hchild, hchild'] using h))
      · exact .inr (hnodes'.before hplaced hnodes (by simpa [hchild, hchild'] using h))

theorem aside_conditional {condition : ParseTree}
    {thenClause elseClause : Option (Clause ParseTree)}
    (first second : String) (hplaced : tree.IsPlaced key)
    (hcondition : tree.field? "condition" = some condition)
    (hthen : tree.FromField first (Shape.clauseParts thenClause))
    (helse : tree.FromField second (Shape.clauseParts elseClause))
    (hnames : ["condition", first, second].Nodup) :
    (Shape.conditional condition thenClause elseClause).groups.Pairwise (Aside key) := by
  simp only [List.nodup_cons, List.mem_cons, List.not_mem_nil, or_false, not_or] at hnames
  obtain ⟨⟨hfirst, hsecond⟩, hbranches, -⟩ := hnames
  have htest := fromField_singleton hcondition
  refine List.pairwise_cons.2 ⟨?_, List.pairwise_pair.2 (hthen.aside hplaced hbranches helse)⟩
  exact List.forall_mem_cons.2 ⟨htest.aside hplaced hfirst hthen,
    List.forall_mem_singleton.2 (htest.aside hplaced hsecond helse)⟩

theorem aside_content (hplaced : tree.IsPlaced key) :
    (tree.content.map ([·])).Pairwise (Aside key) := by
  refine List.pairwise_map.2 ((inRow_content hplaced).imp fun {a b} h => .inl ?_)
  exact List.forall_mem_singleton.2 (List.forall_mem_singleton.2 h)

/-- Different groups are apart. -/
theorem aside_groups (h : tree.IsPlaced key) : tree.shape.groups.Pairwise (Aside key) := by
  have hshape := tree.hasShape_shape
  generalize tree.shape = shape at hshape
  cases hshape with
  | program | other => exact aside_content h
  | method | ivarAssign | definedCheck | returns => exact List.pairwise_singleton _ _
  | ivar => exact List.Pairwise.nil
  | orAssign _ _ hleft =>
    exact List.pairwise_pair.2
      ((fromField_singleton hleft).aside h (by decide) (fromField_toList "right"))
  | ifBlock _ hcondition | unlessBlock _ hcondition =>
    exact aside_conditional _ _ h hcondition (fromField_clauseParts _) (fromField_clauseParts _)
      (by decide)
  -- A modifier has one branch; the other one is empty and can be said to come from any field.
  | ifModifier _ hbody hcondition =>
    exact aside_conditional "body" "" h hcondition (fromField_singleton hbody)
      (fromField_nil _) (by decide)
  | unlessModifier _ hbody hcondition =>
    exact aside_conditional "" "body" h hcondition (fromField_nil _)
      (fromField_singleton hbody) (by decide)

end ParseTree

/-! ## Nested expressions -/

namespace Expr

/-- An expression and its direct subexpressions are where they should be. -/
structure LocallyNested (key : Point → κ) (e : Expr) : Prop where
  forward : (e.extent key).IsForward
  inside : ∀ child ∈ e.children, (child.extent key).Within (e.extent key)
  apart : e.children.Pairwise fun a b => (a.extent key).Apart (b.extent key)

/-- Expressions stand one after the other. -/
def InRow (key : Point → κ) (es : List Expr) : Prop :=
  es.Pairwise fun a b => (a.extent key).Precedes (b.extent key)

/-- Those in a row lie between the start of the first and the end of the last. -/
theorem InRow.within {first last : Expr} {middle : List Expr}
    (hrow : InRow key (first :: (middle ++ [last])))
    (hforward : ∀ e ∈ first :: (middle ++ [last]), (e.extent key).IsForward) :
    ∀ member ∈ first :: (middle ++ [last]),
      (member.extent key).Within ⟨(first.extent key).start, (last.extent key).stop⟩ := by
  intro member hmember
  constructor
  · rcases List.mem_cons.1 hmember with rfl | hlater
    · exact le_rfl
    · exact (hforward first List.mem_cons_self).trans ((List.pairwise_cons.1 hrow).1 member hlater)
  · rw [← List.cons_append] at hrow hforward hmember
    rcases List.mem_append.1 hmember with hearlier | hlast
    · have hprecedes := (List.pairwise_append.1 hrow).2.2 member hearlier last (by simp)
      exact hprecedes.trans (hforward last (by simp))
    · rw [List.mem_singleton.1 hlast]

namespace Gathers

variable {e e' : Expr} {es es' : List Expr}

theorem within {outer : Extent κ} (h : e.Gathers es)
    (hes : ∀ member ∈ es, (member.extent key).Within outer) : (e.extent key).Within outer := by
  obtain ⟨first, hfirst, last, hlast, hextent⟩ := h.exists_extent_eq key
  rw [hextent]
  exact ⟨(hes first hfirst).1, (hes last hlast).2⟩

theorem precedes (h : e.Gathers es) (h' : e'.Gathers es')
    (hes : ∀ a ∈ es, ∀ b ∈ es', (a.extent key).Precedes (b.extent key)) :
    (e.extent key).Precedes (e'.extent key) := by
  obtain ⟨_, _, last, hlast, hextent⟩ := h.exists_extent_eq key
  obtain ⟨first, hfirst, _, _, hextent'⟩ := h'.exists_extent_eq key
  rw [hextent, hextent']
  exact hes last hlast first hfirst

/-- What is gathered from nested expressions in a row is nested. -/
theorem locallyNested (h : e.Gathers es) (hrow : InRow key es)
    (hes : ∀ member ∈ es, member.LocallyNested key) : e.LocallyNested key := by
  cases h with
  | one => exact hes e (List.mem_singleton_self e)
  | sequence first middle last | values first middle last =>
    have hwithin := hrow.within fun member hmember => (hes member hmember).forward
    have hfirst := hwithin first List.mem_cons_self
    exact {
      forward := hfirst.1.trans ((hes first List.mem_cons_self).forward.trans hfirst.2)
      inside := hwithin
      apart := hrow.imp .inl }

end Gathers

end Expr

section

variable {source : Bytes} {tree : ParseTree}

theorem inRow_map_lower {nodes : List ParseTree} (h : ParseTree.InRow key nodes) :
    Expr.InRow key (nodes.map (lower source)) := by
  refine List.pairwise_map.2 (h.imp fun {a b} hprecedes => ?_)
  rwa [extent_lower, extent_lower]

/-- What is gathered from lists of nodes that are apart is apart. -/
theorem apart_of_aside {nodes nodes' : List ParseTree} {e e' : Expr}
    (h : ParseTree.Aside key nodes nodes') (he : e.Gathers (nodes.map (lower source)))
    (he' : e'.Gathers (nodes'.map (lower source))) :
    (e.extent key).Apart (e'.extent key) := by
  have hbefore {nodes nodes' : List ParseTree} (h : ParseTree.Before key nodes nodes') :
      ∀ a ∈ nodes.map (lower source), ∀ b ∈ nodes'.map (lower source),
        (a.extent key).Precedes (b.extent key) := by
    simpa [ParseTree.Before] using h
  rcases h with h | h
  · exact .inl (he.precedes he' (hbefore h))
  · exact .inr (he'.precedes he (hbefore h))

/-- A placed node is lowered to an expression that its direct subexpressions fit into. -/
theorem locallyNested_lower (h : tree.IsPlaced key) : (lower source tree).LocallyNested key where
  forward := by
    rw [extent_lower]
    exact h.locally.forward
  inside := by
    intro child hchild
    obtain ⟨group, hgroup, hgathers⟩ := exists_group_of_mem_children hchild
    refine hgathers.within fun member hmember => ?_
    obtain ⟨part, hpart, rfl⟩ := List.mem_map.1 hmember
    rw [extent_lower, extent_lower]
    exact h.within (ParseTree.mem_descendants_of_mem_parts
      (Shape.mem_parts_of_mem_groups hgroup hpart))
  apart := pairwise_children_lower (ParseTree.aside_groups h) fun _ _ _ _ => apart_of_aside

/-- So is every direct subexpression, lowered or made up. -/
theorem locallyNested_of_mem_children {child : Expr} (h : tree.IsPlaced key)
    (hchild : child ∈ (lower source tree).children) : child.LocallyNested key := by
  obtain ⟨group, hgroup, hgathers⟩ := exists_group_of_mem_children hchild
  refine hgathers.locallyNested (inRow_map_lower (ParseTree.inRow_of_mem_groups h group hgroup)) ?_
  intro member hmember
  obtain ⟨part, hpart, rfl⟩ := List.mem_map.1 hmember
  exact locallyNested_lower (h.part (Shape.mem_parts_of_mem_groups hgroup hpart))

theorem forall_locallyNested_lowerFile (h : tree.IsPlaced key) :
    ∀ e ∈ (lowerFile source tree).descendants, e.LocallyNested key := by
  have hplaced {node : ParseTree} (hnode : node ∈ tree.lowered) : node.IsPlaced key :=
    h.below (tree.lowered_subset_descendants hnode)
  refine forall_descendants_lowerFile (forall_descendants_lower ?_ ?_) ?_
  · exact fun node hnode => locallyNested_lower (hplaced hnode)
  · exact fun node hnode child => locallyNested_of_mem_children (hplaced hnode)
  · have hextent : (Expr.program [lower source tree] tree.token.span).extent key =
        tree.extent key := by
      simp [Expr.extent, Expr.span, ParseTree.extent]
    exact {
      forward := hextent ▸ h.locally.forward
      inside := List.forall_mem_singleton.2 (by rw [hextent, extent_lower]; exact .refl _)
      apart := List.pairwise_singleton _ _ }

end

/-! ## Bytes and positions -/

/-- A point by its byte and, next to that, by its row and column in the order of reading. -/
def Point.place (point : Point) : Int × (Int ×ₗ Int) :=
  (point.byte, toLex (point.row, point.column))

theorem Point.place_le_place_iff {byte byte' : Int} {position position' : Position} :
    Point.place ⟨byte, position.line - 1, position.column - 1⟩ ≤
        Point.place ⟨byte', position'.line - 1, position'.column - 1⟩ ↔
      byte ≤ byte' ∧ position ≤ position' := by
  have hposition : position ≤ position' ↔ position.line < position'.line ∨
      (position.line = position'.line ∧ position.column ≤ position'.column) := .rfl
  simp [place, Prod.Lex.toLex_le_toLex, hposition]

namespace Span

/-- The span does not end before it starts, in bytes and in the order of reading. -/
def IsForward (span : Span) : Prop := span.startByte ≤ span.endByte ∧ span.first ≤ span.last

/-- One span is part of another. -/
def Within (inner outer : Span) : Prop :=
  (outer.startByte ≤ inner.startByte ∧ outer.first ≤ inner.first) ∧
    (inner.endByte ≤ outer.endByte ∧ inner.last ≤ outer.last)

/-- One span ends before the other starts. -/
def Precedes (a b : Span) : Prop := a.endByte ≤ b.startByte ∧ a.last ≤ b.first

end Span

/-- The span of an expression holds those of its direct subexpressions, one beside the other. -/
structure Expr.HoldsSpans (e : Expr) : Prop where
  forward : e.span.IsForward
  inside : ∀ child ∈ e.children, child.span.Within e.span
  apart : e.children.Pairwise fun a b => a.span.Precedes b.span ∨ b.span.Precedes a.span

/-- Throughout an expression every part lies within the one above it and beside its siblings. -/
def Expr.IsNested (e : Expr) : Prop := ∀ d ∈ e.descendants, d.HoldsSpans

theorem Expr.LocallyNested.holdsSpans {e : Expr} (h : e.LocallyNested Point.place) :
    e.HoldsSpans where
  forward := Point.place_le_place_iff.1 h.forward
  inside := by
    intro child hchild
    obtain ⟨hstart, hstop⟩ := h.inside child hchild
    exact ⟨Point.place_le_place_iff.1 hstart, Point.place_le_place_iff.1 hstop⟩
  apart := h.apart.imp (Or.imp Point.place_le_place_iff.1 Point.place_le_place_iff.1)

/-- **Lowering keeps spans nested and siblings apart.**  If in a tree every node ends where it
starts or later, lies within its parent and ends before its next sibling starts, in bytes as well as
in rows and columns, then in the program of the file every expression lies within the one above it
and beside its siblings, those included that lowering makes up itself. -/
theorem lowerFile_isNested (source : Bytes) (root : ParseTree)
    (h : root.IsPlaced Point.place) :
    (lowerFile source root).span = root.token.span ∧ (lowerFile source root).IsNested := by
  refine ⟨span_lowerFile source root, fun e he => ?_⟩
  exact (forall_locallyNested_lowerFile h e he).holdsSpans

def listingSource : Bytes := Text.Utf8.encode "def a; return b, c; d; end"

/-- The method in `listingSource`, which is a file by itself.  Its statements and the values that it
returns are both gathered. -/
def listingMethod : ParseTree :=
  inlineNode "method" 0 26 none [
    inlineNode "def" 0 3 none [] false,
    inlineNode "identifier" 4 5 (some "name") [],
    inlineNode "body_statement" 7 21 (some "body") [
      inlineNode "return" 7 18 none [
        inlineNode "argument_list" 14 18 none [
          inlineNode "identifier" 14 15 none [],
          inlineNode "," 15 16 none [] false,
          inlineNode "identifier" 17 18 none []]],
      inlineNode "identifier" 20 21 none []],
    inlineNode "end" 23 26 none [] false]

theorem lowerFile_listingMethod :
    listingMethod.IsPlaced Point.place ∧
      (lowerFile listingSource listingMethod).span = inlineSpan 0 26 ∧
      (lowerFile listingSource listingMethod).IsNested := by
  have hplaced : listingMethod.IsPlaced Point.place := by decide +kernel
  exact ⟨hplaced, lowerFile_isNested listingSource listingMethod hplaced⟩

end MemoAudit
