import MemoAudit.Proofs.Nesting
import MemoAudit.Proofs.Visits

/-!
# The order of a walk

A walk goes to each expression before those below it.  So it goes by the order of the source if
every node has its direct subexpressions in that order, and nearly all nodes do.  The exceptions are
the conditionals that are not written as they are visited: a modifier stands after its body and is
visited first, and of an `unless` the branch after the `else` is visited before the other.
`ParseTree.Turns` lists these pairs of parts.  This file shows that a walk is in document order
exactly if nothing is turned around in the file, up to parts that are empty
(`walk_inDocumentOrder_iff`).

The starts of the expressions that are visited are those of the nodes that lowering goes to, except
that a list which lowering makes up starts where its first element starts, as does the program
around a root that is none.  `Stutters` is that relation between two lists, and the order does not
depend on such repetitions (`Stutters.pairwise_iff`).  The order of the starts of nodes is settled
in each node by its parts alone (`ParseTree.pairwise_starts_iff`), and there it comes down to what
is turned around (`ParseTree.pairwise_startsBy_iff`).
-/

open scoped List

namespace MemoAudit

/-! ## Repetition in place -/

/-- The second list is the first with some elements repeated where they stand. -/
inductive Stutters {α : Type} : List α → List α → Prop
  | nil : Stutters [] []
  | cons (a : α) {l l' : List α} (h : Stutters l l') : Stutters (a :: l) (a :: l')
  | again {a : α} {l l' : List α} (h : Stutters (a :: l) l') : Stutters (a :: l) (a :: l')

namespace Stutters

variable {α β : Type} {l l' m m' : List α}

theorem append (h : Stutters l l') (h' : Stutters m m') : Stutters (l ++ m) (l' ++ m') := by
  induction h with
  | nil => exact h'
  | cons a _ ih => exact .cons a ih
  | again _ ih => exact .again ih

theorem flatMap {f g : β → List α} {bs : List β} (h : ∀ b ∈ bs, Stutters (f b) (g b)) :
    Stutters (bs.flatMap f) (bs.flatMap g) := by
  induction bs with
  | nil => exact .nil
  | cons b bs ih =>
    rw [List.forall_mem_cons] at h
    exact h.1.append (ih h.2)

theorem repeat_head {a : α} (h : Stutters l (a :: l')) : Stutters l (a :: a :: l') := by
  cases h with
  | cons _ h => exact .again (.cons a h)
  | again h => exact .again (.again h)

theorem mem_iff {a : α} (h : Stutters l l') : a ∈ l ↔ a ∈ l' := by
  induction h with
  | nil => rfl
  | cons b _ ih => simp [ih]
  | again _ ih => simp [← ih]

/-- Repetition does not matter to a reflexive order. -/
theorem pairwise_iff {R : α → α → Prop} (hrefl : ∀ a, R a a) (h : Stutters l l') :
    l.Pairwise R ↔ l'.Pairwise R := by
  induction h with
  | nil => rfl
  | cons a h ih => simp only [List.pairwise_cons, ih, h.mem_iff]
  | @again a l l' h ih =>
    rw [List.pairwise_cons (l := l'), ← ih]
    refine ⟨fun hpair => ⟨fun b hb => ?_, hpair⟩, And.right⟩
    rcases List.mem_cons.1 (h.mem_iff.2 hb) with rfl | hb
    · exact hrefl b
    · exact (List.pairwise_cons.1 hpair).1 b hb

end Stutters

/-! ## Starts of lowered nodes -/

theorem Shape.eq_nil_of_gather {α : Type} {shape : Shape α} {es : List Expr}
    (h : shape.gather es = none) : es = [] := by
  match es with
  | [] => rfl
  | [_] | _ :: _ :: _ => cases shape <;> cases h

/-- The starts of the expressions in `e`, in order. -/
def Expr.starts (e : Expr) : List Int := e.descendants.map (·.span.startByte)

theorem Expr.starts_eq (e : Expr) : e.starts = e.span.startByte :: e.children.flatMap starts := by
  rw [starts, descendants_eq, List.map_cons, List.map_flatMap]
  rfl

/-- The starts of the nodes in `tree` that lowering goes to, in order. -/
def ParseTree.starts (tree : ParseTree) : List Int := tree.lowered.map (·.token.start.byte)

theorem ParseTree.starts_eq (tree : ParseTree) :
    tree.starts = tree.token.start.byte :: tree.shape.parts.flatMap starts := by
  rw [starts, lowered_eq, List.map_cons, List.map_flatMap]
  rfl

/-- What is gathered from several expressions starts where the first of them starts. -/
theorem Expr.Gathers.stutters {e : Expr} {es : List Expr} {l : List Int} (h : e.Gathers es)
    (hes : Stutters l (es.flatMap Expr.starts)) : Stutters l e.starts := by
  cases h with
  | one => rwa [List.flatMap_singleton] at hes
  | sequence first middle last | values first middle last =>
    rw [Expr.starts_eq, Expr.children]
    rw [List.flatMap_cons, first.starts_eq] at hes ⊢
    exact hes.repeat_head

theorem stutters_gather {source : Bytes} {shape : Shape ParseTree} {group : List ParseTree}
    (h : ∀ part ∈ group, Stutters part.starts (lower source part).starts) :
    Stutters (group.flatMap ParseTree.starts)
      ((shape.gather (group.map (lower source))).toList.flatMap Expr.starts) := by
  cases hgather : shape.gather (group.map (lower source)) with
  | none =>
    obtain rfl := List.map_eq_nil_iff.1 (Shape.eq_nil_of_gather hgather)
    exact .nil
  | some e =>
    rw [Option.toList_some, List.flatMap_singleton]
    refine (gathers_of_gather hgather).stutters ?_
    rw [List.flatMap_map]
    exact .flatMap h

theorem stutters_lower (source : Bytes) (tree : ParseTree) :
    Stutters tree.starts (lower source tree).starts := by
  induction tree using ParseTree.shapeInduction with
  | step tree ih =>
    rw [ParseTree.starts_eq, Expr.starts_eq, span_lower, children_lower,
      List.filterMap_eq_flatMap_toList, List.flatMap_assoc, ← Shape.flatten_groups,
      ← List.flatMap_id, List.flatMap_assoc]
    refine .cons _ (.flatMap fun group hgroup => stutters_gather fun part hpart => ?_)
    exact ih part (Shape.mem_parts_of_mem_groups hgroup hpart)

theorem stutters_lowerFile (source : Bytes) (root : ParseTree) :
    Stutters root.starts (lowerFile source root).starts := by
  have hlower := stutters_lower source root
  unfold lowerFile Expr.asProgram
  split
  · rename_i heq
    rwa [← heq]
  · rw [Expr.starts_eq, Expr.children, List.flatMap_singleton]
    rw [Expr.starts_eq] at hlower ⊢
    exact hlower.repeat_head

/-! ## Order of lowered nodes -/

namespace ParseTree

variable {tree : ParseTree}

/-- Nothing that lowering goes to in one node starts after the other node starts. -/
def StartsBy (tree other : ParseTree) : Prop :=
  ∀ node ∈ tree.lowered, node.token.start.byte ≤ other.token.start.byte

theorem IsPlaced.start_le {node : ParseTree} (h : tree.IsPlaced Point.byte)
    (hnode : node ∈ tree.lowered) : tree.token.start.byte ≤ node.token.start.byte :=
  (h.within (tree.lowered_subset_descendants hnode)).1

theorem startsBy_of_precedes {other : ParseTree} (h : tree.IsPlaced Point.byte)
    (hprecedes : (tree.extent Point.byte).Precedes (other.extent Point.byte)) :
    tree.StartsBy other := by
  intro node hnode
  have hbelow := tree.lowered_subset_descendants hnode
  calc node.token.start.byte
      _ ≤ node.token.stop.byte := (h node hbelow).forward
      _ ≤ tree.token.stop.byte := (h.within hbelow).2
      _ ≤ other.token.start.byte := hprecedes

/-- The order of the starts is settled node by node: it is in each node a matter of the parts. -/
theorem pairwise_starts_iff (h : tree.IsPlaced Point.byte) :
    tree.starts.Pairwise (· ≤ ·) ↔ ∀ node ∈ tree.lowered, node.shape.parts.Pairwise StartsBy := by
  induction tree using shapeInduction with
  | step tree ih =>
    have hhead : ∀ start ∈ tree.shape.parts.flatMap starts, tree.token.start.byte ≤ start := by
      intro start hstart
      obtain ⟨part, hpart, hstart⟩ := List.mem_flatMap.1 hstart
      obtain ⟨node, hnode, rfl⟩ := List.mem_map.1 hstart
      exact h.start_le (lowered_subset_of_mem_parts hpart hnode)
    have hparts : (tree.shape.parts.Pairwise fun a b => ∀ x ∈ a.starts, ∀ y ∈ b.starts, x ≤ y) ↔
        tree.shape.parts.Pairwise StartsBy := by
      refine List.Pairwise.iff_of_mem fun {a b} _ hb => ?_
      simp only [starts, List.forall_mem_map]
      refine ⟨fun hle x hx => hle x hx b b.self_mem_lowered, fun hle x hx y hy => ?_⟩
      exact (hle x hx).trans ((h.part hb).start_le hy)
    have hbelow : (∀ part ∈ tree.shape.parts, part.starts.Pairwise (· ≤ ·)) ↔
        ∀ node ∈ tree.shape.parts.flatMap lowered, node.shape.parts.Pairwise StartsBy := by
      rw [List.forall_mem_flatMap]
      exact forall₂_congr fun part hpart => ih part hpart (h.part hpart)
    rw [starts_eq, List.pairwise_cons, List.pairwise_flatMap, hparts, hbelow, lowered_eq,
      List.forall_mem_cons]
    exact ⟨fun ⟨_, hbelow, hown⟩ => ⟨hown, hbelow⟩, fun ⟨hown, hbelow⟩ => ⟨hhead, hbelow, hown⟩⟩

/-! ## Nodes that are turned around -/

/-- The order in which the fields of a node of the given kind are written. -/
def fieldOrder : String → List String
  | "assignment" | "operator_assignment" => ["left", "right"]
  | "if" | "unless" | "elsif" => ["condition", "consequence", "alternative"]
  | "if_modifier" | "unless_modifier" => ["body", "condition"]
  | _ => []

/-- The children of a node that fill its fields stand in the order in which fields are written. -/
def LocallyOrdered (tree : ParseTree) : Prop :=
  (fieldOrder tree.kind).filterMap tree.field? <+ tree.children

/-- Throughout a tree fields stand in the order in which they are written. -/
def IsOrdered (tree : ParseTree) : Prop := ∀ node ∈ tree.descendants, node.LocallyOrdered

instance (tree : ParseTree) : Decidable tree.IsOrdered :=
  inferInstanceAs (Decidable (∀ node ∈ tree.descendants,
    (fieldOrder node.kind).filterMap node.field? <+ node.children))

/-- Of two parts of a node the one that stands later is lowered to what is visited earlier. -/
inductive Turns (tree : ParseTree) : ParseTree → ParseTree → Prop
  /-- A modifier is written after its body and visited before it. -/
  | modifier {body condition : ParseTree}
      (hkind : tree.kind = "if_modifier" ∨ tree.kind = "unless_modifier")
      (hbody : tree.field? "body" = some body)
      (hcondition : tree.field? "condition" = some condition) : Turns tree condition body
  /-- The `else` of an `unless` is visited first. -/
  | alternative {condition early late : ParseTree} (hkind : tree.kind = "unless")
      (hcondition : tree.field? "condition" = some condition)
      (hearly : early ∈ Shape.clauseParts ((tree.field? "alternative").map clause))
      (hlate : late ∈ Shape.clauseParts ((tree.field? "consequence").map clause)) :
      Turns tree early late

/-- Two parts stand in the order in which they are visited, or else the node turns them around. -/
def PrecedesOrTurns (tree a b : ParseTree) : Prop :=
  (a.extent Point.byte).Precedes (b.extent Point.byte) ∨ tree.Turns a b

theorem Turns.sublist_parts {early late : ParseTree} (h : tree.Turns early late) :
    [early, late] <+ tree.shape.parts := by
  cases h with
  | modifier hkind hbody hcondition =>
    rcases hkind with hkind | hkind
    · rw [shape_eq (.ifModifier hkind hbody hcondition) (by simp)]
      exact .refl _
    · rw [shape_eq (.unlessModifier hkind hbody hcondition) (by simp)]
      exact .refl _
  | alternative hkind hcondition hearly hlate =>
    rw [shape_eq (.unlessBlock hkind hcondition) (by simp)]
    exact .cons _ ((List.singleton_sublist.2 hearly).append (List.singleton_sublist.2 hlate))

theorem Turns.kind_mem {early late : ParseTree} (h : tree.Turns early late) :
    tree.kind ∈ ["if_modifier", "unless_modifier", "unless"] := by
  cases h with
  | modifier hkind => rcases hkind with hkind | hkind <;> simp [hkind]
  | alternative hkind => simp [hkind]

section

variable (hordered : tree.LocallyOrdered) (hplaced : tree.IsPlaced Point.byte)
include hordered hplaced

/-- What comes from the field that is written first stands before what comes from the other. -/
theorem FromField.before_of_written {name name' : String} {nodes nodes' : List ParseTree}
    (hnodes : tree.FromField name nodes) (hnodes' : tree.FromField name' nodes')
    (hwritten : [name, name'] <+ fieldOrder tree.kind) : Before Point.byte nodes nodes' := by
  have hpair := List.pairwise_filterMap.1 (hplaced.locally.inRow.sublist hordered)
  exact hnodes.before hplaced hnodes' fun child child' hchild hchild' =>
    List.pairwise_pair.1 (hpair.sublist hwritten) child hchild child' hchild'

/-- What is turned around stands the other way round. -/
theorem Turns.precedes {early late : ParseTree} (h : tree.Turns early late) :
    (late.extent Point.byte).Precedes (early.extent Point.byte) := by
  cases h with
  | modifier hkind hbody hcondition =>
    refine FromField.before_of_written hordered hplaced (fromField_singleton hbody)
      (fromField_singleton hcondition) ?_ late (by simp) early (by simp)
    rcases hkind with hkind | hkind <;> rw [hkind] <;> decide
  | alternative hkind hcondition hearly hlate =>
    refine FromField.before_of_written hordered hplaced (fromField_clauseParts "consequence")
      (fromField_clauseParts "alternative") ?_ late hlate early hearly
    rw [hkind]
    decide

theorem precedesOrTurns_block {condition : ParseTree} {first second : String}
    (hcondition : tree.field? "condition" = some condition)
    (hfirst : ["condition", first] <+ fieldOrder tree.kind)
    (hsecond : ["condition", second] <+ fieldOrder tree.kind)
    (hbranches : ∀ a ∈ Shape.clauseParts ((tree.field? first).map clause),
      ∀ b ∈ Shape.clauseParts ((tree.field? second).map clause), tree.PrecedesOrTurns a b) :
    (Shape.conditional condition ((tree.field? first).map clause)
      ((tree.field? second).map clause)).parts.Pairwise tree.PrecedesOrTurns := by
  have hbefore {name : String} (hwritten : ["condition", name] <+ fieldOrder tree.kind) :
      ∀ part ∈ Shape.clauseParts ((tree.field? name).map clause),
        (condition.extent Point.byte).Precedes (part.extent Point.byte) :=
    FromField.before_of_written hordered hplaced (fromField_singleton hcondition)
      (fromField_clauseParts name) hwritten condition (List.mem_singleton_self _)
  refine List.pairwise_cons.2
    ⟨fun part hpart => .inl ?_, List.pairwise_append.2 ⟨?_, ?_, hbranches⟩⟩
  · exact (List.mem_append.1 hpart).elim (hbefore hfirst part) (hbefore hsecond part)
  · exact (inRow_clauseParts hplaced first).imp .inl
  · exact (inRow_clauseParts hplaced second).imp .inl

/-- The parts of a node stand in the order in which lowering goes to them, but for those that it
turns around. -/
theorem precedesOrTurns_parts : tree.shape.parts.Pairwise tree.PrecedesOrTurns := by
  have hshape := tree.hasShape_shape
  generalize tree.shape = shape at hshape
  cases hshape with
  | program | other => exact (inRow_content hplaced).imp .inl
  | method => exact (inRow_methodStatements hplaced).imp .inl
  | ivar => exact List.Pairwise.nil
  | ivarAssign | definedCheck => exact (inRow_toList _).imp .inl
  | returns => exact (inRow_returnValues hplaced).imp .inl
  | orAssign hkind _ hleft =>
    refine List.pairwise_cons.2 ⟨fun right hright => .inl ?_, (inRow_toList _).imp .inl⟩
    refine FromField.before_of_written hordered hplaced (fromField_singleton hleft)
      (fromField_toList "right") ?_ _ (List.mem_singleton_self _) right hright
    rw [hkind]
    decide
  | ifBlock hkind hcondition =>
    have horder : fieldOrder tree.kind = ["condition", "consequence", "alternative"] := by
      rcases hkind with hkind | hkind <;> rw [hkind] <;> rfl
    refine precedesOrTurns_block hordered hplaced hcondition (by rw [horder]; decide)
      (by rw [horder]; decide) fun a ha b hb => .inl ?_
    exact FromField.before_of_written hordered hplaced (fromField_clauseParts _)
      (fromField_clauseParts _) (by rw [horder]; decide) a ha b hb
  | unlessBlock hkind hcondition =>
    refine precedesOrTurns_block hordered hplaced hcondition (by rw [hkind]; decide)
      (by rw [hkind]; decide) fun a ha b hb => .inr ?_
    exact .alternative hkind hcondition ha hb
  | ifModifier hkind hbody hcondition =>
    exact List.pairwise_pair.2 (.inr (.modifier (.inl hkind) hbody hcondition))
  | unlessModifier hkind hbody hcondition =>
    exact List.pairwise_pair.2 (.inr (.modifier (.inr hkind) hbody hcondition))

/-- The parts of a node are gone to in order exactly if those that are turned around are. -/
theorem pairwise_startsBy_iff :
    tree.shape.parts.Pairwise StartsBy ↔
      ∀ early late, tree.Turns early late → early.StartsBy late := by
  constructor
  · intro hpair early late hturns
    exact List.pairwise_pair.1 (hpair.sublist hturns.sublist_parts)
  · intro hturns
    refine (precedesOrTurns_parts hordered hplaced).imp_of_mem fun {a b} ha _ h => ?_
    exact h.elim (startsBy_of_precedes (hplaced.part ha)) (hturns a b)

end

end ParseTree

/-! ## Document order -/

/-- A walk goes to nothing that starts before something that it has been to. -/
def Expr.InDocumentOrder (e : Expr) : Prop :=
  e.walk.Pairwise fun visit visit' =>
    visit.site.expr.span.startByte ≤ visit'.site.expr.span.startByte

theorem Expr.inDocumentOrder_iff (e : Expr) : e.InDocumentOrder ↔ e.starts.Pairwise (· ≤ ·) := by
  rw [starts, ← map_expr_walk, List.map_map, List.pairwise_map]
  rfl

section

variable {root : ParseTree} (source : Bytes) (hplaced : root.IsPlaced Point.byte)
  (hordered : root.IsOrdered)
include hplaced hordered

theorem inDocumentOrder_lowerFile_iff :
    (lowerFile source root).InDocumentOrder ↔
      ∀ node ∈ root.lowered, ∀ early late, node.Turns early late → early.StartsBy late := by
  rw [Expr.inDocumentOrder_iff, ← (stutters_lowerFile source root).pairwise_iff Int.le_refl,
    ParseTree.pairwise_starts_iff hplaced]
  refine forall₂_congr fun node hnode => ?_
  have hbelow := root.lowered_subset_descendants hnode
  exact ParseTree.pairwise_startsBy_iff (hordered node hbelow) (hplaced.below hbelow)

theorem not_inDocumentOrder_of_turns {node early late : ParseTree} (hnode : node ∈ root.lowered)
    (hturns : node.Turns early late) (hlate : late.token.start.byte < late.token.stop.byte) :
    ¬ (lowerFile source root).InDocumentOrder := by
  intro h
  have hbelow := root.lowered_subset_descendants hnode
  have hprecedes := hturns.precedes (hordered node hbelow) (hplaced.below hbelow)
  have hstart := (inDocumentOrder_lowerFile_iff source hplaced hordered).1 h node hnode early late
    hturns early early.self_mem_lowered
  exact absurd (hlate.trans_le hprecedes) hstart.not_gt

end

/-- **A walk goes by document order except where branches are turned around.**  In a tree whose
nodes are nested and in order and whose fields stand as they are written, a walk goes to the
expressions of the file one by one as `Expr.descendants` lists them, and it never goes back unless
lowering goes to a node that is turned around: a modifier, which is visited before its body, or the
`else` of an `unless`.  There it does go back, but for the case where the part that is visited late
is empty and all that is visited early starts in that same place. -/
theorem walk_inDocumentOrder_iff (source : Bytes) (root : ParseTree)
    (hplaced : root.IsPlaced Point.byte) (hordered : root.IsOrdered) :
    (lowerFile source root).walk.map (·.site.expr) = (lowerFile source root).descendants ∧
      ((lowerFile source root).InDocumentOrder ↔
        ∀ node ∈ root.lowered, ∀ early late, node.Turns early late → early.StartsBy late) ∧
      ∀ node ∈ root.lowered, ∀ early late, node.Turns early late →
        late.token.start.byte < late.token.stop.byte →
        ¬ (lowerFile source root).InDocumentOrder := by
  refine ⟨Expr.map_expr_walk _, inDocumentOrder_lowerFile_iff source hplaced hordered, ?_⟩
  intro node hnode early late hturns hlate
  exact not_inDocumentOrder_of_turns source hplaced hordered hnode hturns hlate

def branchingSource : Bytes := Text.Utf8.encode "if a; @b ||= c; else; d; end"

/-- The conditional in `branchingSource`, which is a file by itself. -/
def branchingTree : ParseTree :=
  inlineNode "if" 0 28 none [
    inlineNode "identifier" 3 4 (some "condition") [],
    inlineNode "then" 4 15 (some "consequence") [
      inlineNode "operator_assignment" 6 14 none [
        inlineNode "instance_variable" 6 8 (some "left") [],
        inlineNode "||=" 9 12 (some "operator") [] false,
        inlineNode "identifier" 13 14 (some "right") []]],
    inlineNode "else" 16 24 (some "alternative") [inlineNode "identifier" 22 23 none []]]

theorem walk_branchingTree_inDocumentOrder :
    branchingTree.IsPlaced Point.byte ∧ branchingTree.IsOrdered ∧
      (lowerFile branchingSource branchingTree).InDocumentOrder := by
  have hplaced : branchingTree.IsPlaced Point.byte := by decide +kernel
  have hordered : branchingTree.IsOrdered := by decide +kernel
  have hkinds : ∀ node ∈ branchingTree.lowered,
      node.kind ∉ ["if_modifier", "unless_modifier", "unless"] := by decide +kernel
  refine ⟨hplaced, hordered,
    (walk_inDocumentOrder_iff branchingSource branchingTree hplaced hordered).2.1.2 ?_⟩
  intro node hnode early late hturns
  exact absurd hturns.kind_mem (hkinds node hnode)

def trailingSource : Bytes :=
  Text.Utf8.encode "def a; @b ||= 1; end if def c; @d ||= 1; end"

/-- A definition as in `trailingSource`, with the place where it starts and the field that it
fills. -/
def definitionAt (start : Int) (field : String) : ParseTree :=
  inlineNode "method" start (start + 20) (some field) [
    inlineNode "identifier" (start + 4) (start + 5) (some "name") [],
    inlineNode "body_statement" (start + 7) (start + 16) (some "body") [
      inlineNode "operator_assignment" (start + 7) (start + 15) none [
        inlineNode "instance_variable" (start + 7) (start + 9) (some "left") [],
        inlineNode "||=" (start + 10) (start + 13) (some "operator") [] false,
        inlineNode "integer" (start + 14) (start + 15) (some "right") []]]]

/-- The tree of `trailingSource`: a definition whose condition is another definition. -/
def trailingTree : ParseTree :=
  inlineNode "program" 0 44 none [
    inlineNode "if_modifier" 0 44 none [
      definitionAt 0 "body",
      inlineNode "if" 21 23 none [] false,
      definitionAt 24 "condition"]]

/-- Here the walk goes to the second definition first. -/
theorem walk_trailingTree_goesBack :
    trailingTree.IsPlaced Point.byte ∧ trailingTree.IsOrdered ∧
      ¬ (lowerFile trailingSource trailingTree).InDocumentOrder := by
  have hplaced : trailingTree.IsPlaced Point.byte := by decide +kernel
  have hordered : trailingTree.IsOrdered := by decide +kernel
  have hmodifier : ∃ node ∈ trailingTree.lowered, node.kind = "if_modifier" ∧
      node.field? "body" = some (definitionAt 0 "body") ∧
      node.field? "condition" = some (definitionAt 24 "condition") := by
    decide +kernel
  obtain ⟨node, hnode, hkind, hbody, hcondition⟩ := hmodifier
  exact ⟨hplaced, hordered, not_inDocumentOrder_of_turns trailingSource hplaced hordered hnode
    (.modifier (.inl hkind) hbody hcondition) (by decide)⟩

end MemoAudit
