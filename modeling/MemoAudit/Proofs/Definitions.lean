import MemoAudit.Proofs.Shapes
import Mathlib.Data.List.Perm.Subperm
import Mathlib.Data.List.Flatten

/-!
# Definitions survive lowering

Lowering takes a node apart and keeps some of its nodes: those that fill a field, those of the
content, those of a clause.  This file follows the definitions of methods through it.  What is
compared are *headers*, the span, the name and the kind of a definition, read off the expression on
one side (`Expr.headers`) and off the nodes on the other (`ParseTree.headers`).

Lowering never makes two definitions out of one node: the parts of a shape are different nodes below
it, so the headers of the lowered tree are among those of the tree (`headers_lower_subperm`).  It
does lose definitions where they stand in a node that is dropped, such as a comment or the
parameters of a method.  In the trees of a grammar they do not stand there;
`ParseTree.HasGrammarShape` says what exactly must not happen, node by node, and then none is lost
(`length_headers_lower`).  All in all the headers before and after lowering are the same
(`lowerFile_headers`).
-/

open scoped List

namespace MemoAudit

/-- What can be told of a definition without looking into it. -/
structure Header where
  span : Span
  name : String
  singleton : Bool
  deriving DecidableEq, Repr, Inhabited

/-! ## Headers in expressions -/

namespace Expr

/-- The header of an expression that is a definition. -/
def header? : Expr → Option Header
  | .method name _ span _ singleton => some ⟨span, name, singleton⟩
  | _ => none

/-- The headers of all definitions in an expression. -/
def headers (e : Expr) : List Header := e.descendants.filterMap header?

theorem headers_eq (e : Expr) : e.headers = e.header?.toList ++ e.children.flatMap headers := by
  rw [headers, descendants_eq, List.filterMap_cons, List.filterMap_flatMap]
  cases e.header? <;> rfl

/-- Making a list of statements a body adds no definition and loses none. -/
theorem headers_collapse (statements : List Expr) :
    (collapse statements).toList.flatMap headers = statements.flatMap headers := by
  match statements with
  | [] => rfl
  | [e] => rfl
  | first :: second :: rest =>
    rw [collapse, Option.toList_some, List.flatMap_singleton, headers_eq]
    rfl

theorem headers_asProgram (e : Expr) : e.asProgram.headers = e.headers := by
  unfold asProgram
  split
  · rfl
  · rw [headers_eq]
    simp [header?, children]

end Expr

theorem headers_returned (values : List Expr) :
    (returned values).toList.flatMap Expr.headers = values.flatMap Expr.headers := by
  match values with
  | [] => rfl
  | [e] => rfl
  | first :: second :: rest =>
    rw [returned, Option.toList_some, List.flatMap_singleton, Expr.headers_eq]
    rfl

theorem headers_clause (clause : Option (Clause Expr)) :
    (clause.bind Clause.body).toList.flatMap Expr.headers =
      (Shape.clauseParts clause).flatMap Expr.headers := by
  match clause with
  | none => rfl
  | some (.direct e) => rfl
  | some (.block statements) =>
    rw [Option.bind_some, Clause.body, Expr.headers_collapse]
    simp [Shape.clauseParts, Clause.parts]

/-- Apart from its own, the headers of an expression are those of the parts that it is assembled
from. -/
theorem headers_assemble (source : Bytes) (token : Token) (shape : Shape Expr) :
    (assemble source token shape).headers =
      (assemble source token shape).header?.toList ++ shape.parts.flatMap Expr.headers := by
  rw [Expr.headers_eq]
  congr 1
  cases shape with
  | program | ivar | ivarAssign | orAssign | definedCheck | other => rfl
  | method name statements => exact Expr.headers_collapse statements
  | returns values => exact headers_returned values
  | conditional condition thenClause elseClause =>
    rw [assemble, Expr.children, Shape.parts, List.flatMap_append, List.flatMap_append,
      headers_clause, headers_clause, List.flatMap_cons, List.flatMap_append, Option.toList_some,
      List.flatMap_singleton, List.append_assoc]

theorem Shape.clauseParts_map {α β : Type} (f : α → β) (clause : Option (Clause α)) :
    clauseParts (clause.map (·.map f)) = (clauseParts clause).map f := by
  match clause with
  | none => rfl
  | some (.direct part) => rfl
  | some (.block parts) => simp [clauseParts, Clause.map, Clause.parts]

theorem Shape.parts_map {α β : Type} (f : α → β) (shape : Shape α) :
    (shape.map f).parts = shape.parts.map f := by
  cases shape with
  | program | method | ivar | returns | other => rfl
  | ivarAssign _ value => cases value <;> rfl
  | orAssign _ value => cases value <;> rfl
  | definedCheck argument => cases argument <;> rfl
  | conditional condition thenClause elseClause =>
    rw [map, parts, parts, clauseParts_map, clauseParts_map, List.map_cons, List.map_append]

/-! ## Headers in parse trees -/

namespace ParseTree

variable (source : Bytes)

/-- The header of a node that is a definition; its name is the text of the field of that name. -/
def header? (tree : ParseTree) : Option Header :=
  if tree.isMethod then
    some {
      span := tree.token.span
      name := (tree.field? "name").elim "" (·.token.text source)
      singleton := tree.kind == "singleton_method" }
  else none

/-- The headers of all definitions at or below a node. -/
def headers (tree : ParseTree) : List Header := tree.descendants.filterMap (header? source)

theorem headers_eq (tree : ParseTree) :
    tree.headers source =
      (tree.header? source).toList ++ tree.children.flatMap (headers source) := by
  rw [headers, descendants_eq, List.filterMap_cons, List.filterMap_flatMap]
  cases tree.header? source <;> rfl

theorem length_headers (tree : ParseTree) : (tree.headers source).length = tree.methodCount := by
  rw [headers, methodCount, List.length_filterMap_eq_countP]
  congr 1
  funext node
  unfold header?
  cases node.isMethod <;> rfl

end ParseTree

theorem header?_lower (source : Bytes) (tree : ParseTree) :
    (lower source tree).header? = tree.header? source := by
  by_cases hmethod : tree.isMethod = true
  · rw [lower_eq_method_iff.2 ⟨hmethod, rfl, rfl, rfl, rfl, rfl⟩, ParseTree.header?, if_pos hmethod]
    rfl
  · rw [ParseTree.header?, if_neg hmethod]
    cases hlower : lower source tree with
    | method => exact absurd (lower_eq_method_iff.1 hlower).1 hmethod
    | _ => rfl

/-- Apart from its own, the headers of a lowered node are those of the lowered parts. -/
theorem headers_lower (source : Bytes) (tree : ParseTree) :
    (lower source tree).headers = (tree.header? source).toList ++
      tree.shape.parts.flatMap fun part => (lower source part).headers := by
  rw [← header?_lower, lower_eq, headers_assemble, Shape.parts_map, List.flatMap_map]

/-! ## No node is lowered twice -/

section

variable {α β : Type}

theorem subperm_flatMap_right {l₁ l₂ : List α} (h : l₁ <+~ l₂) (f : α → List β) :
    l₁.flatMap f <+~ l₂.flatMap f := by
  obtain ⟨l, hperm, hsublist⟩ := h
  exact (hperm.flatMap_right f).symm.subperm.trans (hsublist.flatMap f).subperm

theorem flatMap_subperm_flatMap {l : List α} {f g : α → List β} (h : ∀ a ∈ l, f a <+~ g a) :
    l.flatMap f <+~ l.flatMap g := by
  induction l with
  | nil => exact List.nil_subperm
  | cons a l ih =>
    rw [List.forall_mem_cons] at h
    exact h.1.append (ih h.2)

end

namespace ParseTree

variable {source : Bytes} {tree : ParseTree}

theorem content_subperm :
    tree.content.flatMap (headers source) <+~ tree.children.flatMap (headers source) :=
  (List.filter_sublist.flatMap _).subperm

theorem children_subperm : tree.children.flatMap (headers source) <+~ tree.headers source := by
  rw [headers_eq]
  exact (List.sublist_append_right _ _).subperm

/-- The headers of the node that fills a field, if there is one. -/
def fieldHeaders (source : Bytes) (tree : ParseTree) (name : String) : List Header :=
  (tree.field? name).toList.flatMap (headers source)

theorem fieldHeaders_eq {name : String} {child : ParseTree} (h : tree.field? name = some child) :
    tree.fieldHeaders source name = child.headers source := by
  rw [fieldHeaders, h, Option.toList_some, List.flatMap_singleton]

/-- Different fields are filled by different children. -/
theorem filterMap_field?_subperm (tree : ParseTree) {names : List String} (hnodup : names.Nodup) :
    names.filterMap tree.field? <+~ tree.children := by
  have hfield {name : String} {child : ParseTree} (h : tree.field? name = some child) :
      child.token.field = some name := by
    simpa using List.find?_some h
  refine List.subperm_of_subset ?_ ?_
  · rw [List.Nodup, List.pairwise_filterMap]
    refine hnodup.imp ?_
    intro name name' hne child hchild child' hchild' heq
    subst heq
    exact hne (Option.some.inj ((hfield hchild).symm.trans (hfield hchild')))
  · intro child hchild
    obtain ⟨name, -, hname⟩ := List.mem_filterMap.1 hchild
    exact List.mem_of_find?_eq_some hname

theorem fields_subperm {names : List String} (hnodup : names.Nodup) :
    names.flatMap (tree.fieldHeaders source) <+~ tree.children.flatMap (headers source) := by
  have hheaders := subperm_flatMap_right (tree.filterMap_field?_subperm hnodup) (headers source)
  rw [List.filterMap_eq_flatMap_toList, List.flatMap_assoc] at hheaders
  exact hheaders

theorem clause_subperm (name : String) :
    (Shape.clauseParts ((tree.field? name).map clause)).flatMap (headers source) <+~
      tree.fieldHeaders source name := by
  unfold fieldHeaders
  cases tree.field? name with
  | none => exact List.nil_subperm
  | some child =>
    rw [Option.map_some, Option.toList_some, List.flatMap_singleton, Shape.clauseParts,
      Option.toList_some, List.flatMap_singleton, clause]
    split
    · rw [Clause.parts, List.flatMap_singleton]
    · exact content_subperm.trans children_subperm

theorem definedOperand_subperm :
    tree.definedOperand.toList.flatMap (headers source) <+~ tree.fieldHeaders source "operand" := by
  unfold fieldHeaders definedOperand
  cases tree.field? "operand" with
  | none => exact List.nil_subperm
  | some operand =>
    rw [Option.map_some, Option.toList_some, List.flatMap_singleton, Option.toList_some,
      List.flatMap_singleton]
    split
    · split
      · rename_i inner hcontent
        have hinner := (@content_subperm source operand).trans children_subperm
        rwa [hcontent, List.flatMap_singleton] at hinner
      · rfl
    · rfl

theorem returnValues_subperm :
    tree.returnValues.flatMap (headers source) <+~ tree.content.flatMap (headers source) := by
  rw [returnValues, List.flatMap_assoc]
  refine flatMap_subperm_flatMap fun child _ => ?_
  split
  · exact content_subperm.trans children_subperm
  · rw [List.flatMap_singleton]

theorem methodStatements_subperm :
    tree.methodStatements.flatMap (headers source) <+~ tree.children.flatMap (headers source) := by
  unfold methodStatements
  split
  · exact (List.filter_sublist.flatMap _).subperm.trans content_subperm
  · rename_i body hbody
    have hfield := @fields_subperm source tree ["body"] (by decide)
    rw [List.flatMap_singleton, fieldHeaders_eq hbody] at hfield
    refine List.Subperm.trans ?_ hfield
    split
    · exact content_subperm.trans children_subperm
    · have hsublist : [body].filter (fun statement => !statement.token.isExtra) <+ [body] :=
        List.filter_sublist
      simpa using (hsublist.flatMap (headers source)).subperm

theorem conditional_subperm {condition : ParseTree} {first second : String}
    (hcondition : tree.field? "condition" = some condition)
    (hnodup : ["condition", first, second].Nodup) :
    (Shape.conditional condition ((tree.field? first).map clause)
        ((tree.field? second).map clause)).parts.flatMap (headers source) <+~
      tree.children.flatMap (headers source) := by
  have hfields := @fields_subperm source tree _ hnodup
  rw [List.flatMap_cons, List.flatMap_cons, List.flatMap_singleton, fieldHeaders_eq hcondition]
    at hfields
  refine List.Subperm.trans ?_ hfields
  rw [Shape.parts, List.flatMap_cons, List.flatMap_append]
  exact (List.Subperm.refl _).append ((clause_subperm first).append (clause_subperm second))

theorem modifier_subperm {body condition : ParseTree} (hbody : tree.field? "body" = some body)
    (hcondition : tree.field? "condition" = some condition) :
    [condition, body].flatMap (headers source) <+~ tree.children.flatMap (headers source) := by
  have hfields := @fields_subperm source tree ["condition", "body"] (by decide)
  rw [List.flatMap_cons, List.flatMap_singleton, fieldHeaders_eq hcondition,
    fieldHeaders_eq hbody] at hfields
  rwa [List.flatMap_cons, List.flatMap_singleton]

/-- The parts of a node are different nodes below it. -/
theorem parts_subperm (source : Bytes) (tree : ParseTree) :
    tree.shape.parts.flatMap (headers source) <+~ tree.children.flatMap (headers source) := by
  have hshape := tree.hasShape_shape
  generalize tree.shape = shape at hshape
  cases hshape with
  | program | other => exact content_subperm
  | ivar => exact List.nil_subperm
  | method => exact methodStatements_subperm
  | ivarAssign =>
    have hfields := @fields_subperm source tree ["right"] (by decide)
    rwa [List.flatMap_singleton] at hfields
  | orAssign _ _ hleft =>
    have hfields := @fields_subperm source tree ["left", "right"] (by decide)
    rw [List.flatMap_cons, List.flatMap_singleton, fieldHeaders_eq hleft] at hfields
    exact hfields
  | ifBlock _ hcondition => exact conditional_subperm hcondition (by decide)
  | unlessBlock _ hcondition => exact conditional_subperm hcondition (by decide)
  | ifModifier _ hbody hcondition => exact modifier_subperm hbody hcondition
  | unlessModifier _ hbody hcondition => exact modifier_subperm hbody hcondition
  | definedCheck =>
    have hfields := @fields_subperm source tree ["operand"] (by decide)
    rw [List.flatMap_singleton] at hfields
    exact definedOperand_subperm.trans hfields
  | returns => exact returnValues_subperm.trans content_subperm

end ParseTree

theorem headers_lower_subperm (source : Bytes) (tree : ParseTree) :
    (lower source tree).headers <+~ tree.headers source := by
  induction tree using ParseTree.shapeInduction with
  | step tree ih =>
    rw [headers_lower, ParseTree.headers_eq]
    refine (List.Subperm.refl _).append ?_
    exact (flatMap_subperm_flatMap ih).trans (ParseTree.parts_subperm source tree)

/-! ## The shape that a grammar gives to nodes -/

namespace ParseTree

/-- The fields of a node that is read by its fields and not by its content: an assignment to an
instance variable, an or-assignment, a conditional and a check. -/
def readFields? (tree : ParseTree) : Option (List String) :=
  match tree.kind with
  | "assignment" =>
    if (tree.field? "left").any (·.kind == "instance_variable") then some ["left", "right"]
    else none
  | "operator_assignment" =>
    if (tree.field? "left").isSome && tree.hasOperator "||=" then some ["left", "right"] else none
  | "if" | "unless" | "elsif" =>
    if (tree.field? "condition").isSome then some ["condition", "consequence", "alternative"]
    else none
  | "if_modifier" | "unless_modifier" =>
    if (tree.field? "body").isSome && (tree.field? "condition").isSome then
      some ["condition", "body"]
    else none
  | "unary" => if tree.hasOperator "defined?" then some ["operand"] else none
  | _ => none

/-- What a grammar sees to at one node. -/
@[mk_iff]
structure LocalShape (tree : ParseTree) : Prop where
  /-- There is no definition at or below punctuation, an extra or an instance variable. -/
  bare : tree.isContent = false ∨ tree.kind = "instance_variable" → tree.methodCount = 0
  /-- There is none in the name, the parameters and the object of a method, nor in anything of the
  same kind and the same bytes. -/
  signature : tree.isMethod = true → ∀ child ∈ tree.children,
    tree.signature.any (·.token.sameAs child.token) = true → child.methodCount = 0
  /-- If a method has a body, the definitions below the method are in the body. -/
  body : tree.isMethod = true → ∀ body, tree.field? "body" = some body →
    tree.methodCount = body.methodCount + 1
  /-- What is read by its fields has nothing else in it. -/
  fields : ∀ names, tree.readFields? = some names → tree.content <+~ names.filterMap tree.field?
  /-- A clause of a conditional is not itself a definition. -/
  clauses : ∀ name ∈ ["consequence", "alternative"], ["if", "unless", "elsif"].contains tree.kind →
    ∀ clause, tree.field? name = some clause → clause.isMethod = false

/-- A tree as a grammar makes it. -/
def HasGrammarShape (tree : ParseTree) : Prop := ∀ node ∈ tree.descendants, node.LocalShape

mutual

/-- Trees are equal if their tokens and their children are. -/
def decEq : (a b : ParseTree) → Decidable (a = b)
  | .node token children, .node token' children' =>
    if htoken : token = token' then
      match decEqList children children' with
      | isTrue h => isTrue (by rw [htoken, h])
      | isFalse h => isFalse fun heq => h (node.inj heq).2
    else isFalse fun heq => htoken (node.inj heq).1

def decEqList : (a b : List ParseTree) → Decidable (a = b)
  | [], [] => isTrue rfl
  | [], _ :: _ | _ :: _, [] => isFalse (by simp)
  | tree :: trees, tree' :: trees' =>
    match decEq tree tree', decEqList trees trees' with
    | isTrue h, isTrue h' => isTrue (by rw [h, h'])
    | isFalse h, _ => isFalse fun heq => h (List.cons.inj heq).1
    | _, isFalse h => isFalse fun heq => h (List.cons.inj heq).2

end

instance : DecidableEq ParseTree := decEq

instance (tree : ParseTree) : Decidable tree.LocalShape :=
  decidable_of_iff _ (localShape_iff tree).symm

instance (tree : ParseTree) : Decidable tree.HasGrammarShape :=
  inferInstanceAs (Decidable (∀ node ∈ tree.descendants, node.LocalShape))

/-- The number of definitions at or below several nodes. -/
def methodTotal (nodes : List ParseTree) : Nat := (nodes.flatMap descendants).countP isMethod

section

variable {tree : ParseTree}

theorem methodCount_eq (tree : ParseTree) :
    tree.methodCount = methodTotal tree.children + if tree.isMethod then 1 else 0 := by
  rw [methodCount, descendants_eq, List.countP_cons, methodTotal]

theorem HasGrammarShape.localShape (h : tree.HasGrammarShape) : tree.LocalShape :=
  h tree (by rw [descendants_eq]; exact List.mem_cons_self)

theorem HasGrammarShape.child {child : ParseTree} (h : tree.HasGrammarShape)
    (hchild : child ∈ tree.children) : child.HasGrammarShape := by
  intro node hnode
  refine h node ?_
  rw [descendants_eq]
  exact List.mem_cons_of_mem _ (List.mem_flatMap.2 ⟨child, hchild, hnode⟩)

theorem HasGrammarShape.field {name : String} {child : ParseTree} (h : tree.HasGrammarShape)
    (hfield : tree.field? name = some child) : child.HasGrammarShape :=
  h.child (List.mem_of_find?_eq_some hfield)

@[simp] theorem methodTotal_nil : methodTotal [] = 0 := rfl

@[simp] theorem methodTotal_cons (node : ParseTree) (nodes : List ParseTree) :
    methodTotal (node :: nodes) = node.methodCount + methodTotal nodes := by
  rw [methodTotal, List.flatMap_cons, List.countP_append, methodCount, methodTotal]

@[simp] theorem methodTotal_append (nodes more : List ParseTree) :
    methodTotal (nodes ++ more) = methodTotal nodes + methodTotal more := by
  rw [methodTotal, List.flatMap_append, List.countP_append, methodTotal, methodTotal]

theorem methodTotal_le_of_subperm {nodes more : List ParseTree} (h : nodes <+~ more) :
    methodTotal nodes ≤ methodTotal more :=
  (subperm_flatMap_right h descendants).countP_le isMethod

/-- Nodes without definitions may be left out. -/
theorem methodTotal_filter {p : ParseTree → Bool} {nodes : List ParseTree}
    (h : ∀ node ∈ nodes, p node = false → node.methodCount = 0) :
    methodTotal (nodes.filter p) = methodTotal nodes := by
  induction nodes with
  | nil => rfl
  | cons node nodes ih =>
    rw [List.forall_mem_cons] at h
    cases hp : p node with
    | true => rw [List.filter_cons_of_pos hp, methodTotal_cons, methodTotal_cons, ih h.2]
    | false =>
      rw [List.filter_cons_of_neg (by simp [hp]), methodTotal_cons, ih h.2, h.1 hp, Nat.zero_add]

/-! ## No definition is lost -/

/-- The parts stand for the nodes: they have as many definitions in them, and the shape of the
grammar. -/
structure StandsFor (parts nodes : List ParseTree) : Prop where
  shaped : ∀ part ∈ parts, part.HasGrammarShape
  total : methodTotal parts = methodTotal nodes

theorem StandsFor.refl {nodes : List ParseTree} (h : ∀ node ∈ nodes, node.HasGrammarShape) :
    StandsFor nodes nodes := ⟨h, rfl⟩

theorem StandsFor.trans {parts nodes nodes' : List ParseTree} (h : StandsFor parts nodes)
    (htotal : methodTotal nodes = methodTotal nodes') : StandsFor parts nodes' :=
  ⟨h.shaped, h.total.trans htotal⟩

theorem StandsFor.perm {parts parts' nodes : List ParseTree} (h : StandsFor parts nodes)
    (hperm : parts'.Perm parts) : StandsFor parts' nodes where
  shaped part hpart := h.shaped part (hperm.mem_iff.1 hpart)
  total := ((hperm.flatMap_right descendants).countP_eq isMethod).trans h.total

theorem StandsFor.append {parts nodes parts' nodes' : List ParseTree} (h : StandsFor parts nodes)
    (h' : StandsFor parts' nodes') : StandsFor (parts ++ parts') (nodes ++ nodes') where
  shaped part hpart := (List.mem_append.1 hpart).elim (h.shaped part) (h'.shaped part)
  total := by rw [methodTotal_append, methodTotal_append, h.total, h'.total]

theorem StandsFor.flatMap {nodes : List ParseTree} {parts : ParseTree → List ParseTree}
    (h : ∀ node ∈ nodes, StandsFor (parts node) [node]) :
    StandsFor (nodes.flatMap parts) nodes := by
  induction nodes with
  | nil => exact .refl (by simp)
  | cons node nodes ih =>
    rw [List.forall_mem_cons] at h
    exact h.1.append (ih h.2)

theorem standsFor_content (h : tree.HasGrammarShape) : StandsFor tree.content tree.children where
  shaped node hnode := h.child (List.mem_filter.1 hnode).1
  total := by
    refine methodTotal_filter fun child hchild hcontent => ?_
    exact (h.child hchild).localShape.bare (.inl hcontent)

/-- The content of a node that is no definition stands for the node. -/
theorem standsFor_content_of_not_method (h : tree.HasGrammarShape)
    (hmethod : tree.isMethod = false) :
    StandsFor tree.content [tree] := by
  refine (standsFor_content h).trans ?_
  rw [methodTotal_cons, methodTotal_nil, methodCount_eq, hmethod]
  rfl

theorem standsFor_fields {names : List String} (h : tree.HasGrammarShape) (hnodup : names.Nodup)
    (hread : tree.readFields? = some names) :
    StandsFor (names.filterMap tree.field?) tree.children where
  shaped node hnode := by
    obtain ⟨name, -, hfield⟩ := List.mem_filterMap.1 hnode
    exact h.field hfield
  total := by
    have hchildren := methodTotal_le_of_subperm (tree.filterMap_field?_subperm hnodup)
    have hcontent := methodTotal_le_of_subperm (h.localShape.fields names hread)
    rw [(standsFor_content h).total] at hcontent
    exact Nat.le_antisymm hchildren hcontent

theorem standsFor_clause {name : String} (h : tree.HasGrammarShape)
    (hclause : ∀ clause, tree.field? name = some clause → clause.isMethod = false) :
    StandsFor (Shape.clauseParts ((tree.field? name).map clause)) (tree.field? name).toList := by
  cases hfield : tree.field? name with
  | none => exact .refl (by simp [Shape.clauseParts])
  | some child =>
    rw [Option.map_some, Shape.clauseParts, Option.toList_some, List.flatMap_singleton, clause]
    split
    · exact .refl (by simpa [Clause.parts] using h.field hfield)
    · exact standsFor_content_of_not_method (h.field hfield) (hclause child hfield)

theorem standsFor_definedOperand (h : tree.HasGrammarShape) :
    StandsFor tree.definedOperand.toList (tree.field? "operand").toList := by
  unfold definedOperand
  cases hfield : tree.field? "operand" with
  | none => exact .refl (by simp)
  | some operand =>
    have hoperand := h.field hfield
    have hitself : StandsFor [operand] [operand] := .refl (by simpa using hoperand)
    rw [Option.map_some, Option.toList_some, Option.toList_some]
    split
    · rename_i hkind
      split
      · rename_i inner hcontent
        rw [← hcontent]
        exact standsFor_content_of_not_method hoperand (isMethod_eq_false hkind rfl)
      · exact hitself
    · exact hitself

theorem standsFor_returnValues (h : tree.HasGrammarShape) :
    StandsFor tree.returnValues tree.content := by
  refine StandsFor.flatMap fun child hchild => ?_
  have hshape : child.HasGrammarShape := (standsFor_content h).shaped child hchild
  split
  · rename_i hkind
    exact standsFor_content_of_not_method hshape (isMethod_eq_false hkind rfl)
  · exact .refl (by simpa using hshape)

theorem standsFor_methodStatements (h : tree.HasGrammarShape) (hmethod : tree.isMethod = true) :
    StandsFor tree.methodStatements tree.children := by
  have hcontent := standsFor_content h
  unfold methodStatements
  split
  · -- Without a body only the signature is left out.
    refine ⟨fun node hnode => hcontent.shaped node (List.mem_filter.1 hnode).1, ?_⟩
    rw [← hcontent.total]
    refine methodTotal_filter fun child hchild hsame => ?_
    exact h.localShape.signature hmethod child (List.mem_filter.1 hchild).1 (by simpa using hsame)
  · -- With one everything but the body is left out.
    rename_i body hbody
    have hshape := h.field hbody
    have hcount : methodTotal tree.children = methodTotal [body] := by
      have hall := h.localShape.body hmethod body hbody
      rw [methodCount_eq, if_pos hmethod] at hall
      rw [methodTotal_cons, methodTotal_nil]
      omega
    refine StandsFor.trans ?_ hcount.symm
    split
    · rename_i hkind
      exact standsFor_content_of_not_method hshape (isMethod_eq_false hkind rfl)
    · refine ⟨fun node hnode => ?_, methodTotal_filter fun node hnode hextra => ?_⟩
      · obtain rfl : node = body := by simpa using (List.mem_filter.1 hnode).1
        exact hshape
      · obtain rfl : node = body := by simpa using hnode
        refine hshape.localShape.bare (.inl ?_)
        rw [isContent, hextra, Bool.and_false]

theorem standsFor_conditional {condition : ParseTree} (h : tree.HasGrammarShape)
    (hkind : tree.kind = "if" ∨ tree.kind = "unless" ∨ tree.kind = "elsif")
    (hcondition : tree.field? "condition" = some condition) :
    StandsFor (condition :: (Shape.clauseParts ((tree.field? "consequence").map clause) ++
      Shape.clauseParts ((tree.field? "alternative").map clause))) tree.children := by
  have hcontains : ["if", "unless", "elsif"].contains tree.kind = true := by simpa using hkind
  have hread : tree.readFields? = some ["condition", "consequence", "alternative"] := by
    unfold readFields?
    rcases hkind with hkind | hkind | hkind <;> simp [hkind, hcondition]
  have hfields := standsFor_fields h (by decide) hread
  have hself : StandsFor [condition] [condition] := .refl (by simpa using h.field hcondition)
  have hthen := standsFor_clause h (h.localShape.clauses "consequence" (by simp) hcontains)
  have helse := standsFor_clause h (h.localShape.clauses "alternative" (by simp) hcontains)
  refine (hself.append (hthen.append helse)).trans ?_
  rw [← hfields.total, List.filterMap_eq_flatMap_toList]
  simp [hcondition]

theorem standsFor_modifier {body condition : ParseTree} (h : tree.HasGrammarShape)
    (hkind : tree.kind = "if_modifier" ∨ tree.kind = "unless_modifier")
    (hbody : tree.field? "body" = some body)
    (hcondition : tree.field? "condition" = some condition) :
    StandsFor [condition, body] tree.children := by
  have hread : tree.readFields? = some ["condition", "body"] := by
    unfold readFields?
    rcases hkind with hkind | hkind <;> simp [hkind, hbody, hcondition]
  have hfields := standsFor_fields h (by decide) hread
  rwa [List.filterMap_cons_some hcondition, List.filterMap_cons_some hbody] at hfields

/-- In a tree of the grammar the parts of a node stand for its children. -/
theorem standsFor_parts (h : tree.HasGrammarShape) : StandsFor tree.shape.parts tree.children := by
  have hshape := tree.hasShape_shape
  generalize tree.shape = shape at hshape
  cases hshape with
  | program | other => exact standsFor_content h
  | method hkind => exact standsFor_methodStatements h hkind
  | ivar hkind =>
    have hnone := h.localShape.bare (.inr hkind)
    rw [methodCount_eq] at hnone
    refine ⟨by simp [Shape.parts], ?_⟩
    rw [Shape.parts, methodTotal_nil]
    omega
  | ivarAssign hkind hleft hivar =>
    -- The variable is dropped, and there is no definition in it.
    have hread : tree.readFields? = some ["left", "right"] := by
      simp [readFields?, hkind, hleft, hivar]
    have hfields := standsFor_fields h (by decide) hread
    have hnone := (h.field hleft).localShape.bare (.inr hivar)
    rw [List.filterMap_cons_some hleft, List.filterMap_eq_flatMap_toList, List.flatMap_singleton]
      at hfields
    refine ⟨fun part hpart => hfields.shaped part (List.mem_cons_of_mem _ hpart), ?_⟩
    rw [← hfields.total, methodTotal_cons, hnone, Nat.zero_add]
    rfl
  | orAssign hkind hoperator hleft =>
    have hread : tree.readFields? = some ["left", "right"] := by
      simp [readFields?, hkind, hleft, hoperator]
    have hfields := standsFor_fields h (by decide) hread
    rwa [List.filterMap_cons_some hleft, List.filterMap_eq_flatMap_toList, List.flatMap_singleton]
      at hfields
  | ifBlock hkind hcondition =>
    have hkinds : tree.kind = "if" ∨ tree.kind = "unless" ∨ tree.kind = "elsif" := by tauto
    exact standsFor_conditional h hkinds hcondition
  | unlessBlock hkind hcondition =>
    refine (standsFor_conditional h (.inr (.inl hkind)) hcondition).perm ?_
    exact List.perm_append_comm.cons _
  | ifModifier hkind hbody hcondition => exact standsFor_modifier h (.inl hkind) hbody hcondition
  | unlessModifier hkind hbody hcondition =>
    exact standsFor_modifier h (.inr hkind) hbody hcondition
  | definedCheck hkind hoperator =>
    have hread : tree.readFields? = some ["operand"] := by simp [readFields?, hkind, hoperator]
    have hfields := standsFor_fields h (by decide) hread
    rw [List.filterMap_eq_flatMap_toList, List.flatMap_singleton] at hfields
    exact (standsFor_definedOperand h).trans hfields.total
  | returns => exact (standsFor_returnValues h).trans (standsFor_content h).total

end

end ParseTree

theorem length_flatMap_eq_methodTotal {nodes : List ParseTree} {f : ParseTree → List Header}
    (h : ∀ node ∈ nodes, (f node).length = node.methodCount) :
    (nodes.flatMap f).length = ParseTree.methodTotal nodes := by
  induction nodes with
  | nil => rfl
  | cons node nodes ih =>
    rw [List.forall_mem_cons] at h
    rw [List.flatMap_cons, List.length_append, h.1, ih h.2, ParseTree.methodTotal_cons]

/-- In a tree of the grammar every definition is lowered. -/
theorem length_headers_lower (source : Bytes) {tree : ParseTree} (h : tree.HasGrammarShape) :
    (lower source tree).headers.length = tree.methodCount := by
  induction tree using ParseTree.shapeInduction with
  | step tree ih =>
    have hparts := ParseTree.standsFor_parts h
    have hlowered : ∀ part ∈ tree.shape.parts,
        (lower source part).headers.length = part.methodCount := by
      intro part hpart
      exact ih part hpart (hparts.shaped part hpart)
    have hown : (tree.header? source).toList.length = if tree.isMethod then 1 else 0 := by
      unfold ParseTree.header?
      split <;> rfl
    rw [headers_lower, List.length_append, length_flatMap_eq_methodTotal hlowered, hown,
      ParseTree.methodCount_eq, ← hparts.total, Nat.add_comm]

/-- **Lowering neither duplicates nor loses definitions.**  The headers in the program of a file
are, each as often as it is there, among those of the nodes of the tree, so that there are at most
as many definitions; and if the tree has the shape of the grammar, they are the same headers and the
same number. -/
theorem lowerFile_headers (source : Bytes) (root : ParseTree) :
    (lowerFile source root).headers <+~ root.headers source ∧
      (lowerFile source root).headers.length ≤ root.methodCount ∧
      (root.HasGrammarShape →
        (lowerFile source root).headers ~ root.headers source ∧
          (lowerFile source root).headers.length = root.methodCount) := by
  rw [lowerFile, Expr.headers_asProgram]
  have hsubperm := headers_lower_subperm source root
  refine ⟨hsubperm, ?_, fun hshape => ?_⟩
  · rw [← ParseTree.length_headers source]
    exact hsubperm.length_le
  · have hlength := length_headers_lower source hshape
    have hheaders := ParseTree.length_headers source root
    exact ⟨hsubperm.perm_of_length_le (Nat.le_of_eq (hheaders.trans hlength.symm)), hlength⟩

def nestedSource : Bytes := Text.Utf8.encode "def a; @b ||= def c; end; end"

/-- The tree of `nestedSource`, where one definition is the value in an or-assignment of another. -/
def nestedTree : ParseTree :=
  inlineNode "program" 0 29 none [
    inlineNode "method" 0 29 none [
      inlineNode "identifier" 4 5 (some "name") [],
      inlineNode "body_statement" 7 25 (some "body") [
        inlineNode "operator_assignment" 7 24 none [
          inlineNode "instance_variable" 7 9 (some "left") [],
          inlineNode "||=" 10 13 (some "operator") [] false,
          inlineNode "method" 14 24 (some "right") [
            inlineNode "identifier" 18 19 (some "name") []]]]]]

theorem lowerFile_nestedTree :
    nestedTree.HasGrammarShape ∧
      (lowerFile nestedSource nestedTree).headers ~
        [⟨inlineSpan 0 29, "a", false⟩, ⟨inlineSpan 14 24, "c", false⟩] ∧
      (lowerFile nestedSource nestedTree).headers.length = 2 := by
  have hshape : nestedTree.HasGrammarShape := by decide +kernel
  have hheaders : nestedTree.headers nestedSource =
      [⟨inlineSpan 0 29, "a", false⟩, ⟨inlineSpan 14 24, "c", false⟩] := by
    decide +kernel
  have hcount : nestedTree.methodCount = 2 := by decide +kernel
  have h := (lowerFile_headers nestedSource nestedTree).2.2 hshape
  rw [hheaders, hcount] at h
  exact ⟨hshape, h⟩

end MemoAudit
