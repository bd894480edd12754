import MemoAudit.ParseTree.Basic

/-!
# The shape of a node

Many constructs of the grammar come in several surface forms: a conditional in block and modifier
form, with `if` and with `unless`; a method with and without `end`; a `return` with its values
listed or wrapped.  `ParseTree.shape` reads one node, without looking at what its parts mean, as one
of nine shapes in which these differences are gone.

A shape is a container of *parts*, the nodes below that have a meaning of their own, and it carries
tokens where only their text counts.  `Shape` is a functor in its parts: whatever is done to a tree
node by node commutes with reading shapes, which is how lowering is defined and reasoned about.
-/

namespace MemoAudit

/-- A branch of a conditional: an expression as it stands, or the statements of a block. -/
inductive Clause (α : Type) where
  | direct (part : α)
  | block (parts : List α)
  deriving Repr

namespace Clause

variable {α β : Type}

def parts : Clause α → List α
  | .direct part => [part]
  | .block parts => parts

def map (f : α → β) : Clause α → Clause β
  | .direct part => .direct (f part)
  | .block parts => .block (parts.map f)

/-- The map of a function that is only defined where `P` holds. -/
def pmap {P : α → Prop} (f : (a : α) → P a → β) :
    (clause : Clause α) → (∀ a ∈ clause.parts, P a) → Clause β
  | .direct part, h => .direct (f part (h part (List.mem_singleton.2 rfl)))
  | .block parts, h => .block (parts.pmap f h)

theorem pmap_eq_map {P : α → Prop} (f : α → β) (clause : Clause α)
    (h : ∀ a ∈ clause.parts, P a) : clause.pmap (fun a _ => f a) h = clause.map f := by
  cases clause with
  | direct part => rfl
  | block parts => exact congrArg block (List.pmap_eq_map h)

end Clause

/-- What a node is, with the nodes that it is made of as parts. -/
inductive Shape (α : Type) where
  | program (statements : List α)
  | method (name : Option Token) (statements : List α) (singleton : Bool)
  | ivar
  | ivarAssign (name : Token) (value : Option α)
  | orAssign (target : α) (value : Option α)
  | conditional (condition : α) (thenClause elseClause : Option (Clause α))
  | definedCheck (argument : Option α)
  | returns (values : List α)
  | other (children : List α)
  deriving Repr

namespace Shape

variable {α β : Type}

/-- The parts of an optional clause. -/
def clauseParts (clause : Option (Clause α)) : List α := clause.toList.flatMap Clause.parts

/-- The parts, in no particular order. -/
def parts : Shape α → List α
  | .program statements => statements
  | .method _ statements _ => statements
  | .ivar => []
  | .ivarAssign _ value => value.toList
  | .orAssign target value => target :: value.toList
  | .conditional condition thenClause elseClause =>
    condition :: (clauseParts thenClause ++ clauseParts elseClause)
  | .definedCheck argument => argument.toList
  | .returns values => values
  | .other children => children

def map (f : α → β) : Shape α → Shape β
  | .program statements => .program (statements.map f)
  | .method name statements singleton => .method name (statements.map f) singleton
  | .ivar => .ivar
  | .ivarAssign name value => .ivarAssign name (value.map f)
  | .orAssign target value => .orAssign (f target) (value.map f)
  | .conditional condition thenClause elseClause =>
    .conditional (f condition) (thenClause.map (·.map f)) (elseClause.map (·.map f))
  | .definedCheck argument => .definedCheck (argument.map f)
  | .returns values => .returns (values.map f)
  | .other children => .other (children.map f)

theorem mem_clauseParts {clause : Option (Clause α)} {c : Clause α} {a : α} (hc : c ∈ clause)
    (ha : a ∈ c.parts) : a ∈ clauseParts clause :=
  List.mem_flatMap.2 ⟨c, by simpa using hc, ha⟩

/-- The map of a function that is only defined where `P` holds. -/
def pmap {P : α → Prop} (f : (a : α) → P a → β) :
    (shape : Shape α) → (∀ a ∈ shape.parts, P a) → Shape β
  | .program statements, h => .program (statements.pmap f h)
  | .method name statements singleton, h => .method name (statements.pmap f h) singleton
  | .ivar, _ => .ivar
  | .ivarAssign name value, h =>
    .ivarAssign name (value.pmap f fun a ha => h a (by simpa [parts] using ha))
  | .orAssign target value, h =>
    .orAssign (f target (h target (by simp [parts])))
      (value.pmap f fun a ha => h a (by simpa [parts] using Or.inr ha))
  | .conditional condition thenClause elseClause, h =>
    .conditional (f condition (h condition (by simp [parts])))
      (thenClause.pmap (fun c hc => c.pmap f hc) fun c hc a ha =>
        h a (by simp [parts, mem_clauseParts hc ha]))
      (elseClause.pmap (fun c hc => c.pmap f hc) fun c hc a ha =>
        h a (by simp [parts, mem_clauseParts hc ha]))
  | .definedCheck argument, h =>
    .definedCheck (argument.pmap f fun a ha => h a (by simpa [parts] using ha))
  | .returns values, h => .returns (values.pmap f h)
  | .other children, h => .other (children.pmap f h)

theorem pmap_clause_eq_map {P : α → Prop} (f : α → β) (clause : Option (Clause α))
    (h : ∀ c ∈ clause, ∀ a ∈ c.parts, P a) :
    clause.pmap (fun c hc => c.pmap (fun a _ => f a) hc) h = clause.map (·.map f) := by
  cases clause with
  | none => rfl
  | some c => simp [Clause.pmap_eq_map]

theorem pmap_eq_map {P : α → Prop} (f : α → β) (shape : Shape α)
    (h : ∀ a ∈ shape.parts, P a) : shape.pmap (fun a _ => f a) h = shape.map f := by
  cases shape with
  | program statements => exact congrArg program (List.pmap_eq_map h)
  | method name statements singleton =>
    exact congrArg (method name · singleton) (List.pmap_eq_map h)
  | ivar => rfl
  | ivarAssign name value => simp [pmap, map]
  | orAssign target value => simp [pmap, map]
  | conditional condition thenClause elseClause => simp [pmap, map, pmap_clause_eq_map]
  | definedCheck argument => simp [pmap, map]
  | returns values => exact congrArg returns (List.pmap_eq_map h)
  | other children => exact congrArg other (List.pmap_eq_map h)

end Shape

/-! ## Reading a shape -/

namespace ParseTree

/-- The operator of a node: the field of that name, or else the first child that is not named. -/
def operator? (tree : ParseTree) : Option ParseTree :=
  (tree.field? "operator").or (tree.children.find? fun child => !child.token.named)

/-- Whether a node has an operator of the given kind. -/
def hasOperator (tree : ParseTree) (kind : String) : Bool :=
  tree.operator?.any fun operator => operator.kind == kind

/-- The children of a method that are not its statements even if it has no body of its own. -/
def signature (tree : ParseTree) : List ParseTree :=
  ["name", "parameters", "object"].filterMap tree.field?

/-- The statements of a method.  They stand in the body if there is one: below it if it is a list of
statements, and as the body itself otherwise.  A method without a body holds them directly, next to
its signature. -/
def methodStatements (tree : ParseTree) : List ParseTree :=
  match tree.field? "body" with
  | none => tree.content.filter fun child => !tree.signature.any (·.token.sameAs child.token)
  | some body =>
    if body.kind = "body_statement" then body.content
    else [body].filter fun statement => !statement.token.isExtra

/-- A branch of a conditional.  One that is a conditional itself, as `elsif` is, stands for
itself. -/
def clause (tree : ParseTree) : Clause ParseTree :=
  if tree.kind = "elsif" then .direct tree else .block tree.content

/-- A conditional in block form; with no condition it is nothing in particular. -/
def blockConditional (tree : ParseTree) : Shape ParseTree :=
  match tree.field? "condition" with
  | none => .other tree.content
  | some condition =>
    let consequence := (tree.field? "consequence").map clause
    let alternative := (tree.field? "alternative").map clause
    if tree.kind = "unless" then .conditional condition alternative consequence
    else .conditional condition consequence alternative

/-- A conditional in modifier form, which has to have both its body and its condition. -/
def modifierConditional (tree : ParseTree) : Shape ParseTree :=
  match tree.field? "body", tree.field? "condition" with
  | some body, some condition =>
    if tree.kind = "if_modifier" then .conditional condition (some (.direct body)) none
    else .conditional condition none (some (.direct body))
  | _, _ => .other tree.content

/-- What `defined?` asks about; parentheses around a single thing do not count. -/
def definedOperand (tree : ParseTree) : Option ParseTree :=
  (tree.field? "operand").map fun operand =>
    if operand.kind = "parenthesized_statements" then
      match operand.content with
      | [inner] => inner
      | _ => operand
    else operand

/-- The values that a `return` gives back, whether or not they are wrapped in a list. -/
def returnValues (tree : ParseTree) : List ParseTree :=
  tree.content.flatMap fun child =>
    if child.kind = "argument_list" then child.content else [child]

/-- An assignment, if it is to an instance variable. -/
def assignment (tree : ParseTree) : Shape ParseTree :=
  match tree.field? "left" with
  | none => .other tree.content
  | some left =>
    if left.kind = "instance_variable" then .ivarAssign left.token (tree.field? "right")
    else .other tree.content

/-- An assignment by an operator, if the operator is `||=`. -/
def operatorAssignment (tree : ParseTree) : Shape ParseTree :=
  match tree.field? "left" with
  | none => .other tree.content
  | some left =>
    if tree.hasOperator "||=" then .orAssign left (tree.field? "right") else .other tree.content

/-- What a node is, judging by its kind, its fields and its operator. -/
def shape (tree : ParseTree) : Shape ParseTree :=
  match tree.kind with
  | "program" => .program tree.content
  | "method" => .method ((tree.field? "name").map token) tree.methodStatements false
  | "singleton_method" => .method ((tree.field? "name").map token) tree.methodStatements true
  | "instance_variable" => .ivar
  | "assignment" => tree.assignment
  | "operator_assignment" => tree.operatorAssignment
  | "if" | "unless" | "elsif" => tree.blockConditional
  | "if_modifier" | "unless_modifier" => tree.modifierConditional
  | "unary" =>
    if tree.hasOperator "defined?" then .definedCheck tree.definedOperand else .other tree.content
  | "return" => .returns tree.returnValues
  | _ => .other tree.content

/-! ## Parts are smaller -/

theorem sizeOf_lt_of_field? {tree child : ParseTree} {name : String}
    (h : tree.field? name = some child) : sizeOf child < sizeOf tree :=
  sizeOf_lt_of_mem_children (List.mem_of_find?_eq_some h)

theorem sizeOf_lt_of_mem_content {tree child : ParseTree} (h : child ∈ tree.content) :
    sizeOf child < sizeOf tree :=
  sizeOf_lt_of_mem_children (List.mem_filter.1 h).1

theorem sizeOf_lt_of_mem_methodStatements {tree statement : ParseTree}
    (h : statement ∈ tree.methodStatements) : sizeOf statement < sizeOf tree := by
  unfold methodStatements at h
  split at h
  · exact sizeOf_lt_of_mem_content (List.mem_filter.1 h).1
  · rename_i body hbody
    have below := sizeOf_lt_of_field? hbody
    split at h
    · exact Nat.lt_trans (sizeOf_lt_of_mem_content h) below
    · obtain rfl : statement = body := by simpa using (List.mem_filter.1 h).1
      exact below

theorem sizeOf_lt_of_mem_clause {tree part : ParseTree} (h : part ∈ tree.clause.parts) :
    sizeOf part < sizeOf tree + 1 := by
  unfold clause at h
  split at h
  · obtain rfl : part = tree := by simpa [Clause.parts] using h
    omega
  · have := sizeOf_lt_of_mem_content h
    omega

theorem sizeOf_lt_of_mem_fieldClause {tree part : ParseTree} {name : String}
    (h : part ∈ Shape.clauseParts ((tree.field? name).map clause)) : sizeOf part < sizeOf tree := by
  cases hf : tree.field? name with
  | none => simp [Shape.clauseParts, hf] at h
  | some child =>
    have below := sizeOf_lt_of_field? hf
    have : part ∈ child.clause.parts := by simpa [Shape.clauseParts, hf] using h
    have := sizeOf_lt_of_mem_clause this
    omega

theorem sizeOf_lt_of_definedOperand {tree operand : ParseTree}
    (h : tree.definedOperand = some operand) : sizeOf operand < sizeOf tree := by
  obtain ⟨field, hfield, rfl⟩ := Option.map_eq_some_iff.1 h
  have below := sizeOf_lt_of_field? hfield
  split
  · split
    · rename_i inner hinner
      exact Nat.lt_trans (sizeOf_lt_of_mem_content (hinner ▸ List.mem_singleton.2 rfl)) below
    · exact below
  · exact below

theorem sizeOf_lt_of_mem_returnValues {tree value : ParseTree} (h : value ∈ tree.returnValues) :
    sizeOf value < sizeOf tree := by
  obtain ⟨child, hchild, hvalue⟩ := List.mem_flatMap.1 h
  have below := sizeOf_lt_of_mem_content hchild
  split at hvalue
  · exact Nat.lt_trans (sizeOf_lt_of_mem_content hvalue) below
  · obtain rfl : value = child := by simpa using hvalue
    exact below

theorem sizeOf_lt_of_mem_shape {tree part : ParseTree} (h : part ∈ tree.shape.parts) :
    sizeOf part < sizeOf tree := by
  have ofContent : part ∈ tree.content → sizeOf part < sizeOf tree := sizeOf_lt_of_mem_content
  have ofField {name : String} : part ∈ (tree.field? name).toList → sizeOf part < sizeOf tree :=
    fun h => sizeOf_lt_of_field? (by simpa using h)
  unfold shape at h
  split at h
  · exact ofContent h
  · exact sizeOf_lt_of_mem_methodStatements h
  · exact sizeOf_lt_of_mem_methodStatements h
  · simp [Shape.parts] at h
  · unfold assignment at h
    split at h
    · exact ofContent h
    · split at h
      · exact ofField h
      · exact ofContent h
  · unfold operatorAssignment at h
    split at h
    · exact ofContent h
    · rename_i left hleft
      split at h
      · rcases List.mem_cons.1 h with rfl | h
        · exact sizeOf_lt_of_field? hleft
        · exact ofField h
      · exact ofContent h
  iterate 3
    · unfold blockConditional at h
      split at h
      · exact ofContent h
      · rename_i condition hcondition
        dsimp only at h
        split at h <;> rcases List.mem_cons.1 h with rfl | h
        · exact sizeOf_lt_of_field? hcondition
        · rcases List.mem_append.1 h with h | h <;> exact sizeOf_lt_of_mem_fieldClause h
        · exact sizeOf_lt_of_field? hcondition
        · rcases List.mem_append.1 h with h | h <;> exact sizeOf_lt_of_mem_fieldClause h
  iterate 2
    · unfold modifierConditional at h
      split at h
      · rename_i body condition hbody hcondition
        have hpart : part = condition ∨ part = body := by
          split at h <;> simpa [Shape.parts, Shape.clauseParts, Clause.parts] using h
        rcases hpart with rfl | rfl
        · exact sizeOf_lt_of_field? hcondition
        · exact sizeOf_lt_of_field? hbody
      · exact ofContent h
  · split at h
    · exact sizeOf_lt_of_definedOperand (by simpa [Shape.parts] using h)
    · exact ofContent h
  · exact sizeOf_lt_of_mem_returnValues h
  · exact ofContent h

end ParseTree

end MemoAudit
