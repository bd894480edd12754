import MemoAudit.Rule
import MemoAudit.Proofs.Morphisms
import MemoAudit.Proofs.Recognition
import Mathlib.Logic.Relation

/-!
# Extras are invisible

A comment can stand below any node: among the statements of a method, between a `return` and its
value, inside the parentheses of `defined?`, in a clause of a conditional.  Each of these places is
read in a way of its own, and in each of them one more child could turn a single statement into a
list, or be taken for the last one.

`ParseTree.Inserts` puts one extra somewhere below a tree, and the trees that arise from a tree by
any number of such steps are compared with it.  The comparison goes through a normal form:
`ParseTree.pruned` drops every extra of the kind that can be inserted, so an insertion does not
change it (`ParseTree.Inserts.pruned_eq`).  Pruning is a morphism, since an extra without a field is
never read (`ParseTree.isMorphism_pruned`), and so lowering does not notice it (`lower_pruned`).
-/

namespace MemoAudit

namespace ParseTree

/-- An extra that can stand anywhere: it is named and fills no field. -/
def isLoose (tree : ParseTree) : Bool :=
  tree.token.named && tree.token.isExtra && tree.token.field.isNone

/-- The second tree is the first with one loose extra more, somewhere below its root and with
anything below itself. -/
inductive Inserts : ParseTree → ParseTree → Prop
  | here (token : Token) (before after : List ParseTree) (extra : ParseTree)
      (loose : extra.isLoose = true) :
      Inserts (.node token (before ++ after)) (.node token (before ++ extra :: after))
  | deeper (token : Token) (before after : List ParseTree) {child child' : ParseTree}
      (step : Inserts child child') :
      Inserts (.node token (before ++ child :: after)) (.node token (before ++ child' :: after))

/-! ## Trees without loose extras -/

/-- The tree without the loose extras below its root. -/
def pruned (tree : ParseTree) : ParseTree :=
  .node tree.token ((tree.children.filter (!·.isLoose)).attach.map fun child => pruned child.1)
  termination_by sizeOf tree
  decreasing_by exact sizeOf_lt_of_mem_children (List.mem_filter.1 child.2).1

theorem pruned_eq (tree : ParseTree) :
    tree.pruned = .node tree.token ((tree.children.filter (!·.isLoose)).map pruned) := by
  rw [pruned]
  simp only [List.map_subtype, List.unattach_attach]

@[simp] theorem token_pruned (tree : ParseTree) : tree.pruned.token = tree.token := by
  rw [pruned_eq, token]

theorem children_pruned (tree : ParseTree) :
    tree.pruned.children = (tree.children.filter (!·.isLoose)).map pruned := by
  rw [pruned_eq, children]

/-- A search that passes over loose extras finds the same in the pruned tree. -/
theorem find?_children_pruned (tree : ParseTree) (p : Token → Bool)
    (hp : ∀ child : ParseTree, p child.token = true → child.isLoose = false) :
    tree.pruned.children.find? (fun child => p child.token) =
      (tree.children.find? fun child => p child.token).map pruned := by
  rw [children_pruned, List.find?_map, List.find?_filter]
  congr 2
  funext child
  cases hfound : p child.token with
  | false => simp [hfound]
  | true => simp [hfound, hp child hfound]

theorem field?_pruned (tree : ParseTree) (name : String) :
    tree.pruned.field? name = (tree.field? name).map pruned := by
  refine tree.find?_children_pruned (·.field == some name) fun child hfield => ?_
  have hsome : child.token.field = some name := by simpa using hfield
  simp [isLoose, hsome]

theorem operator?_pruned (tree : ParseTree) :
    tree.pruned.operator? = tree.operator?.map pruned := by
  have hunnamed : tree.pruned.children.find? (fun child => !child.token.named) =
      (tree.children.find? fun child => !child.token.named).map pruned := by
    refine tree.find?_children_pruned (!·.named) fun child hunnamed => ?_
    have hnamed : child.token.named = false := by simpa using hunnamed
    simp [isLoose, hnamed]
  rw [operator?, operator?, field?_pruned, hunnamed]
  cases tree.field? "operator" <;> rfl

theorem content_pruned (tree : ParseTree) : tree.pruned.content = tree.content.map pruned := by
  rw [content, content, children_pruned, List.filter_map, List.filter_filter]
  congr 1
  refine List.filter_congr fun child _ => ?_
  show (child.pruned.isContent && !child.isLoose) = child.isContent
  rw [isContent, isContent, token_pruned, isLoose]
  cases child.token.named <;> cases child.token.isExtra <;> rfl

/-- Nothing that shapes are read from is pruned. -/
theorem isMorphism_pruned : IsMorphism id pruned where
  token_eq := token_pruned
  kind_eq _ := rfl
  sameAs_eq _ _ := rfl
  field?_eq := field?_pruned
  operator?_eq := operator?_pruned
  content_eq := content_pruned

/-! ## Insertions -/

variable {tree tree' : ParseTree}

theorem Inserts.token_eq (h : Inserts tree tree') : tree'.token = tree.token := by
  cases h <;> rfl

theorem Inserts.isLoose_eq (h : Inserts tree tree') : tree'.isLoose = tree.isLoose := by
  rw [isLoose, isLoose, h.token_eq]

/-- What is inserted is pruned again. -/
theorem Inserts.pruned_eq (h : Inserts tree tree') : tree'.pruned = tree.pruned := by
  induction h with
  | here token before after extra loose =>
    rw [ParseTree.pruned_eq, ParseTree.pruned_eq]
    simp [children, ParseTree.token, loose]
  | deeper token before after step ih =>
    rename_i child child'
    rw [ParseTree.pruned_eq, ParseTree.pruned_eq]
    cases hloose : child.isLoose with
    | true => simp [children, ParseTree.token, step.isLoose_eq, hloose]
    | false => simp [children, ParseTree.token, step.isLoose_eq, hloose, ih]

theorem pruned_eq_of_insertions (h : Relation.ReflTransGen Inserts tree tree') :
    tree'.pruned = tree.pruned := by
  induction h with
  | refl => rfl
  | tail _ step ih => exact step.pruned_eq.trans ih

end ParseTree

/-! ## Lowering -/

/-- A pruned tree is lowered to the same expression. -/
theorem lower_pruned (source : Bytes) (tree : ParseTree) :
    lower source tree.pruned = lower source tree := by
  induction tree using ParseTree.shapeInduction with
  | step tree ih =>
    rw [lower_eq, lower_eq source tree, ParseTree.isMorphism_pruned.shape_eq, Shape.relabel_id,
      Shape.map_map, ParseTree.token_pruned]
    exact congrArg (assemble source tree.token) (Shape.map_congr ih)

theorem lowerFile_eq_of_pruned_eq {source : Bytes} {tree tree' : ParseTree}
    (h : tree'.pruned = tree.pruned) : lowerFile source tree' = lowerFile source tree := by
  have hlower : lower source tree' = lower source tree := by
    rw [← lower_pruned source tree', h, lower_pruned]
  rw [lowerFile, lowerFile, hlower]

/-- **Extras are invisible.**  However many loose extras are inserted below a tree, and wherever
they are inserted, the program of the file stays the same, and a run of the rule gives the same
findings and even the same log. -/
theorem lowerFile_insertions (source : Bytes) {tree tree' : ParseTree}
    (h : Relation.ReflTransGen ParseTree.Inserts tree tree') :
    lowerFile source tree' = lowerFile source tree ∧
      ∀ (style : Style) (path : Path) (hasErrors hasErrors' : Bool),
        (namingRule style).run { path, source, tree := tree', hasErrors := hasErrors' } =
          (namingRule style).run { path, source, tree, hasErrors } := by
  have hprogram : lowerFile source tree' = lowerFile source tree :=
    lowerFile_eq_of_pruned_eq (ParseTree.pruned_eq_of_insertions h)
  refine ⟨hprogram, ?_⟩
  intro style path hasErrors hasErrors'
  show checkNames style ⟨path, source⟩ (lowerFile source tree') =
    checkNames style ⟨path, source⟩ (lowerFile source tree)
  rw [hprogram]

/-- A comment with the variable in it, as a tree may hold it. -/
def commentNode : ParseTree :=
  inlineNode "comment" 29 31 none [inlineNode "instance_variable" 29 31 none []]

/-- The guarded method with a comment in the parentheses of the check and one after the last
statement, and a here-document before the body. -/
def commentedMethod : ParseTree :=
  inlineNode "method" 0 45 none [
    inlineNode "identifier" 4 5 (some "name") [],
    inlineNode "heredoc_body" 5 6 none [],
    inlineNode "body_statement" 7 41 (some "body") [
      inlineNode "if_modifier" 7 32 none [
        inlineNode "return" 7 16 (some "body") [
          inlineNode "argument_list" 14 16 none [inlineNode "instance_variable" 14 16 none []]],
        inlineNode "unary" 20 32 (some "condition") [
          inlineNode "defined?" 20 28 (some "operator") [] false,
          inlineNode "parenthesized_statements" 28 32 (some "operand") [
            commentNode, inlineNode "instance_variable" 29 31 none []]]],
      inlineNode "assignment" 34 40 none [
        inlineNode "instance_variable" 34 36 (some "left") [],
        inlineNode "integer" 39 40 (some "right") []],
      commentNode]]

theorem lowerFile_commentedMethod :
    Relation.ReflTransGen ParseTree.Inserts guardedMethod commentedMethod ∧
      lowerFile guardedSource commentedMethod = lowerFile guardedSource guardedMethod := by
  have hinsertions : Relation.ReflTransGen ParseTree.Inserts guardedMethod commentedMethod := by
    -- From the inside outwards: in the parentheses, at the end of the body, and before the body.
    refine .head (.deeper _ [_] [] (.deeper _ [] [_] (.deeper _ [_] [] (.deeper _ [_] []
      (.here _ [] [_] commentNode rfl))))) ?_
    refine .head (.deeper _ [_] [] (.here _ [_, _] [] commentNode rfl)) ?_
    exact .single (.here _ [_] [_] _ rfl)
  exact ⟨hinsertions, (lowerFile_insertions guardedSource hinsertions).1⟩

end MemoAudit
