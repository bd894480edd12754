import MemoAudit.Expr.Walk
import MemoAudit.Proofs.Shapes
import Mathlib.Data.List.Basic

/-!
# Which statements run

A conditional can be written in six ways, and lowering reads all of them as one.  That nothing is
lost in this means that the same statements run, whatever conditions hold.  This file says what that
is on both sides and proves that the two sides agree.

What statements do, as long as it is open which conditions hold, is a *flow*: a list of steps, each
of which runs one statement or makes a choice between two further flows (`Flow`).  The flow of a
parse tree is read off the surface forms (`ParseTree.flow`), and the flow of an expression off
conditionals and sequences (`Expr.flow`).  They are defined apart from each other, and neither looks
at shapes.

A condition is known by the place of its choice in a flow, so that equal conditions at different
places may differ in whether they hold.  When every place is given a truth value, a flow becomes the
list of statements that run (`Flow.traceAll`).

The flow of a lowered tree is the flow of the tree with its statements and conditions lowered
(`flow_lower`), and so the traces agree under all truth values (`trace_lower`).
-/

namespace MemoAudit

/-! ## Flows -/

/-- A step of what statements do. -/
inductive Flow (α : Type) where
  /-- A statement that is no conditional runs. -/
  | run (statement : α)
  /-- A condition decides how to go on. -/
  | choice (condition : α) (whenTrue whenFalse : List (Flow α))

namespace Flow

variable {α β : Type}

mutual

/-- The step with its statements and conditions replaced. -/
def map (f : α → β) : Flow α → Flow β
  | .run statement => .run (f statement)
  | .choice condition whenTrue whenFalse =>
    .choice (f condition) (mapAll f whenTrue) (mapAll f whenFalse)

/-- The steps with their statements and conditions replaced. -/
def mapAll (f : α → β) : List (Flow α) → List (Flow β)
  | [] => []
  | step :: rest => step.map f :: mapAll f rest

end

mutual

/-- The statements that run in a step.  The truth value of its own condition stands at the empty
place, those further down stand below 0 if it holds and below 1 if it does not. -/
def trace (truth : Address → Bool) : Flow α → List α
  | .run statement => [statement]
  | .choice _ whenTrue whenFalse =>
    if truth [] then traceAll (fun place => truth (0 :: place)) 0 whenTrue
    else traceAll (fun place => truth (1 :: place)) 0 whenFalse

/-- The statements that run in steps, which stand at the places from a position on. -/
def traceAll (truth : Address → Bool) (position : Nat) : List (Flow α) → List α
  | [] => []
  | step :: rest =>
    step.trace (fun place => truth (position :: place)) ++ traceAll truth (position + 1) rest

end

theorem mapAll_append (f : α → β) (steps more : List (Flow α)) :
    mapAll f (steps ++ more) = mapAll f steps ++ mapAll f more := by
  induction steps with
  | nil => rfl
  | cons step rest ih => rw [List.cons_append, mapAll, mapAll, ih, List.cons_append]

/-- Steps that belong together stay together. -/
theorem mapAll_flatMap {γ : Type} (f : α → β) (g : γ → List (Flow α)) (items : List γ) :
    mapAll f (items.flatMap g) = items.flatMap fun item => mapAll f (g item) := by
  induction items with
  | nil => rfl
  | cons item rest ih => rw [List.flatMap_cons, List.flatMap_cons, mapAll_append, ih]

mutual

theorem trace_map (f : α → β) (truth : Address → Bool) :
    (step : Flow α) → (step.map f).trace truth = (step.trace truth).map f
  | .run statement => rfl
  | .choice condition whenTrue whenFalse => by
    rw [map, trace, trace]
    by_cases htruth : truth [] = true
    · rw [if_pos htruth, if_pos htruth, traceAll_mapAll]
    · rw [if_neg htruth, if_neg htruth, traceAll_mapAll]

/-- Which statements run does not depend on what they are. -/
theorem traceAll_mapAll (f : α → β) (truth : Address → Bool) (position : Nat) :
    (steps : List (Flow α)) →
      traceAll truth position (mapAll f steps) = (traceAll truth position steps).map f
  | [] => rfl
  | step :: rest => by
    rw [mapAll, traceAll, traceAll, trace_map, traceAll_mapAll, List.map_append]

end

end Flow

/-! ## The flow of a parse tree -/

namespace ParseTree

mutual

/-- What a statement does.  Nothing but a conditional with all that it needs makes a choice: an `if`
or `elsif` goes on with its consequence if its condition holds and with its alternative otherwise,
an `unless` the other way round, and a modifier goes on with its body or not at all. -/
def flow (tree : ParseTree) : List (Flow ParseTree) :=
  match tree.kind, tree.field? "condition" with
  | "if", some condition | "elsif", some condition =>
    [.choice condition (tree.clauseFlow "consequence") (tree.clauseFlow "alternative")]
  | "unless", some condition =>
    [.choice condition (tree.clauseFlow "alternative") (tree.clauseFlow "consequence")]
  | "if_modifier", some condition =>
    match h : tree.field? "body" with
    | some body =>
      have := sizeOf_lt_of_field? h
      [.choice condition body.flow []]
    | none => [.run tree]
  | "unless_modifier", some condition =>
    match h : tree.field? "body" with
    | some body =>
      have := sizeOf_lt_of_field? h
      [.choice condition [] body.flow]
    | none => [.run tree]
  | _, _ => [.run tree]
termination_by (sizeOf tree, 1)

/-- What a clause of a conditional does.  A clause that is a conditional itself does what that does,
another one what its contents do, one after the other, and one that is missing does nothing. -/
def clauseFlow (tree : ParseTree) (name : String) : List (Flow ParseTree) :=
  match h : tree.field? name with
  | none => []
  | some clause =>
    have := sizeOf_lt_of_field? h
    if clause.kind = "elsif" then clause.flow
    else clause.content.attach.flatMap fun ⟨statement, hstatement⟩ =>
      have := sizeOf_lt_of_mem_content hstatement
      statement.flow
termination_by (sizeOf tree, 0)

end

/-- The steps of a branch that a shape gives: as it stands, or statement by statement. -/
def branchFlow : Option (Clause ParseTree) → List (Flow ParseTree)
  | none => []
  | some (.direct part) => part.flow
  | some (.block parts) => parts.flatMap flow

theorem clauseFlow_eq (tree : ParseTree) (name : String) :
    tree.clauseFlow name = branchFlow ((tree.field? name).map clause) := by
  rw [clauseFlow]
  split
  · rename_i hnone
    rw [hnone]
    rfl
  · rename_i child hchild
    simp only [hchild, Option.map_some, clause]
    by_cases hkind : child.kind = "elsif"
    · rw [if_pos hkind, if_pos hkind]
      rfl
    · rw [if_neg hkind, if_neg hkind]
      simp only [List.flatMap_subtype, List.unattach_attach]
      rfl

/-- The steps that a shape stands for; one that is no conditional runs as it is. -/
def shapeFlow (tree : ParseTree) : Shape ParseTree → List (Flow ParseTree)
  | .conditional condition thenClause elseClause =>
    [.choice condition (branchFlow thenClause) (branchFlow elseClause)]
  | _ => [.run tree]

/-- Reading the shape of a node does not change what it does. -/
theorem flow_eq_shapeFlow (tree : ParseTree) : tree.flow = shapeFlow tree tree.shape := by
  rw [flow]
  split
  · rename_i hkind hcondition
    rw [shape_eq (.ifBlock (.inl hkind) hcondition) (by simp), clauseFlow_eq, clauseFlow_eq]
    rfl
  · rename_i hkind hcondition
    rw [shape_eq (.ifBlock (.inr hkind) hcondition) (by simp), clauseFlow_eq, clauseFlow_eq]
    rfl
  · rename_i hkind hcondition
    rw [shape_eq (.unlessBlock hkind hcondition) (by simp), clauseFlow_eq, clauseFlow_eq]
    rfl
  · rename_i hkind hcondition
    split
    · rename_i body hbody
      rw [shape_eq (.ifModifier hkind hbody hcondition) (by simp)]
      rfl
    · rename_i hbody
      rw [shape, hkind]
      simp [modifierConditional, hbody, shapeFlow]
  · rename_i hkind hcondition
    split
    · rename_i body hbody
      rw [shape_eq (.unlessModifier hkind hbody hcondition) (by simp)]
      rfl
    · rename_i hbody
      rw [shape, hkind]
      simp [modifierConditional, hbody, shapeFlow]
  · rename_i hif helsif hunless hifModifier hunlessModifier
    -- A node that gets the shape of a conditional has been dealt with above.
    generalize hshape : tree.shape = shape
    have hhas := tree.hasShape_shape
    rw [hshape] at hhas
    cases hhas with
    | ifBlock hkind hcondition =>
      rcases hkind with hkind | hkind
      · exact (hif _ hkind hcondition).elim
      · exact (helsif _ hkind hcondition).elim
    | unlessBlock hkind hcondition => exact (hunless _ hkind hcondition).elim
    | ifModifier hkind _ hcondition => exact (hifModifier _ hkind hcondition).elim
    | unlessModifier hkind _ hcondition => exact (hunlessModifier _ hkind hcondition).elim
    | _ => rfl

end ParseTree

/-! ## The flow of an expression -/

namespace Expr

mutual

/-- What an expression does as a statement: a conditional makes a choice between its branches, a
sequence does what its statements do, and everything else runs. -/
def flow : Expr → List (Flow Expr)
  | .conditional (some condition) thenBranch elseBranch _ =>
    [.choice condition (branchFlow thenBranch) (branchFlow elseBranch)]
  | .sequence statements _ => statementsFlow statements
  | e => [.run e]

/-- What a branch does; without one nothing is done. -/
def branchFlow : Option Expr → List (Flow Expr)
  | none => []
  | some e => e.flow

/-- What statements do, one after the other. -/
def statementsFlow : List Expr → List (Flow Expr)
  | [] => []
  | e :: rest => e.flow ++ statementsFlow rest

end

theorem statementsFlow_eq_flatMap (statements : List Expr) :
    statementsFlow statements = statements.flatMap flow := by
  induction statements with
  | nil => rfl
  | cons e rest ih => rw [statementsFlow, ih, List.flatMap_cons]

/-- Statements do the same after they have been put together. -/
theorem branchFlow_collapse (statements : List Expr) :
    branchFlow (collapse statements) = statements.flatMap flow := by
  match statements with
  | [] => rfl
  | [e] => simp [collapse, branchFlow]
  | first :: second :: rest =>
    rw [collapse, branchFlow, flow, statementsFlow_eq_flatMap]

end Expr

/-- A branch does the same after it has been lowered, if its parts do. -/
theorem branchFlow_lower (source : Bytes) (clause : Option (Clause ParseTree))
    (h : ∀ part ∈ Shape.clauseParts clause,
      (lower source part).flow = Flow.mapAll (lower source) part.flow) :
    Expr.branchFlow ((clause.map (·.map (lower source))).bind Clause.body) =
      Flow.mapAll (lower source) (ParseTree.branchFlow clause) := by
  match clause with
  | none => rfl
  | some (.direct part) =>
    exact h part (by simp [Shape.clauseParts, Clause.parts])
  | some (.block parts) =>
    show Expr.branchFlow (Expr.collapse (parts.map (lower source))) = _
    rw [Expr.branchFlow_collapse, ParseTree.branchFlow, Flow.mapAll_flatMap, List.flatMap_map]
    refine List.flatMap_congr fun part hpart => ?_
    exact h part (by simpa [Shape.clauseParts, Clause.parts] using hpart)

/-- **The flow of a lowered tree is the lowered flow.** -/
theorem flow_lower (source : Bytes) (tree : ParseTree) :
    (lower source tree).flow = Flow.mapAll (lower source) tree.flow := by
  induction tree using ParseTree.shapeInduction with
  | step tree ih =>
    have hlower := lower_eq source tree
    rw [ParseTree.flow_eq_shapeFlow]
    generalize tree.shape = shape at ih hlower
    cases shape with
    | conditional condition thenClause elseClause =>
      rw [Shape.parts, List.forall_mem_cons, List.forall_mem_append] at ih
      rw [hlower, ParseTree.shapeFlow, Shape.map, assemble, Expr.flow,
        branchFlow_lower source thenClause ih.2.1, branchFlow_lower source elseClause ih.2.2]
      rfl
    | _ =>
      -- The expression is neither a conditional nor a sequence, so it runs as the node does.
      show (lower source tree).flow = [.run (lower source tree)]
      rw [hlower]
      rfl

/-- **Lowering preserves which statements run.**  A parse tree and the expression that it is lowered
to make the same choices at the same places, between the same flows and on the same conditions, up
to lowering.  So whichever of the conditions hold, the same statements run in the same order, up to
lowering.  This is about conditionals in all their forms, nested in one another to any depth,
wherever they stand in a file. -/
theorem trace_lower (source : Bytes) (tree : ParseTree) :
    (lower source tree).flow = Flow.mapAll (lower source) tree.flow ∧
      ∀ truth : Address → Bool,
        Flow.traceAll truth 0 (lower source tree).flow =
          (Flow.traceAll truth 0 tree.flow).map (lower source) := by
  refine ⟨flow_lower source tree, fun truth => ?_⟩
  rw [flow_lower, Flow.traceAll_mapAll]

end MemoAudit
