import MemoAudit.Proofs.Memoization
import MemoAudit.Proofs.Shapes

/-!
# Recognising the idioms in parse trees

An idiom in a source goes a long way before it is recognised: the statements of the method are
collected, single ones are taken out of their lists, branches are put into the order of an `if`,
parentheses and argument lists are dropped, and only then does a matcher look at the result.  This
file says where the way starts.  `ParseTree.OrAssigns` and `ParseTree.Guards` describe the two
idioms in terms of the nodes of the grammar, in all their surface forms, and `lower_carries_iff`
states that a lowered method carries a candidate exactly if the statements of its node have that
form.

`Occurrence.Carries` is what carrying means: wherever the definition stands and whatever is around
it, some visit below it matches, for this very definition.
-/

namespace MemoAudit

/-! ## The idioms in the grammar -/

namespace ParseTree

section

variable (source : Bytes) (tree : ParseTree) (mention : Mention)

/-- `@name` -/
def IsIvar : Prop :=
  tree.kind = "instance_variable" ∧ mention = ⟨tree.token.text source, tree.token.span⟩

/-- `@name ||= value` -/
def OrAssigns : Prop :=
  tree.kind = "operator_assignment" ∧ tree.hasOperator "||=" = true ∧
    ∃ left, tree.field? "left" = some left ∧ left.IsIvar source mention

/-- `@name = value` -/
def Assigns : Prop :=
  tree.kind = "assignment" ∧ ∃ left, tree.field? "left" = some left ∧ left.IsIvar source mention

/-- `return @name`, with or without an argument list around the variable. -/
def Returns : Prop :=
  tree.kind = "return" ∧ ∃ value, tree.returnValues = [value] ∧ value.IsIvar source mention

/-- `defined? @name` or `defined?(@name)` -/
def Checks : Prop :=
  tree.kind = "unary" ∧ tree.hasOperator "defined?" = true ∧
    ∃ operand, tree.field? "operand" = some operand ∧
      (operand.IsIvar source mention ∨
        operand.kind = "parenthesized_statements" ∧
          ∃ inner, operand.content = [inner] ∧ inner.IsIvar source mention)

end

/-- A clause that is there and holds a single statement. -/
def HoldsOnly (tree : ParseTree) (field : String) (statement : ParseTree) : Prop :=
  ∃ clause, tree.field? field = some clause ∧ clause.kind ≠ "elsif" ∧ clause.content = [statement]

/-- A clause that is missing or holds no statement. -/
def HoldsNothing (tree : ParseTree) (field : String) : Prop :=
  ∀ clause, tree.field? field = some clause → clause.kind ≠ "elsif" ∧ clause.content = []

/-- A conditional that does one thing if its condition holds, and nothing otherwise. -/
inductive Guards (tree condition exit : ParseTree) : Prop
  /-- `exit if condition` -/
  | ifModifier (hkind : tree.kind = "if_modifier") (hbody : tree.field? "body" = some exit)
      (hcondition : tree.field? "condition" = some condition)
  /-- `if condition then exit end` -/
  | ifBlock (hkind : tree.kind = "if" ∨ tree.kind = "elsif")
      (hcondition : tree.field? "condition" = some condition)
      (hexit : tree.HoldsOnly "consequence" exit) (helse : tree.HoldsNothing "alternative")
  /-- `unless condition else exit end` -/
  | unlessBlock (hkind : tree.kind = "unless")
      (hcondition : tree.field? "condition" = some condition)
      (hexit : tree.HoldsOnly "alternative" exit) (helse : tree.HoldsNothing "consequence")

/-- The last statement of the method is an or-assignment to the variable. -/
def EndsWithOrAssign (source : Bytes) (tree : ParseTree) (mention : Mention) : Prop :=
  ∃ last, tree.methodStatements.getLast? = some last ∧ last.OrAssigns source mention

/-- The method has two or more statements: a guard that returns the variable if it is defined, then
some that do not assign it, and an assignment to it. -/
def StartsWithGuard (source : Bytes) (tree : ParseTree) (ivar : String)
    (checked returned assigned : Mention) : Prop :=
  ∃ first middle last condition exit,
    tree.methodStatements = first :: (middle ++ [last]) ∧ first.Guards condition exit ∧
    condition.Checks source checked ∧ exit.Returns source returned ∧ last.Assigns source assigned ∧
    checked.name = ivar ∧ returned.name = ivar ∧ assigned.name = ivar ∧
    ∀ statement ∈ middle, ∀ mention, statement.Assigns source mention → mention.name ≠ ivar

end ParseTree

/-! ## Lowering the pieces -/

section

variable {source : Bytes} {tree : ParseTree} {mention : Mention}

theorem returned_eq_ivar_iff {values : List Expr} {name : String} {span : Span} :
    returned values = some (.ivar name span) ↔ values = [.ivar name span] := by
  unfold returned
  split <;> simp

theorem collapse_eq_some_iff {statements : List Expr} {e : Expr}
    (h : ∀ inner span, e ≠ .sequence inner span) :
    Expr.collapse statements = some e ↔ statements = [e] := by
  unfold Expr.collapse
  split
  · simp
  · simp
  · simp [(h _ _).symm]

theorem collapse_eq_none_iff {statements : List Expr} :
    Expr.collapse statements = none ↔ statements = [] := by
  unfold Expr.collapse
  split <;> simp

namespace ParseTree

theorem isIvar_iff :
    tree.IsIvar source mention ↔ lower source tree = .ivar mention.name mention.span := by
  rw [lower_eq_ivar_iff, IsIvar, Mention.mk.injEq]

theorem orAssigns_iff :
    tree.OrAssigns source mention ↔ ∃ value whole,
      lower source tree = .orAssign (some (.ivar mention.name mention.span)) value whole := by
  simp only [OrAssigns, isIvar_iff, lower_eq_orAssign_iff, Option.some.injEq]
  constructor
  · rintro ⟨hkind, hoperator, left, hleft, hivar⟩
    exact ⟨_, _, hkind, hoperator, left, hleft, hivar.symm, rfl, rfl⟩
  · rintro ⟨_, _, hkind, hoperator, left, hleft, hivar, -, -⟩
    exact ⟨hkind, hoperator, left, hleft, hivar.symm⟩

theorem assigns_iff :
    tree.Assigns source mention ↔ ∃ value whole,
      lower source tree = .ivarAssign mention.name value whole mention.span := by
  simp only [Assigns, IsIvar, lower_eq_ivarAssign_iff]
  constructor
  · rintro ⟨hkind, left, hleft, hivar, rfl⟩
    exact ⟨_, _, hkind, left, hleft, hivar, rfl, rfl, rfl, rfl⟩
  · rintro ⟨_, _, hkind, left, hleft, hivar, hname, -, -, hspan⟩
    exact ⟨hkind, left, hleft, hivar, by rw [← hname, ← hspan]⟩

theorem returns_iff :
    tree.Returns source mention ↔ ∃ whole,
      lower source tree = .returns (some (.ivar mention.name mention.span)) whole := by
  simp only [Returns, isIvar_iff, lower_eq_returns_iff]
  constructor
  · rintro ⟨hkind, value, hvalues, hivar⟩
    refine ⟨_, hkind, ?_, rfl⟩
    rw [hvalues, List.map_singleton, hivar]
    rfl
  · rintro ⟨_, hkind, hvalue, -⟩
    rw [eq_comm, returned_eq_ivar_iff] at hvalue
    obtain ⟨value, hvalues, hivar⟩ := List.map_eq_singleton_iff.1 hvalue
    exact ⟨hkind, value, hvalues, hivar⟩

/-- Parentheses around the variable do not count, and any others are no variable. -/
theorem definedOperand_iff :
    (∃ operand, tree.definedOperand = some operand ∧ operand.IsIvar source mention) ↔
      ∃ operand, tree.field? "operand" = some operand ∧
        (operand.IsIvar source mention ∨
          operand.kind = "parenthesized_statements" ∧
            ∃ inner, operand.content = [inner] ∧ inner.IsIvar source mention) := by
  cases hfield : tree.field? "operand" with
  | none => simp [definedOperand, hfield]
  | some operand =>
    by_cases hkind : operand.kind = "parenthesized_statements"
    · have hivar : ¬ operand.IsIvar source mention := by simp [IsIvar, hkind]
      match hcontent : operand.content with
      | [inner] => simp [definedOperand, hfield, hkind, hcontent, hivar]
      | [] => simp [definedOperand, hfield, hkind, hcontent, hivar]
      | _ :: _ :: _ => simp [definedOperand, hfield, hkind, hcontent, hivar]
    · simp [definedOperand, hfield, hkind]

theorem checks_iff :
    tree.Checks source mention ↔ ∃ whole,
      lower source tree = .definedCheck (some (.ivar mention.name mention.span)) whole := by
  rw [Checks, ← definedOperand_iff]
  simp only [lower_eq_definedCheck_iff, isIvar_iff]
  constructor
  · rintro ⟨hkind, hoperator, operand, hoperand, hivar⟩
    refine ⟨_, hkind, hoperator, ?_, rfl⟩
    rw [hoperand, Option.map_some, hivar]
  · rintro ⟨_, hkind, hoperator, hargument, -⟩
    obtain ⟨operand, hoperand, hivar⟩ := Option.map_eq_some_iff.1 hargument.symm
    exact ⟨hkind, hoperator, operand, hoperand, hivar⟩

end ParseTree

end

/-! ## Lowering a guard -/

section

variable {source : Bytes} {tree : ParseTree}

theorem loweredBranch_eq_returns_iff {field : String} {value : Option Expr} {span : Span} :
    loweredBranch source ((tree.field? field).map ParseTree.clause) = some (.returns value span) ↔
      ∃ exit, tree.HoldsOnly field exit ∧ lower source exit = .returns value span := by
  unfold loweredBranch ParseTree.HoldsOnly
  cases hfield : tree.field? field with
  | none => simp
  | some clause =>
    by_cases hkind : clause.kind = "elsif"
    · have hlower : lower source clause ≠ .returns value span := by
        rw [Ne, lower_eq_returns_iff, hkind]
        simp
      simp [ParseTree.clause, hkind, Clause.map, Clause.body, hlower]
    · simp [ParseTree.clause, hkind, Clause.map, Clause.body, collapse_eq_some_iff]

theorem loweredBranch_eq_none_iff {field : String} :
    loweredBranch source ((tree.field? field).map ParseTree.clause) = none ↔
      tree.HoldsNothing field := by
  unfold loweredBranch ParseTree.HoldsNothing
  cases hfield : tree.field? field with
  | none => simp
  | some clause =>
    by_cases hkind : clause.kind = "elsif"
    · simp [ParseTree.clause, hkind, Clause.map, Clause.body]
    · simp [ParseTree.clause, hkind, Clause.map, Clause.body, collapse_eq_none_iff]

theorem lower_eq_guard_iff {condition : Expr} {value : Option Expr} {span : Span} :
    (∃ whole, lower source tree =
        .conditional (some condition) (some (.returns value span)) none whole) ↔
      ∃ test exit, tree.Guards test exit ∧ lower source test = condition ∧
        lower source exit = .returns value span := by
  simp only [lower_eq_conditional_iff, Option.some.injEq]
  constructor
  · rintro ⟨_, test, thenClause, elseClause, hshape, rfl, hthen, helse, -⟩
    cases hshape with
    | ifBlock hkind hcondition =>
      obtain ⟨exit, hexit, hreturns⟩ := loweredBranch_eq_returns_iff.1 hthen.symm
      have hnothing := loweredBranch_eq_none_iff.1 helse.symm
      exact ⟨test, exit, .ifBlock hkind hcondition hexit hnothing, rfl, hreturns⟩
    | unlessBlock hkind hcondition =>
      obtain ⟨exit, hexit, hreturns⟩ := loweredBranch_eq_returns_iff.1 hthen.symm
      have hnothing := loweredBranch_eq_none_iff.1 helse.symm
      exact ⟨test, exit, .unlessBlock hkind hcondition hexit hnothing, rfl, hreturns⟩
    | ifModifier hkind hbody hcondition =>
      exact ⟨test, _, .ifModifier hkind hbody hcondition, rfl, (Option.some.inj hthen).symm⟩
    | unlessModifier => cases hthen
  · rintro ⟨test, exit, hguards, rfl, hexit⟩
    cases hguards with
    | ifModifier hkind hbody hcondition =>
      exact ⟨_, test, _, _, .ifModifier hkind hbody hcondition, rfl, by rw [← hexit]; rfl, rfl, rfl⟩
    | ifBlock hkind hcondition hthen helse =>
      exact ⟨_, test, _, _, .ifBlock hkind hcondition, rfl,
        (loweredBranch_eq_returns_iff.2 ⟨exit, hthen, hexit⟩).symm,
        (loweredBranch_eq_none_iff.2 helse).symm, rfl⟩
    | unlessBlock hkind hcondition hthen helse =>
      exact ⟨_, test, _, _, .unlessBlock hkind hcondition, rfl,
        (loweredBranch_eq_returns_iff.2 ⟨exit, hthen, hexit⟩).symm,
        (loweredBranch_eq_none_iff.2 helse).symm, rfl⟩

end

/-! ## Lowering a body -/

section

variable {source : Bytes} {nodes : List ParseTree}

/-- Collapsing a list of lowered statements loses none of them. -/
theorem statementsOf_collapse :
    Expr.statementsOf (Expr.collapse (nodes.map (lower source))) = nodes.map (lower source) := by
  match nodes with
  | [] => rfl
  | [node] =>
    have hsequence (statements : List Expr) (span : Span) :
        lower source node ≠ .sequence statements span := lower_ne_sequence
    rw [List.map_singleton, Expr.collapse]
    cases hlower : lower source node with
    | sequence statements span => exact absurd hlower (hsequence statements span)
    | _ => rfl
  | _ :: _ :: _ => rfl

theorem collapse_eq_sequence {statements : List Expr} {span : Span}
    (h : Expr.collapse (nodes.map (lower source)) = some (.sequence statements span)) :
    nodes.map (lower source) = statements := by
  rw [← statementsOf_collapse, h, Expr.statementsOf]

theorem exists_collapse (first last : Expr) (middle : List Expr) :
    ∃ whole, Expr.collapse (first :: (middle ++ [last])) =
      some (.sequence (first :: (middle ++ [last])) whole) := by
  cases middle with
  | nil => exact ⟨_, rfl⟩
  | cons second middle => exact ⟨_, rfl⟩

theorem memoizes_orAssign_iff {mention : Mention} :
    Memoizes (Expr.collapse (nodes.map (lower source))) (.orAssign mention) ↔
      ∃ last, nodes.getLast? = some last ∧ last.OrAssigns source mention := by
  simp only [ParseTree.orAssigns_iff]
  constructor
  · intro h
    generalize hbody : Expr.collapse (nodes.map (lower source)) = body at h
    cases h with
    | orAssign hlast =>
      rw [← hbody, statementsOf_collapse, List.getLast?_map, Option.map_eq_some_iff] at hlast
      obtain ⟨last, hlast, hlower⟩ := hlast
      exact ⟨last, hlast, _, _, hlower⟩
  · rintro ⟨last, hlast, value, whole, hlower⟩
    have hstatement : (Expr.statementsOf (Expr.collapse (nodes.map (lower source)))).getLast? =
        some (.orAssign (some (.ivar mention.name mention.span)) value whole) := by
      rw [statementsOf_collapse, List.getLast?_map, hlast, Option.map_some, hlower]
    exact .orAssign hstatement

theorem memoizes_definedGuard_iff {ivar : String} {checked returned assigned : Mention} :
    Memoizes (Expr.collapse (nodes.map (lower source)))
        (.definedGuard ivar checked returned assigned) ↔
      ∃ first middle last condition exit,
        nodes = first :: (middle ++ [last]) ∧ first.Guards condition exit ∧
        condition.Checks source checked ∧ exit.Returns source returned ∧
        last.Assigns source assigned ∧
        checked.name = ivar ∧ returned.name = ivar ∧ assigned.name = ivar ∧
        ∀ statement ∈ middle, ∀ mention,
          statement.Assigns source mention → mention.name ≠ ivar := by
  constructor
  · intro h
    generalize hbody : Expr.collapse (nodes.map (lower source)) = body at h
    cases h with
    | definedGuard once =>
      obtain ⟨first, nodes', rfl, hfirst, hrest⟩ :=
        List.map_eq_cons_iff.1 (collapse_eq_sequence hbody)
      obtain ⟨middle, lasts, rfl, hmiddle, hlasts⟩ := List.map_eq_append_iff.1 hrest
      obtain ⟨last, rfl, hlast⟩ := List.map_eq_singleton_iff.1 hlasts
      obtain ⟨condition, exit, hguards, hcondition, hexit⟩ := lower_eq_guard_iff.1 ⟨_, hfirst⟩
      refine ⟨first, middle, last, condition, exit, rfl, hguards,
        ParseTree.checks_iff.2 ⟨_, hcondition⟩, ParseTree.returns_iff.2 ⟨_, hexit⟩,
        ParseTree.assigns_iff.2 ⟨_, _, hlast⟩, rfl, rfl, rfl, ?_⟩
      rintro statement hstatement mention hassigns rfl
      obtain ⟨value, whole, hlower⟩ := ParseTree.assigns_iff.1 hassigns
      refine once value whole mention.span ?_
      rw [← hmiddle, ← hlower]
      exact List.mem_map_of_mem hstatement
  · rintro ⟨first, middle, last, condition, exit, rfl, hguards, hchecks, hreturns, hassigns,
      hchecked, hreturned, hassigned, honce⟩
    obtain ⟨check, hcheck⟩ := ParseTree.checks_iff.1 hchecks
    obtain ⟨whole, hexit⟩ := ParseTree.returns_iff.1 hreturns
    obtain ⟨value, lastSpan, hlast⟩ := ParseTree.assigns_iff.1 hassigns
    obtain ⟨guardSpan, hguard⟩ := lower_eq_guard_iff.2 ⟨condition, exit, hguards, hcheck, hexit⟩
    obtain ⟨_, checkedSpan⟩ := checked
    obtain ⟨_, returnedSpan⟩ := returned
    obtain ⟨name, assignedSpan⟩ := assigned
    dsimp only at hchecked hreturned hassigned hguard hlast
    subst hchecked hreturned hassigned
    have hnone : ∀ value whole span,
        Expr.ivarAssign name value whole span ∉ middle.map (lower source) := by
      intro value whole span hmem
      obtain ⟨statement, hstatement, hlower⟩ := List.mem_map.1 hmem
      have hassigns : statement.Assigns source ⟨name, span⟩ :=
        ParseTree.assigns_iff.2 ⟨_, _, hlower⟩
      exact honce statement hstatement _ hassigns rfl
    obtain ⟨bodySpan, hbody⟩ := exists_collapse (lower source first) (lower source last)
      (middle.map (lower source))
    rw [List.map_cons, List.map_append, List.map_singleton, hbody, hguard, hlast]
    exact .definedGuard hnone

end

/-! ## Carrying a candidate -/

/-- Below the occurrence, which has the given trail, something matches as the candidate for the very
definition that the occurrence is. -/
def Occurrence.Carries (o : Occurrence) (trail : List Occurrence) (candidate : Candidate) : Prop :=
  ∃ visit ∈ o.walk trail, ∃ found, (matchIdiom visit).value = .ok (some found) ∧
    o.method? = some found.method ∧ found.candidate = candidate

/-- What a definition carries does not depend on where it stands. -/
theorem Occurrence.carries_iff {o : Occurrence} {method : MethodSite} {trail : List Occurrence}
    {candidate : Candidate} (hmethod : o.method? = some method) :
    o.Carries trail candidate ↔ Memoizes method.body candidate := by
  constructor
  · rintro ⟨visit, hvisit, found, hfound, hdefined, rfl⟩
    obtain ⟨way, hway⟩ := Visit.mem_reach_iff.1 (show visit ∈ (Visit.mk o trail).reach from hvisit)
    obtain rfl : method = found.method := Option.some.inj (hmethod.symm.trans hdefined)
    cases way with
    | nil =>
      -- The definition itself is not the start of an idiom.
      obtain rfl : ⟨o, trail⟩ = visit := Option.some.inj hway
      obtain ⟨-, span, nameSpan, singleton, hexpr⟩ := Occurrence.method?_eq_some_iff.1 hmethod
      simp [matchIdiom, hexpr] at hfound
    | cons position rest =>
      obtain ⟨rfl, -⟩ := Visit.descend_of_method? hmethod hway
      obtain ⟨candidate, hmemoizes, -, hmatch⟩ :=
        exists_memoizes_of_match hmethod hway (enclosingMethod?_of_match hfound) hfound
      have hcandidate : found.candidate = candidate := by
        rw [hmatch, MethodSite.candidate_matchOf]
      rw [hcandidate]
      exact hmemoizes
  · intro hmemoizes
    have hdefined : (Visit.mk o trail).site.method? = some method := hmethod
    obtain ⟨visit, rest, hway, -, -, hmatch⟩ := exists_match_of_memoizes hdefined hmemoizes
    refine ⟨visit, Visit.mem_reach_iff.2 ⟨_, hway⟩, _, hmatch, ?_, ?_⟩
    · rw [hmethod, MethodSite.method_matchOf]
    · rw [MethodSite.candidate_matchOf]

theorem exists_method?_lower {source : Bytes} {node : ParseTree} (hmethod : node.isMethod = true)
    (address : Address) :
    ∃ method, (Occurrence.mk address (lower source node)).method? = some method ∧
      method.body = Expr.collapse (node.methodStatements.map (lower source)) := by
  have hlower := (@lower_eq_method_iff source node _ _ _ _ _).2 ⟨hmethod, rfl, rfl, rfl, rfl, rfl⟩
  rw [hlower]
  exact ⟨_, rfl, rfl⟩

/-- **Exact recognition.**  The definition that a method node is lowered to carries an or-assignment
exactly if the last statement of the node is one, and a guarded assignment exactly if the statements
of the node are a guard, an assignment to the same variable, and no such assignment between them.
The mentions of the candidate are the tokens of the variable. -/
theorem lower_carries_iff (source : Bytes) (node : ParseTree) (hmethod : node.isMethod = true)
    (address : Address) (trail : List Occurrence) :
    (∀ mention, Occurrence.Carries ⟨address, lower source node⟩ trail (.orAssign mention) ↔
      node.EndsWithOrAssign source mention) ∧
    ∀ ivar checked returned assigned,
      Occurrence.Carries ⟨address, lower source node⟩ trail
          (.definedGuard ivar checked returned assigned) ↔
        node.StartsWithGuard source ivar checked returned assigned := by
  obtain ⟨method, hdefined, hbody⟩ := exists_method?_lower hmethod address
  constructor
  · intro mention
    rw [Occurrence.carries_iff hdefined, hbody, ParseTree.EndsWithOrAssign, memoizes_orAssign_iff]
  · intro ivar checked returned assigned
    rw [Occurrence.carries_iff hdefined, hbody, ParseTree.StartsWithGuard,
      memoizes_definedGuard_iff]

/-! ## A guarded method in a source -/

def guardedSource : Bytes :=
  Text.Utf8.encode "def a; return @b if defined?(@b); @b = 1; end"

/-- The method in `guardedSource`. -/
def guardedMethod : ParseTree :=
  inlineNode "method" 0 45 none [
    inlineNode "identifier" 4 5 (some "name") [],
    inlineNode "body_statement" 7 41 (some "body") [
      inlineNode "if_modifier" 7 32 none [
        inlineNode "return" 7 16 (some "body") [
          inlineNode "argument_list" 14 16 none [inlineNode "instance_variable" 14 16 none []]],
        inlineNode "unary" 20 32 (some "condition") [
          inlineNode "defined?" 20 28 (some "operator") [] false,
          inlineNode "parenthesized_statements" 28 32 (some "operand") [
            inlineNode "instance_variable" 29 31 none []]]],
      inlineNode "assignment" 34 40 none [
        inlineNode "instance_variable" 34 36 (some "left") [],
        inlineNode "integer" 39 40 (some "right") []]]]

theorem lower_guardedMethod_carries :
    guardedMethod.isMethod = true ∧
      Occurrence.Carries ⟨[], lower guardedSource guardedMethod⟩ []
        (.definedGuard "@b" ⟨"@b", inlineSpan 29 31⟩ ⟨"@b", inlineSpan 14 16⟩
          ⟨"@b", inlineSpan 34 36⟩) := by
  have hmethod : guardedMethod.isMethod = true := rfl
  refine ⟨hmethod, ((lower_carries_iff guardedSource guardedMethod hmethod [] []).2 _ _ _ _).2 ?_⟩
  refine ⟨_, [], _, _, _, rfl, .ifModifier rfl rfl rfl,
    ⟨rfl, rfl, _, rfl, .inr ⟨rfl, _, rfl, rfl, ?_⟩⟩, ⟨rfl, _, rfl, rfl, ?_⟩,
    ⟨rfl, _, rfl, rfl, ?_⟩, rfl, rfl, rfl, ?_⟩
  · decide +kernel
  · decide +kernel
  · decide +kernel
  · intro statement hstatement
    cases hstatement

end MemoAudit
