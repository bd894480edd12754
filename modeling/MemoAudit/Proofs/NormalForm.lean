import MemoAudit.Proofs.Gathering
import MemoAudit.Proofs.Recognition
import MemoAudit.Proofs.Correction

/-!
# The normal form of lowered trees

Expressions can be built by hand in ways in which no tree is lowered: a sequence with one statement
or none, sequences in sequences, a conditional without a condition.  Reading a body as a list of
statements takes any sequence apart, and would go wrong on some of them.  Lowering keeps to a normal
form, in which sequences are only where several statements are wanted, and are there only if there
are several (`Expr.IsNormal`).

In this form a body and its list of statements are two views of one thing.  Making a body of
statements and taking it apart gives the statements back, and a method ends with an or-assignment
exactly if that is the last of its statements (`lowerFile_isNormal`).
-/

namespace MemoAudit

namespace Expr

/-- Whether an expression is a sequence. -/
def isSequence : Expr → Bool
  | .sequence _ _ => true
  | _ => false

/-- The direct subexpressions that stand for themselves: not those that are the body of a method or
a branch of a conditional. -/
def units : Expr → List Expr
  | .method .. => []
  | .conditional condition _ _ _ => condition.toList
  | e => e.children

/-- An expression is as lowering makes it, apart from what is below it. -/
structure IsNormal (e : Expr) : Prop where
  /-- No sequence stands where a single expression is wanted. -/
  units : ∀ child ∈ e.units, child.isSequence = false
  /-- A sequence has two statements or more, and reaches from the first to the last. -/
  several : ∀ statements span, e = .sequence statements span →
    ∃ first middle last, statements = first :: (middle ++ [last]) ∧
      span = first.span.through last.span
  target : ∀ target value span, e = .orAssign target value span → target.isSome = true
  condition : ∀ condition thenBranch elseBranch span,
    e = .conditional condition thenBranch elseBranch span → condition.isSome = true

end Expr

/-! ## Lowered nodes and gathered groups -/

section

variable {source : Bytes} {tree : ParseTree}

theorem isSequence_lower (source : Bytes) (tree : ParseTree) :
    (lower source tree).isSequence = false := by
  rw [lower_eq]
  cases tree.shape <;> rfl

theorem isSequence_of_mem_map {nodes : List ParseTree} {e : Expr}
    (h : e ∈ nodes.map (lower source)) : e.isSequence = false := by
  obtain ⟨node, -, rfl⟩ := List.mem_map.1 h
  exact isSequence_lower source node

theorem isSequence_of_mem_toList {node : Option ParseTree} {e : Expr}
    (h : e ∈ (node.map (lower source)).toList) : e.isSequence = false := by
  obtain ⟨node, -, rfl⟩ := Option.map_eq_some_iff.1 (Option.mem_toList.1 h)
  exact isSequence_lower source node

theorem isSequence_of_mem_returned {nodes : List ParseTree} {e : Expr}
    (h : e ∈ returned (nodes.map (lower source))) : e.isSequence = false := by
  match nodes with
  | [] => cases h
  | [node] =>
    obtain rfl := Option.some.inj h
    exact isSequence_lower source node
  | _ :: _ :: _ =>
    obtain rfl := Option.some.inj h
    rfl

theorem isSequence_of_mem_units_lower {child : Expr} (h : child ∈ (lower source tree).units) :
    child.isSequence = false := by
  rw [lower_eq] at h
  generalize tree.shape = shape at h
  cases shape with
  | program statements => exact isSequence_of_mem_map h
  | method name statements singleton => cases h
  | ivar => cases h
  | ivarAssign name value => exact isSequence_of_mem_toList h
  | orAssign target value =>
    rcases List.mem_cons.1 h with rfl | h
    · exact isSequence_lower source target
    · exact isSequence_of_mem_toList h
  | conditional condition thenClause elseClause =>
    obtain rfl := List.mem_singleton.1 h
    exact isSequence_lower source condition
  | definedCheck argument => exact isSequence_of_mem_toList h
  | returns values => exact isSequence_of_mem_returned (Option.mem_toList.1 h)
  | other children => exact isSequence_of_mem_map h

theorem isNormal_lower (source : Bytes) (tree : ParseTree) : (lower source tree).IsNormal where
  units _ hchild := isSequence_of_mem_units_lower hchild
  several _ _ h := absurd h lower_ne_sequence
  target _ _ _ h := by
    obtain ⟨-, -, left, -, rfl, -, -⟩ := lower_eq_orAssign_iff.1 h
    rfl
  condition _ _ _ _ h := by
    obtain ⟨test, -, -, -, rfl, -, -, -⟩ := lower_eq_conditional_iff.1 h
    rfl

/-- What comes of a group of lowered nodes is in normal form, too. -/
theorem Expr.Gathers.isNormal {e : Expr} {nodes : List ParseTree}
    (h : e.Gathers (nodes.map (lower source))) : e.IsNormal := by
  generalize hes : nodes.map (lower source) = es at h
  have hmember : ∀ member ∈ es, member.isSequence = false := by
    intro member hmember
    rw [← hes] at hmember
    exact isSequence_of_mem_map hmember
  cases h with
  | one =>
    obtain ⟨node, -, rfl⟩ := List.map_eq_singleton_iff.1 hes
    exact isNormal_lower source node
  | sequence first middle last =>
    refine ⟨hmember, ?_, by simp, by simp⟩
    rintro statements span ⟨⟩
    exact ⟨first, middle, last, rfl, rfl⟩
  | values first middle last =>
    exact ⟨hmember, by simp, by simp, by simp⟩

theorem isNormal_of_mem_lowerFile {e : Expr} (h : e ∈ (lowerFile source tree).descendants) :
    e.IsNormal := by
  refine forall_descendants_lowerFile (forall_descendants_lower ?_ ?_) ?_ e h
  · intro node _
    exact isNormal_lower source node
  · intro node _ child hchild
    obtain ⟨group, -, hgathers⟩ := exists_group_of_mem_children hchild
    exact hgathers.isNormal
  · refine ⟨?_, by simp, by simp, by simp⟩
    intro child hchild
    obtain rfl := List.mem_singleton.1 hchild
    exact isSequence_lower source tree

end

/-! ## The end of a method -/

namespace MethodSite

variable {program : Expr} {method : MethodSite}

/-- The statements where they stand are the statements. -/
theorem map_expr_statements (method : MethodSite) :
    method.statements.map (·.expr) = Expr.statementsOf method.body := by
  unfold statements
  cases method.body with
  | none => rfl
  | some body =>
    cases body with
    | sequence statements span => apply List.ext_getElem <;> simp [Expr.statementsOf]
    | _ => rfl

theorem getLast?_statements (method : MethodSite) :
    method.statements.getLast? =
      (Expr.statementsOf method.body).getLast?.map fun e => ⟨method.lastAddress, e⟩ := by
  unfold statements lastAddress
  cases method.body with
  | none => rfl
  | some body =>
    cases body with
    | sequence statements span =>
      simp only [List.getLast?_eq_getElem?, List.getElem?_mapIdx, List.length_mapIdx,
        Expr.statementsOf]
    | _ => rfl

/-- Where the method and a visit are in one program, what stands at an address is known. -/
theorem Holds.expr_eq {address : Address} {e : Expr} {visit : Visit}
    (h : method.Holds program ⟨address, e⟩) (hvisit : visit ∈ program.walk)
    (haddress : visit.site.address = address) : visit.site.expr = e := by
  obtain ⟨trail, hmem, -⟩ := h
  rw [Expr.eq_of_address_eq hvisit hmem haddress]

/-- Ending with an or-assignment is having it as the last statement. -/
theorem endsWith_orAssign_iff {visit : Visit} {target value : Option Expr} {span : Span}
    (hmethod : method ∈ program.methodSites) (hvisit : visit ∈ program.walk)
    (hassign : visit.site.expr = .orAssign target value span) :
    method.endsWith visit.site.address = .ok true ↔
      method.statements.getLast? = some visit.site := by
  rw [getLast?_statements, Option.map_eq_some_iff]
  constructor
  · intro hends
    rcases endsWith_eq_true_iff.1 hends with
      ⟨body, hbody, haddress⟩ | ⟨statements, whole, hbody, hne, haddress⟩
    · -- The body is no sequence, since the or-assignment is found in its place.
      have hexpr := (holds_body hmethod hbody).expr_eq hvisit haddress
      rw [hassign] at hexpr
      subst hexpr
      have hsame : visit.site.address = method.lastAddress := by
        rw [lastAddress, hbody, haddress]
      exact ⟨.orAssign target value span, by rw [hbody]; rfl, by rw [← hsame, ← hassign]⟩
    · have hlast : (Expr.statementsOf method.body).getLast? = some (statements.getLast hne) := by
        rw [hbody, Expr.statementsOf, List.getLast?_eq_some_getLast hne]
      have hsame : visit.site.address = method.lastAddress := by
        rw [lastAddress, hbody, haddress]
      have hexpr := (holds_last hmethod hlast).expr_eq hvisit hsame
      exact ⟨_, hlast, by rw [← hsame, ← hexpr]⟩
  · rintro ⟨e, hlast, hsite⟩
    obtain ⟨definition, -, hdefined⟩ := Expr.mem_methodSites.1 hmethod
    obtain ⟨-, -, -, -, hends⟩ := exists_last hdefined hlast
    rw [← hsite]
    exact hends

/-- The body of a method is visited with the program. -/
theorem body_mem_descendants {body : Expr} (hmethod : method ∈ program.methodSites)
    (hbody : method.body = some body) : body ∈ program.descendants := by
  obtain ⟨trail, hmem, -⟩ := holds_body hmethod hbody
  rw [← Expr.map_expr_walk]
  exact List.mem_map.2 ⟨_, hmem, rfl⟩

end MethodSite

/-- **The normal form of lowered trees.**  In the program of a file, which is itself no sequence,
every expression is in normal form.  Hence making a body of lowered nodes, whichever they are, and
taking it apart again gives the same list; and for every method and every or-assignment in the
program it is decided whether the method ends with it, which is so exactly if it is the last of the
statements of the method, at the place where that stands. -/
theorem lowerFile_isNormal (source : Bytes) (root : ParseTree) :
    (lowerFile source root).isSequence = false ∧
    (∀ e ∈ (lowerFile source root).descendants, e.IsNormal) ∧
    (∀ nodes : List ParseTree,
      Expr.statementsOf (Expr.collapse (nodes.map (lower source))) = nodes.map (lower source)) ∧
    ∀ method ∈ (lowerFile source root).methodSites,
      method.statements.map (·.expr) = Expr.statementsOf method.body ∧
      ∀ visit ∈ (lowerFile source root).walk, ∀ target value span,
        visit.site.expr = .orAssign target value span →
          ∃ final, method.endsWith visit.site.address = .ok final ∧
            (final = true ↔ method.statements.getLast? = some visit.site) := by
  have hnormal : ∀ e ∈ (lowerFile source root).descendants, e.IsNormal := fun e he =>
    isNormal_of_mem_lowerFile he
  refine ⟨?_, hnormal, fun nodes => statementsOf_collapse, fun method hmethod =>
    ⟨method.map_expr_statements, fun visit hvisit target value span hassign => ?_⟩⟩
  · unfold lowerFile Expr.asProgram
    split <;> rfl
  · have hends := MethodSite.endsWith_orAssign_iff hmethod hvisit hassign
    cases hfinal : method.endsWith visit.site.address with
    | ok final =>
      rw [hfinal, Except.ok.injEq] at hends
      exact ⟨final, rfl, hends⟩
    | error fault =>
      -- Only a body without any statement leaves it open, and such a body is not in normal form.
      obtain ⟨whole, hbody⟩ := MethodSite.body_eq_of_endsWith_error hfinal
      have hmem := MethodSite.body_mem_descendants hmethod hbody
      obtain ⟨first, middle, last, hstatements, -⟩ := (hnormal _ hmem).several [] whole rfl
      cases hstatements

def endingSource : Bytes := Text.Utf8.encode "def a; b; @a ||= 1; end"

/-- The method in `endingSource`, which is a file by itself. -/
def endingMethod : ParseTree :=
  inlineNode "method" 0 23 none [
    inlineNode "identifier" 4 5 (some "name") [],
    inlineNode "body_statement" 7 18 (some "body") [
      inlineNode "identifier" 7 8 none [],
      inlineNode "operator_assignment" 10 18 none [
        inlineNode "instance_variable" 10 12 (some "left") [],
        inlineNode "||=" 13 16 (some "operator") [] false,
        inlineNode "integer" 17 18 (some "right") []]]]

/-- Its second statement is visited as an or-assignment, and the method ends with it. -/
theorem lowerFile_endingMethod :
    ∃ method ∈ (lowerFile endingSource endingMethod).methodSites,
      ∃ visit ∈ (lowerFile endingSource endingMethod).walk,
        (∃ target value span, visit.site.expr = .orAssign target value span) ∧
          method.statements.getLast? = some visit.site ∧
          method.endsWith visit.site.address = .ok true := by
  have hlower : lower endingSource endingMethod = .method _ _ _ _ _ :=
    lower_eq_method_iff.2 ⟨rfl, rfl, rfl, rfl, rfl, rfl⟩
  have hprogram : lowerFile endingSource endingMethod = .program [lower endingSource endingMethod]
      (lower endingSource endingMethod).span := by
    rw [lowerFile, hlower]
    rfl
  have hdefinition : ⟨⟨[0], lower endingSource endingMethod⟩,
      [⟨[], lowerFile endingSource endingMethod⟩]⟩ ∈
        (lowerFile endingSource endingMethod).walk := by
    rw [hprogram, Visit.walk_eq_reach_root]
    exact Visit.mem_reach_iff.2 ⟨[0], Visit.descend_cons (.root _) 0 []⟩
  obtain ⟨method, hdefined, hbody⟩ :=
    @exists_method?_lower endingSource endingMethod rfl [0]
  have hmethod := Expr.mem_methodSites.2 ⟨_, hdefinition, hdefined⟩
  obtain ⟨target, value, span, hlast⟩ : ∃ target value span,
      (Expr.statementsOf method.body).getLast? = some (.orAssign target value span) := by
    rw [hbody, statementsOf_collapse, List.getLast?_map]
    exact ⟨_, _, _, congrArg some (lower_eq_orAssign_iff.2 ⟨rfl, rfl, _, rfl, rfl, rfl, rfl⟩)⟩
  obtain ⟨trail, hvisit, -⟩ := MethodSite.holds_last hmethod hlast
  have hstatement : method.statements.getLast? =
      some ⟨method.lastAddress, .orAssign target value span⟩ := by
    rw [MethodSite.getLast?_statements, hlast, Option.map_some]
  have hnormal := (lowerFile_isNormal endingSource endingMethod).2.2.2 method hmethod
  obtain ⟨final, hends, hfinal⟩ := hnormal.2 _ hvisit _ _ _ rfl
  exact ⟨method, hmethod, _, hvisit, ⟨_, _, _, rfl⟩, hstatement, by rw [hends, hfinal.2 hstatement]⟩

end MemoAudit
