import MemoAudit.Proofs.Memoization

/-!
# Whether a guarded variable is assigned once

The second idiom caches the result in a variable that the last statement assigns.  If an earlier
statement of the method set the variable too, then the guard would protect something else than the
result, so the last assignment has to be the only one.

A variable can be set in two ways, by `@ivar = value` and by `@ivar ||= value`
(`Expr.sets`), and the search looks for other assignments of the first kind only.  What it finds is
therefore a method that ends with its only *plain* assignment to the variable, and this is the only
statement to set the variable exactly if there is no or-assignment to it
(`matchDefinedGuard_setsOnlyLast_iff`).  Or-assignments between the guard and the end are overlooked
(`matchDefinedGuard_overlooks_orAssign`).
-/

namespace MemoAudit

namespace Expr

variable {ivar : String} {statements : List Expr}

/-- Whether an expression is an or-assignment to the variable. -/
def orAssigns (ivar : String) : Expr → Bool
  | .orAssign (some (.ivar name _)) _ _ => name == ivar
  | _ => false

/-- Whether an expression sets the variable, in one way or the other. -/
def sets (ivar : String) (e : Expr) : Bool := e.assigns ivar || e.orAssigns ivar

/-- The last one of the statements sets the variable, and it is the only one that does. -/
def SetsOnlyLast (ivar : String) (statements : List Expr) : Prop :=
  ∃ front last, statements = front ++ [last] ∧ last.sets ivar = true ∧
    ∀ statement ∈ front, statement.sets ivar = false

theorem orAssigns_eq_false_of_assigns {e : Expr} (h : e.assigns ivar = true) :
    e.orAssigns ivar = false := by
  obtain ⟨value, whole, span, rfl⟩ := assigns_iff.1 h
  rfl

/-- Where the last statement is the only plain assignment, nothing but an or-assignment can set the
variable as well. -/
theorem setsOnlyLast_iff {front : List Expr} {last : Expr}
    (hstatements : statements = front ++ [last]) (hlast : last.assigns ivar = true)
    (hfront : ∀ statement ∈ front, statement.assigns ivar = false) :
    SetsOnlyLast ivar statements ↔ ∀ statement ∈ statements, statement.orAssigns ivar = false := by
  subst hstatements
  constructor
  · rintro ⟨front', last', heq, -, hfront'⟩ statement hstatement
    obtain ⟨rfl, hsame⟩ := List.append_inj' heq rfl
    obtain rfl : last = last' := List.singleton_inj.1 hsame
    rcases List.mem_append.1 hstatement with hstatement | hstatement
    · exact (Bool.or_eq_false_iff.1 (hfront' statement hstatement)).2
    · obtain rfl := List.mem_singleton.1 hstatement
      exact orAssigns_eq_false_of_assigns hlast
  · intro hnone
    refine ⟨front, last, rfl, by rw [sets, hlast, Bool.true_or], fun statement hstatement => ?_⟩
    have hor := hnone statement (List.mem_append_left [last] hstatement)
    rw [sets, hfront statement hstatement, hor, Bool.or_self]

end Expr

/-- A body that memoizes by a guard ends with the only plain assignment to its variable. -/
theorem Memoizes.exists_last_assigns {body : Option Expr} {ivar : String}
    {checked returned assigned : Mention}
    (h : Memoizes body (.definedGuard ivar checked returned assigned)) :
    ∃ front last, Expr.statementsOf body = front ++ [last] ∧ last.assigns ivar = true ∧
      ∀ statement ∈ front, statement.assigns ivar = false := by
  cases h with
  | definedGuard once =>
    refine ⟨_ :: _, _, rfl, Expr.assigns_iff.2 ⟨_, _, _, rfl⟩, fun statement hstatement => ?_⟩
    rw [Bool.eq_false_iff]
    intro hassigns
    obtain ⟨value, whole, span, rfl⟩ := Expr.assigns_iff.1 hassigns
    rcases List.mem_cons.1 hstatement with hguard | hmiddle
    · cases hguard
    · exact once value whole span hmiddle

/-- **What a guard asks of assignments.**  Let the search find the second idiom at a check along the
walk of a program.  Then it is found for a method of the program whose last statement is a plain
assignment to the variable, while no other statement is one; and the last statement is the only one
to set the variable exactly if no statement is an or-assignment to it. -/
theorem matchDefinedGuard_setsOnlyLast_iff (program : Expr) (visit : Visit)
    (hvisit : visit ∈ program.walk) (argument : Option Expr) (span : Span)
    (hcheck : visit.site.expr = .definedCheck argument span) (found : IdiomMatch)
    (hfound : (matchDefinedGuard argument visit).value = .ok (some found)) :
    found.method ∈ program.methodSites ∧
      (∃ front last, Expr.statementsOf found.method.body = front ++ [last] ∧
        last.assigns found.candidate.ivar = true ∧
        ∀ statement ∈ front, statement.assigns found.candidate.ivar = false) ∧
      (Expr.SetsOnlyLast found.candidate.ivar (Expr.statementsOf found.method.body) ↔
        ∀ statement ∈ Expr.statementsOf found.method.body,
          statement.orAssigns found.candidate.ivar = false) := by
  have hmatch : visit.found? = some found := by
    rw [Visit.found?_eq_some_iff, matchIdiom, hcheck]
    exact hfound
  obtain ⟨method, hmethod, candidate, hmemoizes, haddress, rfl⟩ :=
    exists_memoizes_of_found? hvisit hmatch
  rw [MethodSite.method_matchOf, MethodSite.candidate_matchOf]
  -- The search at a check gives no candidate of the first idiom.
  obtain ⟨_, _, _, _, _, _, -, -, -, hguarded⟩ := matchDefinedGuard_eq_some_iff.1 hfound
  obtain ⟨-, _, _, _, _, _, _, _, _, -, -, -, heq⟩ := matchGuardedBody_eq_some_iff.1 hguarded
  cases candidate with
  | orAssign ivar => simp [MethodSite.matchOf] at heq
  | definedGuard ivar checked returned assigned =>
    obtain ⟨front, last, hstatements, hlast, hfront⟩ := hmemoizes.exists_last_assigns
    exact ⟨hmethod, ⟨front, last, hstatements, hlast, hfront⟩,
      Expr.setsOnlyLast_iff hstatements hlast hfront⟩

/-- A check of one variable. -/
def totalCheck : Expr := .definedCheck (some (.ivar "@total" default)) default

/-- A body that starts with a guard for this variable, goes on with other statements and ends with
an assignment. -/
def guardedBody (middle : List Expr) : Expr :=
  .sequence
    (.conditional (some totalCheck) (some (.returns (some (.ivar "@total" default)) default)) none
        default ::
      (middle ++ [.ivarAssign "@total" none default default])) default

/-- A program with one method, which has such a body. -/
def guardedProgram (middle : List Expr) : Expr :=
  .program [.method "total" (some (guardedBody middle)) default default false] default

/-- Other statements than plain assignments do not keep the idiom from being found. -/
theorem exists_match_guardedProgram (middle : List Expr)
    (hmiddle : ∀ value whole span, Expr.ivarAssign "@total" value whole span ∉ middle) :
    ∃ visit ∈ (guardedProgram middle).walk, visit.site.expr = totalCheck ∧
      ∃ found, (matchDefinedGuard (some (.ivar "@total" default)) visit).value = .ok (some found) ∧
        found.candidate.ivar = "@total" ∧ found.method.body = some (guardedBody middle) := by
  let method : MethodSite := ⟨[0], "total", some (guardedBody middle)⟩
  have hdefinition : ⟨⟨[0], .method "total" (some (guardedBody middle)) default default false⟩,
      [⟨[], guardedProgram middle⟩]⟩ ∈ (guardedProgram middle).walk :=
    Visit.mem_reach_iff.2 ⟨[0], Visit.descend_cons (.root (guardedProgram middle)) 0 []⟩
  have hmethod := Expr.mem_methodSites.2 ⟨_, hdefinition, (rfl : _ = some method)⟩
  have hguard := (MethodSite.holds_body hmethod rfl).child 0 rfl rfl
  obtain ⟨trail, hvisit, henclosing⟩ := hguard.child 0 rfl rfl
  refine ⟨_, hvisit, rfl, method.matchOf (.definedGuard "@total" ⟨"@total", default⟩
    ⟨"@total", default⟩ ⟨"@total", default⟩), ?_, rfl, rfl⟩
  refine matchDefinedGuard_eq_some_iff.2
    ⟨"@total", default, method, _, _, default, rfl, henclosing, rfl, ?_⟩
  refine matchGuardedBody_eq_some_iff.2 ⟨rfl, totalCheck, default, default, default, middle, none,
    default, default, rfl, rfl, hmiddle, ?_⟩
  simp [MethodSite.matchOf, MethodSite.lastAddress, MethodSite.statementAddress, method,
    guardedBody]

/-- With nothing but a call in between, the assignment is the only one. -/
theorem matchDefinedGuard_setsOnlyLast_call :
    ∃ visit ∈ (guardedProgram [.other "call" [] default]).walk, visit.site.expr = totalCheck ∧
      ∃ found, (matchDefinedGuard (some (.ivar "@total" default)) visit).value = .ok (some found) ∧
        Expr.SetsOnlyLast found.candidate.ivar (Expr.statementsOf found.method.body) := by
  obtain ⟨visit, hvisit, hcheck, found, hfound, hivar, hbody⟩ :=
    exists_match_guardedProgram [.other "call" [] default] (by simp)
  refine ⟨visit, hvisit, hcheck, found, hfound, ?_⟩
  refine (matchDefinedGuard_setsOnlyLast_iff _ visit hvisit _ _ hcheck found hfound).2.2.2 ?_
  rw [hivar, hbody]
  decide

/-- With an or-assignment to the variable in between, the idiom is found all the same, though the
variable is set twice. -/
theorem matchDefinedGuard_overlooks_orAssign :
    ∃ visit ∈ (guardedProgram [.orAssign (some (.ivar "@total" default)) none default]).walk,
      visit.site.expr = totalCheck ∧
      ∃ found, (matchDefinedGuard (some (.ivar "@total" default)) visit).value = .ok (some found) ∧
        ¬ Expr.SetsOnlyLast found.candidate.ivar (Expr.statementsOf found.method.body) := by
  obtain ⟨visit, hvisit, hcheck, found, hfound, hivar, hbody⟩ :=
    exists_match_guardedProgram [.orAssign (some (.ivar "@total" default)) none default] (by simp)
  refine ⟨visit, hvisit, hcheck, found, hfound, ?_⟩
  rw [hivar, hbody]
  rintro ⟨front, last, hstatements, -, hfront⟩
  have hdropLast := congrArg List.dropLast hstatements
  rw [List.dropLast_concat] at hdropLast
  have hmem : Expr.orAssign (some (.ivar "@total" default)) none default ∈ front := by
    rw [← hdropLast]
    simp [guardedBody, Expr.statementsOf]
  exact absurd (hfront _ hmem) (by decide)

end MemoAudit
