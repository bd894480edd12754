import MemoAudit.Proofs.Anchors

/-!
# No run breaks off

Two things can go wrong in a run.  Looking for an idiom asks for the first or the last statement of
a sequence without looking whether it has one; and a complaint is turned into a location, which
counts from one and refuses anything less.

The first never happens along a walk, however odd the program is (`match_eq_ok_found?`).  The second
happens exactly if a complaint is prescribed at a span that does not count from one
(`exists_checkNames_iff`), and the spans of complaints are spans in the program
(`exists_span_of_prescribed`).  So a run succeeds on every program whose spans count from one, and
on every file whose tree counts rows and columns from zero, whatever else may be wrong with the
tree.
-/

namespace MemoAudit

/-! ## Counting from zero and from one -/

/-- The token counts rows and columns from zero: none of them is negative. -/
def Token.IsZeroBased (token : Token) : Prop :=
  0 ≤ token.start.row ∧ 0 ≤ token.start.column ∧ 0 ≤ token.stop.row ∧ 0 ≤ token.stop.column

instance (token : Token) : Decidable token.IsZeroBased :=
  inferInstanceAs (Decidable (_ ∧ _ ∧ _ ∧ _))

theorem Token.isOneBased_span {token : Token} (h : token.IsZeroBased) : token.span.IsOneBased := by
  obtain ⟨hrow, hcolumn, hendRow, hendColumn⟩ := h
  unfold Span.IsOneBased Token.span
  dsimp only
  omega

/-! ## The spans of complaints -/

namespace Expr

variable {program e : Expr}

/-- The spans that an expression carries itself: its own, and that of its name if it has one. -/
def spans (e : Expr) : List Span :=
  match e with
  | .method _ _ span nameSpan _ | .ivarAssign _ _ span nameSpan => [span, nameSpan]
  | e => [e.span]

/-- With an expression its direct subexpressions occur. -/
theorem mem_descendants_of_mem_children {child : Expr} (h : e ∈ program.descendants)
    (hchild : child ∈ e.children) : child ∈ program.descendants := by
  induction program using childInduction with
  | step program ih =>
    rw [descendants_eq, List.mem_cons, List.mem_flatMap] at h
    rw [descendants_eq, List.mem_cons, List.mem_flatMap]
    right
    rcases h with rfl | ⟨middle, hmiddle, hbelow⟩
    · refine ⟨child, hchild, ?_⟩
      rw [descendants_eq]
      exact List.mem_cons_self
    · exact ⟨middle, hmiddle, ih middle hmiddle hbelow⟩

/-- With a method its statements occur. -/
theorem mem_descendants_of_mem_statementsOf {name : String} {body : Option Expr}
    {span nameSpan : Span} {singleton : Bool} {statement : Expr}
    (h : .method name body span nameSpan singleton ∈ program.descendants)
    (hstatement : statement ∈ statementsOf body) : statement ∈ program.descendants := by
  cases body with
  | none => cases hstatement
  | some body =>
    have hbody : body ∈ program.descendants :=
      mem_descendants_of_mem_children h (List.mem_singleton_self body)
    unfold statementsOf at hstatement
    split at hstatement
    · cases hstatement
    · rename_i statements whole hsequence
      obtain rfl := Option.some.inj hsequence
      exact mem_descendants_of_mem_children hbody hstatement
    · rename_i other hother
      obtain rfl := Option.some.inj hother
      obtain rfl := List.mem_singleton.1 hstatement
      exact hbody

/-- The spans of what a method memoizes are spans of expressions in the method. -/
theorem exists_span_of_memoizes {name : String} {body : Option Expr} {span nameSpan : Span}
    {singleton : Bool} {candidate : Candidate} {place : Span}
    (h : .method name body span nameSpan singleton ∈ program.descendants)
    (hmemoizes : Memoizes body candidate) (hplace : place ∈ candidate.spans) :
    ∃ e ∈ program.descendants, place ∈ e.spans := by
  cases hmemoizes with
  | orAssign hlast =>
    rename_i value ivar target whole
    have hstatement := mem_descendants_of_mem_statementsOf h (List.mem_of_getLast? hlast)
    have htarget : .ivar ivar target ∈ program.descendants :=
      mem_descendants_of_mem_children hstatement (by simp [children])
    exact ⟨_, htarget, hplace⟩
  | definedGuard once =>
    rename_i ivar checked check returned exit guard assigned last whole middle value
    have hguard := mem_descendants_of_mem_statementsOf h List.mem_cons_self
    have hassign : .ivarAssign ivar value last assigned ∈ program.descendants :=
      mem_descendants_of_mem_statementsOf h (by simp [statementsOf])
    have hcheck : .definedCheck (some (.ivar ivar checked)) check ∈ program.descendants :=
      mem_descendants_of_mem_children hguard (by simp [children])
    have hreturn : .returns (some (.ivar ivar returned)) exit ∈ program.descendants :=
      mem_descendants_of_mem_children hguard (by simp [children])
    have hplaces : place = checked ∨ place = returned ∨ place = assigned := by
      simpa [Candidate.spans] using hplace
    rcases hplaces with rfl | rfl | rfl
    · exact ⟨.ivar ivar place, mem_descendants_of_mem_children hcheck (by simp [children]),
        List.mem_singleton_self place⟩
    · exact ⟨.ivar ivar place, mem_descendants_of_mem_children hreturn (by simp [children]),
        List.mem_singleton_self place⟩
    · exact ⟨_, hassign, by simp [spans]⟩

/-- A complaint is about a span of the program. -/
theorem exists_span_of_prescribed {style : Style} {complaint : Complaint}
    (h : complaint ∈ program.prescribed style) :
    ∃ e ∈ program.descendants, complaint.span ∈ e.spans := by
  obtain ⟨_, _, _, _, _, candidate, hdefined, hmemoizes, -, hspan, -⟩ :=
    exists_method_of_prescribed h
  exact exists_span_of_memoizes hdefined hmemoizes hspan

end Expr

/-! ## Runs -/

/-- **A run never fails.**  It succeeds on every file with a tree that counts rows and columns from
zero, and on every program with spans that count from one, among them programs that no file has:
with empty sequences, and with parts missing.  Whatever the program is, no search along a walk
fails, so that the only failure there is comes from a complaint at a span that does not count from
one. -/
theorem checkNames_succeeds (style : Style) :
    (∀ file : SourceFile, (∀ node ∈ file.tree.descendants, node.token.IsZeroBased) →
      ∃ findings, ((namingRule style).run file).value = .ok findings) ∧
    (∀ (excerpt : Excerpt) (program : Expr),
      (∀ e ∈ program.descendants, ∀ span ∈ e.spans, span.IsOneBased) →
        ∃ findings, (checkNames style excerpt program).value = .ok findings) ∧
    (∀ program : Expr, ∀ visit ∈ program.walk,
      ∃ found, (matchIdiom visit).value = .ok found) ∧
    ∀ (excerpt : Excerpt) (program : Expr),
      (∃ findings, (checkNames style excerpt program).value = .ok findings) ↔
        ∀ complaint ∈ program.prescribed style, complaint.span.IsOneBased := by
  refine ⟨?_, ?_, ?_, fun excerpt program => exists_checkNames_iff⟩
  · intro file hfile
    refine exists_checkNames_iff.2 fun complaint hcomplaint => ?_
    obtain ⟨method, hmethod, -, ivar, hbelow, -, hspan, -, -⟩ :=
      exists_nodes_of_prescribed hcomplaint
    rw [hspan]
    exact Token.isOneBased_span (hfile ivar (ParseTree.mem_descendants_trans hmethod hbelow))
  · intro excerpt program hprogram
    refine exists_checkNames_iff.2 fun complaint hcomplaint => ?_
    obtain ⟨e, he, hspan⟩ := Expr.exists_span_of_prescribed hcomplaint
    exact hprogram e he _ hspan
  · intro program visit hvisit
    exact ⟨visit.found?, match_eq_ok_found? hvisit⟩

/-- A file with nodes that lack their fields, their operators and their statements, and a method
without a name that ends with an or-assignment. -/
def fragmentFile : SourceFile where
  path := Path.ofString "a.rb"
  source := guardedSource
  tree := inlineNode "ERROR" 0 45 none [
    inlineNode "if" 0 45 none [inlineNode "assignment" 1 2 none []],
    inlineNode "method" 0 9 none [inlineNode "body_statement" 5 9 (some "body") []],
    inlineNode "unless_modifier" 0 9 none [inlineNode "unary" 0 3 (some "condition") []],
    inlineNode "method" 0 45 none [
      inlineNode "operator_assignment" 1 9 none [],
      inlineNode "return" 3 4 none [inlineNode "argument_list" 9 90 none []],
      inlineNode "operator_assignment" 34 45 none [
        inlineNode "instance_variable" 34 36 (some "left") [],
        inlineNode "||=" 37 40 none [] false]]]

/-- A program with empty and missing bodies around a method with a sequence of one statement. -/
def fragmentProgram : Expr :=
  let span := inlineSpan 0 1
  .sequence [
    .method "a" (some (.sequence [] span)) span span false,
    .orAssign none none span,
    .method "b" (some (.sequence [
      .orAssign (some (.ivar "@c" span)) (some (.method "d" none span span true)) span] span))
      span span false,
    .conditional none none none span] span

theorem checkNames_fragments_succeed :
    (∀ node ∈ fragmentFile.tree.descendants, node.token.IsZeroBased) ∧
      (∀ e ∈ fragmentProgram.descendants, ∀ span ∈ e.spans, span.IsOneBased) ∧
      (∃ findings, ((namingRule .required).run fragmentFile).value = .ok findings) ∧
      ∃ findings, (checkNames .required default fragmentProgram).value = .ok findings := by
  have htree : ∀ node ∈ fragmentFile.tree.descendants, node.token.IsZeroBased := by decide +kernel
  have hprogram : ∀ e ∈ fragmentProgram.descendants, ∀ span ∈ e.spans, span.IsOneBased := by
    decide +kernel
  have hruns := checkNames_succeeds .required
  exact ⟨htree, hprogram, hruns.1 fragmentFile htree, hruns.2.1 default fragmentProgram hprogram⟩

end MemoAudit
