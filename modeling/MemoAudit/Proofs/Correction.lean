import MemoAudit.Proofs.Complaints
import MemoAudit.Proofs.Renaming

/-!
# Doing as told

A complaint names the variable to use instead.  This file makes the changes that a run asks for, all
at once: at every place that it reports, the variable gets the name suggested for its method, and
nothing else is touched (`Expr.corrected`).  A run on the result has nothing left to say
(`checkNames_corrected`).

Two things could go wrong.  The suggested name might not be acceptable itself; but it always is,
whatever the method is called (`Style.accepts_suggested`).  And a change in one method might disturb
another one, or turn something into an idiom that was none before.  Against this stands that a place
belongs to one method only: the corrections at places which a method holds are its own
(`memoizes_of_correction?`).  So either nothing that a method holds is renamed, and it memoizes what
it did before; or its candidate was rejected, all mentions of it have the suggested name now, and
whatever the method memoizes now bears that name.
-/

namespace MemoAudit

/-! ## The suggested name -/

theorem bareName_sigil (name : String) : bareName ("@" ++ name) = name := by
  simp [bareName]

theorem Style.suggested_mem_candidates (style : Style) (method : String) :
    style.suggested method ∈ style.candidates method := by
  cases style <;> simp [Style.suggested, Style.candidates]

/-- A method accepts the variable that is suggested for it. -/
theorem Style.accepts_suggested (style : Style) (method : String) :
    style.accepts method ("@" ++ style.suggested method) = true := by
  rw [Style.accepts, bareName_sigil, Bool.or_eq_true, List.contains_iff_mem]
  exact .inr (style.suggested_mem_candidates method)

/-! ## The corrections that a run asks for -/

/-- Whether a run complains about the match. -/
def IdiomMatch.isRejected (style : Style) (found : IdiomMatch) : Bool :=
  !style.accepts found.method.name found.candidate.ivar

/-- What a run says about a rejected match: the same for every mention of the variable. -/
def IdiomMatch.complaints (style : Style) (found : IdiomMatch) : List Complaint :=
  found.candidate.spans.map fun span =>
    ⟨style.message found.candidate.ivar found.method.name, span⟩

/-- The variable that a complaint about the match suggests. -/
def IdiomMatch.suggestion (style : Style) (found : IdiomMatch) : String :=
  "@" ++ style.suggested found.method.name

namespace Expr

/-- The matches that a run complains about. -/
def rejected (style : Style) (program : Expr) : List IdiomMatch :=
  program.found.filter (·.isRejected style)

/-- The places that a run reports, each with the name that the variable there should have. -/
def corrections (style : Style) (program : Expr) : List (Address × String) :=
  (program.rejected style).flatMap fun found =>
    found.anchors.map fun anchor => (anchor, found.suggestion style)

/-- The name that the variable at a place should have, if that is reported. -/
def correction? (style : Style) (program : Expr) (address : Address) : Option String :=
  (program.corrections style).lookup address

/-- The program with all corrections made. -/
def corrected (style : Style) (program : Expr) : Expr :=
  program.rename (program.correction? style) []

/-- The variable that an expression reads or assigns. -/
def named? (e : Expr) : Option Mention := e.mention?.or e.assigned?

end Expr

section

variable {style : Style} {program : Expr} {method : MethodSite}

theorem mem_rejected_iff {found : IdiomMatch} :
    found ∈ program.rejected style ↔
      ∃ method ∈ program.methodSites, ∃ candidate, Memoizes method.body candidate ∧
        style.accepts method.name candidate.ivar = false ∧ found = method.matchOf candidate := by
  rw [Expr.rejected, List.mem_filter, mem_found_iff]
  constructor
  · rintro ⟨⟨method, hmethod, candidate, hmemoizes, rfl⟩, hrejected⟩
    refine ⟨method, hmethod, candidate, hmemoizes, ?_, rfl⟩
    simpa [IdiomMatch.isRejected] using hrejected
  · rintro ⟨method, hmethod, candidate, hmemoizes, hrejected, rfl⟩
    refine ⟨⟨method, hmethod, candidate, hmemoizes, rfl⟩, ?_⟩
    simp [IdiomMatch.isRejected, hrejected]

/-! ## The places that a run reports -/

theorem MethodSite.Holds.mem_methodSites {o : Occurrence} (h : method.Holds program o) :
    method ∈ program.methodSites := by
  obtain ⟨trail, hmem, henclosing⟩ := h
  obtain ⟨definition, hdefinition, -, hdefined, -⟩ := Expr.exists_definition hmem henclosing
  exact Expr.mem_methodSites.2 ⟨definition, hdefinition, hdefined⟩

theorem MethodSite.holds_statement {statements : List Expr} {span : Span} {e : Expr}
    (hmethod : method ∈ program.methodSites)
    (hbody : method.body = some (.sequence statements span)) (position : Nat)
    (h : statements[position]? = some e) :
    method.Holds program ⟨method.statementAddress position, e⟩ := by
  rw [MethodSite.statementAddress_eq]
  exact (holds_body hmethod hbody).child position rfl h

theorem MethodSite.holds_last {e : Expr} (hmethod : method ∈ program.methodSites)
    (h : (Expr.statementsOf method.body).getLast? = some e) :
    method.Holds program ⟨method.lastAddress, e⟩ := by
  obtain ⟨definition, hmem, hdefined⟩ := Expr.mem_methodSites.1 hmethod
  obtain ⟨rest, trail, hway, henclosing, -⟩ := exists_last hdefined h
  exact ⟨trail, Expr.mem_walk_of_descend hmem hway, henclosing⟩

/-- A method with a guard and a last assignment holds the variable that is checked, the one that is
returned, and the assignment, whether or not they go together. -/
theorem MethodSite.holds_guarded {name name' name'' : String}
    {checked check returned exit guard assigned last whole : Span} {middle : List Expr}
    {value : Option Expr} (hmethod : method ∈ program.methodSites)
    (hbody : method.body = some (.sequence
      (.conditional (some (.definedCheck (some (.ivar name checked)) check))
          (some (.returns (some (.ivar name' returned)) exit)) none guard ::
        (middle ++ [.ivarAssign name'' value last assigned])) whole)) :
    method.Holds program ⟨method.statementAddress 0 ++ [0, 0], .ivar name checked⟩ ∧
      method.Holds program ⟨method.statementAddress 0 ++ [1, 0], .ivar name' returned⟩ ∧
      method.Holds program ⟨method.lastAddress, .ivarAssign name'' value last assigned⟩ := by
  have hguard := MethodSite.holds_statement hmethod hbody 0 rfl
  have hchecked := (hguard.child 0 rfl rfl).child 0 rfl rfl
  have hreturned := (hguard.child 1 rfl rfl).child 0 rfl rfl
  rw [List.append_assoc] at hchecked hreturned
  refine ⟨hchecked, hreturned, holds_last hmethod ?_⟩
  rw [hbody, Expr.statementsOf, ← List.cons_append, List.getLast?_concat]

/-- At the anchors of a match, in the order of the spans that are reported for it, the method
mentions the variable. -/
theorem forall₂_anchors {candidate : Candidate} (hmethod : method ∈ program.methodSites)
    (h : Memoizes method.body candidate) :
    List.Forall₂ (fun anchor span => ∃ e, method.Holds program ⟨anchor, e⟩ ∧
        e.named? = some ⟨candidate.ivar, span⟩)
      (method.matchOf candidate).anchors candidate.spans := by
  generalize hbody : method.body = body at h
  cases h with
  | orAssign hlast =>
    rw [← hbody] at hlast
    have htarget := (MethodSite.holds_last hmethod hlast).child 0 rfl rfl
    exact .cons ⟨_, htarget, rfl⟩ .nil
  | definedGuard =>
    obtain ⟨hchecked, hreturned, hassigned⟩ := MethodSite.holds_guarded hmethod hbody
    exact .cons ⟨_, hchecked, rfl⟩ (.cons ⟨_, hreturned, rfl⟩ (.cons ⟨_, hassigned, rfl⟩ .nil))

theorem exists_holds_anchor {candidate : Candidate} {anchor : Address}
    (hmethod : method ∈ program.methodSites) (h : Memoizes method.body candidate)
    (hanchor : anchor ∈ (method.matchOf candidate).anchors) :
    ∃ e, method.Holds program ⟨anchor, e⟩ := by
  have hanchors := forall₂_anchors hmethod h
  obtain ⟨⟨i, hi⟩, rfl⟩ := List.mem_iff_get.1 hanchor
  obtain ⟨e, hholds, -⟩ := hanchors.get hi (hanchors.length_eq ▸ hi)
  exact ⟨e, hholds⟩

theorem mem_corrections_iff {address : Address} {name : String} :
    (address, name) ∈ program.corrections style ↔
      ∃ found ∈ program.rejected style,
        address ∈ found.anchors ∧ name = found.suggestion style := by
  simp [Expr.corrections, eq_comm]

theorem correction?_of_mem_anchors {found : IdiomMatch} {address : Address}
    (hfound : found ∈ program.rejected style) (h : address ∈ found.anchors) :
    ∃ name, program.correction? style address = some name := by
  rw [← Option.isSome_iff_exists, Expr.correction?, List.lookup_isSome_iff]
  exact ⟨_, mem_corrections_iff.2 ⟨found, hfound, h, rfl⟩, beq_self_eq_true address⟩

/-- A correction at what a method holds is about what this method memoizes. -/
theorem memoizes_of_correction? {address : Address} {e : Expr} {name : String}
    (hholds : method.Holds program ⟨address, e⟩)
    (h : program.correction? style address = some name) :
    (∃ candidate, Memoizes method.body candidate ∧
        style.accepts method.name candidate.ivar = false) ∧
      name = "@" ++ style.suggested method.name := by
  rw [Expr.correction?, List.lookup_eq_some_iff] at h
  obtain ⟨before, after, hcorrections, -⟩ := h
  have hmem : (address, name) ∈ program.corrections style := by simp [hcorrections]
  obtain ⟨found, hfound, hanchor, rfl⟩ := mem_corrections_iff.1 hmem
  obtain ⟨owner, howner, candidate, hmemoizes, hrejected, rfl⟩ := mem_rejected_iff.1 hfound
  obtain ⟨e', hholds'⟩ := exists_holds_anchor howner hmemoizes hanchor
  obtain ⟨rfl, -⟩ := hholds.unique hholds'
  refine ⟨⟨candidate, hmemoizes, hrejected⟩, ?_⟩
  rw [IdiomMatch.suggestion, MethodSite.method_matchOf]

/-- All mentions of a variable that a method should not use are corrected. -/
theorem correction?_anchor {candidate : Candidate} {anchor : Address}
    (hmethod : method ∈ program.methodSites) (h : Memoizes method.body candidate)
    (hrejected : style.accepts method.name candidate.ivar = false)
    (hanchor : anchor ∈ (method.matchOf candidate).anchors) :
    program.correction? style anchor = some ("@" ++ style.suggested method.name) := by
  have hfound := mem_rejected_iff.2 ⟨method, hmethod, candidate, h, hrejected, rfl⟩
  obtain ⟨name, hname⟩ := correction?_of_mem_anchors hfound hanchor
  obtain ⟨e, hholds⟩ := exists_holds_anchor hmethod h hanchor
  obtain ⟨-, rfl⟩ := memoizes_of_correction? hholds hname
  exact hname

end

/-! ## What a renamed method memoizes -/

section

variable {new : Address → Option String} {program : Expr} {method : MethodSite}

theorem getLast?_rename (new : Address → Option String) (method : MethodSite) :
    (Expr.statementsOf (method.rename new).body).getLast? =
      (Expr.statementsOf method.body).getLast?.map (Expr.rename new method.lastAddress) := by
  rw [MethodSite.rename, MethodSite.lastAddress]
  cases method.body with
  | none => rfl
  | some body =>
    cases body with
    | sequence statements span =>
      rw [Option.map_some, Expr.rename_sequence]
      simp only [Expr.statementsOf, List.getLast?_mapIdx, MethodSite.statementAddress_eq]
    | _ => simp [Expr.statementsOf]

theorem lastAddress_rename (new : Address → Option String) (method : MethodSite) :
    (method.rename new).lastAddress = method.lastAddress := by
  rw [MethodSite.rename, MethodSite.lastAddress, MethodSite.lastAddress]
  cases method.body with
  | none => rfl
  | some body => cases body <;> simp [MethodSite.statementAddress, MethodSite.bodyAddress]

/-- A match is anchored at the same places in a renamed method. -/
theorem anchors_rename (new : Address → Option String) (method : MethodSite)
    (candidate : Candidate) :
    ((method.rename new).matchOf candidate).anchors = (method.matchOf candidate).anchors := by
  cases candidate with
  | orAssign => simp only [MethodSite.matchOf, lastAddress_rename]
  | definedGuard =>
    simp only [MethodSite.matchOf, lastAddress_rename]
    rfl

theorem orAssign_of_rename {mention : Mention}
    (h : Memoizes (method.rename new).body (.orAssign mention)) :
    ∃ name value whole,
      (Expr.statementsOf method.body).getLast? =
        some (.orAssign (some (.ivar name mention.span)) value whole) ∧
      mention.name = (new (method.lastAddress ++ [0])).getD name := by
  generalize hbody : (method.rename new).body = body at h
  cases h with
  | orAssign hlast =>
    rw [← hbody, getLast?_rename] at hlast
    obtain ⟨last, hlast, hrenamed⟩ := Option.map_eq_some_iff.1 hlast
    obtain ⟨target, value, rfl, htarget⟩ := Expr.exists_of_rename_eq_orAssign hrenamed
    obtain ⟨name, rfl, hname⟩ := Expr.exists_of_rename_eq_ivar htarget.symm
    exact ⟨name, value, _, hlast, hname⟩

theorem definedGuard_of_rename {ivar : String} {checked returned assigned : Mention}
    (h : Memoizes (method.rename new).body (.definedGuard ivar checked returned assigned)) :
    ∃ name name' name'' check exit guard middle value last whole,
      method.body = some (.sequence
        (.conditional (some (.definedCheck (some (.ivar name checked.span)) check))
            (some (.returns (some (.ivar name' returned.span)) exit)) none guard ::
          (middle ++ [.ivarAssign name'' value last assigned.span])) whole) ∧
      ivar = (new (method.statementAddress 0 ++ [0, 0])).getD name ∧
      ivar = (new (method.statementAddress 0 ++ [1, 0])).getD name' ∧
      ivar = (new method.lastAddress).getD name'' ∧
      checked.name = ivar ∧ returned.name = ivar ∧ assigned.name = ivar ∧
      ∀ position old value whole span,
        middle[position]? = some (.ivarAssign old value whole span) →
          (new (method.statementAddress (position + 1))).getD old ≠ ivar := by
  generalize hbody : (method.rename new).body = body at h
  cases h with
  | definedGuard once =>
    rename_i checked check returned exit guard assigned last whole renamed value'
    obtain ⟨body, hbody, hrenamed⟩ := Option.map_eq_some_iff.1 hbody
    -- Renaming keeps the form of expressions, so each piece comes from a piece of its own form.
    obtain ⟨statements, rfl, hstatements⟩ := Expr.exists_of_rename_eq_sequence hrenamed
    obtain ⟨first, rest, rfl, hfirst, hrest⟩ := List.mapIdx_eq_cons_iff.1 hstatements
    obtain ⟨middle, lasts, rfl, hmiddle, hlasts⟩ := List.mapIdx_eq_append_iff.1 hrest
    obtain ⟨final, rfl, hfinal⟩ := List.mapIdx_eq_singleton_iff.1 hlasts
    obtain ⟨condition, branch, rfl, hcondition, hbranch⟩ :=
      Expr.exists_of_rename_eq_conditional hfirst
    obtain ⟨argument, rfl, hargument⟩ := Expr.exists_of_rename_eq_definedCheck hcondition.symm
    obtain ⟨result, rfl, hresult⟩ := Expr.exists_of_rename_eq_returns hbranch.symm
    obtain ⟨name, rfl, hname⟩ := Expr.exists_of_rename_eq_ivar hargument.symm
    obtain ⟨name', rfl, hname'⟩ := Expr.exists_of_rename_eq_ivar hresult.symm
    obtain ⟨name'', value, rfl, hname''⟩ := Expr.exists_of_rename_eq_ivarAssign hfinal
    refine ⟨name, name', name'', check, exit, guard, middle, value, last, whole, hbody, ?_, ?_, ?_,
      rfl, rfl, rfl, ?_⟩
    · rw [hname, MethodSite.statementAddress_eq, List.append_assoc, List.append_assoc,
        List.append_assoc]
      rfl
    · rw [hname', MethodSite.statementAddress_eq, List.append_assoc, List.append_assoc,
        List.append_assoc]
      rfl
    · have hlast : method.lastAddress = method.bodyAddress ++ [0 + middle.length + 1] := by
        simp [MethodSite.lastAddress, hbody, MethodSite.statementAddress_eq]
      rw [hname'', hlast]
    · -- A statement in between that assigned the variable would still do so under its new name.
      intro position old value whole span hold heq
      refine once (value.map (Expr.rename new (method.statementAddress (position + 1) ++ [0])))
        whole span ?_
      rw [← hmiddle, List.mem_iff_getElem?]
      refine ⟨position, ?_⟩
      rw [List.getElem?_mapIdx, hold, Option.map_some, ← MethodSite.statementAddress_eq,
        Expr.rename_ivarAssign, heq]

/-- A method in which nothing is renamed memoizes what it did before. -/
theorem memoizes_of_rename {candidate : Candidate} (hmethod : method ∈ program.methodSites)
    (hquiet : ∀ address e, method.Holds program ⟨address, e⟩ → new address = none)
    (h : Memoizes (method.rename new).body candidate) : Memoizes method.body candidate := by
  cases candidate with
  | orAssign mention =>
    obtain ⟨name, value, whole, hlast, hname⟩ := orAssign_of_rename h
    have htarget := (MethodSite.holds_last hmethod hlast).child 0 rfl rfl
    rw [hquiet _ _ htarget] at hname
    obtain ⟨_, span⟩ := mention
    subst hname
    exact .orAssign hlast
  | definedGuard ivar checked returned assigned =>
    obtain ⟨name, name', name'', check, exit, guard, middle, value, last, whole, hbody, hname,
      hname', hname'', hchecked, hreturned, hassigned, honce⟩ := definedGuard_of_rename h
    obtain ⟨hholds, hholds', hholds''⟩ := MethodSite.holds_guarded hmethod hbody
    rw [hquiet _ _ hholds, Option.getD_none] at hname
    rw [hquiet _ _ hholds', Option.getD_none] at hname'
    rw [hquiet _ _ hholds'', Option.getD_none] at hname''
    obtain ⟨_, checkedSpan⟩ := checked
    obtain ⟨_, returnedSpan⟩ := returned
    obtain ⟨_, assignedSpan⟩ := assigned
    dsimp only at hchecked hreturned hassigned hbody
    subst hchecked hreturned hassigned hname hname' hname''
    rw [hbody]
    refine .definedGuard ?_
    intro value whole span hmem
    obtain ⟨position, hposition⟩ := List.getElem?_of_mem hmem
    have hbound : position < middle.length := (List.getElem?_eq_some_iff.1 hposition).1
    have hstatement := MethodSite.holds_statement hmethod hbody (position + 1)
      (by rw [List.getElem?_cons_succ, List.getElem?_append_left hbound, hposition])
    refine honce position _ value whole span hposition ?_
    rw [hquiet _ _ hstatement, Option.getD_none]

/-- A method in which every mention of its variable is renamed memoizes nothing else, and nothing
under another name. -/
theorem ivar_of_rename {candidate candidate' : Candidate} {name : String}
    (h : Memoizes method.body candidate)
    (hloud : ∀ anchor ∈ (method.matchOf candidate).anchors, new anchor = some name)
    (h' : Memoizes (method.rename new).body candidate') :
    candidate'.ivar = name ∧
      (method.matchOf candidate').anchors = (method.matchOf candidate).anchors := by
  cases candidate' with
  | orAssign mention =>
    obtain ⟨old, value, whole, hlast, hname⟩ := orAssign_of_rename h'
    obtain rfl := h.unique (.orAssign hlast)
    rw [hloud (method.lastAddress ++ [0]) (List.mem_singleton.2 rfl)] at hname
    exact ⟨hname, rfl⟩
  | definedGuard ivar checked returned assigned =>
    obtain ⟨old, _, _, _, _, _, _, _, _, _, hbody, hname, -⟩ := definedGuard_of_rename h'
    cases candidate with
    | orAssign =>
      -- The last statement is no or-assignment.
      generalize method.body = body at h hbody
      cases h with
      | orAssign hlast =>
        rw [hbody, Expr.statementsOf, ← List.cons_append, List.getLast?_concat] at hlast
        cases hlast
    | definedGuard =>
      rw [hloud (method.statementAddress 0 ++ [0, 0]) List.mem_cons_self] at hname
      exact ⟨hname, rfl⟩

end

/-! ## The corrected program -/

section

variable {style : Style} {program : Expr}

/-- Whatever a method memoizes after the corrections has a name that it accepts, and was memoized by
it before. -/
theorem accepts_of_corrected {method : MethodSite} {candidate : Candidate}
    (hmethod : method ∈ program.methodSites)
    (h : Memoizes (method.rename (program.correction? style)).body candidate) :
    style.accepts method.name candidate.ivar = true ∧
      ∃ before, Memoizes method.body before ∧
        (method.matchOf candidate).anchors = (method.matchOf before).anchors := by
  by_cases hrejected : ∃ before, Memoizes method.body before ∧
      style.accepts method.name before.ivar = false
  · obtain ⟨before, hbefore, hrejected⟩ := hrejected
    have hloud (anchor : Address) (hanchor : anchor ∈ (method.matchOf before).anchors) :
        program.correction? style anchor = some ("@" ++ style.suggested method.name) :=
      correction?_anchor hmethod hbefore hrejected hanchor
    obtain ⟨hname, hanchors⟩ := ivar_of_rename hbefore hloud h
    rw [hname]
    exact ⟨style.accepts_suggested method.name, before, hbefore, hanchors⟩
  · have hquiet : ∀ address e, method.Holds program ⟨address, e⟩ →
        program.correction? style address = none := by
      intro address e hholds
      rw [Option.eq_none_iff_forall_ne_some]
      intro name hname
      exact hrejected (memoizes_of_correction? hholds hname).1
    have hbefore := memoizes_of_rename hmethod hquiet h
    refine ⟨?_, candidate, hbefore, rfl⟩
    by_contra haccepts
    exact hrejected ⟨candidate, hbefore, by simpa using haccepts⟩

/-- What is found in the corrected program is acceptable, and was found at the same places before.
-/
theorem found_corrected {found : IdiomMatch} (h : found ∈ (program.corrected style).found) :
    style.accepts found.method.name found.candidate.ivar = true ∧
      ∃ before ∈ program.found,
        before.method.address = found.method.address ∧ before.anchors = found.anchors := by
  obtain ⟨method, hmethod, candidate, hmemoizes, rfl⟩ := mem_found_iff.1 h
  rw [Expr.corrected, Expr.methodSites_rename, List.mem_map] at hmethod
  obtain ⟨method, hmethod, rfl⟩ := hmethod
  obtain ⟨haccepts, before, hbefore, hanchors⟩ := accepts_of_corrected hmethod hmemoizes
  rw [MethodSite.method_matchOf, MethodSite.candidate_matchOf, anchors_rename, hanchors]
  have hfound := mem_found_iff.2 ⟨method, hmethod, before, hbefore, rfl⟩
  refine ⟨haccepts, method.matchOf before, hfound, ?_, rfl⟩
  rw [MethodSite.method_matchOf]
  rfl

theorem complaints_corrected (style : Style) (program : Expr) :
    (program.corrected style).walk.flatMap (Visit.complaints style) = [] := by
  rw [complaints_walk, List.flatMap_eq_nil_iff]
  intro found hfound
  rw [complaintsAbout, if_pos (found_corrected hfound).1]

theorem complaints_eq_rejected (style : Style) (program : Expr) :
    program.walk.flatMap (Visit.complaints style) =
      (program.rejected style).flatMap (IdiomMatch.complaints style) := by
  rw [complaints_walk, Expr.rejected]
  induction program.found with
  | nil => rfl
  | cons found rest ih =>
    rw [List.flatMap_cons, ih]
    cases haccepts : style.accepts found.method.name found.candidate.ivar with
    | true => simp [complaintsAbout, IdiomMatch.isRejected, haccepts]
    | false => simp [complaintsAbout, IdiomMatch.isRejected, IdiomMatch.complaints, haccepts]

end

/-- **Following the suggestions leaves nothing to complain about.**  A run says the same about every
place that it reports for a rejected match, and these are the anchors of the match: what its method
holds there mentions the variable.  With the suggested name put at all of them and nothing else
changed, a run succeeds and finds nothing to report: whatever is still found is acceptable, and it
is found where something was found before. -/
theorem checkNames_corrected (style : Style) (excerpt : Excerpt) (program : Expr) :
    (checkNames style excerpt program).value =
        (((program.rejected style).flatMap (IdiomMatch.complaints style)).mapM
          (Complaint.finding excerpt)).mapError .location ∧
      (∀ found ∈ program.rejected style, List.Forall₂ (fun anchor span =>
          ∃ e, found.method.Holds program ⟨anchor, e⟩ ∧
            e.named? = some ⟨found.candidate.ivar, span⟩)
        found.anchors found.candidate.spans) ∧
      (checkNames style excerpt (program.corrected style)).value = .ok [] ∧
      ∀ found ∈ (program.corrected style).found,
        style.accepts found.method.name found.candidate.ivar = true ∧
          ∃ before ∈ program.found,
            before.method.address = found.method.address ∧ before.anchors = found.anchors := by
  refine ⟨?_, ?_, ?_, fun found hfound => found_corrected hfound⟩
  · rw [value_checkNames, complaints_eq_rejected]
  · intro found hfound
    obtain ⟨method, hmethod, candidate, hmemoizes, -, rfl⟩ := mem_rejected_iff.1 hfound
    rw [MethodSite.method_matchOf, MethodSite.candidate_matchOf]
    exact forall₂_anchors hmethod hmemoizes
  · rw [value_checkNames, complaints_corrected]
    rfl

/-- Two methods, one inside the other, that both cache their result in the wrong variable; the outer
one also reads its variable elsewhere. -/
def misnamedProgram : Expr :=
  .program [
    .method "total"
      (some (.sequence [
        .conditional (some (.definedCheck (some (.ivar "@sum" default)) default))
          (some (.returns (some (.ivar "@sum" default)) default)) none default,
        .method "ready?" (some (.orAssign (some (.ivar "@sum" default)) none default)) default
          default false,
        .ivarAssign "@sum" (some (.ivar "@sum" default)) default default] default))
      default default false] default

theorem checkNames_misnamedProgram_corrected :
    (misnamedProgram.rejected .required).length = 2 ∧
      ((misnamedProgram.corrected .required).descendants.filterMap Expr.named?).map (·.name) =
        ["@_total", "@_total", "@_ready", "@_total", "@sum"] ∧
      (checkNames .required default (misnamedProgram.corrected .required)).value = .ok [] := by
  refine ⟨?_, ?_, (checkNames_corrected .required default misnamedProgram).2.2.1⟩
  · decide +kernel
  · decide +kernel

end MemoAudit
