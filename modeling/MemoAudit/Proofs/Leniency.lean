import MemoAudit.Proofs.Complaints

/-!
# The lenient style

Of the three styles two are strict about leading underscores, each in its own direction, and the
third, `Style.optional`, does not mind.  A name that it accepts is one that either of the others
accepts, no more and no less (`Style.accepts_optional`), whatever underscores, exclamation marks and
question marks the names have.  And where it rejects a name it says what `Style.disallowed` says
(`Style.message_optional`).

This file carries the two facts from names to whole runs (`checkNames_optional`).  What is found at
a place does not depend on the style, so that a place is flagged under the lenient style if and only
if both strict ones flag it.  A run puts together what is found at the places of the walk
(`checkNames_eq_ok_iff`), and dropping places from it leaves a sublist of the findings.

A place may also be flagged with a span that has no location, and then the run fails.  A lenient run
fails only at places at which both strict runs would.
-/

namespace MemoAudit

/-! ## Names -/

namespace Style

/-- The lenient style accepts what one of the strict ones accepts. -/
theorem accepts_optional (method ivar : String) :
    Style.optional.accepts method ivar =
      (Style.disallowed.accepts method ivar || Style.required.accepts method ivar) := by
  have hcandidates : (Style.optional.candidates method).contains (bareName ivar) =
      ((Style.disallowed.candidates method).contains (bareName ivar) ||
        (Style.required.candidates method).contains (bareName ivar)) := by
    rw [Bool.eq_iff_iff]
    simp only [candidates, Bool.or_eq_true, List.contains_iff_mem, List.mem_eraseDups]
    -- Only `required` minds whether the method's own name starts with an underscore, and then it
    -- accepts a name that `disallowed` accepts anyway.
    by_cases hunderscored : isUnderscored (baseName method) = true
    · simp only [hunderscored, if_true, List.mem_cons, List.not_mem_nil]
      grind
    · simp only [hunderscored, List.mem_cons, List.not_mem_nil]
      grind
  rw [accepts, accepts, accepts, hcandidates]
  cases method == initializerName <;> simp

theorem message_optional (ivar method : String) :
    Style.optional.message ivar method = Style.disallowed.message ivar method := by
  simp [message, suggested, lacksUnderscore]

end Style

/-! ## Complaints at a place -/

section

variable {style other : Style} {visit : Visit}

theorem complaintsAbout_eq_nil_iff {method : String} {candidate : Candidate} :
    complaintsAbout style method candidate = [] ↔
      style.accepts method candidate.ivar = true := by
  unfold complaintsAbout
  split
  · simp_all
  · cases candidate <;> simp_all [Candidate.spans]

theorem complaintsAbout_optional (method : String) (candidate : Candidate) :
    complaintsAbout .optional method candidate =
      if complaintsAbout .required method candidate = [] then []
      else complaintsAbout .disallowed method candidate := by
  simp only [complaintsAbout_eq_nil_iff]
  rw [complaintsAbout, complaintsAbout, Style.accepts_optional, Style.message_optional]
  cases Style.required.accepts method candidate.ivar <;> simp

namespace Visit

theorem complaints_of_found? {found : IdiomMatch} (h : visit.found? = some found) :
    visit.complaints style = complaintsAbout style found.method.name found.candidate := by
  simp [complaints, h]

theorem complaints_eq_nil_of_found? (h : visit.found? = none) : visit.complaints style = [] := by
  simp [complaints, h]

/-- There is something to complain about exactly where an idiom is found with a name that the style
rejects.  Only the last of these has to do with the style. -/
theorem complaints_ne_nil_iff :
    visit.complaints style ≠ [] ↔
      ∃ found, (matchIdiom visit).value = .ok (some found) ∧
        style.accepts found.method.name found.candidate.ivar = false := by
  simp only [← found?_eq_some_iff]
  cases hfound : visit.found? with
  | none => simp [complaints_eq_nil_of_found? hfound]
  | some found => simp [complaints_of_found? hfound, complaintsAbout_eq_nil_iff]

theorem complaints_optional (visit : Visit) :
    visit.complaints .optional =
      if visit.complaints .required = [] then [] else visit.complaints .disallowed := by
  cases hfound : visit.found? with
  | none => simp [complaints_eq_nil_of_found? hfound]
  | some found =>
    simp only [complaints_of_found? hfound]
    exact complaintsAbout_optional found.method.name found.candidate

/-- Two styles that complain at a place complain about the same spans. -/
theorem map_span_complaints (h : visit.complaints style ≠ [])
    (hother : visit.complaints other ≠ []) :
    (visit.complaints style).map (·.span) = (visit.complaints other).map (·.span) := by
  cases hfound : visit.found? with
  | none => exact absurd (complaints_eq_nil_of_found? hfound) h
  | some found =>
    rw [complaints_of_found? hfound, Ne, complaintsAbout_eq_nil_iff] at h hother
    simp [complaints_of_found? hfound, complaintsAbout, h, hother]

/-- A run under the style has something to report at the place, or fails in reporting it. -/
def IsFlagged (style : Style) (excerpt : Excerpt) (visit : Visit) : Prop :=
  (checkVisit style excerpt visit).value ≠ .ok []

end Visit

end

/-! ## Findings at a place -/

/-- The location at which a complaint is reported. -/
def Excerpt.locate (excerpt : Excerpt) (span : Span) : Except (List FieldFault) Location :=
  (Location.ofSpan excerpt.path excerpt.source span).toExcept

section

variable {style : Style} {excerpt : Excerpt} {program : Expr} {visit : Visit}

theorem Complaint.location_finding {complaint : Complaint} {finding : Finding}
    (h : complaint.finding excerpt = .ok finding) :
    excerpt.locate complaint.span = .ok finding.location := by
  obtain ⟨location, hlocation, rfl⟩ := Complaint.finding_eq_ok_iff.1 h
  rw [Excerpt.locate, hlocation]
  rfl

theorem checkVisit_eq_ok_iff (h : visit ∈ program.walk) {findings : List Finding} :
    (checkVisit style excerpt visit).value = .ok findings ↔
      (visit.complaints style).map (Complaint.finding excerpt) = findings.map .ok := by
  rw [value_checkVisit style excerpt (match_eq_ok_found? h), ← mapM_eq_ok_iff]
  cases (visit.complaints style).mapM (Complaint.finding excerpt) <;> simp [Except.mapError]

/-- Findings are located where the complaints are that they are made from. -/
theorem locate_complaints {complaints : List Complaint} {findings : List Finding}
    (h : complaints.map (Complaint.finding excerpt) = findings.map .ok) :
    (complaints.map (·.span)).map excerpt.locate = (findings.map (·.location)).map .ok := by
  induction complaints generalizing findings with
  | nil =>
    obtain rfl : findings = [] := by simpa using h.symm
    rfl
  | cons complaint complaints ih =>
    cases findings with
    | nil => simp at h
    | cons finding findings =>
      obtain ⟨hfinding, hrest⟩ := List.cons.inj h
      simp only [List.map_cons, Complaint.location_finding hfinding, ih hrest]

theorem Visit.isFlagged_iff (h : visit ∈ program.walk) :
    visit.IsFlagged style excerpt ↔ visit.complaints style ≠ [] := by
  rw [Visit.IsFlagged, Ne, checkVisit_eq_ok_iff h]
  simp

theorem checkVisit_eq_nil (h : visit ∈ program.walk) (hnone : visit.complaints style = []) :
    (checkVisit style excerpt visit).value = .ok [] :=
  (checkVisit_eq_ok_iff h).2 (by simp [hnone])

/-- Where something is flagged under the lenient style, a lenient run does what a strict one
does. -/
theorem checkVisit_optional (h : visit ∈ program.walk)
    (hflagged : visit.complaints .required ≠ []) :
    (checkVisit .optional excerpt visit).value = (checkVisit .disallowed excerpt visit).value := by
  have hmatch := match_eq_ok_found? h
  rw [value_checkVisit _ _ hmatch, value_checkVisit _ _ hmatch, Visit.complaints_optional,
    if_neg hflagged]

/-- What a lenient run finds at a place is part of what one of the strict runs finds there. -/
theorem exists_sublist_of_disallowed (h : visit ∈ program.walk) {findings : List Finding}
    (hcheck : (checkVisit .disallowed excerpt visit).value = .ok findings) :
    ∃ kept, (checkVisit .optional excerpt visit).value = .ok kept ∧
      kept.Sublist findings := by
  by_cases hrequired : visit.complaints .required = []
  · refine ⟨[], checkVisit_eq_nil h ?_, List.nil_sublist findings⟩
    rw [Visit.complaints_optional, if_pos hrequired]
  · exact ⟨findings, (checkVisit_optional h hrequired).trans hcheck, List.Sublist.refl findings⟩

/-- A lenient run looks at part of the locations that the other strict run looks at. -/
theorem exists_sublist_of_required (h : visit ∈ program.walk) {findings : List Finding}
    (hcheck : (checkVisit .required excerpt visit).value = .ok findings) :
    ∃ kept, (checkVisit .optional excerpt visit).value = .ok kept ∧
      (kept.map (·.location)).Sublist (findings.map (·.location)) := by
  by_cases hoptional : visit.complaints .optional = []
  · exact ⟨[], checkVisit_eq_nil h hoptional, List.nil_sublist _⟩
  · have hrequired : visit.complaints .required ≠ [] := by
      intro hnone
      rw [Visit.complaints_optional, if_pos hnone] at hoptional
      exact hoptional rfl
    have hlocations := locate_complaints ((checkVisit_eq_ok_iff h).1 hcheck)
    rw [← Visit.map_span_complaints hoptional hrequired] at hlocations
    -- Every span has a location, so that the lenient run does not fail at this place either.
    obtain ⟨kept, hkept⟩ : ∃ kept,
        (visit.complaints .optional).mapM (Complaint.finding excerpt) = .ok kept := by
      refine exists_mapM_eq_ok_iff.2 fun complaint hcomplaint => ?_
      have hspan := List.mem_map_of_mem (f := excerpt.locate)
        (List.mem_map_of_mem (f := (·.span)) hcomplaint)
      rw [hlocations] at hspan
      obtain ⟨location, -, hlocation⟩ := List.mem_map.1 hspan
      refine ⟨⟨namingRuleId, complaint.message, location, defaultSeverity⟩, ?_⟩
      rw [Complaint.finding]
      change (excerpt.locate complaint.span >>= _) = _
      rw [← hlocation]
      rfl
    rw [mapM_eq_ok_iff] at hkept
    have hsame := (locate_complaints hkept).symm.trans hlocations
    refine ⟨kept, (checkVisit_eq_ok_iff h).2 hkept, ?_⟩
    rw [List.map_injective_iff.2 (fun _ _ => Except.ok.inj) hsame]

end

/-! ## Whole runs -/

/-- A run succeeds exactly if it succeeds at every place, and then it gives the findings of the
places in the order of the walk. -/
theorem checkVisits_eq_ok_iff {style : Style} {excerpt : Excerpt} {visits : List Visit}
    {findings : List Finding} :
    (checkVisits style excerpt visits).value = .ok findings ↔
      ∃ parts, List.Forall₂ (fun visit part => (checkVisit style excerpt visit).value = .ok part)
        visits parts ∧ findings = parts.flatten := by
  induction visits generalizing findings with
  | nil =>
    constructor
    · intro h
      exact ⟨[], .nil, (Except.ok.inj h).symm⟩
    · rintro ⟨_, ⟨⟩, rfl⟩
      rfl
  | cons visit visits ih =>
    rw [checkVisits, Logged.value_bind]
    constructor
    · intro h
      cases hvisit : (checkVisit style excerpt visit).value with
      | error fault => simp [hvisit] at h
      | ok part =>
        cases hvisits : (checkVisits style excerpt visits).value with
        | error fault => simp [hvisit, hvisits] at h
        | ok rest =>
          obtain ⟨parts, hparts, rfl⟩ := ih.1 hvisits
          refine ⟨part :: parts, .cons hvisit hparts, ?_⟩
          simpa [hvisit, hvisits] using h.symm
    · rintro ⟨_, hparts, rfl⟩
      cases hparts with
      | cons hvisit hrest =>
        rename_i part parts
        have hvisits := ih.2 ⟨parts, hrest, rfl⟩
        simp [hvisit, hvisits]

theorem checkNames_eq_ok_iff {style : Style} {excerpt : Excerpt} {program : Expr}
    {findings : List Finding} :
    (checkNames style excerpt program).value = .ok findings ↔
      ∃ parts, List.Forall₂ (fun visit part => (checkVisit style excerpt visit).value = .ok part)
        program.walk parts ∧ findings = parts.flatten := by
  rw [← checkVisits_eq_ok_iff, checkNames, Logged.value_bind]
  cases (checkVisits style excerpt program.walk).value <;> simp

/-- If one run keeps part of what another finds at every place, up to some view of the findings, it
keeps part of what the other finds altogether. -/
theorem exists_sublist_of_visits {α : Type} {style other : Style} {excerpt : Excerpt}
    {program : Expr} {findings : List Finding} (view : Finding → α)
    (hvisit : ∀ visit ∈ program.walk, ∀ part,
      (checkVisit style excerpt visit).value = .ok part →
        ∃ kept, (checkVisit other excerpt visit).value = .ok kept ∧
          (kept.map view).Sublist (part.map view))
    (h : (checkNames style excerpt program).value = .ok findings) :
    ∃ kept, (checkNames other excerpt program).value = .ok kept ∧
      (kept.map view).Sublist (findings.map view) := by
  obtain ⟨parts, hparts, rfl⟩ := checkNames_eq_ok_iff.1 h
  simp only [checkNames_eq_ok_iff]
  clear h
  generalize program.walk = visits at hvisit hparts
  induction hparts with
  | nil => exact ⟨[], ⟨[], .nil, rfl⟩, .slnil⟩
  | cons hpart _ ih =>
    rw [List.forall_mem_cons] at hvisit
    obtain ⟨kept, hkept, hsublist⟩ := hvisit.1 _ hpart
    obtain ⟨_, ⟨rest, hrest, rfl⟩, hsublists⟩ := ih hvisit.2
    refine ⟨kept ++ rest.flatten, ⟨kept :: rest, .cons hkept hrest, rfl⟩, ?_⟩
    simp only [List.flatten_cons, List.map_append]
    exact hsublist.append hsublists

/-- **The lenient style is the meet of the strict ones.**  At every place of a program, a run under
it flags what runs under both strict styles flag, and reports it in the words of `disallowed`; what
there is to be flagged does not depend on the style.  So what a lenient run finds is a sublist of
what `disallowed` finds, and it is located, in the same order, where `required` finds something
too. -/
theorem checkNames_optional (excerpt : Excerpt) (program : Expr) :
    (∀ visit ∈ program.walk,
      (visit.IsFlagged .optional excerpt ↔
        visit.IsFlagged .disallowed excerpt ∧ visit.IsFlagged .required excerpt) ∧
      (visit.IsFlagged .optional excerpt →
        (checkVisit .optional excerpt visit).value =
          (checkVisit .disallowed excerpt visit).value) ∧
      ∀ style, visit.IsFlagged style excerpt ↔
        ∃ found, (matchIdiom visit).value = .ok (some found) ∧
          style.accepts found.method.name found.candidate.ivar = false) ∧
    (∀ style findings, (checkNames style excerpt program).value = .ok findings ↔
      ∃ parts, List.Forall₂ (fun visit part => (checkVisit style excerpt visit).value = .ok part)
        program.walk parts ∧ findings = parts.flatten) ∧
    (∀ findings, (checkNames .disallowed excerpt program).value = .ok findings →
      ∃ kept, (checkNames .optional excerpt program).value = .ok kept ∧
        kept.Sublist findings) ∧
    ∀ findings, (checkNames .required excerpt program).value = .ok findings →
      ∃ kept, (checkNames .optional excerpt program).value = .ok kept ∧
        (kept.map (·.location)).Sublist (findings.map (·.location)) := by
  refine ⟨fun visit hvisit => ?_, fun _ _ => checkNames_eq_ok_iff, fun findings hfindings => ?_,
    fun findings hfindings => ?_⟩
  · simp only [Visit.isFlagged_iff hvisit]
    have hmeet : visit.complaints .optional ≠ [] ↔
        visit.complaints .disallowed ≠ [] ∧ visit.complaints .required ≠ [] := by
      rw [Visit.complaints_optional]
      split <;> simp_all
    exact ⟨hmeet, fun hflagged => checkVisit_optional hvisit (hmeet.1 hflagged).2,
      fun _ => Visit.complaints_ne_nil_iff⟩
  · have hkept := exists_sublist_of_visits id
      (fun visit hvisit part hpart => by
        simpa using exists_sublist_of_disallowed hvisit hpart) hfindings
    simpa using hkept
  · exact exists_sublist_of_visits (·.location)
      (fun visit hvisit part hpart => exists_sublist_of_required hvisit hpart) hfindings

end MemoAudit
