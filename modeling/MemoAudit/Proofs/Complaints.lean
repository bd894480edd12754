import MemoAudit.Rule
import MemoAudit.Proofs.Memoization

/-!
# Complaints, method by method

The rule goes through a program place by place and emits findings at the triggers of the idioms.
Read from the outside it is simpler: every method definition prescribes some complaints by itself
(`Expr.complaints`), none, one or three, and a run reports those of all definitions.  This file
proves that the run and the prescription agree (`checkNames_prescribed`).

A complaint is a message and a span, and becomes a finding when its span is turned into a location,
which counts lines and columns from one.  A span that does not (`Span.IsOneBased`) is the only thing
that a run can stumble over, and it does so exactly if some definition prescribes a complaint there.
Until then the run is a `mapM` of `Complaint.finding` along the walk (`value_checkVisits`), so that
all that is left is to put the complaints of the walk into the order of the definitions
(`perm_complaints`).
-/

open scoped List

namespace MemoAudit

/-! ## What a definition prescribes -/

/-- Something to be said about a place. -/
structure Complaint where
  message : String
  span : Span
  deriving DecidableEq, Repr, Inhabited

/-- The complaints about a candidate in a method: none if its name is acceptable, otherwise the same
one for every mention of the variable. -/
def complaintsAbout (style : Style) (method : String) (candidate : Candidate) : List Complaint :=
  if style.accepts method candidate.ivar then []
  else candidate.spans.map fun span => ⟨style.message candidate.ivar method, span⟩

/-- The complaints that an expression prescribes by itself, which only definitions of methods do. -/
def Expr.complaints (style : Style) : Expr → List Complaint
  | .method name body _ _ _ => (candidates body).flatMap (complaintsAbout style name)
  | _ => []

/-- The complaints of all definitions in a program. -/
def Expr.prescribed (style : Style) (program : Expr) : List Complaint :=
  program.descendants.flatMap (Expr.complaints style)

theorem length_complaintsAbout (style : Style) (method : String) (candidate : Candidate) :
    (complaintsAbout style method candidate).length ∈ [0, 1, 3] := by
  unfold complaintsAbout
  split
  · simp
  · cases candidate <;> simp [Candidate.spans]

theorem Expr.length_complaints (style : Style) (e : Expr) :
    (e.complaints style).length ∈ [0, 1, 3] := by
  unfold Expr.complaints
  split
  · rename_i name body _ _ _
    rcases candidates_eq_nil_or_singleton body with hnone | ⟨candidate, hone⟩
    · simp [hnone]
    · simpa [hone] using length_complaintsAbout style name candidate
  · simp

/-- A prescribed complaint is about a method of the program: about something that it memoizes under
a name that it does not accept. -/
theorem Expr.exists_method_of_prescribed {style : Style} {program : Expr} {complaint : Complaint}
    (h : complaint ∈ program.prescribed style) :
    ∃ name body span nameSpan singleton candidate,
      .method name body span nameSpan singleton ∈ program.descendants ∧
        Memoizes body candidate ∧ style.accepts name candidate.ivar = false ∧
        complaint.span ∈ candidate.spans ∧
        complaint.message = style.message candidate.ivar name := by
  obtain ⟨e, he, hcomplaint⟩ := List.mem_flatMap.1 h
  unfold Expr.complaints at hcomplaint
  split at hcomplaint
  · obtain ⟨candidate, hcandidate, hcomplaint⟩ := List.mem_flatMap.1 hcomplaint
    unfold complaintsAbout at hcomplaint
    split at hcomplaint
    · cases hcomplaint
    · rename_i hrejected
      obtain ⟨span, hspan, rfl⟩ := List.mem_map.1 hcomplaint
      exact ⟨_, _, _, _, _, candidate, he, mem_candidates_iff.1 hcandidate,
        Bool.eq_false_iff.2 hrejected, hspan, rfl⟩
  · cases hcomplaint

/-! ## Locations -/

/-- The span counts lines and columns from one. -/
def Span.IsOneBased (span : Span) : Prop :=
  1 ≤ span.first.line ∧ 1 ≤ span.first.column ∧ 1 ≤ span.last.line ∧ 1 ≤ span.last.column

instance (span : Span) : Decidable span.IsOneBased :=
  inferInstanceAs (Decidable (_ ∧ _ ∧ _ ∧ _))

namespace Checked

variable {α β : Type}

theorem map_eq_good_iff {f : α → β} {a : Checked α} {b : β} :
    f <$> a = .good b ↔ ∃ x, a = .good x ∧ f x = b := by
  cases a <;> simp [Functor.map]

theorem seq_eq_good_iff {f : Checked (α → β)} {a : Checked α} {b : β} :
    f <*> a = .good b ↔ ∃ g x, f = .good g ∧ a = .good x ∧ g x = b := by
  cases f <;> cases a <;> simp [Seq.seq]

theorem ofField_eq_good_iff {field : String} {result : Except FieldCause α} {a : α} :
    ofField field result = .good a ↔ result = .ok a := by
  cases result <;> simp [ofField]

end Checked

theorem Raw.exists_ordinalOf_iff {n : Int} :
    (∃ ordinal, Raw.ordinalOf n = .ok ordinal) ↔ 1 ≤ n := by
  unfold Raw.ordinalOf Ordinal.ofInt?
  by_cases h : 1 ≤ n <;> simp [h]

/-- A span has a location exactly if it counts from one. -/
theorem Location.exists_ofSpan_iff {path : Path} {source : Bytes} {span : Span} :
    (∃ location, Location.ofSpan path source span = .good location) ↔ span.IsOneBased := by
  simp only [Span.IsOneBased, ← Raw.exists_ordinalOf_iff, Location.ofSpan, Checked.seq_eq_good_iff,
    Checked.map_eq_good_iff, Checked.ofField_eq_good_iff]
  constructor
  · rintro ⟨_, _, d, ⟨_, c, ⟨_, b, ⟨a, ha, -⟩, hb, -⟩, hc, -⟩, hd, -⟩
    exact ⟨⟨a, ha⟩, ⟨b, hb⟩, ⟨c, hc⟩, ⟨d, hd⟩⟩
  · rintro ⟨⟨a, ha⟩, ⟨b, hb⟩, ⟨c, hc⟩, ⟨d, hd⟩⟩
    exact ⟨_, _, d, ⟨_, c, ⟨_, b, ⟨a, ha, rfl⟩, hb, rfl⟩, hc, rfl⟩, hd, rfl⟩

/-- The finding that a complaint becomes at its location. -/
def Complaint.finding (excerpt : Excerpt) (complaint : Complaint) :
    Except (List FieldFault) Finding :=
  excerpt.finding namingRuleId complaint.message defaultSeverity complaint.span

theorem Complaint.finding_eq_ok_iff {excerpt : Excerpt} {complaint : Complaint}
    {finding : Finding} :
    complaint.finding excerpt = .ok finding ↔
      ∃ location, Location.ofSpan excerpt.path excerpt.source complaint.span = .good location ∧
        finding = ⟨namingRuleId, complaint.message, location, defaultSeverity⟩ := by
  unfold Complaint.finding Excerpt.finding
  cases Location.ofSpan excerpt.path excerpt.source complaint.span <;>
    simp [Checked.toExcept, bind, Except.bind, pure, Except.pure, eq_comm]

theorem Complaint.exists_finding_iff {excerpt : Excerpt} {complaint : Complaint} :
    (∃ finding, complaint.finding excerpt = .ok finding) ↔ complaint.span.IsOneBased := by
  simp only [finding_eq_ok_iff, ← @Location.exists_ofSpan_iff excerpt.path excerpt.source]
  rw [exists_comm]
  simp

/-! ## Steps that may fail -/

section

variable {α β ε : Type}

/-- What a computation that succeeds went through. -/
theorem exists_of_bind_eq_ok {x : Except ε α} {f : α → Except ε β} {b : β}
    (h : x >>= f = .ok b) : ∃ a, x = .ok a ∧ f a = .ok b := by
  cases x with
  | error fault => cases h
  | ok a => exact ⟨a, rfl, h⟩

theorem exists_bind_eq_ok {x : Except ε α} {f : α → Except ε β}
    (hx : ∃ a, x = .ok a) (hf : ∀ a, ∃ b, f a = .ok b) : ∃ b, x >>= f = .ok b := by
  obtain ⟨a, rfl⟩ := hx
  exact hf a

theorem exists_bind_of_eq_ok {x : Except ε α} {f : α → Except ε β} {a : α} (hx : x = .ok a)
    (hf : ∃ b, f a = .ok b) : ∃ b, x >>= f = .ok b := by
  rw [hx]
  exact hf

/-- Where the second step cannot fail, all depends on the first. -/
theorem exists_bind_eq_ok_iff {x : Except ε α} {f : α → Except ε β}
    (hf : ∀ a, ∃ b, f a = .ok b) : (∃ b, x >>= f = .ok b) ↔ ∃ a, x = .ok a := by
  refine ⟨?_, fun hx => exists_bind_eq_ok hx hf⟩
  rintro ⟨b, h⟩
  obtain ⟨a, ha, -⟩ := exists_of_bind_eq_ok h
  exact ⟨a, ha⟩

variable {f : α → Except ε β}

theorem mapM_eq_ok_iff {as : List α} {bs : List β} :
    as.mapM f = .ok bs ↔ as.map f = bs.map .ok := by
  induction as generalizing bs with
  | nil => cases bs <;> simp [pure, Except.pure]
  | cons a as ih =>
    rw [List.mapM_cons]
    cases ha : f a with
    | error fault => cases bs <;> simp [bind, Except.bind, ha]
    | ok b =>
      cases has : as.mapM f with
      | error fault =>
        cases bs <;> simp [bind, Except.bind, ha, ← ih, has]
      | ok bs' =>
        cases bs <;> simp [bind, Except.bind, pure, Except.pure, ha, ← ih, has]

theorem exists_mapM_eq_ok_iff {as : List α} :
    (∃ bs, as.mapM f = .ok bs) ↔ ∀ a ∈ as, ∃ b, f a = .ok b := by
  induction as with
  | nil => simp [pure, Except.pure]
  | cons a as ih =>
    rw [List.mapM_cons, List.forall_mem_cons, ← ih]
    cases ha : f a with
    | error fault => simp [bind, Except.bind]
    | ok b => cases has : as.mapM f <;> simp [bind, Except.bind, pure, Except.pure]

theorem exists_of_mem_mapM {as : List α} {bs : List β} (h : as.mapM f = .ok bs) {b : β}
    (hb : b ∈ bs) : ∃ a ∈ as, f a = .ok b := by
  have hok : (.ok b : Except ε β) ∈ bs.map .ok := List.mem_map_of_mem hb
  rw [← mapM_eq_ok_iff.1 h] at hok
  exact List.mem_map.1 hok

end

/-! ## The run -/

/-- The complaints about what is found at a visit. -/
def Visit.complaints (style : Style) (visit : Visit) : List Complaint :=
  visit.found?.toList.flatMap fun found =>
    complaintsAbout style found.method.name found.candidate

theorem toExcept_emit (candidate : Candidate) (method : String) (style : Style)
    (excerpt : Excerpt) :
    (emit candidate method style excerpt namingRuleId).value.toExcept =
      (complaintsAbout style method candidate).mapM (Complaint.finding excerpt) := by
  unfold emit complaintsAbout
  split
  · rfl
  · rw [List.mapM_map, Logged.value_bind]
    dsimp only
    -- What is done at each span is to make the finding of a complaint.
    split
    · rename_i findings hfindings
      exact hfindings.symm
    · rename_i faults hfaults
      exact hfaults.symm

theorem value_checkVisit (style : Style) (excerpt : Excerpt) {visit : Visit}
    (h : (matchIdiom visit).value = .ok visit.found?) :
    (checkVisit style excerpt visit).value =
      ((visit.complaints style).mapM (Complaint.finding excerpt)).mapError .location := by
  rw [checkVisit, Logged.value_bind, h, Visit.complaints]
  cases hfound : visit.found? with
  | none => rfl
  | some found =>
    have hemit := toExcept_emit found.candidate found.method.name style excerpt
    rw [Option.toList_some, List.flatMap_singleton, ← hemit, Logged.value_bind]
    cases (emit found.candidate found.method.name style excerpt namingRuleId).value <;> rfl

theorem value_checkVisits (style : Style) (excerpt : Excerpt) {visits : List Visit}
    (h : ∀ visit ∈ visits, (matchIdiom visit).value = .ok visit.found?) :
    (checkVisits style excerpt visits).value =
      ((visits.flatMap (Visit.complaints style)).mapM (Complaint.finding excerpt)).mapError
        .location := by
  induction visits with
  | nil => rfl
  | cons visit visits ih =>
    rw [List.forall_mem_cons] at h
    rw [checkVisits, Logged.value_bind, value_checkVisit style excerpt h.1, List.flatMap_cons,
      List.mapM_append]
    cases (visit.complaints style).mapM (Complaint.finding excerpt) with
    | error faults => rfl
    | ok findings =>
      simp only [Except.mapError, Logged.value_bind, ih h.2]
      cases (visits.flatMap (Visit.complaints style)).mapM (Complaint.finding excerpt) <;> rfl

theorem value_checkNames (style : Style) (excerpt : Excerpt) (program : Expr) :
    (checkNames style excerpt program).value =
      ((program.walk.flatMap (Visit.complaints style)).mapM (Complaint.finding excerpt)).mapError
        .location := by
  rw [← value_checkVisits style excerpt fun _ => match_eq_ok_found?, checkNames, Logged.value_bind]
  cases (checkVisits style excerpt program.walk).value <;> rfl

theorem complaints_walk (style : Style) (program : Expr) :
    program.walk.flatMap (Visit.complaints style) =
      program.found.flatMap fun found =>
        complaintsAbout style found.method.name found.candidate := by
  rw [Expr.found, List.filterMap_eq_flatMap_toList, List.flatMap_assoc]
  rfl

/-- Along a walk the complaints come in the order of their triggers; otherwise they are those of the
definitions. -/
theorem perm_complaints (style : Style) (program : Expr) :
    (program.walk.flatMap (Visit.complaints style)).Perm (program.prescribed style) := by
  have hvisit (visit : Visit) : visit.site.expr.complaints style =
      visit.site.method?.toList.flatMap fun method =>
        (candidates method.body).flatMap (complaintsAbout style method.name) := by
    unfold Expr.complaints Occurrence.method?
    split <;> simp_all
  have hexprs : program.descendants = program.walk.map (·.site.expr) :=
    (Visit.map_expr_reach (.root program)).symm
  calc program.walk.flatMap (Visit.complaints style)
    _ = program.found.flatMap fun found =>
          complaintsAbout style found.method.name found.candidate := complaints_walk style program
    _ ~ (program.methodSites.flatMap fun method =>
          (candidates method.body).map method.matchOf).flatMap fun found =>
            complaintsAbout style found.method.name found.candidate :=
      (perm_matches program).flatMap_right _
    _ = program.methodSites.flatMap fun method =>
          (candidates method.body).flatMap (complaintsAbout style method.name) := by
      simp [List.flatMap_assoc, List.flatMap_map]
    _ = program.prescribed style := by
      rw [Expr.methodSites, List.filterMap_eq_flatMap_toList, List.flatMap_assoc, Expr.prescribed,
        hexprs, List.flatMap_map]
      exact List.flatMap_congr fun visit _ => (hvisit visit).symm

/-- A finding of a run is that of a prescribed complaint. -/
theorem exists_complaint_of_finding {style : Style} {excerpt : Excerpt} {program : Expr}
    {findings : List Finding} {finding : Finding}
    (h : (checkNames style excerpt program).value = .ok findings) (hmem : finding ∈ findings) :
    ∃ complaint ∈ program.prescribed style, complaint.finding excerpt = .ok finding := by
  rw [value_checkNames] at h
  cases hrun : (program.walk.flatMap (Visit.complaints style)).mapM (Complaint.finding excerpt) with
  | error faults => simp [hrun, Except.mapError] at h
  | ok found =>
    obtain rfl : found = findings := by simpa [hrun, Except.mapError] using h
    obtain ⟨complaint, hcomplaint, hfinding⟩ := exists_of_mem_mapM hrun hmem
    exact ⟨complaint, (perm_complaints style program).subset hcomplaint, hfinding⟩

/-- A run succeeds exactly if every prescribed complaint is at a span that counts from one. -/
theorem exists_checkNames_iff {style : Style} {excerpt : Excerpt} {program : Expr} :
    (∃ findings, (checkNames style excerpt program).value = .ok findings) ↔
      ∀ complaint ∈ program.prescribed style, complaint.span.IsOneBased := by
  have hrun : (∃ findings, (checkNames style excerpt program).value = .ok findings) ↔
      ∃ findings, (program.walk.flatMap (Visit.complaints style)).mapM
        (Complaint.finding excerpt) = .ok findings := by
    rw [value_checkNames]
    cases (program.walk.flatMap (Visit.complaints style)).mapM (Complaint.finding excerpt) <;>
      simp [Except.mapError]
  rw [hrun, exists_mapM_eq_ok_iff]
  simp only [Complaint.exists_finding_iff, (perm_complaints style program).mem_iff]

/-- **A run reports what the definitions prescribe.**  Unless one of them prescribes a complaint at
a span that does not count from one, a run succeeds, and its findings are those of the complaints of
all definitions, at whatever depth, each as often as it is prescribed.  What is prescribed depends
on what a body memoizes, which is at most one candidate, so that a definition contributes none, one
or three. -/
theorem checkNames_prescribed (style : Style) (excerpt : Excerpt) (program : Expr) :
    (match (checkNames style excerpt program).value with
      | .ok findings => (findings.map Except.ok).Perm
          ((program.prescribed style).map (Complaint.finding excerpt))
      | .error _ => ∃ complaint ∈ program.prescribed style, ¬ complaint.span.IsOneBased) ∧
    (∀ body candidate, candidate ∈ candidates body ↔ Memoizes body candidate) ∧
    (∀ body, (candidates body).length ≤ 1) ∧
    ∀ definition : Expr, (definition.complaints style).length ∈ [0, 1, 3] := by
  refine ⟨?_, fun _ _ => mem_candidates_iff, length_candidates_le_one, Expr.length_complaints style⟩
  have hperm := perm_complaints style program
  rw [value_checkNames]
  cases hrun : (program.walk.flatMap (Visit.complaints style)).mapM (Complaint.finding excerpt) with
  | ok findings =>
    rw [mapM_eq_ok_iff] at hrun
    change (findings.map Except.ok).Perm _
    rw [← hrun]
    exact hperm.map _
  | error faults =>
    change ∃ complaint ∈ program.prescribed style, ¬ complaint.span.IsOneBased
    by_contra hnone
    simp only [not_exists, not_and, not_not] at hnone
    obtain ⟨findings, hfindings⟩ := exists_mapM_eq_ok_iff.2 fun complaint hmem =>
      (@Complaint.exists_finding_iff excerpt complaint).2 (hnone complaint (hperm.subset hmem))
    rw [hrun] at hfindings
    cases hfindings

end MemoAudit
