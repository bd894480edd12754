import MemoAudit.Idiom
import MemoAudit.Proofs.Visits

/-!
# What a method memoizes

The idioms are looked for from the inside, at every or-assignment and every `defined?` of a program,
by asking which method is around and whether the place found is the right one in it.  What is looked
for is a property of methods, though, and this file says it as one: `Memoizes body candidate` reads
the two idioms off a method's body, without places and without looking up from below.

The two readings agree.  A match at a place means that the method around it memoizes the candidate
and that the place is the one where the search starts, its *trigger* (`exists_memoizes_of_match`);
and every memoizing method has a match at its trigger (`exists_match_of_memoizes`).  Since a body
memoizes at most one candidate (`Memoizes.unique`) and a walk meets each place once, the matches
along a whole program are, in some order, one for each memoizing method (`perm_matches`).

No match along a walk fails (`match_eq_ok_found?`): the search only fails on a body that is an empty
sequence, and then there is nothing below the method to start from.
-/

namespace MemoAudit

/-! ## The idioms as properties of a body -/

/-- The body of a method caches its result. -/
inductive Memoizes : Option Expr → Candidate → Prop
  /-- The last statement is `@name ||= value`. -/
  | orAssign {body value : Option Expr} {name : String} {span whole : Span}
      (last : (Expr.statementsOf body).getLast? =
        some (.orAssign (some (.ivar name span)) value whole)) :
      Memoizes body (.orAssign ⟨name, span⟩)
  /-- The first statement is `return @ivar if defined?(@ivar)`, the last is `@ivar = value`, and
  none in between assigns the variable. -/
  | definedGuard {ivar : String} {checked check returned exit guard assigned last whole : Span}
      {middle : List Expr} {value : Option Expr}
      (once : ∀ value whole span, Expr.ivarAssign ivar value whole span ∉ middle) :
      Memoizes
        (some (.sequence
          (.conditional (some (.definedCheck (some (.ivar ivar checked)) check))
              (some (.returns (some (.ivar ivar returned)) exit)) none guard ::
            (middle ++ [.ivarAssign ivar value last assigned])) whole))
        (.definedGuard ivar ⟨ivar, checked⟩ ⟨ivar, returned⟩ ⟨ivar, assigned⟩)

/-- The candidate of a body that ends with an or-assignment. -/
def orAssigned? (body : Option Expr) : Option Candidate :=
  match (Expr.statementsOf body).getLast? with
  | some (.orAssign (some (.ivar name span)) _ _) => some (.orAssign ⟨name, span⟩)
  | _ => none

/-- The candidate of a body that starts with a guard and ends with an assignment. -/
def guarded? (body : Option Expr) : Option Candidate :=
  match body with
  | some (.sequence
      (.conditional (some (.definedCheck (some (.ivar ivar checked)) _))
        (some (.returns (some (.ivar ivar' returned)) _)) none _ :: rest) _) =>
    match rest.getLast? with
    | some (.ivarAssign ivar'' _ _ assigned) =>
      if ivar' = ivar ∧ ivar'' = ivar ∧ rest.dropLast.all (!·.assigns ivar) then
        some (.definedGuard ivar ⟨ivar, checked⟩ ⟨ivar, returned⟩ ⟨ivar, assigned⟩)
      else none
    | _ => none
  | _ => none

/-- Everything that a body memoizes. -/
def candidates (body : Option Expr) : List Candidate :=
  (orAssigned? body).toList ++ (guarded? body).toList

theorem Expr.assigns_iff {ivar : String} {e : Expr} :
    e.assigns ivar = true ↔ ∃ value whole span, e = .ivarAssign ivar value whole span := by
  cases e <;> simp [Expr.assigns, Expr.assigned?]

theorem all_not_assigns_iff {ivar : String} {statements : List Expr} :
    statements.all (!·.assigns ivar) = true ↔
      ∀ value whole span, Expr.ivarAssign ivar value whole span ∉ statements := by
  rw [List.all_eq_true]
  constructor
  · intro h value whole span hmem
    have hassigns : (Expr.ivarAssign ivar value whole span).assigns ivar = true :=
      Expr.assigns_iff.2 ⟨value, whole, span, rfl⟩
    simpa [hassigns] using h _ hmem
  · intro h statement hmem
    rw [Bool.not_eq_true', Bool.eq_false_iff]
    intro hassigns
    obtain ⟨value, whole, span, rfl⟩ := Expr.assigns_iff.1 hassigns
    exact h value whole span hmem

theorem orAssigned?_eq_some_iff {body : Option Expr} {candidate : Candidate} :
    orAssigned? body = some candidate ↔ ∃ name span value whole,
      (Expr.statementsOf body).getLast? = some (.orAssign (some (.ivar name span)) value whole) ∧
        candidate = .orAssign ⟨name, span⟩ := by
  unfold orAssigned?
  split
  · rename_i name span value whole hlast
    grind
  · rename_i hother
    simp only [reduceCtorEq, false_iff]
    rintro ⟨name, span, value, whole, hlast, -⟩
    exact hother _ _ _ _ hlast

theorem guarded?_eq_some_iff {body : Option Expr} {candidate : Candidate} :
    guarded? body = some candidate ↔
      ∃ ivar checked check returned exit guard assigned last whole middle value,
        body = some (.sequence
          (.conditional (some (.definedCheck (some (.ivar ivar checked)) check))
              (some (.returns (some (.ivar ivar returned)) exit)) none guard ::
            (middle ++ [.ivarAssign ivar value last assigned])) whole) ∧
        (∀ value whole span, Expr.ivarAssign ivar value whole span ∉ middle) ∧
        candidate = .definedGuard ivar ⟨ivar, checked⟩ ⟨ivar, returned⟩ ⟨ivar, assigned⟩ := by
  constructor
  · intro h
    unfold guarded? at h
    split at h
    · rename_i ivar checked check ivar' returned exit guard rest whole
      split at h
      · rename_i ivar'' value last assigned hlast
        split at h
        · rename_i hcondition
          obtain ⟨rfl, rfl, hall⟩ := hcondition
          refine ⟨_, checked, check, returned, exit, guard, assigned, last, whole, rest.dropLast,
            value, ?_, all_not_assigns_iff.1 hall, (Option.some.inj h).symm⟩
          rw [List.dropLast_append_getLast? _ hlast]
        · cases h
      · cases h
    · cases h
  · rintro ⟨ivar, checked, check, returned, exit, guard, assigned, last, whole, middle, value, rfl,
      hmiddle, rfl⟩
    have hall := all_not_assigns_iff.2 hmiddle
    simp [guarded?, hall]

theorem mem_candidates_iff {body : Option Expr} {candidate : Candidate} :
    candidate ∈ candidates body ↔ Memoizes body candidate := by
  rw [candidates, List.mem_append, Option.mem_toList, Option.mem_toList, orAssigned?_eq_some_iff,
    guarded?_eq_some_iff]
  constructor
  · rintro (⟨name, span, value, whole, hlast, rfl⟩ |
      ⟨ivar, checked, check, returned, exit, guard, assigned, last, whole, middle, value, rfl,
        hmiddle, rfl⟩)
    · exact .orAssign hlast
    · exact .definedGuard hmiddle
  · intro h
    cases h with
    | orAssign hlast => exact .inl ⟨_, _, _, _, hlast, rfl⟩
    | definedGuard once => exact .inr ⟨_, _, _, _, _, _, _, _, _, _, _, rfl, once, rfl⟩

/-- The last statement tells the idioms apart. -/
theorem guarded?_eq_none {body : Option Expr} {candidate : Candidate}
    (h : orAssigned? body = some candidate) : guarded? body = none := by
  obtain ⟨name, span, value, whole, hlast, -⟩ := orAssigned?_eq_some_iff.1 h
  rw [Option.eq_none_iff_forall_ne_some]
  intro other hother
  obtain ⟨_, _, _, _, _, _, _, _, _, _, _, rfl, -, -⟩ := guarded?_eq_some_iff.1 hother
  rw [Expr.statementsOf, ← List.cons_append, List.getLast?_concat] at hlast
  cases hlast

/-- A body memoizes one thing at most. -/
theorem candidates_eq_nil_or_singleton (body : Option Expr) :
    candidates body = [] ∨ ∃ candidate, candidates body = [candidate] := by
  unfold candidates
  cases h : orAssigned? body with
  | none => cases guarded? body <;> simp
  | some candidate => simp [guarded?_eq_none h]

theorem length_candidates_le_one (body : Option Expr) : (candidates body).length ≤ 1 := by
  rcases candidates_eq_nil_or_singleton body with hnone | ⟨candidate, hone⟩
  · rw [hnone]
    exact Nat.zero_le 1
  · rw [hone]
    exact Nat.le_refl 1

theorem Memoizes.unique {body : Option Expr} {a b : Candidate} (ha : Memoizes body a)
    (hb : Memoizes body b) : a = b := by
  rw [← mem_candidates_iff] at ha hb
  rcases candidates_eq_nil_or_singleton body with hnone | ⟨candidate, hone⟩
  · simp [hnone] at ha
  · rw [hone, List.mem_singleton] at ha hb
    rw [ha, hb]

/-! ## What the matchers answer -/

namespace MethodSite

/-- The address of the last statement. -/
def lastAddress (method : MethodSite) : Address :=
  match method.body with
  | some (.sequence statements _) => method.statementAddress (statements.length - 1)
  | _ => method.bodyAddress

/-- Where the search for a candidate starts: at the or-assignment, or at the check of the guard. -/
def trigger (method : MethodSite) : Candidate → Address
  | .orAssign _ => method.lastAddress
  | .definedGuard .. => method.statementAddress 0 ++ [0]

/-- The match of a candidate: its mentions are the target of the or-assignment, or the argument of
the check, the value of the `return` and the assignment. -/
def matchOf (method : MethodSite) : Candidate → IdiomMatch
  | .orAssign ivar => ⟨.orAssign ivar, method, [method.lastAddress ++ [0]]⟩
  | .definedGuard ivar checked returned assigned =>
    ⟨.definedGuard ivar checked returned assigned, method,
      [method.statementAddress 0 ++ [0, 0], method.statementAddress 0 ++ [1, 0],
        method.lastAddress]⟩

@[simp] theorem candidate_matchOf (method : MethodSite) (candidate : Candidate) :
    (method.matchOf candidate).candidate = candidate := by
  cases candidate <;> rfl

@[simp] theorem method_matchOf (method : MethodSite) (candidate : Candidate) :
    (method.matchOf candidate).method = method := by
  cases candidate <;> rfl

theorem endsWith_eq_true_iff {method : MethodSite} {address : Address} :
    method.endsWith address = .ok true ↔
      (∃ body, method.body = some body ∧ address = method.bodyAddress) ∨
        ∃ statements span, method.body = some (.sequence statements span) ∧ statements ≠ [] ∧
          address = method.statementAddress (statements.length - 1) := by
  unfold endsWith
  cases hbody : method.body with
  | none => simp
  | some body =>
    by_cases haddress : address = method.bodyAddress
    · simp [haddress]
    · cases body with
      | sequence statements span => cases statements <;> simp [haddress]
      | _ => simp [haddress]

theorem body_eq_of_endsWith_error {method : MethodSite} {address : Address} {fault : IdiomFault}
    (h : method.endsWith address = .error fault) :
    ∃ whole, method.body = some (.sequence [] whole) := by
  unfold endsWith at h
  split at h
  · cases h
  · rename_i body hbody
    split at h
    · cases h
    · split at h
      · exact ⟨_, hbody⟩
      · cases h
      · cases h

end MethodSite

theorem bind_mention?_eq_some_iff {e : Option Expr} {ivar : Mention} :
    e.bind Expr.mention? = some ivar ↔ e = some (.ivar ivar.name ivar.span) := by
  obtain ⟨name, span⟩ := ivar
  cases e with
  | none => simp
  | some e => cases e <;> simp [Expr.mention?]

theorem matchOrAssign_eq_some_iff {target : Option Expr} {visit : Visit} {found : IdiomMatch} :
    (matchOrAssign target visit).value = .ok (some found) ↔
      ∃ name span method, target = some (.ivar name span) ∧
        enclosingMethod? visit.trail = some method ∧
        method.endsWith visit.site.address = .ok true ∧
        found = ⟨.orAssign ⟨name, span⟩, method, [visit.site.address ++ [0]]⟩ := by
  unfold matchOrAssign
  split
  · rename_i ivar method htarget hmethod
    rw [bind_mention?_eq_some_iff] at htarget
    subst htarget
    cases hends : method.endsWith visit.site.address with
    | error fault => simp [hmethod, hends]
    | ok ends => cases ends <;> simp [hmethod, hends, eq_comm]
  · rename_i hother
    simp only [Logged.value_pure, Except.ok.injEq, reduceCtorEq, false_iff]
    rintro ⟨name, span, method, rfl, hmethod, -⟩
    exact hother ⟨name, span⟩ method rfl hmethod

theorem Expr.assigned?_eq_some_iff {e : Expr} {mention : Mention} :
    e.assigned? = some mention ↔
      ∃ value whole, e = .ivarAssign mention.name value whole mention.span := by
  obtain ⟨name, span⟩ := mention
  cases e <;> simp [Expr.assigned?]

theorem Expr.guarded?_eq_some_iff {e : Expr} {ivar : String} {mention : Mention} :
    e.guarded? ivar = some mention ↔ mention.name = ivar ∧
      ∃ condition exit whole, e = .conditional (some condition)
        (some (.returns (some (.ivar mention.name mention.span)) exit)) none whole := by
  constructor
  · intro h
    unfold Expr.guarded? at h
    split at h
    · split at h
      · rename_i hname
        obtain rfl := Option.some.inj h
        exact ⟨hname, _, _, _, rfl⟩
      · cases h
    · cases h
  · rintro ⟨rfl, condition, exit, whole, rfl⟩
    simp [Expr.guarded?]

theorem matchGuardedBody_eq_some_iff {checked : Mention} {address : Address} {method : MethodSite}
    {guard : Expr} {rest : List Expr} {found : IdiomMatch} :
    (matchGuardedBody checked address method guard rest).value = some found ↔
      address = method.statementAddress 0 ++ [0] ∧
        ∃ condition returned exit whole middle value last assigned,
          guard = .conditional (some condition)
            (some (.returns (some (.ivar checked.name returned)) exit)) none whole ∧
          rest = middle ++ [.ivarAssign checked.name value last assigned] ∧
          (∀ value whole span, Expr.ivarAssign checked.name value whole span ∉ middle) ∧
          found = ⟨.definedGuard checked.name checked ⟨checked.name, returned⟩
              ⟨checked.name, assigned⟩, method,
            [address ++ [0], method.statementAddress 0 ++ [1, 0],
              method.statementAddress rest.length]⟩ := by
  constructor
  · intro h
    unfold matchGuardedBody at h
    dsimp only at h
    split at h
    · cases h
    · rename_i hfound
      simp only [Option.bind_eq_bind, Option.bind_eq_some_iff, Option.ite_none_right_eq_some,
        Option.some.injEq, Prod.mk.injEq] at hfound
      obtain ⟨_, hlast, haddress, returned, hreturned, assigned, hassigned, hname, rfl, rfl⟩ :=
        hfound
      obtain ⟨hreturnedName, condition, exit, whole, rfl⟩ := Expr.guarded?_eq_some_iff.1 hreturned
      obtain ⟨value, last, rfl⟩ := Expr.assigned?_eq_some_iff.1 hassigned
      split at h
      · cases h
      · rename_i hany
        refine ⟨haddress, condition, returned.span, exit, whole, rest.dropLast, value, last,
          assigned.span, by rw [hreturnedName], ?_, ?_, ?_⟩
        · rw [← hname, List.dropLast_append_getLast? _ hlast]
        · rw [← all_not_assigns_iff, List.all_eq_not_any_not]
          simpa using hany
        · obtain ⟨name, span⟩ := returned
          obtain ⟨name', span'⟩ := assigned
          dsimp only at hreturnedName hname
          subst hreturnedName hname
          exact (Option.some.inj h).symm
  · rintro ⟨rfl, condition, returned, exit, whole, middle, value, last, assigned, rfl, rfl, hmiddle,
      rfl⟩
    have hany : middle.any (Expr.assigns checked.name) = false := by
      rw [List.any_eq_not_all_not, all_not_assigns_iff.2 hmiddle]
      rfl
    simp [matchGuardedBody, Expr.guarded?, Expr.assigned?, hany]

theorem matchDefinedGuard_eq_some_iff {argument : Option Expr} {visit : Visit}
    {found : IdiomMatch} :
    (matchDefinedGuard argument visit).value = .ok (some found) ↔
      ∃ name span method guard rest whole, argument = some (.ivar name span) ∧
        enclosingMethod? visit.trail = some method ∧
        method.body = some (.sequence (guard :: rest) whole) ∧
        (matchGuardedBody ⟨name, span⟩ visit.site.address method guard rest).value =
          some found := by
  unfold matchDefinedGuard
  split
  · rename_i checked method hargument hmethod
    rw [bind_mention?_eq_some_iff] at hargument
    subst hargument
    split
    · rename_i hbody
      simp [hmethod, hbody]
    · rename_i guard rest whole hbody
      simp [hmethod, hbody]
    · rename_i hother
      simp only [Logged.value_pure, Except.ok.injEq, reduceCtorEq, false_iff]
      rintro ⟨name, span, method', guard, rest, whole, -, hmethod', hbody, -⟩
      obtain rfl : method = method' := Option.some.inj (hmethod.symm.trans hmethod')
      exact hother guard rest whole hbody
  · rename_i hother
    simp only [Logged.value_pure, Except.ok.injEq, reduceCtorEq, false_iff]
    rintro ⟨name, span, method, guard, rest, whole, rfl, hmethod, -, -⟩
    exact hother ⟨name, span⟩ method rfl hmethod

theorem enclosingMethod?_of_match {visit : Visit} {found : IdiomMatch}
    (h : (matchIdiom visit).value = .ok (some found)) :
    enclosingMethod? visit.trail = some found.method := by
  unfold matchIdiom at h
  split at h
  · obtain ⟨_, _, method, -, hmethod, -, rfl⟩ := matchOrAssign_eq_some_iff.1 h
    exact hmethod
  · obtain ⟨_, _, method, _, _, _, -, hmethod, -, hguarded⟩ := matchDefinedGuard_eq_some_iff.1 h
    obtain ⟨-, _, _, _, _, _, _, _, _, -, -, -, rfl⟩ := matchGuardedBody_eq_some_iff.1 hguarded
    exact hmethod
  · cases h

/-- Looking for an idiom fails only inside a method that has no statement to offer. -/
theorem exists_empty_of_match_error {visit : Visit} {fault : IdiomFault}
    (h : (matchIdiom visit).value = .error fault) :
    ∃ method whole, enclosingMethod? visit.trail = some method ∧
      method.body = some (.sequence [] whole) ∧ visit.site.expr ≠ .sequence [] whole := by
  unfold matchIdiom at h
  split at h
  · rename_i target value span hexpr
    unfold matchOrAssign at h
    split at h
    · rename_i ivar method htarget hmethod
      cases hends : method.endsWith visit.site.address with
      | error fault =>
        obtain ⟨whole, hbody⟩ := MethodSite.body_eq_of_endsWith_error hends
        exact ⟨method, whole, hmethod, hbody, by rw [hexpr]; exact Expr.noConfusion⟩
      | ok ends => cases ends <;> simp [hends] at h
    · cases h
  · rename_i argument span hexpr
    unfold matchDefinedGuard at h
    split at h
    · rename_i checked method hargument hmethod
      split at h
      · rename_i whole hbody
        exact ⟨method, whole, hmethod, hbody, by rw [hexpr]; exact Expr.noConfusion⟩
      · cases h
      · cases h
    · cases h
  · cases h

/-! ## Matches and memoizing methods -/

theorem MethodSite.statementAddress_eq (method : MethodSite) (position : Nat) :
    method.statementAddress position = method.bodyAddress ++ [position] := by
  rw [statementAddress, bodyAddress, List.append_assoc, List.singleton_append]

section

variable {definition visit : Visit} {method : MethodSite} {rest : Address} {found : IdiomMatch}

/-- An or-assignment that a method ends with is its last statement. -/
theorem getLast?_of_endsWith {target value : Option Expr} {whole : Span}
    (hdefined : definition.site.method? = some method)
    (hway : definition.descend (0 :: rest) = some visit)
    (hexpr : visit.site.expr = .orAssign target value whole)
    (hends : method.endsWith visit.site.address = .ok true) :
    (Expr.statementsOf method.body).getLast? = some (.orAssign target value whole) ∧
      visit.site.address = method.lastAddress := by
  obtain ⟨-, body, hbody, hrest⟩ := Visit.descend_of_method? hdefined hway
  have haddress : visit.site.address = method.bodyAddress ++ rest := Visit.address_of_descend hrest
  rcases MethodSite.endsWith_eq_true_iff.1 hends with
    ⟨-, -, hwhole⟩ | ⟨statements, span, hsequence, hne, hlast⟩
  · -- The or-assignment is the whole body.
    obtain rfl : rest = [] := List.append_right_eq_self.1 (haddress.symm.trans hwhole)
    obtain rfl : body = .orAssign target value whole := by
      rw [← hexpr, ← Option.some.inj hrest]
    simp [hbody, Expr.statementsOf, hwhole, MethodSite.lastAddress]
  · -- It is the last statement of a sequence.
    obtain rfl : rest = [statements.length - 1] := by
      rw [haddress, MethodSite.statementAddress_eq] at hlast
      exact List.append_cancel_left hlast
    obtain rfl : body = .sequence statements span := Option.some.inj (hbody.symm.trans hsequence)
    rw [Visit.descend_cons] at hrest
    obtain ⟨child, hchild, hvisit⟩ := Option.bind_eq_some_iff.1 hrest
    obtain rfl : child = .orAssign target value whole := by
      rw [← hexpr, ← Option.some.inj hvisit]
    refine ⟨?_, ?_⟩
    · rw [hbody, Expr.statementsOf, List.getLast?_eq_getElem?]
      exact hchild
    · rw [hlast, MethodSite.lastAddress, hbody]

/-- A match is for something that the method around it memoizes, and it is found at the trigger. -/
theorem exists_memoizes_of_match (hdefined : definition.site.method? = some method)
    (hway : definition.descend (0 :: rest) = some visit)
    (hmethod : enclosingMethod? visit.trail = some method)
    (hfound : (matchIdiom visit).value = .ok (some found)) :
    ∃ candidate, Memoizes method.body candidate ∧
      visit.site.address = method.trigger candidate ∧ found = method.matchOf candidate := by
  obtain ⟨-, body, hbody, hrest⟩ := Visit.descend_of_method? hdefined hway
  have haddress : visit.site.address = method.bodyAddress ++ rest := Visit.address_of_descend hrest
  unfold matchIdiom at hfound
  split at hfound
  · rename_i target value whole hexpr
    obtain ⟨name, span, method', rfl, hmethod', hends, rfl⟩ := matchOrAssign_eq_some_iff.1 hfound
    obtain rfl : method = method' := Option.some.inj (hmethod.symm.trans hmethod')
    obtain ⟨hlast, htrigger⟩ := getLast?_of_endsWith hdefined hway hexpr hends
    refine ⟨.orAssign ⟨name, span⟩, .orAssign hlast, htrigger, ?_⟩
    rw [htrigger, MethodSite.matchOf]
  · rename_i argument check hexpr
    obtain ⟨name, span, method', guard, statements, whole, rfl, hmethod', hsequence, hguarded⟩ :=
      matchDefinedGuard_eq_some_iff.1 hfound
    obtain rfl : method = method' := Option.some.inj (hmethod.symm.trans hmethod')
    obtain ⟨htrigger, condition, returned, exit, guardSpan, middle, value, last, assigned, rfl, rfl,
      honce, rfl⟩ := matchGuardedBody_eq_some_iff.1 hguarded
    obtain rfl : rest = [0, 0] := by
      rw [haddress, MethodSite.statementAddress_eq, List.append_assoc] at htrigger
      exact List.append_cancel_left htrigger
    obtain rfl : body = _ := Option.some.inj (hbody.symm.trans hsequence)
    -- Two steps down from the body stands the condition of the guard.
    obtain rfl : condition = .definedCheck (some (.ivar name span)) check := by
      rw [Visit.descend_cons, Expr.children, List.getElem?_cons_zero, Option.bind_some,
        Visit.descend_cons] at hrest
      rw [← hexpr, ← Option.some.inj hrest]
    refine ⟨.definedGuard name ⟨name, span⟩ ⟨name, returned⟩ ⟨name, assigned⟩, ?_, htrigger, ?_⟩
    · rw [hsequence]
      exact .definedGuard honce
    · simp [htrigger, MethodSite.matchOf, MethodSite.lastAddress, hsequence]
  · cases hfound

/-- The last statement of a method is in this method and in none further down. -/
theorem exists_last {e : Expr} (hdefined : definition.site.method? = some method)
    (hlast : (Expr.statementsOf method.body).getLast? = some e) :
    ∃ rest trail, definition.descend (0 :: rest) = some ⟨⟨method.lastAddress, e⟩, trail⟩ ∧
      enclosingMethod? trail = some method ∧ method.endsWith method.lastAddress = .ok true := by
  have henclosing : enclosingMethod? (definition.site :: definition.trail) = some method := by
    rw [enclosingMethod?_cons, hdefined, Option.some_or]
  cases hbody : method.body with
  | none => simp [hbody, Expr.statementsOf] at hlast
  | some body =>
    by_cases hsequence : ∃ statements span, body = .sequence statements span
    · obtain ⟨statements, span, rfl⟩ := hsequence
      rw [hbody, Expr.statementsOf] at hlast
      have hne : statements ≠ [] := by rintro rfl; simp at hlast
      have haddress : method.lastAddress = method.statementAddress (statements.length - 1) := by
        rw [MethodSite.lastAddress, hbody]
      refine ⟨[statements.length - 1],
        ⟨method.bodyAddress, .sequence statements span⟩ :: definition.site :: definition.trail,
        ?_, ?_, ?_⟩
      · rw [List.getLast?_eq_getElem?] at hlast
        rw [Visit.descend_body hdefined hbody, Visit.descend_cons, Expr.children, hlast, haddress,
          MethodSite.statementAddress_eq]
        rfl
      · exact henclosing
      · exact MethodSite.endsWith_eq_true_iff.2 (.inr ⟨statements, span, hbody, hne, haddress⟩)
    · have hstatements : Expr.statementsOf (some body) = [body] := by
        cases body <;> simp_all [Expr.statementsOf]
      have haddress : method.lastAddress = method.bodyAddress := by
        rw [MethodSite.lastAddress, hbody]
        split
        · rename_i statements span heq
          exact absurd ⟨statements, span, Option.some.inj heq⟩ hsequence
        · rfl
      rw [hbody, hstatements] at hlast
      obtain rfl : body = e := by simpa using hlast
      refine ⟨[], definition.site :: definition.trail, ?_, henclosing, ?_⟩
      · rw [Visit.descend_body hdefined hbody, haddress]
        rfl
      · exact MethodSite.endsWith_eq_true_iff.2 (.inl ⟨body, hbody, haddress⟩)

/-- Whatever a method memoizes is found at the trigger, which is in this method and in none further
down. -/
theorem exists_match_of_memoizes {candidate : Candidate}
    (hdefined : definition.site.method? = some method) (h : Memoizes method.body candidate) :
    ∃ visit rest, definition.descend (0 :: rest) = some visit ∧
      enclosingMethod? visit.trail = some method ∧
      visit.site.address = method.trigger candidate ∧
      (matchIdiom visit).value = .ok (some (method.matchOf candidate)) := by
  generalize hbody : method.body = body at h
  cases h with
  | orAssign hlast =>
    rw [← hbody] at hlast
    obtain ⟨rest, trail, hway, hmethod, hends⟩ := exists_last hdefined hlast
    refine ⟨_, rest, hway, hmethod, rfl, ?_⟩
    exact matchOrAssign_eq_some_iff.2 ⟨_, _, method, rfl, hmethod, hends, rfl⟩
  | definedGuard once =>
    rename_i ivar checked check returned exit guard assigned last whole middle value
    have hmethod : enclosingMethod? (definition.site :: definition.trail) = some method := by
      rw [enclosingMethod?_cons, hdefined, Option.some_or]
    have haddress : method.address ++ [0] ++ [0] ++ [0] = method.statementAddress 0 ++ [0] := by
      rw [MethodSite.statementAddress_eq, MethodSite.bodyAddress]
    have hway := Visit.descend_body hdefined hbody [0, 0]
    rw [Visit.descend_cons ⟨⟨method.address ++ [0], _⟩, _⟩, Expr.children, List.getElem?_cons_zero,
      Option.bind_some, Visit.descend_cons ⟨⟨method.address ++ [0] ++ [0], _⟩, _⟩] at hway
    refine ⟨_, [0, 0], hway, ?_, ?_, ?_⟩
    · exact hmethod
    · exact haddress
    · refine matchDefinedGuard_eq_some_iff.2
        ⟨ivar, checked, method, _, _, whole, rfl, hmethod, hbody, ?_⟩
      refine matchGuardedBody_eq_some_iff.2 ⟨haddress, _, returned, exit, guard, middle, value,
        last, assigned, rfl, rfl, once, ?_⟩
      simp [MethodSite.matchOf, MethodSite.lastAddress, MethodSite.statementAddress, hbody]

end

/-- What is found at a visit, if the search does not fail. -/
def Visit.found? (visit : Visit) : Option IdiomMatch := (matchIdiom visit).value.toOption.join

theorem Visit.found?_eq_some_iff {visit : Visit} {found : IdiomMatch} :
    visit.found? = some found ↔ (matchIdiom visit).value = .ok (some found) := by
  unfold Visit.found?
  cases (matchIdiom visit).value <;> simp [Except.toOption]

/-- Everything that is found along a walk. -/
def Expr.found (program : Expr) : List IdiomMatch := program.walk.filterMap Visit.found?

section

variable {program : Expr} {visit : Visit}

/-- No search along a walk fails: nothing is visited below an empty sequence. -/
theorem match_eq_ok_found? (h : visit ∈ program.walk) :
    (matchIdiom visit).value = .ok visit.found? := by
  cases hmatch : (matchIdiom visit).value with
  | ok found => simp [Visit.found?, hmatch, Except.toOption]
  | error fault =>
    obtain ⟨method, whole, hmethod, hbody, hexpr⟩ := exists_empty_of_match_error hmatch
    obtain ⟨definition, -, rest, hdefined, hway⟩ := Expr.exists_definition h hmethod
    rw [Visit.descend_body hdefined hbody] at hway
    cases rest with
    | nil => exact absurd (by rw [← Option.some.inj hway]) hexpr
    | cons position rest => simp [Expr.children] at hway

theorem exists_memoizes_of_found? {found : IdiomMatch} (h : visit ∈ program.walk)
    (hfound : visit.found? = some found) :
    ∃ method ∈ program.methodSites, ∃ candidate, Memoizes method.body candidate ∧
      visit.site.address = method.trigger candidate ∧ found = method.matchOf candidate := by
  rw [Visit.found?_eq_some_iff] at hfound
  have hmethod := enclosingMethod?_of_match hfound
  obtain ⟨definition, hmem, rest, hdefined, hway⟩ := Expr.exists_definition h hmethod
  exact ⟨found.method, Expr.mem_methodSites.2 ⟨definition, hmem, hdefined⟩,
    exists_memoizes_of_match hdefined hway hmethod hfound⟩

theorem nodup_found (program : Expr) : program.found.Nodup := by
  rw [Expr.found, List.Nodup, List.pairwise_filterMap]
  refine (Visit.nodup_reach (.root program)).imp_of_mem ?_
  intro a b ha hb hne found hfound other hother heq
  subst heq
  obtain ⟨method, -, candidate, -, haddress, rfl⟩ := exists_memoizes_of_found? ha hfound
  obtain ⟨method', -, candidate', -, haddress', heq⟩ := exists_memoizes_of_found? hb hother
  obtain rfl : method = method' := by simpa using congrArg IdiomMatch.method heq
  obtain rfl : candidate = candidate' := by simpa using congrArg IdiomMatch.candidate heq
  exact hne (Expr.eq_of_address_eq ha hb (haddress.trans haddress'.symm))

theorem nodup_matchOf (program : Expr) :
    (program.methodSites.flatMap fun method =>
      (candidates method.body).map method.matchOf).Nodup := by
  rw [List.nodup_flatMap]
  constructor
  · intro method _
    rcases candidates_eq_nil_or_singleton method.body with hnone | ⟨candidate, hone⟩
    · simp [hnone]
    · simp [hone]
  · refine (Expr.nodup_methodSites program).imp ?_
    intro a b hne found hfoundA hfoundB
    obtain ⟨candidate, -, rfl⟩ := List.mem_map.1 hfoundA
    obtain ⟨candidate', -, heq⟩ := List.mem_map.1 hfoundB
    exact hne (by simpa using (congrArg IdiomMatch.method heq).symm)

/-- The matches along a program are, in some order, one for each method that memoizes something. -/
theorem perm_matches (program : Expr) :
    program.found.Perm
      (program.methodSites.flatMap fun method => (candidates method.body).map method.matchOf) := by
  rw [List.perm_ext_iff_of_nodup (nodup_found program) (nodup_matchOf program)]
  intro found
  rw [Expr.found, List.mem_filterMap, List.mem_flatMap]
  constructor
  · rintro ⟨visit, hvisit, hfound⟩
    obtain ⟨method, hmethod, candidate, hmemoizes, -, rfl⟩ :=
      exists_memoizes_of_found? hvisit hfound
    exact ⟨method, hmethod, List.mem_map_of_mem (mem_candidates_iff.2 hmemoizes)⟩
  · rintro ⟨method, hmethod, hfound⟩
    obtain ⟨candidate, hcandidate, rfl⟩ := List.mem_map.1 hfound
    obtain ⟨definition, hdefinition, hdefined⟩ := Expr.mem_methodSites.1 hmethod
    obtain ⟨visit, rest, hway, -, -, hmatch⟩ :=
      exists_match_of_memoizes hdefined (mem_candidates_iff.1 hcandidate)
    exact ⟨visit, Expr.mem_walk_of_descend hdefinition hway, Visit.found?_eq_some_iff.2 hmatch⟩

theorem mem_found_iff {found : IdiomMatch} :
    found ∈ program.found ↔ ∃ method ∈ program.methodSites, ∃ candidate,
      Memoizes method.body candidate ∧ found = method.matchOf candidate := by
  simp [(perm_matches program).mem_iff, mem_candidates_iff, eq_comm]

end

end MemoAudit
