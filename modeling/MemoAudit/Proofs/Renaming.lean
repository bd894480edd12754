import MemoAudit.Idiom
import MemoAudit.Proofs.Visits

/-!
# Renaming variables in place

`Expr.rename` gives new names to the variables of an expression.  Which ones is said by address, not
by name: of two equal expressions at different places one may be renamed and the other not.  Nothing
but names changes, so that a renamed expression is walked exactly as before: the visits of a renamed
program are the renamed visits (`Expr.walk_rename`), and its methods are the old ones with their
bodies renamed (`Expr.methodSites_rename`).

`Expr.withChildren` puts expressions in place of the direct subexpressions of another.  By means of
it the recursion is the same for all forms of expressions, and so are the proofs; the equations for
each form (`Expr.rename_sequence` and the like) follow.
-/

namespace MemoAudit

namespace Expr

/-- What is put into a slot: the child at the given position, unless the slot is empty. -/
def refill (children : List Expr) (slot : Option Expr) (position : Nat) : Option Expr :=
  slot.bind fun _ => children[position]?

/-- The expression with other direct subexpressions, as many as it has. -/
def withChildren (e : Expr) (children : List Expr) : Expr :=
  match e with
  | .program _ span => .program children span
  | .method name body span nameSpan singleton =>
    .method name (refill children body 0) span nameSpan singleton
  | .ivar name span => .ivar name span
  | .ivarAssign name value span nameSpan => .ivarAssign name (refill children value 0) span nameSpan
  | .orAssign target value span =>
    .orAssign (refill children target 0) (refill children value target.toList.length) span
  | .conditional condition thenBranch elseBranch span =>
    .conditional (refill children condition 0) (refill children thenBranch condition.toList.length)
      (refill children elseBranch (condition.toList.length + thenBranch.toList.length)) span
  | .definedCheck argument span => .definedCheck (refill children argument 0) span
  | .returns value span => .returns (refill children value 0) span
  | .sequence _ span => .sequence children span
  | .other kind _ span => .other kind children span

theorem toList_refill (children : List Expr) (slot : Option Expr) (position : Nat) :
    (refill children slot position).toList = (children.drop position).take slot.toList.length := by
  cases slot with
  | none => rfl
  | some _ => simp [refill, List.take_one]

/-- As many slots as there are children hold them all. -/
theorem children_withChildren {e : Expr} {children : List Expr}
    (h : children.length = e.children.length) : (e.withChildren children).children = children := by
  cases e with
  | program | sequence | other => rfl
  | ivar => exact (List.eq_nil_of_length_eq_zero h).symm
  | method _ slot | ivarAssign _ slot | definedCheck slot | returns slot =>
    rw [Expr.children] at h
    rw [withChildren, Expr.children, toList_refill, List.drop_zero, ← h, List.take_length]
  | orAssign target value =>
    rw [Expr.children, List.length_append] at h
    rw [withChildren, Expr.children, toList_refill, toList_refill, List.drop_zero, ← List.take_add,
      ← h, List.take_length]
  | conditional condition thenBranch elseBranch =>
    rw [Expr.children, List.length_append, List.length_append] at h
    rw [withChildren, Expr.children, toList_refill, toList_refill, toList_refill, List.drop_zero,
      ← List.take_add, ← List.take_add, ← h, List.take_length]

/-- The expression with another name for the variable that it reads or assigns, if it does. -/
def withName (name : String) : Expr → Expr
  | .ivar _ span => .ivar name span
  | .ivarAssign _ value span nameSpan => .ivarAssign name value span nameSpan
  | e => e

theorem children_withName (name : String) (e : Expr) : (e.withName name).children = e.children := by
  cases e <;> rfl

/-- The expression at an address with the new names that are given for it and what is below it. -/
def rename (new : Address → Option String) (address : Address) (e : Expr) : Expr :=
  ((new address).elim e e.withName).withChildren <|
    e.children.attach.mapIdx fun position child => rename new (address ++ [position]) child.1
  termination_by sizeOf e
  decreasing_by exact sizeOf_lt_of_mem_children child.2

section

variable (new : Address → Option String) (address : Address)

theorem rename_eq (e : Expr) :
    e.rename new address = ((new address).elim e e.withName).withChildren
      (e.children.mapIdx fun position child => child.rename new (address ++ [position])) := by
  rw [rename]
  congr 1
  apply List.ext_getElem <;> simp

theorem children_rename (e : Expr) :
    (e.rename new address).children =
      e.children.mapIdx fun position child => child.rename new (address ++ [position]) := by
  have hchildren : ((new address).elim e e.withName).children = e.children := by
    cases new address with
    | none => rfl
    | some name => exact children_withName name e
  rw [rename_eq, children_withChildren]
  rw [List.length_mapIdx, hchildren]

/-! ### Renaming each form of expression -/

@[simp] theorem rename_ivar (name : String) (span : Span) :
    (ivar name span).rename new address = .ivar ((new address).getD name) span := by
  rw [rename_eq]
  cases new address <;> rfl

@[simp] theorem rename_ivarAssign (name : String) (value : Option Expr) (span nameSpan : Span) :
    (ivarAssign name value span nameSpan).rename new address =
      .ivarAssign ((new address).getD name) (value.map (rename new (address ++ [0]))) span
        nameSpan := by
  rw [rename_eq]
  cases new address <;> cases value <;> rfl

/-- Apart from variables and assignments to them, only what is below changes. -/
theorem rename_eq_withChildren {e : Expr} (h : ∀ name, e.withName name = e) :
    e.rename new address = e.withChildren
      (e.children.mapIdx fun position child => child.rename new (address ++ [position])) := by
  rw [rename_eq]
  cases new address with
  | none => rfl
  | some name => rw [Option.elim_some, h]

@[simp] theorem rename_program (statements : List Expr) (span : Span) :
    (program statements span).rename new address =
      .program (statements.mapIdx fun position e => e.rename new (address ++ [position])) span :=
  rename_eq_withChildren new address fun _ => rfl

@[simp] theorem rename_method (name : String) (body : Option Expr) (span nameSpan : Span)
    (singleton : Bool) :
    (method name body span nameSpan singleton).rename new address =
      .method name (body.map (rename new (address ++ [0]))) span nameSpan singleton := by
  rw [rename_eq_withChildren new address fun _ => rfl]
  cases body <;> rfl

@[simp] theorem rename_orAssign (target value : Option Expr) (span : Span) :
    (orAssign target value span).rename new address =
      .orAssign (target.map (rename new (address ++ [0])))
        (value.map (rename new (address ++ [target.toList.length]))) span := by
  rw [rename_eq_withChildren new address fun _ => rfl]
  cases target <;> cases value <;> rfl

@[simp] theorem rename_conditional (condition thenBranch elseBranch : Option Expr) (span : Span) :
    (conditional condition thenBranch elseBranch span).rename new address =
      .conditional (condition.map (rename new (address ++ [0])))
        (thenBranch.map (rename new (address ++ [condition.toList.length])))
        (elseBranch.map
          (rename new (address ++ [condition.toList.length + thenBranch.toList.length]))) span := by
  rw [rename_eq_withChildren new address fun _ => rfl]
  cases condition <;> cases thenBranch <;> cases elseBranch <;> rfl

@[simp] theorem rename_definedCheck (argument : Option Expr) (span : Span) :
    (definedCheck argument span).rename new address =
      .definedCheck (argument.map (rename new (address ++ [0]))) span := by
  rw [rename_eq_withChildren new address fun _ => rfl]
  cases argument <;> rfl

@[simp] theorem rename_returns (value : Option Expr) (span : Span) :
    (returns value span).rename new address =
      .returns (value.map (rename new (address ++ [0]))) span := by
  rw [rename_eq_withChildren new address fun _ => rfl]
  cases value <;> rfl

@[simp] theorem rename_sequence (statements : List Expr) (span : Span) :
    (sequence statements span).rename new address =
      .sequence (statements.mapIdx fun position e => e.rename new (address ++ [position])) span :=
  rename_eq_withChildren new address fun _ => rfl

@[simp] theorem rename_other (kind : String) (children : List Expr) (span : Span) :
    (other kind children span).rename new address =
      .other kind (children.mapIdx fun position e => e.rename new (address ++ [position])) span :=
  rename_eq_withChildren new address fun _ => rfl

end

/-! ### What is renamed to what -/

section

variable {new : Address → Option String} {address : Address} {e : Expr}

theorem exists_of_rename_eq_ivar {name : String} {span : Span}
    (h : e.rename new address = .ivar name span) :
    ∃ old, e = .ivar old span ∧ name = (new address).getD old := by
  cases e with
  | ivar old =>
    rw [rename_ivar] at h
    cases h
    exact ⟨old, rfl, rfl⟩
  | _ => simp at h

theorem exists_of_rename_eq_ivarAssign {name : String} {value : Option Expr} {span nameSpan : Span}
    (h : e.rename new address = .ivarAssign name value span nameSpan) :
    ∃ old value, e = .ivarAssign old value span nameSpan ∧ name = (new address).getD old := by
  cases e with
  | ivarAssign old value =>
    rw [rename_ivarAssign] at h
    cases h
    exact ⟨old, value, rfl, rfl⟩
  | _ => simp at h

theorem exists_of_rename_eq_orAssign {target : Expr} {value : Option Expr} {span : Span}
    (h : e.rename new address = .orAssign (some target) value span) :
    ∃ old value, e = .orAssign (some old) value span ∧
      target = old.rename new (address ++ [0]) := by
  cases e with
  | orAssign old value =>
    rw [rename_orAssign] at h
    obtain ⟨htarget, -, rfl⟩ := Expr.orAssign.inj h
    obtain ⟨old, rfl, rfl⟩ := Option.map_eq_some_iff.1 htarget
    exact ⟨old, value, rfl, rfl⟩
  | _ => simp at h

theorem exists_of_rename_eq_definedCheck {argument : Expr} {span : Span}
    (h : e.rename new address = .definedCheck (some argument) span) :
    ∃ old, e = .definedCheck (some old) span ∧ argument = old.rename new (address ++ [0]) := by
  cases e with
  | definedCheck old =>
    rw [rename_definedCheck] at h
    obtain ⟨hargument, rfl⟩ := Expr.definedCheck.inj h
    obtain ⟨old, rfl, rfl⟩ := Option.map_eq_some_iff.1 hargument
    exact ⟨old, rfl, rfl⟩
  | _ => simp at h

theorem exists_of_rename_eq_returns {value : Expr} {span : Span}
    (h : e.rename new address = .returns (some value) span) :
    ∃ old, e = .returns (some old) span ∧ value = old.rename new (address ++ [0]) := by
  cases e with
  | returns old =>
    rw [rename_returns] at h
    obtain ⟨hvalue, rfl⟩ := Expr.returns.inj h
    obtain ⟨old, rfl, rfl⟩ := Option.map_eq_some_iff.1 hvalue
    exact ⟨old, rfl, rfl⟩
  | _ => simp at h

theorem exists_of_rename_eq_conditional {condition thenBranch : Expr} {span : Span}
    (h : e.rename new address = .conditional (some condition) (some thenBranch) none span) :
    ∃ old oldThen, e = .conditional (some old) (some oldThen) none span ∧
      condition = old.rename new (address ++ [0]) ∧
      thenBranch = oldThen.rename new (address ++ [1]) := by
  cases e with
  | conditional old oldThen oldElse =>
    rw [rename_conditional] at h
    obtain ⟨hcondition, hthen, helse, rfl⟩ := Expr.conditional.inj h
    obtain ⟨old, rfl, rfl⟩ := Option.map_eq_some_iff.1 hcondition
    obtain ⟨oldThen, rfl, rfl⟩ := Option.map_eq_some_iff.1 hthen
    obtain rfl := Option.map_eq_none_iff.1 helse
    exact ⟨old, oldThen, rfl, rfl, rfl⟩
  | _ => simp at h

theorem exists_of_rename_eq_sequence {statements : List Expr} {span : Span}
    (h : e.rename new address = .sequence statements span) :
    ∃ old, e = .sequence old span ∧
      old.mapIdx (fun position e => e.rename new (address ++ [position])) = statements := by
  cases e with
  | sequence old =>
    rw [rename_sequence] at h
    cases h
    exact ⟨old, rfl, rfl⟩
  | _ => simp at h

end

end Expr

/-! ## Walking what is renamed -/

section

variable (new : Address → Option String)

def Occurrence.rename (o : Occurrence) : Occurrence := ⟨o.address, o.expr.rename new o.address⟩

def Visit.rename (visit : Visit) : Visit :=
  ⟨visit.site.rename new, visit.trail.map (Occurrence.rename new)⟩

def MethodSite.rename (method : MethodSite) : MethodSite :=
  ⟨method.address, method.name, method.body.map (Expr.rename new method.bodyAddress)⟩

theorem Visit.children_rename (visit : Visit) :
    (visit.rename new).children = visit.children.map (Visit.rename new) := by
  apply List.ext_getElem?
  intro position
  rw [getElem?_children, List.getElem?_map, getElem?_children, Option.map_map]
  change Option.map _ (visit.site.expr.rename new visit.site.address).children[position]? = _
  rw [Expr.children_rename, List.getElem?_mapIdx, Option.map_map]
  rfl

theorem Visit.reach_rename (visit : Visit) :
    (visit.rename new).reach = visit.reach.map (Visit.rename new) := by
  induction visit using childInduction with
  | step visit ih =>
    rw [reach_eq, reach_eq, children_rename, List.flatMap_map, List.map_cons, List.map_flatMap]
    congr 1
    exact List.flatMap_congr ih

/-- What is visited in a renamed program is what was visited before, renamed. -/
theorem Expr.walk_rename (program : Expr) :
    (program.rename new []).walk = program.walk.map (Visit.rename new) :=
  Visit.reach_rename new (.root program)

theorem Occurrence.method?_rename (o : Occurrence) :
    (o.rename new).method? = o.method?.map (MethodSite.rename new) := by
  obtain ⟨address, e⟩ := o
  cases e <;>
    simp [Occurrence.rename, Occurrence.method?, MethodSite.rename, MethodSite.bodyAddress]

theorem Expr.methodSites_rename (program : Expr) :
    (program.rename new []).methodSites = program.methodSites.map (MethodSite.rename new) := by
  rw [Expr.methodSites, Expr.methodSites, Expr.walk_rename, List.filterMap_map, List.map_filterMap]
  congr 1
  funext visit
  exact Occurrence.method?_rename new visit.site

end

end MemoAudit
