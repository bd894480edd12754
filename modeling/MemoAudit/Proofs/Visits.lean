import MemoAudit.Expr.Walk
import Mathlib.Data.List.Induction
import Mathlib.Data.List.Nodup

/-!
# Where a walk goes

A walk lists visits, and a visit is an occurrence together with the occurrences above it.  This file
gives a second description of the visits of a walk, by address: `Visit.descend` follows the
positions of an address downwards from a visit, and a walk visits exactly what can be reached so
(`Visit.mem_reach_iff`).  Since the address reached spells out the way (`Visit.address_of_descend`),
a visit of a walk is determined by where it is (`Visit.eq_of_address_eq`), its trail included.  Two
questions about a walk become questions about addresses:

* *Does it go anywhere twice?*  It does not (`Visit.nodup_reach`), and forgetting addresses and
  trails leaves the expressions in the order of `Expr.descendants` (`Visit.map_expr_reach`).
* *Which method is a place in?*  The one that the trail names is visited too, and the place is below
  its body (`Visit.exists_definition`).

`MethodSite.Holds` is the relation between a method and what occurs in it and in no method further
down.  No place is held by two methods (`MethodSite.Holds.unique`).
-/

namespace MemoAudit

namespace Visit

/-- The visits of the direct subexpressions. -/
def children (visit : Visit) : List Visit :=
  visit.site.children.map fun child => ⟨child, visit.site :: visit.trail⟩

/-- Everything that a walk from here visits. -/
def reach (visit : Visit) : List Visit := visit.site.walk visit.trail

/-- The visit reached by going down along positions of children. -/
def descend (visit : Visit) : Address → Option Visit
  | [] => some visit
  | position :: rest => visit.children[position]?.bind (descend · rest)

/-- The visit of a whole expression. -/
def root (e : Expr) : Visit := ⟨⟨[], e⟩, []⟩

theorem walk_eq_reach_root (e : Expr) : e.walk = (root e).reach := rfl

theorem reach_eq (visit : Visit) : visit.reach = visit :: visit.children.flatMap reach := by
  rw [reach, Occurrence.walk_eq, children, List.flatMap_map]
  rfl

theorem map_expr_children (visit : Visit) :
    visit.children.map (·.site.expr) = visit.site.expr.children := by
  rw [children, List.map_map]
  exact Occurrence.map_expr_children visit.site

theorem sizeOf_expr_lt_of_mem_children {visit child : Visit} (h : child ∈ visit.children) :
    sizeOf child.site.expr < sizeOf visit.site.expr := by
  obtain ⟨site, hsite, rfl⟩ := List.mem_map.1 h
  exact Occurrence.sizeOf_expr_lt_of_mem_children hsite

/-- Induction along the direct subexpressions. -/
theorem childInduction {P : Visit → Prop}
    (step : ∀ visit, (∀ child ∈ visit.children, P child) → P visit) (visit : Visit) : P visit :=
  step visit fun child hchild =>
    have : sizeOf child.site.expr < sizeOf visit.site.expr := sizeOf_expr_lt_of_mem_children hchild
    childInduction step child
  termination_by sizeOf visit.site.expr

/-! ## Descending along an address -/

/-- A child is its expression, with its position at the end of its address. -/
theorem getElem?_children (visit : Visit) (position : Nat) :
    visit.children[position]? = visit.site.expr.children[position]?.map fun child =>
      ⟨⟨visit.site.address ++ [position], child⟩, visit.site :: visit.trail⟩ := by
  rw [children, List.getElem?_map, Occurrence.children, List.getElem?_mapIdx, Option.map_map]
  rfl

@[simp] theorem descend_nil (visit : Visit) : visit.descend [] = some visit := rfl

@[simp] theorem descend_cons (visit : Visit) (position : Nat) (rest : Address) :
    visit.descend (position :: rest) =
      visit.site.expr.children[position]?.bind fun child =>
        descend ⟨⟨visit.site.address ++ [position], child⟩, visit.site :: visit.trail⟩ rest := by
  rw [descend, getElem?_children, Option.bind_map]
  rfl

/-- Going down along two addresses in turn is going down along both at once. -/
theorem descend_append (visit : Visit) (first second : Address) :
    visit.descend (first ++ second) = (visit.descend first).bind (·.descend second) := by
  induction first generalizing visit with
  | nil => rfl
  | cons position rest ih =>
    rw [List.cons_append, descend, descend, Option.bind_assoc]
    congr 1
    funext child
    exact ih child

/-- The address that a descent ends at spells out the way it took. -/
theorem address_of_descend {visit target : Visit} {address : Address}
    (h : visit.descend address = some target) :
    target.site.address = visit.site.address ++ address := by
  induction address generalizing visit with
  | nil =>
    obtain rfl : visit = target := Option.some.inj h
    rw [List.append_nil]
  | cons position rest ih =>
    rw [descend_cons] at h
    obtain ⟨child, -, hdescend⟩ := Option.bind_eq_some_iff.1 h
    rw [ih hdescend, List.append_assoc, List.singleton_append]

theorem mem_reach_iff {visit target : Visit} :
    target ∈ visit.reach ↔ ∃ address, visit.descend address = some target := by
  induction visit using childInduction with
  | step visit ih =>
    rw [reach_eq, List.mem_cons, List.mem_flatMap]
    constructor
    · rintro (rfl | ⟨child, hchild, htarget⟩)
      · exact ⟨[], rfl⟩
      · obtain ⟨position, hposition⟩ := List.getElem?_of_mem hchild
        obtain ⟨rest, hrest⟩ := (ih child hchild).1 htarget
        exact ⟨position :: rest, by rw [descend, hposition, Option.bind_some, hrest]⟩
    · rintro ⟨_ | ⟨position, rest⟩, h⟩
      · exact .inl (Option.some.inj h).symm
      · obtain ⟨child, hposition, hdescend⟩ := Option.bind_eq_some_iff.1 h
        have hchild := List.mem_of_getElem? hposition
        exact .inr ⟨child, hchild, (ih child hchild).2 ⟨rest, hdescend⟩⟩

theorem mem_reach_of_descend {v middle target : Visit} {address : Address}
    (hmiddle : middle ∈ v.reach) (h : middle.descend address = some target) :
    target ∈ v.reach := by
  obtain ⟨way, hway⟩ := mem_reach_iff.1 hmiddle
  refine mem_reach_iff.2 ⟨way ++ address, ?_⟩
  rw [descend_append, hway, Option.bind_some, h]

/-- A visit is determined by its address. -/
theorem eq_of_address_eq {v a b : Visit} (ha : a ∈ v.reach) (hb : b ∈ v.reach)
    (h : a.site.address = b.site.address) : a = b := by
  obtain ⟨wayA, hwayA⟩ := mem_reach_iff.1 ha
  obtain ⟨wayB, hwayB⟩ := mem_reach_iff.1 hb
  rw [address_of_descend hwayA, address_of_descend hwayB] at h
  obtain rfl : wayA = wayB := List.append_cancel_left h
  exact Option.some.inj (hwayA.symm.trans hwayB)

/-! ## Everything once -/

theorem nodup_reach (visit : Visit) : visit.reach.Nodup := by
  induction visit using childInduction with
  | step visit ih =>
    rw [reach_eq, List.nodup_cons, List.nodup_flatMap]
    refine ⟨?_, ih, ?_⟩
    · -- Whatever is below has a longer address.
      intro hmem
      obtain ⟨child, hchild, hvisit⟩ := List.mem_flatMap.1 hmem
      obtain ⟨position, hposition⟩ := List.getElem?_of_mem hchild
      obtain ⟨rest, hrest⟩ := mem_reach_iff.1 hvisit
      have hway : visit.descend (position :: rest) = some visit := by
        rw [descend, hposition, Option.bind_some, hrest]
      have hlength := congrArg List.length (address_of_descend hway)
      simp at hlength
    · -- Below different children the addresses differ in the position of the child.
      rw [List.pairwise_iff_getElem]
      intro i j hi hj hij target hbelowI hbelowJ
      obtain ⟨restI, hrestI⟩ := mem_reach_iff.1 hbelowI
      obtain ⟨restJ, hrestJ⟩ := mem_reach_iff.1 hbelowJ
      have hwayI : visit.descend (i :: restI) = some target := by
        rw [descend, List.getElem?_eq_getElem hi, Option.bind_some, hrestI]
      have hwayJ : visit.descend (j :: restJ) = some target := by
        rw [descend, List.getElem?_eq_getElem hj, Option.bind_some, hrestJ]
      have haddress := (address_of_descend hwayI).symm.trans (address_of_descend hwayJ)
      have hcons := List.append_cancel_left haddress
      exact absurd (List.cons.inj hcons).1 (Nat.ne_of_lt hij)

theorem map_expr_reach (visit : Visit) :
    visit.reach.map (·.site.expr) = visit.site.expr.descendants := by
  induction visit using childInduction with
  | step visit ih =>
    rw [reach_eq, List.map_cons, List.map_flatMap, Expr.descendants_eq, ← map_expr_children,
      List.flatMap_map]
    congr 1
    exact List.flatMap_congr ih

end Visit

/-- A walk goes to the expressions in the order in which they are listed. -/
theorem Expr.map_expr_walk (e : Expr) : e.walk.map (·.site.expr) = e.descendants :=
  Visit.map_expr_reach (.root e)

/-! ## The method that a place is in -/

theorem enclosingMethod?_cons (site : Occurrence) (trail : List Occurrence) :
    enclosingMethod? (site :: trail) = site.method?.or (enclosingMethod? trail) := by
  rw [enclosingMethod?, List.findSome?_cons]
  cases site.method? <;> rfl

theorem Occurrence.method?_eq_some_iff {o : Occurrence} {method : MethodSite} :
    o.method? = some method ↔ method.address = o.address ∧
      ∃ span nameSpan singleton,
        o.expr = .method method.name method.body span nameSpan singleton := by
  constructor
  · intro h
    cases hexpr : o.expr with
    | method name body span nameSpan singleton =>
      rw [Occurrence.method?, hexpr] at h
      obtain rfl := Option.some.inj h
      exact ⟨rfl, span, nameSpan, singleton, rfl⟩
    | _ => simp [Occurrence.method?, hexpr] at h
  · rintro ⟨haddress, span, nameSpan, singleton, hexpr⟩
    rw [Occurrence.method?, hexpr, ← haddress]

/-- The definitions of methods among the visits of a walk. -/
def Expr.methodSites (e : Expr) : List MethodSite := e.walk.filterMap (·.site.method?)

namespace Visit

/-- Below a definition there is only its body. -/
theorem descend_of_method? {visit target : Visit} {method : MethodSite} {position : Nat}
    {rest : Address} (hmethod : visit.site.method? = some method)
    (h : visit.descend (position :: rest) = some target) :
    position = 0 ∧ ∃ body, method.body = some body ∧
      descend ⟨⟨method.address ++ [0], body⟩, visit.site :: visit.trail⟩ rest = some target := by
  obtain ⟨haddress, span, nameSpan, singleton, hexpr⟩ := Occurrence.method?_eq_some_iff.1 hmethod
  rw [descend_cons, hexpr] at h
  obtain ⟨body, hbody, hdescend⟩ := Option.bind_eq_some_iff.1 h
  obtain ⟨rfl, hsome⟩ : position = 0 ∧ method.body = some body := by
    cases hm : method.body with
    | none => simp [Expr.children, hm] at hbody
    | some inner => cases position <;> simp_all [Expr.children]
  exact ⟨rfl, body, hsome, by rw [haddress]; exact hdescend⟩

/-- Going down from a definition is going down from its body. -/
theorem descend_body {visit : Visit} {method : MethodSite} {body : Expr}
    (hmethod : visit.site.method? = some method) (hbody : method.body = some body)
    (rest : Address) :
    visit.descend (0 :: rest) =
      descend ⟨⟨method.address ++ [0], body⟩, visit.site :: visit.trail⟩ rest := by
  obtain ⟨haddress, span, nameSpan, singleton, hexpr⟩ := Occurrence.method?_eq_some_iff.1 hmethod
  rw [descend_cons, hexpr, haddress, hbody]
  rfl

/-- The innermost method of a place is the one that was innermost at the start, or it is defined on
the way down and the place is below its body. -/
theorem exists_definition {visit target : Visit} {address : Address} {method : MethodSite}
    (h : visit.descend address = some target)
    (hmethod : enclosingMethod? target.trail = some method) :
    enclosingMethod? visit.trail = some method ∨
      ∃ definition rest, definition ∈ visit.reach ∧ definition.site.method? = some method ∧
        definition.descend (0 :: rest) = some target := by
  -- Along the way the trail grows at its front, so the induction is on the end of the address.
  induction address using List.reverseRecOn generalizing target with
  | nil =>
    obtain rfl : visit = target := Option.some.inj h
    exact .inl hmethod
  | append_singleton address position ih =>
    rw [descend_append] at h
    obtain ⟨parent, hparent, hstep⟩ := Option.bind_eq_some_iff.1 h
    have htrail : target.trail = parent.site :: parent.trail := by
      rw [descend_cons] at hstep
      obtain ⟨child, -, hchild⟩ := Option.bind_eq_some_iff.1 hstep
      rw [← Option.some.inj hchild]
    rw [htrail, enclosingMethod?_cons] at hmethod
    cases hdefined : parent.site.method? with
    | some defined =>
      obtain rfl : defined = method := by simpa [hdefined] using hmethod
      obtain ⟨rfl, -⟩ := descend_of_method? hdefined hstep
      exact .inr ⟨parent, [], mem_reach_iff.2 ⟨address, hparent⟩, hdefined, hstep⟩
    | none =>
      rw [hdefined, Option.none_or] at hmethod
      rcases ih hparent hmethod with habove | ⟨definition, rest, hreach, hdefinition, hrest⟩
      · exact .inl habove
      · refine .inr ⟨definition, rest ++ [position], hreach, hdefinition, ?_⟩
        rw [← List.cons_append, descend_append, hrest, Option.bind_some, hstep]

end Visit

namespace Expr

variable {program : Expr}

theorem mem_walk_of_descend {visit target : Visit} {address : Address} (h : visit ∈ program.walk)
    (htarget : visit.descend address = some target) : target ∈ program.walk :=
  Visit.mem_reach_of_descend (v := .root program) h htarget

theorem eq_of_address_eq {a b : Visit} (ha : a ∈ program.walk) (hb : b ∈ program.walk)
    (h : a.site.address = b.site.address) : a = b :=
  Visit.eq_of_address_eq (v := .root program) ha hb h

theorem mem_methodSites {method : MethodSite} :
    method ∈ program.methodSites ↔ ∃ visit ∈ program.walk, visit.site.method? = some method := by
  simp [methodSites]

/-- A walk does not meet a definition twice. -/
theorem nodup_methodSites (program : Expr) : program.methodSites.Nodup := by
  rw [methodSites, List.Nodup, List.pairwise_filterMap]
  refine (Visit.nodup_reach (.root program)).imp_of_mem ?_
  intro a b ha hb hne method hmethod other hother heq
  subst heq
  refine hne (eq_of_address_eq ha hb ?_)
  rw [← (Occurrence.method?_eq_some_iff.1 hmethod).1, ← (Occurrence.method?_eq_some_iff.1 hother).1]

/-- The innermost method of a visit of a program is itself visited. -/
theorem exists_definition {visit : Visit} {method : MethodSite} (h : visit ∈ program.walk)
    (hmethod : enclosingMethod? visit.trail = some method) :
    ∃ definition ∈ program.walk, ∃ rest, definition.site.method? = some method ∧
      definition.descend (0 :: rest) = some visit := by
  rw [Visit.walk_eq_reach_root] at h
  obtain ⟨address, haddress⟩ := Visit.mem_reach_iff.1 h
  rcases Visit.exists_definition haddress hmethod with
    habove | ⟨definition, rest, hmem, hdefined, hrest⟩
  · simp [enclosingMethod?, Visit.root] at habove
  · exact ⟨definition, hmem, rest, hdefined, hrest⟩

end Expr

/-! ## What a method holds -/

/-- The occurrence is visited inside the method, and inside no method further down. -/
def MethodSite.Holds (program : Expr) (method : MethodSite) (o : Occurrence) : Prop :=
  ∃ trail, ⟨o, trail⟩ ∈ program.walk ∧ enclosingMethod? trail = some method

namespace MethodSite

variable {program : Expr} {method : MethodSite}

/-- A place has only one thing in it, and is held by only one method. -/
theorem Holds.unique {a b : MethodSite} {address : Address} {e e' : Expr}
    (ha : a.Holds program ⟨address, e⟩) (hb : b.Holds program ⟨address, e'⟩) : a = b ∧ e = e' := by
  obtain ⟨trail, hmem, henclosing⟩ := ha
  obtain ⟨trail', hmem', henclosing'⟩ := hb
  have hvisit := Expr.eq_of_address_eq hmem hmem' rfl
  cases hvisit
  exact ⟨Option.some.inj (henclosing.symm.trans henclosing'), rfl⟩

theorem holds_body {body : Expr} (hmethod : method ∈ program.methodSites)
    (hbody : method.body = some body) : method.Holds program ⟨method.address ++ [0], body⟩ := by
  obtain ⟨definition, hmem, hdefined⟩ := Expr.mem_methodSites.1 hmethod
  refine ⟨definition.site :: definition.trail, ?_, ?_⟩
  · exact Expr.mem_walk_of_descend hmem (Visit.descend_body hdefined hbody [])
  · rw [enclosingMethod?_cons, hdefined, Option.some_or]

/-- What a method holds it holds with its direct subexpressions, unless it is a method itself. -/
theorem Holds.child {address : Address} {e child : Expr} (h : method.Holds program ⟨address, e⟩)
    (position : Nat) (hmethod : (Occurrence.mk address e).method? = none)
    (hchild : e.children[position]? = some child) :
    method.Holds program ⟨address ++ [position], child⟩ := by
  obtain ⟨trail, hmem, henclosing⟩ := h
  refine ⟨⟨address, e⟩ :: trail, ?_, ?_⟩
  · have hway : (Visit.mk ⟨address, e⟩ trail).descend [position] =
        some ⟨⟨address ++ [position], child⟩, ⟨address, e⟩ :: trail⟩ := by
      rw [Visit.descend_cons, hchild]
      rfl
    exact Expr.mem_walk_of_descend hmem hway
  · rw [enclosingMethod?_cons, hmethod, Option.none_or, henclosing]

end MethodSite

end MemoAudit
