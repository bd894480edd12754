import MemoAudit.Proofs.Visits
import Mathlib.Data.List.Chain

/-!
# A walk is a traversal

A walk does two things at once.  It goes through everything below an expression, as
`Expr.descendants` does by a recursion of its own, and on the way it keeps a trail, from which the
idioms learn what they stand in.  The trail is a parameter of the recursion and grows while it goes
down, and a walk may be started anywhere, with any trail in front of it.

Here the two are taken apart again.  The places that a walk visits are those that have an address
(`Expr.at?`), each of them once.  The trail of a visit is the one that the walk was started with and
after it the way down, in which each step goes to a direct subexpression
(`Visit.exists_leadsTo`).  And the method that a trail names is the last one on this way
(`enclosingMethod?_eq_some_iff`).
-/

namespace MemoAudit

/-! ## Places -/

/-- The expression at an address. -/
def Expr.at? (e : Expr) : Address → Option Expr
  | [] => some e
  | position :: rest => e.children[position]?.bind (at? · rest)

namespace Visit

/-- Going down along an address leads to the expression at that address. -/
theorem map_site_descend (visit : Visit) (address : Address) :
    (visit.descend address).map site =
      (visit.site.expr.at? address).map fun e => ⟨visit.site.address ++ address, e⟩ := by
  induction address generalizing visit with
  | nil => simp [Expr.at?]
  | cons position rest ih =>
    rw [descend_cons, Expr.at?]
    cases visit.site.expr.children[position]? with
    | none => rfl
    | some child =>
      simp only [Option.bind_some]
      rw [ih, List.append_assoc, List.singleton_append]

/-- A walk visits the expressions below its start, each where it stands. -/
theorem exists_site_iff (visit : Visit) (address : Address) (e : Expr) :
    visit.site.expr.at? address = some e ↔
      ∃ target ∈ visit.reach, target.site = ⟨visit.site.address ++ address, e⟩ := by
  have hsite := map_site_descend visit address
  constructor
  · intro h
    rw [h, Option.map_some] at hsite
    obtain ⟨target, hdescend, htarget⟩ := Option.map_eq_some_iff.1 hsite
    exact ⟨target, mem_reach_iff.2 ⟨address, hdescend⟩, htarget⟩
  · rintro ⟨target, hreach, htarget⟩
    obtain ⟨way, hdescend⟩ := mem_reach_iff.1 hreach
    obtain rfl : way = address := by
      have haddress := address_of_descend hdescend
      rw [htarget] at haddress
      exact (List.append_cancel_left haddress).symm
    rw [hdescend, Option.map_some, htarget] at hsite
    obtain ⟨found, hfound, heq⟩ := Option.map_eq_some_iff.1 hsite.symm
    rw [hfound, (Occurrence.mk.inj heq).2]

/-- No place is visited twice. -/
theorem nodup_addresses (visit : Visit) : (visit.reach.map (·.site.address)).Nodup :=
  List.Nodup.map_on (fun _ ha _ hb => eq_of_address_eq ha hb) visit.nodup_reach

end Visit

/-! ## Ways -/

/-- The occurrences lead from one down to another: they start with the one, and each of them, like
the other at their end, is a direct subexpression of the one before. -/
def Occurrence.LeadsTo (o : Occurrence) (way : List Occurrence) (target : Occurrence) : Prop :=
  (way ++ [target]).head? = some o ∧
    (way ++ [target]).IsChain fun parent child => child ∈ parent.children

theorem Occurrence.LeadsTo.cons {o child target : Occurrence} {way : List Occurrence}
    (h : child.LeadsTo way target) (hchild : child ∈ o.children) : o.LeadsTo (o :: way) target := by
  rw [LeadsTo, List.cons_append]
  refine ⟨rfl, List.IsChain.cons h.2 fun next hnext => ?_⟩
  rw [h.1, Option.mem_some_iff] at hnext
  rwa [← hnext]

/-- The trail of a visit is the way down from the start of the walk, on top of the trail there. -/
theorem Visit.exists_leadsTo {visit target : Visit} (h : target ∈ visit.reach) :
    ∃ way, target.trail = way.reverse ++ visit.trail ∧ visit.site.LeadsTo way target.site := by
  -- Each step down puts its start on the trail, so the induction is on the visit with its trail.
  induction visit using childInduction with
  | step visit ih =>
    rw [reach_eq, List.mem_cons, List.mem_flatMap] at h
    rcases h with rfl | ⟨child, hchild, hreach⟩
    · exact ⟨[], rfl, rfl, List.isChain_singleton _⟩
    · obtain ⟨way, htrail, hleads⟩ := ih child hchild hreach
      obtain ⟨site, hsite, rfl⟩ := List.mem_map.1 hchild
      refine ⟨visit.site :: way, ?_, hleads.cons hsite⟩
      rw [htrail, List.reverse_cons, List.append_assoc, List.singleton_append]

/-! ## Methods on a trail -/

/-- The occurrence is the definition of the method. -/
def Occurrence.Defines (o : Occurrence) (method : MethodSite) : Prop :=
  method.address = o.address ∧
    ∃ span nameSpan singleton, o.expr = .method method.name method.body span nameSpan singleton

theorem Occurrence.method?_eq_none_iff {o : Occurrence} :
    o.method? = none ↔ ∀ method, ¬ o.Defines method := by
  rw [Option.eq_none_iff_forall_ne_some]
  exact forall_congr' fun method => not_congr Occurrence.method?_eq_some_iff

theorem enclosingMethod?_eq_none_iff {trail : List Occurrence} :
    enclosingMethod? trail = none ↔ ∀ o ∈ trail, ∀ method, ¬ o.Defines method := by
  rw [enclosingMethod?, List.findSome?_eq_none_iff]
  simp only [Occurrence.method?_eq_none_iff]

/-- The method that a trail names is defined on it, with no other definition nearer. -/
theorem enclosingMethod?_eq_some_iff {trail : List Occurrence} {method : MethodSite} :
    enclosingMethod? trail = some method ↔
      ∃ nearer definition further, trail = nearer ++ definition :: further ∧
        definition.Defines method ∧ ∀ o ∈ nearer, ∀ other, ¬ o.Defines other := by
  rw [enclosingMethod?, List.findSome?_eq_some_iff]
  simp only [Occurrence.method?_eq_none_iff, Occurrence.method?_eq_some_iff]
  rfl

/-- **A walk is a complete traversal, with true trails.**  Started at any occurrence and with any
trail, it goes to the expressions below it in the order in which they are listed.  Each place below
the start is visited, with the expression that stands there, and none is visited twice.  The trail
of a visit, which is held nearest first, consists of the trail at the start and the way from there
down to the visited place.  The method that a trail names is the one defined on it with no other
definition on the rest of the way; there is none exactly if no method is defined on the trail. -/
theorem walk_traverses (start : Occurrence) (above : List Occurrence) :
    (start.walk above).map (·.site.expr) = start.expr.descendants ∧
    ((start.walk above).map (·.site.address)).Nodup ∧
    (∀ address e, start.expr.at? address = some e ↔
      ∃ visit ∈ start.walk above, visit.site = ⟨start.address ++ address, e⟩) ∧
    (∀ visit ∈ start.walk above, ∃ way,
      visit.trail.reverse = above.reverse ++ way ∧ start.LeadsTo way visit.site) ∧
    ∀ trail : List Occurrence,
      (enclosingMethod? trail = none ↔ ∀ o ∈ trail, ∀ method, ¬ o.Defines method) ∧
      ∀ method, enclosingMethod? trail = some method ↔
        ∃ nearer definition further, trail = nearer ++ definition :: further ∧
          definition.Defines method ∧ ∀ o ∈ nearer, ∀ other, ¬ o.Defines other := by
  refine ⟨Visit.map_expr_reach ⟨start, above⟩, Visit.nodup_addresses ⟨start, above⟩,
    Visit.exists_site_iff ⟨start, above⟩, ?_,
    fun trail => ⟨enclosingMethod?_eq_none_iff, fun method => enclosingMethod?_eq_some_iff⟩⟩
  intro visit hvisit
  obtain ⟨way, htrail, hleads⟩ := @Visit.exists_leadsTo ⟨start, above⟩ visit hvisit
  refine ⟨way, ?_, hleads⟩
  rw [htrail, List.reverse_append, List.reverse_reverse]

/-- A method that is defined in another method, and reads a variable. -/
def innerMethod : Expr := .method "b" (some (.ivar "@c" default)) default default false

/-- The method around `innerMethod`. -/
def outerMethod : Expr := .method "a" (some innerMethod) default default false

/-- From the outer method on, below a program that the walk was not started at, the variable is
reached by way of both methods, and the inner one is the method that it is in. -/
theorem walk_traverses_nestedMethods :
    let program : Occurrence := ⟨[], .program [outerMethod] default⟩
    let start : Occurrence := ⟨[0], outerMethod⟩
    let read : Visit :=
      ⟨⟨[0, 0, 0], .ivar "@c" default⟩, [⟨[0, 0], innerMethod⟩, ⟨[0], outerMethod⟩, program]⟩
    read ∈ start.walk [program] ∧
      (∃ way, read.trail.reverse = [program] ++ way ∧ start.LeadsTo way read.site) ∧
      enclosingMethod? read.trail = some ⟨[0, 0], "b", some (.ivar "@c" default)⟩ := by
  intro program start read
  obtain ⟨-, -, -, htrail, hmethod⟩ := walk_traverses start [program]
  have hread : read ∈ start.walk [program] :=
    (@Visit.mem_reach_iff ⟨start, [program]⟩ read).2 ⟨[0, 0], rfl⟩
  refine ⟨hread, htrail read hread, ((hmethod read.trail).2 _).2 ?_⟩
  exact ⟨[], ⟨[0, 0], innerMethod⟩, [⟨[0], outerMethod⟩, program], rfl,
    ⟨rfl, default, default, false, rfl⟩, by simp⟩

end MemoAudit
