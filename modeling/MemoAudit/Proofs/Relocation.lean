import MemoAudit.Proofs.Anchors
import MemoAudit.Proofs.Morphisms

/-!
# Expressions at other places

A program says of each of its parts where it stands, and apart from that it says what it is.  This
file separates the two: `Expr.relocate` gives every part another place and leaves the rest alone.
The idioms are recognised by what a program is, and so what is found in a relocated program is what
was found before, relocated (`Visit.found?_relocate`), with the same messages at the other places
(`Expr.complaints_walk_relocate`).

Places and names are all that a program has from the tokens of its tree.  A morphism of trees that
relabels the tokens therefore relocates the program (`lower_relocate`), as long as the relabelled
tokens spell the same names where a name is read: in instance variables, and in the names of
methods (`ParseTree.Reads`).  What else the two sources say is of no account.
-/

namespace MemoAudit

namespace Expr

mutual

/-- The expression with every span replaced. -/
def relocate (place : Span → Span) : Expr → Expr
  | .program statements span => .program (relocateAll place statements) (place span)
  | .method name body span nameSpan singleton =>
    .method name (relocate? place body) (place span) (place nameSpan) singleton
  | .ivar name span => .ivar name (place span)
  | .ivarAssign name value span nameSpan =>
    .ivarAssign name (relocate? place value) (place span) (place nameSpan)
  | .orAssign target value span =>
    .orAssign (relocate? place target) (relocate? place value) (place span)
  | .conditional condition thenBranch elseBranch span =>
    .conditional (relocate? place condition) (relocate? place thenBranch)
      (relocate? place elseBranch) (place span)
  | .definedCheck argument span => .definedCheck (relocate? place argument) (place span)
  | .returns value span => .returns (relocate? place value) (place span)
  | .sequence statements span => .sequence (relocateAll place statements) (place span)
  | .other kind children span => .other kind (relocateAll place children) (place span)

/-- The expressions of a list, each with every span replaced. -/
def relocateAll (place : Span → Span) : List Expr → List Expr
  | [] => []
  | e :: rest => relocate place e :: relocateAll place rest

/-- The expression that there may be, with every span replaced. -/
def relocate? (place : Span → Span) : Option Expr → Option Expr
  | none => none
  | some e => some (relocate place e)

end

variable (place : Span → Span)

@[simp] theorem relocateAll_eq_map (es : List Expr) :
    relocateAll place es = es.map (relocate place) := by
  induction es with
  | nil => rfl
  | cons e rest ih => rw [relocateAll, ih, List.map_cons]

@[simp] theorem relocate?_eq_map (e : Option Expr) :
    relocate? place e = e.map (relocate place) := by
  cases e <;> rfl

theorem span_relocate (e : Expr) : (e.relocate place).span = place e.span := by
  cases e <;> rfl

theorem children_relocate (e : Expr) :
    (e.relocate place).children = e.children.map (relocate place) := by
  cases e <;> simp [relocate, children, Option.toList_map]

/-! ## Statements and values -/

variable {place} (hplace : ∀ a b : Span, place (a.through b) = (place a).through (place b))

include hplace in
/-- The span from the first to the last of several expressions moves with them. -/
theorem through_relocate (first e : Expr) (rest : List Expr) :
    (first.relocate place).span.through
        (((e :: rest).map (relocate place)).getLast (by simp)).span =
      place (first.span.through ((e :: rest).getLast (List.cons_ne_nil e rest)).span) := by
  rw [List.getLast_map, span_relocate, span_relocate, hplace]

include hplace in
theorem collapse_relocate (es : List Expr) :
    collapse (es.map (relocate place)) = (collapse es).map (relocate place) := by
  match es with
  | [] => rfl
  | [e] => rfl
  | first :: e :: rest =>
    have hspan := through_relocate hplace first e rest
    simp only [List.map_cons] at hspan
    simp [collapse, relocate, hspan]

include hplace in
theorem returned_relocate (es : List Expr) :
    returned (es.map (relocate place)) = (returned es).map (relocate place) := by
  match es with
  | [] => rfl
  | [e] => rfl
  | first :: e :: rest =>
    have hspan := through_relocate hplace first e rest
    simp only [List.map_cons] at hspan
    simp [returned, relocate, hspan]

include hplace in
theorem body_relocate (clause : Option (Clause Expr)) :
    (clause.map (·.map (relocate place))).bind Clause.body =
      (clause.bind Clause.body).map (relocate place) := by
  match clause with
  | none => rfl
  | some (.direct e) => rfl
  | some (.block es) => exact collapse_relocate hplace es

theorem asProgram_relocate (e : Expr) :
    (e.relocate place).asProgram = e.asProgram.relocate place := by
  cases e <;> simp [relocate, asProgram, span]

end Expr

/-! ## Lowering -/

/-- The text of the token is read when the tree is lowered: it belongs to an instance variable or is
the name of a method. -/
inductive ParseTree.Reads (tree : ParseTree) : Token → Prop
  | ivar {node : ParseTree} (hnode : node ∈ tree.descendants)
      (hkind : node.kind = "instance_variable") : Reads tree node.token
  | methodName {node name : ParseTree} (hnode : node ∈ tree.descendants)
      (hmethod : node.isMethod = true) (hname : node.field? "name" = some name) :
      Reads tree name.token

theorem ParseTree.Reads.above {tree part : ParseTree} {token : Token} (h : part.Reads token)
    (hpart : part ∈ tree.descendants) : tree.Reads token := by
  cases h with
  | ivar hnode hkind => exact .ivar (mem_descendants_trans hpart hnode) hkind
  | methodName hnode hmethod hname =>
    exact .methodName (mem_descendants_trans hpart hnode) hmethod hname

/-- A token that is read belongs to a node of the tree. -/
theorem ParseTree.Reads.exists_node {tree : ParseTree} {token : Token} (h : tree.Reads token) :
    ∃ node ∈ tree.descendants, node.token = token := by
  cases h with
  | ivar hnode => exact ⟨_, hnode, rfl⟩
  | methodName hnode hmethod hname =>
    exact ⟨_, mem_descendants_trans hnode (mem_descendants_of_field? hname), rfl⟩

section

variable {g : Token → Token} {f : ParseTree → ParseTree} {place : Span → Span}
  {source source' : Bytes}

/-- The expression that is assembled at a node is relocated along with the node and its parts. -/
theorem assemble_relocate {tree : ParseTree} {shape : Shape ParseTree}
    (hshape : tree.HasShape shape)
    (hplace : ∀ a b : Span, place (a.through b) = (place a).through (place b))
    (hspan : ∀ token, (g token).span = place token.span)
    (hkind : ∀ token, (g token).kind = token.kind)
    (htext : ∀ token, tree.Reads token → (g token).text source' = token.text source)
    (h : ParseTree → Expr) :
    assemble source' (g tree.token) ((shape.map (Expr.relocate place ∘ h)).relabel g) =
      (assemble source tree.token (shape.map h)).relocate place := by
  have hself := tree.self_mem_descendants
  have hbranch (clause : Option (Clause ParseTree)) :
      (clause.map (·.map (Expr.relocate place ∘ h))).bind Clause.body =
        ((clause.map (·.map h)).bind Clause.body).map (Expr.relocate place) := by
    rw [← Expr.body_relocate hplace, Option.map_map]
    congr 2
    funext clause
    cases clause <;> simp [Clause.map]
  cases hshape with
  | program | other => simp [Shape.map, Shape.relabel, assemble, Expr.relocate, hspan, hkind]
  | ivar hivar =>
    simp [Shape.map, Shape.relabel, assemble, Expr.relocate, hspan, htext _ (.ivar hself hivar)]
  | method hmethod =>
    have hbody : Expr.collapse (tree.methodStatements.map (Expr.relocate place ∘ h)) =
        (Expr.collapse (tree.methodStatements.map h)).map (Expr.relocate place) := by
      rw [← Expr.collapse_relocate hplace, List.map_map]
    cases hname : tree.field? "name" with
    | none => simp [Shape.map, Shape.relabel, assemble, Expr.relocate, hspan, hbody]
    | some name =>
      simp [Shape.map, Shape.relabel, assemble, Expr.relocate, hspan, hbody,
        htext _ (.methodName hself hmethod hname)]
  | ivarAssign _ hleft hivar =>
    have hread := htext _ (.ivar (ParseTree.mem_descendants_of_field? hleft) hivar)
    simp [Shape.map, Shape.relabel, assemble, Expr.relocate, hspan, hread]
  | orAssign | definedCheck =>
    simp [Shape.map, Shape.relabel, assemble, Expr.relocate, hspan]
  | ifBlock | unlessBlock | ifModifier | unlessModifier =>
    simp only [Shape.map, Shape.relabel, assemble, Expr.relocate, hspan, hbranch,
      Expr.relocate?_eq_map]
    rfl
  | returns =>
    simp [Shape.map, Shape.relabel, assemble, Expr.relocate, hspan,
      ← Expr.returned_relocate hplace]

/-- A morphism relocates what a tree is lowered to, if the names that are read stay the same. -/
theorem lower_relocate (hf : ParseTree.IsMorphism g f)
    (hplace : ∀ a b : Span, place (a.through b) = (place a).through (place b))
    (hspan : ∀ token, (g token).span = place token.span) {tree : ParseTree}
    (htext : ∀ token, tree.Reads token → (g token).text source' = token.text source) :
    lower source' (f tree) = (lower source tree).relocate place := by
  induction tree using ParseTree.shapeInduction with
  | step tree ih =>
    have hparts : tree.shape.map (lower source' ∘ f) =
        tree.shape.map (Expr.relocate place ∘ lower source) := by
      refine Shape.map_congr fun part hpart => ih part hpart fun token hread => ?_
      exact htext token (hread.above (ParseTree.mem_descendants_of_mem_parts hpart))
    have hrelabel : ∀ shape : Shape ParseTree,
        (shape.relabel g).map (lower source') = (shape.map (lower source')).relabel g := by
      intro shape
      cases shape <;> rfl
    rw [lower_eq, lower_eq source, hf.token_eq, hf.shape_eq, hrelabel, Shape.map_map, hparts]
    exact assemble_relocate tree.hasShape_shape hplace hspan hf.kind_eq htext (lower source)

theorem lowerFile_relocate (hf : ParseTree.IsMorphism g f)
    (hplace : ∀ a b : Span, place (a.through b) = (place a).through (place b))
    (hspan : ∀ token, (g token).span = place token.span) {tree : ParseTree}
    (htext : ∀ token, tree.Reads token → (g token).text source' = token.text source) :
    lowerFile source' (f tree) = (lowerFile source tree).relocate place := by
  rw [lowerFile, lowerFile, lower_relocate hf hplace hspan htext, Expr.asProgram_relocate]

end

/-! ## Idioms -/

section

variable (place : Span → Span)

def Mention.relocate (mention : Mention) : Mention := { mention with span := place mention.span }

def Candidate.relocate : Candidate → Candidate
  | .orAssign ivar => .orAssign (ivar.relocate place)
  | .definedGuard ivar checked returned assigned =>
    .definedGuard ivar (checked.relocate place) (returned.relocate place) (assigned.relocate place)

def Occurrence.relocate (o : Occurrence) : Occurrence := { o with expr := o.expr.relocate place }

def Visit.relocate (visit : Visit) : Visit :=
  ⟨visit.site.relocate place, visit.trail.map (Occurrence.relocate place)⟩

def MethodSite.relocate (method : MethodSite) : MethodSite :=
  { method with body := method.body.map (Expr.relocate place) }

def IdiomMatch.relocate (found : IdiomMatch) : IdiomMatch :=
  { found with
    candidate := found.candidate.relocate place
    method := found.method.relocate place }

theorem Visit.trail_relocate (visit : Visit) :
    (visit.relocate place).trail = visit.trail.map (Occurrence.relocate place) := rfl

theorem Visit.address_relocate (visit : Visit) :
    (visit.relocate place).site.address = visit.site.address := rfl

theorem Visit.expr_relocate (visit : Visit) :
    (visit.relocate place).site.expr = visit.site.expr.relocate place := rfl

theorem Candidate.ivar_relocate (candidate : Candidate) :
    (candidate.relocate place).ivar = candidate.ivar := by
  cases candidate <;> rfl

theorem Candidate.spans_relocate (candidate : Candidate) :
    (candidate.relocate place).spans = candidate.spans.map place := by
  cases candidate <;> rfl

theorem Expr.mention?_relocate (e : Expr) :
    (e.relocate place).mention? = e.mention?.map (Mention.relocate place) := by
  cases e <;> rfl

theorem Expr.assigned?_relocate (e : Expr) :
    (e.relocate place).assigned? = e.assigned?.map (Mention.relocate place) := by
  cases e <;> rfl

theorem Expr.assigns_relocate (ivar : String) (e : Expr) :
    (e.relocate place).assigns ivar = e.assigns ivar := by
  rw [assigns, assigns, assigned?_relocate, Option.any_map]
  rfl

theorem Expr.guarded?_relocate (ivar : String) (e : Expr) :
    (e.relocate place).guarded? ivar = (e.guarded? ivar).map (Mention.relocate place) := by
  cases e with
  | conditional condition thenBranch elseBranch span =>
    match condition, thenBranch with
    | none, _ => rfl
    | some condition, none => rfl
    | some condition, some branch =>
      cases branch with
      | returns value exit =>
        match value, elseBranch with
        | none, _ => rfl
        | some value, some _ => cases value <;> rfl
        | some value, none =>
          cases value with
          | ivar name read =>
            show (if name = ivar then _ else _) = Option.map _ (if name = ivar then _ else _)
            by_cases hname : name = ivar
            · rw [if_pos hname, if_pos hname]
              rfl
            · rw [if_neg hname, if_neg hname]
              rfl
          | _ => rfl
      | _ => rfl
  | _ => rfl

theorem Occurrence.method?_relocate (o : Occurrence) :
    (o.relocate place).method? = o.method?.map (MethodSite.relocate place) := by
  obtain ⟨address, e⟩ := o
  cases e <;> simp [relocate, method?, Expr.relocate, MethodSite.relocate]

theorem enclosingMethod?_relocate (trail : List Occurrence) :
    enclosingMethod? (trail.map (Occurrence.relocate place)) =
      (enclosingMethod? trail).map (MethodSite.relocate place) := by
  rw [enclosingMethod?, enclosingMethod?, List.findSome?_map, List.map_findSome?]
  congr 1
  funext o
  exact Occurrence.method?_relocate place o

theorem MethodSite.endsWith_relocate (method : MethodSite) (address : Address) :
    (method.relocate place).endsWith address = method.endsWith address := by
  obtain ⟨home, name, body⟩ := method
  match body with
  | none => rfl
  | some body =>
    cases body with
    | sequence statements span =>
      cases statements with
      | nil => rfl
      | cons first rest =>
        simp only [relocate, endsWith, Option.map_some, Expr.relocate, Expr.relocateAll_eq_map,
          List.map_cons, List.length_cons, List.length_map]
        rfl
    | _ => rfl

/-! ### What is found -/

theorem bind_mention?_relocate (e : Option Expr) :
    (e.map (Expr.relocate place)).bind Expr.mention? =
      (e.bind Expr.mention?).map (Mention.relocate place) := by
  cases e with
  | none => rfl
  | some e => exact Expr.mention?_relocate place e

theorem matchOrAssign_relocate (target : Option Expr) (visit : Visit) :
    (matchOrAssign (target.map (Expr.relocate place)) (visit.relocate place)).value =
      (matchOrAssign target visit).value.map (Option.map (IdiomMatch.relocate place)) := by
  have hmethod := enclosingMethod?_relocate place visit.trail
  unfold matchOrAssign
  rw [bind_mention?_relocate, Visit.trail_relocate, hmethod]
  cases target.bind Expr.mention? with
  | none => rfl
  | some ivar =>
    cases enclosingMethod? visit.trail with
    | none => rfl
    | some method =>
      simp only [Option.map_some, Visit.address_relocate, MethodSite.endsWith_relocate]
      cases method.endsWith visit.site.address with
      | error fault => rfl
      | ok ends => cases ends <;> rfl

theorem matchGuardedBody_relocate (checked : Mention) (address : Address) (method : MethodSite)
    (guard : Expr) (rest : List Expr) :
    (matchGuardedBody (checked.relocate place) address (method.relocate place)
        (guard.relocate place) (rest.map (Expr.relocate place))).value =
      (matchGuardedBody checked address method guard rest).value.map
        (IdiomMatch.relocate place) := by
  obtain ⟨ivar, read⟩ := checked
  obtain ⟨home, name, body⟩ := method
  have hassigns : (rest.map (Expr.relocate place)).dropLast.any (Expr.assigns ivar) =
      rest.dropLast.any (Expr.assigns ivar) := by
    rw [← List.map_dropLast, List.any_map]
    congr 1
    funext e
    exact Expr.assigns_relocate place ivar e
  cases hlast : rest.getLast? with
  | none => simp [matchGuardedBody, hlast]
  | some last =>
    by_cases haddress : address = home ++ [0, 0, 0]
    · cases hguard : guard.guarded? ivar with
      | none => simp [matchGuardedBody, hlast, Mention.relocate, Expr.guarded?_relocate, hguard]
      | some returned =>
        cases hassigned : last.assigned? with
        | none => simp [matchGuardedBody, hlast, Expr.assigned?_relocate, hassigned]
        | some assigned =>
          obtain ⟨written, place'⟩ := assigned
          by_cases hname : written = ivar
          · subst hname haddress
            cases hany : rest.dropLast.any (Expr.assigns written) <;>
              simp [matchGuardedBody, hlast, Mention.relocate, Expr.guarded?_relocate, hguard,
                Expr.assigned?_relocate, hassigned, hassigns, hany, MethodSite.relocate,
                MethodSite.statementAddress, IdiomMatch.relocate, Candidate.relocate]
          · simp [matchGuardedBody, hlast, Mention.relocate, Expr.guarded?_relocate, hguard,
              Expr.assigned?_relocate, hassigned, hname]
    · simp [matchGuardedBody, hlast, MethodSite.relocate, MethodSite.statementAddress, haddress]

theorem matchDefinedGuard_relocate (argument : Option Expr) (visit : Visit) :
    (matchDefinedGuard (argument.map (Expr.relocate place)) (visit.relocate place)).value =
      (matchDefinedGuard argument visit).value.map (Option.map (IdiomMatch.relocate place)) := by
  have hmethod := enclosingMethod?_relocate place visit.trail
  unfold matchDefinedGuard
  rw [bind_mention?_relocate, Visit.trail_relocate, hmethod]
  cases argument.bind Expr.mention? with
  | none => rfl
  | some checked =>
    cases enclosingMethod? visit.trail with
    | none => rfl
    | some method =>
      obtain ⟨home, name, body⟩ := method
      match body with
      | none => rfl
      | some body =>
        cases body with
        | sequence statements span =>
          cases statements with
          | nil => rfl
          | cons guard rest =>
            have hbody := matchGuardedBody_relocate place checked visit.site.address
              ⟨home, name, some (.sequence (guard :: rest) span)⟩ guard rest
            simp only [Option.map_some, MethodSite.relocate, Expr.relocate,
              Expr.relocateAll_eq_map, List.map_cons, Visit.address_relocate,
              Logged.value_map] at hbody ⊢
            exact congrArg Except.ok hbody
        | _ => rfl

theorem Visit.found?_relocate (visit : Visit) :
    (visit.relocate place).found? = visit.found?.map (IdiomMatch.relocate place) := by
  have hmatch : (matchIdiom (visit.relocate place)).value =
      (matchIdiom visit).value.map (Option.map (IdiomMatch.relocate place)) := by
    unfold matchIdiom
    rw [expr_relocate]
    cases visit.site.expr with
    | orAssign target value span =>
      rw [← matchOrAssign_relocate, ← Expr.relocate?_eq_map]
      rfl
    | definedCheck argument span =>
      rw [← matchDefinedGuard_relocate, ← Expr.relocate?_eq_map]
      rfl
    | _ => rfl
  unfold found?
  rw [hmatch]
  cases (matchIdiom visit).value <;> rfl

/-! ### What is said -/

def Complaint.relocate (complaint : Complaint) : Complaint :=
  { complaint with span := place complaint.span }

theorem complaintsAbout_relocate (style : Style) (method : String) (candidate : Candidate) :
    complaintsAbout style method (candidate.relocate place) =
      (complaintsAbout style method candidate).map (Complaint.relocate place) := by
  unfold complaintsAbout
  rw [candidate.ivar_relocate, candidate.spans_relocate]
  split
  · rfl
  · rw [List.map_map, List.map_map]
    rfl

theorem Visit.complaints_relocate (style : Style) (visit : Visit) :
    (visit.relocate place).complaints style =
      (visit.complaints style).map (Complaint.relocate place) := by
  rw [complaints, complaints, found?_relocate]
  cases visit.found? with
  | none => rfl
  | some found =>
    simp only [Option.map_some, Option.toList_some, List.flatMap_singleton]
    exact complaintsAbout_relocate place style found.method.name found.candidate

theorem Visit.children_relocate (visit : Visit) :
    (visit.relocate place).children = visit.children.map (Visit.relocate place) := by
  apply List.ext_getElem?
  intro position
  rw [getElem?_children, List.getElem?_map, getElem?_children, Option.map_map, expr_relocate,
    Expr.children_relocate, List.getElem?_map, Option.map_map]
  rfl

theorem Visit.reach_relocate (visit : Visit) :
    (visit.relocate place).reach = visit.reach.map (Visit.relocate place) := by
  induction visit using childInduction with
  | step visit ih =>
    rw [reach_eq, reach_eq, children_relocate, List.flatMap_map, List.map_cons, List.map_flatMap]
    congr 1
    exact List.flatMap_congr ih

/-- The complaints about a relocated program are those about the program, relocated, in the same
order. -/
theorem Expr.complaints_walk_relocate (style : Style) (program : Expr) :
    (program.relocate place).walk.flatMap (Visit.complaints style) =
      (program.walk.flatMap (Visit.complaints style)).map (Complaint.relocate place) := by
  have hwalk : (program.relocate place).walk = program.walk.map (Visit.relocate place) :=
    Visit.reach_relocate place (.root program)
  rw [hwalk, List.flatMap_map, List.map_flatMap]
  exact List.flatMap_congr fun visit _ => Visit.complaints_relocate place style visit

end

/-! ### Where it is said -/

/-- What is complained about is an instance variable of the tree. -/
theorem reads_of_complaint {style : Style} {source : Bytes} {tree : ParseTree}
    {complaint : Complaint}
    (h : complaint ∈ (lowerFile source tree).walk.flatMap (Visit.complaints style)) :
    ∃ token, tree.Reads token ∧ complaint.span = token.span := by
  have hprescribed := (perm_complaints style (lowerFile source tree)).subset h
  obtain ⟨method, hmethod, -, ivar, hbelow, hkind, hspan, -, -⟩ :=
    exists_nodes_of_prescribed hprescribed
  exact ⟨ivar.token, .ivar (ParseTree.mem_descendants_trans hmethod hbelow) hkind, hspan⟩

end MemoAudit
