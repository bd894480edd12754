import MemoAudit.Expr.Walk
import MemoAudit.Log

/-!
# The two memoization idioms

A method can cache its result in two ways.  It can end with an or-assignment,

    def total
      rows = load
      @total ||= rows.sum
    end

or it can start with a guard and end with a plain assignment,

    def total
      return @total if defined?(@total)
      @total = load.sum
    end

The idioms are looked for from the inside: `matchOrAssign` is asked about an or-assignment and
`matchDefinedGuard` about a `defined?`, each with the occurrences above it.  Whether *this*
occurrence ends or guards its method is decided by its address.

Both read the first or last statement of a sequence, which an empty sequence does not have; then the
answer is a fault.  Along a walk this does not happen, since something was found below the method.
-/

namespace MemoAudit

/-- A variable where it is mentioned. -/
structure Mention where
  name : String
  span : Span
  deriving DecidableEq, Repr, Inhabited

/-- A use of one of the idioms, as far as the name of the variable is concerned. -/
inductive Candidate where
  | orAssign (ivar : Mention)
  /-- The variable is mentioned in the check, in the `return` and in the assignment. -/
  | definedGuard (ivar : String) (checked returned assigned : Mention)
  deriving DecidableEq, Repr, Inhabited

namespace Candidate

/-- The variable that caches the result. -/
def ivar : Candidate → String
  | .orAssign ivar => ivar.name
  | .definedGuard ivar .. => ivar

/-- Every place that has to change together if the variable is renamed. -/
def spans : Candidate → List Span
  | .orAssign ivar => [ivar.span]
  | .definedGuard _ checked returned assigned => [checked.span, returned.span, assigned.span]

end Candidate

/-- A candidate, the method that it memoizes, and the addresses of the mentions. -/
structure IdiomMatch where
  candidate : Candidate
  method : MethodSite
  anchors : List Address
  deriving Repr, Inhabited

/-- Why an idiom cannot be looked for. -/
inductive IdiomFault where
  | emptySequence
  deriving DecidableEq, Repr, Inhabited

namespace MethodSite

/-- The address of the body. -/
def bodyAddress (method : MethodSite) : Address := method.address ++ [0]

/-- The address of a statement, if the body is a sequence. -/
def statementAddress (method : MethodSite) (position : Nat) : Address :=
  method.address ++ [0, position]

/-- The statements of the method, where they stand. -/
def statements (method : MethodSite) : List Occurrence :=
  match method.body with
  | none => []
  | some (.sequence statements _) =>
    statements.mapIdx fun position statement => ⟨method.statementAddress position, statement⟩
  | some body => [⟨method.bodyAddress, body⟩]

/-- Whether the method ends with what stands at an address: as its whole body, or as the last
statement of it. -/
def endsWith (method : MethodSite) (address : Address) : Except IdiomFault Bool :=
  match method.body with
  | none => .ok false
  | some body =>
    if address = method.bodyAddress then .ok true
    else
      match body with
      | .sequence [] _ => .error .emptySequence
      | .sequence statements _ => .ok (address == method.statementAddress (statements.length - 1))
      | _ => .ok false

end MethodSite

/-! ## Ending with an or-assignment -/

/-- The variable that an expression reads, if that is all it does. -/
def Expr.mention? : Expr → Option Mention
  | .ivar name span => some ⟨name, span⟩
  | _ => none

/-- Looks for the first idiom at an or-assignment to the given target. -/
def matchOrAssign (target : Option Expr) (visit : Visit) :
    Logged (Except IdiomFault (Option IdiomMatch)) :=
  match target.bind Expr.mention?, enclosingMethod? visit.trail with
  | some ivar, some method =>
    match method.endsWith visit.site.address with
    | .error fault => pure (.error fault)
    | .ok true => pure (.ok (some ⟨.orAssign ivar, method, [visit.site.address ++ [0]]⟩))
    | .ok false => do
      .note .debug .idioms
        s!"Skipping {ivar.name} ||= in {method.name}: not the final statement"
      pure (.ok none)
  | _, _ => pure (.ok none)

/-! ## Guarding by a check -/

/-- The assignment that an expression is, if it is one to an instance variable. -/
def Expr.assigned? : Expr → Option Mention
  | .ivarAssign name _ _ nameSpan => some ⟨name, nameSpan⟩
  | _ => none

/-- Whether an expression is a plain assignment to the variable. -/
def Expr.assigns (ivar : String) (e : Expr) : Bool := e.assigned?.any (·.name == ivar)

/-- What a guard returns: the mention of the variable in a conditional that has a condition, returns
the variable if it holds, and does nothing otherwise. -/
def Expr.guarded? (ivar : String) : Expr → Option Mention
  | .conditional (some _) (some (.returns (some (.ivar name span)) _)) none _ =>
    if name = ivar then some ⟨name, span⟩ else none
  | _ => none

/-- Looks for the second idiom in a method whose body is a guard followed by more statements, the
guard being about the check at the given address. -/
def matchGuardedBody (checked : Mention) (address : Address) (method : MethodSite) (guard : Expr)
    (rest : List Expr) : Logged (Option IdiomMatch) :=
  let found? := do
    let last ← rest.getLast?
    if address = method.statementAddress 0 ++ [0] then
      let returned ← guard.guarded? checked.name
      let assigned ← last.assigned?
      if assigned.name = checked.name then some (returned, assigned) else none
    else none
  match found? with
  | none => pure none
  | some (returned, assigned) =>
    if rest.dropLast.any (Expr.assigns checked.name) then do
      .note .debug .idioms
        s!"Skipping {checked.name} in {method.name}: assigned more than once"
      pure none
    else
      let anchors :=
        [address ++ [0], method.statementAddress 0 ++ [1, 0], method.statementAddress rest.length]
      pure (some ⟨.definedGuard checked.name checked returned assigned, method, anchors⟩)

/-- Looks for the second idiom at a check of the given argument. -/
def matchDefinedGuard (argument : Option Expr) (visit : Visit) :
    Logged (Except IdiomFault (Option IdiomMatch)) :=
  match argument.bind Expr.mention?, enclosingMethod? visit.trail with
  | some checked, some method =>
    match method.body with
    | some (.sequence [] _) => pure (.error .emptySequence)
    | some (.sequence (guard :: rest) _) =>
      .ok <$> matchGuardedBody checked visit.site.address method guard rest
    | _ => pure (.ok none)
  | _, _ => pure (.ok none)

/-- Looks for either idiom at any occurrence. -/
def matchIdiom (visit : Visit) : Logged (Except IdiomFault (Option IdiomMatch)) :=
  match visit.site.expr with
  | .orAssign target _ _ => matchOrAssign target visit
  | .definedCheck argument _ => matchDefinedGuard argument visit
  | _ => pure (.ok none)

end MemoAudit
