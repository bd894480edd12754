/-!
# The log

Every stage reports what it does on a *channel* of its own, at one of four levels.  A computation
that reports is a `Logged` value: its result together with the entries, oldest first.  Results never
depend on the log, which the two projection lemmas `Logged.value_bind` and `Logged.log_bind` make
plain; a theorem about results reads through `value` and forgets the rest.

Failing computations are `Logged (Except ε α)`, so that what was reported before a failure survives.
-/

namespace MemoAudit

/-- How urgent an entry is. -/
inductive Level where
  | debug
  | info
  | warning
  | error
  deriving DecidableEq, Repr, Inhabited

namespace Level

def text : Level → String
  | .debug => "DEBUG"
  | .info => "INFO"
  | .warning => "WARNING"
  | .error => "ERROR"

/-- Whether an entry of this level is shown to a user who has not asked for details. -/
def isUrgent : Level → Bool
  | .debug | .info => false
  | .warning | .error => true

end Level

/-- The stage that an entry comes from. -/
inductive Channel where
  | parsing
  | loading
  | lowering
  | idioms
  | emission
  | rule
  | discovery
  | settings
  | analysis
  deriving DecidableEq, Repr, Inhabited

/-- The name under which a channel appears in the output. -/
def Channel.text : Channel → String
  | .parsing => "memolint.parser"
  | .loading => "memolint.context"
  | .lowering => "memolint.syntax.lowering"
  | .idioms => "memolint.memoization.patterns"
  | .emission => "memolint.memoization.emitter"
  | .rule => "memolint.rules.memoized_instance_variable_name"
  | .discovery => "memolint.traversal"
  | .settings => "memolint.config"
  | .analysis => "memolint.main"

structure LogEntry where
  level : Level
  channel : Channel
  message : String
  deriving DecidableEq, Repr, Inhabited

namespace LogEntry

/-- The line that an entry is written as. -/
def text (entry : LogEntry) : String :=
  s!"{entry.level.text} {entry.channel.text}: {entry.message}"

end LogEntry

/-- A result and what was reported on the way to it. -/
@[ext]
structure Logged (α : Type) where
  value : α
  log : List LogEntry := []
  deriving Repr, Inhabited

namespace Logged

variable {α β : Type}

instance : Monad Logged where
  pure value := { value }
  bind action next :=
    let result := next action.value
    { value := result.value, log := action.log ++ result.log }

instance : LawfulMonad Logged :=
  LawfulMonad.mk' Logged
    (fun _ => by ext <;> simp [Functor.map])
    (fun _ _ => by ext <;> simp [Bind.bind, Pure.pure])
    (fun _ _ _ => by ext <;> simp [Bind.bind])

/-- Reports one entry. -/
def note (level : Level) (channel : Channel) (message : String) : Logged Unit :=
  { value := (), log := [⟨level, channel, message⟩] }

@[simp] theorem value_pure (a : α) : (pure a : Logged α).value = a := rfl

@[simp] theorem log_pure (a : α) : (pure a : Logged α).log = [] := rfl

@[simp] theorem value_bind (action : Logged α) (next : α → Logged β) :
    (action >>= next).value = (next action.value).value := rfl

@[simp] theorem log_bind (action : Logged α) (next : α → Logged β) :
    (action >>= next).log = action.log ++ (next action.value).log := rfl

@[simp] theorem value_map (f : α → β) (action : Logged α) :
    (f <$> action).value = f action.value := rfl

@[simp] theorem value_note (level : Level) (channel : Channel) (message : String) :
    (note level channel message).value = () := rfl

/-- The values of a list of computations run in order. -/
theorem value_mapM (f : α → Logged β) (as : List α) :
    (as.mapM f).value = as.map fun a => (f a).value := by
  induction as with
  | nil => rfl
  | cons a as ih => simp [List.mapM_cons, ih]

end Logged

end MemoAudit
