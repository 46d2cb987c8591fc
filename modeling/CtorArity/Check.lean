import CtorArity.Event

/-!
# The check of a unit

The top-level items are visited in turn, each with all below it, bodies before
their types. A signal may stop the run, but only before a top-level item, so
the issues of an item are all there or none is.
-/

namespace CtorArity

/-- A question put to the resolver. -/
inductive Lookup
  | base (id : TypeId)
  | target (id : CreationId)
  deriving DecidableEq, Repr

/-- How far a run has come: how often the signal was asked before, and what
the resolver was asked. -/
structure Progress where
  polls : Nat
  lookups : Array Lookup
  deriving DecidableEq, Repr

/-- Whether a run that has come this far is to stop. -/
abbrev Signal := Progress → Bool

def Signal.never : Signal := fun _ => false

/-- What the visit of one item adds to a run. -/
structure Visit where
  lookup? : Option Lookup
  event? : Option Event
  issue? : Option Issue
  deriving DecidableEq, Repr

namespace CompilationUnit

variable (u : CompilationUnit)

def visitType (r : Resolver) (policy : Policy) (id : TypeId) : Visit :=
  let verdict := u.baseVerdict r policy id
  { lookup? := if ((u.type? id).any (·.isInstanceClass)) then some (.base id) else none
    event? := verdict.event?
    issue? := verdict.failure?.map u.issueOfBase }

def visitCreation (r : Resolver) (id : CreationId) : Visit :=
  let verdict := u.creationVerdict r id
  { lookup? := (u.creation? id).map fun _ => .target id
    event? := verdict.event?
    issue? := verdict.failure?.map u.issueOfCreation }

/-- The visit of the item alone, without what is below it. -/
def visit (r : Resolver) (o : Options) : Item → Visit
  | .type id => u.visitType r o.policy id
  | .creation id => if o.checkObjectCreation then u.visitCreation r id else ⟨none, none, none⟩

end CompilationUnit

structure Run where
  bag : IssueBag
  log : Array Event
  progress : Progress
  cancelled : Bool
  deriving DecidableEq, Repr

namespace Run

def start (file : String) : Run :=
  ⟨.empty, #[.checkStarted file], ⟨0, #[]⟩, false⟩

def note (event : Event) (run : Run) : Run := { run with log := run.log.push event }

/-- Logs an issue under the place it will have, and keeps it. -/
def emit (issue : Issue) (run : Run) : Run :=
  { run.note (.issueFound run.bag.size issue.origin issue.span.start issue.message) with
    bag := run.bag.push issue }

def ask (lookup : Lookup) (run : Run) : Run :=
  { run with progress := { run.progress with lookups := run.progress.lookups.push lookup } }

def poll (run : Run) : Run :=
  { run with progress := { run.progress with polls := run.progress.polls + 1 } }

def add (run : Run) (v : Visit) : Run :=
  let run := v.lookup?.elim run run.ask
  let run := v.event?.elim run run.note
  v.issue?.elim run run.emit

def cancel (run : Run) : Run := { run.note .cancelled with cancelled := true }

def finish (run : Run) : Run :=
  run.note (.checkFinished run.bag.size run.bag.baseBindings run.bag.instantiations)

end Run

namespace CompilationUnit

variable (u : CompilationUnit)

/-- Visits the items in turn until the signal answers yes. -/
def checkItems (r : Resolver) (o : Options) (signal : Signal) : List Item → Run → Run
  | [], run => run
  | item :: rest, run =>
    if signal run.progress then run.poll.cancel
    else
      checkItems r o signal rest
        ((u.visits item).foldl (fun run below => run.add (u.visit r o below)) run.poll)

def check (r : Resolver) (o : Options) (signal : Signal) : Run :=
  (u.checkItems r o signal u.topLevelItems (.start u.fileName)).finish

/-- The issues by the unit's own bindings and the default options. -/
def collect : List Issue :=
  (u.check u.resolver {} .never).bag.issues.toList

def diagnosticsOf (o : Options) (issues : List Issue) : Except SpanFault (List Diagnostic) :=
  issues.mapM (·.toDiagnostic u.fileName o.severity.category)

def diagnostics (o : Options) : Except SpanFault (List Diagnostic) :=
  u.diagnosticsOf o (u.check u.resolver o .never).bag.issues.toList

end CompilationUnit

end CtorArity
