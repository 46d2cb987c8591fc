import CtorArity.Draft
import CtorArity.Issue

/-!
# Events

What a run tells a log, each event with its level and its fields in writing.
-/

namespace CtorArity

inductive Event
  /-- A modifier that means nothing to the check. -/
  | modifierIgnored (modifier : String)
  | unitBuilt (file : String) (types ctors creations : Nat)
  | checkStarted (file : String)
  | notInstanceClass (name : String)
  | noDeclaredBase (name : String)
  | baseNotInstanceClass (name base : String)
  | exempted (id : TypeId)
  | undeclaredTarget (id : CreationId)
  | notConcreteClass (name : String)
  | issueFound (order : Nat) (origin : Origin) (start : UInt32) (message : String)
  | cancelled
  | checkFinished (issues baseBindings instantiations : Nat)
  deriving DecidableEq, Repr

inductive Level
  | trace
  | debug
  /-- The event opens a span of the log. -/
  | span
  deriving DecidableEq, Repr

def Level.name : Level → String
  | .trace => "TRACE"
  | .debug => "DEBUG"
  | .span => "SPAN"

def Origin.label : Origin → String
  | .baseBinding => "BaseBinding"
  | .instantiation => "Instantiation"

namespace Event

def level : Event → Level
  | .checkStarted _ => .span
  | .issueFound .. | .cancelled | .checkFinished .. => .debug
  | _ => .trace

/-- The fields by name. What an issue says takes the place of the event's text. -/
def fields : Event → List (String × String)
  | .modifierIgnored modifier => [("modifier", modifier), ("message", "ignoring modifier")]
  | .unitBuilt file types ctors creations =>
    [("file", file), ("types", Nat.repr types), ("ctors", Nat.repr ctors),
      ("creations", Nat.repr creations), ("message", "declaration unit built")]
  | .checkStarted file => [("span", "check_unit"), ("file", file)]
  | .notInstanceClass name =>
    [("ty", name), ("message", "not a non-static class, skipping base binding")]
  | .noDeclaredBase name => [("ty", name), ("message", "no base declared in this unit")]
  | .baseNotInstanceClass name base =>
    [("ty", name), ("base", base), ("message", "base is not an instantiable class")]
  | .exempted id =>
    [("ty", "TypeDeclId(" ++ Nat.repr id.index ++ ")"),
      ("message", "failing base call exempted by a binding sibling")]
  | .undeclaredTarget id =>
    [("creation", "CreationId(" ++ Nat.repr id.index ++ ")"),
      ("message", "creation target not declared in this unit")]
  | .notConcreteClass name =>
    [("target", name), ("message", "creation target is not a concrete class")]
  | .issueFound order origin start message =>
    [("order", Nat.repr order), ("origin", origin.label), ("start", Nat.repr start.toNat),
      ("message", message)]
  | .cancelled => [("message", "cancelled")]
  | .checkFinished issues baseBindings instantiations =>
    [("issues", Nat.repr issues), ("base_binding", Nat.repr baseBindings),
      ("instantiation", Nat.repr instantiations), ("message", "check finished")]

end Event

/-- The event of a unit that has been built. -/
def CompilationUnit.builtEvent (u : CompilationUnit) : Event :=
  .unitBuilt u.fileName u.types.size u.ctors.size u.creations.size

def BaseVerdict.event? : BaseVerdict → Option Event
  | .skipped (.notInstanceClass name) => some (.notInstanceClass name)
  | .skipped (.noDeclaredBase name) => some (.noDeclaredBase name)
  | .skipped (.baseNotInstanceClass name base) => some (.baseNotInstanceClass name base)
  | .exempted id => some (.exempted id)
  | _ => none

def CreationVerdict.event? : CreationVerdict → Option Event
  | .skipped (.undeclaredTarget id) => some (.undeclaredTarget id)
  | .skipped (.notConcreteClass name) => some (.notConcreteClass name)
  | _ => none

end CtorArity
