import CtorArity.Candidate

/-!
# Object creations

A creation is looked at when its target is declared and is a concrete class:
creating an abstract class is wrong whatever the arguments are.
-/

namespace CtorArity

/-- A creation that no visible constructor accepts. -/
structure CreationFailure where
  creation : CreationId
  target : TypeId
  argCount : UInt32
  deriving DecidableEq, Repr

/-- Why a creation is not looked at. -/
inductive CreationSkip
  | unknownCreation
  | undeclaredTarget (id : CreationId)
  | unknownTarget
  | notConcreteClass (name : String)
  deriving DecidableEq, Repr

inductive CreationVerdict
  | skipped (why : CreationSkip)
  | bound
  | failed (failure : CreationFailure)
  deriving DecidableEq, Repr

def CreationVerdict.failure? : CreationVerdict → Option CreationFailure
  | .failed f => some f
  | _ => none

namespace CompilationUnit

variable (u : CompilationUnit)

def creationVerdict (r : Resolver) (id : CreationId) : CreationVerdict :=
  match u.creation? id with
  | none => .skipped .unknownCreation
  | some c =>
    match r.creationTarget id with
    | none => .skipped (.undeclaredTarget id)
    | some target =>
      match u.type? target with
      | none => .skipped .unknownTarget
      | some t =>
        if !t.isConcreteClass then .skipped (.notConcreteClass t.name)
        else if anyAccepts (u.candidates r target c.enclosing) c.argCount then .bound
        else .failed ⟨id, target, c.argCount⟩

end CompilationUnit

end CtorArity
