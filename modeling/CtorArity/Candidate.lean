import CtorArity.Arity
import CtorArity.Visibility

/-!
# Candidates

The constructors that a call may bind to. A class that declares no instance
constructor has an implicit one without parameters.
-/

namespace CtorArity

/-- One constructor; the implicit one has the absent handle. -/
structure Candidate where
  ctor : CtorId
  access : Access
  arity : Arity
  deriving DecidableEq, Repr

def Candidate.isImplicit (c : Candidate) : Bool := c.ctor.isAbsent

def anyAccepts (candidates : List Candidate) (argCount : UInt32) : Bool :=
  candidates.any (·.arity.accepts argCount)

namespace CompilationUnit

variable (u : CompilationUnit)

def declaredCandidates (id : TypeId) : List Candidate :=
  (u.instanceConstructorsOf id).map fun (ctor, c) => ⟨ctor, c.access, .ofParams c.params⟩

/-- The implicit constructor, which an abstract class keeps to its subtypes. -/
def implicitConstructor? (id : TypeId) : Option Candidate :=
  match u.type? id with
  | none => none
  | some t =>
    if t.isInstanceClass && (u.instanceConstructorsOf id).isEmpty then
      some ⟨.absent, if t.modifiers.isAbstract then .subtypes else .everywhere, .ofParams []⟩
    else none

/-- The constructors of `target` that `requester` may call, in declaration order. -/
def candidates (r : Resolver) (target requester : TypeId) : List Candidate :=
  (u.declaredCandidates target ++ (u.implicitConstructor? target).toList).filter
    (·.access.admits r target requester)

end CompilationUnit

end CtorArity
