import CtorArity.Candidate
import CtorArity.Options

/-!
# Calls of base constructors

Every instance constructor of a class calls a constructor of the direct base,
by its initializer clause or without one. A constructor that chains to another
of its own type leaves the call to that one.
-/

namespace CtorArity

/-- A call of a base constructor. It is explicit if a clause makes it; the
implicit constructor, which makes one too, has the absent handle. -/
structure CallSite where
  isExplicit : Bool
  argCount : UInt32
  ctor : CtorId
  span : Span
  deriving DecidableEq, Repr

/-- A type whose base calls do not bind as the policy asks. -/
structure BaseFailure where
  derived : TypeId
  base : TypeId
  /-- The first call that does not bind. -/
  site : CallSite
  deriving DecidableEq, Repr

def BaseFailure.argCount (f : BaseFailure) : UInt32 := f.site.argCount

/-- Why the base calls of a type are not looked at. -/
inductive BaseSkip
  | unknownType
  | notInstanceClass (name : String)
  | noDeclaredBase (name : String)
  | unknownBase
  | baseNotInstanceClass (name base : String)
  deriving DecidableEq, Repr

inductive BaseVerdict
  | skipped (why : BaseSkip)
  | bound
  /-- Some call does not bind, but one that does excuses it. -/
  | exempted (id : TypeId)
  | failed (failure : BaseFailure)
  deriving DecidableEq, Repr

def BaseVerdict.failure? : BaseVerdict → Option BaseFailure
  | .failed f => some f
  | _ => none

def Ctor.callSite? (id : CtorId) (c : Ctor) : Option CallSite :=
  if c.chainsToOwn then none
  else
    some <| match c.baseInitializer? with
      | some init => ⟨true, init.argCount, id, init.span⟩
      | none => ⟨false, 0, id, c.span⟩

namespace CompilationUnit

variable (u : CompilationUnit)

def callSites (id : TypeId) : List CallSite :=
  match u.instanceConstructorsOf id with
  | [] => [⟨false, 0, .absent, u.typeNameSpan id⟩]
  | ctors => ctors.filterMap fun (ctor, c) => c.callSite? ctor

/-- The base that a type's calls must bind against. -/
def checkedBase (r : Resolver) (id : TypeId) : Except BaseSkip TypeId :=
  match u.type? id with
  | none => .error .unknownType
  | some t =>
    if !t.isInstanceClass then .error (.notInstanceClass t.name)
    else
      match (r.directBase id).declared? with
      | none => .error (.noDeclaredBase t.name)
      | some base =>
        match u.type? base with
        | none => .error .unknownBase
        | some b =>
          if !b.isInstanceClass then .error (.baseNotInstanceClass t.name b.name) else .ok base

/-- The verdict on calls against a base with these candidates. -/
def judgeCalls (policy : Policy) (derived base : TypeId) (visible : List Candidate)
    (sites : List CallSite) : BaseVerdict :=
  match sites.find? fun site => !anyAccepts visible site.argCount with
  | none => .bound
  | some site =>
    if policy == .exemptOnAnySuccess && sites.any fun s => anyAccepts visible s.argCount then
      .exempted derived
    else .failed ⟨derived, base, site⟩

def baseVerdict (r : Resolver) (policy : Policy) (id : TypeId) : BaseVerdict :=
  match u.checkedBase r id with
  | .error why => .skipped why
  | .ok base => judgeCalls policy id base (u.candidates r base id) (u.callSites id)

end CompilationUnit

end CtorArity
