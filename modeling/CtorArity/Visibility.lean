import CtorArity.Resolver

/-!
# Visibility of constructors

A call of a base constructor is made by the derived type, an object creation by
the type whose members hold it, or by nobody if it is a top-level statement.
-/

namespace CtorArity

/-- Whether a constructor of `declaring` with this access may be called by
`requester`, the absent handle standing for a top-level statement. Access for
subtypes is granted to everybody: whether the caller derives from the type is
not this check's question. A type may call its own private constructors, and so
may the types inside it. -/
def Access.admits (access : Access) (r : Resolver) (declaring requester : TypeId) : Bool :=
  match access with
  | .everywhere | .subtypes | .subtypesOrScope => true
  | .scope => requester.isAbsent || r.sameScope requester declaring
  | .subtypesInScope => !requester.isAbsent && r.sameScope requester declaring
  | .ownType => !requester.isAbsent && r.nestedWithin requester declaring

end CtorArity
