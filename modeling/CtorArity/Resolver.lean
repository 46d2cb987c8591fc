import CtorArity.CompilationUnit

/-!
# Symbol resolvers

The check never reads bindings off a unit; it asks a resolver. A resolver's
answers need not agree with any unit, and may name handles that none has.
-/

namespace CtorArity

structure Resolver where
  /-- The direct base of a type, never one further up. -/
  directBase : TypeId → BaseBinding
  /-- The type that a creation makes, if it is declared. -/
  creationTarget : CreationId → Option TypeId
  /-- Whether two types are compiled into one scope. -/
  sameScope : TypeId → TypeId → Bool
  /-- Whether the first type is the second or stands inside it. -/
  nestedWithin : TypeId → TypeId → Bool

namespace CompilationUnit

variable (u : CompilationUnit)

/-- A base that names nothing is as good as one declared elsewhere. -/
def directBase (id : TypeId) : BaseBinding :=
  match u.type? id with
  | none => .external
  | some t =>
    match t.base with
    | .declared base => if (u.type? base).isSome then .declared base else .external
    | other => other

def creationTarget? (id : CreationId) : Option TypeId :=
  match u.creation? id with
  | none => none
  | some c =>
    match c.target with
    | .declared target => if (u.type? target).isSome then some target else none
    | .unresolved => none

def sameScope (a b : TypeId) : Bool :=
  match u.type? a, u.type? b with
  | some s, some t => s.scope == t.scope
  | _, _ => false

def nestedWithin (inner outer : TypeId) : Bool :=
  !outer.isAbsent && (u.ancestorsAndSelf inner).contains outer

/-- Answers by the bindings that the unit records. -/
def resolver : Resolver where
  directBase := u.directBase
  creationTarget := u.creationTarget?
  sameScope := u.sameScope
  nestedWithin := u.nestedWithin

end CompilationUnit

end CtorArity
