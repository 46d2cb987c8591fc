import CtorArity.Handle
import CtorArity.Span

/-!
# Declarations

Types, constructors and object creations as a unit declares them. They refer
to one another by handle only.
-/

namespace CtorArity

inductive TypeKind
  | classType
  | interfaceType
  | structType
  | enumType
  deriving DecidableEq, Repr

structure Modifiers where
  isStatic : Bool := false
  isAbstract : Bool := false
  isSealed : Bool := false
  deriving DecidableEq, Repr, Inhabited

def Modifiers.render (m : Modifiers) : String :=
  " | ".intercalate <|
    (if m.isStatic then ["STATIC"] else []) ++ (if m.isAbstract then ["ABSTRACT"] else []) ++
      (if m.isSealed then ["SEALED"] else [])

/-- From where a constructor may be called. -/
inductive Access
  | everywhere
  /-- From derived types. -/
  | subtypes
  /-- From the same compilation scope. -/
  | scope
  | subtypesOrScope
  /-- From derived types in the same scope. -/
  | subtypesInScope
  /-- From the declaring type and the types inside it. -/
  | ownType
  deriving DecidableEq, Repr

structure Param where
  name : String
  hasDefault : Bool := false
  /-- Takes any number of arguments. -/
  isVariadic : Bool := false
  deriving DecidableEq, Repr

/-- What a constructor's initializer clause calls. -/
inductive ChainTarget
  | base
  | own
  deriving DecidableEq, Repr

structure Initializer where
  target : ChainTarget
  argCount : UInt32
  span : Span
  deriving DecidableEq, Repr

structure Ctor where
  owner : TypeId
  params : List Param
  access : Access
  isStatic : Bool
  initializer : Option Initializer
  span : Span
  deriving DecidableEq, Repr

/-- The clause that calls a constructor of the base, if one is written. -/
def Ctor.baseInitializer? (c : Ctor) : Option Initializer :=
  c.initializer.filter (·.target == .base)

def Ctor.chainsToOwn (c : Ctor) : Bool :=
  c.initializer.any (·.target == .own)

inductive BaseBinding
  /-- No base clause, or one that names the root of all classes. -/
  | noBase
  | declared (base : TypeId)
  /-- A base that this unit does not declare. -/
  | external
  deriving DecidableEq, Repr

def BaseBinding.declared? : BaseBinding → Option TypeId
  | .declared base => some base
  | _ => none

inductive CreationTarget
  | declared (target : TypeId)
  | unresolved
  deriving DecidableEq, Repr

/-- One object creation. Its owner is the type whose members hold it, or the
absent handle for a top-level statement. -/
structure Creation where
  target : CreationTarget
  argCount : UInt32
  enclosing : TypeId
  span : Span
  deriving DecidableEq, Repr

/-- A type with the handles of what its body holds, each list in source order.
A static constructor counts as a constructor; a creation inside a nested type
belongs to that one. -/
structure TypeDecl where
  name : String
  scope : ScopeId
  kind : TypeKind
  modifiers : Modifiers
  parent : TypeId
  base : BaseBinding
  constructors : List CtorId
  nested : List TypeId
  creations : List CreationId
  span : Span
  nameSpan : Span
  deriving DecidableEq, Repr

namespace TypeDecl

def isClass (t : TypeDecl) : Bool := t.kind == .classType

/-- A class that can be derived from: not a static one. -/
def isInstanceClass (t : TypeDecl) : Bool := t.isClass && !t.modifiers.isStatic

/-- A class that can be created. -/
def isConcreteClass (t : TypeDecl) : Bool := t.isInstanceClass && !t.modifiers.isAbstract

end TypeDecl

end CtorArity
