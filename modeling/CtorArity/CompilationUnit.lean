import CtorArity.Declaration

/-!
# Compilation units

A unit is three tables of declarations and the lists of what stands at its
top level. All questions here are look-ups: nothing is checked, and a handle
that names nothing is answered by `none`, an empty list or an empty span.
-/

namespace CtorArity

structure CompilationUnit where
  fileName : String
  scope : ScopeId
  types : Array TypeDecl
  ctors : Array Ctor
  creations : Array Creation
  /-- Top-level types in declaration order. -/
  roots : List TypeId
  /-- Creations in top-level statements, in source order. -/
  topLevelCreations : List CreationId
  deriving DecidableEq, Repr

/-- A child of a type's body, or of the unit. -/
inductive Item
  | type (id : TypeId)
  | creation (id : CreationId)
  deriving DecidableEq, Repr

namespace CompilationUnit

variable (u : CompilationUnit)

def isEmpty : Bool := u.types.isEmpty && u.creations.isEmpty

def type? (id : TypeId) : Option TypeDecl :=
  if id.isAbsent then none else u.types[id.index]?

def ctor? (id : CtorId) : Option Ctor :=
  if id.isAbsent then none else u.ctors[id.index]?

def creation? (id : CreationId) : Option Creation :=
  if id.isAbsent then none else u.creations[id.index]?

def namedTypes : List (TypeId × TypeDecl) :=
  u.types.toList.zipIdx.map fun (t, i) => (.ofIndex i, t)

def findType? (name : String) : Option TypeId :=
  (u.types.findIdx? (·.name == name)).map .ofIndex

/-- The constructors of a type in declaration order, static ones included. -/
def constructorsOf (id : TypeId) : List (CtorId × Ctor) :=
  match u.type? id with
  | none => []
  | some t => t.constructors.filterMap fun c => (u.ctor? c).map (c, ·)

def instanceConstructorsOf (id : TypeId) : List (CtorId × Ctor) :=
  (u.constructorsOf id).filter (!·.2.isStatic)

/-- Where an item starts; one that names nothing comes last. -/
def startOf : Item → UInt32
  | .type id => ((u.type? id).map (·.span.start)).getD 0xFFFFFFFF
  | .creation id => ((u.creation? id).map (·.span.start)).getD 0xFFFFFFFF

def startsBefore (t : TypeId) (c : CreationId) : Bool :=
  decide (u.startOf (.creation c) < u.startOf (.type t))

/-- Types and creations by start; on equal starts the type comes first. -/
def mergeByStart : List TypeId → List CreationId → List Item
  | [], creations => creations.map .creation
  | t :: types, creations =>
    (creations.takeWhile (u.startsBefore t)).map .creation ++
      .type t :: mergeByStart types (creations.dropWhile (u.startsBefore t))

def bodyItems (id : TypeId) : List Item :=
  match u.type? id with
  | none => []
  | some t => u.mergeByStart t.nested t.creations

def topLevelItems : List Item :=
  u.mergeByStart u.roots u.topLevelCreations

/-- At most this many steps outwards along the parents, the handle itself first. -/
def ancestorsWithin : Nat → TypeId → List TypeId
  | 0, _ => []
  | steps + 1, id =>
    if id.isAbsent then []
    else
      id :: match u.type? id with
        | none => []
        | some t => ancestorsWithin steps t.parent

/-- The type and those around it, from the inside out. A chain of parents is
never longer than the table. -/
def ancestorsAndSelf (id : TypeId) : List TypeId :=
  u.ancestorsWithin (u.types.size + 1) id

/-- Where to point for a finding about a type: its name if that has a place. -/
def typeNameSpan (id : TypeId) : Span :=
  match u.type? id with
  | none => .dummy
  | some t => if t.nameSpan.isEmpty then t.span else t.nameSpan

/-- The items below one item, itself last: a body is visited before its type. -/
def visitsWithin : Nat → Item → List Item
  | _, .creation id => [.creation id]
  | 0, .type id => [.type id]
  | depth + 1, .type id => (u.bodyItems id).flatMap (visitsWithin depth) ++ [.type id]

/-- The order in which an item and all below it are visited. Types nest no
deeper than the table is long. -/
def visits (item : Item) : List Item :=
  u.visitsWithin u.types.size item

end CompilationUnit

end CtorArity
