import CtorArity.Draft
import CtorArity.Event

/-!
# Declaration dumps

A dump describes a unit as a tree and names bases and targets by simple name.
Lowering writes the tree as builder steps: all types with their constructors
first, then the bases, then the creations, so a name may be used before the
type that it names. A name means the first type of that name, in the order in
which the tree is read.
-/

namespace CtorArity

structure ParamDump where
  name : String
  hasDefault : Bool := false
  isVariadic : Bool := false
  deriving DecidableEq, Repr

structure InitializerDump where
  target : ChainTarget
  args : UInt32 := 0
  deriving DecidableEq, Repr

structure CtorDump where
  access : Access := .everywhere
  isStatic : Bool := false
  params : List ParamDump := []
  initializer : Option InitializerDump := none
  deriving DecidableEq, Repr

structure CreationDump where
  target : String
  args : UInt32 := 0
  deriving DecidableEq, Repr

structure TypeDump where
  name : String
  kind : TypeKind := .classType
  modifiers : List String := []
  base : Option String := none
  scope : Option UInt32 := none
  constructors : List CtorDump := []
  nested : List TypeDump := []
  creations : List CreationDump := []
  deriving Repr

structure UnitDump where
  file : String
  scope : Option UInt32 := none
  types : List TypeDump := []
  creations : List CreationDump := []
  deriving Repr

/-- The names of the class at the root of all classes. -/
def rootNames : List String := ["object", "Object", "System.Object"]

theorem mem_rootNames {name : String} :
    name ∈ rootNames ↔ name = "object" ∨ name = "Object" ∨ name = "System.Object" := by
  simp [rootNames]

/-- The modifiers that mean something to the check; others are passed over. -/
def Modifiers.ofNames (names : List String) : Modifiers where
  isStatic := names.contains "static"
  isAbstract := names.contains "abstract"
  isSealed := names.contains "sealed"

def isModifier (name : String) : Bool :=
  ["static", "abstract", "sealed"].contains name

def ParamDump.toParam (p : ParamDump) : Param := ⟨p.name, p.hasDefault, p.isVariadic⟩

theorem ParamDump.toParam_eq_iff {p : ParamDump} {param : Param} : p.toParam = param ↔
    param.name = p.name ∧ param.hasDefault = p.hasDefault ∧ param.isVariadic = p.isVariadic := by
  cases param
  simp [toParam, eq_comm]

/-- A static constructor keeps no access of its own. -/
def CtorDump.toSpec (c : CtorDump) : CtorSpec :=
  { if c.isStatic then CtorSpec.typeInitializer else { access := c.access } with
    params := c.params.map (·.toParam)
    initializer := c.initializer.map fun i => (i.target, i.args) }

namespace TypeDump

def toSpec (t : TypeDump) (parent : TypeId) : TypeSpec where
  name := t.name
  kind := t.kind
  modifiers := .ofNames t.modifiers
  parent := parent
  scope := t.scope.map Handle.mk

mutual

def preorder : TypeDump → List TypeDump
  | t@⟨_, _, _, _, _, _, nested, _⟩ => t :: preorderAll nested

def preorderAll : List TypeDump → List TypeDump
  | [] => []
  | t :: rest => preorder t ++ preorderAll rest

end

mutual

def count : TypeDump → Nat
  | ⟨_, _, _, _, _, _, nested, _⟩ => countAll nested + 1

def countAll : List TypeDump → Nat
  | [] => 0
  | t :: rest => count t + countAll rest

end

mutual

/-- Declares a type at this place of the table, its constructors, and what is
inside it at the places that follow. -/
def declareSteps (index : Nat) (parent : TypeId) : TypeDump → List Step
  | t@⟨_, _, _, _, _, constructors, nested, _⟩ =>
    .declare (t.toSpec parent) ::
      (constructors.map fun c => .addConstructor (.ofIndex index) c.toSpec) ++
      declareStepsAll (index + 1) (.ofIndex index) nested

def declareStepsAll (index : Nat) (parent : TypeId) : List TypeDump → List Step
  | [] => []
  | t :: rest => declareSteps index parent t ++ declareStepsAll (index + count t) parent rest

end

mutual

/-- The creations of a type at this place, each with its owner: those of nested
types come before the type's own. -/
def ownedCreations (index : Nat) : TypeDump → List (TypeId × CreationDump)
  | ⟨_, _, _, _, _, _, nested, creations⟩ =>
    ownedCreationsAll (index + 1) nested ++ creations.map (.ofIndex index, ·)

def ownedCreationsAll (index : Nat) : List TypeDump → List (TypeId × CreationDump)
  | [] => []
  | t :: rest => ownedCreations index t ++ ownedCreationsAll (index + count t) rest

end

/-- What names mean where these are all the types, each declared at its place in
the list: the first type of a name is meant. -/
def declared? (types : List TypeDump) (name : String) : Option TypeId :=
  (types.findIdx? (·.name == name)).map .ofIndex

def bindBase (types : List TypeDump) (name : String) : BaseBinding :=
  if rootNames.contains name then .noBase
  else (declared? types name).elim .external .declared

def bindTarget (types : List TypeDump) (name : String) : CreationTarget :=
  (declared? types name).elim .unresolved .declared

def baseSteps (types : List TypeDump) : List Step :=
  types.zipIdx.filterMap fun (t, i) =>
    t.base.map fun name => .setBase (.ofIndex i) (bindBase types name)

def creationStep (types : List TypeDump) (owner : TypeId) (c : CreationDump) : Step :=
  .create owner (bindTarget types c.target) c.args

end TypeDump

namespace UnitDump

variable (d : UnitDump)

def allTypes : List TypeDump := TypeDump.preorderAll d.types

def steps : List Step :=
  let types := d.allTypes
  (d.scope.map fun scope => Step.withScope ⟨scope⟩).toList ++
    TypeDump.declareStepsAll 0 .absent d.types ++
    TypeDump.baseSteps types ++
    ((TypeDump.ownedCreationsAll 0 d.types).map fun (owner, c) =>
      TypeDump.creationStep types owner c) ++
    d.creations.map (TypeDump.creationStep types .absent)

def lower : Except ModelError CompilationUnit :=
  ((Draft.start d.file).run d.steps).finish

def ignoredModifiers : List Event :=
  d.allTypes.flatMap fun t => (t.modifiers.filter (!isModifier ·)).map .modifierIgnored

end UnitDump

end CtorArity
