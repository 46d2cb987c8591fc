import CtorArity.CompilationUnit

/-!
# Drafts

A draft is a unit under construction. Steps add declarations in source order
and lay out a synthetic source text as they go; a step that uses a handle of
nothing is noted as a fault and changes nothing else. `Draft.finish` gives the
unit, or the first fault.
-/

namespace CtorArity

inductive ModelError
  | variadicNotLast (owner param : String)
  | multipleVariadic (owner : String)
  | unknownType (id : TypeId)
  | selfBase (name : String)
  deriving DecidableEq, Repr

def ModelError.message : ModelError → String
  | .variadicNotLast owner param =>
    "constructor of '" ++ owner ++ "': params parameter '" ++ param ++ "' must be last"
  | .multipleVariadic owner =>
    "constructor of '" ++ owner ++ "' declares more than one params parameter"
  | .unknownType id => "unknown type handle " ++ Nat.repr id.index
  | .selfBase name => "type '" ++ name ++ "' names itself as its base type"

structure TypeSpec where
  name : String
  kind : TypeKind := .classType
  modifiers : Modifiers := {}
  parent : TypeId := .absent
  /-- The unit's own scope if none is given. -/
  scope : Option ScopeId := none
  deriving DecidableEq, Repr

structure CtorSpec where
  params : List Param := []
  access : Access := .everywhere
  isStatic : Bool := false
  initializer : Option (ChainTarget × UInt32) := none
  deriving DecidableEq, Repr

/-- The static constructor, which nothing can call. -/
def CtorSpec.typeInitializer : CtorSpec := { access := .ownType, isStatic := true }

structure Draft where
  unit : CompilationUnit
  /-- The first offset of the synthetic text that is not laid out yet. -/
  cursor : UInt32
  /-- The faults so far, in the order of the steps. -/
  faults : List ModelError
  deriving DecidableEq, Repr

namespace Draft

def start (fileName : String) : Draft where
  unit := ⟨fileName, .own, #[], #[], #[], [], []⟩
  cursor := 0
  faults := []

/-- Where the next `length` bytes go, and the draft with the cursor one further. -/
def advance (length : UInt32) (d : Draft) : Span × Draft :=
  let span := Span.ofLength d.cursor length
  (span, { d with cursor := Saturating.add span.stop 1 })

def textLength (s : String) : UInt32 := Saturating.ofNat s.utf8ByteSize

def callLength (argCount : UInt32) : UInt32 :=
  Saturating.add (Saturating.mul argCount 2) 6

/-- The bytes of a constructor's head: its name, two brackets, eight bytes for
each parameter. -/
def headLength (name : String) (params : List Param) : UInt32 :=
  Saturating.add (Saturating.add (textLength name) 2)
    (Saturating.mul (Saturating.ofNat params.length) 8)

def modifyType (id : TypeId) (f : TypeDecl → TypeDecl) (d : Draft) : Draft :=
  { d with unit := { d.unit with types := d.unit.types.modify id.index f } }

/-- Extends a type's span to the given offset. -/
def reach (offset : UInt32) (t : TypeDecl) : TypeDecl :=
  { t with span := { t.span with stop := max t.span.stop offset } }

/-- Extends a type and all types around it to the cursor. -/
def closeOwner (id : TypeId) (d : Draft) : Draft :=
  (d.unit.ancestorsAndSelf id).foldl (fun d owner => d.modifyType owner (reach d.cursor)) d

def knows (d : Draft) (id : TypeId) : Bool := (d.unit.type? id).isSome

def fault (e : ModelError) (d : Draft) : Draft := { d with faults := d.faults ++ [e] }

def withScope (scope : ScopeId) (d : Draft) : Draft :=
  { d with unit := { d.unit with scope := scope } }

def addType (t : TypeDecl) (d : Draft) : Draft × TypeId :=
  let id : TypeId := .ofIndex d.unit.types.size
  let d := { d with unit := { d.unit with types := d.unit.types.push t } }
  if t.parent.isAbsent then
    ({ d with unit := { d.unit with roots := d.unit.roots ++ [id] } }, id)
  else
    ((d.modifyType t.parent fun p => { p with nested := p.nested ++ [id] }).closeOwner t.parent, id)

def declare (spec : TypeSpec) (d : Draft) : Draft × TypeId :=
  if spec.parent.isAbsent || d.knows spec.parent then
    let (keyword, d) := d.advance 5
    let (nameSpan, d) := d.advance (textLength spec.name)
    d.addType {
      name := spec.name
      scope := spec.scope.getD d.unit.scope
      kind := spec.kind
      modifiers := spec.modifiers
      parent := spec.parent
      base := .noBase
      constructors := []
      nested := []
      creations := []
      span := keyword.cover nameSpan
      nameSpan := nameSpan }
  else (d.fault (.unknownType spec.parent), .absent)

/-- Of two unknown handles the base's is the fault. -/
def setBase (id : TypeId) (base : BaseBinding) (d : Draft) : Draft :=
  match base.declared?.filter (!d.knows ·) with
  | some unknown => d.fault (.unknownType unknown)
  | none =>
    if d.knows id then d.modifyType id fun t => { t with base := base }
    else d.fault (.unknownType id)

def addCtor (c : Ctor) (d : Draft) : Draft × CtorId :=
  let id : CtorId := .ofIndex d.unit.ctors.size
  let d := { d with unit := { d.unit with ctors := d.unit.ctors.push c } }
  let d := d.modifyType c.owner fun t => { t with constructors := t.constructors ++ [id] }
  (d.closeOwner c.owner, id)

def layInitializer : Option (ChainTarget × UInt32) → Draft → Option Initializer × Draft
  | none, d => (none, d)
  | some (target, argCount), d =>
    let (span, d) := d.advance (callLength argCount)
    (some ⟨target, argCount, span⟩, d)

def addConstructor (owner : TypeId) (spec : CtorSpec) (d : Draft) : Draft × CtorId :=
  match d.unit.type? owner with
  | none => (d.fault (.unknownType owner), .absent)
  | some t =>
    let (head, d) := d.advance (headLength t.name spec.params)
    let (initializer, d) := layInitializer spec.initializer d
    let (body, d) := d.advance 2
    d.addCtor {
      owner := owner
      params := spec.params
      access := spec.access
      isStatic := spec.isStatic
      initializer := initializer
      span := head.cover body }

def addCreation (c : Creation) (d : Draft) : Draft × CreationId :=
  let id : CreationId := .ofIndex d.unit.creations.size
  let d := { d with unit := { d.unit with creations := d.unit.creations.push c } }
  if c.enclosing.isAbsent then
    ({ d with unit := { d.unit with topLevelCreations := d.unit.topLevelCreations ++ [id] } }, id)
  else
    ((d.modifyType c.enclosing fun t => { t with creations := t.creations ++ [id] }).closeOwner
      c.enclosing, id)

/-- The first handle of a creation that names nothing; no owner is no fault. -/
def unknownIn (enclosing : TypeId) (target : CreationTarget) (d : Draft) : Option TypeId :=
  let owner := enclosing.present?.toList
  let targets := match target with
    | .declared id => [id]
    | .unresolved => []
  (owner ++ targets).find? (!d.knows ·)

def create (enclosing : TypeId) (target : CreationTarget) (argCount : UInt32) (d : Draft) :
    Draft × CreationId :=
  match d.unknownIn enclosing target with
  | some unknown => (d.fault (.unknownType unknown), .absent)
  | none =>
    let (span, d) := d.advance (callLength argCount)
    d.addCreation ⟨target, argCount, enclosing, span⟩

end Draft

def paramFault? (owner : String) (params : List Param) : Option ModelError :=
  if 1 < params.countP (·.isVariadic) then some (.multipleVariadic owner)
  else (params.dropLast.find? (·.isVariadic)).map fun p => .variadicNotLast owner p.name

namespace CompilationUnit

/-- The first constructor with a bad parameter list decides. -/
def ctorFault? (u : CompilationUnit) : Option ModelError :=
  u.ctors.toList.findSome? fun c =>
    paramFault? (((u.type? c.owner).map (·.name)).getD "") c.params

def baseFault? (u : CompilationUnit) : Option ModelError :=
  (u.namedTypes.find? fun (id, t) => t.base == .declared id).map fun (_, t) => .selfBase t.name

end CompilationUnit

/-- Unknown handles come before bad parameter lists, and those before bases. -/
def Draft.finish (d : Draft) : Except ModelError CompilationUnit :=
  match d.faults.head?.or (d.unit.ctorFault?.or d.unit.baseFault?) with
  | some e => .error e
  | none => .ok d.unit

inductive Step
  | withScope (scope : ScopeId)
  | declare (spec : TypeSpec)
  | setBase (id : TypeId) (base : BaseBinding)
  | addConstructor (owner : TypeId) (spec : CtorSpec)
  | create (enclosing : TypeId) (target : CreationTarget) (argCount : UInt32)
  deriving DecidableEq, Repr

namespace Step

def topClass (name : String) : Step := .declare { name }

def topInterface (name : String) : Step := .declare { name, kind := .interfaceType }

def nestedClass (parent : TypeId) (name : String) : Step := .declare { name, parent }

def extending (id base : TypeId) : Step := .setBase id (.declared base)

def extendingExternal (id : TypeId) : Step := .setBase id .external

def instantiating (enclosing target : TypeId) (argCount : UInt32) : Step :=
  .create enclosing (.declared target) argCount

end Step

inductive Declared
  | type (id : TypeId)
  | ctor (id : CtorId)
  | creation (id : CreationId)
  deriving DecidableEq, Repr

def Declared.raw : Declared → UInt32
  | .type id => id.raw
  | .ctor id => id.raw
  | .creation id => id.raw

namespace Draft

def apply (d : Draft) : Step → Draft × Option Declared
  | .withScope scope => (d.withScope scope, none)
  | .declare spec => let (d, id) := d.declare spec; (d, some (.type id))
  | .setBase id base => (d.setBase id base, none)
  | .addConstructor owner spec => let (d, id) := d.addConstructor owner spec; (d, some (.ctor id))
  | .create enclosing target argCount =>
    let (d, id) := d.create enclosing target argCount
    (d, some (.creation id))

def run (d : Draft) (steps : List Step) : Draft :=
  steps.foldl (fun d step => (d.apply step).1) d

def replies (d : Draft) : List Step → List (Option Declared)
  | [] => []
  | step :: rest =>
    let (next, reply) := d.apply step
    reply :: next.replies rest

end Draft

end CtorArity
