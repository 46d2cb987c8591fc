import CtorArity.Proofs.Places
import CtorArity.Proofs.Binding
import CtorArity.Proofs.Positional

/-!
# Findings of a dump

The check, read off the tree of a dump: names are looked up among the places,
and a type is known by its number. There are no tables here, no handles and no
offsets. `CtorDump.accepts_iff` says in the fields of the parameters how many
arguments a constructor takes, and `UnitDump.findings` lists what is wrong with a
dump in the order of the tree.
-/

namespace CtorArity

structure Finding where
  origin : Origin
  /-- The number of the type that it is about. -/
  subject : Nat
  message : String
  related : Option String
  deriving DecidableEq, Repr

namespace CtorDump

def accepts (c : CtorDump) (n : UInt32) : Bool :=
  isApplicable (c.params.map (·.toParam)) n

/-- Each parameter before the first that may go without an argument gets one, and
no argument is left over unless the last parameter takes any number. -/
theorem accepts_iff {c : CtorDump} {n : UInt32} (h : c.params.length < UInt32.size) :
    c.accepts n = true ↔
      (c.params.takeWhile fun p => !p.hasDefault && !p.isVariadic).length ≤ n.toNat ∧
        (c.params.getLast?.any (·.isVariadic) = true ∨ n.toNat ≤ c.params.length) := by
  have hlength : (c.params.map (·.toParam)).length = c.params.length := List.length_map _
  have hends : EndsVariadic (c.params.map (·.toParam)) ↔
      c.params.getLast?.any (·.isVariadic) = true := by
    rw [endsVariadic_iff, List.getLast?_map, Option.any_map]
    rfl
  have hplain : ((c.params.map (·.toParam)).takeWhile (·.isPlain)).length =
      (c.params.takeWhile fun p => !p.hasDefault && !p.isVariadic).length := by
    rw [List.takeWhile_map, List.length_map]
    rfl
  rw [accepts, isApplicable, Arity.accepts_iff (hlength ▸ h), hplain, positions, hlength]
  simp only [hends]
  by_cases hlast : c.params.getLast?.any (·.isVariadic) = true <;> simp [hlast]

def baseArgs? (c : CtorDump) : Option UInt32 :=
  match c.initializer with
  | none => some 0
  | some ⟨.base, args⟩ => some args
  | some ⟨.own, _⟩ => none

end CtorDump

namespace TypeDump

def isInstanceClass (t : TypeDump) : Bool :=
  t.kind == .classType && !t.modifiers.contains "static"

def isConcreteClass (t : TypeDump) : Bool :=
  t.isInstanceClass && !t.modifiers.contains "abstract"

def instanceCtors (t : TypeDump) : List CtorDump := t.constructors.filter (!·.isStatic)

def callCounts (t : TypeDump) : List UInt32 :=
  match t.instanceCtors with
  | [] => [0]
  | ctors => ctors.filterMap (·.baseArgs?)

end TypeDump

/-- The place is the other one or stands inside it. -/
def Place.within (inner outer : Place) : Bool :=
  (inner.number :: inner.around).contains outer.number

namespace UnitDump

variable (d : UnitDump)

def places : List Place := TypeDump.placesAll 0 [] d.types

def scopeOf (p : Place) : UInt32 := p.type.scope.getD (d.scope.getD 0)

/-- The first type of a name in document order. -/
def find? (name : String) : Option Place := d.places.find? (·.type.name == name)

def baseOf? (p : Place) : Option Place :=
  p.type.base.bind fun name => if rootNames.contains name then none else d.find? name

/-- Whether a constructor of `declaring` with this access may be called from a
place, or from a top-level statement. -/
def sees (declaring : Place) (requester : Option Place) : Access → Bool
  | .everywhere | .subtypes | .subtypesOrScope => true
  | .scope => requester.all fun q => d.scopeOf q == d.scopeOf declaring
  | .subtypesInScope => requester.any fun q => d.scopeOf q == d.scopeOf declaring
  | .ownType => requester.any fun q => q.within declaring

/-- Whether a class has a constructor for this call; the one that it need not
write takes no arguments. -/
def offers (declaring : Place) (requester : Option Place) (n : UInt32) : Bool :=
  match declaring.type.instanceCtors with
  | [] => n == 0
  | ctors => ctors.any fun c => d.sees declaring requester c.access && c.accepts n

/-- The base that has no constructor for a type's calls, and the first such
call's number of arguments. -/
def baseFailure? (policy : Policy) (p : Place) : Option (Place × UInt32) :=
  (d.baseOf? p).bind fun base =>
    if p.type.isInstanceClass && base.type.isInstanceClass then
      (policy.rejected? (d.offers base (some p)) p.type.callCounts).map (base, ·)
    else none

def creationFailure? (requester : Option Place) (c : CreationDump) : Option (Place × UInt32) :=
  (d.find? c.target).bind fun target =>
    if target.type.isConcreteClass && !d.offers target requester c.args then
      some (target, c.args)
    else none

end UnitDump

def Finding.blaming (blamed : Place) (n : UInt32) (origin : Origin) (subject : Nat) : Finding where
  origin := origin
  subject := subject
  message := arityMessage blamed.type.name n
  related := some (Template.declaredHere.fill [blamed.type.name])

namespace UnitDump

variable (d : UnitDump) (o : Options)

def baseFinding? (p : Place) : Option Finding :=
  (d.baseFailure? o.policy p).map fun (base, n) => .blaming base n .baseBinding p.number

def creationFinding? (requester : Option Place) (c : CreationDump) : Option Finding :=
  if o.checkObjectCreation then
    (d.creationFailure? requester c).map fun (target, n) =>
      .blaming target n .instantiation target.number
  else none

mutual

/-- What is wrong inside a type, then with its own creations, then with its base. -/
def findingsOf (number : Nat) (around : List Nat) : TypeDump → List Finding
  | t@⟨_, _, _, _, _, _, nested, creations⟩ =>
    findingsAll (number + 1) (number :: around) nested ++
      creations.filterMap (d.creationFinding? o (some ⟨number, around, t⟩)) ++
      (d.baseFinding? o ⟨number, around, t⟩).toList

def findingsAll (number : Nat) (around : List Nat) : List TypeDump → List Finding
  | [] => []
  | t :: rest => findingsOf number around t ++ findingsAll (number + t.count) around rest

end

/-- All that is wrong with a dump, creations at the top level last. -/
def findings : List Finding :=
  d.findingsAll o 0 [] d.types ++ d.creations.filterMap (d.creationFinding? o none)

theorem findingsAll_cons (number : Nat) (around : List Nat) (t : TypeDump)
    (rest : List TypeDump) : d.findingsAll o number around (t :: rest) =
      d.findingsAll o (number + 1) (number :: around) t.nested ++
        t.creations.filterMap (d.creationFinding? o (some ⟨number, around, t⟩)) ++
        (d.baseFinding? o ⟨number, around, t⟩).toList ++
        d.findingsAll o (number + t.count) around rest := by
  cases t
  rfl

end UnitDump

end CtorArity
