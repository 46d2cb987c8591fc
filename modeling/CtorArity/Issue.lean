import CtorArity.BaseCall
import CtorArity.Diagnostic
import CtorArity.Instantiation

/-!
# Issues

An issue is a finding with the handle of the type it is about and its place in
the order of the run. A bag of issues gives out those places.
-/

namespace CtorArity

inductive Origin
  | baseBinding
  | instantiation
  deriving DecidableEq, Repr

structure SeeAlso where
  span : Span
  message : String
  deriving DecidableEq, Repr

structure Issue where
  code : UInt32
  message : String
  span : Span
  subject : TypeId
  origin : Origin
  /-- How many issues of the run came before. -/
  order : UInt32
  related : Option SeeAlso
  deriving DecidableEq, Repr

def Issue.toDiagnostic (i : Issue) (file : String) (category : Category) :
    Except SpanFault Diagnostic := do
  let d ← Diagnostic.make file i.span i.message category i.code
  match i.related with
  | none => return d
  | some also => d.withRelated file also.span also.message

structure IssueBag where
  issues : Array Issue
  baseBindings : Nat
  instantiations : Nat
  deriving DecidableEq, Repr

namespace IssueBag

def empty : IssueBag := ⟨#[], 0, 0⟩

def size (b : IssueBag) : Nat := b.issues.size

def isEmpty (b : IssueBag) : Bool := b.issues.isEmpty

/-- Adds an issue at the next place, whatever place it came with. -/
def push (b : IssueBag) (i : Issue) : IssueBag where
  issues := b.issues.push { i with order := UInt32.ofNat b.issues.size }
  baseBindings := b.baseBindings + if i.origin = .baseBinding then 1 else 0
  instantiations := b.instantiations + if i.origin = .instantiation then 1 else 0

end IssueBag

namespace CompilationUnit

variable (u : CompilationUnit)

def typeName (id : TypeId) : String :=
  ((u.type? id).map (·.name)).getD "<unknown>"

/-- Points at a declaration, if there is one. -/
def declaredHere? (id : TypeId) : Option SeeAlso :=
  (u.type? id).map fun t => ⟨u.typeNameSpan id, Template.declaredHere.fill [t.name]⟩

/-- Stands at the derived type's name and speaks of the base. -/
def baseIssue (derived base : TypeId) (argCount : UInt32) : Issue where
  code := Template.constructorArity.code
  message := arityMessage (u.typeName base) argCount
  span := u.typeNameSpan derived
  subject := derived
  origin := .baseBinding
  order := 0
  related := u.declaredHere? base

/-- Stands at the creation and speaks of its target. -/
def creationIssue (creation : CreationId) (target : TypeId) (argCount : UInt32) : Issue where
  code := Template.constructorArity.code
  message := arityMessage (u.typeName target) argCount
  span := ((u.creation? creation).map (·.span)).getD .dummy
  subject := target
  origin := .instantiation
  order := 0
  related := u.declaredHere? target

def issueOfBase (f : BaseFailure) : Issue := u.baseIssue f.derived f.base f.argCount

def issueOfCreation (f : CreationFailure) : Issue := u.creationIssue f.creation f.target f.argCount

end CompilationUnit

end CtorArity
