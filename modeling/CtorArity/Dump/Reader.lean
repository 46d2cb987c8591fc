import CtorArity.Dump
import CtorArity.Json.Decoder

/-!
# Reading declaration dumps
-/

namespace CtorArity

open Json

namespace Dump

def kinds : List (String × TypeKind) :=
  [("class", .classType), ("interface", .interfaceType), ("struct", .structType),
    ("enum", .enumType)]

def accesses : List (String × Access) :=
  [("public", .everywhere), ("protected", .subtypes), ("internal", .scope),
    ("protectedInternal", .subtypesOrScope), ("privateProtected", .subtypesInScope),
    ("private", .ownType)]

def chainTargets : List (String × ChainTarget) :=
  [("base", .base), ("this", .own)]

def paramRecord : Record ParamDump where
  name := "ParamDump"
  fields := [
    .need "name" .text fun p x => { p with name := x },
    .may "default" .bool fun p x => { p with hasDefault := x },
    .may "params" .bool fun p x => { p with isVariadic := x }]
  blank := { name := "" }

def initializerRecord : Record InitializerDump where
  name := "InitializerDump"
  fields := [
    .need "target" (.variant chainTargets) fun i x => { i with target := x },
    .may "args" .word fun i x => { i with args := x }]
  blank := { target := .base }

def ctorRecord : Record CtorDump where
  name := "CtorDump"
  fields := [
    .may "access" (.variant accesses) fun c x => { c with access := x },
    .may "static" .bool fun c x => { c with isStatic := x },
    .may "params" (.list paramRecord.decoder) fun c x => { c with params := x },
    .may "initializer" (.optional initializerRecord.decoder) fun c x =>
      { c with initializer := x }]
  blank := {}

def creationRecord : Record CreationDump where
  name := "CreationDump"
  fields := [
    .need "target" .text fun c x => { c with target := x },
    .may "args" .word fun c x => { c with args := x }]
  blank := { target := "" }

/-- A type whose nested types are read by this decoder. -/
def typeRecord (nested : Decoder TypeDump) : Record TypeDump where
  name := "TypeDump"
  fields := [
    .need "name" .text fun t x => { t with name := x },
    .may "kind" (.variant kinds) fun t x => { t with kind := x },
    .may "modifiers" (.list .text) fun t x => { t with modifiers := x },
    .may "base" (.optional .text) fun t x => { t with base := x },
    .may "scope" (.optional .word) fun t x => { t with scope := x },
    .may "constructors" (.list ctorRecord.decoder) fun t x => { t with constructors := x },
    .may "nested" (.list nested) fun t x => { t with nested := x },
    .may "creations" (.list creationRecord.decoder) fun t x => { t with creations := x }]
  blank := { name := "" }

/-- A type in which types nest at most this deep. -/
def typeDecoder : Nat → Decoder TypeDump
  | 0 => fun _ _ => malformed
  | levels + 1 => (typeRecord (typeDecoder levels)).decoder

/-- Every level of types takes two brackets, so the room is used up first. -/
def unitRecord : Record UnitDump where
  name := "UnitDump"
  fields := [
    .need "file" .text fun d x => { d with file := x },
    .may "scope" (.optional .word) fun d x => { d with scope := x },
    .may "types" (.list (typeDecoder maxDepth)) fun d x => { d with types := x },
    .may "creations" (.list creationRecord.decoder) fun d x => { d with creations := x }]
  blank := { file := "" }

end Dump

def UnitDump.decode (source : String) : Except Fault UnitDump :=
  Json.decode Dump.unitRecord.decoder source

end CtorArity
