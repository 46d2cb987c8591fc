import CtorArity.Json.Decoder
import CtorArity.Jsonc
import CtorArity.Options

/-!
# Configuration

A configuration is written in JSON with comments. What it leaves out keeps its
default.
-/

namespace CtorArity

structure Config where
  checker : Options := {}
  deriving DecidableEq, Repr

namespace Config

open Json

def policies : List (String × Policy) :=
  [("reportAnyFailure", .reportAnyFailure), ("exemptOnAnySuccess", .exemptOnAnySuccess)]

def severities : List (String × Severity) :=
  [("error", .error), ("warning", .warning)]

def optionsRecord : Record Options where
  name := "CheckerOptions"
  fields := [
    .may "checkObjectCreation" Decoder.lenientBool fun o x => { o with checkObjectCreation := x },
    .may "baseCallPolicy" (Decoder.variant policies) fun o x => { o with policy := x },
    .may "severity" (Decoder.variant severities) fun o x => { o with severity := x }]
  blank := {}

def record : Record Config where
  name := "SharpcheckConfig"
  fields := [.may "checker" optionsRecord.decoder fun c x => { c with checker := x }]
  blank := {}

/-- Reads a configuration; the comments go first. -/
def decode (source : String) : Except Fault Config :=
  Json.decode record.decoder (Jsonc.normalize source)

end Config

end CtorArity
