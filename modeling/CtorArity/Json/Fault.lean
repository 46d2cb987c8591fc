import CtorArity.Decimal.Shortest
import CtorArity.Json.Number
import CtorArity.Text.Quoted

/-!
# Faults of JSON texts

A text that is no JSON, or goes deeper than is read, is malformed. Any other
fault is about the data, and says what was found and what was expected.
-/

namespace CtorArity.Json

/-- A value of a kind that is not wanted. -/
inductive Unexpected
  | null
  | bool (value : Bool)
  | number (value : Number)
  | text (value : String)
  | sequence
  | map

def Number.render : Number → String
  | .integer n => "integer `" ++ toString n ++ "`"
  | .floating x => "floating point `" ++ Decimal.render x ++ "`"

def Unexpected.render : Unexpected → String
  | .null => "null"
  | .bool value => "boolean `" ++ toString value ++ "`"
  | .number value => value.render
  | .text value => "string " ++ Text.quoted value
  | .sequence => "sequence"
  | .map => "map"

inductive DataFault
  | missingField (name : String)
  | duplicateField (name : String)
  | unknownVariant (name : String) (expected : List String)
  | invalidType (found : Unexpected) (expected : String)
  | invalidValue (found : Number) (expected : String)
  | invalidLength (found : Nat) (expected : String)
  /-- A text that does not say yes or no. -/
  | invalidBoolean (value : String)
  /-- Neither a boolean nor a text. -/
  | noBooleanVariant

def listExpected : List String → String
  | [] => "there are no variants"
  | [a] => "expected `" ++ a ++ "`"
  | [a, b] => "expected `" ++ a ++ "` or `" ++ b ++ "`"
  | names => "expected one of " ++ ", ".intercalate (names.map fun n => "`" ++ n ++ "`")

def DataFault.message : DataFault → String
  | .missingField name => "missing field `" ++ name ++ "`"
  | .duplicateField name => "duplicate field `" ++ name ++ "`"
  | .unknownVariant name expected => "unknown variant `" ++ name ++ "`, " ++ listExpected expected
  | .invalidType found expected => "invalid type: " ++ found.render ++ ", expected " ++ expected
  | .invalidValue found expected => "invalid value: " ++ found.render ++ ", expected " ++ expected
  | .invalidLength found expected =>
    "invalid length " ++ Nat.repr found ++ ", expected " ++ expected
  | .invalidBoolean value =>
    "invalid boolean value: '" ++ value ++ "'. Expected true, false, 'true', or 'false'"
  | .noBooleanVariant => "data did not match any variant of untagged enum BoolOrString"

inductive Fault
  | malformed
  | data (fault : DataFault)

end CtorArity.Json
