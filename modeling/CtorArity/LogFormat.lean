import CtorArity.Text.Blank

/-!
# Log formats
-/

namespace CtorArity

inductive LogFormat
  | text
  | tree
  | json
  deriving DecidableEq, Repr

namespace LogFormat

def name : LogFormat → String
  | .text => "text"
  | .tree => "tree"
  | .json => "json"

/-- A format by its name, with blanks around it or not; an unknown name means
plain text. -/
def ofName (name : String) : LogFormat :=
  match Text.plainWord name with
  | "tree" => .tree
  | "json" => .json
  | _ => .text

end LogFormat

end CtorArity
