/-!
# Messages

Message texts are templates with numbered places, `{0}`, `{1}` and so on.
Filling takes the arguments in order and replaces every occurrence of the
place in the text so far, arguments already put in included.
-/

namespace CtorArity

inductive Category
  | warning
  | error
  | suggestion
  | message
  deriving DecidableEq, Repr

def Category.name : Category → String
  | .warning => "warning"
  | .error => "error"
  | .suggestion => "suggestion"
  | .message => "message"

/-- Replaces the leftmost occurrences of `pattern` that do not overlap. The
first argument counts the characters still covered by the last one found. -/
def replaceFrom (pattern replacement : List Char) : Nat → List Char → List Char
  | _, [] => []
  | covered + 1, _ :: rest => replaceFrom pattern replacement covered rest
  | 0, c :: rest =>
    if pattern.isPrefixOf (c :: rest) then
      replacement ++ replaceFrom pattern replacement (pattern.length - 1) rest
    else c :: replaceFrom pattern replacement 0 rest

def replaceAll (pattern replacement text : List Char) : List Char :=
  replaceFrom pattern replacement 0 text

def place (index : Nat) : List Char :=
  '{' :: (Nat.repr index).toList ++ ['}']

/-- Fills the places from `index` on with the arguments in turn. -/
def fillFrom (index : Nat) : List (List Char) → List Char → List Char
  | [], text => text
  | arg :: rest, text => fillFrom (index + 1) rest (replaceAll (place index) arg text)

def fill (template : String) (args : List String) : String :=
  String.ofList (fillFrom 0 (args.map String.toList) template.toList)

structure Template where
  code : UInt32
  category : Category
  text : String
  deriving DecidableEq, Repr

namespace Template

def constructorArity : Template where
  code := 1729
  category := .error
  text := "The type '{0}' does not contain a constructor that takes '{1}' arguments"

/-- Goes with a finding and has no code of its own. -/
def declaredHere : Template where
  code := 0
  category := .message
  text := "'{0}' is declared here."

/-- The messages that can be looked up by code. -/
def table : List Template := [constructorArity]

def ofCode? (code : UInt32) : Option Template :=
  table.find? (·.code == code)

def codeText (code : UInt32) : String :=
  "CS" ++ Nat.repr code.toNat

def fill (t : Template) (args : List String) : String :=
  CtorArity.fill t.text args

def coded (t : Template) (args : List String) : String :=
  codeText t.code ++ ": " ++ t.fill args

end Template

/-- Says that no constructor of the type takes this many arguments. -/
def arityMessage (typeName : String) (argCount : UInt32) : String :=
  Template.constructorArity.coded [typeName, Nat.repr argCount.toNat]

end CtorArity
