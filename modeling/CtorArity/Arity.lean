import CtorArity.Declaration

/-!
# Arities

How many arguments a parameter list takes: at least `required`, and at most
`total` unless a variadic parameter at the end takes the rest.
-/

namespace CtorArity

structure Arity where
  required : UInt32
  total : UInt32
  variadic : Bool
  deriving DecidableEq, Repr

/-- Must be given an argument of its own. -/
def Param.isPlain (p : Param) : Bool := !p.hasDefault && !p.isVariadic

namespace Arity

/-- Only the plain parameters at the front are required. A variadic parameter
at the end is not counted in the total. -/
def ofParams (params : List Param) : Arity :=
  let variadic := params.getLast?.any (·.isVariadic)
  { required := .ofNat (params.takeWhile (·.isPlain)).length
    total := .ofNat (params.length - if variadic then 1 else 0)
    variadic := variadic }

def accepts (a : Arity) (argCount : UInt32) : Bool :=
  decide (a.required ≤ argCount) && (a.variadic || decide (argCount ≤ a.total))

end Arity

def isApplicable (params : List Param) (argCount : UInt32) : Bool :=
  (Arity.ofParams params).accepts argCount

end CtorArity
