import CtorArity.Message

/-!
# Options of the check
-/

namespace CtorArity

/-- How the base calls of one type make up one verdict. -/
inductive Policy
  /-- A type fails when any of its calls does not bind. -/
  | reportAnyFailure
  /-- A type fails only when none of its calls binds. -/
  | exemptOnAnySuccess
  deriving DecidableEq, Repr

/-- How findings are shown. -/
inductive Severity
  | error
  | warning
  deriving DecidableEq, Repr

def Severity.category : Severity → Category
  | .error => .error
  | .warning => .warning

structure Options where
  /-- Check object creations besides base calls. -/
  checkObjectCreation : Bool := true
  policy : Policy := .reportAnyFailure
  severity : Severity := .error
  deriving DecidableEq, Repr

end CtorArity
