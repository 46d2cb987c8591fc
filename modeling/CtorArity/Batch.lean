import CtorArity.Check

/-!
# Batches

Units that are checked side by side. None knows of the others, so the results
are those of each alone, in the order of the units.
-/

namespace CtorArity

structure UnitResult where
  fileName : String
  diagnostics : List Diagnostic
  deriving DecidableEq, Repr

def checkAll (o : Options) (units : List CompilationUnit) : Except SpanFault (List UnitResult) :=
  units.mapM fun u => return ⟨u.fileName, ← u.diagnostics o⟩

def totalDiagnostics (results : List UnitResult) : Nat :=
  results.foldl (fun n r => n + r.diagnostics.length) 0

end CtorArity
