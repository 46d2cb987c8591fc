import CtorArity.Message
import CtorArity.Span

/-!
# Diagnostics

What is handed to whoever shows the findings: a file, a place in it, a text.
A diagnostic may carry notices about other places.
-/

namespace CtorArity

structure Notice where
  file : String
  start : UInt32
  length : UInt32
  text : String
  category : Category
  code : UInt32
  deriving DecidableEq, Repr

structure Diagnostic extends Notice where
  related : List Notice
  deriving DecidableEq, Repr

namespace Notice

def make (file : String) (span : Span) (text : String) (category : Category) (code : UInt32) :
    Except SpanFault Notice := do
  return ⟨file, span.start, ← span.length, text, category, code⟩

def span (n : Notice) : Span := .ofLength n.start n.length

end Notice

namespace Diagnostic

def make (file : String) (span : Span) (text : String) (category : Category) (code : UInt32) :
    Except SpanFault Diagnostic := do
  return ⟨← Notice.make file span text category code, []⟩

def makeError (file : String) (span : Span) (text : String) (code : UInt32) :
    Except SpanFault Diagnostic :=
  make file span text .error code

/-- Adds a notice; it has neither a code nor a category of its own. -/
def withRelated (d : Diagnostic) (file : String) (span : Span) (text : String) :
    Except SpanFault Diagnostic := do
  return { d with related := d.related ++ [← Notice.make file span text .message 0] }

def span (d : Diagnostic) : Span := d.toNotice.span

def isError (d : Diagnostic) : Bool := d.category == .error

def render (d : Diagnostic) : String :=
  d.file ++ "(" ++ Nat.repr d.start.toNat ++ "," ++ Nat.repr d.length.toNat ++ "): " ++
    d.category.name ++ " " ++ d.text

end Diagnostic

end CtorArity
