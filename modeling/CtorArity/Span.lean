import CtorArity.Saturating

/-!
# Spans of source text

A span is a half-open range of byte offsets. Spans read from outside may be
inverted; the operations that need an ordered span say so in their result.
-/

namespace CtorArity

structure Span where
  start : UInt32
  stop : UInt32
  deriving DecidableEq, Repr, Inhabited

inductive SpanFault
  /-- The stop was given before the start. -/
  | inverted
  /-- The length of an inverted span was asked for. -/
  | negativeLength
  deriving DecidableEq, Repr

def SpanFault.message : SpanFault → String
  | .inverted => "assertion failed: start <= end"
  | .negativeLength => "attempt to subtract with overflow"

namespace Span

/-- Stands where no location is known. -/
def dummy : Span := ⟨0, 0⟩

def Ordered (s : Span) : Prop := s.start ≤ s.stop

instance (s : Span) : Decidable s.Ordered := by
  unfold Ordered
  infer_instance

def ofBounds (start stop : UInt32) : Except SpanFault Span :=
  if start ≤ stop then .ok ⟨start, stop⟩ else .error .inverted

/-- The range of `length` bytes from `start`, cut at the last offset. -/
def ofLength (start length : UInt32) : Span :=
  ⟨start, Saturating.add start length⟩

def length (s : Span) : Except SpanFault UInt32 :=
  if s.start ≤ s.stop then .ok (s.stop - s.start) else .error .negativeLength

def isEmpty (s : Span) : Bool := s.start == s.stop

def contains (s : Span) (offset : UInt32) : Bool :=
  decide (s.start ≤ offset) && decide (offset < s.stop)

def encloses (outer inner : Span) : Bool :=
  decide (outer.start ≤ inner.start) && decide (inner.stop ≤ outer.stop)

/-- The smallest span around both. -/
def cover (s t : Span) : Span :=
  ⟨min s.start t.start, max s.stop t.stop⟩

def compare (s t : Span) : Ordering :=
  (Ord.compare s.start t.start).then (Ord.compare s.stop t.stop)

theorem ordered_ofLength (start length : UInt32) : (ofLength start length).Ordered :=
  Saturating.le_add start length

end Span

end CtorArity
