/-!
# Escapes in quoted texts

A code is one unit of 16 bits. Two units that make up a pair stand for one
character; half a pair stands for none, and a text with one cannot be used.
-/

namespace CtorArity.Json.Escape

def hexDigit? (c : Char) : Option Nat :=
  if c.isDigit then some (c.toNat - '0'.toNat)
  else if 'a' ≤ c && c ≤ 'f' then some (c.toNat - 'a'.toNat + 10)
  else if 'A' ≤ c && c ≤ 'F' then some (c.toNat - 'A'.toNat + 10)
  else none

def unit? (a b c d : Char) : Option Nat := do
  return (((← hexDigit? a) * 16 + (← hexDigit? b)) * 16 + (← hexDigit? c)) * 16 + (← hexDigit? d)

def isHigh (unit : Nat) : Bool := 0xD800 ≤ unit && unit < 0xDC00

def isLow (unit : Nat) : Bool := 0xDC00 ≤ unit && unit < 0xE000

def pair (high low : Nat) : Char :=
  Char.ofNat (0x10000 + (high - 0xD800) * 0x400 + (low - 0xDC00))

def simple? (c : Char) : Option Char :=
  match c with
  | '"' => some '"'
  | '\\' => some '\\'
  | '/' => some '/'
  | 'b' => some '\x08'
  | 'f' => some '\x0c'
  | 'n' => some '\n'
  | 'r' => some '\r'
  | 't' => some '\t'
  | _ => none

/-- What is being read: a text is decoded one character at a time. -/
inductive Mode
  | plain
  | escape
  /-- The digits of a code so far, last one first. -/
  | code (digits : List Char)
  deriving DecidableEq, Repr

/-- The characters so far, last one first, and the first half of a pair that
its second half must follow at once. -/
structure State where
  out : List Char
  mode : Mode
  high : Option Nat
  deriving DecidableEq, Repr

/-- A whole code has been read. -/
def State.take (s : State) (unit : Nat) : Option State :=
  match s.high with
  | some high => if isLow unit then some ⟨pair high unit :: s.out, .plain, none⟩ else none
  | none =>
    if isHigh unit then some ⟨s.out, .plain, some unit⟩
    else if isLow unit then none
    else some ⟨Char.ofNat unit :: s.out, .plain, none⟩

def read (s : State) (c : Char) : Option State :=
  match s.mode with
  | .plain =>
    if c == '\\' then some { s with mode := .escape }
    else if s.high.isSome then none
    else some { s with out := c :: s.out }
  | .escape =>
    if c == 'u' then some { s with mode := .code [] }
    else if s.high.isSome then none
    else (simple? c).map fun plain => ⟨plain :: s.out, .plain, none⟩
  | .code [x, y, z] => (unit? z y x c).bind s.take
  | .code digits => some { s with mode := .code (c :: digits) }

/-- What stands between two quotes, decoded. -/
def decode? (written : List Char) : Option String := do
  let s ← written.foldlM read ⟨[], .plain, none⟩
  if s.mode = .plain ∧ s.high = none then some (String.ofList s.out.reverse) else none

end CtorArity.Json.Escape
