/-!
# Numbers of JSON

A number without point and exponent is an integer if 64 bits hold it, with
minus zero left out. Any other number is floating: its leading digits that fit
64 bits are scaled by a power of ten.
-/

namespace CtorArity.Json

inductive Number
  | integer (value : Int)
  | floating (value : Float)

namespace Number

def digit (c : Char) : Nat := c.toNat - '0'.toNat

def maxWord : Nat := 0xFFFFFFFFFFFFFFFF

/-- Takes in digits as long as the number fits 64 bits; gives the number and
the digits that are left. -/
def absorb (significand : Nat) : List Char → Nat × List Char
  | [] => (significand, [])
  | c :: rest =>
    if significand * 10 + digit c ≤ maxWord then absorb (significand * 10 + digit c) rest
    else (significand, c :: rest)

structure Parts where
  negative : Bool
  whole : List Char
  fraction : List Char
  /-- The sign and the digits of the exponent, if one is written. -/
  exponent : Option (Bool × List Char)
  deriving DecidableEq, Repr

def Parts.ofWritten (written : List Char) : Parts :=
  let negative := written.head? == some '-'
  let rest := if negative then written.drop 1 else written
  let (whole, rest) := rest.span Char.isDigit
  let (fraction, rest) :=
    if rest.head? == some '.' then (rest.drop 1).span Char.isDigit else ([], rest)
  let exponent :=
    match rest with
    | [] => none
    | _ :: '+' :: digits => some (false, digits)
    | _ :: '-' :: digits => some (true, digits)
    | _ :: digits => some (false, digits)
  ⟨negative, whole, fraction, exponent⟩

/-- An exponent too big to be told apart from any bigger one. -/
def exponentLimit : Nat := 0x7FFFFFFF

def exponentSize (digits : List Char) : Nat :=
  digits.foldl (fun n c => min (exponentLimit + 1) (n * 10 + digit c)) 0

def tenTo (n : Nat) : Float := Float.ofScientific 1 false n

def signed (negative : Bool) (x : Float) : Float := if negative then -x else x

/-- Divides by powers of ten that floating numbers have, the big ones first. -/
def shrink : Nat → Float → Nat → Float
  | 0, x, _ => x
  | fuel + 1, x, n =>
    if n ≤ 308 then x / tenTo n
    else if x == 0 then x
    else shrink fuel (x / tenTo 308) (n - 308)

/-- A significand times a power of ten; `none` beyond the greatest number. -/
def scale (significand : Nat) (exponent : Int) : Option Float :=
  let x := significand.toUInt64.toFloat
  match exponent with
  | .ofNat n =>
    if n ≤ 308 then
      let y := x * tenTo n
      if y.isInf then none else some y
    else if x == 0 then some x else none
  | .negSucc n => some (shrink (n + 1) x (n + 1))

/-- A floating number from its significand, the power of ten that its digits
ask for, and its written exponent. -/
def ofScaled (negative : Bool) (significand : Nat) (shift : Int) :
    Option (Bool × List Char) → Option Number
  | none => (scale significand shift).map fun x => .floating (signed negative x)
  | some (down, digits) =>
    let size := exponentSize digits
    if exponentLimit < size then
      if significand ≠ 0 ∧ ¬down then none else some (.floating (signed negative 0))
    else
      (scale significand (if down then shift - size else shift + size)).map fun x =>
        .floating (signed negative x)

def ofInteger (negative : Bool) (significand : Nat) : Number :=
  if !negative then .integer significand
  else if significand = 0 ∨ 0x8000000000000000 < significand then
    .floating (-significand.toUInt64.toFloat)
  else .integer (-significand)

/-- What a written number stands for; `none` beyond the greatest number. -/
def ofWritten? (written : List Char) : Option Number :=
  let p := Parts.ofWritten written
  let (significand, lost) := absorb 0 p.whole
  if lost.isEmpty && p.fraction.isEmpty && p.exponent.isNone then
    some (ofInteger p.negative significand)
  else
    let (significand, spare) := absorb significand p.fraction
    let shift : Int := lost.length - (p.fraction.length - spare.length : Nat)
    ofScaled p.negative significand shift p.exponent

end Number

end CtorArity.Json
