/-!
# Shortest decimals of floating numbers

A floating number stands for all reals that round to it. Its shortest decimal
is the one with the fewest digits among them, and of those the nearest; an
exact tie goes to the even digit.
-/

namespace CtorArity.Decimal

/-- The number `mantissa * 2 ^ exponent`. It is `lowest` if the gap below it is
half the gap above. -/
structure Binary where
  mantissa : Nat
  exponent : Int
  lowest : Bool
  deriving DecidableEq, Repr

def Binary.ofBits (bits : UInt64) : Binary :=
  let field := (bits.toNat / 0x10000000000000) % 0x800
  let fraction := bits.toNat % 0x10000000000000
  if field = 0 then ⟨fraction, -1074, false⟩
  else ⟨fraction + 0x10000000000000, (field : Int) - 1075, fraction == 0 && decide (1 < field)⟩

/-- The decimal `digits * 10 ^ exponent`. -/
structure Digits where
  digits : Nat
  exponent : Int
  deriving DecidableEq, Repr

namespace Binary

/-- Multiplies the first of two numbers by a power, or the second by its inverse. -/
def scaled (base : Nat) : Int → Nat × Nat → Nat × Nat
  | .ofNat n, (a, b) => (a * base.pow n, b)
  | .negSucc n, (a, b) => (a, b * base.pow (n + 1))

/-- A number of quarters of the last binary place beside a decimal, on one scale. -/
def onScale (b : Binary) (quarters : Nat) (d : Digits) : Nat × Nat :=
  let (x, y) := scaled 2 (b.exponent - 2) (quarters, 1)
  let (u, v) := scaled 10 d.exponent (d.digits, 1)
  (x * v, u * y)

/-- Whether a decimal rounds to the number; the two ends round to the even one. -/
def covers (b : Binary) (d : Digits) : Bool :=
  let low := b.onScale (4 * b.mantissa - if b.lowest then 1 else 2) d
  let high := b.onScale (4 * b.mantissa + 2) d
  if b.mantissa % 2 = 0 then decide (low.1 ≤ low.2) && decide (high.2 ≤ high.1)
  else decide (low.1 < low.2) && decide (high.2 < high.1)

/-- The greatest decimal with this exponent that is not above the number. -/
def floorAt (b : Binary) (exponent : Int) : Digits :=
  let (x, y) := b.onScale (4 * b.mantissa) ⟨1, exponent⟩
  ⟨x / y, exponent⟩

/-- The better of the two decimals around the number, if one rounds to it. -/
def nearest? (b : Binary) (exponent : Int) : Option Digits :=
  let below := b.floorAt exponent
  let above : Digits := ⟨below.digits + 1, exponent⟩
  let (value, low) := b.onScale (4 * b.mantissa) below
  let (_, high) := b.onScale (4 * b.mantissa) above
  let nearer := value - low < high - value ∨
    (value - low = high - value ∧ below.digits % 2 = 0)
  if below.digits ≠ 0 ∧ b.covers below then
    if b.covers above ∧ ¬nearer then some above else some below
  else if b.covers above then some above
  else none

/-- The greatest exponent at which the number has a digit other than zero, from
this one down. -/
def leading (b : Binary) : Nat → Int → Int
  | 0, exponent => exponent
  | fuel + 1, exponent =>
    if (b.floorAt exponent).digits = 0 then b.leading fuel (exponent - 1) else exponent

/-- Tries one digit, then two, and so on; seventeen are always enough. -/
def shortestFrom (b : Binary) (leading : Int) : Nat → Nat → Digits
  | 0, tried => b.floorAt (leading - tried)
  | fuel + 1, tried => (b.nearest? (leading - tried)).getD (b.shortestFrom leading fuel (tried + 1))

def shortest (b : Binary) : Digits :=
  b.shortestFrom (b.leading 640 310) 17 0

end Binary

/-- The digits without zeros at the end, and the place of the first digit. -/
def Digits.scientific (d : Digits) : List Char × Int :=
  let written := (Nat.repr d.digits).toList
  ((written.reverse.dropWhile (· == '0')).reverse, d.exponent + (written.length - 1 : Nat))

/-- The places of a first digit that is written without an exponent. -/
def isPositional (place : Int) : Bool := decide (-5 ≤ place) && decide (place ≤ 15)

/-- Digits around a point, with a digit at least on both sides. -/
def positional (digits : List Char) : Int → List Char
  | .ofNat n =>
    let digits := digits ++ List.replicate (n + 1 - digits.length) '0'
    let fraction := digits.drop (n + 1)
    digits.take (n + 1) ++ '.' :: if fraction.isEmpty then ['0'] else fraction
  | .negSucc n => '0' :: '.' :: List.replicate n '0' ++ digits

/-- One digit before the point, and an exponent that always has a sign. -/
def withExponent (digits : List Char) (place : Int) : List Char :=
  digits.take 1 ++ (if digits.length ≤ 1 then [] else '.' :: digits.drop 1) ++
    'e' :: (if place < 0 then '-' else '+') :: (Nat.repr place.natAbs).toList

def render (x : Float) : String :=
  let bits := x.toBits
  let sign := if bits.toNat < 0x8000000000000000 then [] else ['-']
  let b := Binary.ofBits bits
  let size :=
    if b.mantissa = 0 then ['0', '.', '0']
    else
      let (digits, place) := b.shortest.scientific
      if isPositional place then positional digits place else withExponent digits place
  String.ofList (sign ++ size)

end CtorArity.Decimal
