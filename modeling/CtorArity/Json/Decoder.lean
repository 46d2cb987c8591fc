import CtorArity.Json.Fault
import CtorArity.Json.Skim
import CtorArity.Text.Blank

/-!
# Decoders

A decoder takes a value off the front of a list of tokens. The first fault in
the order of the tokens is the one reported. Brackets may nest as deep as there
is room; what is passed over takes no room.
-/

namespace CtorArity.Json

def maxDepth : Nat := 127

structure Limits where
  /-- How many more brackets may be opened. -/
  room : Nat
  /-- The number of tokens of the text: nothing in it has more parts. -/
  size : Nat
  deriving DecidableEq, Repr

abbrev Decoder (α : Type) := Limits → List Token → Except Fault (α × List Token)

def malformed {α : Type} : Except Fault α := .error .malformed

def dataFault {α : Type} (f : DataFault) : Except Fault α := .error (.data f)

def orMalformed {α : Type} (x : Option α) : Except Fault α := x.elim malformed .ok

def textOf (written : List Char) : Except Fault String := orMalformed (Escape.decode? written)

def numberOf (written : List Char) : Except Fault Number := orMalformed (Number.ofWritten? written)

/-- Whether something stands behind the written form. -/
def isSound : Token → Bool
  | .number written => (Number.ofWritten? written).isSome
  | .text written => (Escape.decode? written).isSome
  | _ => true

/-- Reports the next value as one of a wrong kind; a scalar must be sound. -/
def unexpected {α : Type} (expected : String) (ts : List Token) : Except Fault α := do
  let found : Unexpected ← match ts with
    | .null :: _ => pure .null
    | .bool value :: _ => pure (.bool value)
    | .number written :: _ => Unexpected.number <$> numberOf written
    | .text written :: _ => Unexpected.text <$> textOf written
    | .openBracket :: _ => pure .sequence
    | .openBrace :: _ => pure .map
    | _ => malformed
  dataFault (.invalidType found expected)

def take (token : Token) : List Token → Except Fault (List Token)
  | [] => malformed
  | t :: rest => if t = token then .ok rest else malformed

def Limits.inside : Limits → Except Fault Limits
  | ⟨0, _⟩ => malformed
  | ⟨room + 1, size⟩ => .ok ⟨room, size⟩

namespace Decoder

def text : Decoder String
  | _, .text written :: rest => return (← textOf written, rest)
  | _, ts => unexpected "a string" ts

def bool : Decoder Bool
  | _, .bool value :: rest => .ok (value, rest)
  | _, ts => unexpected "a boolean" ts

def word : Decoder UInt32
  | _, .number written :: rest => do
    let n ← numberOf written
    match n with
    | .integer i =>
      if 0 ≤ i ∧ i ≤ 0xFFFFFFFF then return (UInt32.ofNat i.toNat, rest)
      else dataFault (.invalidValue n "u32")
    | .floating _ => dataFault (.invalidType (.number n) "u32")
  | _, ts => unexpected "u32" ts

def optional {α : Type} (d : Decoder α) : Decoder (Option α)
  | _, .null :: rest => .ok (none, rest)
  | limits, ts => return (← d limits ts).map some id

def variantOf {α : Type} (variants : List (String × α)) (name : String) : Except Fault α :=
  match variants.lookup name with
  | some value => .ok value
  | none => dataFault (.unknownVariant name (variants.map (·.1)))

/-- A variant is its name alone, or the only name of a map, with null. A map
that does not start with a name is malformed. -/
def variant {α : Type} (variants : List (String × α)) : Decoder α
  | _, .text written :: rest => return (← variantOf variants (← textOf written), rest)
  | limits, .openBrace :: rest => do
    let _ ← limits.inside
    match rest with
    | .text written :: rest =>
      let value ← variantOf variants (← textOf written)
      let rest ← take .colon rest
      match rest with
      | .null :: rest => return (value, ← take .closeBrace rest)
      | _ => unexpected "unit" rest
    | _ => malformed
  | _, _ => malformed

/-- Yes or no in a word, or a boolean. Any other value is read to its end. -/
def lenientBool : Decoder Bool
  | _, .bool value :: rest => .ok (value, rest)
  | _, .text written :: rest => do
    let s ← textOf written
    let word := Text.plainWord s
    if ["true", "1", "yes", "on"].contains word then return (true, rest)
    else if ["false", "0", "no", "off"].contains word then return (false, rest)
    else dataFault (.invalidBoolean s)
  | limits, ts => do
    let _ ← orMalformed (Skim.skim isSound (.start limits.room) ts)
    dataFault .noBooleanVariant

/-- The values up to the closing bracket; `first` until one has been read. -/
def elements {α : Type} (d : Decoder α) (limits : Limits) : Nat → (first : Bool) → List Token →
    Except Fault (List α × List Token)
  | _, _, .closeBracket :: rest => .ok ([], rest)
  | 0, _, _ => malformed
  | fuel + 1, first, ts => do
    let ts ← if first then pure ts else take .comma ts
    let (x, ts) ← d limits ts
    let (xs, ts) ← elements d limits fuel false ts
    return (x :: xs, ts)

def list {α : Type} (d : Decoder α) : Decoder (List α)
  | limits, .openBracket :: rest => do elements d (← limits.inside) limits.size true rest
  | _, ts => unexpected "a sequence" ts

end Decoder

/-- A field of a record of type `σ`: reading its value changes the record. -/
structure Field (σ : Type) where
  name : String
  required : Bool
  read : Decoder (σ → σ)

namespace Field

variable {σ : Type}

def ofDecoder {α : Type} (name : String) (required : Bool) (d : Decoder α) (put : σ → α → σ) :
    Field σ where
  name := name
  required := required
  read limits ts := return (← d limits ts).map (fun x s => put s x) id

def need {α : Type} (name : String) (d : Decoder α) (put : σ → α → σ) : Field σ :=
  ofDecoder name true d put

def may {α : Type} (name : String) (d : Decoder α) (put : σ → α → σ) : Field σ :=
  ofDecoder name false d put

end Field

/-- How a record is written: as a map, or as a sequence of its fields' values. -/
structure Record (σ : Type) where
  name : String
  fields : List (Field σ)
  blank : σ

namespace Record

variable {σ : Type} (r : Record σ)

def expected : String := "struct " ++ r.name

/-- What is missing at the end of a map in which these names have been read. -/
def missing? (seen : List String) : Option (Field σ) :=
  r.fields.find? fun f => f.required && !seen.contains f.name

def fieldOf? (seen : List String) (name : String) : Except Fault (Option (Field σ)) :=
  match r.fields.find? (·.name == name) with
  | none => .ok none
  | some f => if seen.contains name then dataFault (.duplicateField name) else .ok (some f)

/-- The members up to the closing brace; `seen` are the fields read so far. -/
def members (limits : Limits) : Nat → (first : Bool) → (seen : List String) → σ → List Token →
    Except Fault (σ × List Token)
  | 0, _, _, _, _ => malformed
  | _ + 1, _, seen, value, .closeBrace :: rest =>
    match r.missing? seen with
    | some f => dataFault (.missingField f.name)
    | none => .ok (value, rest)
  | fuel + 1, first, seen, value, ts => do
    let ts ← if first then pure ts else take .comma ts
    match ts with
    | .text written :: ts =>
      let name ← textOf written
      match ← r.fieldOf? seen name with
      | some f =>
        let (change, ts) ← f.read limits (← take .colon ts)
        members limits fuel false (name :: seen) (change value) ts
      | none =>
        let ts ← orMalformed (Skim.skip limits.size (← take .colon ts))
        members limits fuel false seen value ts
    | _ => malformed

/-- The values of these fields, the first of them at this place; the rest of the
fields may be left out if none of them is required. -/
def positions (limits : Limits) (place : Nat) : List (Field σ) → σ → List Token →
    Except Fault (σ × List Token)
  | [], value, ts => return (value, ← take .closeBracket ts)
  | fields@(f :: others), value, ts =>
    match ts with
    | .closeBracket :: rest =>
      match fields.findIdx? (·.required) with
      | some further =>
        dataFault (.invalidLength (place + further)
          (r.expected ++ " with " ++ Nat.repr r.fields.length ++ " elements"))
      | none => .ok (value, rest)
    | _ => do
      let ts ← if place = 0 then pure ts else take .comma ts
      let (change, ts) ← f.read limits ts
      positions limits (place + 1) others (change value) ts

def decoder : Decoder σ
  | limits, .openBrace :: rest => do
    r.members (← limits.inside) limits.size true [] r.blank rest
  | limits, .openBracket :: rest => do r.positions (← limits.inside) 0 r.fields r.blank rest
  | _, ts => unexpected r.expected ts

end Record

def decode {α : Type} (d : Decoder α) (source : String) : Except Fault α := do
  let ts := tokens source.toList
  let (x, rest) ← d ⟨maxDepth, ts.length⟩ ts
  if rest.isEmpty then return x else malformed

end CtorArity.Json
