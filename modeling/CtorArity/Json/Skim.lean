import CtorArity.Json.Token

/-!
# Passing over values

A value whose data nobody wants is passed over token by token. What is open is
kept on a stack, so a value may be as deep as there is room.
-/

namespace CtorArity.Json.Skim

/-- What may come next inside a value. -/
inductive Expects
  | value
  /-- A value, or the end of an empty sequence. -/
  | first
  /-- A name, or the end of an empty map. -/
  | firstName
  | name
  | colon
  /-- A comma, or the end of the innermost sequence or map. -/
  | more
  deriving DecidableEq, Repr

inductive Bracket
  | sequence
  | map
  deriving DecidableEq, Repr

/-- The innermost open bracket is the first. -/
structure State where
  expects : Expects
  opened : List Bracket
  room : Nat
  deriving DecidableEq, Repr

namespace State

def start (room : Nat) : State := ⟨.value, [], room⟩

def isDone (s : State) : Bool := s.expects == .more && s.opened.isEmpty

def wantsValue (s : State) : Bool := s.expects == .value || s.expects == .first

def wantsName (s : State) : Bool := s.expects == .name || s.expects == .firstName

def openBy (s : State) (b : Bracket) (expects : Expects) : Option State :=
  match s.room with
  | 0 => none
  | room + 1 => if s.wantsValue then some ⟨expects, b :: s.opened, room⟩ else none

def closeBy (s : State) (b : Bracket) (whenEmpty : Expects) : Option State :=
  if s.expects == whenEmpty || (s.expects == .more && s.opened.head? == some b) then
    some ⟨.more, s.opened.tail, s.room + 1⟩
  else none

def next (s : State) (expects : Expects) : State := { s with expects := expects }

/-- The state after one token, whose written form must be sound. -/
def advance (sound : Token → Bool) (s : State) (t : Token) : Option State :=
  if !sound t then none
  else
    match t with
    | .openBracket => s.openBy .sequence .first
    | .openBrace => s.openBy .map .firstName
    | .closeBracket => s.closeBy .sequence .first
    | .closeBrace => s.closeBy .map .firstName
    | .colon => if s.expects == .colon then some (s.next .value) else none
    | .comma =>
      if s.expects == .more then
        s.opened.head?.map fun b => s.next (if b == .map then .name else .value)
      else none
    | .null | .bool _ | .number _ => if s.wantsValue then some (s.next .more) else none
    | .text _ =>
      if s.wantsValue then some (s.next .more)
      else if s.wantsName then some (s.next .colon)
      else none
    | .stray => none

end State

/-- The tokens after the value that this state is inside of. -/
def skim (sound : Token → Bool) : State → List Token → Option (List Token)
  | _, [] => none
  | s, t :: rest =>
    match s.advance sound t with
    | none => none
    | some s => if s.isDone then some rest else skim sound s rest

/-- The tokens after one value whose scalars stand for anything. -/
def skip (room : Nat) (ts : List Token) : Option (List Token) :=
  skim (fun _ => true) (.start room) ts

end CtorArity.Json.Skim
