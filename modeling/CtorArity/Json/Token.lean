import CtorArity.Json.Escape

/-!
# Tokens of JSON

A text is read one character at a time. Numbers and quoted texts keep their
written form; what they stand for is decided where they are used. Reading stops
at the first character that no JSON text can have there, with a token that no
JSON text has.
-/

namespace CtorArity.Json

inductive Token
  | openBrace
  | closeBrace
  | openBracket
  | closeBracket
  | colon
  | comma
  | null
  | bool (value : Bool)
  | number (written : List Char)
  | text (written : List Char)
  /-- Something that is no token. -/
  | stray
  deriving DecidableEq, Repr

namespace Token

def isSpace (c : Char) : Bool := c == ' ' || c == '\t' || c == '\n' || c == '\r'

inductive NumberPhase
  | minus
  | zero
  | whole
  | point
  | fraction
  | letter
  | sign
  | exponent
  deriving DecidableEq, Repr

namespace NumberPhase

def next? (p : NumberPhase) (c : Char) : Option NumberPhase :=
  let digit := c.isDigit
  let isLetter := c == 'e' || c == 'E'
  match p with
  | .minus => if c == '0' then some .zero else if digit then some .whole else none
  | .zero => if c == '.' then some .point else if isLetter then some .letter else none
  | .whole =>
    if digit then some .whole else if c == '.' then some .point
    else if isLetter then some .letter else none
  | .point => if digit then some .fraction else none
  | .fraction => if digit then some .fraction else if isLetter then some .letter else none
  | .letter =>
    if digit then some .exponent else if c == '+' || c == '-' then some .sign else none
  | .sign | .exponent => if digit then some .exponent else none

def isComplete : NumberPhase → Bool
  | .zero | .whole | .fraction | .exponent => true
  | _ => false

/-- Whether a number may end before this character: a zero at the front of other
digits is no number. -/
def endsBefore (p : NumberPhase) (c : Char) : Bool :=
  p.isComplete && !(p == .zero && c.isDigit)

end NumberPhase

inductive TextPhase
  | plain
  | escape
  /-- This many digits of a code are to come. -/
  | code (digits : Nat)
  deriving DecidableEq, Repr

def TextPhase.next? (p : TextPhase) (c : Char) : Option TextPhase :=
  match p with
  | .plain => if c == '\\' then some .escape else if c.toNat < 0x20 then none else some .plain
  | .escape =>
    if c == 'u' then some (.code 4)
    else if "\"\\/bfnrt".toList.contains c then some .plain else none
  | .code digits =>
    if (Escape.hexDigit? c).isSome then some (if digits ≤ 1 then .plain else .code (digits - 1)) else none

/-- What is being read; written forms have their last character first. -/
inductive Mode
  | between
  /-- The letters still to come of a word. -/
  | word (letters : List Char) (token : Token)
  | number (phase : NumberPhase) (written : List Char)
  | text (phase : TextPhase) (written : List Char)
  | stuck
  deriving DecidableEq, Repr

/-- The tokens read, last one first, and what is being read. -/
structure State where
  done : List Token
  mode : Mode
  deriving DecidableEq, Repr

def State.start : State := ⟨[], .between⟩

def State.give (s : State) (t : Token) : State := ⟨t :: s.done, .between⟩

def State.fail (s : State) : State := ⟨.stray :: s.done, .stuck⟩

def begin (s : State) (c : Char) : State :=
  if isSpace c then { s with mode := .between }
  else if c.isDigit then { s with mode := .number (if c == '0' then .zero else .whole) [c] }
  else
    match c with
    | '{' => s.give .openBrace
    | '}' => s.give .closeBrace
    | '[' => s.give .openBracket
    | ']' => s.give .closeBracket
    | ':' => s.give .colon
    | ',' => s.give .comma
    | '"' => { s with mode := .text .plain [] }
    | '-' => { s with mode := .number .minus [c] }
    | 'n' => { s with mode := .word ['u', 'l', 'l'] .null }
    | 't' => { s with mode := .word ['r', 'u', 'e'] (.bool true) }
    | 'f' => { s with mode := .word ['a', 'l', 's', 'e'] (.bool false) }
    | _ => s.fail

def read (s : State) (c : Char) : State :=
  match s.mode with
  | .between => begin s c
  | .word [] token => begin (s.give token) c
  | .word [last] token => if c == last then s.give token else s.fail
  | .word (next :: rest) token => if c == next then { s with mode := .word rest token } else s.fail
  | .number phase written =>
    match phase.next? c with
    | some phase => { s with mode := .number phase (c :: written) }
    | none =>
      if phase.endsBefore c then begin (s.give (.number written.reverse)) c else s.fail
  | .text phase written =>
    if phase == .plain && c == '"' then s.give (.text written.reverse)
    else
      match phase.next? c with
      | some phase => { s with mode := .text phase (c :: written) }
      | none => s.fail
  | .stuck => s

def finish (s : State) : List Token :=
  match s.mode with
  | .between | .stuck => s.done.reverse
  | .number phase written =>
    ((if phase.isComplete then .number written.reverse else .stray) :: s.done).reverse
  | .word .. | .text .. => (.stray :: s.done).reverse

end Token

def tokens (source : List Char) : List Token :=
  Token.finish (source.foldl Token.read .start)

end CtorArity.Json
