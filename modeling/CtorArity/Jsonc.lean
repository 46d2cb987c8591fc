import CtorArity.Text.Blank

/-!
# JSON with comments

Comments are dropped and so is a comma right before a closing bracket. The
line breaks of comments are kept, so every character that stays is on the line
it was on, unless it is a comma: that goes before the blank characters in front
of it. Text in quotes is left alone.
-/

namespace CtorArity.Jsonc

inductive Mode
  | code
  | slash
  | quoted
  | escaped
  | lineComment
  | blockComment
  | star
  deriving DecidableEq, Repr

/-- The text so far is `out` and after it the blank characters `held`, both last
character first. If a comma is held back its place is between the two. -/
structure State where
  mode : Mode
  out : List Char
  held : List Char
  comma : Bool
  deriving DecidableEq, Repr

namespace State

def start : State := ⟨.code, [], [], false⟩

/-- The text so far, with the comma if it is to stay. -/
def settled (s : State) (keep : Bool) : List Char :=
  s.held ++ if s.comma && keep then ',' :: s.out else s.out

def blank (s : State) (c : Char) : State := { s with held := c :: s.held }

def closes (c : Char) : Bool := c == '}' || c == ']'

/-- Writes a character that is not blank. A comma held back stays unless this
one closes a bracket. -/
def solid (s : State) (c : Char) (mode : Mode) : State :=
  ⟨mode, c :: s.settled (!closes c), [], false⟩

def verbatim (s : State) (c : Char) (mode : Mode) : State :=
  { s with mode := mode, out := c :: s.out }

/-- Holds a comma back; one held before stays. -/
def holdComma (s : State) : State :=
  { s with out := if s.comma then ',' :: s.out else s.out, comma := true }

end State

def readCode (s : State) (c : Char) : State :=
  if c == '"' then s.solid c .quoted
  else if c == '/' then { s with mode := .slash }
  else if c == ',' then s.holdComma
  else if Text.isBlank c then s.blank c
  else s.solid c .code

def read (s : State) (c : Char) : State :=
  match s.mode with
  | .code => readCode s c
  | .slash =>
    if c == '/' then { s with mode := .lineComment }
    else if c == '*' then { s with mode := .blockComment }
    else readCode (s.solid '/' .code) c
  | .quoted =>
    if c == '\\' then s.verbatim c .escaped
    else if c == '"' then s.verbatim c .code
    else s.verbatim c .quoted
  | .escaped => s.verbatim c .quoted
  | .lineComment => if c == '\n' then { s.blank c with mode := .code } else s
  | .blockComment | .star =>
    if s.mode == .star && c == '/' then { s with mode := .code }
    else
      let s := if c == '\n' then s.blank c else s
      { s with mode := if c == '*' then .star else .blockComment }

def finish (s : State) : List Char :=
  let s := if s.mode = .slash then s.solid '/' .code else s
  (s.settled true).reverse

def normalizeChars (source : List Char) : List Char :=
  finish (source.foldl read .start)

def normalize (source : String) : String :=
  String.ofList (normalizeChars source.toList)

end CtorArity.Jsonc
