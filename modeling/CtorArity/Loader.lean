import CtorArity.Config
import CtorArity.Dump.Reader

/-!
# Loading

Configurations and units from texts and from the contents of files. A failure
says what was being done, from the outside in, and what went wrong there.
-/

namespace CtorArity

inductive Cause
  | missingFile
  | notUtf8
  | malformed
  | data (fault : Json.DataFault)
  | model (error : ModelError)

/-- What a cause says for itself; the rest is said by what was being done. -/
def Cause.message? : Cause → Option String
  | .missingFile | .notUtf8 | .malformed => none
  | .data fault => some fault.message
  | .model error => some error.message

structure LoadError where
  /-- What was being done, outermost first. -/
  during : List String
  cause : Cause

namespace LoadError

def message (e : LoadError) : String :=
  ": ".intercalate (e.during ++ e.cause.message?.toList)

def within (activity : String) (e : LoadError) : LoadError :=
  { e with during := activity :: e.during }

def ofFault (activity : String) : Json.Fault → LoadError
  | .malformed => ⟨[activity], .malformed⟩
  | .data fault => ⟨[activity], .data fault⟩

end LoadError

/-- The text of a file; `none` stands for a file that is not there. -/
def fileText (activity : String) : Option ByteArray → Except LoadError String
  | none => .error ⟨[activity], .missingFile⟩
  | some bytes =>
    match String.fromUTF8? bytes with
    | none => .error ⟨[activity], .notUtf8⟩
    | some text => .ok text

namespace Config

def parse (source : String) : Except LoadError Config :=
  (decode source).mapError (.ofFault "failed to parse sharpcheck config JSON")

def load (path : String) (content : Option ByteArray) : Except LoadError Config := do
  let source ← fileText ("failed to read config: " ++ path) content
  (parse source).mapError (·.within ("failed to parse config: " ++ path))

end Config

/-- A result with what was logged on the way. -/
structure Logged (α : Type) where
  log : List Event
  result : Except LoadError α

namespace CompilationUnit

def ofDump (dump : UnitDump) : Logged CompilationUnit :=
  match dump.lower with
  | .ok u => ⟨dump.ignoredModifiers ++ [u.builtEvent], .ok u⟩
  | .error e =>
    ⟨dump.ignoredModifiers, .error ⟨["invalid declaration dump for " ++ dump.file], .model e⟩⟩

def parse (source : String) : Logged CompilationUnit :=
  match UnitDump.decode source with
  | .error fault => ⟨[], .error (.ofFault "failed to parse declaration dump JSON" fault)⟩
  | .ok dump => ofDump dump

/-- The units of the sources; the first that fails ends the reading. -/
def parseAll : List String → Logged (List CompilationUnit)
  | [] => ⟨[], .ok []⟩
  | source :: rest =>
    let unit := parse source
    match unit.result with
    | .error e => ⟨unit.log, .error e⟩
    | .ok u =>
      let units := parseAll rest
      ⟨unit.log ++ units.log, units.result.map (u :: ·)⟩

def load (path : String) (content : Option ByteArray) : Logged CompilationUnit :=
  match fileText ("failed to read declaration dump: " ++ path) content with
  | .error e => ⟨[], .error e⟩
  | .ok source =>
    let unit := parse source
    { unit with result := unit.result.mapError (·.within ("failed to load unit: " ++ path)) }

end CompilationUnit

end CtorArity
