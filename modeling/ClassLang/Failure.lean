import ClassLang.Backend
import ClassLang.Check.Finding
import ClassLang.Gen.Error
import ClassLang.Parse.Error

/-!
# Failures of a compilation

Every stage has errors of its own. A failure gives them one shape: the stage, a message, and where
known the place, the file, a hint and a cause.
-/

namespace ClassLang

/-- Where a failure comes from. -/
inductive Stage where
  | syntax_ | semantic | irGen | codeGen | io | internal
deriving DecidableEq, Repr, Inhabited

def Stage.text : Stage → String
  | syntax_ => "Syntax Error"
  | semantic => "Semantic Error"
  | irGen => "IR Generation Error"
  | codeGen => "Code Generation Error"
  | io => "I/O Error"
  | internal => "Internal Error"

structure Failure where
  stage : Stage
  message : String
  position? : Option Span := none
  file? : Option String := none
  hint? : Option String := none
  /-- The message of what lies behind. -/
  cause? : Option String := none
deriving DecidableEq, Repr, Inhabited

namespace Failure

/-- The failure in full: stage, place and message, and on lines of their own hint and cause. A place
that no text stands behind is left out. -/
def text (f : Failure) : String :=
  let position? := f.position?.filter fun s => 0 < s.line
  let place := match f.file?, position? with
    | some file, some s => s!" at {file}:{s.line}:{s.column}"
    | none, some s => s!" at line {s.line}, column {s.column}"
    | some file, none => s!" in {file}"
    | none, none => ""
  let hint := match f.hint? with
    | some h => s!"\n  Hint: {h}"
    | none => ""
  let cause := match f.cause? with
    | some c => s!"\n  Caused by: {c}"
    | none => ""
  s!"{f.stage.text}{place}: {f.message}{hint}{cause}"

def ofParse (e : ParseError) : Failure :=
  { stage := .syntax_, message := e.message, position? := some e.span, hint? := e.suggestion? }

def ofFinding (f : Finding) : Failure :=
  { stage := .semantic, message := f.cause.message, position? := some f.span }

def ofGen (e : GenError) : Failure :=
  let stage := match e.cause with
    | .internal _ | .unbounded => Stage.internal
    | _ => .irGen
  { stage, message := e.message, position? := e.span? }

def ofBackend (e : BackendError) : Failure :=
  let hint? := match e with
    | .toolNotFound tool => some s!"install {tool} or set its path under [tools]"
    | _ => none
  { stage := .codeGen, message := e.message, hint?, cause? := some e.message }

def ofIo (e : IoError) : Failure :=
  { stage := .io, message := e.message, cause? := some e.message }

/-- The failure with a file, unless it has one. -/
def inFile (file : String) (f : Failure) : Failure := { f with file? := f.file? <|> some file }

/-- How many failures are shown. -/
def maxShown : Nat := 10

/-- Failures as text, one after the other; after the first ones only their number. -/
def listText (fs : List Failure) : String :=
  let shown := String.intercalate "\n" ((fs.take maxShown).map text)
  if maxShown < fs.length then s!"{shown}\n... and {fs.length - maxShown} more errors" else shown

/-- The failures of one stage. -/
def ofStage (stage : Stage) (fs : List Failure) : List Failure := fs.filter (·.stage == stage)

end Failure

end ClassLang
