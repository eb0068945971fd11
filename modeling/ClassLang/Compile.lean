import ClassLang.Check.Body
import ClassLang.Failure
import ClassLang.Gen.Program
import ClassLang.Options
import ClassLang.Parse.Program

/-!
# Compilation

The stages in a row: parsing, analysis, code generation, optimisation, artifact. Parsing and
analysis both run, so that their failures are reported together; what comes after runs only if there
were none.
-/

namespace ClassLang

/-- What a compilation gives. -/
structure Compilation where
  /-- The code after optimisation. -/
  code : String
  warnings : List String
  /-- The path of the artifact, if one was asked for. -/
  artifact? : Option String
deriving Repr, Inhabited

namespace Compilation

/-- How a source without a file is called in recorded positions. -/
def unnamedSource : String := "<input>"

/-- The failures of parsing and analysis. -/
def frontFailures (errors : List ParseError) (findings : List Finding) : List Failure :=
  errors.map Failure.ofParse ++ (findings.filter Finding.isError).map Failure.ofFinding

/-- Parsing, analysis and code generation: the code, and the warnings. -/
def front (o : Options) (source : String) (file? : Option String) :
    Except (List Failure) (String × List String) := do
  let (program, errors) := parse source
  let analysis := analyze program o.typeInference
  let failures := frontFailures errors analysis.findings
  if !failures.isEmpty then throw failures
  let debugFile? := if o.debugInfo then some (file?.getD unnamedSource) else none
  let generated := generate program analysis.scopes debugFile?
  match generated.text? with
  | some code => return (code, analysis.warnings)
  | none => throw (generated.errors.map Failure.ofGen)

/-- Optimisation and artifact. -/
def back (host : Host) (disk : Disk) (o : Options) (code : String) :
    Except BackendError (String × Option String × Disk) := do
  let code ← Backend.optimize host o.tools disk code o.optLevel
  match o.output? with
  | none => return (code, none, disk)
  | some output =>
    let (path, disk) ← Backend.artifact host o.tools disk code output o.arch o.os o.format
    return (code, some path, disk)

/-- Compiles a source text that may belong to a file. -/
def run (host : Host) (disk : Disk) (o : Options) (source : String) (file? : Option String) :
    Except (List Failure) (Compilation × Disk) := do
  let (code, warnings) ← front o source file?
  match back host disk o code with
  | .ok (code, artifact?, disk) => return ({ code, warnings, artifact? }, disk)
  | .error e => throw [.ofBackend e]

end Compilation

/-- Compiles a source text. -/
def compile (host : Host) (disk : Disk) (o : Options) (source : String) :
    Except (List Failure) (Compilation × Disk) :=
  Compilation.run host disk o source none

/-- Compiles what a file holds; failures name the file. -/
def compileFile (host : Host) (disk : Disk) (o : Options) (path : String) :
    Except (List Failure) (Compilation × Disk) :=
  match disk.read path with
  | .error e => .error [(Failure.ofIo e).inFile path]
  | .ok source =>
    match Compilation.run host disk o source (some path) with
    | .ok done => .ok done
    | .error failures => .error (failures.map (Failure.inFile path))

end ClassLang
