import ClassLang.Disk

/-!
# Tools and artifacts

Optimised code and machine code are made by outside programs. What such a program does is given by a
host, and what files hold by a disk: here nothing is run and nothing is written but in a value.
-/

namespace ClassLang

/-- What to make of the code. -/
inductive OutputFormat where
  /-- The code as text. -/
  | ll
  | asm | obj | exe
deriving DecidableEq, Repr, Inhabited

inductive TargetArch where
  | x8664 | aarch64 | riscv64
deriving DecidableEq, Repr, Inhabited

def TargetArch.text : TargetArch → String
  | x8664 => "x86_64"
  | aarch64 => "aarch64"
  | riscv64 => "riscv64"

inductive TargetOs where
  | linux | windows | darwin
deriving DecidableEq, Repr, Inhabited

def TargetOs.text : TargetOs → String
  | linux => "linux"
  | windows => "windows"
  | darwin => "darwin"

/-- How tools name a target. -/
def targetTriple (arch : TargetArch) (os : TargetOs) : String := s!"{arch.text}-{os.text}"

/-- The programs to run. -/
structure Tools where
  opt : String := "opt"
  llc : String := "llc"
  clang : String := "clang"
deriving DecidableEq, Repr, Inhabited

/-! ## Programs -/

/-- What running a program comes to. -/
inductive ToolRun where
  /-- It could not be started. -/
  | unstarted (e : IoError)
  /-- It ended with a failure. -/
  | failed (status stderr : String)
  | finished (stdout : ByteArray)

/-- The programs of a computer, by what they do with arguments next to the files of a disk. -/
structure Host where
  run : Disk → (tool : String) → (args : List String) → ToolRun

/-- Whether a tool is a program that every computer has, by its name or its path. -/
def isInstalled (program tool : String) : Bool :=
  tool == program || tool == "/bin/" ++ program || tool == "/usr/bin/" ++ program

/-- Why a tool that is no program cannot be started. One with a slash is a path; any other is looked
for in directories of programs, where a directory can be found but not run. -/
def startError (disk : Disk) (tool : String) : IoError :=
  if tool.toList.contains '/' then
    match disk.read tool with
    | .ok _ | .error .isADirectory => .permissionDenied
    | .error e => e
  else if tool == "." || tool == ".." then .permissionDenied
  else if Path.maxPart < tool.utf8ByteSize then .nameTooLong
  else .notFound

/-- A computer on which no compiler is installed: it has a program that succeeds and one that
fails. -/
def Host.bare : Host where
  run disk tool args :=
    if (tool :: args).any Path.hasNul then .unstarted .nulInCommand
    else if isInstalled "true" tool then .finished .empty
    else if isInstalled "false" tool then .failed "exit status: 1" ""
    else .unstarted (startError disk tool)

/-- Why there is no optimised code or no artifact. -/
inductive BackendError where
  | toolNotFound (tool : String)
  | invalidOptLevel (level : Nat)
  | toolFailed (tool status stderr : String)
  | invalidOutput (tool : String)
  | write (path : String) (cause : IoError)
  | io (cause : IoError)
deriving DecidableEq, Repr, Inhabited

def BackendError.message : BackendError → String
  | toolNotFound tool => s!"tool not found: {tool}"
  | invalidOptLevel level => s!"invalid optimization level {level}: expected 0 to 3"
  | toolFailed tool status stderr => s!"{tool} failed ({status}): {stderr}"
  | invalidOutput tool => s!"{tool} produced output that is not UTF-8"
  | write path cause => s!"failed to write {path}: {cause.message}"
  | io cause => cause.message

namespace Backend

/-- The highest optimisation level. -/
def maxOptLevel : Nat := 3

/-- Where tools find the code. -/
def scratchFile : String := "code.ll"

/-- Runs a program and gives what it prints. -/
def run (host : Host) (disk : Disk) (tool : String) (args : List String) :
    Except BackendError ByteArray :=
  match host.run disk tool args with
  | .finished stdout => .ok stdout
  | .failed status stderr => .error (.toolFailed tool status stderr.trimAscii.toString)
  | .unstarted .notFound => .error (.toolNotFound tool)
  | .unstarted e => .error (.io e)

/-- The code after optimisation; level zero changes nothing. -/
def optimize (host : Host) (tools : Tools) (disk : Disk) (code : String) (level : Nat) :
    Except BackendError String := do
  if maxOptLevel < level then throw (.invalidOptLevel level)
  else if level = 0 then return code
  else
    let stdout ← run host disk tools.opt [s!"-O{level}", "-S", scratchFile, "-o", "-"]
    match String.fromUTF8? stdout with
    | some text => return text
    | none => throw (.invalidOutput tools.opt)

/-- Where an executable goes: on one system its name has a fixed ending. -/
def executablePath (output : String) (os : TargetOs) : String :=
  if os = .windows && Path.extension? output != some "exe" then output ++ ".exe" else output

/-- How the assembler names an architecture. -/
def marchName : TargetArch → String
  | .x8664 => "x86-64"
  | .aarch64 => "aarch64"
  | .riscv64 => "riscv64"

/-- Makes an artifact and gives its path. Only text is written here; the rest is the tools' work. -/
def artifact (host : Host) (tools : Tools) (disk : Disk) (code output : String) (arch : TargetArch)
    (os : TargetOs) (format : OutputFormat) : Except BackendError (String × Disk) := do
  let triple := targetTriple arch os
  let assemble (kind : String) : Except BackendError (String × Disk) := do
    let _ ← run host disk tools.llc [s!"-march={marchName arch}", s!"-mtriple={triple}",
      s!"-filetype={kind}", scratchFile, "-o", output]
    return (output, disk)
  match format with
  | .ll =>
    match disk.write output code with
    | .ok disk => return (output, disk)
    | .error e => throw (.write output e)
  | .asm => assemble "asm"
  | .obj => assemble "obj"
  | .exe =>
    let path := executablePath output os
    let _ ← run host disk tools.clang [s!"--target={triple}", scratchFile, "-o", path]
    return (path, disk)

end Backend

end ClassLang
