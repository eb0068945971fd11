import ClassLang.Backend
import ClassLang.Toml.Document
import ClassLang.Toml.Printer

/-!
# Options of a compilation

Options are written as a TOML document. A key that is left out has its default, a key that is not
known is ignored, and a value of the wrong kind is refused.
-/

namespace ClassLang

structure Options where
  optLevel : Nat := 0
  format : OutputFormat := .ll
  arch : TargetArch := .x8664
  os : TargetOs := .linux
  /-- Where the artifact goes; without it there is none. -/
  output? : Option String := none
  /-- Whether positions are recorded in the code. -/
  debugInfo : Bool := false
  typeInference : Bool := true
  tools : Tools := {}
deriving DecidableEq, Repr, Inhabited

/-- Why there are no options. -/
inductive ConfigError where
  | unreadable (cause : IoError)
  | malformed
  | invalidLevel (level : Nat)
deriving DecidableEq, Repr, Inhabited

def ConfigError.message : ConfigError → String
  | unreadable cause => s!"Failed to read configuration: {cause.message}"
  | malformed => "Failed to parse configuration"
  | invalidLevel level =>
    s!"Invalid configuration: opt_level must be between 0 and {Backend.maxOptLevel}, got {level}"

def OutputFormat.text : OutputFormat → String
  | ll => "ll"
  | asm => "asm"
  | obj => "obj"
  | exe => "exe"

namespace Options

/-! ## Reading -/

/-- The value of a key, read as it should be; a missing key has a default. -/
def field {α : Type} (es : Toml.Entries) (key : String) (read? : Toml.Value → Option α)
    (default : α) : Option α :=
  match es.lookup key with
  | none => some default
  | some v => read? v

def string? : Toml.Value → Option String
  | .string s => some s
  | _ => none

def boolean? : Toml.Value → Option Bool
  | .boolean b => some b
  | _ => none

/-- A number of one byte. -/
def byte? : Toml.Value → Option Nat
  | .integer n => if 0 ≤ n && n < 256 then some n.toNat else none
  | _ => none

/-- One of several things: by its name, or by a table that holds its name and nothing else. -/
def named? {α : Type} (all : List α) (text : α → String) (v : Toml.Value) : Option α :=
  let find? (name : String) : Option α := all.find? fun a => text a == name
  match v with
  | .string name => find? name
  | .table _ [(name, inner)] => if inner.isEmpty then find? name else none
  | _ => none

/-- The tools of a table by their keys, or of an array by their order. What is left out has its
default; a date has no keys at all. -/
def tools? (v : Toml.Value) : Option Tools :=
  match v with
  | .table _ es => do
    let opt ← field es "opt" string? "opt"
    let llc ← field es "llc" string? "llc"
    let clang ← field es "clang" string? "clang"
    return { opt, llc, clang }
  | .array items => do
    let opt ← (items[0]?.map string?).getD (some "opt")
    let llc ← (items[1]?.map string?).getD (some "llc")
    let clang ← (items[2]?.map string?).getD (some "clang")
    return { opt, llc, clang }
  | .dateTime _ => some {}
  | _ => none

/-- The options of a table. -/
def ofEntries? (es : Toml.Entries) : Option Options := do
  let optLevel ← field es "opt_level" byte? 0
  let format ← field es "output_format" (named? [.ll, .asm, .obj, .exe] OutputFormat.text) .ll
  let arch ← field es "target_arch" (named? [.x8664, .aarch64, .riscv64] TargetArch.text) .x8664
  let os ← field es "target_os" (named? [.linux, .windows, .darwin] TargetOs.text) .linux
  let output? ← field es "output_file" (fun v => (string? v).map some) none
  let debugInfo ← field es "debug_info" boolean? false
  let typeInference ← field es "type_inference" boolean? true
  let tools ← field es "tools" tools? {}
  return { optLevel, format, arch, os, output?, debugInfo, typeInference, tools }

/-- The options that a document states. -/
def parse (text : String) : Except ConfigError Options :=
  match (Toml.parse? text).bind ofEntries? with
  | none => .error .malformed
  | some o => if Backend.maxOptLevel < o.optLevel then .error (.invalidLevel o.optLevel) else .ok o

/-- The options that a file states. -/
def ofFile (disk : Disk) (path : String) : Except ConfigError Options :=
  match disk.read path with
  | .ok text => parse text
  | .error e => .error (.unreadable e)

/-- The options that a file states, or the defaults if there is no such file. -/
def ofFileOrDefault (disk : Disk) (path : String) : Except ConfigError Options :=
  if disk.contains path then ofFile disk path else .ok {}

/-! ## Writing -/

/-- The options as a document. -/
def text (o : Options) : String :=
  let pair (key value : String) : String := s!"{key} = {value}\n"
  let quoted (key value : String) : String := pair key (Toml.stringText value)
  let boolean (key : String) (value : Bool) : String := pair key (if value then "true" else "false")
  let output := match o.output? with
    | some path => quoted "output_file" path
    | none => ""
  String.join
    [pair "opt_level" (toString o.optLevel),
     quoted "output_format" o.format.text,
     quoted "target_arch" o.arch.text,
     quoted "target_os" o.os.text,
     output,
     boolean "debug_info" o.debugInfo,
     boolean "type_inference" o.typeInference,
     "\n[tools]\n",
     quoted "opt" o.tools.opt,
     quoted "llc" o.tools.llc,
     quoted "clang" o.tools.clang]

end Options

end ClassLang
