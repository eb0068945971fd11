import ClassLang.Ir.Function

/-!
# Modules

A module gathers struct types, globals, declarations of outside functions, and functions. Equal
strings share one global; a name is declared once, and the first declaration stays.
-/

namespace ClassLang.Ir

/-- A named struct type. -/
structure Struct where
  name : String
  fields : List Ty
deriving DecidableEq, Repr, Inhabited

inductive Global where
  | string (name : String) (bytes : List UInt8)
  /-- A table of functions, one for each slot. -/
  | vtable (name : String) (entries : List String)
  | variable_ (name : String) (ty : Ty) (init : Value)
deriving DecidableEq, Repr, Inhabited

/-- A function that is defined elsewhere. -/
structure Declaration where
  name : String
  ret : Ty
  params : List Ty
  variadic : Bool
deriving DecidableEq, Repr, Inhabited

structure Module where
  name : String
  file? : Option String := none
  structs : List Struct := []
  globals : List Global := []
  declarations : List Declaration := []
  functions : List Function := []
deriving DecidableEq, Repr, Inhabited

namespace Global

def name : Global → String
  | string n _ | vtable n _ | variable_ n _ _ => n

/-- The bytes of a string. -/
def bytes? : Global → Option (List UInt8)
  | string _ bytes => some bytes
  | _ => none

/-- Whether a byte stands for itself in a string constant: printable ASCII but for the quote and the
backslash. -/
def isPlain (b : UInt8) : Bool := 0x20 ≤ b && b < 0x7f && b != 0x22 && b != 0x5c

/-- A byte in a string constant: itself, or a backslash and two hexadecimal digits. -/
def byteText (b : UInt8) : List Char :=
  if isPlain b then [Char.ofNat b.toNat] else '\\' :: Binary64.hexDigits 2 b.toNat

def bytesText (bytes : List UInt8) : List Char := bytes.flatMap byteText

def text : Global → String
  | string name bytes =>
    let body := String.ofList (bytesText bytes)
    s!"@{name} = private unnamed_addr constant [{bytes.length + 1} x i8] c\"{body}\\00\""
  | vtable name [] => s!"@{name} = global [0 x ptr] zeroinitializer"
  | vtable name entries =>
    let pointers := listed (entries.map ("ptr @" ++ ·))
    s!"@{name} = global [{entries.length} x ptr] [{pointers}]"
  | variable_ name ty init => s!"@{name} = global {ty.text} {init.text}"

end Global

def Declaration.text (d : Declaration) : String :=
  let more := if d.variadic then ["..."] else []
  let params := listed (d.params.map Ty.text ++ more)
  s!"declare {d.ret.text} @{d.name}({params})"

def Struct.text (s : Struct) : String :=
  let fields := listed (s.fields.map Ty.text)
  s!"%{s.name} = type \x7b {fields} \x7d"

namespace Module

def addFunction (m : Module) (f : Function) : Module := { m with functions := m.functions ++ [f] }

def hasFunction (m : Module) (name : String) : Bool := m.functions.any (·.name == name)

def addStruct (m : Module) (name : String) (fields : List Ty) : Module :=
  { m with structs := m.structs ++ [⟨name, fields⟩] }

def addGlobal (m : Module) (g : Global) : Module := { m with globals := m.globals ++ [g] }

/-- The number of string constants. -/
def stringCount (m : Module) : Nat := m.globals.countP fun g => g.bytes?.isSome

/-- The name of a string constant with given bytes, which is added unless there is one. -/
def addString (m : Module) (bytes : List UInt8) : String × Module :=
  match m.globals.find? fun g => g.bytes? == some bytes with
  | some g => (g.name, m)
  | none =>
    let name := s!".str.{m.stringCount}"
    (name, m.addGlobal (.string name bytes))

/-- Declares an outside function, unless its name is declared already. -/
def declare (m : Module) (d : Declaration) : Module :=
  if m.declarations.any (·.name == d.name) then m
  else { m with declarations := m.declarations ++ [d] }

def instrCount (m : Module) : Nat := (m.functions.flatMap Function.instrs).length

/-- What is wrong, function by function. -/
def flaws (m : Module) : List (String × Flaw) :=
  m.functions.filterMap fun f => f.flaw?.map fun flaw => (f.name, flaw)

/-- The declarations of functions that the module does not define. -/
def outside (m : Module) : List Declaration :=
  m.declarations.filter fun d => !m.hasFunction d.name

/-- The parts of a module as lines; a blank line stands before every part that is not empty. -/
def lines (m : Module) : List String :=
  let source := match m.file? with
    | some file => [s!"source_filename = \"{file}\""]
    | none => []
  let part (ls : List String) : List String := if ls.isEmpty then [] else "" :: ls
  [s!"; ModuleID = '{m.name}'"] ++ source ++ part (m.structs.map Struct.text) ++
    part (m.globals.map Global.text) ++ part (m.outside.map Declaration.text) ++
    m.functions.flatMap fun f => "" :: f.lines

end Module

/-- Text of lines, each ended by a line feed. -/
def unlines (lines : List String) : String := String.join (lines.map (· ++ "\n"))

def Module.text (m : Module) : String := unlines m.lines

/-- A flaw with the function it is in. -/
def flawText (flaw : String × Flaw) : String := s!"@{flaw.1}: {flaw.2.message}"

end ClassLang.Ir
