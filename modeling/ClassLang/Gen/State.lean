import ClassLang.Gen.Error
import ClassLang.Gen.Layout
import ClassLang.Ir.Module
import ClassLang.Symbol

/-!
# The state of code generation

The catalog holds what the program declares and does not change. The state holds what has been
generated: the module so far, the storage of globals, the signatures of functions, the layouts of
classes, and the instances of templates. An instance is recorded under its template and its type
arguments when it is first asked for, and its body waits in a queue.
-/

namespace ClassLang

/-- A template declaration. -/
structure Template where
  params : List String
  /-- The function or class that it declares. -/
  body : Stmt

/-- The declarations of a program. -/
structure Catalog where
  /-- The symbols that analysis found. -/
  scopes : ScopeTree := {}
  /-- The file that positions refer to, if positions are recorded. -/
  file? : Option String := none
  /-- The classes by name; of two with one name the later counts. -/
  classes : Table Class := {}
  /-- The names of all class declarations in order. -/
  classNames : List String := []
  /-- The methods declared outside their classes, in order. -/
  methods : List Method := []
  templates : Table Template := {}
  /-- How deep instances and initializers may nest. -/
  limit : Nat := 1000

namespace Catalog

/-- Records what one statement declares. -/
def add (c : Catalog) : Stmt → Catalog
  | .class_ d =>
    { c with
      classes := c.classes.insert d.name.name d
      classNames := c.classNames ++ [d.name.name] }
  | .method m => { c with methods := c.methods ++ [m] }
  | .template params body _ =>
    match body.templateName? with
    | some n => { c with templates := c.templates.insert n.name ⟨params.map Ident.name, body⟩ }
    | none => c
  | _ => c

def ofProgram (scopes : ScopeTree) (file? : Option String) (p : Program) (limit : Nat := 1000) :
    Catalog :=
  p.stmts.foldl add { scopes, file?, limit }

/-- The methods that are declared for a class outside of it. -/
def methodsOf (c : Catalog) (cls : String) : List Method :=
  c.methods.filter fun m => m.receiverClass? == some cls

/-- Whether a template of classes has a name. -/
def isClassTemplate (c : Catalog) (name : String) : Bool :=
  match (c.templates.find? name).map Template.body with
  | some (.class_ _) => true
  | _ => false

end Catalog

/-- Where a named value is stored. -/
structure Location where
  ptr : Ir.Value
  ty : Ty
  ir : Ir.Ty
deriving Inhabited

/-- A template with type arguments, whose body is to be generated. -/
structure TemplateInstance where
  symbol : String
  bindings : List (String × Ty)
  body : Stmt

/-- A change to a block under construction. -/
inductive Edit where
  /-- An instruction is added at the end of a block. -/
  | push (block : Nat) (i : Ir.Instr)
  /-- An open block gets its terminator. -/
  | close (block : Nat) (t : Ir.Terminator)
deriving DecidableEq, Repr, Inhabited

/-- The block that a change concerns. -/
def Edit.block : Edit → Nat
  | push b _ | close b _ => b

def Edit.isClose : Edit → Bool
  | close .. => true
  | push .. => false

/-- A loop or switch around a point of a function. -/
structure Loop where
  breakTo : Nat
  /-- Where `continue` goes; a switch has no such place. -/
  continueTo? : Option Nat
  /-- The number of try statements around the loop. -/
  tryDepth : Nat
deriving Repr, Inhabited

/-- What surrounds a point of a function. -/
structure Site where
  /-- The locals, the innermost scope first. -/
  scopes : List (Table Location)
  /-- Loops and switches, the innermost first. -/
  loops : List Loop

/-- A try statement, by what runs when it is left and by what surrounds it. -/
structure Try where
  finally? : Option Block
  site : Site

/-- The code of the final block of a try statement, generated where control gets out of the
statement: after it or, if `inlined`, before control leaves it for good. -/
structure Copy where
  source : Try
  site : Site
  inlined : Bool

/-- A statement that code is generated for, with the final blocks of the try statements around it, the
innermost first; a try statement may have none. -/
structure Visit where
  stmt : Stmt
  tries : List (Option Block)

/-- An instance that has been asked for. -/
structure Request where
  template : String
  /-- Template and type arguments as text. -/
  key : String
  symbol : String
deriving DecidableEq, Repr, Inhabited

/-- What has been generated so far. -/
structure GenState where
  module : Ir.Module := { name := "main" }
  errors : List GenError := []
  globals : Table Location := {}
  /-- The globals whose first value is computed when the program starts. -/
  computed : List String := []
  functions : Table Signature := {}
  layouts : Table Layout := {}
  /-- All instances asked for, the oldest first. -/
  requests : List Request := []
  /-- All instances whose body was queued, the oldest first. -/
  queue : List TemplateInstance := []
  /-- How many of them have been generated. -/
  lowered : Nat := 0
  lambdas : Nat := 0
  /-- Whether there is a function that computes globals. -/
  hasInit : Bool := false
  /-- For each function of the module, what was done to its blocks, the latest first. -/
  edits : List (List Edit) := []
  /-- Where the final blocks of try statements were generated. -/
  copies : List Copy := []
  /-- The statements that code was generated for, the oldest first. -/
  visits : List Visit := []
deriving Inhabited

/-- Steps of code generation outside of functions. -/
abbrev Gen := StateM GenState

namespace Gen

def report (cause : GenError.Cause) (span : Span) : Gen Unit :=
  modify fun s => { s with errors := s.errors ++ [⟨cause, some span⟩] }

def internal (problem : String) : Gen Unit :=
  modify fun s => { s with errors := s.errors ++ [⟨.internal problem, none⟩] }

/-- Whether the limit on nesting has been met. -/
def exhausted : Gen Bool := return (← get).errors.any (·.cause == .unbounded)

/-- Records that the limit on nesting is met. -/
def exhaust : Gen Unit := do
  if !(← exhausted) then
    modify fun s => { s with errors := s.errors ++ [⟨.unbounded, none⟩] }

def modifyModule (f : Ir.Module → Ir.Module) : Gen Unit :=
  modify fun s => { s with module := f s.module }

/-- The name of the global that holds a string. -/
def addString (bytes : List UInt8) : Gen String := do
  let (name, m) := (← get).module.addString bytes
  modifyModule fun _ => m
  return name

def declare (name : String) (ret : Ir.Ty) (params : List Ir.Ty) (variadic : Bool) : Gen Unit :=
  modifyModule (·.declare { name, ret, params, variadic })

def recordCopy (k : Copy) : Gen Unit := modify fun s => { s with copies := s.copies ++ [k] }

def recordVisit (v : Visit) : Gen Unit := modify fun s => { s with visits := s.visits ++ [v] }

def setFunction (symbol : String) (sig : Signature) : Gen Unit :=
  modify fun s => { s with functions := s.functions.insert symbol sig }

def function? (symbol : String) : Gen (Option Signature) := return (← get).functions.find? symbol

def layout? (cls : String) : Gen (Option Layout) := return (← get).layouts.find? cls

def hasLayout (cls : String) : Gen Bool := return (← get).layouts.contains cls

def method? (cls method : String) : Gen (Option MethodEntry) :=
  return (← layout? cls).bind (·.methods.find? method)

/-- Where a global is stored. -/
def global? (name : String) : Gen (Option Location) := return (← get).globals.find? name

/-- Whether there is a function that computes globals. -/
def hasInit : Gen Bool := return (← get).hasInit

end Gen

end ClassLang
