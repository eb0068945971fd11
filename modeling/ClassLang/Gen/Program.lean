import ClassLang.Gen.Body

/-!
# Whole programs

The declarations of a program come first: signatures, globals and layouts. Then the statements that
run when the program starts are gathered in a function of their own, and after it come the declared
functions, the methods, and the instances of templates as they are asked for. A program without an
entry gets one.
-/

namespace ClassLang

namespace Gen

open Ir (Value)

/-! ## Declarations -/

/-- The signature that analysis found for a function, if it is one for as many parameters. -/
def analyzedSignature? (scopes : ScopeTree) (f : Function) : Option Signature :=
  (scopes.global? f.name.name).bind fun s =>
    if s.kind == .function && 0 < s.span.line then
      s.signature?.filter fun sig => sig.params.length == f.params.length
    else none

/-- The value of a global that is known before the program starts. -/
def constantValue (ir : Ir.Ty) : Expr → Gen (Option Value)
  | .int v _ =>
    return if ir.isInteger then some (.int v ir)
      else if ir.isFloat then some (.float (.ofInt v) ir)
      else none
  | .float v _ => return if ir.isFloat then some (.float v ir) else none
  | .bool v _ => return if ir = .i1 then some (.bool v) else none
  | .char body _ =>
    return if ir.isInteger then some (.int (Literal.charCode body.toList) ir) else none
  | .string body _ => do
    if ir = .ptr then return some (.global (← addString (Literal.bytes body.toList)))
    else return none
  | .null _ => return if ir = .ptr then some .null else none
  | .prefixed .negate right _ => do
    match ← constantValue ir right with
    | some (.int v t) => return some (.int (Lower.negate64 v) t)
    | some (.float v t) => return some (.float v.neg t)
    | _ => return none
  | _ => return none

/-- The type of a global: the written one, that of a literal, or the one that analysis found. -/
def globalType (env : Env) (name : String) (type? : Option TypeExpr) (value? : Option Expr) :
    Gen Ty :=
  match type? with
  | some t => resolveType env.typing t
  | none =>
    let found? := (env.catalog.scopes.global? name).map Symbol.ty
    let known? := found?.filter fun ty => !ty.isUnknown
    return (value?.bind Ty.ofLiteral? <|> known?).getD .unknown

/-- Declares a global, with its first value if that is known. -/
def declareGlobal (env : Env) (name : String) (type? : Option TypeExpr) (value? : Option Expr) :
    Gen Unit := do
  let ty ← globalType env name type? value?
  let ir := storageOf ty
  let init ← match value? with
    | none => pure (.zero ir)
    | some value => do
      match ← constantValue ir value with
      | some v => pure v
      | none => do
        modify fun s => { s with computed := s.computed ++ [name] }
        pure (.zero ir)
  modifyModule (·.addGlobal (.variable_ name ir init))
  modify fun s => { s with globals := s.globals.insert name ⟨.global name, ty, ir⟩ }

/-- Declares what a statement of the top level declares. -/
def declareStmt (env : Env) : Stmt → Gen Unit
  | .function f => do
    let sig ← match analyzedSignature? env.catalog.scopes f with
      | some sig => pure sig
      | none => writtenSignature env.typing f.params f.ret?
    setFunction f.name.name sig
  | .var name type? value? _ => declareGlobal env name.name type? value?
  | .const name type? value _ => declareGlobal env name.name type? (some value)
  | _ => return

/-! ## The start of the program -/

/-- Whether a statement of the top level runs when the program starts. -/
def runsAtStart (computed : List String) : Stmt → Bool
  | .var name _ _ _ => computed.contains name.name
  | .const name _ _ _ => computed.contains name.name
  | s => !s.isDeclaration

/-- Computes and stores a global. -/
def storeGlobal (detour : Lower.Detour) (env : Env) (name : Ident) (value : Expr) (span : Span) :
    Lower Unit := do
  Lower.mark env span
  let o ← Lower.expr detour env value
  match ← global? name.name with
  | some l =>
    let _ ← Lower.assign l o.value
  | none => return

def startStmt (detour : Lower.Detour) (env : Env) : Stmt → Lower Unit
  | .var name _ (some value) span => storeGlobal detour env name value span
  | .var _ _ none _ => return
  | .const name _ value span => storeGlobal detour env name value span
  | s => Lower.stmt detour env s

/-- Statements up to the first one that ends the block. -/
def startStmts (detour : Lower.Detour) (env : Env) : List Stmt → Lower Unit
  | [] => return
  | s :: ss => do
    Lower.visit env s
    startStmt detour env s
    if !(← Lower.isTerminated) then startStmts detour env ss

/-- Generates the function that runs when the program starts, if there is anything to run. -/
def generateStart (detour : Lower.Detour) (env : Env) (p : Program) : Gen Unit := do
  let computed := (← get).computed
  match p.stmts.filter (runsAtStart computed) with
  | [] => return
  | stmts =>
    Lower.function env { symbol := Lower.initName, ret := .void, span := p.span } fun inner =>
      startStmts detour inner stmts
    modify fun s => { s with hasInit := true }

/-! ## Functions and methods -/

/-- Generates a function from its declaration. -/
def generateFunction (detour : Lower.Detour) (env : Env) (symbol : String) (params : List Param)
    (sig : Signature) (body : Block) (span : Span) (class? receiver? : Option String) : Gen Unit :=
  Lower.function env (.ofSignature symbol params sig span class?) fun inner =>
    Lower.entry detour inner receiver? body

/-- Generates the methods of a class that has a layout, those declared outside of it too. -/
def generateClass (detour : Lower.Detour) (env : Env) (name : String) (c : Class) : Gen Unit := do
  match ← layout? name with
  | none => return
  | some l =>
    c.methods.forM fun m =>
      match l.methods.find? m.name.name with
      | none => return
      | some entry =>
        generateFunction detour env entry.symbol m.params entry.signature m.body m.span
          (if entry.isStatic then none else some name) none
    (env.catalog.methodsOf c.name.name).forM fun m =>
      match l.methods.find? m.name.name with
      | none => return
      | some entry =>
        generateFunction detour env entry.symbol m.params entry.signature m.body m.span (some name)
          (some m.receiver.name.name)

/-- Generates a method whose receiver is of no class of the program. -/
def generateDetached (detour : Lower.Detour) (env : Env) (m : Method) : Gen Unit := do
  match m.receiverClass? with
  | none => return
  | some cls =>
    if env.catalog.classes.contains cls || env.catalog.templates.contains cls then return
    let sig ← writtenSignature env.typing m.params m.ret?
    let symbol := Layout.methodSymbol cls m.name.name
    setFunction symbol sig
    generateFunction detour env symbol m.params sig m.body m.span (some cls)
      (some m.receiver.name.name)

def generateStmt (detour : Lower.Detour) (env : Env) : Stmt → Gen Unit
  | .function f => do
    let sig ← match ← function? f.name.name with
      | some sig => pure sig
      | none => writtenSignature env.typing f.params f.ret?
    generateFunction detour env f.name.name f.params sig f.body f.span none none
  | .class_ c => generateClass detour env c.name.name c
  | .method m => generateDetached detour env m
  | _ => return

/-! ## Instances -/

def generateInstance (detour : Lower.Detour) (env : Env) (i : TemplateInstance) : Gen Unit := do
  let inner := { env with bindings := i.bindings }
  match i.body with
  | .function f =>
    match ← function? i.symbol with
    | some sig => generateFunction detour inner i.symbol f.params sig f.body f.span none none
    | none => internal "template instance without a signature"
  | .class_ c => generateClass detour inner i.symbol c
  | _ => return

/-- Generates the instances that wait, and those that are asked for meanwhile, but no more than
`fuel`. -/
def generateInstances (detour : Lower.Detour) (env : Env) : (fuel : Nat) → Gen Unit
  | 0 => do
    if (← get).lowered < (← get).queue.length then exhaust
  | fuel + 1 => do
    let s ← get
    match s.queue[s.lowered]? with
    | none => return
    | some i =>
      set { s with lowered := s.lowered + 1 }
      generateInstance detour env i
      generateInstances detour env fuel

theorem run_generateInstances_succ (detour : Lower.Detour) (env : Env) (fuel : Nat) (g : GenState) :
    (generateInstances detour env (fuel + 1)).run g = (match g.queue[g.lowered]? with
      | none => return
      | some i => do
        set { g with lowered := g.lowered + 1 }
        generateInstance detour env i
        generateInstances detour env fuel : Gen Unit).run g :=
  rfl

/-! ## The entry -/

/-- Adds an entry to a program that has none. -/
def ensureEntry (env : Env) : Gen Unit := do
  if !(← get).module.hasFunction "main" then
    Lower.function env { symbol := "main", ret := .i32 } fun _ => do
      Lower.callInit
      Lower.terminate (.ret (some (.i32 0)))

def succeeded : Gen Bool := return (← get).errors.isEmpty

/-- Declares what a program declares, and lays its classes out. -/
def prepare (catalog : Catalog) (p : Program) : Gen Unit := do
  let env : Env := { catalog }
  p.stmts.forM (declareStmt env)
  catalog.classNames.forM fun name => do
    let _ ← ensureLayout env.typing name

/-- Generates a program. -/
def program (catalog : Catalog) (p : Program) : Gen Unit := do
  let env : Env := { catalog }
  let detour := Lower.detourAt catalog.limit
  prepare catalog p
  generateStart detour env p
  p.stmts.forM (generateStmt detour env)
  generateInstances detour env (catalog.limit * catalog.limit)
  if ← succeeded then ensureEntry env
  if ← succeeded then (← get).module.flaws.forM fun f => internal (Ir.flawText f)

end Gen

namespace GenState

/-- Before anything is generated. -/
def initial (file? : Option String) : GenState := { module := { name := "main", file? } }

/-- When everything is declared and the classes are laid out. -/
def prepared (p : Program) (scopes : ScopeTree) (file? : Option String) (limit : Nat := 1000) :
    GenState :=
  ((Gen.prepare (.ofProgram scopes file? p limit) p).run (initial file?)).2

end GenState

/-- Generates code for a program with the symbols of its analysis; with a file name, positions are
recorded. The limit is on how deep instances and initializers nest. -/
def generate (p : Program) (scopes : ScopeTree) (file? : Option String) (limit : Nat := 1000) :
    GenState :=
  ((Gen.program (.ofProgram scopes file? p limit) p).run (.initial file?)).2

namespace GenState

/-- The code as text, if there was no error. -/
def text? (s : GenState) : Option String := if s.errors.isEmpty then some s.module.text else none

end GenState

end ClassLang
