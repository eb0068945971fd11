import ClassLang.Gen.Instance

/-!
# The function under construction

Code is added at a cursor, which stands at the end of the newest block of a function. Blocks before
the newest one are not touched again, except that stack slots go to the top of the entry block. What
encloses the point in the source (class, loops, try statements) is passed down in an environment, so
it is the same after a statement as before it.
-/

namespace ClassLang

/-- A function under construction. -/
structure Cursor where
  /-- Name, parameters and result; the blocks are kept apart. -/
  header : Ir.Function
  /-- The stack slots so far. -/
  slots : List Ir.Instr := []
  /-- The blocks before the current one. -/
  before : List Ir.Block := []
  /-- The block that code is added to. -/
  current : Ir.Block := { id := 0, label? := some "entry" }
  nextRegister : Nat
  nextBlock : Nat := 1
  /-- The locals, the innermost scope first. -/
  scopes : List (Table Location) := [{}]
  /-- What was done to the blocks so far, the latest first. -/
  edits : List Edit := []
deriving Inhabited

namespace Cursor

/-- The blocks with stack slots at the top of the first of them. -/
def withSlots (slots : List Ir.Instr) : List Ir.Block → List Ir.Block
  | [] => []
  | b :: bs => { b with instrs := slots ++ b.instrs } :: bs

/-- How control leaves a function that does not say so: with a zero, if it gives a result. -/
def defaultReturn (ret : Ir.Ty) : Ir.Terminator :=
  if ret.isVoid then .ret none else .ret (some (.zero ret))

/-- The blocks in the order in which they were started. -/
def blocks (c : Cursor) : List Ir.Block := c.before ++ [c.current]

/-- The finished function. A block that is still open is never reached. -/
def finish (c : Cursor) : Ir.Function :=
  let blocks := c.blocks.map (·.terminate .unreachable)
  { c.header with blocks := withSlots c.slots blocks, slots := c.slots.length }

/-- Adds an instruction at the end of the current block. -/
def push (c : Cursor) (i : Ir.Instr) : Cursor :=
  { c with current := c.current.push i, edits := .push c.current.id i :: c.edits }

/-- Ends the current block, unless it is ended already. -/
def terminate (c : Cursor) (t : Ir.Terminator) : Cursor :=
  if c.current.isTerminated then c
  else { c with current := c.current.terminate t, edits := .close c.current.id t :: c.edits }

/-- The storage of a local. -/
def local? (c : Cursor) (name : String) : Option Location := c.scopes.findSome? (·.find? name)

end Cursor

/-- What encloses the point at hand. -/
structure Env where
  catalog : Catalog
  /-- The types of the type parameters in scope. -/
  bindings : List (String × Ty) := []
  /-- The object of a method, with its class. -/
  this? : Option (Ir.Value × String) := none
  ret : Ir.Ty := .void
  /-- Whether the function is the program's entry, which returns zero. -/
  isMain : Bool := false
  /-- Loops and switches, the innermost first. -/
  loops : List Loop := []
  /-- Try statements, the innermost first. -/
  tries : List Try := []

namespace Env

def typing (env : Env) : Gen.Typing := Gen.typing env.catalog env.bindings

/-- Where `continue` goes, with the number of try statements around that loop. -/
def continueTarget? (env : Env) : Option (Nat × Nat) :=
  env.loops.findSome? fun l => l.continueTo?.map fun b => (b, l.tryDepth)

/-- The environment inside a loop. -/
def inLoop (env : Env) (breakTo continueTo : Nat) : Env :=
  { env with loops := ⟨breakTo, some continueTo, env.tries.length⟩ :: env.loops }

/-- The environment inside a switch. -/
def inSwitch (env : Env) (breakTo : Nat) : Env :=
  { env with loops := ⟨breakTo, none, env.tries.length⟩ :: env.loops }

/-- The environment inside a try statement. -/
def inTry (env : Env) (t : Try) : Env := { env with tries := t :: env.tries }

/-- The final blocks of the try statements, where they have one. -/
def finals (env : Env) : List (Option Block) := env.tries.map Try.finally?

end Env

/-- A value with its source type. -/
structure Operand where
  value : Ir.Value
  ty : Ty
deriving Inhabited

namespace Operand

/-- Stands for the value of an expression that was reported. -/
def undefined : Operand := ⟨.undefined .i32, .unknown⟩

/-- Stands for the result of a call without one. -/
def void : Operand := ⟨.undefined .void, .void⟩

def ir (o : Operand) : Ir.Ty := o.value.ty

end Operand

/-- Steps of code generation inside a function. -/
abbrev Lower := StateT Cursor Gen

namespace Lower

/-- Ways to put the code of a function together. -/
class Emitter (m : Type → Type) where
  freshRegister : Ir.Ty → m Ir.Register
  freshBlock : m Nat
  /-- Adds a block and goes to its beginning. -/
  startBlock : (id : Nat) → (label : String) → m Unit
  emit : Ir.Instr → m Unit
  /-- Ends the current block, unless it is ended already. -/
  terminate : Ir.Terminator → m Unit
  isTerminated : m Bool
  currentBlock : m Nat
  /-- Adds a stack slot. -/
  addSlot : Ir.Instr → m Unit
  /-- Names the routine that unwinds the stack. -/
  setPersonality : String → m Unit
  pushScope : m Unit
  popScope : m Unit
  /-- Binds a name in the innermost scope. -/
  bind : String → Location → m Unit
  /-- The storage of a name: that of the innermost local, or else that of a global. -/
  lookup : String → m (Option Location)

export Emitter (freshRegister freshBlock startBlock emit terminate isTerminated currentBlock addSlot
  setPersonality pushScope popScope bind lookup)

instance : Emitter Lower where
  freshRegister ty := do
    let c ← get
    set { c with nextRegister := c.nextRegister + 1 }
    return ⟨c.nextRegister, ty⟩
  freshBlock := do
    let c ← get
    set { c with nextBlock := c.nextBlock + 1 }
    return c.nextBlock
  startBlock id label := modify fun c =>
    { c with before := c.before ++ [c.current], current := { id, label? := some label } }
  emit i := modify (·.push i)
  terminate t := modify (·.terminate t)
  isTerminated := return (← get).current.isTerminated
  currentBlock := return (← get).current.id
  addSlot i := modify fun c => { c with slots := c.slots ++ [i] }
  setPersonality name := modify fun c => { c with header := { c.header with personality? := some name } }
  pushScope := modify fun c => { c with scopes := {} :: c.scopes }
  popScope := modify fun c => { c with scopes := c.scopes.tail }
  bind name l := modify fun c =>
    { c with
      scopes := match c.scopes with
        | [] => []
        | scope :: outer => scope.insert name l :: outer }
  lookup name := do
    let c ← get
    let g ← getThe GenState
    return c.local? name <|> g.globals.find? name

theorem bind_eq_modify (name : String) (l : Location) :
    (bind name l : Lower Unit) =
      modify fun c => { c with scopes := c.scopes.modifyHead (·.insert name l) } := by
  show (modify _ : Lower Unit) = _
  congr
  funext c
  cases c.scopes <;> rfl

section

variable {m : Type → Type} [Monad m] [MonadLiftT Gen m] [Emitter m]

/-! ## Blocks -/

def freshBlocks : (count : Nat) → m (List Nat)
  | 0 => return []
  | count + 1 => do
    let b ← freshBlock
    return b :: (← freshBlocks count)

def jump (target : Nat) : m Unit := terminate (.jump target)

def branch (condition : Ir.Value) (ifTrue ifFalse : Nat) : m Unit :=
  terminate (.branch condition ifTrue ifFalse)

/-- The comment that marks a position, if positions are recorded and text stands behind it. -/
def marker? (file? : Option String) (span : Span) : Option Ir.Instr :=
  if file?.isSome && 0 < span.line then some (.comment span.position) else none

/-- Marks the position of a statement. -/
def mark (env : Env) (span : Span) : m Unit :=
  match marker? env.catalog.file? span with
  | some i => emit i
  | none => return

/-! ## Instructions -/

/-- A new stack slot. -/
def alloca (ty : Ir.Ty) : m Ir.Value := do
  let dest ← freshRegister .ptr
  addSlot (.alloca dest ty)
  return .reg dest

def load (ptr : Ir.Value) (ty : Ir.Ty) : m Ir.Value := do
  let dest ← freshRegister ty
  emit (.load dest ptr)
  return .reg dest

def store (value ptr : Ir.Value) : m Unit := emit (.store value ptr)

def binary (op : Ir.BinaryOp) (left right : Ir.Value) : m Ir.Value := do
  let dest ← freshRegister left.ty
  emit (.binary dest op left right)
  return .reg dest

def compare (op : Ir.CompareOp) (left right : Ir.Value) : m Ir.Value := do
  let dest ← freshRegister .i1
  emit (.compare dest op left right)
  return .reg dest

def cast (op : Ir.CastOp) (value : Ir.Value) (target : Ir.Ty) : m Ir.Value := do
  let dest ← freshRegister target
  emit (.cast dest op value)
  return .reg dest

def element (base : Ir.Ty) (ptr : Ir.Value) (indices : List Ir.Value) : m Ir.Value := do
  let dest ← freshRegister .ptr
  emit (.element dest base ptr indices)
  return .reg dest

def phi (ty : Ir.Ty) (incoming : List (Ir.Value × Nat)) : m Ir.Value := do
  let dest ← freshRegister ty
  emit (.phi dest incoming)
  return .reg dest

/-- A call, whose value is not defined if the function gives none. -/
def call (ret : Ir.Ty) (callee : Ir.Callee) (args : List Ir.Value) (fixed? : Option (List Ir.Ty)) :
    m Ir.Value := do
  if ret.isVoid then
    emit (.call none ret callee args fixed?)
    return .undefined .void
  else
    let dest ← freshRegister ret
    emit (.call (some dest) ret callee args fixed?)
    return .reg dest

/-- Declares an outside function and calls it. -/
def callOutside (name : String) (ret : Ir.Ty) (params : List Ir.Ty) (args : List Ir.Value) :
    m Ir.Value := do
  Gen.declare name ret params false
  call ret (.function name) args none

/-- A stack slot with a value in it, under a name. -/
def bindValue (name : String) (ty : Ty) (ir : Ir.Ty) (value : Ir.Value) : m Location := do
  let ptr ← alloca ir
  store value ptr
  bind name ⟨ptr, ty, ir⟩
  return ⟨ptr, ty, ir⟩

/-- Code in a scope of its own. -/
def inScope (act : m Unit) : m Unit := do
  pushScope
  act
  popScope

/-- The value stored at a location. -/
def loadFrom (l : Location) : m Operand := return ⟨← load l.ptr l.ir, l.ty⟩

end

/-- What surrounds the point at hand. -/
def site (env : Env) : Lower Site := return ⟨(← get).scopes, env.loops⟩

/-- Records that code is generated for a statement. -/
def visit (env : Env) (s : Stmt) : Lower Unit := Gen.recordVisit ⟨s, env.finals⟩

/-! ## Whole functions -/

/-- The function that computes globals when the program starts. -/
def initName : String := "__gominus_init"

/-- Name, parameters and result of a function to generate. -/
structure Head where
  symbol : String
  params : List (String × Ty) := []
  ret : Ir.Ty
  span : Span := {}
  /-- The class of the object, for a method. -/
  class? : Option String := none

namespace Head

/-- The head of a declared function. A parameter without a type in the signature is unknown. -/
def ofSignature (symbol : String) (params : List Param) (sig : Signature) (span : Span)
    (class? : Option String) : Head :=
  let types := params.zipIdx.map fun (p, i) => (p.name.name, (sig.params[i]?).getD .unknown)
  let isMain := symbol == "main" && class?.isNone
  { symbol, params := types, ret := if isMain then .i32 else .ofTy sig.ret, span, class? }

def isMain (h : Head) : Bool := h.symbol == "main" && h.class?.isNone

/-- The register of the object: the first one. -/
def thisRegister : Ir.Register := ⟨0, .ptr⟩

/-- The registers of the parameters, after that of the object. -/
def registers (h : Head) : List Ir.Register :=
  let first := if h.class?.isSome then 1 else 0
  h.params.zipIdx.map fun ((_, ty), i) => ⟨first + i, storageOf ty⟩

def cursor (h : Head) (file? : Option String) : Cursor :=
  let params := (if h.class?.isSome then [thisRegister] else []) ++ h.registers
  let span := if file?.isSome then h.span else {}
  { header := { name := h.symbol, params, ret := h.ret, file?, span }
    nextRegister := params.length }

/-- The environment of the function's body. -/
def env (h : Head) (outer : Env) : Env :=
  { catalog := outer.catalog
    bindings := outer.bindings
    this? := h.class?.map fun c => (.reg thisRegister, c)
    ret := h.ret
    isMain := h.isMain }

end Head

section

variable {m : Type → Type} [Monad m] [MonadLiftT Gen m] [Emitter m]

/-- Calls the function that computes globals, if there is one. -/
def callInit : m Unit := do
  if ← Gen.hasInit then
    let _ ← call .void (.function initName) [] none

/-- Stores each parameter in a slot of its own. -/
def bindParams (h : Head) : m Unit :=
  (h.params.zip h.registers).forM fun ((name, ty), r) => do
    let _ ← bindValue name ty r.ty (.reg r)

/-- Binds the name that a method gives to its object. -/
def bindReceiver (env : Env) (receiver? : Option String) : m Unit := do
  match receiver?, env.this? with
  | some name, some (this, cls) =>
    let _ ← bindValue name (.class_ cls) .ptr this
  | _, _ => return

end

/-- The code of a function. Where its body does not end the last block, the function returns. -/
def whole (outer : Env) (h : Head) (body : Env → Lower Unit) : Lower Unit := do
  bindParams h
  body (h.env outer)
  terminate (Cursor.defaultReturn h.ret)

/-- Generates a function and adds it to the module. The function that was under construction is not
touched. -/
def function (outer : Env) (h : Head) (body : Env → Lower Unit) : Gen Unit := do
  let (_, c) ← (whole outer h body).run (h.cursor outer.catalog.file?)
  modify fun s =>
    { s with module := s.module.addFunction c.finish, edits := s.edits ++ [c.edits] }

end Lower

end ClassLang
