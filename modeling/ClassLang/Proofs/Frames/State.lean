import ClassLang.Gen.Program

/-!
# Frames

Generation passes down what encloses the point at hand, and its cursor always stands in a block of a
function. Here all of this is kept in a state instead, the frame: a function that may be missing, the
number of a block that may be missing from it, and stacks of scopes, of loops and of try statements.
A step that does not find what it works on is an internal error.
-/

namespace ClassLang

/-- What is known of the function under construction. -/
structure Frame where
  catalog : Catalog
  /-- The types of the type parameters in scope. -/
  bindings : List (String × Ty) := []
  /-- Between two functions there is none. -/
  function? : Option Ir.Function := none
  /-- The number of the block that code is added to. -/
  block : Nat := 0
  nextRegister : Nat := 0
  nextBlock : Nat := 0
  /-- The locals, the innermost scope first. -/
  scopes : List (Table Location) := []
  /-- Loops and switches, the innermost first. -/
  loops : List Loop := []
  /-- Try statements, the outermost first. -/
  exceptions : List Try := []
  ret : Ir.Ty := .void
  /-- The object of a method, with its class. -/
  this? : Option (Ir.Value × String) := none
  /-- Whether the function is the program's entry, which returns zero. -/
  isMain : Bool := false
  /-- What was done to the blocks so far, the latest first. -/
  edits : List Edit := []

namespace Frame

/-- The frame between two functions. -/
def idle (catalog : Catalog) (bindings : List (String × Ty)) : Frame := { catalog, bindings }

/-- The block that code is added to. -/
def current? (f : Frame) : Option Ir.Block := f.function?.bind (·.block? f.block)

/-- Whether this block is ended. -/
def ended (f : Frame) : Bool := f.current?.any (·.isTerminated)

/-- Changes the block that code is added to. -/
def edit (f : Frame) (g : Ir.Block → Ir.Block) (e : Edit) : Frame :=
  { f with function? := f.function?.map (·.modifyBlock f.block g), edits := e :: f.edits }

/-- How a block ends that is open when the function is done. The block at hand returns, and any other one
is never reached. -/
def ending (f : Frame) (ret : Ir.Ty) (b : Ir.Block) : Ir.Terminator :=
  if b.id == f.block then Cursor.defaultReturn ret else .unreachable

/-- A function without open blocks. -/
def sealed (f : Frame) (function : Ir.Function) : Ir.Function :=
  { function with blocks := function.blocks.map fun b => b.terminate (f.ending function.ret b) }

/-- What is done to open blocks, the latest first. -/
def sealing (f : Frame) (function : Ir.Function) : List Edit :=
  ((function.blocks.filter (!·.isTerminated)).map fun b =>
    .close b.id (f.ending function.ret b)).reverse

/-- What encloses the point at hand. -/
def env (f : Frame) : Env where
  catalog := f.catalog
  bindings := f.bindings
  this? := f.this?
  ret := f.ret
  isMain := f.isMain
  loops := f.loops
  tries := f.exceptions.reverse

end Frame

/-- Steps of a generator that keeps a frame. -/
abbrev Framed := StateT Frame Gen

namespace Framed

open Lower (Emitter Head freshRegister bindParams)

/-- Works on the function, if there is one. -/
def onFunction (problem : String) (change : Frame → Ir.Function → Frame) : Framed Unit := do
  let f ← get
  match f.function? with
  | some function => set (change f function)
  | none => Gen.internal problem

/-- Works on the block that code is added to, if there is one. -/
def onBlock (change : Frame → Ir.Block → Frame) : Framed Unit := do
  let f ← get
  match f.current? with
  | some b => set (change f b)
  | none => Gen.internal "no current block"

/-- Works on the innermost scope, if there is one. -/
def onScope (change : Table Location → Table Location) : Framed Unit := do
  let f ← get
  match f.scopes with
  | scope :: outer => set { f with scopes := change scope :: outer }
  | [] => Gen.internal "no open scope"

instance : Emitter Framed where
  freshRegister ty := do
    let f ← get
    set { f with nextRegister := f.nextRegister + 1 }
    return ⟨f.nextRegister, ty⟩
  freshBlock := do
    let f ← get
    set { f with nextBlock := f.nextBlock + 1 }
    return f.nextBlock
  startBlock id label := onFunction "no current function" fun f function =>
    { f with
      function? := some (function.addBlock { id, label? := some label })
      block := id }
  emit i := onBlock fun f _ => f.edit (·.push i) (.push f.block i)
  terminate t := onBlock fun f b =>
    if b.isTerminated then f else f.edit (·.terminate t) (.close f.block t)
  isTerminated := return (← get).ended
  currentBlock := return (← get).block
  addSlot i := onFunction "alloca outside a function" fun f function =>
    { f with function? := some (function.insertSlot i) }
  setPersonality name := onFunction "try outside a function" fun f function =>
    { f with function? := some { function with personality? := some name } }
  pushScope := modify fun f => { f with scopes := {} :: f.scopes }
  popScope := modify fun f => { f with scopes := f.scopes.tail }
  bind name l := onScope (·.insert name l)
  lookup name := do
    let f ← get
    let g ← getThe GenState
    return f.scopes.findSome? (·.find? name) <|> g.globals.find? name

theorem run_onFunction (problem : String) (change : Frame → Ir.Function → Frame) (f : Frame)
    (g : GenState) : ((onFunction problem change).run f).run g =
      ((match f.function? with
        | some function => set (change f function)
        | none => Gen.internal problem : Framed Unit).run f).run g :=
  rfl

theorem run_onBlock (change : Frame → Ir.Block → Frame) (f : Frame) (g : GenState) :
    ((onBlock change).run f).run g =
      ((match f.current? with
        | some b => set (change f b)
        | none => Gen.internal "no current block" : Framed Unit).run f).run g :=
  rfl

theorem run_onScope (change : Table Location → Table Location) (f : Frame) (g : GenState) :
    ((onScope change).run f).run g =
      ((match f.scopes with
        | scope :: outer => set { f with scopes := change scope :: outer }
        | [] => Gen.internal "no open scope" : Framed Unit).run f).run g :=
  rfl

/-! ## Surroundings -/

def env : Framed Env := return (← get).env

def exceptions : Framed (List Try) := return (← get).exceptions

theorem run_exceptions_bind {α : Type} (k : List Try → Framed α) (f : Frame) (g : GenState) :
    ((exceptions >>= k).run f).run g = ((k f.exceptions).run f).run g :=
  rfl

/-- What surrounds the point at hand. -/
def site : Framed Site := return ⟨(← get).scopes, (← get).loops⟩

/-- Records that code is generated for a statement. -/
def visit (s : Stmt) : Framed Unit := do Gen.recordVisit ⟨s, (← env).finals⟩

def pushLoop (l : Loop) : Framed Unit := modify fun f => { f with loops := l :: f.loops }

def popLoop : Framed Unit := modify fun f => { f with loops := f.loops.tail }

def pushTry (t : Try) : Framed Unit := modify fun f => { f with exceptions := f.exceptions ++ [t] }

def popTry : Framed Unit := modify fun f => { f with exceptions := f.exceptions.dropLast }

/-- Takes the try statements from number `level` on off the stack. -/
def splitOff (level : Nat) : Framed (List Try) := do
  let f ← get
  set { f with exceptions := f.exceptions.take level }
  return f.exceptions.drop level

theorem run_splitOff {f : Frame} {outer inner : List Try} (h : f.exceptions = outer ++ inner)
    (g : GenState) : ((splitOff outer.length).run f).run g =
      ((inner, { f with exceptions := outer }), g) := by
  show ((f.exceptions.drop _, { f with exceptions := f.exceptions.take _ }), g) = _
  rw [h, List.drop_left, List.take_left]

/-- Puts try statements on top of the stack. -/
def extend (inner : List Try) : Framed Unit :=
  modify fun f => { f with exceptions := f.exceptions ++ inner }

/-! ## Whole functions -/

/-- Begins a function: with nothing but an empty entry block, and its parameters in slots. -/
def begin (h : Head) : Framed Unit := do
  modify fun f =>
    let header := (h.cursor f.catalog.file?).header
    { catalog := f.catalog
      bindings := f.bindings
      function? := some (header.addBlock { id := header.entry, label? := some "entry" })
      block := header.entry
      nextRegister := header.params.length
      nextBlock := header.entry + 1
      scopes := [{}]
      ret := h.ret
      this? := h.class?.map fun c => (.reg Head.thisRegister, c)
      isMain := h.isMain }
  bindParams h

/-- Ends a function and adds it to the module. -/
def finish : Framed Unit := do
  let f ← get
  match f.function? with
  | none => Gen.internal "no current function to finish"
  | some function =>
    modifyThe GenState fun s =>
      { s with
        module := s.module.addFunction (f.sealed function)
        edits := s.edits ++ [f.sealing function ++ f.edits] }
    set (Frame.idle f.catalog f.bindings)

def function (h : Head) (body : Framed Unit) : Framed Unit := do
  begin h
  body
  finish

/-- Generates something apart from the function under construction, which is not touched. -/
def nested (bindings : List (String × Ty)) (act : Framed Unit) : Framed Unit := do
  let saved ← get
  set (Frame.idle saved.catalog bindings)
  act
  set saved

end Framed

end ClassLang
