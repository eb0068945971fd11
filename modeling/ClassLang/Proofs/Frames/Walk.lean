import ClassLang.Proofs.Frames.State

/-!
# The generator with frames

The same walk as that of `Lower`, where loops and try statements are put on the stacks of the frame and
taken off again. A final block runs before control leaves its try statement for good; meanwhile this
statement and those inside of it are off the stack.
-/

namespace ClassLang

namespace Framed

open Ir (Value)
open Lower (Head integer freshLambda badTarget declaredType declareInner freshBlock freshBlocks
  startBlock emit terminate jump branch mark inScope arm arm? freshBlockIf condition
  perhaps loopTest)

/-! ## Control flow -/

/-- The ways to code that does not stand below the point at hand. -/
structure Detour where
  expr : Expr → Framed Operand
  block : Block → Framed Unit

/-- Runs the final block of try statement number `level`. -/
def runFinal (detour : Detour) (t : Try) (level : Nat) (body : Block) : Framed Unit := do
  Gen.recordCopy ⟨t, ← site, true⟩
  let inner ← splitOff level
  detour.block body
  extend inner

/-- Runs the final blocks of the try statements below number `level`, the innermost first, down to those
from number `depth` on, until one of them ends the block of code. -/
def runFinally (detour : Detour) (depth : Nat) : (level : Nat) → Framed Unit
  | 0 => return
  | level + 1 => do
    if depth ≤ level then
      match (← exceptions)[level]? with
      | none => return
      | some t =>
        match t.finally? with
        | none => runFinally detour depth level
        | some body =>
          runFinal detour t level body
          if !(← Lower.isTerminated) then runFinally detour depth level

/-- Leaves the try statements inside of the outermost `depth`. -/
def leaveTries (detour : Detour) (depth : Nat) : Framed Unit := do
  runFinally detour depth (← exceptions).length

def leaveFunction (detour : Detour) (value? : Option Operand) : Framed Unit := do
  let result ← Lower.returnValue (← env) value?
  leaveTries detour 0
  terminate (.ret result)

def leaveLoop (detour : Detour) (span : Span) : Framed Unit := do
  match (← env).loops with
  | [] => Gen.report (.outsideLoop "break") span
  | l :: _ =>
    leaveTries detour l.tryDepth
    jump l.breakTo

def continueLoop (detour : Detour) (span : Span) : Framed Unit := do
  match (← env).continueTarget? with
  | none => Gen.report (.outsideLoop "continue") span
  | some (block, depth) =>
    leaveTries detour depth
    jump block

def whileLoop (test : Framed Operand) (body : Framed Unit) : Framed Unit := do
  let header ← freshBlock
  let bodyBlock ← freshBlock
  let exit ← freshBlock
  jump header
  startBlock header "while.header"
  let c ← condition test
  branch c bodyBlock exit
  pushLoop ⟨exit, some header, (← exceptions).length⟩
  arm bodyBlock "while.body" header body
  popLoop
  startBlock exit "while.exit"

def forLoop (init? : Option (Framed Unit)) (test? : Option (Framed Operand))
    (post? : Option (Framed Unit)) (body : Framed Unit) : Framed Unit :=
  inScope do
    perhaps init?
    let test ← freshBlock
    let bodyBlock ← freshBlock
    let post ← freshBlock
    let exit ← freshBlock
    jump test
    startBlock test "for.cond"
    loopTest bodyBlock exit test?
    pushLoop ⟨exit, some post, (← exceptions).length⟩
    arm bodyBlock "for.body" post body
    popLoop
    arm post "for.post" test (perhaps post?)
    startBlock exit "for.exit"

/-- A switch of `count` cases. The tests come first and then the bodies, each of which has a block of
its own. -/
def switch (tag? : Framed (Option Operand)) (count : Nat)
    (tests : Option Operand → List Nat → Framed Unit) (bodies : Nat → List Nat → Framed Unit)
    (default? : Option (Framed Unit)) : Framed Unit := do
  let tag? ← tag?
  let exit ← freshBlock
  let blocks ← freshBlocks count
  let other ← freshBlockIf default?.isSome exit
  tests tag? blocks
  jump other
  pushLoop ⟨exit, none, (← exceptions).length⟩
  bodies exit blocks
  arm? other "switch.default" exit default?
  popLoop
  startBlock exit "switch.exit"

/-- The final block of a try statement, where control gets out of the statement without leaving it
for good. -/
def fallThrough (t : Try) (final : Framed Unit) : Framed Unit := do
  Gen.recordCopy ⟨t, ← site, false⟩
  final

/-- A try statement of `count` catch clauses. It is on the stack in its body and in the clauses, but not in
its final block. -/
def tryCatch (finally? : Option Block) (body : Framed Unit) (count : Nat)
    (clauses : Nat → List Nat → Framed Unit) (final? : Option (Framed Unit)) : Framed Unit := do
  Lower.usePersonality
  let t : Try := ⟨finally?, ← site⟩
  let bodyBlock ← freshBlock
  let landing ← freshBlock
  let handlers ← freshBlocks count
  let finalBlock? ← if final?.isSome then some <$> freshBlock else pure none
  let resume ← freshBlock
  let done ← freshBlock
  let exit := finalBlock?.getD done
  jump bodyBlock
  pushTry t
  arm bodyBlock "try.body" exit body
  startBlock landing "try.landing"
  emit (.comment "exception type dispatch not implemented")
  jump (handlers.head?.getD resume)
  clauses exit handlers
  popTry
  arm? exit "try.finally" done (final?.map (fallThrough t))
  startBlock resume "try.resume"
  terminate .unreachable
  startBlock done "try.end"

/-! ## Objects -/

/-- Stores the first values of an object's fields, from struct index `index` on. -/
def initFields (detour : Detour) (cls : String) (object : Value) :
    (index : Nat) → List FieldSlot → Framed Unit
  | _, [] => return
  | index, f :: fs => do
    let v ← match f.default? with
      | some e => do Lower.convert (← detour.expr e).value f.ir
      | none => pure (.zero f.ir)
    let ptr ← Lower.structMember cls object index
    Lower.store v ptr
    initFields detour cls object (index + 1) fs

/-- Makes an object: its fields get their first values, and then its constructor runs. -/
def newObject (detour : Detour) (cls : String) (args : List Operand) (span : Span) :
    Framed Operand := do
  let object ← Lower.allocate cls
  let fields := ((← Gen.layout? cls).map Layout.fields).getD []
  initFields detour cls object 1 fields
  if (← Gen.method? cls "constructor").isSome then
    let _ ← Lower.callMethod object cls "constructor" args false span
  return ⟨object, .class_ cls⟩

/-! ## Trees -/

mutual

/-- The value of an expression. -/
def expr (detour : Detour) : Expr → Framed Operand
  | .ident n => do Lower.nameValue (← env) n
  | .int v _ => return integer v
  | .float v _ => return ⟨.float v .double, .float⟩
  | .string body _ => return ⟨.global (← Gen.addString (Literal.bytes body.toList)), .string⟩
  | .char body _ => return ⟨.i32 (Literal.charCode body.toList), .char⟩
  | .bool v _ => return ⟨.bool v, .bool⟩
  | .null _ => return ⟨.null, .null⟩
  | .prefixed op right _ => do Lower.prefixed op (← expr detour right)
  | .binary op left right _ =>
    if op.isLogical then Lower.logical (op = .and) (expr detour left) (expr detour right)
    else do
      let l ← expr detour left
      let r ← expr detour right
      Lower.infix_ op l r
  | .postfixed op operand _ => do
    match ← location detour operand with
    | some l => Lower.step op l
    | none => return .undefined
  | .assign .define (.ident n) value _ => do
    let v ← expr detour value
    Lower.loadFrom (← Lower.define n.name none (some v))
  | .assign .define target value _ => do
    let v ← expr detour value
    badTarget target
    return v
  | .assign .assign target value _ => do
    let v ← expr detour value
    match ← location detour target with
    | some l => Lower.assign l v.value
    | none => return v
  | .assign (.compound op) target value _ => do
    match ← location detour target with
    | none => return .undefined
    | some l =>
      let current ← Lower.loadFrom l
      let v ← expr detour value
      let result ← Lower.infix_ op current v
      Lower.assign l result.value
  | .call (.ident n) args _ => do
    let callee ← Lower.namedCallee (← env) n.name
    let args ← exprs detour args
    Lower.callNamed (← env) n callee args
  | .call (.member (.super superSpan) property _ _) args _ => do
    let args ← exprs detour args
    Lower.callSuper (← env) property.name args superSpan
  | .call (.member object property _ _) args _ => do
    match ← Lower.qualifier (← env) object with
    | .class_ cls => do
      let args ← exprs detour args
      Lower.callMethod .null cls property.name args false property.span
    | .package package => do
      let args ← exprs detour args
      Lower.callPackage package property.name args
    | .object => do
      let receiver ← expr detour object
      let args ← exprs detour args
      Lower.callMember object property receiver args
  | .call (.super superSpan) args _ => do
    let args ← exprs detour args
    Lower.callSuper (← env) "constructor" args superSpan
  | .call (.templateInstance n typeArgs instanceSpan) args _ => do
    match ← Lower.writtenInstance (← env) n typeArgs with
    | none => return .undefined
    | some symbol =>
      let args ← exprs detour args
      Lower.callSymbol symbol args instanceSpan
  | .call function args _ => do
    let callee ← expr detour function
    let args ← exprs detour args
    Lower.callPointer callee args function.span
  | .index object key _ => do
    let o ← expr detour object
    let k ← expr detour key
    Lower.loadFrom (← Lower.elementLocation o k)
  | .member object property _ _ => do
    match ← Lower.qualifier (← env) object with
    | .package package => do
      Gen.report (.unknownMember package property.name) property.span
      return .undefined
    | _ => do
      let o ← expr detour object
      match ← Lower.memberLocation o property with
      | some l => Lower.loadFrom l
      | none => return .undefined
  | .array elements _ => do Lower.newArray (← exprs detour elements)
  | .hash pairs _ => do Lower.newMap (← entries detour pairs)
  | .lambda params ret? body span => do
    let symbol ← freshLambda
    let sig ← declareInner (← env) symbol params ret?
    nested (← env).bindings
      (function (.ofSignature symbol params sig span none) (entry detour none body))
    return ⟨.global symbol, sig.toTy⟩
  | .new type args span => do
    match ← Lower.newClass (← env) type with
    | none => return .undefined
    | some cls =>
      let args ← exprs detour args
      newObject detour cls args span
  | .this span => do Lower.thisValue (← env) span
  | .super span => do Lower.superValue (← env) span
  | .templateInstance n typeArgs _ => do Lower.instanceValue (← env) n typeArgs

def exprs (detour : Detour) : List Expr → Framed (List Operand)
  | [] => return []
  | e :: es => do
    let o ← expr detour e
    return o :: (← exprs detour es)

def entries (detour : Detour) : List Entry → Framed (List (Operand × Operand))
  | [] => return []
  | ⟨key, value⟩ :: es => do
    let k ← expr detour key
    let v ← expr detour value
    return (k, v) :: (← entries detour es)

/-- The location that an expression stands for; an expression that stands for none is reported. -/
def location (detour : Detour) : Expr → Framed (Option Location)
  | .ident n => do
    match ← Lower.nameLocation (← env) n.name with
    | some l => return some l
    | none =>
      Gen.report (.undefinedVariable n.name) n.span
      return none
  | .member object property _ _ => do
    let o ← expr detour object
    Lower.memberLocation o property
  | .index object key _ => do
    let o ← expr detour object
    let k ← expr detour key
    return some (← Lower.elementLocation o k)
  | e => do
    badTarget e
    return none

/-- The body of a function: the object gets its name, the program's entry computes the globals, and
the block follows. -/
def entry (detour : Detour) (receiver? : Option String) : Block → Framed Unit
  | ⟨body, _⟩ => do
    Lower.bindReceiver (← env) receiver?
    if (← env).isMain then Lower.callInit
    inScope (stmts detour body)

/-- A block in a scope of its own. -/
def block (detour : Detour) : Block → Framed Unit
  | ⟨body, _⟩ => inScope (stmts detour body)

/-- Statements up to the first one that ends the block. -/
def stmts (detour : Detour) : List Stmt → Framed Unit
  | [] => return
  | s :: ss => do
    if !(← Lower.isTerminated) then
      visit s
      stmt detour s
      stmts detour ss

def stmt (detour : Detour) : Stmt → Framed Unit
  | .package _ span | .imports _ span | .interface _ _ span | .template _ _ span => do
    mark (← env) span
  | .class_ c => do mark (← env) c.span
  | .method m => do mark (← env) m.span
  | .var name type? value? span => do
    mark (← env) span
    let declared? ← declaredType (← env) type?
    let v? ← exprIf detour value?
    let _ ← Lower.define name.name declared? v?
  | .const name type? value span => do
    mark (← env) span
    let declared? ← declaredType (← env) type?
    let v ← expr detour value
    let _ ← Lower.define name.name declared? (some v)
  | .ret value? span => do
    mark (← env) span
    leaveFunction detour (← exprIf detour value?)
  | .expr e => do
    mark (← env) e.span
    let _ ← expr detour e
  | .block b => do
    mark (← env) b.span
    block detour b
  | .ifElse condition consequence alternative? span => do
    mark (← env) span
    Lower.ifElse (expr detour condition) (block detour consequence) (stmtIf detour alternative?)
  | .whileLoop condition body span => do
    mark (← env) span
    whileLoop (expr detour condition) (block detour body)
  | .forLoop init? condition? post? body span => do
    mark (← env) span
    forLoop (stmtIf detour init?) (testIf detour condition?) (stmtIf detour post?)
      (block detour body)
  | .switch tag? cases default? span => do
    mark (← env) span
    switch (exprIf detour tag?) cases.length
      (fun tag? blocks => tests detour tag? blocks cases)
      (fun exit blocks => caseBodies detour exit blocks cases) (blockIf detour default?)
  | .break_ span => do
    mark (← env) span
    leaveLoop detour span
  | .continue_ span => do
    mark (← env) span
    continueLoop detour span
  | .function ⟨name, params, ret?, body, _, span⟩ => do
    mark (← env) span
    let sig ← declareInner (← env) name.name params ret?
    nested (← env).bindings
      (function (.ofSignature name.name params sig span none) (entry detour none body))
  | .tryCatch body catches finally? span => do
    mark (← env) span
    tryCatch finally? (block detour body) catches.length
      (fun exit handlers => clauses detour exit handlers catches) (blockIf detour finally?)
  | .throw value span => do
    mark (← env) span
    Lower.throwValue (← expr detour value)
  | .scope body span => do
    mark (← env) span
    block detour body

/-- The value of an expression that may be left out. -/
def exprIf (detour : Detour) : Option Expr → Framed (Option Operand)
  | some e => some <$> expr detour e
  | none => return none

/-- The code of a condition that may be left out. -/
def testIf (detour : Detour) : Option Expr → Option (Framed Operand)
  | some e => some (expr detour e)
  | none => none

/-- The code of a statement that may be left out. -/
def stmtIf (detour : Detour) : Option Stmt → Option (Framed Unit)
  | some s => some do
    visit s
    stmt detour s
  | none => none

/-- The code of a block that may be left out. -/
def blockIf (detour : Detour) : Option Block → Option (Framed Unit)
  | some b => some (block detour b)
  | none => none

/-- The tests of one case, each followed by the next. -/
def caseTests (detour : Detour) (tag? : Option Operand) (target : Nat) : List Expr → Framed Unit
  | [] => return
  | e :: es => do
    Lower.caseTest tag? target (expr detour e)
    caseTests detour tag? target es

def tests (detour : Detour) (tag? : Option Operand) : List Nat → List Case → Framed Unit
  | target :: targets, ⟨values, _, _⟩ :: cs => do
    caseTests detour tag? target values
    tests detour tag? targets cs
  | _, _ => return

def caseBodies (detour : Detour) (exit : Nat) : List Nat → List Case → Framed Unit
  | target :: targets, ⟨_, body, _⟩ :: cs => do
    arm target "switch.case" exit (block detour body)
    caseBodies detour exit targets cs
  | _, _ => return

def clauses (detour : Detour) (exit : Nat) : List Nat → List Catch → Framed Unit
  | handler :: handlers, ⟨param?, type?, body, _⟩ :: cs => do
    arm handler "try.catch" exit do
      Lower.clause (← env) param? type? (block detour body)
    clauses detour exit handlers cs
  | _, _ => return

end

/-- Detours that may be nested `fuel` deep. -/
def detourAt : (fuel : Nat) → Detour
  | 0 =>
    { expr := fun _ => do
        Gen.exhaust
        return .undefined
      block := fun _ => Gen.exhaust }
  | fuel + 1 =>
    { expr := fun e => do
        if ← Gen.exhausted then return .undefined else expr (detourAt fuel) e
      block := fun b => do
        if !(← Gen.exhausted) then block (detourAt fuel) b }

/-! ## Programs -/

/-- Computes and stores a global. -/
def storeGlobal (detour : Detour) (name : Ident) (value : Expr) (span : Span) : Framed Unit := do
  mark (← env) span
  let o ← expr detour value
  match ← Gen.global? name.name with
  | some l =>
    let _ ← Lower.assign l o.value
  | none => return

def startStmt (detour : Detour) : Stmt → Framed Unit
  | .var name _ (some value) span => storeGlobal detour name value span
  | .var _ _ none _ => return
  | .const name _ value span => storeGlobal detour name value span
  | s => stmt detour s

/-- Statements up to the first one that ends the block. -/
def startStmts (detour : Detour) : List Stmt → Framed Unit
  | [] => return
  | s :: ss => do
    visit s
    startStmt detour s
    if !(← Lower.isTerminated) then startStmts detour ss

/-- Generates the function that runs when the program starts, if there is anything to run. -/
def generateStart (detour : Detour) (p : Program) : Framed Unit := do
  let computed := (← getThe GenState).computed
  match p.stmts.filter (Gen.runsAtStart computed) with
  | [] => return
  | stmts =>
    function { symbol := Lower.initName, ret := .void, span := p.span } (startStmts detour stmts)
    modifyThe GenState fun s => { s with hasInit := true }

/-- Generates a function from its declaration. -/
def generateFunction (detour : Detour) (symbol : String) (params : List Param) (sig : Signature)
    (body : Block) (span : Span) (class? receiver? : Option String) : Framed Unit :=
  function (.ofSignature symbol params sig span class?) (entry detour receiver? body)

/-- Generates the methods of a class that has a layout, those declared outside of it too. -/
def generateClass (detour : Detour) (name : String) (c : Class) : Framed Unit := do
  match ← Gen.layout? name with
  | none => return
  | some l =>
    c.methods.forM fun m =>
      match l.methods.find? m.name.name with
      | none => return
      | some entry =>
        generateFunction detour entry.symbol m.params entry.signature m.body m.span
          (if entry.isStatic then none else some name) none
    ((← env).catalog.methodsOf c.name.name).forM fun m =>
      match l.methods.find? m.name.name with
      | none => return
      | some entry =>
        generateFunction detour entry.symbol m.params entry.signature m.body m.span (some name)
          (some m.receiver.name.name)

/-- Generates a method whose receiver is of no class of the program. -/
def generateDetached (detour : Detour) (m : Method) : Framed Unit := do
  match m.receiverClass? with
  | none => return
  | some cls =>
    let e ← env
    if e.catalog.classes.contains cls || e.catalog.templates.contains cls then return
    let sig ← Gen.writtenSignature e.typing m.params m.ret?
    let symbol := Layout.methodSymbol cls m.name.name
    Gen.setFunction symbol sig
    generateFunction detour symbol m.params sig m.body m.span (some cls)
      (some m.receiver.name.name)

def generateStmt (detour : Detour) : Stmt → Framed Unit
  | .function f => do
    let sig ← match ← Gen.function? f.name.name with
      | some sig => pure sig
      | none => Gen.writtenSignature (← env).typing f.params f.ret?
    generateFunction detour f.name.name f.params sig f.body f.span none none
  | .class_ c => generateClass detour c.name.name c
  | .method m => generateDetached detour m
  | _ => return

/-- The functions of an instance. -/
def instanceCode (detour : Detour) (i : TemplateInstance) : Framed Unit := do
  match i.body with
  | .function f =>
    match ← Gen.function? i.symbol with
    | some sig => generateFunction detour i.symbol f.params sig f.body f.span none none
    | none => Gen.internal "template instance without a signature"
  | .class_ c => generateClass detour i.symbol c
  | _ => return

def generateInstance (detour : Detour) (i : TemplateInstance) : Framed Unit :=
  nested i.bindings (instanceCode detour i)

/-- Generates the instances that wait, and those that are asked for meanwhile, but no more than
`fuel`. -/
def generateInstances (detour : Detour) : (fuel : Nat) → Framed Unit
  | 0 => do
    if (← getThe GenState).lowered < (← getThe GenState).queue.length then Gen.exhaust
  | fuel + 1 => do
    let s ← getThe GenState
    match s.queue[s.lowered]? with
    | none => return
    | some i =>
      set { s with lowered := s.lowered + 1 }
      generateInstance detour i
      generateInstances detour fuel

/-- Adds an entry to a program that has none. -/
def ensureEntry : Framed Unit := do
  if !(← getThe GenState).module.hasFunction "main" then
    function { symbol := "main", ret := .i32 } do
      Lower.callInit
      terminate (.ret (some (.i32 0)))

/-- Generates a program. -/
def program (catalog : Catalog) (p : Program) : Framed Unit := do
  let detour := detourAt catalog.limit
  Gen.prepare catalog p
  generateStart detour p
  p.stmts.forM (generateStmt detour)
  generateInstances detour (catalog.limit * catalog.limit)
  if ← Gen.succeeded then ensureEntry
  if ← Gen.succeeded then
    (← getThe GenState).module.flaws.forM fun f => Gen.internal (Ir.flawText f)

/-- Generates code for a program, beginning between two functions. -/
def generate (p : Program) (scopes : ScopeTree) (file? : Option String) (limit : Nat := 1000) :
    GenState :=
  let catalog := Catalog.ofProgram scopes file? p limit
  (((program catalog p).run (.idle catalog [])).run (.initial file?)).2

end Framed

end ClassLang
