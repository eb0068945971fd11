import ClassLang.Gen.Flow
import ClassLang.Gen.Literal

/-!
# Bodies

The walk over expressions and statements. It goes down the tree, except where it takes a detour:
leaving a try statement runs the block that is to run finally, and making an object computes the
first values of its fields. Detours may be nested only so deep.
-/

namespace ClassLang.Lower

open Ir (Value)

/-- The value of an integer literal: 32 bits wide if it fits. -/
def integer (v : Nat) : Operand :=
  if v < Nat.pow 2 31 then ⟨.i32 v, .int⟩ else ⟨.i64 v, .int64⟩

/-- Stores the first values of an object's fields, from struct index `index` on. -/
def initFields (detour : Detour) (env : Env) (cls : String) (object : Value) :
    (index : Nat) → List FieldSlot → Lower Unit
  | _, [] => return
  | index, f :: fs => do
    let v ← match f.default? with
      | some e => do convert (← detour.expr env e).value f.ir
      | none => pure (.zero f.ir)
    let ptr ← structMember cls object index
    store v ptr
    initFields detour env cls object (index + 1) fs

/-- Makes an object: its fields get their first values, and then its constructor runs. -/
def newObject (detour : Detour) (env : Env) (cls : String) (args : List Operand) (span : Span) :
    Lower Operand := do
  let object ← allocate cls
  let fields := ((← Gen.layout? cls).map Layout.fields).getD []
  initFields detour env cls object 1 fields
  if (← Gen.method? cls "constructor").isSome then
    let _ ← callMethod object cls "constructor" args false span
  return ⟨object, .class_ cls⟩

/-- A name for a function without one. -/
def freshLambda : Gen String := do
  let s ← get
  set { s with lambdas := s.lambdas + 1 }
  return s!"__lambda_{s.lambdas}"

/-- Reports a target that no value can be assigned to. -/
def badTarget (target : Expr) : Gen Unit :=
  Gen.report (.invalidAssignTarget target.text) target.span

/-- The written type of a local, if one is written. -/
def declaredType (env : Env) : Option TypeExpr → Gen (Option Ty)
  | some t => some <$> Gen.resolveType env.typing t
  | none => return none

/-- Declares a function that stands inside another, and gives its signature. -/
def declareInner (env : Env) (symbol : String) (params : List Param) (ret? : Option TypeExpr) :
    Gen Signature := do
  let sig ← Gen.writtenSignature env.typing params ret?
  Gen.setFunction symbol sig
  return sig

mutual

/-- The value of an expression. -/
def expr (detour : Detour) (env : Env) : Expr → Lower Operand
  | .ident n => nameValue env n
  | .int v _ => return integer v
  | .float v _ => return ⟨.float v .double, .float⟩
  | .string body _ => return ⟨.global (← Gen.addString (Literal.bytes body.toList)), .string⟩
  | .char body _ => return ⟨.i32 (Literal.charCode body.toList), .char⟩
  | .bool v _ => return ⟨.bool v, .bool⟩
  | .null _ => return ⟨.null, .null⟩
  | .prefixed op right _ => do prefixed op (← expr detour env right)
  | .binary op left right _ =>
    if op.isLogical then logical (op = .and) (expr detour env left) (expr detour env right)
    else do
      let l ← expr detour env left
      let r ← expr detour env right
      infix_ op l r
  | .postfixed op operand _ => do
    match ← location detour env operand with
    | some l => step op l
    | none => return .undefined
  | .assign .define (.ident n) value _ => do
    let v ← expr detour env value
    loadFrom (← define n.name none (some v))
  | .assign .define target value _ => do
    let v ← expr detour env value
    badTarget target
    return v
  | .assign .assign target value _ => do
    let v ← expr detour env value
    match ← location detour env target with
    | some l => assign l v.value
    | none => return v
  | .assign (.compound op) target value _ => do
    match ← location detour env target with
    | none => return .undefined
    | some l =>
      let current ← loadFrom l
      let v ← expr detour env value
      let result ← infix_ op current v
      assign l result.value
  | .call (.ident n) args _ => do
    let callee ← namedCallee env n.name
    let args ← exprs detour env args
    callNamed env n callee args
  | .call (.member (.super superSpan) property _ _) args _ => do
    let args ← exprs detour env args
    callSuper env property.name args superSpan
  | .call (.member object property _ _) args _ => do
    match ← qualifier env object with
    | .class_ cls => do
      let args ← exprs detour env args
      callMethod .null cls property.name args false property.span
    | .package package => do
      let args ← exprs detour env args
      callPackage package property.name args
    | .object => do
      let receiver ← expr detour env object
      let args ← exprs detour env args
      callMember object property receiver args
  | .call (.super superSpan) args _ => do
    let args ← exprs detour env args
    callSuper env "constructor" args superSpan
  | .call (.templateInstance n typeArgs instanceSpan) args _ => do
    match ← writtenInstance env n typeArgs with
    | none => return .undefined
    | some symbol =>
      let args ← exprs detour env args
      callSymbol symbol args instanceSpan
  | .call function args _ => do
    let callee ← expr detour env function
    let args ← exprs detour env args
    callPointer callee args function.span
  | .index object key _ => do
    let o ← expr detour env object
    let k ← expr detour env key
    loadFrom (← elementLocation o k)
  | .member object property _ _ => do
    match ← qualifier env object with
    | .package package => do
      Gen.report (.unknownMember package property.name) property.span
      return .undefined
    | _ => do
      let o ← expr detour env object
      match ← memberLocation o property with
      | some l => loadFrom l
      | none => return .undefined
  | .array elements _ => do newArray (← exprs detour env elements)
  | .hash pairs _ => do newMap (← entries detour env pairs)
  | .lambda params ret? body span => do
    let symbol ← freshLambda
    let sig ← declareInner env symbol params ret?
    function env (.ofSignature symbol params sig span none) fun inner =>
      entry detour inner none body
    return ⟨.global symbol, sig.toTy⟩
  | .new type args span => do
    match ← newClass env type with
    | none => return .undefined
    | some cls =>
      let args ← exprs detour env args
      newObject detour env cls args span
  | .this span => thisValue env span
  | .super span => superValue env span
  | .templateInstance n typeArgs _ => instanceValue env n typeArgs

def exprs (detour : Detour) (env : Env) : List Expr → Lower (List Operand)
  | [] => return []
  | e :: es => do
    let o ← expr detour env e
    return o :: (← exprs detour env es)

def entries (detour : Detour) (env : Env) : List Entry → Lower (List (Operand × Operand))
  | [] => return []
  | ⟨key, value⟩ :: es => do
    let k ← expr detour env key
    let v ← expr detour env value
    return (k, v) :: (← entries detour env es)

/-- The location that an expression stands for; an expression that stands for none is reported. -/
def location (detour : Detour) (env : Env) : Expr → Lower (Option Location)
  | .ident n => do
    match ← nameLocation env n.name with
    | some l => return some l
    | none =>
      Gen.report (.undefinedVariable n.name) n.span
      return none
  | .member object property _ _ => do
    let o ← expr detour env object
    memberLocation o property
  | .index object key _ => do
    let o ← expr detour env object
    let k ← expr detour env key
    return some (← elementLocation o k)
  | e => do
    badTarget e
    return none

/-- The body of a function: the object gets its name, the program's entry computes the globals, and
the block follows. -/
def entry (detour : Detour) (env : Env) (receiver? : Option String) : Block → Lower Unit
  | ⟨body, _⟩ => do
    bindReceiver env receiver?
    if env.isMain then callInit
    inScope (stmts detour env body)

/-- A block in a scope of its own. -/
def block (detour : Detour) (env : Env) : Block → Lower Unit
  | ⟨body, _⟩ => inScope (stmts detour env body)

/-- Statements up to the first one that ends the block. -/
def stmts (detour : Detour) (env : Env) : List Stmt → Lower Unit
  | [] => return
  | s :: ss => do
    if !(← isTerminated) then
      visit env s
      stmt detour env s
      stmts detour env ss

def stmt (detour : Detour) (env : Env) : Stmt → Lower Unit
  | .package _ span | .imports _ span | .interface _ _ span | .template _ _ span => mark env span
  | .class_ c => mark env c.span
  | .method m => mark env m.span
  | .var name type? value? span => do
    mark env span
    let declared? ← declaredType env type?
    let v? ← exprIf detour env value?
    let _ ← define name.name declared? v?
  | .const name type? value span => do
    mark env span
    let declared? ← declaredType env type?
    let v ← expr detour env value
    let _ ← define name.name declared? (some v)
  | .ret value? span => do
    mark env span
    leaveFunction detour env (← exprIf detour env value?)
  | .expr e => do
    mark env e.span
    let _ ← expr detour env e
  | .block b => do
    mark env b.span
    block detour env b
  | .ifElse condition consequence alternative? span => do
    mark env span
    ifElse (expr detour env condition) (block detour env consequence)
      (stmtIf detour env alternative?)
  | .whileLoop condition body span => do
    mark env span
    whileLoop env (expr detour env condition) fun inner => block detour inner body
  | .forLoop init? condition? post? body span => do
    mark env span
    forLoop env (stmtIf detour env init?) (testIf detour env condition?) (stmtIf detour env post?)
      fun inner => block detour inner body
  | .switch tag? cases default? span => do
    mark env span
    switch env (exprIf detour env tag?) cases.length
      (fun tag? blocks => tests detour env tag? blocks cases)
      (fun inner exit blocks => caseBodies detour inner exit blocks cases)
      (blockIf detour default?)
  | .break_ span => do
    mark env span
    leaveLoop detour env span
  | .continue_ span => do
    mark env span
    continueLoop detour env span
  | .function ⟨name, params, ret?, body, _, span⟩ => do
    mark env span
    let sig ← declareInner env name.name params ret?
    function env (.ofSignature name.name params sig span none) fun inner =>
      entry detour inner none body
  | .tryCatch body catches finally? span => do
    mark env span
    tryCatch env finally? (fun inner => block detour inner body) catches.length
      (fun inner exit handlers => clauses detour inner exit handlers catches)
      ((blockIf detour finally?).map fun final => final env)
  | .throw value span => do
    mark env span
    throwValue (← expr detour env value)
  | .scope body span => do
    mark env span
    block detour env body

/-- The value of an expression that may be left out. -/
def exprIf (detour : Detour) (env : Env) : Option Expr → Lower (Option Operand)
  | some e => some <$> expr detour env e
  | none => return none

/-- The code of a condition that may be left out. -/
def testIf (detour : Detour) (env : Env) : Option Expr → Option (Lower Operand)
  | some e => some (expr detour env e)
  | none => none

/-- The code of a statement that may be left out. -/
def stmtIf (detour : Detour) (env : Env) : Option Stmt → Option (Lower Unit)
  | some s => some do
    visit env s
    stmt detour env s
  | none => none

/-- The code of a block that may be left out. -/
def blockIf (detour : Detour) : Option Block → Option (Env → Lower Unit)
  | some b => some fun env => block detour env b
  | none => none

/-- The tests of one case, each followed by the next. -/
def caseTests (detour : Detour) (env : Env) (tag? : Option Operand) (target : Nat) :
    List Expr → Lower Unit
  | [] => return
  | e :: es => do
    caseTest tag? target (expr detour env e)
    caseTests detour env tag? target es

def tests (detour : Detour) (env : Env) (tag? : Option Operand) :
    List Nat → List Case → Lower Unit
  | target :: targets, ⟨values, _, _⟩ :: cs => do
    caseTests detour env tag? target values
    tests detour env tag? targets cs
  | _, _ => return

def caseBodies (detour : Detour) (env : Env) (exit : Nat) : List Nat → List Case → Lower Unit
  | target :: targets, ⟨_, body, _⟩ :: cs => do
    arm target "switch.case" exit (block detour env body)
    caseBodies detour env exit targets cs
  | _, _ => return

def clauses (detour : Detour) (env : Env) (exit : Nat) : List Nat → List Catch → Lower Unit
  | handler :: handlers, ⟨param?, type?, body, _⟩ :: cs => do
    arm handler "try.catch" exit (clause env param? type? (block detour env body))
    clauses detour env exit handlers cs
  | _, _ => return

end

/-- Detours that may be nested `fuel` deep. -/
def detourAt : (fuel : Nat) → Detour
  | 0 =>
    { expr := fun _ _ => do
        Gen.exhaust
        return .undefined
      block := fun _ _ => Gen.exhaust }
  | fuel + 1 =>
    { expr := fun env e => do
        if ← Gen.exhausted then return .undefined else expr (detourAt fuel) env e
      block := fun env b => do
        if !(← Gen.exhausted) then block (detourAt fuel) env b }

end ClassLang.Lower
