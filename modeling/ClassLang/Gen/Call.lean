import ClassLang.Ast.Printer
import ClassLang.Builtin
import ClassLang.Gen.Object

/-!
# Calls

A called name is, in this order, a value that holds a function, a declared function, a template of
functions, a method of the class at hand, a predeclared function, or an outside function.
-/

namespace ClassLang.Lower

open Ir (Value)

variable {m : Type → Type} [Monad m] [MonadLiftT Gen m] [Emitter m]

/-- Brings arguments to the types of the parameters, as far as these are known. -/
def convertArgs : List Ty → List Operand → m (List Value)
  | _, [] => return []
  | [], o :: os => return o.value :: (← convertArgs [] os)
  | t :: ts, o :: os => do
    let v ← if isUnresolved t then pure o.value else convert o.value (storageOf t)
    return v :: (← convertArgs ts os)

/-- Calls a function of known signature. -/
def callWith (sig : Signature) (callee : Ir.Callee) (args : List Value) : m Operand := do
  let ret := Ir.Ty.ofTy sig.ret
  let v ← call ret callee args none
  return if ret.isVoid then .void else ⟨v, sig.ret⟩

/-- Calls a method of a class. A virtual one is looked up in the object's table if `dynamic` is set;
a static one takes no object. -/
def callMethod (receiver : Value) (cls method : String) (args : List Operand) (dynamic : Bool)
    (span : Span) : m Operand := do
  match ← Gen.method? cls method with
  | none =>
    Gen.report (.unknownMember cls method) span
    return .undefined
  | some entry =>
    let values ← convertArgs entry.signature.params args
    if entry.isStatic then callWith entry.signature (.function entry.symbol) values
    else
      match entry.slot? with
      | some slot =>
        if dynamic then
          let function ← vtableEntry cls receiver slot
          callWith entry.signature (.pointer function) (receiver :: values)
        else callWith entry.signature (.function entry.symbol) (receiver :: values)
      | none => callWith entry.signature (.function entry.symbol) (receiver :: values)

/-- Calls the parent's method on the object at hand. -/
def callSuper (env : Env) (method : String) (args : List Operand) (span : Span) :
    m Operand := do
  match env.this? with
  | none =>
    Gen.report (.undefinedVariable "super") span
    return .undefined
  | some (this, cls) =>
    match (← Gen.layout? cls).bind Layout.parent? with
    | none =>
      Gen.report (.unknownMember cls method) span
      return .undefined
    | some parent => callMethod this parent method args false span

/-- Calls a function of the module. -/
def callSymbol (symbol : String) (args : List Operand) (span : Span) : m Operand := do
  match ← Gen.function? symbol with
  | none =>
    Gen.report (.notCallable symbol) span
    return .undefined
  | some sig => callWith sig (.function symbol) (← convertArgs sig.params args)

/-- Calls a function that a value points to. -/
def callPointer (callee : Operand) (args : List Operand) (span : Span) : m Operand := do
  let sig? := match Signature.ofTy? callee.ty with
    | some sig => some sig
    | none => if callee.ir = Ir.Ty.ptr then some ⟨[], .unknown, false⟩ else none
  match sig? with
  | some sig => callWith sig (.pointer callee.value) (← convertArgs sig.params args)
  | none =>
    Gen.report (.notCallable callee.ty.text) span
    return .undefined

/-- Calls an outside function of which only the name is known. -/
def callExternal (name : String) (ret : Ty) (args : List Operand) : m Operand := do
  let values ← args.mapM promote
  let ir := Ir.Ty.ofTy ret
  Gen.declare name ir [] true
  let v ← call ir (.function name) values (some [])
  return if ir.isVoid then .void else ⟨v, ret⟩

/-! ## Predeclared functions -/

def callPrintf (args : List Value) : m Operand := do
  Gen.declare "printf" .i32 [.ptr] true
  return ⟨← call .i32 (.function "printf") args (some [.ptr]), .int⟩

/-- How a value is printed. -/
def formatOf (o : Operand) : String :=
  if o.ty.isKind .char then "%c"
  else
    match o.ir with
    | .i64 => "%lld"
    | .float | .double => "%f"
    | .ptr => if o.ty.isString || o.ty.isUnknown then "%s" else "%p"
    | _ => "%d"

/-- Prints values with a format made from their types. A whole line has blanks between the values
and a line feed at its end. -/
def callPrint (args : List Operand) (line : Bool) : m Operand := do
  let formats := args.map formatOf
  let format :=
    if line then String.intercalate " " formats ++ "\n" else String.intercalate "" formats
  let values ← args.mapM promote
  let name ← Gen.addString format.toUTF8.toList
  callPrintf (.global name :: values)

/-- Prints values with the format that comes first. -/
def callFormat (args : List Operand) : m Operand := do
  match args with
  | [] => callPrintf [.global (← Gen.addString [])]
  | format :: rest => callPrintf (format.value :: (← rest.mapM promote))

/-- The length of an array, a map or a string. -/
def callLength (args : List Operand) : m Operand := do
  match args with
  | [] => return ⟨.i32 0, .int⟩
  | o :: _ =>
    match o.ty with
    | .array _ => return ⟨← arrayLength o.value, .int⟩
    | .map .. => return ⟨← callOutside "gominus_map_len" .i32 [.ptr] [o.value], .int⟩
    | _ =>
      if o.ir = .ptr then
        let length ← callOutside "strlen" .i64 [.ptr] [o.value]
        return ⟨← convert length .i32, .int⟩
      else return ⟨.i32 0, .int⟩

/-- Throws a value, which ends the block. -/
def throwValue (o : Operand) : m Unit := do
  let slot ← alloca o.ir.orI32
  store o.value slot
  let _ ← callOutside "__cxa_throw" .void [.ptr, .ptr, .ptr] [slot, .null, .null]
  terminate .unreachable

/-- Throws the argument. What follows in the source goes to a block that nothing leads to. -/
def callPanic (args : List Operand) : m Operand := do
  throwValue (args.head?.getD ⟨.null, .null⟩)
  startBlock (← freshBlock) "panic.cont"
  return .void

/-- Calls a predeclared function, or else an outside one. -/
def callBuiltin (name : String) (args : List Operand) : m Operand :=
  match name with
  | "println" => callPrint args true
  | "print" => callPrint args false
  | "len" | "cap" => callLength args
  | "panic" => callPanic args
  | "recover" => return ⟨.null, .unknown⟩
  | _ => callExternal name .unknown args

/-- Ends the program. -/
def callExit (args : List Operand) : m Operand := do
  Gen.declare "exit" .void [.i32] false
  let code ← match args with
    | [] => pure (.i32 0)
    | o :: _ => convert o.value .i32
  let _ ← call .void (.function "exit") [code] none
  return .void

/-- Calls a member of a package. -/
def callPackage (package member : String) (args : List Operand) : m Operand :=
  match package, member with
  | "fmt", "Println" => callPrint args true
  | "fmt", "Print" => callPrint args false
  | "fmt", "Printf" => callFormat args
  | "os", "Exit" => callExit args
  | _, _ =>
    let ret := ((Builtin.member? package member).map Signature.ret).getD .unknown
    callExternal (package ++ "_" ++ member) ret args

/-! ## Templates -/

/-- The type arguments of a call that writes none: for each type parameter, the type of the argument
that stands for the first parameter of that type. -/
def inferTypeArgs (t : Template) (args : List Operand) : List Ty :=
  match t.body with
  | .function f =>
    t.params.filterMap fun name =>
      let index? := f.params.findIdx? fun p =>
        match p.type?.map TypeExpr.base with
        | some (.named n) => n.name == name
        | _ => false
      (index?.bind (args[·]?)).map Operand.ty
  | _ => []

/-- The instance of a template for written type arguments. -/
def writtenInstance (env : Env) (name : Ident) (typeArgs : List TypeExpr) :
    Gen (Option String) := do
  let types ← Gen.resolveTypes env.typing typeArgs
  env.typing.instantiate name types

/-- The value of an instance of a template. -/
def instanceValue (env : Env) (name : Ident) (typeArgs : List TypeExpr) : m Operand := do
  match ← writtenInstance env name typeArgs with
  | none => return .undefined
  | some symbol =>
    return ⟨.global symbol, ((← Gen.function? symbol).map Signature.toTy).getD .unknown⟩

/-- The class that `new` names; a name of no class is reported. -/
def newClass (env : Env) (type : TypeExpr) : m (Option String) := do
  let ty ← Gen.resolveType env.typing type
  let cls? ← match ty with
    | .class_ cls => do pure (if ← Gen.hasLayout cls then some cls else none)
    | _ => pure none
  if cls?.isNone then Gen.report (.notAClass type.text) type.span
  return cls?

/-! ## What a name in a call stands for -/

/-- What a called name stands for, once arguments have not been looked at. -/
inductive NamedCallee where
  /-- A value that holds a function. -/
  | value (callee : Operand)
  | function
  | template (t : Template)
  /-- A method of the object at hand. -/
  | method (this : Value) (cls : String)
  | builtin

/-- Finds what a called name stands for. -/
def namedCallee (env : Env) (name : String) : m NamedCallee := do
  match ← lookup name with
  | some l => return .value (← loadFrom l)
  | none =>
    if (← Gen.function? name).isSome then return .function
    match env.catalog.templates.find? name with
    | some t => return .template t
    | none =>
      match env.this? with
      | none => return .builtin
      | some (this, cls) =>
        return if (← Gen.method? cls name).isSome then .method this cls else .builtin

/-- Calls a name. -/
def callNamed (env : Env) (n : Ident) (callee : NamedCallee) (args : List Operand) :
    m Operand := do
  match callee with
  | .value v => callPointer v args n.span
  | .function => callSymbol n.name args n.span
  | .template t =>
    match ← env.typing.instantiate n (inferTypeArgs t args) with
    | none => return .undefined
    | some symbol => callSymbol symbol args n.span
  | .method this cls => callMethod this cls n.name args true n.span
  | .builtin => callBuiltin n.name args

/-- What stands before the dot in a call of a member. -/
inductive Qualifier where
  | class_ (name : String)
  | package (name : String)
  /-- An expression with a value. -/
  | object

/-- Finds what stands before the dot. -/
def qualifier (env : Env) : Expr → m Qualifier
  | .ident n => do
    if (← lookup n.name).isSome then return .object
    else if ← Gen.hasLayout n.name then return .class_ n.name
    else if ← isPackage env n.name then return .package n.name
    else return .object
  | _ => return .object

/-- Calls a member of an object. If no method is known, an outside function is called that has the
object first and its name from the text of the expression. -/
def callMember (object : Expr) (property : Ident) (receiver : Operand) (args : List Operand) :
    m Operand := do
  let cls? ← match receiver.ty with
    | .class_ cls => do pure (if (← Gen.method? cls property.name).isSome then some cls else none)
    | _ => pure none
  match cls? with
  | some cls => callMethod receiver.value cls property.name args true property.span
  | none =>
    callExternal (Gen.mangle object.text ++ "_" ++ property.name) .unknown (receiver :: args)

end ClassLang.Lower
