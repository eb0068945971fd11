import ClassLang.Gen.Convert

/-!
# Objects, arrays and maps

An array is a pointer to its length, eight bytes, with the elements behind. A map is kept by outside
functions, which give the address of the value of a key. An object is a struct of its class's
layout.
-/

namespace ClassLang.Lower

open Ir (Value)

variable {m : Type → Type} [Monad m] [MonadLiftT Gen m] [Emitter m]

def malloc (size : Value) : m Value := callOutside "malloc" .ptr [.i64] [size]

/-! ## Elements -/

/-- The bytes before the elements of an array, which hold its length. -/
def arrayHeader : Nat := 8

/-- The address of an array element. -/
def arrayElement (array : Value) (ir : Ir.Ty) (index : Value) : m Value := do
  let data ← element .i8 array [.i64 arrayHeader]
  element ir data [index]

/-- The length of an array. -/
def arrayLength (array : Value) : m Value := do
  let length ← load array .i64
  cast .truncate length .i32

/-- The storage of `object[key]`. What is not known to be a map or a string is taken for an
array. -/
def elementLocation (object key : Operand) : m Location := do
  match object.ty with
  | .map keyType valueType =>
    let ir := storageOf keyType
    let k ← convert key.value ir
    let slot ← alloca ir
    store k slot
    let ptr ← callOutside "gominus_map_slot" .ptr [.ptr, .ptr] [object.value, slot]
    return ⟨ptr, valueType, storageOf valueType⟩
  | .array elementType =>
    let ir := storageOf elementType
    return ⟨← arrayElement object.value ir key.value, elementType, ir⟩
  | ty =>
    if ty.isString then return ⟨← element .i8 object.value [key.value], .byte, .i8⟩
    else return ⟨← arrayElement object.value .i32 key.value, .unknown, .i32⟩

/-- Fills the elements of an array, from number `index` on. -/
def fillArray (array : Value) (ir : Ir.Ty) : (index : Nat) → List Operand → m Unit
  | _, [] => return
  | index, e :: es => do
    let v ← convert e.value ir
    let ptr ← arrayElement array ir (.i32 index)
    store v ptr
    fillArray array ir (index + 1) es

/-- A new array. Its elements have the first type that is known. -/
def newArray (elements : List Operand) : m Operand := do
  let ty := ((elements.map Operand.ty).find? fun t => !isUnresolved t).getD .unknown
  let ir := storageOf ty
  let array ← malloc (.i64 (arrayHeader + elements.length * ir.bytes : Nat))
  store (.i64 elements.length) array
  fillArray array ir 0 elements
  return ⟨array, .array ty⟩

/-- A new map. Its keys and values have the types of the first ones. -/
def newMap (entries : List (Operand × Operand)) : m Operand := do
  let key := (entries.head?.map (·.1.ty)).getD .unknown
  let value := (entries.head?.map (·.2.ty)).getD .unknown
  let sizes : List Value := [.i64 (storageOf key).bytes, .i64 (storageOf value).bytes]
  let map : Operand := ⟨← callOutside "gominus_map_new" .ptr [.i64, .i64] sizes, .map key value⟩
  entries.forM fun (k, v) => do
    let _ ← assign (← elementLocation map k) v.value
  return map

/-! ## Fields -/

/-- The address of a struct member. -/
def structMember (cls : String) (object : Value) (index : Nat) : m Value :=
  element (.struct cls) object [.i32 0, .i32 index]

/-- The field of a class by name, with its index. -/
def classField? (cls name : String) : Gen (Option (Nat × FieldSlot)) :=
  return (← Gen.layout? cls).bind (·.field? name)

def fieldLocation (cls : String) (object : Value) (field : Nat × FieldSlot) : m Location :=
  return ⟨← structMember cls object field.1, field.2.ty, field.2.ir⟩

/-- The storage of `object.field`; a field that does not exist is reported. -/
def memberLocation (object : Operand) (field : Ident) : m (Option Location) := do
  let found? ← match object.ty with
    | .class_ cls => do
      match ← classField? cls field.name with
      | some f => pure (some (cls, f))
      | none => pure none
    | _ => pure none
  match found? with
  | some (cls, f) => return some (← fieldLocation cls object.value f)
  | none =>
    Gen.report (.unknownMember object.ty.text field.name) field.span
    return none

/-- The field of the object at hand that a bare name stands for. -/
def ownField? (env : Env) (name : String) : Gen (Option (Value × String × Nat × FieldSlot)) := do
  match env.this? with
  | none => return none
  | some (this, cls) => return (← classField? cls name).map fun f => (this, cls, f)

/-- The storage of a field of the object at hand. -/
def ownLocation (env : Env) (name : String) : m (Option Location) := do
  match ← ownField? env name with
  | none => return none
  | some (this, cls, f) => return some (← fieldLocation cls this f)

/-- The storage of a name: a local, a global, or a field of the object at hand. -/
def nameLocation (env : Env) (name : String) : m (Option Location) := do
  match ← lookup name with
  | some l => return some l
  | none => ownLocation env name

/-- The value of a name, which may also be a function. -/
def nameValue (env : Env) (n : Ident) : m Operand := do
  match ← nameLocation env n.name with
  | some l => loadFrom l
  | none =>
    match ← Gen.function? n.name with
    | some sig => return ⟨.global n.name, sig.toTy⟩
    | none =>
      Gen.report (.undefinedVariable n.name) n.span
      return .undefined

/-- Whether a name stands for a package, which is so if it stands for nothing else. -/
def isPackage (env : Env) (name : String) : m Bool := do
  return (← lookup name).isNone && (← Gen.function? name).isNone && !(← Gen.hasLayout name) &&
    (← ownField? env name).isNone

/-- The object at hand. -/
def thisValue (env : Env) (span : Span) : m Operand := do
  match env.this? with
  | some (this, cls) => return ⟨this, .class_ cls⟩
  | none =>
    Gen.report (.undefinedVariable "this") span
    return .undefined

/-- The object at hand, seen as one of the parent class. -/
def superValue (env : Env) (span : Span) : m Operand := do
  let this ← thisValue env span
  match this.ty with
  | .class_ cls =>
    match (← Gen.layout? cls).bind Layout.parent? with
    | some parent => return ⟨this.value, .class_ parent⟩
    | none => return this
  | _ => return this

/-! ## New objects -/

/-- Allocates an object and sets the pointer to its table. Its size is the distance between two
objects in a row. -/
def allocate (cls : String) : m Value := do
  let stop ← element (.struct cls) .null [.i32 1]
  let size ← cast .pointerToInt stop .i64
  let object ← malloc size
  let ptr ← structMember cls object 0
  store (.global (Layout.vtableName cls)) ptr
  return object

/-- The function in a slot of an object's table. -/
def vtableEntry (cls : String) (object : Value) (slot : Nat) : m Value := do
  let ptr ← structMember cls object 0
  let table ← load ptr .ptr
  let entry ← element .ptr table [.i32 slot]
  load entry .ptr

end ClassLang.Lower
