import ClassLang.Gen.Cursor

/-!
# Conversions and operators

A constant is converted at once; any other value by an instruction. Operands of two types are
brought to one: floating point before integers, the wider before the narrower.
-/

namespace ClassLang.Lower

open Ir (Value)

variable {m : Type → Type} [Monad m] [MonadLiftT Gen m] [Emitter m]

/-- Whether a type stands for a name that analysis did not resolve. -/
def isUnresolved : Ty → Bool
  | .basic name _ => name == "unknown"
  | _ => false

/-- A 64-bit integer with its sign changed; the least one stays. -/
def negate64 (v : Int) : Int := Int.bmod (-v) (Nat.pow 2 64)

/-! ## Conversions -/

/-- The truth of a value that is known without an instruction. -/
def constantTruth? (v : Value) : Option Value :=
  if v.ty = .i1 then some v
  else
    match v with
    | .int n _ => some (.bool (n != 0))
    | .null => some (.bool false)
    | _ => none

/-- Whether a value is not zero. -/
def truth (v : Value) : m Value := do
  match constantTruth? v with
  | some b => return b
  | none => compare .ne v (.zero v.ty)

/-- The conversion of a constant. -/
def convertConstant? (v : Value) (target : Ir.Ty) : Option Value :=
  match v with
  | .int n _ =>
    if target.isInteger then some (.int n target)
    else if target.isFloat then some (.float (.ofInt n) target)
    else if n = 0 ∧ target = .ptr then some .null
    else none
  | .float x _ =>
    if target.isFloat then some (.float x target)
    else if target.isInteger then some (.int x.toInt64 target)
    else none
  | .bool b => if target.isInteger then some (.int (if b then 1 else 0) target) else none
  | .undefined _ => some (.undefined target)
  | _ => none

/-- The instruction that converts between two types, if there is one. -/
def castOp? (source target : Ir.Ty) : Option Ir.CastOp :=
  if source.isInteger && target.isInteger then
    if target.bits < source.bits then some .truncate
    else if source = .i1 then some .zeroExtend
    else some .signExtend
  else if source.isInteger && target.isFloat then some .intToFloat
  else if source.isFloat && target.isInteger then some .floatToInt
  else if source = .float && target = .double then some .floatExtend
  else if source = .double && target = .float then some .floatTruncate
  else none

/-- A value in another type. One that cannot be converted stays as it is. -/
def convert (v : Value) (target : Ir.Ty) : m Value := do
  if v.ty = target || target.isVoid then return v
  else if target = .i1 && v.ty.isInteger then truth v
  else
    match convertConstant? v target with
    | some c => return c
    | none =>
      match castOp? v.ty target with
      | some op => cast op v target
      | none => return v

/-- An argument for a variadic function: small integers and single precision are widened. -/
def promote (o : Operand) : m Value :=
  match o.ir with
  | .i1 | .i8 | .i16 => convert o.value .i32
  | .float => convert o.value .double
  | _ => return o.value

/-! ## Operators -/

/-- The type to which operands of two different types are brought. -/
def commonType (l r : Ir.Ty) : Ir.Ty :=
  if l.isFloat || r.isFloat then if l = .double || r = .double then .double else .float
  else if l.isInteger && r.isInteger then if r.bits ≤ l.bits then l else r
  else if l = .ptr || r = .ptr then .ptr
  else l

/-- Brings two operands to one type. -/
def unify (left right : Operand) : m (Value × Value × Ty) := do
  if left.ir = right.ir then
    return (left.value, right.value, if isUnresolved left.ty then right.ty else left.ty)
  else
    let target := commonType left.ir right.ir
    let l ← convert left.value target
    let r ← convert right.value target
    return (l, r, if left.ir = target then left.ty else right.ty)

def compareOp : InfixOp → Ir.CompareOp
  | .notEqual => .ne
  | .less => .lt
  | .greater => .gt
  | .lessEqual => .le
  | .greaterEqual => .ge
  | _ => .eq

def arithmeticOp : InfixOp → Ir.BinaryOp
  | .add => .add
  | .subtract => .sub
  | .multiply => .mul
  | .divide => .div
  | .modulo => .rem
  | .bitAnd => .and
  | .bitOr => .or
  | .bitXor => .xor
  | .leftShift => .shl
  | _ => .shr

/-- The result of a comparison; strings are compared by what they hold. -/
def comparison (op : InfixOp) (left right : Operand) : m Value := do
  if left.ty.isString && right.ty.isString then
    let order ← callOutside "strcmp" .i32 [.ptr, .ptr] [left.value, right.value]
    compare (compareOp op) order (.i32 0)
  else
    let (l, r, _) ← unify left right
    compare (compareOp op) l r

/-- The result of an operator on two values. -/
def infix_ (op : InfixOp) (left right : Operand) : m Operand := do
  if op.isComparison then return ⟨← comparison op left right, .bool⟩
  else if op.isLogical then
    let l ← truth left.value
    let r ← truth right.value
    return ⟨← binary (if op = .and then .and else .or) l r, .bool⟩
  else if op = .add && (left.ty.isString || right.ty.isString) then
    return ⟨← callOutside "gominus_string_concat" .ptr [.ptr, .ptr] [left.value, right.value],
      .string⟩
  else
    let (l, r, ty) ← unify left right
    return ⟨← binary (arithmeticOp op) l r, ty⟩

/-- The result of an operator on one value. -/
def prefixed (op : PrefixOp) (operand : Operand) : m Operand := do
  match op with
  | .not =>
    match ← truth operand.value with
    | .bool b => return ⟨.bool (!b), .bool⟩
    | v => return ⟨← binary .xor v (.bool true), .bool⟩
  | .negate =>
    match operand.value with
    | .int n t => return ⟨.int (negate64 n) t, operand.ty⟩
    | .float x t => return ⟨.float x.neg t, operand.ty⟩
    | v => return ⟨← binary .sub (.zero v.ty) v, operand.ty⟩
  | .bitNot => return ⟨← binary .xor operand.value (.int (-1) operand.ir), operand.ty⟩

/-- Adds one to what a location holds, or takes one away, and gives the value from before. -/
def step (op : PostfixOp) (l : Location) : m Operand := do
  let old ← load l.ptr l.ir
  let one : Value := if l.ir.isFloat then .float .one l.ir else .int 1 l.ir
  let new ← binary (match op with | .increment => .add | .decrement => .sub) old one
  store new l.ptr
  return ⟨old, l.ty⟩

/-- Stores a value at a location, and gives the value as stored. -/
def assign (l : Location) (v : Value) : m Operand := do
  let v ← convert v l.ir
  store v l.ptr
  return ⟨v, l.ty⟩

/-- A new local. A written type decides how it is stored, unless it stands for nothing known. -/
def define (name : String) (declared? : Option Ty) (value? : Option Operand) : m Location := do
  let (ty, ir) := match declared?, value? with
    | some ty, some o => (ty, if isUnresolved ty then o.ir.orI32 else storageOf ty)
    | some ty, none => (ty, storageOf ty)
    | none, some o => (o.ty, o.ir.orI32)
    | none, none => (.unknown, .i32)
  let ptr ← alloca ir
  let init ← match value? with
    | some o => convert o.value ir
    | none => pure (.zero ir)
  store init ptr
  bind name ⟨ptr, ty, ir⟩
  return ⟨ptr, ty, ir⟩

end ClassLang.Lower
