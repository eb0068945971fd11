import ClassLang.Ty

/-!
# Types and values of the intermediate representation

Values live in numbered registers, each of one type. Pointers are opaque: strings, objects, arrays,
maps and functions are all `ptr`. A constant keeps its value next to its type and is not cut to the
width of the type.
-/

namespace ClassLang.Ir

/-- The type of a value. -/
inductive Ty where
  | void | i1 | i8 | i16 | i32 | i64 | float | double | ptr
  /-- A named aggregate. -/
  | struct (name : String)
deriving DecidableEq, Repr, Inhabited

namespace Ty

/-- The type that stores values of a basic type, by the basic type's name. -/
def ofName? : String → Option Ty
  | "int" | "int32" | "uint" | "uint32" | "rune" | "char" => some i32
  | "int8" | "uint8" | "byte" => some i8
  | "int16" | "uint16" => some i16
  | "int64" | "uint64" => some i64
  | "float32" => some float
  | "float" | "float64" => some double
  | "bool" => some i1
  | "string" | "nil" | "any" | "error" => some ptr
  | "void" => some void
  | _ => none

/-- The type of values of a source type. A type that is not known is an `i32`. -/
def ofTy : ClassLang.Ty → Ty
  | .basic name _ => (ofName? name).getD i32
  | .array _ | .map .. | .func .. | .class_ _ | .interface _ => ptr
  | .template _ _ (some _) => ptr
  | .template _ _ none => i32

def isInteger : Ty → Bool
  | i1 | i8 | i16 | i32 | i64 => true
  | _ => false

def isFloat : Ty → Bool
  | float | double => true
  | _ => false

def isVoid : Ty → Bool
  | void => true
  | _ => false

/-- The type of a slot that holds values of a type; there is no slot for `void`, which takes the
place of a number. -/
def orI32 (t : Ty) : Ty := if t.isVoid then i32 else t

/-- Width in bits; aggregates have none. -/
def bits : Ty → Nat
  | i1 => 1
  | i8 => 8
  | i16 => 16
  | i32 | float => 32
  | i64 | double | ptr => 64
  | void | struct _ => 0

/-- Size in bytes of an array element or map entry. -/
def bytes (t : Ty) : Nat := max t.bits 8 / 8

/-- The literal for zero. -/
def zero : Ty → String
  | i1 => "false"
  | float | double => "0.0"
  | ptr => "null"
  | struct _ => "zeroinitializer"
  | _ => "0"

def text : Ty → String
  | void => "void"
  | i1 => "i1"
  | i8 => "i8"
  | i16 => "i16"
  | i32 => "i32"
  | i64 => "i64"
  | float => "float"
  | double => "double"
  | ptr => "ptr"
  | struct name => "%" ++ name

end Ty

/-- A register, which is written once. -/
structure Register where
  id : Nat
  ty : Ty
deriving DecidableEq, Repr, Inhabited

def Register.text (r : Register) : String := s!"%r{r.id}"

/-- What an instruction can take. -/
inductive Value where
  | reg (register : Register)
  | int (value : Int) (ty : Ty)
  | float (value : Binary64) (ty : Ty)
  | bool (value : Bool)
  | null
  /-- The address of a global or a function. -/
  | global (name : String)
  | undefined (ty : Ty)
deriving DecidableEq, Repr, Inhabited

namespace Value

def i32 (value : Int) : Value := int value .i32
def i64 (value : Int) : Value := int value .i64

/-- The zero of a type; where a type has none, nothing is defined. -/
def zero : Ty → Value
  | .i1 => bool false
  | .float => float .zero .float
  | .double => float .zero .double
  | .ptr => null
  | .void => undefined .void
  | .struct name => undefined (.struct name)
  | t => int 0 t

def isConstant : Value → Bool
  | reg _ => false
  | _ => true

def ty : Value → Ty
  | reg r => r.ty
  | int _ t | float _ t | undefined t => t
  | bool _ => .i1
  | null | global _ => .ptr

/-- The value as an operand. A floating-point constant is written by the bits of the double of its
value, rounded to single precision first if that is its type. -/
def text : Value → String
  | reg r => r.text
  | int v _ => toString v
  | float v .float => "0x" ++ v.toSingle.hex
  | float v _ => "0x" ++ v.hex
  | bool true => "true"
  | bool false => "false"
  | null => "null"
  | global name => "@" ++ name
  | undefined _ => "undef"

/-- The value with its type in front. -/
def typed (v : Value) : String := v.ty.text ++ " " ++ v.text

end Value

end ClassLang.Ir
