import ClassLang.Ast.Basic

/-!
# Types

The types that expressions have. Classes and interfaces are known by name only; their members are
recorded with the symbol that declares them. A template type without a base is a type parameter.
-/

namespace ClassLang

/-- What a basic type is, whatever it is called: `int32` and `byte` are both integers. -/
inductive BasicKind where
  | int | float | string | bool | char | null | void
  /-- Stands for anything. -/
  | unknown
deriving DecidableEq, Repr, Inhabited

/-- A type. -/
inductive Ty where
  | basic (name : String) (kind : BasicKind)
  | array (element : Ty)
  | map (key value : Ty)
  | func (params : List Ty) (ret : Ty) (variadic : Bool)
  | class_ (name : String)
  | interface (name : String)
  /-- A template, or with no base a type parameter. -/
  | template (name : String) (params : List String) (base? : Option Ty)
deriving Repr, Inhabited

namespace Ty

def int : Ty := basic "int" .int
def float : Ty := basic "float" .float
def string : Ty := basic "string" .string
def bool : Ty := basic "bool" .bool
def char : Ty := basic "char" .char
def null : Ty := basic "nil" .null
def void : Ty := basic "void" .void
def unknown : Ty := basic "unknown" .unknown
def byte : Ty := basic "byte" .int
def int64 : Ty := basic "int64" .int

/-- The type parameter of a name. -/
def param (name : String) : Ty := template name [] none

/-- The kind of a basic type, by its written name. -/
def basicKind? : String → Option BasicKind
  | "int" | "int8" | "int16" | "int32" | "int64" | "uint" | "uint8" | "uint16" | "uint32"
  | "uint64" | "byte" => some .int
  | "float" | "float32" | "float64" => some .float
  | "string" => some .string
  | "bool" => some .bool
  | "rune" | "char" => some .char
  | "void" => some .void
  | "any" | "error" => some .unknown
  | _ => none

/-- The basic type of a written name. -/
def ofBasicName? (name : String) : Option Ty := (basicKind? name).map (basic name)

/-- The type of a literal. -/
def ofLiteral? : Expr → Option Ty
  | .int .. => some int
  | .float .. => some float
  | .string .. => some string
  | .char .. => some char
  | .bool .. => some bool
  | _ => none

def kind? : Ty → Option BasicKind
  | basic _ k => some k
  | _ => none

def isKind (t : Ty) (k : BasicKind) : Bool := t.kind? == some k

def isUnknown (t : Ty) : Bool := t.isKind .unknown
def isInt (t : Ty) : Bool := t.isKind .int
def isFloat (t : Ty) : Bool := t.isKind .float
def isNumeric (t : Ty) : Bool := t.isInt || t.isFloat
def isString (t : Ty) : Bool := t.isKind .string
def isBool (t : Ty) : Bool := t.isKind .bool
def isVoid (t : Ty) : Bool := t.isKind .void

/-- Types that every type agrees with: the unknown type and type parameters. -/
def isWildcard : Ty → Bool
  | basic _ k => k == .unknown
  | template _ _ none => true
  | _ => false

/-- Types that have a null value. -/
def isReference : Ty → Bool
  | array _ | map .. | func .. | class_ _ | interface _ => true
  | t => t.isString

mutual

/-- Equality of types; basic types are equal when they are of one kind. -/
def same : Ty → Ty → Bool
  | basic _ k, basic _ l => k == l
  | array a, array b => same a b
  | map k v, map l w => same k l && same v w
  | func ps r v, func qs s w => v == w && same r s && sameAll ps qs
  | class_ a, class_ b => a == b
  | interface a, interface b => a == b
  | template a _ _, template b _ _ => a == b
  | _, _ => false

/-- Equality of lists of types. -/
def sameAll : List Ty → List Ty → Bool
  | [], [] => true
  | a :: as, b :: bs => same a b && sameAll as bs
  | _, _ => false

end

/-- Whether a value of one type can be stored in a place of another, leaving subclassing aside. -/
def accepts : Ty → Ty → Bool
  | array a, array b => accepts a b
  | map k v, map l w => accepts k l && accepts v w
  | target, value =>
    target.isWildcard || value.isWildcard || (value.isKind .null && target.isReference) ||
      same target value

mutual

/-- Replaces type parameters by the types bound to them; the first binding of a name counts. -/
def substitute (bindings : List (String × Ty)) : Ty → Ty
  | template name params none => (bindings.lookup name).getD (template name params none)
  | array a => array (substitute bindings a)
  | map k v => map (substitute bindings k) (substitute bindings v)
  | func ps r v => func (substituteAll bindings ps) (substitute bindings r) v
  | t => t

def substituteAll (bindings : List (String × Ty)) : List Ty → List Ty
  | [] => []
  | t :: ts => substitute bindings t :: substituteAll bindings ts

end

mutual

/-- The type as messages show it. -/
def text : Ty → String
  | basic name _ => name
  | array a => "[]" ++ text a
  | map k v => "map[" ++ text k ++ "]" ++ text v
  | func ps r variadic =>
    let more := if variadic then [if ps.isEmpty then "..." else ", ..."] else []
    "func(" ++ String.intercalate ", " (texts ps) ++ String.join more ++ ")" ++
      (if r.isVoid then "" else " " ++ text r)
  | class_ name => name
  | interface name => name
  | template name params _ =>
    if params.isEmpty then name else name ++ "<" ++ String.intercalate ", " params ++ ">"

def texts : List Ty → List String
  | [] => []
  | t :: ts => text t :: texts ts

end

end Ty

/-- Parameter and result types of a function. A variadic one takes further arguments of any type. -/
structure Signature where
  params : List Ty
  ret : Ty
  variadic : Bool := false
deriving Repr, Inhabited

namespace Signature

def toTy (s : Signature) : Ty := .func s.params s.ret s.variadic

def substitute (s : Signature) (bindings : List (String × Ty)) : Signature :=
  { s with params := Ty.substituteAll bindings s.params, ret := s.ret.substitute bindings }

/-- The signature of a function type. -/
def ofTy? : Ty → Option Signature
  | .func params ret variadic => some ⟨params, ret, variadic⟩
  | _ => none

end Signature

end ClassLang
