import ClassLang.Ir.Value
import ClassLang.Table

/-!
# Layouts of classes

An object of a class is a struct: a pointer to the class's table of virtual methods, the fields of
its ancestors, and its own fields. A virtual method has a slot in the table. A method that redefines
one with a slot takes over the slot; a new virtual method gets a new slot at the end.
-/

namespace ClassLang

/-- The type in which values of a source type are stored. -/
def storageOf (t : Ty) : Ir.Ty := (Ir.Ty.ofTy t).orI32

/-- A field of an object, with the expression that gives its first value. -/
structure FieldSlot where
  name : String
  ty : Ty
  default? : Option Expr

def FieldSlot.ir (f : FieldSlot) : Ir.Ty := storageOf f.ty

/-- A method as calls see it. -/
structure MethodEntry where
  /-- The function that implements it. -/
  symbol : String
  signature : Signature
  /-- Its slot, if it is virtual. -/
  slot? : Option Nat
  isStatic : Bool

/-- How objects of a class are laid out, and the methods that can be called on them. -/
structure Layout where
  name : String
  parent? : Option String := none
  /-- Inherited fields come first. -/
  fields : List FieldSlot := []
  /-- The function in each slot. -/
  vtable : List String := []
  /-- All methods, inherited ones too. -/
  methods : Table MethodEntry := {}

namespace Layout

/-- The name of the global that holds a class's table. -/
def vtableName (cls : String) : String := cls ++ "_vtable"

/-- The function that implements a method. -/
def methodSymbol (cls method : String) : String := cls ++ "_" ++ method

/-- The layout of a class before its own members are added. -/
def derive (name : String) (parent? : Option String) (base? : Option Layout) : Layout :=
  match base? with
  | some base => { base with name, parent? }
  | none => { name, parent? }

def addField (l : Layout) (f : FieldSlot) : Layout := { l with fields := l.fields ++ [f] }

/-- The slot that a method gets, and the table with the method in it. -/
def place (l : Layout) (method : String) (wantsSlot isStatic : Bool) : Option Nat × List String :=
  let symbol := methodSymbol l.name method
  if isStatic then (none, l.vtable)
  else
    match (l.methods.find? method).bind MethodEntry.slot? with
    | some slot => (some slot, l.vtable.set slot symbol)
    | none => if wantsSlot then (some l.vtable.length, l.vtable ++ [symbol]) else (none, l.vtable)

/-- Adds a method, in place of one of its name. -/
def addMethod (l : Layout) (method : String) (signature : Signature) (wantsSlot isStatic : Bool) :
    Layout :=
  let (slot?, vtable) := l.place method wantsSlot isStatic
  let symbol := methodSymbol l.name method
  { l with vtable, methods := l.methods.insert method { symbol, signature, slot?, isStatic } }

/-- The types of the struct's members. -/
def members (l : Layout) : List Ir.Ty := .ptr :: l.fields.map FieldSlot.ir

/-- The last field of a name among fields from struct index `index` on, with its index. -/
def lastField? (name : String) : (index : Nat) → List FieldSlot → Option (Nat × FieldSlot)
  | _, [] => none
  | index, f :: fs =>
    lastField? name (index + 1) fs <|> if f.name == name then some (index, f) else none

/-- Struct index and slot of a field. Own fields hide inherited ones. -/
def field? (l : Layout) (name : String) : Option (Nat × FieldSlot) := lastField? name 1 l.fields

end Layout

end ClassLang
