import ClassLang.Ast.Operator
import ClassLang.Decimal.Binary64

/-!
# Programs as trees

Written types, expressions, statements and declarations, each with the span it was read from. The
bodies of string and character literals are kept as written, escapes included; an integer literal
is a natural number and a floating-point literal the double it denotes.
-/

namespace ClassLang

/-- A name and where it stands. -/
structure Ident where
  name : String
  span : Span
deriving DecidableEq, Repr, Inhabited

/-- A type as written in source. -/
inductive TypeExpr where
  | named (name : Ident)
  /-- `[]T` -/
  | array (element : TypeExpr) (span : Span)
  /-- `map[K]V` -/
  | map (key value : TypeExpr) (span : Span)
  /-- `*T` -/
  | pointer (inner : TypeExpr) (span : Span)
  /-- `Name<T, U>` -/
  | generic (name : Ident) (args : List TypeExpr) (span : Span)
deriving Repr, Inhabited

namespace TypeExpr

def span : TypeExpr → Span
  | named n => n.span
  | array _ s | map _ _ s | pointer _ s | generic _ _ s => s

/-- The type without its pointers. -/
def base : TypeExpr → TypeExpr
  | pointer inner _ => inner.base
  | t => t

/-- The class a type names, if it names one. -/
def className? (t : TypeExpr) : Option String :=
  match t.base with
  | named n => some n.name
  | generic n _ _ => some n.name
  | _ => none

end TypeExpr

/-- A parameter, whose type may be left out. -/
structure Param where
  name : Ident
  type? : Option TypeExpr
  span : Span
deriving Repr, Inhabited

inductive Visibility where
  | public_ | private_ | protected_
deriving DecidableEq, Repr, Inhabited

/-- What may be written before a class member. -/
structure Modifiers where
  visibility : Visibility := .public_
  isVirtual : Bool := false
  isOverride : Bool := false
  isStatic : Bool := false
  isFinal : Bool := false
  isAbstract : Bool := false
deriving DecidableEq, Repr, Inhabited

/-- A method that an interface asks for. -/
structure InterfaceMethod where
  name : Ident
  params : List Param
  ret? : Option TypeExpr
  span : Span
deriving Repr, Inhabited

mutual

/-- Expressions. -/
inductive Expr where
  | ident (name : Ident)
  | int (value : Nat) (span : Span)
  | float (value : Binary64) (span : Span)
  | string (body : String) (span : Span)
  | char (body : String) (span : Span)
  | bool (value : Bool) (span : Span)
  | null (span : Span)
  | prefixed (op : PrefixOp) (right : Expr) (span : Span)
  | binary (op : InfixOp) (left right : Expr) (span : Span)
  | postfixed (op : PostfixOp) (operand : Expr) (span : Span)
  | assign (op : AssignOp) (target value : Expr) (span : Span)
  | call (function : Expr) (args : List Expr) (span : Span)
  | index (object key : Expr) (span : Span)
  /-- `object.property`, or `object->property` with `arrow` set -/
  | member (object : Expr) (property : Ident) (arrow : Bool) (span : Span)
  | array (elements : List Expr) (span : Span)
  | hash (entries : List Entry) (span : Span)
  | lambda (params : List Param) (ret? : Option TypeExpr) (body : Block) (span : Span)
  | new (type : TypeExpr) (args : List Expr) (span : Span)
  | this (span : Span)
  | super (span : Span)
  /-- `Name<T, U>` where `Name` is a template -/
  | templateInstance (template : Ident) (typeArgs : List TypeExpr) (span : Span)

/-- Statements and declarations. -/
inductive Stmt where
  | package (name : Ident) (span : Span)
  | imports (paths : List String) (span : Span)
  | var (name : Ident) (type? : Option TypeExpr) (value? : Option Expr) (span : Span)
  | const (name : Ident) (type? : Option TypeExpr) (value : Expr) (span : Span)
  | ret (value? : Option Expr) (span : Span)
  | expr (value : Expr)
  | block (body : Block)
  | ifElse (condition : Expr) (consequence : Block) (alternative? : Option Stmt) (span : Span)
  | forLoop (init? : Option Stmt) (condition? : Option Expr) (post? : Option Stmt) (body : Block)
      (span : Span)
  | whileLoop (condition : Expr) (body : Block) (span : Span)
  | switch (tag? : Option Expr) (cases : List Case) (default? : Option Block) (span : Span)
  | break_ (span : Span)
  | continue_ (span : Span)
  | function (decl : Function)
  | method (decl : Method)
  | class_ (decl : Class)
  | interface (name : Ident) (methods : List InterfaceMethod) (span : Span)
  | template (params : List Ident) (body : Stmt) (span : Span)
  | tryCatch (body : Block) (catches : List Catch) (finally? : Option Block) (span : Span)
  | throw (value : Expr) (span : Span)
  | scope (body : Block) (span : Span)

/-- One `key: value` of a hash literal. -/
structure Entry where
  key : Expr
  value : Expr

/-- Statements between braces. -/
structure Block where
  stmts : List Stmt
  span : Span

/-- `case v, w: ...` -/
structure Case where
  values : List Expr
  body : Block
  span : Span

/-- `catch (name Type) { ... }` -/
structure Catch where
  param? : Option Ident
  type? : Option TypeExpr
  body : Block
  span : Span

/-- A function declaration, also as a class member. -/
structure Function where
  name : Ident
  params : List Param
  ret? : Option TypeExpr
  body : Block
  modifiers : Modifiers
  span : Span

/-- A method declared outside its class: `func (receiver Type) name(...)`. -/
structure Method where
  receiver : Param
  name : Ident
  params : List Param
  ret? : Option TypeExpr
  body : Block
  span : Span

/-- A class field. -/
structure Field where
  name : Ident
  type? : Option TypeExpr
  value? : Option Expr
  isConst : Bool
  modifiers : Modifiers
  span : Span

inductive Member where
  | field (decl : Field)
  | method (decl : Function)

/-- A class declaration. -/
structure Class where
  name : Ident
  extends? : Option Ident
  implements : List Ident
  members : List Member
  span : Span

end

instance : Inhabited Expr := ⟨.null default⟩
instance : Inhabited Block := ⟨⟨[], default⟩⟩
instance : Inhabited Stmt := ⟨.break_ default⟩

/-- A whole source file. -/
structure Program where
  stmts : List Stmt
  span : Span
deriving Inhabited

namespace Expr

def span : Expr → Span
  | ident n => n.span
  | int _ s | float _ s | string _ s | char _ s | bool _ s | null s => s
  | prefixed _ _ s | binary _ _ _ s | postfixed _ _ s | assign _ _ _ s => s
  | call _ _ s | index _ _ s | member _ _ _ s => s
  | array _ s | hash _ s | lambda _ _ _ s | new _ _ s => s
  | this s | super s | templateInstance _ _ s => s

end Expr

namespace Stmt

def span : Stmt → Span
  | package _ s | imports _ s | var _ _ _ s | const _ _ _ s | ret _ s => s
  | expr e => e.span
  | block b => b.span
  | ifElse _ _ _ s | forLoop _ _ _ _ s | whileLoop _ _ s | switch _ _ _ s => s
  | break_ s | continue_ s => s
  | function f => f.span
  | method m => m.span
  | class_ c => c.span
  | interface _ _ s | template _ _ s | tryCatch _ _ _ s | throw _ s | scope _ s => s

/-- Whether the statement declares something instead of doing something. Variables and constants
do something. -/
def isDeclaration : Stmt → Bool
  | package .. | imports .. | function _ | method _ | class_ _ | interface .. | template .. => true
  | _ => false

end Stmt

/-- The class of a method's receiver. -/
def Method.receiverClass? (m : Method) : Option String := m.receiver.type?.bind TypeExpr.className?

namespace Class

def fields (c : Class) : List Field :=
  c.members.filterMap fun
    | .field f => some f
    | .method _ => none

def methods (c : Class) : List Function :=
  c.members.filterMap fun
    | .method f => some f
    | .field _ => none

end Class

/-- The name of the function or class that a template declares. -/
def Stmt.templateName? : Stmt → Option Ident
  | .function f => some f.name
  | .class_ c => some c.name
  | _ => none

end ClassLang
