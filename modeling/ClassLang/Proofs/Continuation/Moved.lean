import ClassLang.Parse.Program

/-!
# Trees at a later place

Text written behind other text comes by a number of bytes and of lines later, while its columns stay
what they are if it begins a new line. `moved` is the effect on tokens, trees and errors: every span
is moved, and nothing else changes.
-/

namespace ClassLang

/-- How much text stands in front. -/
structure Shift where
  bytes : Nat
  lines : Nat
deriving DecidableEq, Repr

/-- The effect of a shift on something that has spans in it. -/
class Movable (α : Type) where
  move : Shift → α → α

open Movable (move)

/-! ## Trees -/

def Span.moved (d : Shift) (s : Span) : Span :=
  { s with start := s.start + d.bytes, stop := s.stop + d.bytes, line := s.line + d.lines }

def Token.moved (d : Shift) (t : Token) : Token := { t with span := t.span.moved d }

def Ident.moved (d : Shift) (n : Ident) : Ident := ⟨n.name, n.span.moved d⟩

mutual

@[simp] def TypeExpr.moved (d : Shift) : TypeExpr → TypeExpr
  | .named n => .named (n.moved d)
  | .array element s => .array (element.moved d) (s.moved d)
  | .map key value s => .map (key.moved d) (value.moved d) (s.moved d)
  | .pointer inner s => .pointer (inner.moved d) (s.moved d)
  | .generic n args s => .generic (n.moved d) (TypeExpr.allMoved d args) (s.moved d)

def TypeExpr.allMoved (d : Shift) : List TypeExpr → List TypeExpr
  | [] => []
  | t :: ts => t.moved d :: TypeExpr.allMoved d ts

end

@[simp] def Param.moved (d : Shift) (p : Param) : Param :=
  ⟨p.name.moved d, p.type?.map (TypeExpr.moved d), p.span.moved d⟩

@[simp] def InterfaceMethod.moved (d : Shift) (m : InterfaceMethod) : InterfaceMethod :=
  ⟨m.name.moved d, m.params.map (Param.moved d), m.ret?.map (TypeExpr.moved d), m.span.moved d⟩

mutual

@[simp] def Expr.moved (d : Shift) : Expr → Expr
  | .ident n => .ident (n.moved d)
  | .int v s => .int v (s.moved d)
  | .float v s => .float v (s.moved d)
  | .string body s => .string body (s.moved d)
  | .char body s => .char body (s.moved d)
  | .bool v s => .bool v (s.moved d)
  | .null s => .null (s.moved d)
  | .prefixed op right s => .prefixed op (right.moved d) (s.moved d)
  | .binary op left right s => .binary op (left.moved d) (right.moved d) (s.moved d)
  | .postfixed op operand s => .postfixed op (operand.moved d) (s.moved d)
  | .assign op target value s => .assign op (target.moved d) (value.moved d) (s.moved d)
  | .call function args s => .call (function.moved d) (Expr.allMoved d args) (s.moved d)
  | .index object key s => .index (object.moved d) (key.moved d) (s.moved d)
  | .member object property arrow s =>
    .member (object.moved d) (property.moved d) arrow (s.moved d)
  | .array elements s => .array (Expr.allMoved d elements) (s.moved d)
  | .hash entries s => .hash (Entry.allMoved d entries) (s.moved d)
  | .lambda params ret? body s =>
    .lambda (params.map (Param.moved d)) (ret?.map (TypeExpr.moved d)) (body.moved d) (s.moved d)
  | .new type args s => .new (type.moved d) (Expr.allMoved d args) (s.moved d)
  | .this s => .this (s.moved d)
  | .super s => .super (s.moved d)
  | .templateInstance n args s =>
    .templateInstance (n.moved d) (args.map (TypeExpr.moved d)) (s.moved d)

def Expr.allMoved (d : Shift) : List Expr → List Expr
  | [] => []
  | e :: es => e.moved d :: Expr.allMoved d es

def Expr.optMoved (d : Shift) : Option Expr → Option Expr
  | none => none
  | some e => some (e.moved d)

@[simp] def Entry.moved (d : Shift) : Entry → Entry
  | ⟨key, value⟩ => ⟨key.moved d, value.moved d⟩

def Entry.allMoved (d : Shift) : List Entry → List Entry
  | [] => []
  | e :: es => e.moved d :: Entry.allMoved d es

@[simp] def Stmt.moved (d : Shift) : Stmt → Stmt
  | .package name s => .package (name.moved d) (s.moved d)
  | .imports paths s => .imports paths (s.moved d)
  | .var name type? value? s =>
    .var (name.moved d) (type?.map (TypeExpr.moved d))
      (Expr.optMoved d value?) (s.moved d)
  | .const name type? value s =>
    .const (name.moved d) (type?.map (TypeExpr.moved d)) (value.moved d) (s.moved d)
  | .ret value? s =>
    .ret (Expr.optMoved d value?) (s.moved d)
  | .expr e => .expr (e.moved d)
  | .block b => .block (b.moved d)
  | .ifElse condition consequence alternative? s =>
    .ifElse (condition.moved d) (consequence.moved d)
      (Stmt.optMoved d alternative?) (s.moved d)
  | .forLoop init? condition? post? body s =>
    .forLoop (Stmt.optMoved d init?)
      (Expr.optMoved d condition?)
      (Stmt.optMoved d post?) (body.moved d) (s.moved d)
  | .whileLoop condition body s => .whileLoop (condition.moved d) (body.moved d) (s.moved d)
  | .switch tag? cases default? s =>
    .switch (Expr.optMoved d tag?) (Case.allMoved d cases)
      (Block.optMoved d default?) (s.moved d)
  | .break_ s => .break_ (s.moved d)
  | .continue_ s => .continue_ (s.moved d)
  | .function f => .function (f.moved d)
  | .method m => .method (m.moved d)
  | .class_ c => .class_ (c.moved d)
  | .interface name methods s =>
    .interface (name.moved d) (methods.map (InterfaceMethod.moved d)) (s.moved d)
  | .template params body s =>
    .template (params.map (Ident.moved d)) (body.moved d) (s.moved d)
  | .tryCatch body catches finally? s =>
    .tryCatch (body.moved d) (Catch.allMoved d catches)
      (Block.optMoved d finally?) (s.moved d)
  | .throw value s => .throw (value.moved d) (s.moved d)
  | .scope body s => .scope (body.moved d) (s.moved d)

def Stmt.optMoved (d : Shift) : Option Stmt → Option Stmt
  | none => none
  | some s => some (s.moved d)

def Stmt.allMoved (d : Shift) : List Stmt → List Stmt
  | [] => []
  | s :: ss => s.moved d :: Stmt.allMoved d ss

@[simp] def Block.moved (d : Shift) : Block → Block
  | ⟨stmts, s⟩ => ⟨Stmt.allMoved d stmts, s.moved d⟩

def Block.optMoved (d : Shift) : Option Block → Option Block
  | none => none
  | some b => some (b.moved d)

@[simp] def Case.moved (d : Shift) : Case → Case
  | ⟨values, body, s⟩ => ⟨Expr.allMoved d values, body.moved d, s.moved d⟩

def Case.allMoved (d : Shift) : List Case → List Case
  | [] => []
  | c :: cs => c.moved d :: Case.allMoved d cs

@[simp] def Catch.moved (d : Shift) : Catch → Catch
  | ⟨param?, type?, body, s⟩ =>
    ⟨param?.map (Ident.moved d), type?.map (TypeExpr.moved d), body.moved d, s.moved d⟩

def Catch.allMoved (d : Shift) : List Catch → List Catch
  | [] => []
  | c :: cs => c.moved d :: Catch.allMoved d cs

@[simp] def Function.moved (d : Shift) : Function → Function
  | ⟨name, params, ret?, body, modifiers, s⟩ =>
    ⟨name.moved d, params.map (Param.moved d), ret?.map (TypeExpr.moved d), body.moved d, modifiers,
      s.moved d⟩

@[simp] def Method.moved (d : Shift) : Method → Method
  | ⟨receiver, name, params, ret?, body, s⟩ =>
    ⟨receiver.moved d, name.moved d, params.map (Param.moved d), ret?.map (TypeExpr.moved d),
      body.moved d, s.moved d⟩

@[simp] def Field.moved (d : Shift) : Field → Field
  | ⟨name, type?, value?, isConst, modifiers, s⟩ =>
    ⟨name.moved d, type?.map (TypeExpr.moved d),
      (Expr.optMoved d value?), isConst, modifiers,
      s.moved d⟩

@[simp] def Member.moved (d : Shift) : Member → Member
  | .field f => .field (f.moved d)
  | .method f => .method (f.moved d)

def Member.allMoved (d : Shift) : List Member → List Member
  | [] => []
  | m :: ms => m.moved d :: Member.allMoved d ms

@[simp] def Class.moved (d : Shift) : Class → Class
  | ⟨name, extends?, implements, members, s⟩ =>
    ⟨name.moved d, extends?.map (Ident.moved d), implements.map (Ident.moved d),
      Member.allMoved d members, s.moved d⟩

end

def ParseError.moved (d : Shift) (e : ParseError) : ParseError := { e with span := e.span.moved d }

/-- The same parser, standing behind other text. -/
def Parser.moved (d : Shift) (p : Parser) : Parser where
  current := p.current.moved d
  rest := p.rest.map (Token.moved d)
  errors := p.errors.map (ParseError.moved d)
  templates := p.templates

/-! ## What is moved in the same way everywhere -/

section

variable {α β : Type}

instance : Movable Span := ⟨Span.moved⟩
instance : Movable Token := ⟨Token.moved⟩
instance : Movable Ident := ⟨Ident.moved⟩
instance : Movable TypeExpr := ⟨TypeExpr.moved⟩
instance : Movable Param := ⟨Param.moved⟩
instance : Movable InterfaceMethod := ⟨InterfaceMethod.moved⟩
instance : Movable Expr := ⟨Expr.moved⟩
instance : Movable Entry := ⟨Entry.moved⟩
instance : Movable Stmt := ⟨Stmt.moved⟩
instance : Movable Block := ⟨Block.moved⟩
instance : Movable Case := ⟨Case.moved⟩
instance : Movable Catch := ⟨Catch.moved⟩
instance : Movable Function := ⟨Function.moved⟩
instance : Movable Method := ⟨Method.moved⟩
instance : Movable Field := ⟨Field.moved⟩
instance : Movable Member := ⟨Member.moved⟩
instance : Movable Class := ⟨Class.moved⟩
instance : Movable ParseError := ⟨ParseError.moved⟩
instance : Movable Parser := ⟨Parser.moved⟩

/-! What has no spans in it stays. -/

instance : Movable Unit := ⟨fun _ a => a⟩
instance : Movable Bool := ⟨fun _ a => a⟩
instance : Movable String := ⟨fun _ a => a⟩
instance : Movable TokenKind := ⟨fun _ a => a⟩
instance : Movable Keyword := ⟨fun _ a => a⟩
instance : Movable Modifiers := ⟨fun _ a => a⟩

instance [Movable α] : Movable (List α) := ⟨fun d as => as.map (move d)⟩
instance [Movable α] : Movable (Option α) := ⟨fun d a? => a?.map (move d)⟩
instance [Movable α] [Movable β] : Movable (α × β) := ⟨fun d r => (move d r.1, move d r.2)⟩
instance [Movable α] [Movable β] : Movable (α ⊕ β) := ⟨fun d r => r.map (move d) (move d)⟩

end

/-! ## Equations -/

variable (d : Shift)

@[simp] theorem Span.upTo_moved (s t : Span) :
    (s.moved d).upTo (t.moved d) = (s.upTo t).moved d := by
  simp only [Span.upTo, Span.moved, Nat.add_max_add_right]

@[simp] theorem TypeExpr.allMoved_eq (ts : List TypeExpr) :
    TypeExpr.allMoved d ts = ts.map (move d) := by
  induction ts with
  | nil => rfl
  | cons t ts ih => rw [TypeExpr.allMoved, ih]; rfl

@[simp] theorem Expr.allMoved_eq (es : List Expr) : Expr.allMoved d es = es.map (move d) := by
  induction es with
  | nil => rfl
  | cons e es ih => rw [Expr.allMoved, ih]; rfl

@[simp] theorem Entry.allMoved_eq (es : List Entry) : Entry.allMoved d es = es.map (move d) := by
  induction es with
  | nil => rfl
  | cons e es ih => rw [Entry.allMoved, ih]; rfl

@[simp] theorem Stmt.allMoved_eq (ss : List Stmt) : Stmt.allMoved d ss = ss.map (move d) := by
  induction ss with
  | nil => rfl
  | cons s ss ih => rw [Stmt.allMoved, ih]; rfl

@[simp] theorem Case.allMoved_eq (cs : List Case) : Case.allMoved d cs = cs.map (move d) := by
  induction cs with
  | nil => rfl
  | cons c cs ih => rw [Case.allMoved, ih]; rfl

@[simp] theorem Catch.allMoved_eq (cs : List Catch) : Catch.allMoved d cs = cs.map (move d) := by
  induction cs with
  | nil => rfl
  | cons c cs ih => rw [Catch.allMoved, ih]; rfl

@[simp] theorem Member.allMoved_eq (ms : List Member) : Member.allMoved d ms = ms.map (move d) := by
  induction ms with
  | nil => rfl
  | cons m ms ih => rw [Member.allMoved, ih]; rfl

/-! Optional parts are moved like any others. -/

@[simp] theorem Expr.optMoved_eq (e? : Option Expr) : Expr.optMoved d e? = move d e? := by
  cases e? <;> rfl

@[simp] theorem Stmt.optMoved_eq (s? : Option Stmt) : Stmt.optMoved d s? = move d s? := by
  cases s? <;> rfl

@[simp] theorem Block.optMoved_eq (b? : Option Block) : Block.optMoved d b? = move d b? := by
  cases b? <;> rfl

@[simp] theorem Token.span_moved (t : Token) : (t.moved d).span = t.span.moved d := rfl

@[simp] theorem Ident.span_moved (n : Ident) : (n.moved d).span = n.span.moved d := rfl

@[simp] theorem TypeExpr.span_moved (t : TypeExpr) : (t.moved d).span = t.span.moved d := by
  cases t <;> rfl

@[simp] theorem Expr.span_moved (e : Expr) : (e.moved d).span = e.span.moved d := by
  cases e <;> rfl

@[simp] theorem Block.span_moved (b : Block) : (b.moved d).span = b.span.moved d := by
  cases b; rfl

@[simp] theorem Catch.span_moved (c : Catch) : (c.moved d).span = c.span.moved d := by
  cases c; rfl

@[simp] theorem Stmt.span_moved (s : Stmt) : (s.moved d).span = s.span.moved d := by
  cases s with
  | expr e => exact e.span_moved d
  | block b => exact b.span_moved d
  | function f => cases f; rfl
  | method m => cases m; rfl
  | class_ c => cases c; rfl
  | _ => rfl

/-! ## Parsers -/

namespace Parser

variable (p : Parser)

@[simp] theorem kind_moved : (p.moved d).kind = p.kind := rfl

@[simp] theorem atEof_moved : (p.moved d).atEof = p.atEof := rfl

@[simp] theorem fuel_moved : (p.moved d).fuel = p.fuel := by
  simp [fuel, moved]

@[simp] theorem peek_moved : (p.moved d).peek = p.peek.moved d := by
  obtain ⟨current, rest, errors, templates⟩ := p
  cases rest <;> rfl

@[simp] theorem advanced_moved : (p.moved d).advanced = p.advanced.moved d := by
  obtain ⟨current, rest, errors, templates⟩ := p
  cases rest <;> rfl

end Parser

end ClassLang
