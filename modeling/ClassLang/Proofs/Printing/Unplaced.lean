import ClassLang.Ast.Basic

/-!
# Trees without places

`unplaced` gives every node of a tree the default span, the one of nodes that no text stands behind.
Two trees are the same up to spans if they are equal once unplaced.
-/

namespace ClassLang

def Ident.unplaced (n : Ident) : Ident := ⟨n.name, {}⟩

mutual

def TypeExpr.unplaced : TypeExpr → TypeExpr
  | .named n => .named n.unplaced
  | .array element _ => .array element.unplaced {}
  | .map key value _ => .map key.unplaced value.unplaced {}
  | .pointer inner _ => .pointer inner.unplaced {}
  | .generic n args _ => .generic n.unplaced (TypeExpr.allUnplaced args) {}

def TypeExpr.allUnplaced : List TypeExpr → List TypeExpr
  | [] => []
  | t :: ts => t.unplaced :: TypeExpr.allUnplaced ts

end

def Param.unplaced (p : Param) : Param := ⟨p.name.unplaced, p.type?.map TypeExpr.unplaced, {}⟩

def InterfaceMethod.unplaced (m : InterfaceMethod) : InterfaceMethod :=
  ⟨m.name.unplaced, m.params.map Param.unplaced, m.ret?.map TypeExpr.unplaced, {}⟩

mutual

def Expr.unplaced : Expr → Expr
  | .ident n => .ident n.unplaced
  | .int v _ => .int v {}
  | .float v _ => .float v {}
  | .string body _ => .string body {}
  | .char body _ => .char body {}
  | .bool v _ => .bool v {}
  | .null _ => .null {}
  | .prefixed op right _ => .prefixed op right.unplaced {}
  | .binary op left right _ => .binary op left.unplaced right.unplaced {}
  | .postfixed op operand _ => .postfixed op operand.unplaced {}
  | .assign op target value _ => .assign op target.unplaced value.unplaced {}
  | .call function args _ => .call function.unplaced (Expr.allUnplaced args) {}
  | .index object key _ => .index object.unplaced key.unplaced {}
  | .member object property arrow _ => .member object.unplaced property.unplaced arrow {}
  | .array elements _ => .array (Expr.allUnplaced elements) {}
  | .hash entries _ => .hash (Entry.allUnplaced entries) {}
  | .lambda params ret? body _ =>
    .lambda (params.map Param.unplaced) (ret?.map TypeExpr.unplaced) body.unplaced {}
  | .new type args _ => .new type.unplaced (Expr.allUnplaced args) {}
  | .this _ => .this {}
  | .super _ => .super {}
  | .templateInstance template typeArgs _ =>
    .templateInstance template.unplaced (typeArgs.map TypeExpr.unplaced) {}

def Expr.allUnplaced : List Expr → List Expr
  | [] => []
  | e :: es => e.unplaced :: Expr.allUnplaced es

def Entry.allUnplaced : List Entry → List Entry
  | [] => []
  | ⟨key, value⟩ :: es => ⟨key.unplaced, value.unplaced⟩ :: Entry.allUnplaced es

def Stmt.unplaced : Stmt → Stmt
  | .package name _ => .package name.unplaced {}
  | .imports paths _ => .imports paths {}
  | .var name type? value? _ =>
    .var name.unplaced (type?.map TypeExpr.unplaced)
      (match value? with | some v => some v.unplaced | none => none) {}
  | .const name type? value _ =>
    .const name.unplaced (type?.map TypeExpr.unplaced) value.unplaced {}
  | .ret value? _ => .ret (match value? with | some v => some v.unplaced | none => none) {}
  | .expr e => .expr e.unplaced
  | .block b => .block b.unplaced
  | .ifElse condition consequence alternative? _ =>
    .ifElse condition.unplaced consequence.unplaced
      (match alternative? with | some s => some s.unplaced | none => none) {}
  | .forLoop init? condition? post? body _ =>
    .forLoop (match init? with | some s => some s.unplaced | none => none)
      (match condition? with | some e => some e.unplaced | none => none)
      (match post? with | some s => some s.unplaced | none => none) body.unplaced {}
  | .whileLoop condition body _ => .whileLoop condition.unplaced body.unplaced {}
  | .switch tag? cases default? _ =>
    .switch (match tag? with | some e => some e.unplaced | none => none) (Case.allUnplaced cases)
      (match default? with | some b => some b.unplaced | none => none) {}
  | .break_ _ => .break_ {}
  | .continue_ _ => .continue_ {}
  | .function f => .function f.unplaced
  | .method ⟨receiver, name, params, ret?, body, _⟩ =>
    .method ⟨receiver.unplaced, name.unplaced, params.map Param.unplaced,
      ret?.map TypeExpr.unplaced, body.unplaced, {}⟩
  | .class_ ⟨name, extends?, implements, members, _⟩ =>
    .class_ ⟨name.unplaced, extends?.map Ident.unplaced, implements.map Ident.unplaced,
      Member.allUnplaced members, {}⟩
  | .interface name methods _ =>
    .interface name.unplaced (methods.map InterfaceMethod.unplaced) {}
  | .template params body _ => .template (params.map Ident.unplaced) body.unplaced {}
  | .tryCatch body catches finally? _ =>
    .tryCatch body.unplaced (Catch.allUnplaced catches)
      (match finally? with | some b => some b.unplaced | none => none) {}
  | .throw value _ => .throw value.unplaced {}
  | .scope body _ => .scope body.unplaced {}

def Stmt.allUnplaced : List Stmt → List Stmt
  | [] => []
  | s :: ss => s.unplaced :: Stmt.allUnplaced ss

def Block.unplaced : Block → Block
  | ⟨stmts, _⟩ => ⟨Stmt.allUnplaced stmts, {}⟩

def Case.allUnplaced : List Case → List Case
  | [] => []
  | ⟨values, body, _⟩ :: cs => ⟨Expr.allUnplaced values, body.unplaced, {}⟩ :: Case.allUnplaced cs

def Catch.allUnplaced : List Catch → List Catch
  | [] => []
  | ⟨param?, type?, body, _⟩ :: cs =>
    ⟨param?.map Ident.unplaced, type?.map TypeExpr.unplaced, body.unplaced, {}⟩ ::
      Catch.allUnplaced cs

def Function.unplaced : Function → Function
  | ⟨name, params, ret?, body, modifiers, _⟩ =>
    ⟨name.unplaced, params.map Param.unplaced, ret?.map TypeExpr.unplaced, body.unplaced,
      modifiers, {}⟩

def Member.allUnplaced : List Member → List Member
  | [] => []
  | .field ⟨name, type?, value?, isConst, modifiers, _⟩ :: ms =>
    .field ⟨name.unplaced, type?.map TypeExpr.unplaced,
      (match value? with | some v => some v.unplaced | none => none), isConst, modifiers, {}⟩ ::
      Member.allUnplaced ms
  | .method f :: ms => .method f.unplaced :: Member.allUnplaced ms

end

attribute [simp] Expr.unplaced

end ClassLang
