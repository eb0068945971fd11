import ClassLang.Check.Body

/-!
# Names that are mentioned

A tree mentions names as values, which are looked up when the type of an expression is inferred, and
in all other places: where a name is declared or bound, and where it stands for a type, a template or
a package. The properties and methods of objects are not looked up in scopes, and so are no mentions.
`mentions` lists them in the order in which analysis comes to them.
-/

namespace ClassLang

/-- A name at a place in a tree. -/
inductive Mention where
  /-- The name is used as a value. -/
  | value (name : Ident)
  /-- The name is bound, or stands for something that is no value. -/
  | name (name : String)
deriving DecidableEq, Repr, Inhabited

def Mention.value? : Mention → Option Ident
  | value n => some n
  | name _ => none

mutual

def TypeExpr.names : TypeExpr → List String
  | .named n => [n.name]
  | .array element _ => element.names
  | .map key value _ => key.names ++ value.names
  | .pointer inner _ => inner.names
  | .generic n args _ => n.name :: TypeExpr.namesOfAll args

def TypeExpr.namesOfAll : List TypeExpr → List String
  | [] => []
  | e :: es => e.names ++ TypeExpr.namesOfAll es

end

theorem TypeExpr.names_base : (e : TypeExpr) → e.base.names = e.names
  | .named _ | .array .. | .map .. | .generic .. => rfl
  | .pointer inner _ => inner.names_base

def TypeExpr.namesIf (e? : Option TypeExpr) : List String := e?.toList.flatMap TypeExpr.names

def Param.names (p : Param) : List String := p.name.name :: TypeExpr.namesIf p.type?

/-- The names in the parameters and the result of a function. -/
def functionNames (params : List Param) (ret? : Option TypeExpr) : List String :=
  params.flatMap Param.names ++ TypeExpr.namesIf ret?

/-- The names in the header of a class. -/
def headerNames (name : Ident) (extends? : Option Ident) (implements : List Ident) : List String :=
  name.name :: (extends?.toList ++ implements).map Ident.name

mutual

def Expr.mentions : Expr → List Mention
  | .ident n => [.value n]
  | .int .. | .float .. | .string .. | .char .. | .bool .. | .null _ | .this _ | .super _ => []
  | .prefixed _ right _ => right.mentions
  | .binary _ left right _ => left.mentions ++ right.mentions
  | .postfixed _ operand _ => operand.mentions
  | .assign .define (.ident n) value _ => .name n.name :: value.mentions
  | .assign _ target value _ => target.mentions ++ value.mentions
  | .call function args _ => function.mentions ++ Expr.mentionsOfAll args
  | .index object key _ => object.mentions ++ key.mentions
  | .member object _ _ _ => object.mentions
  | .array elements _ => Expr.mentionsOfAll elements
  | .hash entries _ => Entry.mentionsOfKeys entries ++ Entry.mentionsOfValues entries
  | .lambda params ret? body _ => (functionNames params ret?).map .name ++ body.mentions
  | .new type args _ => type.names.map .name ++ Expr.mentionsOfAll args
  | .templateInstance n typeArgs _ => (n.name :: TypeExpr.namesOfAll typeArgs).map .name

def Expr.mentionsOfAll : List Expr → List Mention
  | [] => []
  | e :: es => e.mentions ++ Expr.mentionsOfAll es

def Entry.mentionsOfKeys : List Entry → List Mention
  | [] => []
  | ⟨key, _⟩ :: es => key.mentions ++ Entry.mentionsOfKeys es

def Entry.mentionsOfValues : List Entry → List Mention
  | [] => []
  | ⟨_, value⟩ :: es => value.mentions ++ Entry.mentionsOfValues es

def Expr.mentionsIf : Option Expr → List Mention
  | some e => e.mentions
  | none => []

def Stmt.mentions : Stmt → List Mention
  | .package .. | .break_ _ | .continue_ _ => []
  | .imports paths _ => paths.map fun path => .name (Check.lastSegment path)
  | .var name type? value? _ =>
    (name.name :: TypeExpr.namesIf type?).map .name ++ Expr.mentionsIf value?
  | .const name type? value _ => (name.name :: TypeExpr.namesIf type?).map .name ++ value.mentions
  | .ret value? _ => Expr.mentionsIf value?
  | .expr value | .throw value _ => value.mentions
  | .block body | .scope body _ => body.mentions
  | .ifElse condition consequence alternative? _ =>
    condition.mentions ++ (consequence.mentions ++ Stmt.mentionsIf alternative?)
  | .forLoop init? condition? post? body _ =>
    Stmt.mentionsIf init? ++ (Expr.mentionsIf condition? ++ (Stmt.mentionsIf post? ++ body.mentions))
  | .whileLoop condition body _ => condition.mentions ++ body.mentions
  | .switch tag? cases default? _ =>
    Expr.mentionsIf tag? ++ (Case.mentionsOfValues cases ++
      (Case.mentionsOfBodies cases ++ Block.mentionsIf default?))
  | .function ⟨name, params, ret?, body, _, _⟩ =>
    (name.name :: functionNames params ret?).map .name ++ body.mentions
  | .method ⟨receiver, _, params, ret?, body, _⟩ =>
    (receiver.names ++ functionNames params ret?).map .name ++ body.mentions
  | .class_ ⟨name, extends?, implements, members, _⟩ =>
    (headerNames name extends? implements).map .name ++ Member.mentionsOfAll members
  | .interface name methods _ =>
    (name.name :: methods.flatMap fun m => functionNames m.params m.ret?).map .name
  | .template params body _ => (params.map Ident.name).map .name ++ body.mentions
  | .tryCatch body catches finally? _ =>
    body.mentions ++ (Catch.mentionsOfAll catches ++ Block.mentionsIf finally?)

def Stmt.mentionsOfAll : List Stmt → List Mention
  | [] => []
  | s :: ss => s.mentions ++ Stmt.mentionsOfAll ss

def Stmt.mentionsIf : Option Stmt → List Mention
  | some s => s.mentions
  | none => []

def Block.mentions : Block → List Mention
  | ⟨stmts, _⟩ => Stmt.mentionsOfAll stmts

def Block.mentionsIf : Option Block → List Mention
  | some b => b.mentions
  | none => []

def Case.mentionsOfValues : List Case → List Mention
  | [] => []
  | ⟨values, _, _⟩ :: cs => Expr.mentionsOfAll values ++ Case.mentionsOfValues cs

def Case.mentionsOfBodies : List Case → List Mention
  | [] => []
  | ⟨_, body, _⟩ :: cs => body.mentions ++ Case.mentionsOfBodies cs

def Catch.mentionsOfAll : List Catch → List Mention
  | [] => []
  | ⟨param?, type?, body, _⟩ :: cs =>
    (param?.toList.map Ident.name ++ TypeExpr.namesIf type?).map .name ++
      (body.mentions ++ Catch.mentionsOfAll cs)

def Member.mentionsOfAll : List Member → List Mention
  | [] => []
  | .field ⟨name, type?, value?, _, _, _⟩ :: ms =>
    (name.name :: TypeExpr.namesIf type?).map .name ++
      (Expr.mentionsIf value? ++ Member.mentionsOfAll ms)
  | .method ⟨_, params, ret?, body, _, _⟩ :: ms =>
    (functionNames params ret?).map .name ++ (body.mentions ++ Member.mentionsOfAll ms)

end

def Program.mentions (p : Program) : List Mention := Stmt.mentionsOfAll p.stmts

end ClassLang
