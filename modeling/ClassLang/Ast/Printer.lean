import ClassLang.Ast.Basic
import ClassLang.Decimal.Shortest

/-!
# Trees as text

The one-line form of types, expressions and statements. Operators and index expressions are written
in parentheses, so that their grouping shows; assignments, calls and member accesses stand bare.
-/

namespace ClassLang

/-- Items separated by commas. -/
def commaList (items : List String) : String := String.intercalate ", " items

/-- A text between braces. -/
def braced (text : String) : String := "\x7b" ++ text ++ "\x7d"

mutual

def TypeExpr.text : TypeExpr → String
  | .named n => n.name
  | .array element _ => "[]" ++ element.text
  | .map key value _ => "map[" ++ key.text ++ "]" ++ value.text
  | .pointer inner _ => "*" ++ inner.text
  | .generic n args _ => n.name ++ "<" ++ commaList (TypeExpr.texts args) ++ ">"

def TypeExpr.texts : List TypeExpr → List String
  | [] => []
  | t :: ts => t.text :: TypeExpr.texts ts

end

/-- A type after the thing it belongs to, when written. -/
def TypeExpr.suffix : Option TypeExpr → String
  | some t => " " ++ t.text
  | none => ""

def Param.text (p : Param) : String := p.name.name ++ TypeExpr.suffix p.type?

def Param.list (ps : List Param) : String := commaList (ps.map Param.text)

/-- Name, parameters and result type. -/
def signatureText (name : String) (params : List Param) (ret? : Option TypeExpr) : String :=
  name ++ "(" ++ Param.list params ++ ")" ++ TypeExpr.suffix ret?

def InterfaceMethod.text (m : InterfaceMethod) : String :=
  signatureText m.name.name m.params m.ret? ++ "; "

mutual

def Expr.text : Expr → String
  | .ident n => n.name
  | .int v _ => toString v
  | .float v _ => v.display
  | .string body _ => "\"" ++ body ++ "\""
  | .char body _ => "'" ++ body ++ "'"
  | .bool v _ => if v then "true" else "false"
  | .null _ => "nil"
  | .prefixed op right _ => "(" ++ op.text ++ right.text ++ ")"
  | .binary op left right _ => "(" ++ left.text ++ " " ++ op.text ++ " " ++ right.text ++ ")"
  | .postfixed op operand _ => "(" ++ operand.text ++ op.text ++ ")"
  | .assign op target value _ => target.text ++ " " ++ op.text ++ " " ++ value.text
  | .call function args _ => function.text ++ "(" ++ commaList (Expr.texts args) ++ ")"
  | .index object key _ => "(" ++ object.text ++ "[" ++ key.text ++ "])"
  | .member object property arrow _ =>
    object.text ++ (if arrow then "->" else ".") ++ property.name
  | .array elements _ => "[" ++ commaList (Expr.texts elements) ++ "]"
  | .hash entries _ => braced (commaList (Entry.texts entries))
  | .lambda params ret? body _ => signatureText "func" params ret? ++ " " ++ body.text
  | .new type args _ => "new " ++ type.text ++ "(" ++ commaList (Expr.texts args) ++ ")"
  | .this _ => "this"
  | .super _ => "super"
  | .templateInstance template typeArgs _ =>
    template.name ++ "<" ++ commaList (typeArgs.map TypeExpr.text) ++ ">"

def Expr.texts : List Expr → List String
  | [] => []
  | e :: es => e.text :: Expr.texts es

def Entry.texts : List Entry → List String
  | [] => []
  | ⟨key, value⟩ :: es => (key.text ++ ": " ++ value.text) :: Entry.texts es

def Stmt.text : Stmt → String
  | .package name _ => "package " ++ name.name
  | .imports paths _ => "import " ++ String.intercalate " " (paths.map fun p => "\"" ++ p ++ "\"")
  | .var name type? value? _ =>
    "var " ++ name.name ++ TypeExpr.suffix type? ++
      (match value? with | some v => " = " ++ v.text | none => "") ++ ";"
  | .const name type? value _ =>
    "const " ++ name.name ++ TypeExpr.suffix type? ++ " = " ++ value.text ++ ";"
  | .ret value? _ =>
    match value? with
    | some v => "return " ++ v.text ++ ";"
    | none => "return;"
  | .expr e => e.text
  | .block b => b.text
  | .ifElse condition consequence alternative? _ =>
    "if " ++ condition.text ++ " " ++ consequence.text ++
      (match alternative? with | some s => " else " ++ s.text | none => "")
  | .forLoop init? condition? post? body _ =>
    "for " ++ (match init? with | some s => s.text | none => "") ++ "; " ++
      (match condition? with | some e => e.text | none => "") ++ "; " ++
      (match post? with | some s => s.text | none => "") ++ " " ++ body.text
  | .whileLoop condition body _ => "while " ++ condition.text ++ " " ++ body.text
  | .switch tag? cases default? _ =>
    "switch " ++ (match tag? with | some e => e.text ++ " " | none => "") ++
      braced (" " ++ String.join (Case.texts cases) ++
        (match default? with | some b => "default: " ++ b.text ++ " " | none => ""))
  | .break_ _ => "break;"
  | .continue_ _ => "continue;"
  | .function f => f.text
  | .method ⟨receiver, name, params, ret?, body, _⟩ =>
    "func (" ++ receiver.text ++ ") " ++ signatureText name.name params ret? ++ " " ++ body.text
  | .class_ ⟨name, extends?, implements, members, _⟩ =>
    "class " ++ name.name ++
      (match extends? with | some p => " extends " ++ p.name | none => "") ++
      (if implements.isEmpty then ""
        else " implements " ++ commaList (implements.map Ident.name)) ++
      " " ++ braced (" " ++ String.join (Member.texts members))
  | .interface name methods _ =>
    "interface " ++ name.name ++ " " ++
      braced (" " ++ String.join (methods.map InterfaceMethod.text))
  | .template params body _ =>
    "template<" ++ commaList (params.map Ident.name) ++ "> " ++ body.text
  | .tryCatch body catches finally? _ =>
    "try " ++ body.text ++ String.join (Catch.texts catches) ++
      (match finally? with | some b => " finally " ++ b.text | none => "")
  | .throw value _ => "throw " ++ value.text ++ ";"
  | .scope body _ => "scope " ++ body.text

/-- Each statement with a blank after it. -/
def Stmt.texts : List Stmt → List String
  | [] => []
  | s :: ss => (s.text ++ " ") :: Stmt.texts ss

def Block.text : Block → String
  | ⟨stmts, _⟩ => braced (" " ++ String.join (Stmt.texts stmts))

def Case.texts : List Case → List String
  | [] => []
  | ⟨values, body, _⟩ :: cs =>
    ("case " ++ commaList (Expr.texts values) ++ ": " ++ body.text ++ " ") :: Case.texts cs

def Catch.texts : List Catch → List String
  | [] => []
  | ⟨param?, type?, body, _⟩ :: cs =>
    (" catch" ++
      (match param? with
        | some p => " (" ++ p.name ++ TypeExpr.suffix type? ++ ")"
        | none => "") ++
      " " ++ body.text) :: Catch.texts cs

def Function.text : Function → String
  | ⟨name, params, ret?, body, _, _⟩ =>
    "func " ++ signatureText name.name params ret? ++ " " ++ body.text

def Member.texts : List Member → List String
  | [] => []
  | .field ⟨name, type?, value?, isConst, _, _⟩ :: ms =>
    ((if isConst then "const " else "var ") ++ name.name ++ TypeExpr.suffix type? ++
      (match value? with | some v => " = " ++ v.text | none => "") ++ "; ") :: Member.texts ms
  | .method f :: ms => (f.text ++ " ") :: Member.texts ms

end

/-- The statements one after another. -/
def Program.text (p : Program) : String := String.join (p.stmts.map Stmt.text)

/-- The text of the token that an expression starts with, parentheses aside. -/
def Expr.firstToken : Expr → String
  | .ident n => n.name
  | .int v _ => toString v
  | .float v _ => v.display
  | .string body _ | .char body _ => body
  | .bool v _ => if v then "true" else "false"
  | .null _ => "nil"
  | .prefixed op _ _ => op.text
  | .binary _ left _ _ => left.firstToken
  | .postfixed _ operand _ => operand.firstToken
  | .assign _ target _ _ => target.firstToken
  | .call function _ _ => function.firstToken
  | .index object _ _ => object.firstToken
  | .member object _ _ _ => object.firstToken
  | .array _ _ => "["
  | .hash _ _ => "\x7b"
  | .lambda .. => "func"
  | .new .. => "new"
  | .this _ => "this"
  | .super _ => "super"
  | .templateInstance template _ _ => template.name

/-- The text of the token that a statement starts with. -/
def Stmt.firstToken : Stmt → String
  | .package .. => "package"
  | .imports .. => "import"
  | .var .. => "var"
  | .const .. => "const"
  | .ret .. => "return"
  | .expr e => e.firstToken
  | .block _ => "\x7b"
  | .ifElse .. => "if"
  | .forLoop .. => "for"
  | .whileLoop .. => "while"
  | .switch .. => "switch"
  | .break_ _ => "break"
  | .continue_ _ => "continue"
  | .function _ | .method _ => "func"
  | .class_ _ => "class"
  | .interface .. => "interface"
  | .template .. => "template"
  | .tryCatch .. => "try"
  | .throw .. => "throw"
  | .scope .. => "scope"

end ClassLang
