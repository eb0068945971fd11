import ClassLang.Ast.Basic

/-!
# Functions that are declared inside of others

A function that is declared inside of another one comes to the module under the name that it is
declared with. Here are these names, as often as their functions may be generated: what stands in the
final block of a try statement counts twice, because the block is generated once more wherever the
statement is left.
-/

namespace ClassLang

mutual

/-- The names of the functions that are declared in an expression, which is to say in the lambdas
that it contains. -/
def Expr.inner : Expr → List String
  | .ident _ | .int .. | .float .. | .string .. | .char .. | .bool .. | .null _ | .this _ | .super _
  | .templateInstance .. => []
  | .prefixed _ right _ => right.inner
  | .binary _ left right _ => left.inner ++ right.inner
  | .postfixed _ operand _ => operand.inner
  | .assign _ target value _ => target.inner ++ value.inner
  | .call function args _ => function.inner ++ Expr.innerAll args
  | .index object key _ => object.inner ++ key.inner
  | .member object _ _ _ => object.inner
  | .array elements _ => Expr.innerAll elements
  | .hash entries _ => Entry.innerAll entries
  | .lambda _ _ body _ => body.inner
  | .new _ args _ => Expr.innerAll args

def Expr.innerAll : List Expr → List String
  | [] => []
  | e :: es => e.inner ++ Expr.innerAll es

def Entry.innerAll : List Entry → List String
  | [] => []
  | ⟨key, value⟩ :: es => (key.inner ++ value.inner) ++ Entry.innerAll es

def Expr.innerIf : Option Expr → List String
  | some e => e.inner
  | none => []

/-- The names of the functions that are declared in a statement, its own among them. -/
def Stmt.inner : Stmt → List String
  | .package .. | .imports .. | .break_ _ | .continue_ _ | .method _ | .class_ _ | .interface ..
  | .template .. => []
  | .var _ _ value? _ | .ret value? _ => Expr.innerIf value?
  | .const _ _ value _ | .expr value | .throw value _ => value.inner
  | .block body | .scope body _ => body.inner
  | .ifElse condition consequence alternative? _ =>
    condition.inner ++ (consequence.inner ++ Stmt.innerIf alternative?)
  | .forLoop init? condition? post? body _ =>
    Stmt.innerIf init? ++ (Expr.innerIf condition? ++ (body.inner ++ Stmt.innerIf post?))
  | .whileLoop condition body _ => condition.inner ++ body.inner
  | .switch tag? cases default? _ =>
    Expr.innerIf tag? ++ (Case.innerValues cases ++ (Case.innerBodies cases ++ Block.innerIf default?))
  | .function ⟨name, _, _, body, _, _⟩ => name.name :: body.inner
  | .tryCatch body catches finally? _ =>
    (body.inner ++ (Catch.innerAll catches ++ Block.innerIf finally?)) ++ Block.innerIf finally?

def Stmt.innerAll : List Stmt → List String
  | [] => []
  | s :: ss => s.inner ++ Stmt.innerAll ss

def Stmt.innerIf : Option Stmt → List String
  | some s => s.inner
  | none => []

def Block.inner : Block → List String
  | ⟨body, _⟩ => Stmt.innerAll body

def Block.innerIf : Option Block → List String
  | some b => b.inner
  | none => []

def Case.innerValues : List Case → List String
  | [] => []
  | ⟨values, _, _⟩ :: cs => Expr.innerAll values ++ Case.innerValues cs

def Case.innerBodies : List Case → List String
  | [] => []
  | ⟨_, body, _⟩ :: cs => body.inner ++ Case.innerBodies cs

def Catch.innerAll : List Catch → List String
  | [] => []
  | ⟨_, _, body, _⟩ :: cs => body.inner ++ Catch.innerAll cs

end

end ClassLang
