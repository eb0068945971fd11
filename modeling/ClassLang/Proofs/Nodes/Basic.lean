import ClassLang.Proofs.Printing.Roundtrip
import Mathlib.Data.String.Basic

/-!
# Nodes of a program

A node is any part of a program that has a span of its own. `Node.children` lists the nodes directly
inside of another one, and `Program.Contains` reaches every node of a program through them. What is
said of each node is that its span is a stretch of the source (`Span.Placed`), that it encloses the
spans of its children, and that it has the shape that later stages count on (`Node.Shaped`).
-/

namespace ClassLang

/-! ## Spans in a source -/

namespace Span

/-- A span is a nonempty stretch of a source between two character boundaries, and it is labelled by
the line and the column of the place where it starts. -/
structure Placed (source : String) (s : Span) : Prop where
  start_lt : s.start < s.stop
  stop_le : s.stop ≤ source.utf8ByteSize
  start_valid : String.Pos.Raw.IsValid source ⟨s.start⟩
  stop_valid : String.Pos.Raw.IsValid source ⟨s.stop⟩
  label : ∃ front text, source.toList = front ++ text ∧
    Place.start.after front = ⟨s.start, s.line, s.column⟩

/-- The second span encloses the first. -/
structure Inside (s t : Span) : Prop where
  start_le : t.start ≤ s.start
  stop_le : s.stop ≤ t.stop

variable {source : String} {s t : Span}

/-- What reaches from one stretch to another is a stretch. -/
theorem Placed.upTo (hs : s.Placed source) (ht : t.Placed source) : (s.upTo t).Placed source where
  start_lt := hs.start_lt.trans_le (Nat.le_max_right _ _)
  stop_le := Nat.max_le.2 ⟨ht.stop_le, hs.stop_le⟩
  start_valid := hs.start_valid
  stop_valid := by
    rcases Nat.le_total t.stop s.stop with hle | hle
    · rw [upTo_stop, Nat.max_eq_right hle]
      exact hs.stop_valid
    · rw [upTo_stop, Nat.max_eq_left hle]
      exact ht.stop_valid
  label := hs.label

end Span

/-! ## Nodes -/

/-- A part of a program that has a span. -/
inductive Node where
  | ident (n : Ident)
  | type (t : TypeExpr)
  | param (p : Param)
  | expr (e : Expr)
  | stmt (s : Stmt)
  | block (b : Block)
  | case_ (c : Case)
  | catch_ (c : Catch)
  | function (f : Function)
  | method (m : Method)
  | class_ (c : Class)
  | field (f : Field)
  | interfaceMethod (m : InterfaceMethod)

namespace Node

def span : Node → Span
  | ident n => n.span
  | type t => t.span
  | param p => p.span
  | expr e => e.span
  | stmt s => s.span
  | block b => b.span
  | case_ c => c.span
  | catch_ c => c.span
  | function f => f.span
  | method m => m.span
  | class_ c => c.span
  | field f => f.span
  | interfaceMethod m => m.span

def ofMember : Member → Node
  | .field f => field f
  | .method f => function f

end Node

/-! What stands directly inside of a type, an expression and a statement. -/

def TypeExpr.parts : TypeExpr → List Node
  | named n => [.ident n]
  | array element _ => [.type element]
  | map key value _ => [.type key, .type value]
  | pointer inner _ => [.type inner]
  | generic n args _ => .ident n :: args.map .type

def Expr.parts : Expr → List Node
  | ident n => [.ident n]
  | int .. | float .. | string .. | char .. | bool .. | null _ | this _ | super _ => []
  | prefixed _ right _ => [.expr right]
  | binary _ left right _ => [.expr left, .expr right]
  | postfixed _ operand _ => [.expr operand]
  | assign _ target value _ => [.expr target, .expr value]
  | call function args _ => .expr function :: args.map .expr
  | index object key _ => [.expr object, .expr key]
  | member object property _ _ => [.expr object, .ident property]
  | array elements _ => elements.map .expr
  | hash entries _ => entries.flatMap fun entry => [.expr entry.key, .expr entry.value]
  | lambda params ret? body _ => params.map .param ++ ret?.toList.map .type ++ [.block body]
  | new type args _ => .type type :: args.map .expr
  | templateInstance n args _ => .ident n :: args.map .type

def Stmt.parts : Stmt → List Node
  | package name _ => [.ident name]
  | imports .. | break_ _ | continue_ _ => []
  | var name type? value? _ =>
    .ident name :: type?.toList.map .type ++ value?.toList.map .expr
  | const name type? value _ => .ident name :: type?.toList.map .type ++ [.expr value]
  | ret value? _ => value?.toList.map .expr
  | expr e => [.expr e]
  | block b => [.block b]
  | ifElse condition consequence alternative? _ =>
    .expr condition :: .block consequence :: alternative?.toList.map .stmt
  | forLoop init? condition? post? body _ =>
    init?.toList.map .stmt ++ condition?.toList.map .expr ++ post?.toList.map .stmt ++ [.block body]
  | whileLoop condition body _ => [.expr condition, .block body]
  | switch tag? cases default? _ =>
    tag?.toList.map .expr ++ cases.map .case_ ++ default?.toList.map .block
  | function f => [.function f]
  | method m => [.method m]
  | class_ c => [.class_ c]
  | interface name methods _ => .ident name :: methods.map .interfaceMethod
  | template params body _ => params.map .ident ++ [.stmt body]
  | tryCatch body catches finally? _ =>
    .block body :: catches.map .catch_ ++ finally?.toList.map .block
  | throw value _ => [.expr value]
  | scope body _ => [.block body]

namespace Node

/-- The nodes directly inside of a node. -/
def children : Node → List Node
  | ident _ => []
  | type t => t.parts
  | param p => .ident p.name :: p.type?.toList.map .type
  | expr e => e.parts
  | stmt s => s.parts
  | block b => b.stmts.map .stmt
  | case_ c => c.values.map .expr ++ [.block c.body]
  | catch_ c => c.param?.toList.map .ident ++ c.type?.toList.map .type ++ [.block c.body]
  | function f =>
    .ident f.name :: f.params.map .param ++ f.ret?.toList.map .type ++ [.block f.body]
  | method m =>
    .param m.receiver :: .ident m.name :: m.params.map .param ++ m.ret?.toList.map .type ++
      [.block m.body]
  | class_ c =>
    .ident c.name :: c.extends?.toList.map .ident ++ c.implements.map .ident ++
      c.members.map ofMember
  | field f => .ident f.name :: f.type?.toList.map .type ++ f.value?.toList.map .expr
  | interfaceMethod m => .ident m.name :: m.params.map .param ++ m.ret?.toList.map .type

/-- The span of an interface method without a result type ends with its name, so its parameters
stand outside. -/
def Spares : Node → Node → Prop
  | interfaceMethod m, param _ => m.ret? = none
  | _, _ => False

end Node

/-- A node of a program. -/
inductive Program.Contains (p : Program) : Node → Prop
  | stmt {s : Stmt} (h : s ∈ p.stmts) : p.Contains (.stmt s)
  | child {n c : Node} (h : p.Contains n) (hc : c ∈ n.children) : p.Contains c

/-! ## Shapes -/

namespace Stmt

/-- What may stand behind `else`. -/
def isAlternative : Stmt → Bool
  | block _ | ifElse .. => true
  | _ => false

/-- What may stand in the first and the last clause of a `for`. -/
def isClause : Stmt → Bool
  | var .. | expr _ => true
  | _ => false

/-- What a template can declare. -/
def isTemplateBody : Stmt → Bool
  | function _ | class_ _ => true
  | _ => false

end Stmt

/-- The shape that later stages count on. -/
def Node.Shaped : Node → Prop
  | ident n => isName n.name
  | type (.generic _ args _) => args ≠ []
  | expr (.int v _) => v ≤ 2 ^ 63 - 1
  | expr (.new cls _ _) => cls.isClass
  | expr (.templateInstance _ args _) => args ≠ []
  | stmt (.ifElse _ _ alternative? _) => ∀ s ∈ alternative?, s.isAlternative
  | stmt (.forLoop init? _ post? _ _) => (∀ s ∈ init?, s.isClause) ∧ ∀ s ∈ post?, s.isClause
  | stmt (.template params body _) =>
    params ≠ [] ∧ body.isTemplateBody ∧ body.templateName?.isSome
  | stmt (.tryCatch _ catches _ _) => catches ≠ []
  | _ => True

/-- A node with the right shape at the right place, and so are all nodes inside of it. -/
inductive Node.Sound (source : String) : Node → Prop
  | intro {n : Node} (shaped : n.Shaped) (placed : n.span.Placed source)
    (inside : ∀ c ∈ n.children, ¬ n.Spares c → c.span.Inside n.span)
    (children : ∀ c ∈ n.children, c.Sound source) : n.Sound source

namespace Node.Sound

variable {source : String} {n c : Node}

theorem shaped (h : n.Sound source) : n.Shaped := by
  cases h
  assumption

theorem placed (h : n.Sound source) : n.span.Placed source := by
  cases h
  assumption

theorem inside (h : n.Sound source) : ∀ c ∈ n.children, ¬ n.Spares c → c.span.Inside n.span := by
  cases h
  assumption

theorem children (h : n.Sound source) : ∀ c ∈ n.children, c.Sound source := by
  cases h
  assumption

end Node.Sound

/-- All nodes of a program are sound if its statements are. -/
theorem Program.Contains.sound {source : String} {p : Program} {n : Node} (h : p.Contains n)
    (hstmts : ∀ s ∈ p.stmts, (Node.stmt s).Sound source) : n.Sound source := by
  induction h with
  | stmt h => exact hstmts _ h
  | child _ hc ih => exact ih.children _ hc

end ClassLang
