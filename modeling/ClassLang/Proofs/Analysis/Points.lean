import ClassLang.Proofs.Analysis.Parts
import ClassLang.Proofs.Analysis.Placement
import ClassLang.Proofs.Comparison.Body
import Mathlib.Logic.Relation

/-!
# Points of an analysis

Analysis comes to every part of a program in some context and in some state. A point says which, and
`Point.children` lists the points directly inside of another one, with the role that each expression has
there. Findings are never taken back, so a program without errors has none at any point.
-/

namespace ClassLang

namespace Analysis

variable {α β : Type}

/-- The state after a step. -/
def after (a : Analysis) (x : Check α) : Analysis := (x.run a).2

/-- The result of a step. -/
def answer (a : Analysis) (x : Check α) : α := (x.run a).1

theorem after_bind (a : Analysis) (x : Check α) (f : α → Check β) :
    a.after (x >>= f) = (a.after x).after (f (a.answer x)) := rfl

end Analysis

/-! ## Points -/

/-- What an expression is there for. -/
inductive Role where
  /-- An operand, beside another one of the given type. -/
  | operand (op : InfixOp) (other : Ty)
  /-- The operand of a prefix operator. -/
  | negated
  /-- The operand of `++` or `--`. -/
  | stepped
  | target
  | assigned
  | callee
  | argument
  /-- The object of a member. -/
  | object
  | indexed
  /-- The index into an object of the given type. -/
  | key (object : Ty)
  /-- An element of an array. -/
  | element
  /-- A key or a value of a hash. -/
  | entry
  /-- The first value of a variable, a constant or a field. -/
  | initial
  /-- A returned value, in a function with the given result. -/
  | returned (expected? : Option Ty)
  | statement
  | condition
  | tag
  /-- The value of a case, in a switch over the given type. -/
  | caseValue (tag? : Option Ty)
  | thrown
  /-- No expression, but a part with expressions in it. -/
  | part

/-- A part of a program that is checked for itself. -/
inductive Part where
  | expr (e : Expr)
  | arguments (callee : String) (index : Nat) (params : List Ty) (es : List Expr)
  | elements (common? : Option Ty) (es : List Expr)
  | keys (common? : Option Ty) (es : List Entry)
  | values (common? : Option Ty) (es : List Entry)
  | function (params : List Param) (sig : Signature) (body : Block)
  | stmt (s : Stmt)
  | stmts (ss : List Stmt)
  | block (kind : ScopeKind) (b : Block)
  | tagged (tag? : Option Ty) (es : List Expr)
  | caseValues (tag? : Option Ty) (cs : List Case)
  | caseBodies (cs : List Case)
  | catches (cs : List Catch)
  | members (info? : Option ClassInfo) (ms : List Member)

/-- A part with the context in which and the state from which on it is checked. -/
structure Point where
  ctx : Context
  part : Part
  start : Analysis

/-- The state when the part has been checked. -/
def Point.stop : Point → Analysis
  | ⟨ctx, .expr e, a⟩ => a.after (Check.inferType ctx e)
  | ⟨ctx, .arguments callee index params es, a⟩ =>
    a.after (Check.checkArguments ctx callee index params es)
  | ⟨ctx, .elements common? es, a⟩ => a.after (Check.inferElements ctx common? es)
  | ⟨ctx, .keys common? es, a⟩ => a.after (Check.inferKeys ctx common? es)
  | ⟨ctx, .values common? es, a⟩ => a.after (Check.inferValues ctx common? es)
  | ⟨ctx, .function params sig body, a⟩ => a.after (Check.checkFunction ctx params sig body)
  | ⟨ctx, .stmt s, a⟩ => a.after (Check.checkStmt ctx s)
  | ⟨ctx, .stmts ss, a⟩ => a.after (Check.checkStmts ctx ss)
  | ⟨ctx, .block kind b, a⟩ => a.after (Check.checkBlock ctx kind b)
  | ⟨ctx, .tagged tag? es, a⟩ => a.after (Check.checkTagged ctx tag? es)
  | ⟨ctx, .caseValues tag? cs, a⟩ => a.after (Check.checkCaseValues ctx tag? cs)
  | ⟨ctx, .caseBodies cs, a⟩ => a.after (Check.checkCaseBodies ctx cs)
  | ⟨ctx, .catches cs, a⟩ => a.after (Check.checkCatches ctx cs)
  | ⟨ctx, .members info? ms, a⟩ => a.after (Check.checkMembers ctx info? ms)

section

variable (ctx : Context) (a : Analysis)

/-- The object of a member, unless it is a package. -/
def Expr.objectChildren (object : Expr) : List (Role × Point) :=
  match a.answer (Check.packageOf? object) with
  | some _ => []
  | none => [(.object, ⟨ctx, .expr object, a.after (Check.packageOf? object)⟩)]

/-- What is inside of a called expression. A called name is not looked at as an expression. -/
def Expr.calleeChildren : Expr → List (Role × Point)
  | .ident _ | .templateInstance .. => []
  | .member object _ _ _ => object.objectChildren ctx a
  | function => [(.callee, ⟨ctx, .expr function, a⟩)]

/-- The points directly inside of an expression. -/
def Expr.children : Expr → List (Role × Point)
  | .ident _ | .int .. | .float .. | .string .. | .char .. | .bool .. | .null _ | .this _
  | .super _ | .templateInstance .. => []
  | .prefixed _ right _ => [(.negated, ⟨ctx, .expr right, a⟩)]
  | .binary op left right _ =>
    let b := a.after (Check.inferType ctx left)
    [(.operand op (b.answer (Check.inferType ctx right)), ⟨ctx, .expr left, a⟩),
      (.operand op (a.answer (Check.inferType ctx left)), ⟨ctx, .expr right, b⟩)]
  | .postfixed _ operand _ => [(.stepped, ⟨ctx, .expr operand, a⟩)]
  | .assign .define (.ident _) value _ => [(.assigned, ⟨ctx, .expr value, a⟩)]
  | .assign _ target value _ =>
    let b := a.after (Check.checkTarget target)
    [(.target, ⟨ctx, .expr target, b⟩),
      (.assigned, ⟨ctx, .expr value, b.after (Check.inferType ctx target)⟩)]
  | .call function args span =>
    let sig? := a.answer (Check.calleeSignature ctx function)
    let b := a.after (Check.calleeSignature ctx function)
    let c := b.after (Check.checkCount? function.text sig? args.length span)
    function.calleeChildren ctx a ++
      [(.part, ⟨ctx, .arguments function.text 1 (Check.paramsOf sig?) args, c⟩)]
  | .index object key _ =>
    [(.indexed, ⟨ctx, .expr object, a⟩),
      (.key (a.answer (Check.inferType ctx object)),
        ⟨ctx, .expr key, a.after (Check.inferType ctx object)⟩)]
  | .member object _ _ _ => object.objectChildren ctx a
  | .array elements _ => [(.part, ⟨ctx, .elements none elements, a⟩)]
  | .hash entries _ =>
    [(.part, ⟨ctx, .keys none entries, a⟩),
      (.part, ⟨ctx, .values none entries, a.after (Check.inferKeys ctx none entries)⟩)]
  | .lambda params ret? body _ =>
    let x := Check.resolveSignature [] params ret?
    [(.part, ⟨ctx, .function params (a.answer x) body, a.after x⟩)]
  | .new type args span =>
    -- Something that names no class is reported.
    let name := ((a.answer (Check.newClass type)).map Ident.name).getD ""
    let callee := name ++ ".constructor"
    let b := a.after (Check.newClass type)
    let sig? := (b.scopes.findMethod name "constructor").map MethodInfo.signature
    [(.part, ⟨ctx, .arguments callee 1 (Check.paramsOf sig?) args,
      b.after (Check.checkCount? callee sig? args.length span)⟩)]

def Expr.childIf (role : Role) (e? : Option Expr) : List (Role × Point) :=
  e?.toList.map fun e => (role, ⟨ctx, .expr e, a⟩)

def Stmt.childIf (s? : Option Stmt) : List (Role × Point) :=
  s?.toList.map fun s => (.part, ⟨ctx, .stmt s, a⟩)

def Block.childIf (b? : Option Block) : List (Role × Point) :=
  b?.toList.map fun b => (.part, ⟨ctx, .block .block b, a⟩)

/-- The members of a class, in its scope. -/
def Class.children (c : Class) : List (Role × Point) :=
  let x := Check.openClass c.name c.extends? c.implements
  [(.part, ⟨{ ctx with class? := some c.name.name }, .members (a.answer x) c.members, a.after x⟩)]

/-- The points directly inside of a statement. -/
def Stmt.children : Stmt → List (Role × Point)
  | .package .. | .interface .. | .imports .. | .break_ _ | .continue_ _ => []
  | .var _ type? value? _ =>
    Expr.childIf ctx (a.after (type?.mapM (Check.resolveType []))) .initial value?
  | .const _ type? value _ =>
    [(.initial, ⟨ctx, .expr value, a.after (type?.mapM (Check.resolveType []))⟩)]
  | .ret value? _ => Expr.childIf ctx a (.returned ctx.returns?) value?
  | .expr e => [(.statement, ⟨ctx, .expr e, a⟩)]
  | .block b => [(.part, ⟨ctx, .block .block b, a⟩)]
  | .ifElse condition consequence alternative? _ =>
    let b := a.after (Check.checkCondition ctx condition)
    [(.condition, ⟨ctx, .expr condition, a⟩), (.part, ⟨ctx, .block .block consequence, b⟩)] ++
      Stmt.childIf ctx (b.after (Check.checkBlock ctx .block consequence)) alternative?
  | .forLoop init? condition? post? body _ =>
    let b := a.after (Check.pushScope .loop)
    let c := b.after (Check.checkStmtIf ctx init?)
    let d := c.after (Check.checkConditionIf ctx condition?)
    Stmt.childIf ctx b init? ++ Expr.childIf ctx c .condition condition? ++
      Stmt.childIf ctx d post? ++
      [(.part, ⟨{ ctx with inLoop := true }, .block .block body,
        d.after (Check.checkStmtIf ctx post?)⟩)]
  | .whileLoop condition body _ =>
    [(.condition, ⟨ctx, .expr condition, a⟩),
      (.part, ⟨{ ctx with inLoop := true }, .block .loop body,
        a.after (Check.checkCondition ctx condition)⟩)]
  | .switch tag? cases_ default? _ =>
    let ctx' := { ctx with inSwitch := true }
    let ty? := a.answer (Check.tagType ctx tag?)
    let b := a.after (Check.tagType ctx tag?)
    let c := b.after (Check.checkCaseValues ctx ty? cases_)
    Expr.childIf ctx a .tag tag? ++
      [(.part, ⟨ctx, .caseValues ty? cases_, b⟩), (.part, ⟨ctx', .caseBodies cases_, c⟩)] ++
      Block.childIf ctx' (c.after (Check.checkCaseBodies ctx' cases_)) default?
  | .function f =>
    let x := Check.functionSignature f
    [(.part, ⟨ctx, .function f.params (a.answer x) f.body, a.after x⟩)]
  | .method m =>
    let k := a.answer (Check.methodSignature m)
    let b := a.after (Check.methodSignature m)
    [(.part, ⟨Check.methodContext ctx m.receiver, .function m.params k.2 m.body,
      b.after (Check.openMethod m.receiver k.1)⟩)]
  | .class_ c => c.children ctx a
  | .template params (.function f) _ =>
    let b := a.after (Check.openTemplate params)
    let x := Check.templateSignature f
    [(.part, ⟨ctx, .function f.params (b.answer x) f.body, b.after x⟩)]
  | .template params (.class_ c) _ => c.children ctx (a.after (Check.openTemplate params))
  | .template params body _ => [(.part, ⟨ctx, .stmt body, a.after (Check.openTemplate params)⟩)]
  | .tryCatch body catches finally? _ =>
    let b := a.after (Check.checkBlock ctx .block body)
    [(.part, ⟨ctx, .block .block body, a⟩), (.part, ⟨ctx, .catches catches, b⟩)] ++
      Block.childIf ctx (b.after (Check.checkCatches ctx catches)) finally?
  | .throw value _ => [(.thrown, ⟨ctx, .expr value, a⟩)]
  | .scope b _ => [(.part, ⟨ctx, .block .block b, a⟩)]

end

/-- The points directly inside of another one. -/
def Point.children : Point → List (Role × Point)
  | ⟨ctx, .expr e, a⟩ => e.children ctx a
  | ⟨ctx, .stmt s, a⟩ => s.children ctx a
  | ⟨ctx, .arguments callee index params (e :: es), a⟩ =>
    [(.argument, ⟨ctx, .expr e, a⟩),
      (.part, ⟨ctx, .arguments callee (index + 1) params.tail es,
        a.after (Check.checkArgument ctx callee index params e)⟩)]
  | ⟨ctx, .elements common? (e :: es), a⟩ =>
    let x := Check.checkElement ctx common? e
    [(.element, ⟨ctx, .expr e, a⟩), (.part, ⟨ctx, .elements (some (a.answer x)) es, a.after x⟩)]
  | ⟨ctx, .keys common? (⟨e, _⟩ :: es), a⟩ =>
    let x := Check.checkElement ctx common? e
    [(.entry, ⟨ctx, .expr e, a⟩), (.part, ⟨ctx, .keys (some (a.answer x)) es, a.after x⟩)]
  | ⟨ctx, .values common? (⟨_, e⟩ :: es), a⟩ =>
    let x := Check.checkElement ctx common? e
    [(.entry, ⟨ctx, .expr e, a⟩), (.part, ⟨ctx, .values (some (a.answer x)) es, a.after x⟩)]
  | ⟨ctx, .function params sig body, a⟩ =>
    [(.part, ⟨ctx.inFunction sig.ret, .stmts body.stmts, a.after (Check.openFunction params sig)⟩)]
  | ⟨ctx, .stmts (s :: ss), a⟩ =>
    [(.part, ⟨ctx, .stmt s, a⟩), (.part, ⟨ctx, .stmts ss, a.after (Check.checkStmt ctx s)⟩)]
  | ⟨ctx, .block kind b, a⟩ => [(.part, ⟨ctx, .stmts b.stmts, a.after (Check.pushScope kind)⟩)]
  | ⟨ctx, .tagged tag? (e :: es), a⟩ =>
    [(.caseValue tag?, ⟨ctx, .expr e, a⟩),
      (.part, ⟨ctx, .tagged tag? es, a.after (Check.checkCaseValue ctx tag? e)⟩)]
  | ⟨ctx, .caseValues tag? (c :: cs), a⟩ =>
    [(.part, ⟨ctx, .tagged tag? c.values, a⟩),
      (.part, ⟨ctx, .caseValues tag? cs, a.after (Check.checkTagged ctx tag? c.values)⟩)]
  | ⟨ctx, .caseBodies (c :: cs), a⟩ =>
    [(.part, ⟨ctx, .block .block c.body, a⟩),
      (.part, ⟨ctx, .caseBodies cs, a.after (Check.checkBlock ctx .block c.body)⟩)]
  | ⟨ctx, .catches (c :: cs), a⟩ =>
    let b := a.after (Check.openCatch c)
    [(.part, ⟨ctx, .stmts c.body.stmts, b⟩),
      (.part, ⟨ctx, .catches cs, (b.after (Check.checkStmts ctx c.body.stmts)).after Check.popScope⟩)]
  | ⟨ctx, .members info? (.field f :: ms), a⟩ =>
    Expr.childIf ctx a .initial f.value? ++
      [(.part, ⟨ctx, .members info? ms, a.after (Check.checkField ctx info? f)⟩)]
  | ⟨ctx, .members info? (.method f :: ms), a⟩ =>
    let sig := a.answer (Check.memberSignature info? f)
    let b := a.after (Check.memberSignature info? f)
    [(.part, ⟨ctx, .function f.params sig f.body, b⟩),
      (.part, ⟨ctx, .members info? ms, b.after (Check.checkFunction ctx f.params sig f.body)⟩)]
  | _ => []

/-- One point is directly inside of another. -/
def Point.Contains (q r : Point) : Prop := ∃ role, (role, r) ∈ q.children

/-- Analysis of a program comes to a point. -/
def Point.Visited (p : Program) (inference : Bool) (q : Point) : Prop :=
  Relation.ReflTransGen Point.Contains
    ⟨{ inference }, .stmts p.stmts, Analysis.initial.after (Check.collectDeclarations p)⟩ q

end ClassLang
