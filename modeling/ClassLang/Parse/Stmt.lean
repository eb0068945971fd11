import ClassLang.Parse.Expr

/-!
# Reading statements and declarations

The readers are given how to read nested expressions and statements, as in `Parse.Expr`. The knot is
tied by `expressionAt` and `statementAt`, which allow a bounded nesting; `statement` and
`expression` allow as much as there are tokens.
-/

namespace ClassLang.Parse

section

variable (expr : Precedence → Parse Expr) (stmt : Parse Stmt)

/-- An expression at the loosest precedence. -/
def value : Parse Expr := expressionStep expr stmt .lowest

def block : Parse Block := blockOf stmt

/-! ## Declarations -/

def packageStmt : Parse Stmt := do
  let start ← expect Keyword.packageKw
  let name ← ident
  let _ ← eat Mark.semicolon
  return .package name (start.span.upTo name.span)

/-- Import paths between parentheses, with any commas and semicolons after each. -/
def importPaths : Parse (List String) :=
  collect do
    if ← check Mark.rParen then return .stop
    let path ← expect .string
    let (_ : List Unit) ← collect do
      if ← eat Mark.comma then return .skip
      if ← eat Mark.semicolon then return .skip
      return .stop
    return .item path.literal

def importStmt : Parse Stmt := do
  let start ← expect Keyword.importKw
  if ← eat Mark.lParen then
    let paths ← importPaths
    let stop ← expect Mark.rParen
    let _ ← eat Mark.semicolon
    return .imports paths (start.span.upTo stop.span)
  else
    let path ← expect .string
    let _ ← eat Mark.semicolon
    return .imports [path.literal] (start.span.upTo path.span)

/-- The span of the last part that a declaration has. -/
def lastPart (name : Ident) (type? : Option TypeExpr) (value? : Option Expr) : Span :=
  match value?, type? with
  | some v, _ => v.span
  | none, some t => t.span
  | none, none => name.span

/-- `var name Type = value`, without a semicolon. -/
def varStmt : Parse Stmt := do
  let start ← expect Keyword.varKw
  let name ← ident
  let type? ← optionalType
  let value? ← optional (← eat Mark.assign) (value expr stmt)
  return .var name type? value? (start.span.upTo (lastPart name type? value?))

def constStmt : Parse Stmt := do
  let start ← expect Keyword.constKw
  let name ← ident
  let type? ← optionalType
  let _ ← expect Mark.assign
  let v ← value expr stmt
  let _ ← eat Mark.semicolon
  return .const name type? v (start.span.upTo v.span)

/-- `func name(params) Type { ... }` -/
def functionDecl (modifiers : Modifiers) : Parse Function := do
  let start ← expect Keyword.funcKw
  let name ← ident
  let params ← parameters
  let ret? ← optionalType
  let body ← block stmt
  return ⟨name, params, ret?, body, modifiers, start.span.upTo body.span⟩

/-- `func (receiver Type) name(params) Type { ... }` -/
def methodDecl : Parse Method := do
  let start ← expect Keyword.funcKw
  let _ ← expect Mark.lParen
  let receiver ← parameter
  let _ ← expect Mark.rParen
  let name ← ident
  let params ← parameters
  let ret? ← optionalType
  let body ← block stmt
  return ⟨receiver, name, params, ret?, body, start.span.upTo body.span⟩

/-! ## Classes, interfaces and templates -/

/-- The effect of one modifier; the last visibility written counts. -/
def addModifier (m : Modifiers) : Keyword → Modifiers
  | .publicKw => { m with visibility := .public_ }
  | .privateKw => { m with visibility := .private_ }
  | .protectedKw => { m with visibility := .protected_ }
  | .virtualKw => { m with isVirtual := true }
  | .overrideKw => { m with isOverride := true }
  | .staticKw => { m with isStatic := true }
  | .finalKw => { m with isFinal := true }
  | .abstractKw => { m with isAbstract := true }
  | _ => m

/-- Any run of modifiers. -/
def modifiers : Parse Modifiers := do
  let ks ← collect do
    match ← currentKind with
    | .keyword k =>
      if k.isMemberModifier then
        let _ ← advance
        return .item k
      else return .stop
    | _ => return .stop
  return ks.foldl addModifier {}

/-- A field, from its `var` or `const` on. A constant field needs a value. -/
def fieldDecl (start : Span) (mods : Modifiers) : Parse Field := do
  let isConst := (← advance).kind == Keyword.constKw
  let name ← ident
  let type? ← optionalType
  let value? ←
    if isConst then do
      let _ ← expect Mark.assign
      some <$> value expr stmt
    else do optional (← eat Mark.assign) (value expr stmt)
  let _ ← eat Mark.semicolon
  return ⟨name, type?, value?, isConst, mods, start.upTo (lastPart name type? value?)⟩

def member : Parse Member := do
  let start ← currentSpan
  let mods ← modifiers
  match ← currentKind with
  | .keyword .funcKw => .method <$> functionDecl stmt mods
  | .keyword .varKw | .keyword .constKw => .field <$> fieldDecl expr stmt start mods
  | _ => unexpected [Keyword.varKw, Keyword.constKw, Keyword.funcKw, Mark.rBrace] none

def classDecl : Parse Class := do
  let start ← expect Keyword.classKw
  let name ← ident
  let extends? ← optional (← eat Keyword.extendsKw) ident
  let implements ←
    if ← eat Keyword.implementsKw then commaSeparated ident else pure []
  let _ ← expect Mark.lBrace
  let members ← collect do
    if ← checkAny [Mark.rBrace, .eof] then return .stop
    if ← eat Mark.semicolon then return .skip
    return .item (← member expr stmt)
  let stop ← expect Mark.rBrace
  return ⟨name, extends?, implements, members, start.span.upTo stop.span⟩

/-- A method of an interface. Its span ends with the result type, or else with the name. -/
def interfaceMethod : Parse InterfaceMethod := do
  let start ← currentSpan
  let _ ← eat Keyword.funcKw
  let name ← ident
  let params ← parameters
  let ret? ← optionalType
  let stop := match ret? with
    | some t => t.span
    | none => name.span
  return ⟨name, params, ret?, start.upTo stop⟩

def interfaceStmt : Parse Stmt := do
  let start ← expect Keyword.interfaceKw
  let name ← ident
  let _ ← expect Mark.lBrace
  let methods ← collect do
    if ← checkAny [Mark.rBrace, .eof] then return .stop
    if ← eat Mark.semicolon then return .skip
    return .item (← interfaceMethod)
  let stop ← expect Mark.rBrace
  return .interface name methods (start.span.upTo stop.span)

/-- A template. Its name is recorded before the body is read, so that the body can use it. -/
def templateStmt : Parse Stmt := do
  let start ← expect Keyword.templateKw
  let _ ← expect Mark.lt
  let params ← commaSeparated ident
  let _ ← closingAngle
  let p ← get
  if [Keyword.funcKw, Keyword.classKw].any (p.kind == ·) && p.peek.kind == .ident then
    registerTemplate p.peek.literal
  let body ← match ← currentKind with
    | .keyword .funcKw => .function <$> functionDecl stmt {}
    | .keyword .classKw => .class_ <$> classDecl expr stmt
    | _ => unexpected [Keyword.funcKw, Keyword.classKw] none
  return .template params body (start.span.upTo body.span)

/-! ## Control flow -/

def returnStmt : Parse Stmt := do
  let start ← expect Keyword.returnKw
  let absent ← checkAny [Mark.semicolon, Mark.rBrace, .eof]
  let value? ← optional (!absent) (value expr stmt)
  let _ ← eat Mark.semicolon
  let span := match value? with
    | some v => start.span.upTo v.span
    | none => start.span
  return .ret value? span

def throwStmt : Parse Stmt := do
  let start ← expect Keyword.throwKw
  let v ← value expr stmt
  let _ ← eat Mark.semicolon
  return .throw v (start.span.upTo v.span)

/-- A variable declaration or an expression, as in the clauses of a `for`. -/
def simpleStmt : Parse Stmt := do
  if ← check Keyword.varKw then varStmt expr stmt else .expr <$> value expr stmt

def ifStmt : Parse Stmt := do
  let start ← expect Keyword.ifKw
  let condition ← value expr stmt
  let consequence ← block stmt
  let alternative? ← optional (← eat Keyword.elseKw) do
    if ← check Keyword.ifKw then stmt else .block <$> block stmt
  let stop := match alternative? with
    | some s => s.span
    | none => consequence.span
  return .ifElse condition consequence alternative? (start.span.upTo stop)

/-- The clauses of a `for`: none, a condition alone, or all three around two semicolons. -/
def forClauses : Parse (Option Stmt × Option Expr × Option Stmt) := do
  if ← check Mark.lBrace then return (none, none, none)
  let first? ← optional (!(← check Mark.semicolon)) (simpleStmt expr stmt)
  if ← eat Mark.semicolon then
    let condition? ← optional (!(← check Mark.semicolon)) (value expr stmt)
    let _ ← expect Mark.semicolon
    let post? ← optional (!(← check Mark.lBrace)) (simpleStmt expr stmt)
    return (first?, condition?, post?)
  else
    match first? with
    | some (.expr e) => return (none, some e, none)
    | _ => unexpected [Mark.semicolon] none

def forStmt : Parse Stmt := do
  let start ← expect Keyword.forKw
  let (init?, condition?, post?) ← forClauses expr stmt
  let body ← block stmt
  return .forLoop init? condition? post? body (start.span.upTo body.span)

def whileStmt : Parse Stmt := do
  let start ← expect Keyword.whileKw
  let condition ← value expr stmt
  let body ← block stmt
  return .whileLoop condition body (start.span.upTo body.span)

/-- The statements of a case, which start after its colon. -/
def caseBody (start : Span) : Parse Block := do
  let stmts ← collect do
    if ← checkAny [Keyword.caseKw, Keyword.defaultKw, Mark.rBrace, .eof] then return .stop
    if ← eat Mark.semicolon then return .skip
    return .item (← stmt)
  let stop := match stmts.getLast? with
    | some s => s.span
    | none => start
  return ⟨stmts, start.upTo stop⟩

/-- A case, or the default. -/
def switchArm : Parse (Case ⊕ Block) := do
  match ← currentKind with
  | .keyword .caseKw =>
    let start ← advance
    let values ← expressionListOf expr Mark.colon
    let colon ← expect Mark.colon
    let body ← caseBody stmt colon.span
    return .inl ⟨values, body, start.span.upTo body.span⟩
  | .keyword .defaultKw =>
    let _ ← advance
    let colon ← expect Mark.colon
    .inr <$> caseBody stmt colon.span
  | _ => unexpected [Keyword.caseKw, Keyword.defaultKw, Mark.rBrace] none

/-- A switch. Of several defaults the last one counts. -/
def switchStmt : Parse Stmt := do
  let start ← expect Keyword.switchKw
  let tag? ← optional (!(← check Mark.lBrace)) (value expr stmt)
  let _ ← expect Mark.lBrace
  let arms ← collect do
    if ← check Mark.rBrace then return .stop
    return .item (← switchArm expr stmt)
  let stop ← expect Mark.rBrace
  let cases := arms.filterMap Sum.getLeft?
  let default? := (arms.filterMap Sum.getRight?).getLast?
  return .switch tag? cases default? (start.span.upTo stop.span)

/-- `catch (name Type) { ... }`, from the keyword on. -/
def catchClause : Parse Catch := do
  let start ← advance
  if ← eat Mark.lParen then
    let name ← ident
    let type? ← optionalType
    let _ ← expect Mark.rParen
    let body ← block stmt
    return ⟨some name, type?, body, start.span.upTo body.span⟩
  else
    let body ← block stmt
    return ⟨none, none, body, start.span.upTo body.span⟩

/-- A try needs a catch. -/
def tryStmt : Parse Stmt := do
  let start ← expect Keyword.tryKw
  let body ← block stmt
  let catches ← collect do
    if ← check Keyword.catchKw then return .item (← catchClause stmt) else return .stop
  match catches.getLast? with
  | none =>
    unexpected [Keyword.catchKw]
      (some "add a catch clause: try \x7b \x7d catch (e Error) \x7b \x7d")
  | some final =>
    let finally? ← optional (← eat Keyword.finallyKw) (block stmt)
    let stop := match finally? with
      | some b => b.span
      | none => final.span
    return .tryCatch body catches finally? (start.span.upTo stop)

/-! ## Any statement -/

/-- A statement, with the semicolon after it where one may stand. -/
def statementStep : Parse Stmt := do
  let p ← get
  match p.kind with
  | .keyword .packageKw => packageStmt
  | .keyword .importKw => importStmt
  | .keyword .varKw =>
    let s ← varStmt expr stmt
    let _ ← eat Mark.semicolon
    return s
  | .keyword .constKw => constStmt expr stmt
  | .keyword .returnKw => returnStmt expr stmt
  | .keyword .ifKw => ifStmt expr stmt
  | .keyword .forKw => forStmt expr stmt
  | .keyword .whileKw => whileStmt expr stmt
  | .keyword .switchKw => switchStmt expr stmt
  | .keyword .breakKw =>
    let t ← advance
    let _ ← eat Mark.semicolon
    return .break_ t.span
  | .keyword .continueKw =>
    let t ← advance
    let _ ← eat Mark.semicolon
    return .continue_ t.span
  | .keyword .funcKw =>
    if p.peek.kind == Mark.lParen then .method <$> methodDecl stmt
    else .function <$> functionDecl stmt {}
  | .keyword .classKw => .class_ <$> classDecl expr stmt
  | .keyword .interfaceKw => interfaceStmt
  | .keyword .templateKw => templateStmt expr stmt
  | .keyword .tryKw => tryStmt stmt
  | .keyword .throwKw => throwStmt expr stmt
  | .keyword .scopeKw =>
    let t ← advance
    let body ← block stmt
    return .scope body (t.span.upTo body.span)
  | .mark .lBrace => .block <$> block stmt
  | _ =>
    let e ← value expr stmt
    let _ ← eat Mark.semicolon
    return .expr e

end

/-! ## Tying the knot -/

mutual

/-- An expression with at most `fuel` levels of nesting. -/
def expressionAt : (fuel : Nat) → Precedence → Parse Expr
  | 0, _, p => tooDeep p
  | fuel + 1, least, p => expressionStep (expressionAt fuel) (statementAt fuel) least p

/-- A statement with at most `fuel` levels of nesting. -/
def statementAt : (fuel : Nat) → Parse Stmt
  | 0, p => tooDeep p
  | fuel + 1, p => statementStep (expressionAt fuel) (statementAt fuel) p

end

/-- An expression whose operators bind more tightly than `least`. -/
def expression (least : Precedence) : Parse Expr := fun p => expressionAt p.fuel least p

/-- A statement. -/
def statement : Parse Stmt := fun p => statementAt p.fuel p

def expressionList (stop : TokenKind) : Parse (List Expr) := expressionListOf expression stop

def blockStatement : Parse Block := blockOf statement

def variable_ : Parse Stmt := varStmt expression statement

def function : Parse Function := functionDecl statement {}

end ClassLang.Parse
