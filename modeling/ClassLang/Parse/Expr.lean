import ClassLang.Parse.TypeExpr

/-!
# Reading expressions

An expression is an operand extended by operators that bind more tightly than the context asks for.
The readers below are given how to read nested expressions (`expr`) and nested statements (`stmt`,
for the bodies of function literals); each of them consumes a token before it uses either.
-/

namespace ClassLang.Parse

/-- Statements between braces. A failing statement fails the block. -/
def blockOf (stmt : Parse Stmt) : Parse Block := do
  let start ← expect Mark.lBrace
  let stmts ← collect do
    if ← checkAny [Mark.rBrace, .eof] then return .stop
    if ← eat Mark.semicolon then return .skip
    return .item (← stmt)
  let stop ← expect Mark.rBrace
  return ⟨stmts, start.span.upTo stop.span⟩

section

variable (expr : Precedence → Parse Expr) (stmt : Parse Stmt)

/-- Expressions separated by commas, up to but not including the end token. A comma may stand before
the end token. -/
def expressionListOf (stop : TokenKind) : Parse (List Expr) := do
  if ← check stop then return []
  let first ← expr .lowest
  let more ← collect do
    if ← eat Mark.comma then
      if ← check stop then return .stop
      return .item (← expr .lowest)
    else return .stop
  return first :: more

/-- A name; one that is declared as a template takes type arguments. -/
def identifierExpr : Parse Expr := do
  let name ← ident
  if (← check Mark.lt) && (← get).isTemplate name.name then
    let _ ← advance
    let (args, close) ← typeArguments type
    return .templateInstance name args (name.span.upTo close.span)
  else return .ident name

/-- An integer literal must fit in 63 bits. -/
def integerExpr : Parse Expr := do
  let t ← advance
  let value := Binary64.digitsValue 0 t.literal.toList
  if value < Nat.pow 2 63 then return .int value t.span
  else throw { cause := .badNumber t.literal, span := t.span }

def floatExpr : Parse Expr := do
  let t ← advance
  let digits := t.literal.toList
  let whole := digits.takeWhile (· != '.')
  let fraction := (digits.dropWhile (· != '.')).drop 1
  return .float (.ofDigits whole fraction) t.span

def prefixExpr (op : PrefixOp) : Parse Expr := do
  let t ← advance
  let right ← expr .unary
  return .prefixed op right (t.span.upTo right.span)

def groupedExpr : Parse Expr := do
  let _ ← expect Mark.lParen
  let e ← expr .lowest
  let _ ← expect Mark.rParen
  return e

def arrayExpr : Parse Expr := do
  let start ← expect Mark.lBracket
  let elements ← expressionListOf expr Mark.rBracket
  let stop ← expect Mark.rBracket
  return .array elements (start.span.upTo stop.span)

def hashExpr : Parse Expr := do
  let start ← expect Mark.lBrace
  let entries ← collect do
    if ← check Mark.rBrace then return .stop
    let key ← expr .lowest
    let _ ← expect Mark.colon
    let value ← expr .lowest
    if ← eat Mark.comma then return .item ⟨key, value⟩ else return .last ⟨key, value⟩
  let stop ← expect Mark.rBrace
  return .hash entries (start.span.upTo stop.span)

/-- A function literal. Whatever stands before the body is read as the result type. -/
def lambdaExpr : Parse Expr := do
  let start ← expect Keyword.funcKw
  let params ← parameters
  let ret? ← optional (!(← check Mark.lBrace)) type
  let body ← blockOf stmt
  return .lambda params ret? body (start.span.upTo body.span)

def newExpr : Parse Expr := do
  let start ← expect Keyword.newKw
  let cls ← namedType type
  let _ ← expect Mark.lParen
  let args ← expressionListOf expr Mark.rParen
  let stop ← expect Mark.rParen
  return .new cls args (start.span.upTo stop.span)

/-- An operand: an expression without operators after it. -/
def operand : Parse Expr := do
  let t ← current
  match t.kind with
  | .ident => identifierExpr
  | .int => integerExpr
  | .float => floatExpr
  | .string => let _ ← advance; return .string t.literal t.span
  | .char => let _ ← advance; return .char t.literal t.span
  | .keyword .trueKw => let _ ← advance; return .bool true t.span
  | .keyword .falseKw => let _ ← advance; return .bool false t.span
  | .keyword .nilKw => let _ ← advance; return .null t.span
  | .mark .bang => prefixExpr expr .not
  | .mark .minus => prefixExpr expr .negate
  | .mark .tilde => prefixExpr expr .bitNot
  | .mark .lParen => groupedExpr expr
  | .mark .lBracket => arrayExpr expr
  | .mark .lBrace => hashExpr expr
  | .keyword .funcKw => lambdaExpr stmt
  | .keyword .newKw => newExpr expr
  | .keyword .thisKw => let _ ← advance; return .this t.span
  | .keyword .superKw => let _ ← advance; return .super t.span
  | k => throw { cause := .noExpression k, span := t.span }

/-- Extends an operand by the operator at hand, if it binds more tightly than `least`. -/
def operatorAfter (least : Precedence) (left : Expr) : Parse (Option Expr) := do
  let k ← currentKind
  if (Precedence.ofKind k).rank ≤ least.rank then return none
  match k with
  | .mark .lParen =>
    let _ ← advance
    let args ← expressionListOf expr Mark.rParen
    let stop ← expect Mark.rParen
    return some (.call left args (left.span.upTo stop.span))
  | .mark .lBracket =>
    let _ ← advance
    let key ← expr .lowest
    let stop ← expect Mark.rBracket
    return some (.index left key (left.span.upTo stop.span))
  | .mark .dot =>
    let _ ← advance
    let property ← ident
    return some (.member left property false (left.span.upTo property.span))
  | .mark .arrow =>
    let _ ← advance
    let property ← ident
    return some (.member left property true (left.span.upTo property.span))
  | .mark .increment =>
    let t ← advance
    return some (.postfixed .increment left (left.span.upTo t.span))
  | .mark .decrement =>
    let t ← advance
    return some (.postfixed .decrement left (left.span.upTo t.span))
  | _ =>
    match AssignOp.ofKind? k with
    | some op =>
      let _ ← advance
      let value ← expr .lowest
      return some (.assign op left value (left.span.upTo value.span))
    | none =>
      match InfixOp.ofKind? k with
      | some op =>
        let _ ← advance
        let right ← expr (Precedence.ofKind k)
        return some (.binary op left right (left.span.upTo right.span))
      | none => return none

/-- An expression whose operators bind more tightly than `least`. -/
def expressionStep (least : Precedence) : Parse Expr := do
  let left ← operand expr stmt
  extend (operatorAfter expr least) left

end

end ClassLang.Parse
