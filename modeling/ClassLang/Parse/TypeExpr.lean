import ClassLang.Parse.Basic

/-!
# Reading written types

`T`, `[]T`, `map[K]V`, `*T` and `Name<T, ...>`. Each nested type starts after a token of the outer
one, so the number of tokens bounds the nesting.
-/

namespace ClassLang.Parse

/-- The tokens that a type can start with. -/
def typeStart : List TokenKind := [.ident, Mark.lBracket, Keyword.mapKw, Mark.star]

def atTypeStart : Parse Bool := checkAny typeStart

/-- Type arguments after their opening angle, with the closing one. -/
def typeArguments (type : Parse TypeExpr) : Parse (List TypeExpr × Token) := do
  let args ← commaSeparated type
  let close ← closingAngle
  return (args, close)

/-- A name, and type arguments if an angle follows. -/
def namedType (type : Parse TypeExpr) : Parse TypeExpr := do
  let name ← ident
  if ← eat Mark.lt then
    let (args, close) ← typeArguments type
    return .generic name args (name.span.upTo close.span)
  else return .named name

/-- One type, given how to read the types inside it. -/
def typeStep (type : Parse TypeExpr) : Parse TypeExpr := do
  let start ← currentSpan
  match ← currentKind with
  | .mark .lBracket =>
    let _ ← advance
    let _ ← expect Mark.rBracket
    let element ← type
    return .array element (start.upTo element.span)
  | .keyword .mapKw =>
    let _ ← advance
    let _ ← expect Mark.lBracket
    let key ← type
    let _ ← expect Mark.rBracket
    let value ← type
    return .map key value (start.upTo value.span)
  | .mark .star =>
    let _ ← advance
    let inner ← type
    return .pointer inner (start.upTo inner.span)
  | .ident => namedType type
  | _ => unexpected typeStart none

/-- A type nested at most `fuel` deep. -/
def typeAt : (fuel : Nat) → Parse TypeExpr
  | 0, p => tooDeep p
  | fuel + 1, p => typeStep (typeAt fuel) p

/-- A type. -/
def type : Parse TypeExpr := fun p => typeAt p.fuel p

/-- One or more types separated by commas. -/
def typeList : Parse (List TypeExpr) := commaSeparated type

/-- A type if one starts here. -/
def optionalType : Parse (Option TypeExpr) := do
  optional (← atTypeStart) type

/-- A parameter. -/
def parameter : Parse Param := do
  let name ← ident
  let type? ← optionalType
  let span := match type? with
    | some t => name.span.upTo t.span
    | none => name.span
  return ⟨name, type?, span⟩

/-- Parameters between parentheses. -/
def parameters : Parse (List Param) := do
  let _ ← expect Mark.lParen
  let params ← collect do
    if ← check Mark.rParen then return .stop
    let p ← parameter
    if ← eat Mark.comma then return .item p else return .last p
  let _ ← expect Mark.rParen
  return params

end ClassLang.Parse
