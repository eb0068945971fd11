import ClassLang.Parse.Error
import ClassLang.Token.Lexer
import ClassLang.Ast.Basic

/-!
# Parser state

A parser holds the current token, the tokens after it, the errors recorded so far and the names
declared as templates. The end marker stays current once it is reached. A parsing action that fails
keeps the tokens it has consumed: the state after an error is the state in which recovery starts.
-/

namespace ClassLang

/-- The state of a parser. -/
structure Parser where
  current : Token
  /-- The tokens after the current one; none of them means that the current one is the end
  marker. -/
  rest : List Token
  /-- Recorded errors, oldest first. -/
  errors : List ParseError := []
  /-- Names declared with `template` so far: after one of them `<` opens type arguments. -/
  templates : List String := []
deriving Inhabited

namespace Parser

def ofTokens : List Token → Parser
  | t :: ts => { current := t, rest := ts }
  | [] => { current := ⟨.eof, "", {}⟩, rest := [] }

def ofSource (source : String) : Parser := ofTokens (tokenize source)

/-- The token after the current one. -/
def peek (p : Parser) : Token := p.rest.headD p.current

def kind (p : Parser) : TokenKind := p.current.kind

def atEof (p : Parser) : Bool := p.kind == .eof

/-- The state one token further on. -/
def advanced (p : Parser) : Parser :=
  match p.rest with
  | [] => p
  | t :: ts => { p with current := t, rest := ts }

/-- A bound on nesting and on repetition: neither can go further than there are tokens. -/
def fuel (p : Parser) : Nat := p.rest.length + 2

def isTemplate (p : Parser) (name : String) : Bool := p.templates.contains name

end Parser

/-- Parsing actions. -/
abbrev Parse := EStateM ParseError Parser

namespace Parse

variable {α β : Type}

/-! ## Tokens -/

/-- Consumes the current token and answers it. -/
def advance : Parse Token := fun p => .ok p.current p.advanced

def current : Parse Token := fun p => .ok p.current p

def currentKind : Parse TokenKind := fun p => .ok p.kind p

def currentSpan : Parse Span := fun p => .ok p.current.span p

/-- Whether the current token is of a kind. -/
def check (k : TokenKind) : Parse Bool := fun p => .ok (p.kind == k) p

def checkAny (ks : List TokenKind) : Parse Bool := fun p => .ok (ks.contains p.kind) p

/-- Consumes the current token if it is of a kind, and tells whether it was. -/
def eat (k : TokenKind) : Parse Bool := fun p =>
  if p.kind == k then .ok true p.advanced else .ok false p

/-- Fails because the current token is none of those expected. -/
def unexpected (expected : List TokenKind) (suggestion? : Option String) : Parse α := fun p =>
  .error ⟨.unexpected expected p.kind, p.current.span, suggestion?⟩ p

def tooDeep : Parse α := fun p => .error { cause := .tooDeep, span := p.current.span } p

/-- Consumes a token of a kind. -/
def expect (k : TokenKind) : Parse Token := fun p =>
  if p.kind == k then .ok p.current p.advanced else unexpected [k] none p

/-- Consumes an identifier. -/
def ident : Parse Ident := do
  let t ← expect .ident
  return ⟨t.literal, t.span⟩

/-- Consumes the `>` that closes type arguments. Of a `>>` only the first half is consumed, and the
second half becomes the current token. -/
def closingAngle : Parse Token := fun p =>
  if p.kind == Mark.shiftRight then
    let s := p.current.span
    let first : Token := ⟨Mark.gt, ">", ⟨s.start, s.start + 1, s.line, s.column⟩⟩
    let second : Token := ⟨Mark.gt, ">", ⟨s.start + 1, s.stop, s.line, s.column + 1⟩⟩
    .ok first { p with current := second }
  else expect Mark.gt p

/-- Records a template name. -/
def registerTemplate (name : String) : Parse Unit := fun p =>
  .ok () { p with templates := if p.isTemplate name then p.templates else name :: p.templates }

/-! ## Repetition -/

/-- What one round of a repetition contributes. -/
inductive Round (α : Type) where
  /-- Nothing, and the repetition ends. -/
  | stop
  /-- Nothing, and the repetition goes on. -/
  | skip
  /-- One item, and the repetition goes on. -/
  | item (a : α)
  /-- One item, and the repetition ends. -/
  | last (a : α)

/-- Repeats a round, at most `fuel` times, and collects the items. -/
def collectAt (round : Parse (Round α)) : (fuel : Nat) → Parse (List α)
  | 0 => tooDeep
  | fuel + 1 => do
    match ← round with
    | .stop => return []
    | .skip => collectAt round fuel
    | .item a => return a :: (← collectAt round fuel)
    | .last a => return [a]

/-- Repeats a round as often as it asks for. Every round that goes on consumes a token, so the
number of tokens is no limit. -/
def collect (round : Parse (Round α)) : Parse (List α) := fun p => collectAt round p.fuel p

/-- Extends a value step by step, at most `fuel` times. -/
def extendAt (step : α → Parse (Option α)) : (fuel : Nat) → α → Parse α
  | 0, _ => tooDeep
  | fuel + 1, a => do
    match ← step a with
    | none => return a
    | some b => extendAt step fuel b

/-- Extends a value until a step adds nothing. Every step that adds something consumes a token. -/
def extend (step : α → Parse (Option α)) (a : α) : Parse α := fun p => extendAt step p.fuel a p

/-- An item, and further items after commas. -/
def commaSeparated (item : Parse α) : Parse (List α) := do
  let first ← item
  let more ← collect do
    if ← eat Mark.comma then return .item (← item) else return .stop
  return first :: more

/-- An optional part. -/
def optional (present : Bool) (part : Parse α) : Parse (Option α) := do
  if present then return some (← part) else return none

end Parse

end ClassLang
