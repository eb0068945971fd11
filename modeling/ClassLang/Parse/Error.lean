import ClassLang.Token

/-!
# Why a text is refused
-/

namespace ClassLang

/-- The ways in which a text can go wrong. -/
inductive ParseError.Cause where
  /-- None of the expected tokens stands here. -/
  | unexpected (expected : List TokenKind) (found : TokenKind)
  /-- No expression starts with this token. -/
  | noExpression (found : TokenKind)
  /-- A number out of range. -/
  | badNumber (text : String)
  /-- More nesting than the text has tokens for; no text reaches this. -/
  | tooDeep
deriving DecidableEq, Repr, Inhabited

/-- A syntax error: its cause, where it was noticed, and what might mend it. -/
structure ParseError where
  cause : ParseError.Cause
  span : Span
  suggestion? : Option String := none
deriving DecidableEq, Repr, Inhabited

namespace ParseError

/-- How a list of alternatives is named. -/
def alternatives : List TokenKind → String
  | [k] => k.display
  | ks => "one of " ++ String.intercalate ", " (ks.map TokenKind.display)

def message (e : ParseError) : String :=
  match e.cause with
  | .unexpected expected found => s!"expected {alternatives expected}, got {found.display}"
  | .noExpression found => s!"expected expression, got {found.display}"
  | .badNumber text => s!"could not parse {text} as a number"
  | .tooDeep => "nesting too deep"

/-- The message with its position. -/
def text (e : ParseError) : String := s!"{e.span.position}: {e.message}"

end ParseError

end ClassLang
