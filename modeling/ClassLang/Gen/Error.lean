import ClassLang.Span

/-!
# Errors of code generation
-/

namespace ClassLang

/-- Why code could not be generated. -/
inductive GenError.Cause where
  | undefinedVariable (name : String)
  | unknownMember (cls member : String)
  | notAClass (name : String)
  | notATemplate (name : String)
  | typeArgumentCount (name : String) (expected actual : Nat)
  | notCallable (name : String)
  | invalidAssignTarget (target : String)
  | outsideLoop (keyword : String)
  | cyclicClass (name : String)
  /-- Templates or field initializers ask for one another without end. -/
  | unbounded
  /-- The generator itself is at fault. -/
  | internal (problem : String)
deriving DecidableEq, Repr, Inhabited

/-- An error with the place it belongs to, if there is one. -/
structure GenError where
  cause : GenError.Cause
  span? : Option Span := none
deriving DecidableEq, Repr, Inhabited

namespace GenError

def message (e : GenError) : String :=
  match e.cause with
  | .undefinedVariable name => s!"undefined variable: {name}"
  | .unknownMember cls member => s!"{cls} has no field or method {member}"
  | .notAClass name => s!"{name} is not a class"
  | .notATemplate name => s!"{name} is not a template"
  | .typeArgumentCount name expected actual =>
    s!"wrong number of type arguments to {name}: expected {expected}, got {actual}"
  | .notCallable name => s!"cannot call {name}"
  | .invalidAssignTarget target => s!"cannot assign to {target}"
  | .outsideLoop keyword => s!"{keyword} outside loop"
  | .cyclicClass name => s!"class hierarchy of {name} is cyclic"
  | .unbounded => "templates or initializers nest without end"
  | .internal problem => s!"internal error: {problem}"

/-- The message with its position, unless no text stands behind the place. -/
def text (e : GenError) : String :=
  match e.span? with
  | some span => if 0 < span.line then s!"{span.position}: {e.message}" else e.message
  | none => e.message

end GenError

end ClassLang
