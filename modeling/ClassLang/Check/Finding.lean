import ClassLang.Ty

/-!
# What analysis finds

A finding has a cause and a place. Its level, code, message and notes follow from the cause; its
labels point into the source text.
-/

namespace ClassLang

/-- How much a finding matters. -/
inductive Level where
  | error | warning | info
deriving DecidableEq, Repr, Inhabited

def Level.text : Level → String
  | error => "error"
  | warning => "warning"
  | info => "info"

/-- The causes of findings. -/
inductive Finding.Cause where
  | undefinedIdentifier (name : String)
  | undefinedType (name : String)
  | redeclared (name : String) (first : Span)
  | typeMismatch (expected actual : Ty)
  | invalidBinary (op : InfixOp) (left right : Ty)
  | invalidUnary (op : String) (operand : Ty)
  | nonBoolCondition (actual : Ty)
  | invalidAssignTarget (target : String)
  | assignToConstant (name : String)
  | notCallable (callee : String) (ty : Ty)
  /-- Too many or too few arguments; a variadic function asks for at least some number. -/
  | argumentCount (callee : String) (atLeast : Bool) (expected actual : Nat)
  | argumentType (callee : String) (index : Nat) (expected actual : Ty)
  | unknownMember (ty : Ty) (member : String)
  | unknownPackageMember (package member : String)
  | notIndexable (ty : Ty)
  | invalidIndex (expected actual : Ty)
  | mixedElements (expected actual : Ty)
  | notAClass (name : String)
  | notAnInterface (name : String)
  | missingInterfaceMethod (cls interface method : String)
  | returnTypeMismatch (expected actual : Ty)
  | returnOutsideFunction
  | breakOutsideLoop
  | continueOutsideLoop
  | thisOutsideClass
  | superWithoutParent
  | notATemplate (name : String)
  | noValue (expr : String)
  | typeArgumentCount (name : String) (expected actual : Nat)
  | unusedImport (path : String)
  | shadowed (name : String)
deriving Repr, Inhabited

/-- Something found in a program. -/
structure Finding where
  cause : Finding.Cause
  span : Span
deriving Repr, Inhabited

namespace Finding

namespace Cause

def message : Cause → String
  | undefinedIdentifier name => s!"undefined identifier: {name}"
  | undefinedType name => s!"undefined type: {name}"
  | redeclared name _ => s!"{name} redeclared in this scope"
  | typeMismatch expected actual => s!"type mismatch: expected {expected.text}, got {actual.text}"
  | invalidBinary op left right => s!"invalid operation: {left.text} {op.text} {right.text}"
  | invalidUnary op operand => s!"invalid operation: {op}{operand.text}"
  | nonBoolCondition actual => s!"condition must be bool, got {actual.text}"
  | invalidAssignTarget target => s!"cannot assign to {target}"
  | assignToConstant name => s!"cannot assign to constant {name}"
  | notCallable callee ty => s!"cannot call non-function {callee} (type {ty.text})"
  | argumentCount callee atLeast expected actual =>
    let least := if atLeast then "at least " else ""
    s!"wrong number of arguments to {callee}: expected {least}{expected}, got {actual}"
  | argumentType callee index expected actual =>
    s!"argument {index} to {callee}: expected {expected.text}, got {actual.text}"
  | unknownMember ty member => s!"{ty.text} has no field or method {member}"
  | unknownPackageMember package member => s!"undefined: {package}.{member}"
  | notIndexable ty => s!"cannot index {ty.text}"
  | invalidIndex expected actual =>
    s!"invalid index type: expected {expected.text}, got {actual.text}"
  | mixedElements expected actual =>
    s!"array elements must share a type: expected {expected.text}, got {actual.text}"
  | notAClass name => s!"{name} is not a class"
  | notAnInterface name => s!"{name} is not an interface"
  | missingInterfaceMethod cls interface method =>
    s!"{cls} does not implement {interface}: missing method {method}"
  | returnTypeMismatch expected actual =>
    s!"cannot return {actual.text} from function returning {expected.text}"
  | returnOutsideFunction => "return outside function"
  | breakOutsideLoop => "break outside loop or switch"
  | continueOutsideLoop => "continue outside loop"
  | thisOutsideClass => "this used outside a class"
  | superWithoutParent => "super used outside a derived class"
  | notATemplate name => s!"{name} is not a template"
  | noValue expr => s!"{expr} (no value) used as value"
  | typeArgumentCount name expected actual =>
    s!"wrong number of type arguments to {name}: expected {expected}, got {actual}"
  | unusedImport path => s!"imported and not used: \"{path}\""
  | shadowed name => s!"{name} shadows a declaration in an outer scope"

def level : Cause → Level
  | unusedImport _ => .warning
  | shadowed _ => .info
  | _ => .error

/-- The code that names the kind of finding. -/
def code : Cause → String
  | undefinedIdentifier .. => "E2001"
  | undefinedType .. => "E2002"
  | redeclared .. => "E2003"
  | typeMismatch .. => "E2004"
  | invalidBinary .. => "E2005"
  | invalidUnary .. => "E2006"
  | nonBoolCondition .. => "E2007"
  | invalidAssignTarget .. => "E2008"
  | assignToConstant .. => "E2009"
  | notCallable .. => "E2010"
  | argumentCount .. => "E2011"
  | argumentType .. => "E2012"
  | unknownMember .. => "E2013"
  | unknownPackageMember .. => "E2014"
  | notIndexable .. => "E2015"
  | invalidIndex .. => "E2016"
  | mixedElements .. => "E2017"
  | notAClass .. => "E2018"
  | notAnInterface .. => "E2019"
  | missingInterfaceMethod .. => "E2020"
  | returnTypeMismatch .. => "E2021"
  | returnOutsideFunction => "E2022"
  | breakOutsideLoop => "E2023"
  | continueOutsideLoop => "E2024"
  | thisOutsideClass => "E2025"
  | superWithoutParent => "E2026"
  | notATemplate .. => "E2027"
  | typeArgumentCount .. => "E2028"
  | noValue .. => "E2029"
  | unusedImport .. => "W2001"
  | shadowed .. => "I2001"

/-- What the label at the place itself says. -/
def label : Cause → String
  | undefinedIdentifier .. => "not found in this scope"
  | undefinedType .. => "type not found"
  | redeclared .. => "duplicate declaration"
  | typeMismatch .. | argumentType .. | returnTypeMismatch .. => "mismatched types"
  | invalidBinary .. | invalidUnary .. => "invalid operation"
  | nonBoolCondition .. => "expected bool"
  | invalidAssignTarget .. | assignToConstant .. => "cannot be assigned"
  | notCallable .. => "cannot be called"
  | argumentCount .. | typeArgumentCount .. => "incorrect number of arguments"
  | unknownMember .. | unknownPackageMember .. => "member not found"
  | notIndexable .. | invalidIndex .. => "invalid index"
  | mixedElements .. => "element type differs"
  | notAClass .. | notAnInterface .. | notATemplate .. => "wrong kind of declaration"
  | missingInterfaceMethod .. => "incomplete implementation"
  | returnOutsideFunction | breakOutsideLoop | continueOutsideLoop => "not allowed here"
  | thisOutsideClass | superWithoutParent => "no enclosing class"
  | noValue .. => "has no value"
  | unusedImport .. => "unused import"
  | shadowed .. => "shadowing declaration"

def notes : Cause → List String
  | assignToConstant .. => ["help: declare it with var instead of const"]
  | unusedImport .. => ["help: remove the import"]
  | shadowed .. => ["the outer declaration is hidden for the rest of this block"]
  | _ => []

/-- The earlier declaration that a finding refers back to. -/
def first? : Cause → Option Span
  | redeclared _ first => some first
  | _ => none

end Cause

def level (f : Finding) : Level := f.cause.level

def isError (f : Finding) : Bool := f.level == .error

/-- The message with its position. -/
def text (f : Finding) : String := s!"{f.span.position}: {f.cause.message}"

/-! ## Labels -/

/-- A stretch of the source that a finding has something to say about. -/
structure Mark where
  span : Span
  message : String
  isPrimary : Bool
deriving Repr, Inhabited

/-- The marks of a finding, the primary one first. -/
def marks (f : Finding) : List Mark :=
  ⟨f.span, f.cause.label, true⟩ ::
    f.cause.first?.toList.map fun first => ⟨first, "first declared here", false⟩

/-- A mark with its ends looked up in the source text. -/
structure Label where
  start : Place
  stop : Place
  message : String
  isPrimary : Bool
deriving Repr, Inhabited

/-- The label of a mark; there is none if one of its ends is not found. -/
def Mark.label? (locate : Nat → Option Place) (m : Mark) : Option Label := do
  let start ← locate m.span.start
  let stop ← locate m.span.stop
  return ⟨start, stop, m.message, m.isPrimary⟩

/-- The labels of a finding, where byte offsets are looked up by a given function. -/
def labelsBy (locate : Nat → Option Place) (f : Finding) : List Label :=
  f.marks.filterMap (Mark.label? locate)

/-- The point at a byte offset of a text. -/
def placeAt (source : String) (offset : Nat) : Place :=
  Place.start.after (Span.takeBytes offset source.toList)

/-- The labels of a finding in a source. -/
def labels (f : Finding) (source : String) : List Label :=
  f.labelsBy fun offset => some (placeAt source offset)

end Finding

end ClassLang
