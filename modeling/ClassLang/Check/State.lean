import ClassLang.Builtin
import ClassLang.Check.Finding

/-!
# The state of an analysis

Analysis walks over a program and keeps the scope tree, the findings in the order in which they were
made, and the imports with a mark on those that were used. What encloses the point at hand
(function, loop, switch, class) is passed down instead of being stored.
-/

namespace ClassLang

/-- What encloses the point at hand. -/
structure Context where
  /-- Whether untyped variables take the type of their value. -/
  inference : Bool := true
  /-- The result type of the enclosing function. -/
  returns? : Option Ty := none
  inLoop : Bool := false
  inSwitch : Bool := false
  /-- The enclosing class. -/
  class? : Option String := none
deriving Inhabited

/-- The context inside a function body. -/
def Context.inFunction (ctx : Context) (ret : Ty) : Context :=
  { ctx with returns? := some ret, inLoop := false, inSwitch := false }

/-- An imported package. -/
structure Import where
  name : String
  path : String
  span : Span
  used : Bool := false
deriving Repr, Inhabited

/-- A question that an analysis has to decide, with the types it is decided for. -/
inductive Judgement where
  /-- What a name stands for that is used as a value. -/
  | name (name : Ident)
  /-- Whether operands admit an operator. -/
  | binary (op : InfixOp) (left right : Ty)
  /-- Whether an element agrees with the known type of those before it. -/
  | compared (expected actual : Ty)
  /-- Whether a function may return a value. -/
  | returned (actual : Ty)
deriving Repr, Inhabited

/-- What an analysis has gathered so far. -/
structure Analysis where
  scopes : ScopeTree
  findings : List Finding := []
  imports : List Import := []
  /-- The questions that were decided, in their order. -/
  judgements : List Judgement := []
deriving Inhabited

namespace Analysis

/-- Before the first program: only the predeclared symbols. -/
def initial : Analysis := { scopes := Builtin.register {} }

def atLevel (a : Analysis) (l : Level) : List String :=
  (a.findings.filter (·.level == l)).map Finding.text

def errors (a : Analysis) : List String := a.atLevel .error

def warnings (a : Analysis) : List String := a.atLevel .warning

def hasErrors (a : Analysis) : Bool := a.findings.any Finding.isError

end Analysis

/-- Steps of an analysis. -/
abbrev Check := StateM Analysis

namespace Check

/-- Adds a finding. -/
def report (cause : Finding.Cause) (span : Span) : Check Unit :=
  modify fun a => { a with findings := a.findings ++ [⟨cause, span⟩] }

/-- Notes a question that is decided. -/
def judge (j : Judgement) : Check Unit :=
  modify fun a => { a with judgements := a.judgements ++ [j] }

def scopes : Check ScopeTree := return (← get).scopes

def resolve (name : String) : Check (Option Symbol) := return (← scopes).resolve name

def pushScope (kind : ScopeKind) : Check Unit :=
  modify fun a => { a with scopes := a.scopes.push kind }

def popScope : Check Unit := modify fun a => { a with scopes := a.scopes.pop }

def replace (s : Symbol) : Check Unit := modify fun a => { a with scopes := a.scopes.replace s }

def modifyGlobal (name : String) (f : Symbol → Symbol) : Check Unit :=
  modify fun a => { a with scopes := a.scopes.modifyGlobal name f }

def assignable (target value : Ty) : Check Bool := return (← scopes).assignable target value

/-- Notes that a new symbol hides a stored value of an outer scope. -/
def noteShadowing (s : Symbol) : Check Unit := do
  let t ← scopes
  if (t.resolveLocal s.name).isNone && ((t.resolve s.name).map Symbol.isStored).getD false then
    report (.shadowed s.name) s.span

/-- Defines a symbol in the current scope. A predeclared symbol gives way; a second declaration is
reported and the first one stays. -/
def declare (s : Symbol) : Check Unit := do
  noteShadowing s
  match (← scopes).define s with
  | .ok t => modify fun a => { a with scopes := t }
  | .error d =>
    if d.first.line = 0 then replace s
    else report (.redeclared d.name d.first) d.duplicate

theorem run_declare_eq_define (s : Symbol) (a : Analysis) :
    (declare s).run a = (match ((noteShadowing s).run a).2.scopes.define s with
      | .ok t => modify fun a => { a with scopes := t }
      | .error d =>
        if d.first.line = 0 then replace s
        else report (.redeclared d.name d.first) d.duplicate : Check Unit).run
      ((noteShadowing s).run a).2 :=
  rfl

/-- Defines a symbol in the current scope in place of an earlier one. -/
def redefine (s : Symbol) : Check Unit := do
  noteShadowing s
  replace s

/-- Marks a package as used. -/
def usePackage (name : String) : Check Unit :=
  modify fun a =>
    { a with
      imports := a.imports.map fun i => if i.name == name then { i with used := true } else i }

def undefinedType (name : Ident) : Check Ty := do
  report (.undefinedType name.name) name.span
  return .unknown

mutual

/-- The type that a written type stands for; names that stand for none are reported. The names in
`bound` are type parameters. -/
def resolveType (bound : List String) : TypeExpr → Check Ty
  | .named n => do
    match Ty.ofBasicName? n.name with
    | some t => return t
    | none =>
      if bound.contains n.name then return .param n.name
      match ← resolve n.name with
      | none => undefinedType n
      | some s =>
        match s.kind with
        | .class_ | .interface | .typeParameter => return s.ty
        | .template => if s.isClassTemplate then return .class_ n.name else undefinedType n
        | _ => undefinedType n
  | .array element _ => return .array (← resolveType bound element)
  | .map key value _ => do
    let k ← resolveType bound key
    let v ← resolveType bound value
    return .map k v
  | .pointer inner _ => resolveType bound inner
  | .generic n args _ => do
    let _ ← resolveTypes bound args
    match ← resolve n.name with
    | none => undefinedType n
    | some s =>
      if s.kind == .template then return .class_ n.name
      else
        report (.notATemplate n.name) n.span
        return .unknown

def resolveTypes (bound : List String) : List TypeExpr → Check (List Ty)
  | [] => return []
  | t :: ts => return (← resolveType bound t) :: (← resolveTypes bound ts)

end

/-- The type of an optional annotation. -/
def resolveOptional (bound : List String) (missing : Ty) : Option TypeExpr → Check Ty
  | some t => resolveType bound t
  | none => return missing

/-- The signature that parameters and a result type stand for. A parameter without a type is
unknown, a missing result is void. -/
def resolveSignature (bound : List String) (params : List Param) (ret? : Option TypeExpr) :
    Check Signature := do
  let types ← params.mapM fun p => resolveOptional bound .unknown p.type?
  let ret ← resolveOptional bound .void ret?
  return ⟨types, ret, false⟩

end Check

end ClassLang
