import ClassLang.Ty
import ClassLang.Table

/-!
# Symbols and the scope tree

A symbol is what a name stands for. Scopes form a tree with the global scope at its root; a scope is
known by its position in the list of all scopes, and stays there after it is closed. One scope is
the current one. A name is looked up from a scope outwards.
-/

namespace ClassLang

inductive SymbolKind where
  | variable_ | constant | parameter | function | class_ | interface | package | template
  | typeParameter
deriving DecidableEq, Repr, Inhabited

structure FieldInfo where
  name : String
  ty : Ty
  isConst : Bool
deriving Repr, Inhabited

structure MethodInfo where
  name : String
  signature : Signature
  isVirtual : Bool
deriving Repr, Inhabited

/-- The members of a class, in the order of declaration. -/
structure ClassInfo where
  name : String
  parent? : Option String := none
  interfaces : List String := []
  fields : List FieldInfo := []
  methods : List MethodInfo := []
deriving Repr, Inhabited

namespace ClassInfo

def field? (c : ClassInfo) (name : String) : Option FieldInfo := c.fields.find? (·.name == name)

def method? (c : ClassInfo) (name : String) : Option MethodInfo := c.methods.find? (·.name == name)

end ClassInfo

structure InterfaceInfo where
  name : String
  methods : List (String × Signature) := []
deriving Repr, Inhabited

/-- What a template declares, in terms of its type parameters. -/
structure TemplateInfo where
  params : List String
  signature? : Option Signature := none
  class? : Option ClassInfo := none
deriving Repr, Inhabited

/-- What a name stands for. -/
structure Symbol where
  name : String
  kind : SymbolKind
  ty : Ty
  span : Span := {}
  signature? : Option Signature := none
  class? : Option ClassInfo := none
  interface? : Option InterfaceInfo := none
  template? : Option TemplateInfo := none
  /-- The scope it is defined in. -/
  scope : Nat := 0
deriving Repr, Inhabited

namespace Symbol

/-- The symbol of a function. -/
def withSignature (s : Symbol) (sig : Signature) : Symbol :=
  { s with ty := sig.toTy, signature? := some sig }

def isConst (s : Symbol) : Bool := s.kind == .constant

/-- The members of the class, or of the template's class, that the symbol declares. -/
def classInfo? (s : Symbol) : Option ClassInfo :=
  s.class? <|> s.template?.bind TemplateInfo.class?

/-- Whether a template of classes is declared. -/
def isClassTemplate (s : Symbol) : Bool := (s.template?.bind TemplateInfo.class?).isSome

/-- Whether the symbol stands for a stored value. -/
def isStored (s : Symbol) : Bool :=
  s.kind == .variable_ || s.kind == .constant || s.kind == .parameter

end Symbol

inductive ScopeKind where
  | global | function | block | class_ | loop
deriving DecidableEq, Repr, Inhabited

structure Scope where
  id : Nat
  kind : ScopeKind
  parent? : Option Nat := none
  children : List Nat := []
  symbols : Table Symbol := {}
deriving Inhabited

/-- The symbols of a scope, sorted by name. -/
def Scope.sorted (s : Scope) : List Symbol :=
  s.symbols.values.mergeSort fun a b => a.name ≤ b.name

/-- All scopes, and the position of the current one. -/
structure ScopeTree where
  scopes : List Scope := [{ id := 0, kind := .global }]
  current : Nat := 0
deriving Inhabited

/-- A second definition of a name in one scope. -/
structure Duplicate where
  name : String
  first : Span
  duplicate : Span

namespace ScopeTree

def get? (t : ScopeTree) (id : Nat) : Option Scope := t.scopes[id]?

def count (t : ScopeTree) : Nat := t.scopes.length

/-- Opens a scope inside the current one and makes it current. -/
def push (t : ScopeTree) (kind : ScopeKind) : ScopeTree :=
  let id := t.count
  let scopes := t.scopes.modify t.current fun s => { s with children := s.children ++ [id] }
  ⟨scopes ++ [{ id, kind, parent? := some t.current }], id⟩

/-- Goes back to the enclosing scope; from the global scope there is none. -/
def pop (t : ScopeTree) : ScopeTree :=
  match (t.get? t.current).bind Scope.parent? with
  | some p => { t with current := p }
  | none => t

/-- The symbol of a name in a scope itself. -/
def lookupIn (t : ScopeTree) (id : Nat) (name : String) : Option Symbol :=
  (t.get? id).bind (·.symbols.find? name)

/-- The symbol of a name in the current scope itself. -/
def resolveLocal (t : ScopeTree) (name : String) : Option Symbol := t.lookupIn t.current name

/-- The symbol of a name in the innermost scope around `id` that has one. The enclosing scope of a
scope comes before it. -/
def resolveFrom (t : ScopeTree) (id : Nat) (name : String) : Option Symbol :=
  match t.get? id with
  | none => none
  | some scope =>
    match scope.symbols.find? name with
    | some s => some s
    | none =>
      match scope.parent? with
      | some p => if p < id then t.resolveFrom p name else none
      | none => none
termination_by id

def resolve (t : ScopeTree) (name : String) : Option Symbol := t.resolveFrom t.current name

/-- The symbol of a name in the global scope. -/
def global? (t : ScopeTree) (name : String) : Option Symbol := t.lookupIn 0 name

/-- Puts a symbol into the current scope, in place of an earlier one of its name. -/
def replace (t : ScopeTree) (s : Symbol) : ScopeTree :=
  { t with
    scopes := t.scopes.modify t.current fun scope =>
      { scope with symbols := scope.symbols.insert s.name { s with scope := t.current } } }

/-- Puts a symbol into the current scope, unless its name is taken there. -/
def define (t : ScopeTree) (s : Symbol) : Except Duplicate ScopeTree :=
  match t.resolveLocal s.name with
  | some first => .error ⟨s.name, first.span, s.span⟩
  | none => .ok (t.replace s)

/-- Changes a symbol of the global scope. -/
def modifyGlobal (t : ScopeTree) (name : String) (f : Symbol → Symbol) : ScopeTree :=
  { t with
    scopes := t.scopes.modify 0 fun scope =>
      { scope with symbols := scope.symbols.modify name f } }

/-! ## Classes -/

/-- The members of a class or of a template's class. -/
def classInfo? (t : ScopeTree) (name : String) : Option ClassInfo :=
  (t.global? name).bind Symbol.classInfo?

def interfaceInfo? (t : ScopeTree) (name : String) : Option InterfaceInfo :=
  (t.global? name).bind Symbol.interface?

/-- At most `fuel` further classes on the way up from `info`, none of which is in `seen`. -/
def chainFrom (t : ScopeTree) :
    (fuel : Nat) → (seen : List String) → Option ClassInfo → List ClassInfo
  | 0, _, _ => []
  | _, _, none => []
  | fuel + 1, seen, some info =>
    if seen.contains info.name then []
    else info :: t.chainFrom fuel (info.name :: seen) (info.parent?.bind t.classInfo?)

/-- The number of names in the global scope. -/
def globalCount (t : ScopeTree) : Nat := ((t.get? 0).map fun s => s.symbols.size).getD 0

/-- A class and its ancestors, nearest first. The list ends before an unknown parent and before a
class that is on it already, so it is no longer than the global scope. -/
def classChain (t : ScopeTree) (name : String) : List ClassInfo :=
  t.chainFrom (t.globalCount + 1) [] (t.classInfo? name)

/-- The field of a name in the nearest class that has one. -/
def findField (t : ScopeTree) (cls name : String) : Option FieldInfo :=
  (t.classChain cls).findSome? (·.field? name)

/-- The method of a name in the nearest class that has one. -/
def findMethod (t : ScopeTree) (cls name : String) : Option MethodInfo :=
  (t.classChain cls).findSome? (·.method? name)

/-- Whether a class is another one or derives from it. -/
def isSubclass (t : ScopeTree) (cls ancestor : String) : Bool :=
  (t.classChain cls).any (·.name == ancestor)

/-- Whether a class or an ancestor of it names an interface in its list. -/
def implements (t : ScopeTree) (cls interface : String) : Bool :=
  (t.classChain cls).any (·.interfaces.contains interface)

/-- Whether a value of one type can be stored in a place of another. -/
def assignable (t : ScopeTree) (target value : Ty) : Bool :=
  target.accepts value ||
    match target, value with
    | .class_ c, .class_ d => t.isSubclass d c
    | .interface i, .class_ c => t.implements c i
    | _, _ => false

end ScopeTree

end ClassLang
