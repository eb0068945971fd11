import ClassLang.Gen.State

/-!
# Types, layouts and instances

A written type is resolved under bindings of type parameters. Where it names a template with type
arguments, the instance is made on first use, which resolves the types that the template itself is
written with. An instance is recorded before its types are resolved, so it may refer to itself.
-/

namespace ClassLang.Gen

/-- Finds or makes the instance of a template for type arguments, and gives its symbol. -/
abbrev Instantiate := Ident → List Ty → Gen (Option String)

/-- What is known where a type is resolved. -/
structure Typing where
  catalog : Catalog
  /-- The types of the type parameters in scope. -/
  bindings : List (String × Ty)
  instantiate : Instantiate

/-- The type that a name stands for: a type parameter, a basic type, a class, or an interface. -/
def namedType (t : Typing) (name : String) : Gen Ty := do
  match t.bindings.lookup name <|> Ty.ofBasicName? name with
  | some ty => return ty
  | none =>
    if t.catalog.classes.contains name || (← hasLayout name) then return .class_ name
    else if (t.catalog.scopes.interfaceInfo? name).isSome then return .interface name
    else if (t.catalog.scopes.classInfo? name).isSome then return .class_ name
    else return .unknown

/-- The class that an instance is. -/
def instanceType (t : Typing) (name : Ident) (symbol? : Option String) : Gen Ty := do
  match symbol? with
  | none => return .unknown
  | some symbol =>
    if (← hasLayout symbol) || t.catalog.isClassTemplate name.name then return .class_ symbol
    else
      report (.notAClass name.name) name.span
      return .unknown

mutual

/-- The type that a written type stands for. -/
def resolveType (t : Typing) : TypeExpr → Gen Ty
  | .named n => namedType t n.name
  | .array element _ => return .array (← resolveType t element)
  | .map key value _ => do
    let k ← resolveType t key
    let v ← resolveType t value
    return .map k v
  | .pointer inner _ => resolveType t inner
  | .generic n args _ => do
    let types ← resolveTypes t args
    instanceType t n (← t.instantiate n types)

def resolveTypes (t : Typing) : List TypeExpr → Gen (List Ty)
  | [] => return []
  | e :: es => do
    let ty ← resolveType t e
    return ty :: (← resolveTypes t es)

end

/-- The type of an optional annotation. -/
def resolveOptional (t : Typing) (missing : Ty) : Option TypeExpr → Gen Ty
  | some e => resolveType t e
  | none => return missing

/-- The signature that is written with a function. -/
def writtenSignature (t : Typing) (params : List Param) (ret? : Option TypeExpr) :
    Gen Signature := do
  let types ← params.mapM fun p => resolveOptional t .unknown p.type?
  let ret ← resolveOptional t .void ret?
  return ⟨types, ret, false⟩

/-- The type of a field: the written one, or else the one that analysis found, or else the type of
the literal that is its first value. -/
def fieldType (t : Typing) (info? : Option ClassInfo) (f : Field) : Gen Ty :=
  match f.type? with
  | some e => resolveType t e
  | none =>
    let found? := (info?.bind (·.field? f.name.name)).map fun i => i.ty.substitute t.bindings
    let known? := found?.filter fun ty => !ty.isUnknown
    return (known? <|> f.value?.bind Ty.ofLiteral?).getD .unknown

/-- The layout of a class declaration under a name, on top of the layout of its parent. -/
def layoutOf (t : Typing) (name : String) (c : Class) (parent? : Option String) : Gen Layout := do
  let base? ← match parent? with
    | some p => layout? p
    | none => pure none
  let info? := t.catalog.scopes.classInfo? c.name.name
  let fields ← c.fields.mapM fun f => do
    return (⟨f.name.name, ← fieldType t info? f, f.value?⟩ : FieldSlot)
  let inner ← c.methods.mapM fun m => do
    return (m, ← writtenSignature t m.params m.ret?)
  let outer ← (t.catalog.methodsOf c.name.name).mapM fun m => do
    return (m, ← writtenSignature t m.params m.ret?)
  let l := fields.foldl Layout.addField (Layout.derive name parent? base?)
  let l := inner.foldl (fun l (m, sig) =>
    l.addMethod m.name.name sig (m.modifiers.isVirtual || m.modifiers.isOverride)
      m.modifiers.isStatic) l
  return outer.foldl (fun l (m, sig) => l.addMethod m.name.name sig false false) l

/-- Records a layout, with its struct and its table in the module. -/
def recordLayout (l : Layout) : Gen Unit := do
  modifyModule fun m =>
    (m.addStruct l.name l.members).addGlobal (.vtable (Layout.vtableName l.name) l.vtable)
  modify fun s => { s with layouts := s.layouts.insert l.name l }

/-- Lays a class out unless that is done, its parent first, and tells whether it has a layout then.
The classes that wait for this one are in `waiting`; one of them as an ancestor makes a cycle. The
wait is no longer than `fuel`, which is enough if it is more than the number of classes. -/
def layoutClass (t : Typing) : (fuel : Nat) → (waiting : List String) → (name : String) → Gen Bool
  | 0, _, _ => return false
  | fuel + 1, waiting, name => do
    if ← hasLayout name then return true
    match t.catalog.classes.find? name with
    | none => return false
    | some c =>
      if waiting.contains name then
        report (.cyclicClass name) c.name.span
        return false
      match c.extends? with
      | none =>
        recordLayout (← layoutOf t name c none)
        return true
      | some parent =>
        if ← layoutClass t fuel (name :: waiting) parent.name then
          recordLayout (← layoutOf t name c (some parent.name))
          return true
        else if t.catalog.classes.contains parent.name then return false
        else
          recordLayout (← layoutOf t name c none)
          return true

/-- Lays a class out unless that is done, and tells whether it has a layout then. -/
def ensureLayout (t : Typing) (name : String) : Gen Bool :=
  layoutClass t (t.catalog.classes.size + 1) [] name

/-- Lays out an instance of a template of classes. -/
def layoutInstance (t : Typing) (symbol : String) (c : Class) : Gen Unit := do
  let parent? ← match c.extends? with
    | none => pure none
    | some parent => do
      let known ← ensureLayout t parent.name
      pure (if known then some parent.name else none)
  recordLayout (← layoutOf t symbol c parent?)

/-- Template and type arguments as text. -/
def instanceKey (template : String) (args : List Ty) : String :=
  String.intercalate "_" (template :: args.map Ty.text)

/-- A text with every character that a symbol cannot hold made an underscore. -/
def mangle (text : String) : String :=
  .ofList (text.toList.map fun c => if c.isAlphanum || c == '_' then c else '_')

/-- Finds or makes an instance, nesting at most `fuel` deep. -/
def instantiate (catalog : Catalog) : (fuel : Nat) → Instantiate
  | 0, _, _ => do
    exhaust
    return none
  | fuel + 1, name, args => do
    match catalog.templates.find? name.name with
    | none =>
      report (.notATemplate name.name) name.span
      return none
    | some template =>
      if template.params.length != args.length then
        report (.typeArgumentCount name.name template.params.length args.length) name.span
        return none
      let key := instanceKey name.name args
      let known? := (← get).requests.find? fun r => r.template == name.name && r.key == key
      if let some r := known? then return some r.symbol
      if ← exhausted then return none
      let symbol := mangle key
      let bindings := template.params.zip args
      modify fun s => { s with requests := s.requests ++ [⟨name.name, key, symbol⟩] }
      let t : Typing := { catalog, bindings, instantiate := instantiate catalog fuel }
      match template.body with
      | .function f => setFunction symbol (← writtenSignature t f.params f.ret?)
      | .class_ c => layoutInstance t symbol c
      | _ => pure ()
      modify fun s => { s with queue := s.queue ++ [⟨symbol, bindings, template.body⟩] }
      return some symbol

/-- Resolution of types under bindings. -/
def typing (catalog : Catalog) (bindings : List (String × Ty)) : Typing :=
  { catalog, bindings, instantiate := instantiate catalog catalog.limit }

end ClassLang.Gen
