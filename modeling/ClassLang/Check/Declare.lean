import ClassLang.Check.State

/-!
# Declarations

Before any body is checked, every class, interface, function and template of the top level is
declared by name, so that names may be used before their declaration. A second round then fills in
signatures and members.
-/

namespace ClassLang.Check

/-- The symbol of a class, without its members. -/
def classSymbol (c : Class) : Symbol :=
  { name := c.name.name
    kind := .class_
    ty := .class_ c.name.name
    span := c.name.span
    class? := some
      { name := c.name.name
        parent? := c.extends?.map Ident.name
        interfaces := c.implements.map Ident.name } }

/-- The symbol that a statement declares at the top level, not yet filled in. -/
def declaredSymbol? : Stmt → Option Symbol
  | .class_ c => some (classSymbol c)
  | .interface n _ _ =>
    some
      { name := n.name
        kind := .interface
        ty := .interface n.name
        span := n.span
        interface? := some { name := n.name } }
  | .function f =>
    let s : Symbol :=
      { name := f.name.name, kind := .function, ty := .unknown, span := f.name.span }
    some (s.withSignature ⟨[], .unknown, false⟩)
  | .template params body _ =>
    body.templateName?.map fun n =>
      let params := params.map Ident.name
      { name := n.name
        kind := .template
        ty := .template n.name params (some .unknown)
        span := n.span
        template? := some { params } }
  | _ => none

/-- The fields and methods of a class. A field without a type has the type of its literal. -/
def classMembers (bound : List String) (c : Class) : Check (List FieldInfo × List MethodInfo) := do
  let infos ← c.members.mapM fun
    | .field f => do
      let ty ← resolveOptional bound ((f.value?.bind Ty.ofLiteral?).getD .unknown) f.type?
      return Sum.inl (⟨f.name.name, ty, f.isConst⟩ : FieldInfo)
    | .method m => do
      let sig ← resolveSignature bound m.params m.ret?
      let isVirtual := m.modifiers.isVirtual || m.modifiers.isOverride
      return Sum.inr (⟨m.name.name, sig, isVirtual⟩ : MethodInfo)
  return (infos.filterMap Sum.getLeft?, infos.filterMap Sum.getRight?)

/-- Records what a template's body declares. -/
def fillTemplate (name : String) (base : Ty) (sig? : Option Signature) (class? : Option ClassInfo) :
    Check Unit :=
  modifyGlobal name fun s =>
    { s with
      ty := match s.ty with
        | .template n ps _ => .template n ps (some base)
        | t => t
      template? := s.template?.map fun t => { t with signature? := sig?, class? } }

/-- Fills in the symbol that a statement declares. -/
def fillDeclaration : Stmt → Check Unit
  | .function f => do
    let sig ← resolveSignature [] f.params f.ret?
    modifyGlobal f.name.name fun s => if s.kind == .function then s.withSignature sig else s
  | .class_ c => do
    let (fields, methods) ← classMembers [] c
    modifyGlobal c.name.name fun s =>
      { s with class? := s.class?.map fun info => { info with fields, methods } }
  | .method m => do
    match m.receiverClass? with
    | none => return
    | some cls =>
      if ((← scopes).classInfo? cls).isNone then return
      let sig ← resolveSignature [] m.params m.ret?
      modifyGlobal cls fun s =>
        { s with
          class? := s.class?.map fun info =>
            { info with methods := info.methods ++ [⟨m.name.name, sig, false⟩] } }
  | .interface n methods _ => do
    let infos ← methods.mapM fun m => do
      return (m.name.name, ← resolveSignature [] m.params m.ret?)
    modifyGlobal n.name fun s =>
      { s with interface? := s.interface?.map fun info => { info with methods := infos } }
  | .template params body _ => do
    let bound := params.map Ident.name
    match body with
    | .function f =>
      let sig ← resolveSignature bound f.params f.ret?
      fillTemplate f.name.name sig.toTy (some sig) none
    | .class_ c =>
      let (fields, methods) ← classMembers bound c
      let info : ClassInfo :=
        { name := c.name.name
          parent? := c.extends?.map Ident.name
          interfaces := c.implements.map Ident.name
          fields
          methods }
      fillTemplate c.name.name (.class_ c.name.name) none (some info)
    | _ => return
  | _ => return

/-- Declares every top-level name, then fills the declarations in. -/
def collectDeclarations (p : Program) : Check Unit := do
  p.stmts.forM fun s =>
    match declaredSymbol? s with
    | some symbol => declare symbol
    | none => return
  p.stmts.forM fillDeclaration

end ClassLang.Check
