import ClassLang.Proofs.Analysis.Parts

/-!
# Surroundings on stacks

Analysis passes down what encloses the point at hand. Here is the same walk with the surroundings in
its state: stacks of result types and of classes, counters of loops and switches, and the type
parameters of the template whose declaration is filled in. What is put on a stack on the way in is
taken off on the way out. A counter that is zero cannot be counted down: the walk then has no result.
-/

namespace ClassLang

/-- What encloses the point at hand, the innermost first. -/
structure Surroundings where
  /-- Whether untyped variables take the type of their value. -/
  inference : Bool := true
  /-- The result types of the enclosing functions. -/
  returns : List Ty := []
  loops : Nat := 0
  switches : Nat := 0
  classes : List String := []
  /-- The type parameters of a template whose declaration is filled in. -/
  bound : List String := []

/-- What can be seen of the surroundings. -/
def Surroundings.context (s : Surroundings) : Context where
  inference := s.inference
  returns? := s.returns.head?
  inLoop := s.loops != 0
  inSwitch := s.switches != 0
  class? := s.classes.head?

/-- Steps of an analysis that keeps its surroundings on stacks. -/
abbrev Stacked := StateT Surroundings (OptionT Check)

namespace Stacked

open Check (report judge scopes resolve assignable)

def context : Stacked Context := return (← get).context

def enterLoop : Stacked Unit := modify fun s => { s with loops := s.loops + 1 }

def leaveLoop : Stacked Unit := do
  let s ← get
  match s.loops with
  | 0 => failure
  | n + 1 => set { s with loops := n }

def enterSwitch : Stacked Unit := modify fun s => { s with switches := s.switches + 1 }

def leaveSwitch : Stacked Unit := do
  let s ← get
  match s.switches with
  | 0 => failure
  | n + 1 => set { s with switches := n }

def enterClass (name : String) : Stacked Unit :=
  modify fun s => { s with classes := name :: s.classes }

def leaveClass : Stacked Unit := modify fun s => { s with classes := s.classes.tail }

/-- Begins the body of a function, in which the loops and switches around it do not count, and gives
their numbers. -/
def enterFunction (ret : Ty) : Stacked (Nat × Nat) := do
  let s ← get
  set { s with returns := ret :: s.returns, loops := 0, switches := 0 }
  return (s.loops, s.switches)

/-- Ends the body of a function, with the numbers from its beginning. -/
def leaveFunction (depths : Nat × Nat) : Stacked Unit :=
  modify fun s =>
    { s with returns := s.returns.tail, loops := depths.1, switches := depths.2 }

/-! ## Parts inside of something -/

/-- A part of the walk with something around it that is put on before and left behind it. -/
def surrounded {α : Type} (enter : Stacked α) (leave : α → Stacked Unit) (part : Stacked Unit) :
    Stacked Unit := do
  let v ← enter
  part
  leave v

def insideLoop : Stacked Unit → Stacked Unit := surrounded enterLoop fun _ => leaveLoop

def insideSwitch : Stacked Unit → Stacked Unit := surrounded enterSwitch fun _ => leaveSwitch

def insideClass (name : String) : Stacked Unit → Stacked Unit :=
  surrounded (enterClass name) fun _ => leaveClass

def insideFunction (ret : Ty) : Stacked Unit → Stacked Unit :=
  surrounded (enterFunction ret) leaveFunction

/-- A part in the class of a receiver, as far as that has one. -/
def insideClass? (class? : Option String) (part : Stacked Unit) : Stacked Unit :=
  match class? with
  | some name => insideClass name part
  | none => part

def setBound (bound : List String) : Stacked Unit := modify fun s => { s with bound }

/-! ## Written types -/

def resolveType (e : TypeExpr) : Stacked Ty := do Check.resolveType (← get).bound e

def resolveTypes (es : List TypeExpr) : Stacked (List Ty) := do Check.resolveTypes (← get).bound es

def resolveOptional (missing : Ty) (e? : Option TypeExpr) : Stacked Ty := do
  Check.resolveOptional (← get).bound missing e?

def resolveSignature (params : List Param) (ret? : Option TypeExpr) : Stacked Signature := do
  Check.resolveSignature (← get).bound params ret?

def classMembers (c : Class) : Stacked (List FieldInfo × List MethodInfo) := do
  Check.classMembers (← get).bound c

/-- What a template stands for with type arguments that are known. -/
def instanceWith (name : Ident) (span : Span) (args : List Ty) : Check (Option Check.Instance) := do
  match ← resolve name.name with
  | none =>
    report (.undefinedIdentifier name.name) name.span
    return none
  | some s =>
    match s.template? with
    | none =>
      report (.notATemplate name.name) name.span
      return none
    | some info =>
      if info.params.length != args.length then
        report (.typeArgumentCount name.name info.params.length args.length) span
        return none
      match info.signature?, info.class? with
      | some sig, _ => return some (.function (sig.substitute (info.params.zip args)))
      | none, some _ => return some (.class_ name.name)
      | none, none => return none

def instantiate (name : Ident) (typeArgs : List TypeExpr) (span : Span) :
    Stacked (Option Check.Instance) := do
  instanceWith name span (← resolveTypes typeArgs)

/-- The class that `new` names, with its position. -/
def newClass : TypeExpr → Stacked (Option Ident)
  | .generic n args _ => do
    let _ ← resolveTypes args
    return some n
  | type => Check.newClass type

/-- Opens the scope of a catch clause. -/
def openCatch (param? : Option Ident) (type? : Option TypeExpr) : Stacked Unit := do
  Check.pushScope .block
  match param? with
  | some p =>
    let ty ← resolveOptional .unknown type?
    Check.declare { name := p.name, kind := .variable_, ty, span := p.span }
  | none => pure ()

/-- A signature that may be known already. -/
def signatureOr (known? : Option Signature) (params : List Param) (ret? : Option TypeExpr) :
    Stacked Signature :=
  match known? with
  | some sig => pure sig
  | none => resolveSignature params ret?

/-- The signature of a function, which is known already at the top level. -/
def functionSignature (name : Ident) (params : List Param) (ret? : Option TypeExpr) :
    Stacked Signature := do
  let known? := match ← resolve name.name with
    | some s => if s.kind == .function && s.span == name.span then s.signature? else none
    | none => none
  signatureOr known? params ret?

/-- The signature of the function of a template. -/
def templateSignature (name : Ident) (params : List Param) (ret? : Option TypeExpr) :
    Stacked Signature := do
  let known? := ((← scopes).global? name.name).bind fun s =>
    s.template?.bind TemplateInfo.signature?
  signatureOr known? params ret?

/-- The type of a receiver and the signature of its method, which is known already for a class. -/
def methodSignature (receiver : Param) (name : Ident) (params : List Param)
    (ret? : Option TypeExpr) : Stacked (Ty × Signature) := do
  let t ← scopes
  let known? := (receiver.type?.bind TypeExpr.className?).bind fun c =>
    ((t.classInfo? c).bind (·.method? name.name)).map fun m => (Ty.class_ c, m.signature)
  match known? with
  | some k => pure k
  | none => do
    let receiverType ← resolveOptional .unknown receiver.type?
    let sig ← resolveSignature params ret?
    pure (receiverType, sig)

/-- The signature of a method of a class. -/
def memberSignature (info? : Option ClassInfo) (name : Ident) (params : List Param)
    (ret? : Option TypeExpr) : Stacked Signature :=
  signatureOr ((info?.bind (·.method? name.name)).map MethodInfo.signature) params ret?

/-! ## Expressions and statements -/

mutual

/-- The type of an expression. -/
def inferType : Expr → Stacked Ty
  | .ident n => Check.identifierType n
  | .int .. => return .int
  | .float .. => return .float
  | .string .. => return .string
  | .char .. => return .char
  | .bool .. => return .bool
  | .null _ => return .null
  | .prefixed op right span => do
    let operand ← inferType right
    let (fits, result) := match op with
      | .not => (operand.isBool, Ty.bool)
      | .negate => (operand.isNumeric, operand)
      | .bitNot => (operand.isInt, operand)
    if !fits && !operand.isWildcard then report (.invalidUnary op.text operand) span
    return result
  | .binary op left right span => do
    let l ← inferType left
    let r ← inferType right
    Check.binaryResult op l r span
  | .postfixed op operand span => do
    let ty ← inferType operand
    let _ ← Check.checkTarget operand
    if !ty.isNumeric && !ty.isWildcard then report (.invalidUnary op.text ty) span
    return ty
  | .assign .define (.ident n) value _ => do
    let ty ← Check.usedAsValue value (← inferType value)
    Check.defineByAssignment (← context) n ty
  | .assign .define target value _ => do
    let ty ← Check.usedAsValue value (← inferType value)
    report (.invalidAssignTarget target.text) target.span
    return ty
  | .assign op target value span => do
    if ← Check.checkTarget target then
      let t ← inferType target
      let v ← Check.usedAsValue value (← inferType value)
      let v ← match op with
        | .compound op => Check.binaryResult op t v span
        | _ => pure v
      Check.checkAssignable t v value.span
      return t
    else
      let _ ← inferType value
      return .unknown
  | .call (.ident n) args span => do
    let sig? ← Check.namedSignature (.ident n) n
    Check.checkCount? n.name sig? args.length span
    checkArguments n.name 1 (Check.paramsOf sig?) args
    return (sig?.map Signature.ret).getD .unknown
  | .call (.member object property arrow memberSpan) args span => do
    let callee := Expr.member object property arrow memberSpan
    let sig? ← match ← Check.packageOf? object with
      | some package => Check.packageMember package property
      | none => do
        match ← Check.memberType (← inferType object) property with
        | some ty => Check.signatureOf callee ty
        | none => pure none
    Check.checkCount? callee.text sig? args.length span
    checkArguments callee.text 1 (Check.paramsOf sig?) args
    return (sig?.map Signature.ret).getD .unknown
  | .call (.templateInstance n typeArgs instanceSpan) args span => do
    let callee := Expr.templateInstance n typeArgs instanceSpan
    let sig? ← match ← instantiate n typeArgs instanceSpan with
      | some (.function sig) => pure (some sig)
      | some (.class_ name) => do
        report (.notCallable callee.text (.class_ name)) instanceSpan
        pure none
      | none => pure none
    Check.checkCount? callee.text sig? args.length span
    checkArguments callee.text 1 (Check.paramsOf sig?) args
    return (sig?.map Signature.ret).getD .unknown
  | .call function args span => do
    let sig? ← Check.signatureOf function (← inferType function)
    Check.checkCount? function.text sig? args.length span
    checkArguments function.text 1 (Check.paramsOf sig?) args
    return (sig?.map Signature.ret).getD .unknown
  | .index object key _ => do
    let o ← inferType object
    let k ← inferType key
    let indexed (expected result : Ty) : Check Ty := do
      if !(← assignable expected k) then report (.invalidIndex expected k) key.span
      return result
    match o with
    | .array element => indexed .int element
    | .map keyType value => indexed keyType value
    | _ =>
      if o.isString then indexed .int .byte
      else
        if !o.isWildcard then report (.notIndexable o) object.span
        return .unknown
  | .member object property _ _ => do
    match ← Check.packageOf? object with
    | some package =>
      return ((← Check.packageMember package property).map Signature.toTy).getD .unknown
    | none => return (← Check.memberType (← inferType object) property).getD .unknown
  | .array elements _ => return .array ((← inferElements none elements).getD .unknown)
  | .hash entries _ => do
    let key ← inferKeys none entries
    let value ← inferValues none entries
    return .map (key.getD .unknown) (value.getD .unknown)
  | .lambda params ret? body _ => do
    let sig ← resolveSignature params ret?
    checkFunction params sig body
    return sig.toTy
  | .new type args span => do
    match ← newClass type with
    | none => return .unknown
    | some n =>
      match ← resolve n.name with
      | none =>
        report (.undefinedType n.name) n.span
        checkArguments n.name 1 [] args
        return .unknown
      | some s =>
        if s.kind == .class_ || s.isClassTemplate then
          let callee := n.name ++ ".constructor"
          let sig? := ((← scopes).findMethod n.name "constructor").map MethodInfo.signature
          Check.checkCount? callee sig? args.length span
          checkArguments callee 1 (Check.paramsOf sig?) args
          return .class_ n.name
        else
          report (.notAClass n.name) n.span
          return .unknown
  | .this span => do Check.thisType (← context) span
  | .super span => do Check.superType (← context) span
  | .templateInstance n typeArgs span => do
    match ← instantiate n typeArgs span with
    | some (.function sig) => return sig.toTy
    | some (.class_ name) => return .class_ name
    | none => return .unknown

/-- Checks arguments, from number `index` on, against the parameters that are left. -/
def checkArguments (callee : String) (index : Nat) (params : List Ty) : List Expr → Stacked Unit
  | [] => return
  | e :: es => do
    let actual ← Check.usedAsValue e (← inferType e)
    match params with
    | [] => pure ()
    | param :: _ =>
      if !param.isWildcard && !(← assignable param actual) then
        report (.argumentType callee index param actual) e.span
    checkArguments callee (index + 1) params.tail es

/-- The type that the elements of an array share. -/
def inferElements (common? : Option Ty) : List Expr → Stacked (Option Ty)
  | [] => return common?
  | e :: es => do
    let common ← Check.commonType common? (← inferType e) e.span
    inferElements (some common) es

/-- The type that the keys of a hash share. -/
def inferKeys (common? : Option Ty) : List Entry → Stacked (Option Ty)
  | [] => return common?
  | ⟨key, _⟩ :: es => do
    let common ← Check.commonType common? (← inferType key) key.span
    inferKeys (some common) es

/-- The type that the values of a hash share. -/
def inferValues (common? : Option Ty) : List Entry → Stacked (Option Ty)
  | [] => return common?
  | ⟨_, value⟩ :: es => do
    let common ← Check.commonType common? (← inferType value) value.span
    inferValues (some common) es

/-- Checks a function body in a scope of its own. -/
def checkFunction (params : List Param) (sig : Signature) : Block → Stacked Unit
  | ⟨stmts, _⟩ => do
    Check.pushScope .function
    Check.declareParams params sig
    insideFunction sig.ret (checkStmts stmts)
    Check.popScope

/-- Checks a statement. -/
def checkStmt : Stmt → Stacked Unit
  | .package .. => return
  | .interface .. => return
  | .imports paths span => Check.checkImports paths span
  | .var name type? value? _ => do
    let declared? ← type?.mapM resolveType
    match value? with
    | some value =>
      let actual ← Check.usedAsValue value (← inferType value)
      Check.declareVariable (← context) .variable_ name declared? (some (actual, value.span))
    | none => Check.declareVariable (← context) .variable_ name declared? none
  | .const name type? value _ => do
    let declared? ← type?.mapM resolveType
    let actual ← Check.usedAsValue value (← inferType value)
    Check.declareVariable (← context) .constant name declared? (some (actual, value.span))
  | .ret value? span => do
    match value? with
    | some value =>
      let actual ← inferType value
      judge (.returned actual)
      Check.checkReturned (← context) actual span
    | none => Check.checkReturned (← context) .void span
  | .expr e => do
    let _ ← inferType e
  | .block b => checkBlock .block b
  | .ifElse condition consequence alternative? _ => do
    Check.checkBool (← inferType condition) condition.span
    checkBlock .block consequence
    checkStmtIf alternative?
  | .forLoop init? condition? post? body _ => do
    Check.pushScope .loop
    checkStmtIf init?
    checkConditionIf condition?
    checkStmtIf post?
    insideLoop (checkBlock .block body)
    Check.popScope
  | .whileLoop condition body _ => do
    Check.checkBool (← inferType condition) condition.span
    insideLoop (checkBlock .loop body)
  | .switch tag? cases default? _ => do
    let ty? ← tagType tag?
    checkCaseValues ty? cases
    insideSwitch do
      checkCaseBodies cases
      checkBlockIf default?
  | .break_ span => do
    let s ← get
    if s.loops == 0 && s.switches == 0 then report .breakOutsideLoop span
  | .continue_ span => do
    let s ← get
    if s.loops == 0 then report .continueOutsideLoop span
  | .function ⟨name, params, ret?, body, _, _⟩ => do
    let sig ← functionSignature name params ret?
    checkFunction params sig body
  | .method ⟨receiver, name, params, ret?, body, _⟩ => do
    let k ← methodSignature receiver name params ret?
    insideClass? (receiver.type?.bind TypeExpr.className?) do
      Check.openMethod receiver k.1
      checkFunction params k.2 body
      Check.popScope
  | .class_ ⟨name, extends?, implements, members, _⟩ => do
    let info? ← Check.openClass name extends? implements
    insideClass name.name do
      checkMembers info? members
      Check.popScope
  | .template typeParams (.function ⟨name, params, ret?, body, _, _⟩) _ => do
    Check.openTemplate typeParams
    let sig ← templateSignature name params ret?
    checkFunction params sig body
    Check.popScope
  | .template typeParams (.class_ ⟨name, extends?, implements, members, _⟩) _ => do
    Check.openTemplate typeParams
    let info? ← Check.openClass name extends? implements
    insideClass name.name do
      checkMembers info? members
      Check.popScope
    Check.popScope
  | .template typeParams body _ => do
    Check.openTemplate typeParams
    checkStmt body
    Check.popScope
  | .tryCatch body catches finally? _ => do
    checkBlock .block body
    checkCatches catches
    checkBlockIf finally?
  | .throw value _ => do
    let _ ← inferType value
  | .scope body _ => checkBlock .block body

def checkStmtIf : Option Stmt → Stacked Unit
  | none => return
  | some s => checkStmt s

def checkConditionIf : Option Expr → Stacked Unit
  | none => return
  | some e => do Check.checkBool (← inferType e) e.span

def checkBlockIf : Option Block → Stacked Unit
  | none => return
  | some b => checkBlock .block b

/-- The type of the tag of a switch. -/
def tagType : Option Expr → Stacked (Option Ty)
  | none => return none
  | some tag => do return some (← inferType tag)

def checkStmts : List Stmt → Stacked Unit
  | [] => return
  | s :: ss => do
    checkStmt s
    checkStmts ss

/-- Checks a block in a scope of its own. -/
def checkBlock (kind : ScopeKind) : Block → Stacked Unit
  | ⟨stmts, _⟩ => do
    Check.pushScope kind
    checkStmts stmts
    Check.popScope

/-- Checks case values: against the type of the tag, or as conditions. -/
def checkTagged (tag? : Option Ty) : List Expr → Stacked Unit
  | [] => return
  | e :: es => do
    let ty ← inferType e
    match tag? with
    | some tag => Check.checkAssignable tag ty e.span
    | none => Check.checkBool ty e.span
    checkTagged tag? es

def checkCaseValues (tag? : Option Ty) : List Case → Stacked Unit
  | [] => return
  | ⟨values, _, _⟩ :: cs => do
    checkTagged tag? values
    checkCaseValues tag? cs

def checkCaseBodies : List Case → Stacked Unit
  | [] => return
  | ⟨_, body, _⟩ :: cs => do
    checkBlock .block body
    checkCaseBodies cs

/-- Checks catch clauses, each with its variable in a scope of its own. -/
def checkCatches : List Catch → Stacked Unit
  | [] => return
  | ⟨param?, type?, ⟨stmts, _⟩, _⟩ :: cs => do
    openCatch param? type?
    checkStmts stmts
    Check.popScope
    checkCatches cs

/-- Checks the members of a class. -/
def checkMembers (info? : Option ClassInfo) : List Member → Stacked Unit
  | [] => return
  | .field ⟨name, _, value?, _, _, _⟩ :: ms => do
    match value? with
    | some value =>
      let actual ← Check.usedAsValue value (← inferType value)
      let expected := ((info?.bind (·.field? name.name)).map FieldInfo.ty).getD .unknown
      Check.checkAssignable expected actual value.span
    | none => pure ()
    checkMembers info? ms
  | .method ⟨name, params, ret?, body, _, _⟩ :: ms => do
    let sig ← memberSignature info? name params ret?
    checkFunction params sig body
    checkMembers info? ms

end

/-! ## Programs -/

/-- Fills in the symbol that a statement declares. The type parameters of a template are bound only
as long as its body is looked at. -/
def fillDeclaration : Stmt → Stacked Unit
  | .function f => do
    let sig ← resolveSignature f.params f.ret?
    Check.modifyGlobal f.name.name fun s => if s.kind == .function then s.withSignature sig else s
  | .class_ c => do
    let (fields, methods) ← classMembers c
    Check.modifyGlobal c.name.name fun s =>
      { s with class? := s.class?.map fun info => { info with fields, methods } }
  | .method m => do
    match m.receiverClass? with
    | none => return
    | some cls =>
      if ((← scopes).classInfo? cls).isNone then return
      let sig ← resolveSignature m.params m.ret?
      Check.modifyGlobal cls fun s =>
        { s with
          class? := s.class?.map fun info =>
            { info with methods := info.methods ++ [⟨m.name.name, sig, false⟩] } }
  | .interface n methods _ => do
    let infos ← methods.mapM fun m => do
      return (m.name.name, ← resolveSignature m.params m.ret?)
    Check.modifyGlobal n.name fun s =>
      { s with interface? := s.interface?.map fun info => { info with methods := infos } }
  | .template params (.function f) _ => do
    setBound (params.map Ident.name)
    let sig ← resolveSignature f.params f.ret?
    setBound []
    Check.fillTemplate f.name.name sig.toTy (some sig) none
  | .template params (.class_ c) _ => do
    setBound (params.map Ident.name)
    let (fields, methods) ← classMembers c
    setBound []
    let info : ClassInfo :=
      { name := c.name.name
        parent? := c.extends?.map Ident.name
        interfaces := c.implements.map Ident.name
        fields
        methods }
    Check.fillTemplate c.name.name (.class_ c.name.name) none (some info)
  | _ => return

/-- Declares every top-level name, then fills the declarations in. -/
def collectDeclarations (p : Program) : Stacked Unit := do
  p.stmts.forM fun s =>
    match Check.declaredSymbol? s with
    | some symbol => (Check.declare symbol : Stacked Unit)
    | none => return
  p.stmts.forM fillDeclaration

/-- Analyses a program on top of what is known already. -/
def checkProgram (p : Program) : Stacked Unit := do
  collectDeclarations p
  checkStmts p.stmts
  Check.reportUnusedImports

end Stacked

end ClassLang
