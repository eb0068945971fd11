import ClassLang.Ast.Printer
import ClassLang.Check.Declare

/-!
# Bodies

The walk over expressions and statements: names are resolved, every expression gets a type, and
whatever does not fit is reported. An expression that is reported has the unknown type, which agrees
with everything, so one mistake is reported once.
-/

namespace ClassLang

namespace Check

/-! ## Parts that look at no subexpression -/

/-- Of two types the one that is known, the left one first. -/
def knownOf (left right : Ty) : Ty := if left.isWildcard then right else left

/-- The type of an operator's result, if the operands admit it. -/
def resultOf (t : ScopeTree) (op : InfixOp) (left right : Ty) : Option Ty :=
  let wildcard := left.isWildcard || right.isWildcard
  if op.isLogical then
    if left.isBool && right.isBool || wildcard then some .bool else none
  else if op.isComparison then
    if t.assignable left right || t.assignable right left then some .bool else none
  else if op == .add && left.isString && right.isString then some .string
  else if op == .modulo || op.isBitwise then
    if left.isInt && right.isInt then some left
    else if wildcard then some (knownOf left right)
    else none
  else if left.isNumeric && right.isNumeric then
    some (if left.isFloat || right.isFloat then .float else .int)
  else if wildcard then some (knownOf left right)
  else none

/-- The type of an operator's result; operands that do not admit it are reported. -/
def binaryResult (op : InfixOp) (left right : Ty) (span : Span) : Check Ty := do
  judge (.binary op left right)
  match resultOf (← scopes) op left right with
  | some t => return t
  | none =>
    report (.invalidBinary op left right) span
    return .unknown

/-- The type of a name. -/
def identifierType (name : Ident) : Check Ty := do
  judge (.name name)
  match ← resolve name.name with
  | none =>
    report (.undefinedIdentifier name.name) name.span
    return .unknown
  | some s =>
    if s.kind == .package then
      usePackage name.name
      return .unknown
    else return s.ty

/-- Reports a target that cannot be assigned, and tells whether it is a place at all. -/
def checkTarget : Expr → Check Bool
  | .ident n => do
    if ((← resolve n.name).map Symbol.isConst).getD false then
      report (.assignToConstant n.name) n.span
    return true
  | .index .. | .member .. => return true
  | e => do
    report (.invalidAssignTarget e.text) e.span
    return false

/-- The package that an expression names, if it names one; that uses the package. -/
def packageOf? : Expr → Check (Option String)
  | .ident n => do
    if ((← resolve n.name).map fun s => s.kind == .package).getD false then
      usePackage n.name
      return some n.name
    else return none
  | _ => return none

/-- The signature of a package member. Only known packages are held to what they declare. -/
def packageMember (package : String) (member : Ident) : Check (Option Signature) := do
  let sig? := Builtin.member? package member.name
  if sig?.isNone && Builtin.isPackage package then
    report (.unknownPackageMember package member.name) member.span
  return sig?

/-- The type of a member of a class or an interface. -/
def memberOf? (t : ScopeTree) (object : Ty) (name : String) : Option Ty :=
  match object with
  | .class_ c => (t.findField c name).map FieldInfo.ty <|>
      (t.findMethod c name).map fun m => m.signature.toTy
  | .interface i => (t.interfaceInfo? i).bind fun info =>
      (info.methods.find? (·.1 == name)).map fun m => m.2.toTy
  | _ => none

/-- The type of a member; nothing is known of the members of a wildcard, and a missing member is
reported. -/
def memberType (object : Ty) (property : Ident) : Check (Option Ty) := do
  if object.isWildcard then return none
  let found := memberOf? (← scopes) object property.name
  if found.isNone then report (.unknownMember object property.name) property.span
  return found

/-- The signature of a called value of a type. -/
def signatureOf (callee : Expr) (ty : Ty) : Check (Option Signature) := do
  match Signature.ofTy? ty with
  | some sig => return some sig
  | none =>
    if !ty.isWildcard then report (.notCallable callee.text ty) callee.span
    return none

/-- A template with its type arguments filled in. -/
inductive Instance where
  | function (sig : Signature)
  | class_ (name : String)

/-- What a template stands for with given type arguments. -/
def instantiate (name : Ident) (typeArgs : List TypeExpr) (span : Span) :
    Check (Option Instance) := do
  let args ← resolveTypes [] typeArgs
  match ← resolve name.name with
  | none =>
    report (.undefinedIdentifier name.name) name.span
    return none
  | some s =>
    match s.template? with
    | none =>
      report (.notATemplate name.name) name.span
      return none
    | some info =>
      if info.params.length != args.length then
        report (.typeArgumentCount name.name info.params.length args.length) span
        return none
      match info.signature?, info.class? with
      | some sig, _ => return some (.function (sig.substitute (info.params.zip args)))
      | none, some _ => return some (.class_ name.name)
      | none, none => return none

/-- The class that `new` names, with its position. -/
def newClass (type : TypeExpr) : Check (Option Ident) := do
  match type with
  | .generic n args _ =>
    let _ ← resolveTypes [] args
    return some n
  | t =>
    match t.base with
    | .named n => return some n
    | written =>
      report (.notAClass written.text) written.span
      return none

/-- Reports a wrong number of arguments. -/
def checkCount (callee : String) (sig : Signature) (count : Nat) (span : Span) : Check Unit := do
  let expected := sig.params.length
  let fits := if sig.variadic then expected ≤ count else count = expected
  if !fits then report (.argumentCount callee sig.variadic expected count) span

/-- Reports a wrong number of arguments, if the signature is known. -/
def checkCount? (callee : String) (sig? : Option Signature) (count : Nat) (span : Span) :
    Check Unit :=
  match sig? with
  | some sig => checkCount callee sig count span
  | none => return

/-- The parameters that arguments are held to: none if the signature is unknown. -/
def paramsOf (sig? : Option Signature) : List Ty := (sig?.map Signature.params).getD []

/-- Reports a value that cannot be stored where it is wanted. -/
def checkAssignable (expected actual : Ty) (span : Span) : Check Unit := do
  if !(← assignable expected actual) then report (.typeMismatch expected actual) span

/-- A void type cannot be used as a value. -/
def usedAsValue (e : Expr) (ty : Ty) : Check Ty := do
  if ty.isVoid then
    report (.noValue e.text) e.span
    return .unknown
  else return ty

/-- Reports a condition that is not boolean. -/
def checkBool (ty : Ty) (span : Span) : Check Unit := do
  if !ty.isBool && !ty.isWildcard then report (.nonBoolCondition ty) span

/-- The type that elements share so far: the first known one decides, and others are reported. -/
def commonType (common? : Option Ty) (ty : Ty) (span : Span) : Check Ty := do
  match common? with
  | none => return ty
  | some expected =>
    if expected.isWildcard then return ty
    judge (.compared expected ty)
    if !ty.isWildcard && !expected.same ty then report (.mixedElements expected ty) span
    return expected

/-- Binds the fields of a class and its ancestors by their bare names. Own fields come last, and so
hide inherited ones. -/
def bindFields (cls : String) (span : Span) : Check Unit := do
  let infos := ((← scopes).classChain cls).reverse.flatMap ClassInfo.fields
  infos.forM fun f =>
    replace
      { name := f.name, kind := if f.isConst then .constant else .variable_, ty := f.ty, span }

/-- The last part of a path. -/
def lastSegment (path : String) : String :=
  .ofList (path.toList.reverse.takeWhile (· != '/')).reverse

/-- Makes the packages of an import known. -/
def checkImports (paths : List String) (span : Span) : Check Unit :=
  paths.forM fun path => do
    let name := lastSegment path
    if ((← scopes).global? name).isNone then replace { Builtin.package name with span }
    modify fun a => { a with imports := a.imports ++ [{ name, path, span }] }

/-- Checks the header of a class: its parent and its interfaces. -/
def checkHeader (name : Ident) (extends? : Option Ident) (implements : List Ident) :
    Check Unit := do
  if let some parent := extends? then
    match ← resolve parent.name with
    | some s => if s.kind != .class_ then report (.notAClass parent.name) parent.span
    | none => let _ ← undefinedType parent
  implements.forM fun i => do
    let t ← scopes
    match t.interfaceInfo? i.name with
    | some info =>
      info.methods.forM fun m => do
        if (t.findMethod name.name m.1).isNone then
          report (.missingInterfaceMethod name.name i.name m.1) name.span
    | none =>
      if (t.resolve i.name).isSome then report (.notAnInterface i.name) i.span
      else let _ ← undefinedType i

/-- Checks the header of a class and opens its scope, with the fields bound by name. -/
def openClass (name : Ident) (extends? : Option Ident) (implements : List Ident) :
    Check (Option ClassInfo) := do
  checkHeader name extends? implements
  let info? := (← scopes).classInfo? name.name
  pushScope .class_
  bindFields name.name name.span
  return info?

/-- Declares the parameters of a function. -/
def declareParams (params : List Param) (sig : Signature) : Check Unit :=
  (params.zip sig.params).forM fun (p, ty) =>
    declare { name := p.name.name, kind := .parameter, ty, span := p.name.span }

/-- The type of `this`. -/
def thisType (ctx : Context) (span : Span) : Check Ty := do
  match ctx.class? with
  | some c => return .class_ c
  | none =>
    report .thisOutsideClass span
    return .unknown

/-- The type of `super`: the parent of the enclosing class. -/
def superType (ctx : Context) (span : Span) : Check Ty := do
  let t ← scopes
  match (ctx.class?.bind t.classInfo?).bind ClassInfo.parent? with
  | some p => return .class_ p
  | none =>
    report .superWithoutParent span
    return .unknown

/-- The signature of a called name: its own, that of its template, or that of its type. -/
def namedSignature (callee : Expr) (name : Ident) : Check (Option Signature) := do
  judge (.name name)
  match ← resolve name.name with
  | none =>
    report (.undefinedIdentifier name.name) name.span
    return none
  | some s =>
    match s.signature? <|> s.template?.bind TemplateInfo.signature? with
    | some sig => return some sig
    | none => signatureOf callee s.ty

/-- Defines a variable by its first assignment. -/
def defineByAssignment (ctx : Context) (name : Ident) (value : Ty) : Check Ty := do
  let ty := if ctx.inference then value else .unknown
  redefine { name := name.name, kind := .variable_, ty, span := name.span }
  return ty

/-- Declares a variable or constant. The value must fit a written type; without one the variable has
the type of the value. -/
def declareVariable (ctx : Context) (kind : SymbolKind) (name : Ident) (declared? : Option Ty)
    (value? : Option (Ty × Span)) : Check Unit := do
  let ty ← match declared?, value? with
    | some declared, some (actual, span) => do
      checkAssignable declared actual span
      pure declared
    | some declared, none => pure declared
    | none, some (actual, _) => pure (if ctx.inference then actual else .unknown)
    | none, none => pure .unknown
  declare { name := name.name, kind, ty, span := name.span }

/-- Checks a returned type against the enclosing function. -/
def checkReturned (ctx : Context) (actual : Ty) (span : Span) : Check Unit := do
  match ctx.returns? with
  | none => report .returnOutsideFunction span
  | some expected =>
    let t ← scopes
    let fits :=
      if expected.isVoid || actual.isVoid then expected.isVoid == actual.isVoid
      else t.assignable expected actual
    if !fits then report (.returnTypeMismatch expected actual) span

/-- Opens the scope of a template, with its type parameters declared. -/
def openTemplate (params : List Ident) : Check Unit := do
  pushScope .block
  params.forM fun p =>
    declare { name := p.name, kind := .typeParameter, ty := .param p.name, span := p.span }

/-! ## Expressions and statements -/

mutual

/-- The type of an expression. -/
def inferType (ctx : Context) : Expr → Check Ty
  | .ident n => identifierType n
  | .int .. => return .int
  | .float .. => return .float
  | .string .. => return .string
  | .char .. => return .char
  | .bool .. => return .bool
  | .null _ => return .null
  | .prefixed op right span => do
    let operand ← inferType ctx right
    let (fits, result) := match op with
      | .not => (operand.isBool, Ty.bool)
      | .negate => (operand.isNumeric, operand)
      | .bitNot => (operand.isInt, operand)
    if !fits && !operand.isWildcard then report (.invalidUnary op.text operand) span
    return result
  | .binary op left right span => do
    let l ← inferType ctx left
    let r ← inferType ctx right
    binaryResult op l r span
  | .postfixed op operand span => do
    let ty ← inferType ctx operand
    let _ ← checkTarget operand
    if !ty.isNumeric && !ty.isWildcard then report (.invalidUnary op.text ty) span
    return ty
  | .assign .define (.ident n) value _ => do
    let ty ← usedAsValue value (← inferType ctx value)
    defineByAssignment ctx n ty
  | .assign .define target value _ => do
    let ty ← usedAsValue value (← inferType ctx value)
    report (.invalidAssignTarget target.text) target.span
    return ty
  | .assign op target value span => do
    if ← checkTarget target then
      let t ← inferType ctx target
      let v ← usedAsValue value (← inferType ctx value)
      let v ← match op with
        | .compound op => binaryResult op t v span
        | _ => pure v
      checkAssignable t v value.span
      return t
    else
      let _ ← inferType ctx value
      return .unknown
  | .call (.ident n) args span => do
    let sig? ← namedSignature (.ident n) n
    checkCount? n.name sig? args.length span
    checkArguments ctx n.name 1 (paramsOf sig?) args
    return (sig?.map Signature.ret).getD .unknown
  | .call (.member object property arrow memberSpan) args span => do
    let callee := Expr.member object property arrow memberSpan
    let sig? ← match ← packageOf? object with
      | some package => packageMember package property
      | none => do
        match ← memberType (← inferType ctx object) property with
        | some ty => signatureOf callee ty
        | none => pure none
    checkCount? callee.text sig? args.length span
    checkArguments ctx callee.text 1 (paramsOf sig?) args
    return (sig?.map Signature.ret).getD .unknown
  | .call (.templateInstance n typeArgs instanceSpan) args span => do
    let callee := Expr.templateInstance n typeArgs instanceSpan
    let sig? ← match ← instantiate n typeArgs instanceSpan with
      | some (.function sig) => pure (some sig)
      | some (.class_ name) => do
        report (.notCallable callee.text (.class_ name)) instanceSpan
        pure none
      | none => pure none
    checkCount? callee.text sig? args.length span
    checkArguments ctx callee.text 1 (paramsOf sig?) args
    return (sig?.map Signature.ret).getD .unknown
  | .call function args span => do
    let sig? ← signatureOf function (← inferType ctx function)
    checkCount? function.text sig? args.length span
    checkArguments ctx function.text 1 (paramsOf sig?) args
    return (sig?.map Signature.ret).getD .unknown
  | .index object key _ => do
    let o ← inferType ctx object
    let k ← inferType ctx key
    let indexed (expected result : Ty) : Check Ty := do
      if !(← assignable expected k) then report (.invalidIndex expected k) key.span
      return result
    match o with
    | .array element => indexed .int element
    | .map keyType value => indexed keyType value
    | _ =>
      if o.isString then indexed .int .byte
      else
        if !o.isWildcard then report (.notIndexable o) object.span
        return .unknown
  | .member object property _ _ => do
    match ← packageOf? object with
    | some package => return ((← packageMember package property).map Signature.toTy).getD .unknown
    | none => return (← memberType (← inferType ctx object) property).getD .unknown
  | .array elements _ => return .array ((← inferElements ctx none elements).getD .unknown)
  | .hash entries _ => do
    let key ← inferKeys ctx none entries
    let value ← inferValues ctx none entries
    return .map (key.getD .unknown) (value.getD .unknown)
  | .lambda params ret? body _ => do
    let sig ← resolveSignature [] params ret?
    checkFunction ctx params sig body
    return sig.toTy
  | .new type args span => do
    match ← newClass type with
    | none => return .unknown
    | some n =>
      match ← resolve n.name with
      | none =>
        report (.undefinedType n.name) n.span
        checkArguments ctx n.name 1 [] args
        return .unknown
      | some s =>
        if s.kind == .class_ || s.isClassTemplate then
          let callee := n.name ++ ".constructor"
          let sig? := ((← scopes).findMethod n.name "constructor").map MethodInfo.signature
          checkCount? callee sig? args.length span
          checkArguments ctx callee 1 (paramsOf sig?) args
          return .class_ n.name
        else
          report (.notAClass n.name) n.span
          return .unknown
  | .this span => thisType ctx span
  | .super span => superType ctx span
  | .templateInstance n typeArgs span => do
    match ← instantiate n typeArgs span with
    | some (.function sig) => return sig.toTy
    | some (.class_ name) => return .class_ name
    | none => return .unknown

/-- Checks arguments, from number `index` on, against the parameters that are left. -/
def checkArguments (ctx : Context) (callee : String) (index : Nat) (params : List Ty) :
    List Expr → Check Unit
  | [] => return
  | e :: es => do
    let actual ← usedAsValue e (← inferType ctx e)
    match params with
    | [] => pure ()
    | param :: _ =>
      if !param.isWildcard && !(← assignable param actual) then
        report (.argumentType callee index param actual) e.span
    checkArguments ctx callee (index + 1) params.tail es

/-- The type that the elements of an array share. -/
def inferElements (ctx : Context) (common? : Option Ty) : List Expr → Check (Option Ty)
  | [] => return common?
  | e :: es => do
    let common ← commonType common? (← inferType ctx e) e.span
    inferElements ctx (some common) es

/-- The type that the keys of a hash share. -/
def inferKeys (ctx : Context) (common? : Option Ty) : List Entry → Check (Option Ty)
  | [] => return common?
  | ⟨key, _⟩ :: es => do
    let common ← commonType common? (← inferType ctx key) key.span
    inferKeys ctx (some common) es

/-- The type that the values of a hash share. -/
def inferValues (ctx : Context) (common? : Option Ty) : List Entry → Check (Option Ty)
  | [] => return common?
  | ⟨_, value⟩ :: es => do
    let common ← commonType common? (← inferType ctx value) value.span
    inferValues ctx (some common) es

/-- Checks a function body in a scope of its own. -/
def checkFunction (ctx : Context) (params : List Param) (sig : Signature) : Block → Check Unit
  | ⟨stmts, _⟩ => do
    pushScope .function
    declareParams params sig
    checkStmts (ctx.inFunction sig.ret) stmts
    popScope

/-- Checks a statement. -/
def checkStmt (ctx : Context) : Stmt → Check Unit
  | .package .. => return
  | .interface .. => return
  | .imports paths span => checkImports paths span
  | .var name type? value? _ => do
    let declared? ← type?.mapM (resolveType [])
    match value? with
    | some value =>
      let actual ← usedAsValue value (← inferType ctx value)
      declareVariable ctx .variable_ name declared? (some (actual, value.span))
    | none => declareVariable ctx .variable_ name declared? none
  | .const name type? value _ => do
    let declared? ← type?.mapM (resolveType [])
    let actual ← usedAsValue value (← inferType ctx value)
    declareVariable ctx .constant name declared? (some (actual, value.span))
  | .ret value? span => do
    match value? with
    | some value =>
      let actual ← inferType ctx value
      judge (.returned actual)
      checkReturned ctx actual span
    | none => checkReturned ctx .void span
  | .expr e => do
    let _ ← inferType ctx e
  | .block b => checkBlock ctx .block b
  | .ifElse condition consequence alternative? _ => do
    checkBool (← inferType ctx condition) condition.span
    checkBlock ctx .block consequence
    match alternative? with
    | some s => checkStmt ctx s
    | none => return
  | .forLoop init? condition? post? body _ => do
    pushScope .loop
    match init? with
    | some s => checkStmt ctx s
    | none => pure ()
    match condition? with
    | some e => checkBool (← inferType ctx e) e.span
    | none => pure ()
    match post? with
    | some s => checkStmt ctx s
    | none => pure ()
    checkBlock { ctx with inLoop := true } .block body
    popScope
  | .whileLoop condition body _ => do
    checkBool (← inferType ctx condition) condition.span
    checkBlock { ctx with inLoop := true } .loop body
  | .switch tag? cases default? _ => do
    match tag? with
    | some tag =>
      let ty ← inferType ctx tag
      checkCaseValues ctx (some ty) cases
    | none => checkCaseValues ctx none cases
    checkCaseBodies { ctx with inSwitch := true } cases
    match default? with
    | some b => checkBlock { ctx with inSwitch := true } .block b
    | none => return
  | .break_ span => do
    if !ctx.inLoop && !ctx.inSwitch then report .breakOutsideLoop span
  | .continue_ span => do
    if !ctx.inLoop then report .continueOutsideLoop span
  | .function ⟨name, params, ret?, body, _, _⟩ => do
    let declared? := match ← resolve name.name with
      | some s => if s.kind == .function && s.span == name.span then s.signature? else none
      | none => none
    let sig ← match declared? with
      | some sig => pure sig
      | none => resolveSignature [] params ret?
    checkFunction ctx params sig body
  | .method ⟨receiver, name, params, ret?, body, _⟩ => do
    let class? := receiver.type?.bind TypeExpr.className?
    let t ← scopes
    let known? := class?.bind fun c =>
      ((t.classInfo? c).bind (·.method? name.name)).map fun m => (Ty.class_ c, m.signature)
    let (receiverType, sig) ← match known? with
      | some k => pure k
      | none => do
        let receiverType ← resolveOptional [] .unknown receiver.type?
        let sig ← resolveSignature [] params ret?
        pure (receiverType, sig)
    pushScope .class_
    match class? with
    | some c => bindFields c receiver.name.span
    | none => pure ()
    redefine
      { name := receiver.name.name
        kind := .parameter
        ty := receiverType
        span := receiver.name.span }
    checkFunction { ctx with class? := class? <|> ctx.class? } params sig body
    popScope
  | .class_ ⟨name, extends?, implements, members, _⟩ => do
    let info? ← openClass name extends? implements
    checkMembers { ctx with class? := some name.name } info? members
    popScope
  | .template typeParams (.function ⟨name, params, ret?, body, _, _⟩) _ => do
    openTemplate typeParams
    let sig? := ((← scopes).global? name.name).bind fun s =>
      s.template?.bind TemplateInfo.signature?
    let sig ← match sig? with
      | some sig => pure sig
      | none => resolveSignature [] params ret?
    checkFunction ctx params sig body
    popScope
  | .template typeParams (.class_ ⟨name, extends?, implements, members, _⟩) _ => do
    openTemplate typeParams
    let info? ← openClass name extends? implements
    checkMembers { ctx with class? := some name.name } info? members
    popScope
    popScope
  | .template typeParams body _ => do
    openTemplate typeParams
    checkStmt ctx body
    popScope
  | .tryCatch body catches finally? _ => do
    checkBlock ctx .block body
    checkCatches ctx catches
    match finally? with
    | some b => checkBlock ctx .block b
    | none => return
  | .throw value _ => do
    let _ ← inferType ctx value
  | .scope body _ => checkBlock ctx .block body

def checkStmts (ctx : Context) : List Stmt → Check Unit
  | [] => return
  | s :: ss => do
    checkStmt ctx s
    checkStmts ctx ss

/-- Checks a block in a scope of its own. -/
def checkBlock (ctx : Context) (kind : ScopeKind) : Block → Check Unit
  | ⟨stmts, _⟩ => do
    pushScope kind
    checkStmts ctx stmts
    popScope

/-- Checks case values: against the type of the tag, or as conditions. -/
def checkTagged (ctx : Context) (tag? : Option Ty) : List Expr → Check Unit
  | [] => return
  | e :: es => do
    let ty ← inferType ctx e
    match tag? with
    | some tag => checkAssignable tag ty e.span
    | none => checkBool ty e.span
    checkTagged ctx tag? es

def checkCaseValues (ctx : Context) (tag? : Option Ty) : List Case → Check Unit
  | [] => return
  | ⟨values, _, _⟩ :: cs => do
    checkTagged ctx tag? values
    checkCaseValues ctx tag? cs

def checkCaseBodies (ctx : Context) : List Case → Check Unit
  | [] => return
  | ⟨_, body, _⟩ :: cs => do
    checkBlock ctx .block body
    checkCaseBodies ctx cs

/-- Checks catch clauses, each with its variable in a scope of its own. -/
def checkCatches (ctx : Context) : List Catch → Check Unit
  | [] => return
  | ⟨param?, type?, ⟨stmts, _⟩, _⟩ :: cs => do
    pushScope .block
    match param? with
    | some p =>
      let ty ← resolveOptional [] .unknown type?
      declare { name := p.name, kind := .variable_, ty, span := p.span }
    | none => pure ()
    checkStmts ctx stmts
    popScope
    checkCatches ctx cs

/-- Checks the members of a class. -/
def checkMembers (ctx : Context) (info? : Option ClassInfo) : List Member → Check Unit
  | [] => return
  | .field ⟨name, _, value?, _, _, _⟩ :: ms => do
    match value? with
    | some value =>
      let actual ← usedAsValue value (← inferType ctx value)
      let expected := ((info?.bind (·.field? name.name)).map FieldInfo.ty).getD .unknown
      checkAssignable expected actual value.span
    | none => pure ()
    checkMembers ctx info? ms
  | .method ⟨name, params, ret?, body, _, _⟩ :: ms => do
    let sig ← match info?.bind (·.method? name.name) with
      | some m => pure m.signature
      | none => resolveSignature [] params ret?
    checkFunction ctx params sig body
    checkMembers ctx info? ms

end

/-! ## Programs -/

/-- Reports the imports that nothing used. -/
def reportUnusedImports : Check Unit := do
  ((← get).imports.filter fun i => !i.used).forM fun i => report (.unusedImport i.path) i.span

/-- Analyses a program on top of what is known already. -/
def checkProgram (ctx : Context) (p : Program) : Check Unit := do
  collectDeclarations p
  checkStmts ctx p.stmts
  reportUnusedImports

end Check

/-- The analysis of a program on its own. -/
def analyze (p : Program) (inference : Bool) : Analysis :=
  ((Check.checkProgram { inference } p).run .initial).2

end ClassLang
