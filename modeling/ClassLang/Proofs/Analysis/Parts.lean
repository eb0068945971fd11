import ClassLang.Check.Body

/-!
# Parts of the walk

Analysis goes from a part of a program to the parts of that. Here the steps between them have names,
and an equation for each construct says which steps it takes.
-/

namespace ClassLang

namespace Check

/-- The signature of what is called. -/
def calleeSignature (ctx : Context) : Expr → Check (Option Signature)
  | .ident n => namedSignature (.ident n) n
  | .member object property arrow span => do
    match ← packageOf? object with
    | some package => packageMember package property
    | none => do
      match ← memberType (← inferType ctx object) property with
      | some ty => signatureOf (.member object property arrow span) ty
      | none => pure none
  | .templateInstance n typeArgs span => do
    match ← instantiate n typeArgs span with
    | some (.function sig) => pure (some sig)
    | some (.class_ name) => do
      report (.notCallable (Expr.templateInstance n typeArgs span).text (.class_ name)) span
      pure none
    | none => pure none
  | function => do signatureOf function (← inferType ctx function)

/-- The common end of a call. -/
def finishCall (ctx : Context) (callee : String) (args : List Expr) (span : Span)
    (sig? : Option Signature) : Check Ty := do
  checkCount? callee sig? args.length span
  checkArguments ctx callee 1 (paramsOf sig?) args
  return (sig?.map Signature.ret).getD .unknown

theorem inferType_call (ctx : Context) (function : Expr) (args : List Expr) (span : Span) :
    inferType ctx (.call function args span) =
      calleeSignature ctx function >>= finishCall ctx function.text args span := by
  cases function with
  | member object property arrow memberSpan =>
    rw [calleeSignature, bind_assoc]
    refine congrArg (packageOf? object >>= ·) (funext fun package? => ?_)
    cases package? with
    | some package => rfl
    | none =>
      simp only [bind_assoc]
      refine congrArg (inferType ctx object >>= ·) (funext fun o => ?_)
      refine congrArg (memberType o property >>= ·) (funext fun ty? => ?_)
      cases ty? <;> rfl
  | templateInstance n typeArgs instanceSpan =>
    rw [calleeSignature, bind_assoc]
    refine congrArg (instantiate n typeArgs instanceSpan >>= ·) (funext fun i? => ?_)
    rcases i? with _ | sig | name <;> rfl
  | ident n => rfl
  | _ =>
    rw [calleeSignature]
    · rfl
    all_goals simp

/-- The type of what an assignment stores. -/
def storedType (op : AssignOp) (target value : Ty) (span : Span) : Check Ty :=
  match op with
  | .compound op => binaryResult op target value span
  | _ => pure value

/-- An assignment to a place. -/
def assignPlace (ctx : Context) (op : AssignOp) (target value : Expr) (span : Span) : Check Ty := do
  if ← checkTarget target then
    let t ← inferType ctx target
    let v ← usedAsValue value (← inferType ctx value)
    let v ← storedType op t v span
    checkAssignable t v value.span
    return t
  else
    let _ ← inferType ctx value
    return .unknown

theorem inferType_assign (ctx : Context) {op : AssignOp} (hop : op ≠ .define) (target value : Expr)
    (span : Span) : inferType ctx (.assign op target value span) =
      assignPlace ctx op target value span := by
  cases op with
  | define => exact absurd rfl hop
  | assign | compound op => rfl

/-- The definition of what is no name. -/
def defineOther (ctx : Context) (target value : Expr) : Check Ty := do
  let ty ← usedAsValue value (← inferType ctx value)
  report (.invalidAssignTarget target.text) target.span
  return ty

theorem inferType_define (ctx : Context) {target : Expr} (htarget : ∀ n, target ≠ .ident n)
    (value : Expr) (span : Span) :
    inferType ctx (.assign .define target value span) = defineOther ctx target value := by
  cases target with
  | ident n => exact absurd rfl (htarget n)
  | _ => rfl

/-- A condition. -/
def checkCondition (ctx : Context) (e : Expr) : Check Unit := do checkBool (← inferType ctx e) e.span

/-- One argument. -/
def checkArgument (ctx : Context) (callee : String) (index : Nat) (params : List Ty) (e : Expr) :
    Check Unit := do
  let actual ← usedAsValue e (← inferType ctx e)
  match params with
  | [] => pure ()
  | param :: _ =>
    if !param.isWildcard && !(← assignable param actual) then
      report (.argumentType callee index param actual) e.span

theorem checkArguments_cons (ctx : Context) (callee : String) (index : Nat) (params : List Ty)
    (e : Expr) (es : List Expr) : checkArguments ctx callee index params (e :: es) = (do
      checkArgument ctx callee index params e
      checkArguments ctx callee (index + 1) params.tail es) := by
  rw [checkArguments, checkArgument]
  simp only [bind_assoc]
  refine congrArg (inferType ctx e >>= ·) (funext fun ty => ?_)
  refine congrArg (usedAsValue e ty >>= ·) (funext fun actual => ?_)
  cases params with
  | nil => rfl
  | cons param params =>
    simp only [bind_assoc]
    refine congrArg (assignable param actual >>= ·) (funext fun fits => ?_)
    split <;> rfl

/-- One value of a case. -/
def checkCaseValue (ctx : Context) (tag? : Option Ty) (e : Expr) : Check Unit := do
  let ty ← inferType ctx e
  match tag? with
  | some tag => checkAssignable tag ty e.span
  | none => checkBool ty e.span

theorem checkTagged_cons (ctx : Context) (tag? : Option Ty) (e : Expr) (es : List Expr) :
    checkTagged ctx tag? (e :: es) = (do
      checkCaseValue ctx tag? e
      checkTagged ctx tag? es) := by
  cases tag? <;> rfl

/-- The element that follows those of a type. -/
def checkElement (ctx : Context) (common? : Option Ty) (e : Expr) : Check Ty := do
  commonType common? (← inferType ctx e) e.span

/-- The type of the tag of a switch. -/
def tagType (ctx : Context) : Option Expr → Check (Option Ty)
  | some tag => do return some (← inferType ctx tag)
  | none => return none

def checkStmtIf (ctx : Context) : Option Stmt → Check Unit
  | some s => checkStmt ctx s
  | none => return

def checkConditionIf (ctx : Context) : Option Expr → Check Unit
  | some e => checkCondition ctx e
  | none => return

def checkBlockIf (ctx : Context) : Option Block → Check Unit
  | some b => checkBlock ctx .block b
  | none => return

theorem checkStmt_ifElse (ctx : Context) (condition : Expr) (consequence : Block)
    (alternative? : Option Stmt) (span : Span) :
    checkStmt ctx (.ifElse condition consequence alternative? span) = (do
      checkCondition ctx condition
      checkBlock ctx .block consequence
      checkStmtIf ctx alternative?) := by
  cases alternative? <;> rfl

theorem checkStmt_forLoop (ctx : Context) (init? : Option Stmt) (condition? : Option Expr)
    (post? : Option Stmt) (body : Block) (span : Span) :
    checkStmt ctx (.forLoop init? condition? post? body span) = (do
      pushScope .loop
      checkStmtIf ctx init?
      checkConditionIf ctx condition?
      checkStmtIf ctx post?
      checkBlock { ctx with inLoop := true } .block body
      popScope) := by
  cases init? <;> cases condition? <;> cases post? <;> rfl

theorem checkStmt_switch (ctx : Context) (tag? : Option Expr) (cases_ : List Case)
    (default? : Option Block) (span : Span) :
    checkStmt ctx (.switch tag? cases_ default? span) = (do
      let ty? ← tagType ctx tag?
      checkCaseValues ctx ty? cases_
      checkCaseBodies { ctx with inSwitch := true } cases_
      checkBlockIf { ctx with inSwitch := true } default?) := by
  cases tag? <;> cases default? <;> rfl

theorem checkStmt_tryCatch (ctx : Context) (body : Block) (catches : List Catch)
    (finally? : Option Block) (span : Span) :
    checkStmt ctx (.tryCatch body catches finally? span) = (do
      checkBlock ctx .block body
      checkCatches ctx catches
      checkBlockIf ctx finally?) := by
  cases finally? <;> rfl

/-- Opens the scope of a catch clause. -/
def openCatch (c : Catch) : Check Unit := do
  pushScope .block
  match c.param? with
  | some p =>
    let ty ← resolveOptional [] .unknown c.type?
    declare { name := p.name, kind := .variable_, ty, span := p.span }
  | none => pure ()

theorem checkCatches_cons (ctx : Context) (c : Catch) (cs : List Catch) :
    checkCatches ctx (c :: cs) = (do
      openCatch c
      checkStmts ctx c.body.stmts
      popScope
      checkCatches ctx cs) := by
  obtain ⟨param?, type?, ⟨stmts, bodySpan⟩, span⟩ := c
  cases param? <;> rfl

/-- Opens the scope of a function. -/
def openFunction (params : List Param) (sig : Signature) : Check Unit := do
  pushScope .function
  declareParams params sig

/-- The signature of a function, which is known already at the top level. -/
def functionSignature (f : Function) : Check Signature := do
  let declared? := match ← resolve f.name.name with
    | some s => if s.kind == .function && s.span == f.name.span then s.signature? else none
    | none => none
  match declared? with
  | some sig => pure sig
  | none => resolveSignature [] f.params f.ret?

theorem checkStmt_function (ctx : Context) (f : Function) :
    checkStmt ctx (.function f) = (do
      let sig ← functionSignature f
      checkFunction ctx f.params sig f.body) := by
  obtain ⟨name, params, ret?, body, modifiers, span⟩ := f
  rw [functionSignature, bind_assoc]
  refine congrArg (resolve name.name >>= ·) (funext fun s? => ?_)
  cases s? with
  | none => rfl
  | some s =>
    dsimp only
    generalize (if s.kind == .function && s.span == name.span then s.signature? else none) = sig?
    cases sig? <;> rfl

/-- The signature of the function of a template. -/
def templateSignature (f : Function) : Check Signature := do
  let sig? := ((← scopes).global? f.name.name).bind fun s =>
    s.template?.bind TemplateInfo.signature?
  match sig? with
  | some sig => pure sig
  | none => resolveSignature [] f.params f.ret?

theorem checkStmt_templateFunction (ctx : Context) (params : List Ident) (f : Function) (span : Span) :
    checkStmt ctx (.template params (.function f) span) = (do
      openTemplate params
      let sig ← templateSignature f
      checkFunction ctx f.params sig f.body
      popScope) := by
  obtain ⟨name, fparams, ret?, body, modifiers, fspan⟩ := f
  rw [templateSignature]
  refine congrArg (openTemplate params >>= ·) (funext fun _ => ?_)
  rw [bind_assoc]
  refine congrArg (scopes >>= ·) (funext fun t => ?_)
  dsimp only
  generalize Option.bind (t.global? name.name) _ = sig?
  cases sig? <;> rfl

/-- The type of a receiver and the signature of its method, which is known already for a class. -/
def methodSignature (m : Method) : Check (Ty × Signature) := do
  let class? := m.receiver.type?.bind TypeExpr.className?
  let t ← scopes
  let known? := class?.bind fun c =>
    ((t.classInfo? c).bind (·.method? m.name.name)).map fun m => (Ty.class_ c, m.signature)
  match known? with
  | some k => pure k
  | none => do
    let receiverType ← resolveOptional [] .unknown m.receiver.type?
    let sig ← resolveSignature [] m.params m.ret?
    pure (receiverType, sig)

/-- Opens the scope of a receiver. -/
def openMethod (receiver : Param) (receiverType : Ty) : Check Unit := do
  pushScope .class_
  match receiver.type?.bind TypeExpr.className? with
  | some c => bindFields c receiver.name.span
  | none => pure ()
  redefine
    { name := receiver.name.name
      kind := .parameter
      ty := receiverType
      span := receiver.name.span }

/-- The context in the method of a receiver. -/
def methodContext (ctx : Context) (receiver : Param) : Context :=
  { ctx with class? := receiver.type?.bind TypeExpr.className? <|> ctx.class? }

theorem checkStmt_method (ctx : Context) (m : Method) :
    checkStmt ctx (.method m) = (do
      let k ← methodSignature m
      openMethod m.receiver k.1
      checkFunction (methodContext ctx m.receiver) m.params k.2 m.body
      popScope) := by
  obtain ⟨receiver, name, params, ret?, body, span⟩ := m
  rw [methodSignature, bind_assoc]
  refine congrArg (scopes >>= ·) (funext fun t => ?_)
  dsimp only
  generalize Option.bind (receiver.type?.bind TypeExpr.className?) _ = known?
  have hopen : ∀ receiverType sig, (do
      pushScope .class_
      match receiver.type?.bind TypeExpr.className? with
        | some c => bindFields c receiver.name.span
        | none => pure ()
      redefine
        { name := receiver.name.name
          kind := .parameter
          ty := receiverType
          span := receiver.name.span }
      checkFunction (methodContext ctx receiver) params sig body
      popScope) = (do
      openMethod receiver receiverType
      checkFunction (methodContext ctx receiver) params sig body
      popScope) := by
    intro receiverType sig
    rw [openMethod]
    cases receiver.type?.bind TypeExpr.className? <;> simp only [bind_assoc]
  cases known? with
  | some k => exact hopen k.1 k.2
  | none =>
    rw [bind_assoc]
    refine congrArg (resolveOptional [] .unknown receiver.type? >>= ·) (funext fun ty => ?_)
    rw [bind_assoc]
    refine congrArg (resolveSignature [] params ret? >>= ·) (funext fun sig => ?_)
    exact hopen ty sig

/-- The signature of a method of a class. -/
def memberSignature (info? : Option ClassInfo) (f : Function) : Check Signature :=
  match info?.bind (·.method? f.name.name) with
  | some m => pure m.signature
  | none => resolveSignature [] f.params f.ret?

theorem checkMembers_method (ctx : Context) (info? : Option ClassInfo) (f : Function)
    (ms : List Member) : checkMembers ctx info? (.method f :: ms) = (do
      let sig ← memberSignature info? f
      checkFunction ctx f.params sig f.body
      checkMembers ctx info? ms) := by
  obtain ⟨name, params, ret?, body, modifiers, span⟩ := f
  rw [memberSignature, checkMembers]
  cases info?.bind (·.method? name.name) <;> rfl

/-- The first value of a field. -/
def checkField (ctx : Context) (info? : Option ClassInfo) (f : Field) : Check Unit :=
  match f.value? with
  | some value => do
    let actual ← usedAsValue value (← inferType ctx value)
    let expected := ((info?.bind (·.field? f.name.name)).map FieldInfo.ty).getD .unknown
    checkAssignable expected actual value.span
  | none => pure ()

theorem checkMembers_field (ctx : Context) (info? : Option ClassInfo) (f : Field)
    (ms : List Member) : checkMembers ctx info? (.field f :: ms) = (do
      checkField ctx info? f
      checkMembers ctx info? ms) := by
  obtain ⟨name, type?, value?, isConst, modifiers, span⟩ := f
  cases value? <;> rfl

end Check

end ClassLang
