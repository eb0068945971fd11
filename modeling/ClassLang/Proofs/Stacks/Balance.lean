import ClassLang.Proofs.Stacks.Walk

/-!
# Stacks are balanced

A walk that keeps its surroundings on stacks is the walk that passes them down: whatever it checks, it
has a result, namely the same one, and its stacks and counters end as they began.
-/

namespace ClassLang.Stacked

variable {α β γ : Type} {x : Stacked α} {y : Context → Check α} {f : α → Stacked β}
  {g : α → Context → Check β}

/-- A step ends in the surroundings in which it begins. It has a result, which is that of a step that
gets what can be seen of them. -/
def Follows (x : Stacked α) (y : Context → Check α) : Prop :=
  ∀ s : Surroundings, s.bound = [] → (x.run s).run = (do return some (← y s.context, s))

namespace Follows

theorem lift (y : Check α) : Follows (liftM y) fun _ => y := fun _ _ => rfl

theorem pure (v : α) : Follows (Pure.pure v) fun _ => Pure.pure v := fun _ _ => rfl

theorem bind (hx : Follows x y) (hf : ∀ v, Follows (f v) (g v)) :
    Follows (x >>= f) fun ctx => y ctx >>= fun v => g v ctx := by
  intro s hs
  rw [StateT.run_bind, OptionT.run_bind, hx s hs]
  funext a
  exact congrFun (hf _ s hs) _

theorem context (y : Context → Check α) : Follows (do y (← Stacked.context)) y := fun _ _ => rfl

/-- No type parameters are bound in a body. -/
theorem reading (y : List String → Check α) : Follows (do y (← get).bound) fun _ => y [] := by
  intro s hs
  show (do return some (← y s.bound, s)) = _
  rw [hs]

theorem ite {c : Prop} [Decidable c] {x x' : Stacked α} {y y' : Context → Check α}
    (h : Follows x y) (h' : Follows x' y') :
    Follows (if c then x else x') fun ctx => if c then y ctx else y' ctx := by
  split
  · exact h
  · exact h'

/-- A finding that depends on a test, before what follows. -/
theorem guard {c : Prop} [Decidable c] {z : Check Unit} {x : Unit → Stacked α}
    {y : Unit → Context → Check α} (h : ∀ u, Follows (x u) (y u)) :
    Follows (if c then liftM z >>= x else x ()) fun ctx =>
      if c then z >>= fun u => y u ctx else y () ctx :=
  ite (.bind (lift z) h) (h ())

theorem mapM {l : List α} {y : α → Context → Check β} (h : ∀ v ∈ l, Follows (f v) (y v)) :
    Follows (l.mapM f) fun ctx => l.mapM (y · ctx) := by
  induction l with
  | nil => exact pure []
  | cons v l ih =>
    simp only [List.mapM_cons]
    refine .bind (h v List.mem_cons_self) fun w => ?_
    exact .bind (ih fun v hv => h v (List.mem_cons_of_mem _ hv)) fun ws => pure (w :: ws)

theorem forM {l : List α} {f : α → Stacked Unit} {y : α → Context → Check Unit}
    (h : ∀ v ∈ l, Follows (f v) (y v)) : Follows (l.forM f) fun ctx => l.forM (y · ctx) := by
  induction l with
  | nil => exact pure ()
  | cons v l ih =>
    exact .bind (h v List.mem_cons_self) fun _ => ih fun v hv => h v (List.mem_cons_of_mem _ hv)

/-! ## Parts inside of something -/

section

variable {part : Stacked Unit} {check : Context → Check Unit}

/-- What is put around a part is left behind it, and is seen in the part alone. -/
theorem surrounded {enter : Stacked α} {leave : α → Stacked Unit} {v : Surroundings → α}
    {into : Surroundings → Surroundings} {k : Context → Context}
    (henter : ∀ s, (enter.run s).run = Pure.pure (some (v s, into s)))
    (hleave : ∀ s, ((leave (v s)).run (into s)).run = Pure.pure (some ((), s)))
    (hbound : ∀ s, (into s).bound = s.bound) (hcontext : ∀ s, (into s).context = k s.context)
    (h : Follows part check) :
    Follows (Stacked.surrounded enter leave part) fun ctx => check (k ctx) := by
  intro s hs
  have hpart := h (into s) ((hbound s).trans hs)
  rw [hcontext] at hpart
  rw [Stacked.surrounded, StateT.run_bind, OptionT.run_bind, henter]
  show ((part >>= fun _ => leave (v s)).run (into s)).run = _
  rw [StateT.run_bind, OptionT.run_bind, hpart]
  funext a
  exact congrFun (hleave s) _

theorem insideLoop (h : Follows part check) :
    Follows (Stacked.insideLoop part) fun ctx => check { ctx with inLoop := true } :=
  surrounded (fun _ => rfl) (fun _ => rfl) (fun _ => rfl) (fun _ => rfl) h

theorem insideSwitch (h : Follows part check) :
    Follows (Stacked.insideSwitch part) fun ctx => check { ctx with inSwitch := true } :=
  surrounded (fun _ => rfl) (fun _ => rfl) (fun _ => rfl) (fun _ => rfl) h

theorem insideClass (name : String) (h : Follows part check) :
    Follows (Stacked.insideClass name part) fun ctx => check { ctx with class? := some name } :=
  surrounded (fun _ => rfl) (fun _ => rfl) (fun _ => rfl) (fun _ => rfl) h

theorem insideFunction (ret : Ty) (h : Follows part check) :
    Follows (Stacked.insideFunction ret part) fun ctx => check (ctx.inFunction ret) :=
  surrounded (fun _ => rfl) (fun _ => rfl) (fun _ => rfl) (fun _ => rfl) h

theorem insideClass? (class? : Option String) (h : Follows part check) :
    Follows (Stacked.insideClass? class? part) fun ctx =>
      check { ctx with class? := class? <|> ctx.class? } := by
  cases class? with
  | some name => exact insideClass name h
  | none => simpa [Stacked.insideClass?] using h

end

/-! ## Written types and calls -/

theorem resolveType (e : TypeExpr) : Follows (Stacked.resolveType e) fun _ => Check.resolveType [] e :=
  reading (Check.resolveType · e)

theorem declaredType (type? : Option TypeExpr) :
    Follows (type?.mapM Stacked.resolveType) fun _ => type?.mapM (Check.resolveType []) := by
  cases type? with
  | some e => exact .bind (resolveType e) fun _ => pure _
  | none => exact pure _

theorem resolveOptional (missing : Ty) (e? : Option TypeExpr) :
    Follows (Stacked.resolveOptional missing e?) fun _ => Check.resolveOptional [] missing e? :=
  reading (Check.resolveOptional · missing e?)

theorem resolveSignature (params : List Param) (ret? : Option TypeExpr) :
    Follows (Stacked.resolveSignature params ret?) fun _ => Check.resolveSignature [] params ret? :=
  reading (Check.resolveSignature · params ret?)

theorem classMembers (c : Class) :
    Follows (Stacked.classMembers c) fun _ => Check.classMembers [] c :=
  reading (Check.classMembers · c)

theorem instantiate (name : Ident) (typeArgs : List TypeExpr) (span : Span) :
    Follows (Stacked.instantiate name typeArgs span) fun _ => Check.instantiate name typeArgs span :=
  .bind (reading (Check.resolveTypes · typeArgs)) fun args => lift (instanceWith name span args)

theorem newClass (type : TypeExpr) :
    Follows (Stacked.newClass type) fun _ => Check.newClass type := by
  cases type with
  | generic n args span => exact .bind (reading (Check.resolveTypes · args)) fun _ => pure _
  | _ => exact lift _

/-- A finding that depends on what can be seen of the surroundings. -/
theorem test (c : Surroundings → Bool) {d : Context → Bool} (h : ∀ s, c s = d s.context)
    (z : Check Unit) :
    Follows (do if c (← get) then liftM z) fun ctx => if d ctx then z else Pure.pure () := by
  intro s _
  have hrun : ((do if c (← get) then liftM z : Stacked Unit).run s).run =
      ((if c s then liftM z else Pure.pure () : Stacked Unit).run s).run := rfl
  rw [hrun, h]
  dsimp only
  split <;> rfl

/-! ## Signatures -/

theorem signatureOr (known? : Option Signature) (params : List Param) (ret? : Option TypeExpr) :
    Follows (Stacked.signatureOr known? params ret?) fun _ =>
      match known? with
      | some sig => Pure.pure sig
      | none => Check.resolveSignature [] params ret? := by
  cases known? with
  | some sig => exact pure sig
  | none => exact resolveSignature params ret?

theorem functionSignature (f : Function) :
    Follows (Stacked.functionSignature f.name f.params f.ret?) fun _ =>
      Check.functionSignature f :=
  .bind (lift _) fun _ => signatureOr _ f.params f.ret?

theorem templateSignature (f : Function) :
    Follows (Stacked.templateSignature f.name f.params f.ret?) fun _ =>
      Check.templateSignature f :=
  .bind (lift _) fun _ => signatureOr _ f.params f.ret?

theorem methodSignature (m : Method) :
    Follows (Stacked.methodSignature m.receiver m.name m.params m.ret?) fun _ =>
      Check.methodSignature m := by
  refine .bind (lift _) fun t => ?_
  dsimp only
  generalize Option.bind (m.receiver.type?.bind TypeExpr.className?) _ = known?
  cases known? with
  | some k => exact pure k
  | none =>
    exact .bind (resolveOptional .unknown m.receiver.type?) fun _ =>
      .bind (resolveSignature m.params m.ret?) fun _ => pure _

theorem memberSignature (info? : Option ClassInfo) (f : Function) :
    Follows (Stacked.memberSignature info? f.name f.params f.ret?) fun _ =>
      Check.memberSignature info? f := by
  rw [Stacked.memberSignature, Check.memberSignature]
  cases info?.bind (·.method? f.name.name) with
  | some m => exact pure m.signature
  | none => exact resolveSignature f.params f.ret?

theorem openCatch (c : Catch) :
    Follows (Stacked.openCatch c.param? c.type?) fun _ => Check.openCatch c := by
  refine .bind (lift _) fun _ => ?_
  cases c.param? with
  | some p => exact .bind (resolveOptional .unknown c.type?) fun ty => lift _
  | none => exact pure ()

/-- The common end of a call. -/
theorem call {callee : String} {sig? : Option Signature} {args : List Expr} (span : Span)
    (hargs : ∀ params, Follows (Stacked.checkArguments callee 1 params args)
      (Check.checkArguments · callee 1 params args)) :
    Follows (do
      Check.checkCount? callee sig? args.length span
      Stacked.checkArguments callee 1 (Check.paramsOf sig?) args
      return (sig?.map Signature.ret).getD .unknown) fun ctx => do
      Check.checkCount? callee sig? args.length span
      Check.checkArguments ctx callee 1 (Check.paramsOf sig?) args
      return (sig?.map Signature.ret).getD .unknown :=
  .bind (lift _) fun _ => .bind (hargs _) fun _ => pure _

/-! ## Expressions and statements -/

/-- What a template's body has inside. -/
def TemplateParts : Stmt → Prop
  | .function f => ∀ sig,
    Follows (Stacked.checkFunction f.params sig f.body) (Check.checkFunction · f.params sig f.body)
  | .class_ c => ∀ info?,
    Follows (Stacked.checkMembers info? c.members) (Check.checkMembers · info? c.members)
  | _ => True

mutual

theorem inferType : (e : Expr) → Follows (Stacked.inferType e) (Check.inferType · e)
  | .ident _ => lift _
  | .int .. | .float .. | .string .. | .char .. | .bool .. | .null _ => pure _
  | .prefixed op right span => by
    refine .bind (inferType right) fun operand => ?_
    cases op <;> exact guard fun _ => pure _
  | .binary op left right span =>
    .bind (inferType left) fun l => .bind (inferType right) fun r => lift _
  | .postfixed op operand span =>
    .bind (inferType operand) fun ty => .bind (lift _) fun _ => guard fun _ => pure _
  | .assign op target value span => by
    have hvalue := inferType value
    have htarget := inferType target
    cases op with
    | define =>
      cases target with
      | ident n =>
        exact .bind hvalue fun ty => .bind (lift _) fun ty => context (Check.defineByAssignment · n ty)
      | _ => exact .bind hvalue fun ty => .bind (lift _) fun ty => .bind (lift _) fun _ => pure _
    | assign =>
      refine .bind (lift _) fun place => ite ?_ ?_
      · exact .bind htarget fun t => .bind hvalue fun v => .bind (lift _) fun v =>
          .bind (pure _) fun v => .bind (lift _) fun _ => pure _
      · exact .bind hvalue fun _ => pure _
    | compound op =>
      refine .bind (lift _) fun place => ite ?_ ?_
      · exact .bind htarget fun t => .bind hvalue fun v => .bind (lift _) fun v =>
          .bind (lift _) fun v => .bind (lift _) fun _ => pure _
      · exact .bind hvalue fun _ => pure _
  | .call function args span => by
    have hargs := fun callee params => checkArguments callee 1 params args
    have hfunction := inferType function
    cases function with
    | ident n => exact .bind (lift _) fun sig? => call span (hargs _)
    | member object property arrow memberSpan =>
      have hobject := inferType object
      refine .bind (lift _) fun package? => ?_
      cases package? with
      | some package => exact .bind (lift _) fun sig? => call span (hargs _)
      | none =>
        refine .bind hobject fun o => .bind (lift _) fun ty? => ?_
        cases ty? with
        | some ty => exact .bind (lift _) fun sig? => call span (hargs _)
        | none => exact call span (hargs _)
    | templateInstance n typeArgs instanceSpan =>
      refine .bind (instantiate n typeArgs instanceSpan) fun i? => ?_
      match i? with
      | some (.function sig) => exact call span (hargs _)
      | some (.class_ name) => exact .bind (lift _) fun _ => call span (hargs _)
      | none => exact call span (hargs _)
    | _ => exact .bind hfunction fun ty => .bind (lift _) fun sig? => call span (hargs _)
  | .index object key _ => by
    refine .bind (inferType object) fun o => .bind (inferType key) fun k => ?_
    cases o with
    | array element => exact lift _
    | map keyType value => exact lift _
    | _ => exact ite (lift _) (guard fun _ => pure _)
  | .member object property _ _ => by
    have hobject := inferType object
    refine .bind (lift _) fun package? => ?_
    cases package? with
    | some package => exact .bind (lift _) fun _ => pure _
    | none => exact .bind hobject fun o => .bind (lift _) fun _ => pure _
  | .array elements _ => .bind (inferElements none elements) fun _ => pure _
  | .hash entries _ =>
    .bind (inferKeys none entries) fun _ => .bind (inferValues none entries) fun _ => pure _
  | .lambda params ret? body _ =>
    .bind (resolveSignature params ret?) fun sig => .bind (checkFunction params sig body) fun _ => pure _
  | .new type args span => by
    have hargs := fun callee params => checkArguments callee 1 params args
    refine .bind (newClass type) fun n? => ?_
    cases n? with
    | none => exact pure _
    | some n =>
      refine .bind (lift _) fun s? => ?_
      cases s? with
      | none => exact .bind (lift _) fun _ => .bind (hargs _ _) fun _ => pure _
      | some s =>
        refine ite ?_ (.bind (lift _) fun _ => pure _)
        exact .bind (lift _) fun t => .bind (lift _) fun _ => .bind (hargs _ _) fun _ => pure _
  | .this span => context (Check.thisType · span)
  | .super span => context (Check.superType · span)
  | .templateInstance n typeArgs span => by
    refine .bind (instantiate n typeArgs span) fun i? => ?_
    match i? with
    | some (.function sig) => exact pure _
    | some (.class_ name) => exact pure _
    | none => exact pure _

theorem checkArguments (callee : String) (index : Nat) (params : List Ty) : (args : List Expr) →
    Follows (Stacked.checkArguments callee index params args)
      (Check.checkArguments · callee index params args)
  | [] => pure _
  | e :: es => by
    have hrest := fun params => checkArguments callee (index + 1) params es
    refine .bind (inferType e) fun ty => .bind (lift _) fun actual => ?_
    cases params with
    | nil => exact hrest _
    | cons param params => exact .bind (lift _) fun fits => guard fun _ => hrest _

theorem inferElements (common? : Option Ty) : (es : List Expr) →
    Follows (Stacked.inferElements common? es) (Check.inferElements · common? es)
  | [] => pure _
  | e :: es => .bind (inferType e) fun _ => .bind (lift _) fun common => inferElements (some common) es

theorem inferKeys (common? : Option Ty) : (es : List Entry) →
    Follows (Stacked.inferKeys common? es) (Check.inferKeys · common? es)
  | [] => pure _
  | ⟨key, _⟩ :: es =>
    .bind (inferType key) fun _ => .bind (lift _) fun common => inferKeys (some common) es

theorem inferValues (common? : Option Ty) : (es : List Entry) →
    Follows (Stacked.inferValues common? es) (Check.inferValues · common? es)
  | [] => pure _
  | ⟨_, value⟩ :: es =>
    .bind (inferType value) fun _ => .bind (lift _) fun common => inferValues (some common) es

theorem checkFunction (params : List Param) (sig : Signature) : (body : Block) →
    Follows (Stacked.checkFunction params sig body) (Check.checkFunction · params sig body)
  | ⟨stmts, _⟩ => .bind (lift _) fun _ => .bind (lift _) fun _ =>
    .bind (insideFunction sig.ret (checkStmts stmts)) fun _ => lift _

theorem checkStmts : (ss : List Stmt) → Follows (Stacked.checkStmts ss) (Check.checkStmts · ss)
  | [] => pure _
  | s :: ss => .bind (checkStmt s) fun _ => checkStmts ss

theorem checkStmt : (s : Stmt) → Follows (Stacked.checkStmt s) (Check.checkStmt · s)
  | .package .. | .interface .. => pure _
  | .imports paths span => lift _
  | .var name type? value? _ => by
    have hvalue := inferTypeIf value?
    cases value? with
    | some value =>
      exact .bind (declaredType type?) fun declared? => .bind (hvalue value rfl) fun ty =>
        .bind (lift _) fun actual =>
          context (Check.declareVariable · .variable_ name declared? (some (actual, value.span)))
    | none =>
      exact .bind (declaredType type?) fun declared? =>
        context (Check.declareVariable · .variable_ name declared? none)
  | .const name type? value _ =>
    .bind (declaredType type?) fun declared? => .bind (inferType value) fun ty =>
      .bind (lift _) fun actual =>
        context (Check.declareVariable · .constant name declared? (some (actual, value.span)))
  | .ret value? span => by
    have hvalue := inferTypeIf value?
    cases value? with
    | some value =>
      refine .bind (hvalue value rfl) fun ty => .bind (lift _) fun _ => ?_
      exact context (Check.checkReturned · ty span)
    | none => exact context (Check.checkReturned · .void span)
  | .expr e => .bind (inferType e) fun _ => pure _
  | .block b => checkBlock .block b
  | .ifElse condition consequence alternative? _ => by
    simp only [Check.checkStmt_ifElse]
    exact .bind (inferType condition) fun _ => .bind (lift _) fun _ =>
      .bind (checkBlock .block consequence) fun _ => checkStmtIf alternative?
  | .forLoop init? condition? post? body _ => by
    simp only [Check.checkStmt_forLoop]
    exact .bind (lift _) fun _ => .bind (checkStmtIf init?) fun _ =>
      .bind (checkConditionIf condition?) fun _ => .bind (checkStmtIf post?) fun _ =>
        .bind (insideLoop (checkBlock .block body)) fun _ => lift _
  | .whileLoop condition body _ =>
    .bind (inferType condition) fun _ => .bind (lift _) fun _ =>
      insideLoop (checkBlock .loop body)
  | .switch tag? cases_ default? _ => by
    have hbodies := insideSwitch <| .bind (checkCaseBodies cases_) fun _ => checkBlockIf default?
    simp only [Check.checkStmt_switch]
    exact .bind (tagType tag?) fun ty? => .bind (checkCaseValues ty? cases_) fun _ => hbodies
  | .break_ span => by
    refine test (fun s => s.loops == 0 && s.switches == 0) (fun s => ?_) _
    simp [Surroundings.context, bne]
  | .continue_ span => by
    refine test (fun s => s.loops == 0) (fun s => ?_) _
    simp [Surroundings.context, bne]
  | .function ⟨name, params, ret?, body, modifiers, span⟩ => by
    simp only [Check.checkStmt_function]
    exact .bind (functionSignature ⟨name, params, ret?, body, modifiers, span⟩) fun sig =>
      checkFunction params sig body
  | .method ⟨receiver, name, params, ret?, body, span⟩ => by
    simp only [Check.checkStmt_method]
    exact .bind (methodSignature ⟨receiver, name, params, ret?, body, span⟩) fun k =>
      insideClass? _ <| .bind (lift _) fun _ => .bind (checkFunction params k.2 body) fun _ => lift _
  | .class_ ⟨name, extends?, implements, members, _⟩ =>
    .bind (lift _) fun info? => insideClass name.name <|
      .bind (checkMembers info? members) fun _ => lift _
  | .template typeParams body _ => by
    have hstmt := checkStmt body
    have hparts := templateParts body
    cases body with
    | function f =>
      have hfunction := (templateSignature f).bind fun sig => (hparts sig).bind fun _ =>
        lift Check.popScope
      simp only [Check.checkStmt_templateFunction]
      obtain ⟨name, params, ret?, body, modifiers, span⟩ := f
      exact .bind (lift _) fun _ => hfunction
    | class_ c =>
      have hclass := fun info? => (insideClass c.name.name <| (hparts info?).bind fun _ =>
        lift Check.popScope).bind fun _ => lift Check.popScope
      simp only [bind_assoc] at hclass
      obtain ⟨name, extends?, implements, members, span⟩ := c
      exact .bind (lift _) fun _ => .bind (lift _) hclass
    | _ => exact .bind (lift _) fun _ => .bind hstmt fun _ => lift _
  | .tryCatch body catches finally? _ => by
    simp only [Check.checkStmt_tryCatch]
    exact .bind (checkBlock .block body) fun _ => .bind (checkCatches catches) fun _ =>
      checkBlockIf finally?
  | .throw value _ => .bind (inferType value) fun _ => pure _
  | .scope body _ => checkBlock .block body

theorem inferTypeIf : (e? : Option Expr) → ∀ e, e? = some e →
    Follows (Stacked.inferType e) (Check.inferType · e)
  | some e, _, rfl => inferType e

theorem checkStmtIf : (s? : Option Stmt) →
    Follows (Stacked.checkStmtIf s?) (Check.checkStmtIf · s?)
  | none => pure ()
  | some s => checkStmt s

theorem checkConditionIf : (e? : Option Expr) →
    Follows (Stacked.checkConditionIf e?) (Check.checkConditionIf · e?)
  | none => pure ()
  | some e => .bind (inferType e) fun _ => lift _

theorem checkBlockIf : (b? : Option Block) →
    Follows (Stacked.checkBlockIf b?) (Check.checkBlockIf · b?)
  | none => pure ()
  | some b => checkBlock .block b

theorem tagType : (tag? : Option Expr) → Follows (Stacked.tagType tag?) (Check.tagType · tag?)
  | none => pure none
  | some tag => .bind (inferType tag) fun _ => pure _

theorem templateParts : (s : Stmt) → TemplateParts s
  | .function ⟨_, params, _, body, _, _⟩ => fun sig => checkFunction params sig body
  | .class_ ⟨_, _, _, members, _⟩ => fun info? => checkMembers info? members
  | .package .. | .imports .. | .var .. | .const .. | .ret .. | .expr .. | .block .. | .ifElse ..
  | .forLoop .. | .whileLoop .. | .switch .. | .break_ .. | .continue_ .. | .method .. => trivial
  | .interface .. | .template .. | .tryCatch .. | .throw .. | .scope .. => trivial

theorem checkBlock (kind : ScopeKind) : (b : Block) →
    Follows (Stacked.checkBlock kind b) (Check.checkBlock · kind b)
  | ⟨stmts, _⟩ => .bind (lift _) fun _ => .bind (checkStmts stmts) fun _ => lift _

theorem checkTagged (tag? : Option Ty) : (es : List Expr) →
    Follows (Stacked.checkTagged tag? es) (Check.checkTagged · tag? es)
  | [] => pure _
  | e :: es => by
    have hrest := checkTagged tag? es
    refine .bind (inferType e) fun ty => ?_
    cases tag? with
    | some tag => exact .bind (lift _) fun _ => hrest
    | none => exact .bind (lift _) fun _ => hrest

theorem checkCaseValues (tag? : Option Ty) : (cs : List Case) →
    Follows (Stacked.checkCaseValues tag? cs) (Check.checkCaseValues · tag? cs)
  | [] => pure _
  | ⟨values, _, _⟩ :: cs => .bind (checkTagged tag? values) fun _ => checkCaseValues tag? cs

theorem checkCaseBodies : (cs : List Case) →
    Follows (Stacked.checkCaseBodies cs) (Check.checkCaseBodies · cs)
  | [] => pure _
  | ⟨_, body, _⟩ :: cs => .bind (checkBlock .block body) fun _ => checkCaseBodies cs

theorem checkCatches : (cs : List Catch) →
    Follows (Stacked.checkCatches cs) (Check.checkCatches · cs)
  | [] => pure _
  | ⟨param?, type?, ⟨stmts, span⟩, span'⟩ :: cs => by
    simp only [Check.checkCatches_cons]
    exact .bind (openCatch ⟨param?, type?, ⟨stmts, span⟩, span'⟩) fun _ =>
      .bind (checkStmts stmts) fun _ => .bind (lift _) fun _ => checkCatches cs

theorem checkMembers (info? : Option ClassInfo) : (ms : List Member) →
    Follows (Stacked.checkMembers info? ms) (Check.checkMembers · info? ms)
  | [] => pure _
  | .field ⟨name, _, value?, _, _, _⟩ :: ms => by
    have hvalue := inferTypeIf value?
    have hrest := checkMembers info? ms
    cases value? with
    | some value =>
      exact .bind (hvalue value rfl) fun ty => .bind (lift _) fun _ => .bind (lift _) fun _ => hrest
    | none => exact hrest
  | .method ⟨name, params, ret?, body, modifiers, span⟩ :: ms => by
    simp only [Check.checkMembers_method]
    exact .bind (memberSignature info? ⟨name, params, ret?, body, modifiers, span⟩) fun sig =>
      .bind (checkFunction params sig body) fun _ => checkMembers info? ms

end

/-! ## Programs -/

/-- Type parameters are bound for one step, and for nothing after it. -/
theorem bounded (bound : List String) (y : List String → Check α) {z : α → Context → Check β}
    (h : ∀ v, Follows (f v) (z v)) :
    Follows (do
      setBound bound
      let v ← (do y (← get).bound : Stacked α)
      setBound []
      f v) (fun ctx => do
      let v ← y bound
      z v ctx) := by
  intro s hs
  have hclear : { s with bound := [] } = s := by rw [← hs]
  have hrun : ((do
      setBound bound
      let v ← (do y (← get).bound : Stacked α)
      setBound []
      f v : Stacked β).run s).run =
      (do ((f (← y bound)).run { s with bound := [] }).run : Check _) := rfl
  rw [hrun, hclear]
  funext a
  exact congrFun (h _ s hs) _

theorem fillDeclaration (s : Stmt) :
    Follows (Stacked.fillDeclaration s) fun _ => Check.fillDeclaration s := by
  cases s with
  | function f => exact .bind (resolveSignature _ _) fun _ => lift _
  | class_ c => exact .bind (classMembers c) fun _ => lift _
  | method m =>
    rw [Stacked.fillDeclaration, Check.fillDeclaration]
    cases m.receiverClass? with
    | none => exact pure _
    | some cls =>
      exact .bind (lift _) fun t => ite (pure _) (.bind (resolveSignature _ _) fun _ => lift _)
  | interface n methods span =>
    refine .bind (mapM fun m _ => ?_) fun _ => lift _
    exact .bind (resolveSignature m.params m.ret?) fun _ => pure _
  | template params body span =>
    cases body with
    | function f => exact bounded _ (Check.resolveSignature · f.params f.ret?) fun _ => lift _
    | class_ c => exact bounded _ (Check.classMembers · c) fun _ => lift _
    | _ => exact pure _
  | _ => exact pure _

theorem collectDeclarations (p : Program) :
    Follows (Stacked.collectDeclarations p) fun _ => Check.collectDeclarations p := by
  refine .bind (forM fun s _ => ?_) fun _ => forM fun s _ => fillDeclaration s
  cases Check.declaredSymbol? s with
  | some symbol => exact lift _
  | none => exact pure _

theorem checkProgram (p : Program) :
    Follows (Stacked.checkProgram p) (Check.checkProgram · p) :=
  .bind (collectDeclarations p) fun _ => .bind (checkStmts p.stmts) fun _ => lift _

end Follows

end ClassLang.Stacked
