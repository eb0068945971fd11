import ClassLang.Proofs.Analysis.Parts
import ClassLang.Proofs.Comparison.Leaves

/-!
# Bodies side by side

The walk over expressions and statements, on both sides at once. For every constructor, the mentions of
a tree are those of its parts in the order in which analysis comes to them.
-/

namespace ClassLang

namespace Comparison

variable {C : Comparison}

theorem Facts.getD {o o' : Option Ty} (h : C.Facts o o') :
    C.Types (o.getD .unknown) (o'.getD .unknown) := by
  obtain rfl | ⟨hfades, rfl⟩ := h
  · exact .inl rfl
  · exact .unknown hfades _

theorem Facts.map {α β : Type} {o o' : Option α} (h : C.Facts o o') (f : α → β) :
    C.Facts (o.map f) (o'.map f) := by
  obtain rfl | ⟨hfades, rfl⟩ := h
  · exact .inl rfl
  · exact .inr ⟨hfades, rfl⟩

theorem Types.getD {o o' : Option Ty} (h : Option.Rel C.Types o o') :
    C.Types (o.getD .unknown) (o'.getD .unknown) := by
  cases h with
  | some h => exact h
  | none => exact .inl rfl

theorem Types.array {t t' : Ty} (h : C.Types t t') : C.Types (.array t) (.array t') := by
  obtain rfl | ⟨hfades, h⟩ := h
  · exact .inl rfl
  · exact .inr ⟨hfades, .array h⟩

theorem Types.map {t t' u u' : Ty} (ht : C.Types t t') (hu : C.Types u u') :
    C.Types (.map t u) (.map t' u') := by
  obtain ⟨rfl, rfl⟩ | hfades := ht.eq_or_fades hu
  · exact .inl rfl
  · exact .inr ⟨hfades, .map ht.blurs hu.blurs⟩

/-- The parameters that arguments are held to. On the right none may be known. -/
def Params (C : Comparison) (params params' : List Ty) : Prop :=
  params' = params ∨ C.fades = true ∧ params' = []

theorem Facts.paramsOf {sig? sig?' : Option Signature} (h : C.Facts sig? sig?') :
    C.Params (Check.paramsOf sig?) (Check.paramsOf sig?') := by
  obtain rfl | ⟨hfades, rfl⟩ := h
  · exact .inl rfl
  · exact .inr ⟨hfades, rfl⟩

namespace Rel

variable {α : Type} {L : List Mention} {Q : α → α → Prop}

theorem finishCall {ctx : Context} {callee : String} {args : List Expr} (span : Span)
    {sig? sig?' : Option Signature} (hsig : C.Facts sig? sig?')
    (hargs : ∀ params params', C.Params params params' → C.Rel L Eq
      (Check.checkArguments ctx callee 1 params args)
      (Check.checkArguments (C.context ctx) callee 1 params' args)) :
    C.Rel L C.Types (Check.finishCall ctx callee args span sig?)
      (Check.finishCall (C.context ctx) callee args span sig?') :=
  (checkCount? callee hsig _ span).seq fun _ _ _ =>
    (hargs _ _ hsig.paramsOf).andThen fun _ _ _ => pure (hsig.map Signature.ret).getD

theorem checkCondition {ctx : Context} {e : Expr}
    (h : C.Rel L C.Types (Check.inferType ctx e) (Check.inferType (C.context ctx) e)) :
    C.Rel L Eq (Check.checkCondition ctx e) (Check.checkCondition (C.context ctx) e) :=
  h.andThen fun _ _ ht => checkBool ht _

theorem storedType {t t' v v' : Ty} (op : AssignOp) (ht : C.Types t t') (hv : C.Types v v')
    (span : Span) : C.Rel [] C.Types (Check.storedType op t v span) (Check.storedType op t' v' span) := by
  cases op with
  | compound op => exact binaryResult ht hv op span
  | define | assign => exact pure hv

theorem assignPlace {M : List Mention} {ctx : Context} (op : AssignOp) {target value : Expr}
    (span : Span)
    (htarget : C.Rel L C.Types (Check.inferType ctx target) (Check.inferType (C.context ctx) target))
    (hvalue : C.Rel M C.Types (Check.inferType ctx value) (Check.inferType (C.context ctx) value)) :
    C.Rel (L ++ M) C.Types (Check.assignPlace ctx op target value span)
      (Check.assignPlace (C.context ctx) op target value span) := by
  refine (checkTarget target).seq ?_
  rintro place _ rfl
  refine ite (fun _ => ?_) fun _ => ?_
  · exact htarget.bind fun _ _ ht => hvalue.andThen fun _ _ hv => (usedAsValue hv value).seq
      fun _ _ hv => (storedType op ht hv span).seq fun _ _ hv => (checkAssignable ht hv _).seq
        fun _ _ _ => pure ht
  · refine mono ?_ (List.sublist_append_right _ _)
    exact hvalue.andThen fun _ _ _ => pure (.inl rfl)

theorem defineOther {ctx : Context} (target : Expr) {value : Expr}
    (hvalue : C.Rel L C.Types (Check.inferType ctx value) (Check.inferType (C.context ctx) value)) :
    C.Rel L C.Types (Check.defineOther ctx target value)
      (Check.defineOther (C.context ctx) target value) :=
  hvalue.andThen fun _ _ ht => (usedAsValue ht value).seq fun _ _ ht => refuse (by nofun) _ ht

theorem functionSignature {f : Function} (hn : C.names f.name.name)
    (hnames : ∀ n ∈ functionNames f.params f.ret?, C.names n) :
    C.Rel L Eq (Check.functionSignature f) (Check.functionSignature f) := by
  refine (resolve hn).seq ?_
  rintro _ _ (hs | _)
  · dsimp only
    rw [hs.kind, hs.span, hs.signature?]
    split
    · exact pure rfl
    · exact resolveSignature [] hnames
  · exact resolveSignature [] hnames

theorem templateSignature {f : Function} (hn : C.names f.name.name)
    (hnames : ∀ n ∈ functionNames f.params f.ret?, C.names n) :
    C.Rel L Eq (Check.templateSignature f) (Check.templateSignature f) := by
  refine scopes.seq fun t t' ht => ?_
  have hsig : (t'.global? f.name.name).bind (fun s => s.template?.bind TemplateInfo.signature?) =
      (t.global? f.name.name).bind fun s => s.template?.bind TemplateInfo.signature? := by
    obtain ⟨h, h'⟩ | ⟨_, _, h, h', hs⟩ := rel_cases (ht.globals _ hn)
    · rw [h, h']
    · simp only [h, h', Option.bind_some, hs.template?]
  rw [hsig]
  dsimp only
  split
  · exact pure rfl
  · exact resolveSignature [] hnames

theorem methodSignature {m : Method} (hreceiver : ∀ n ∈ TypeExpr.namesIf m.receiver.type?, C.names n)
    (hnames : ∀ n ∈ functionNames m.params m.ret?, C.names n) :
    C.Rel L Eq (Check.methodSignature m) (Check.methodSignature m) := by
  refine scopes.seq fun t t' ht => ?_
  simp only [ht.classes]
  split
  · exact pure rfl
  · refine (resolveOptional _ _ hreceiver).seq ?_
    rintro receiverType _ rfl
    refine (resolveSignature _ hnames).seq ?_
    rintro sig _ rfl
    exact pure rfl

theorem openMethod {receiver : Param} (hn : C.names receiver.name.name) (receiverType : Ty) :
    C.Rel L Eq (Check.openMethod receiver receiverType) (Check.openMethod receiver receiverType) := by
  have hreceiver : C.Rel L Eq
      (Check.redefine { name := receiver.name.name, kind := .parameter, ty := receiverType
                        span := receiver.name.span })
      (Check.redefine { name := receiver.name.name, kind := .parameter, ty := receiverType
                        span := receiver.name.span }) :=
    redefine (.inl rfl) hn (by nofun)
  refine (pushScope _).seq fun _ _ _ => ?_
  cases receiver.type?.bind TypeExpr.className? with
  | some c => exact (bindFields c _).seq fun _ _ _ => hreceiver
  | none => exact hreceiver

theorem openCatch {c : Catch} (hparam : ∀ p ∈ c.param?, C.names p.name)
    (htype : ∀ n ∈ TypeExpr.namesIf c.type?, C.names n) :
    C.Rel L Eq (Check.openCatch c) (Check.openCatch c) := by
  refine (pushScope _).seq fun _ _ _ => ?_
  cases hp : c.param? with
  | some p =>
    refine (resolveOptional _ _ htype).seq ?_
    rintro ty _ rfl
    exact declare (.inl rfl) (hparam p hp) (by nofun)
  | none => exact pure rfl

theorem memberSignature (info? : Option ClassInfo) {f : Function}
    (hnames : ∀ n ∈ functionNames f.params f.ret?, C.names n) :
    C.Rel L Eq (Check.memberSignature info? f) (Check.memberSignature info? f) := by
  rw [Check.memberSignature]
  cases info?.bind (·.method? f.name.name) with
  | some m => exact pure rfl
  | none => exact resolveSignature [] hnames

/-- What is said of the parts of a template's body. -/
def TemplateParts (C : Comparison) (ctx : Context) : Stmt → Prop
  | .function f => ∀ sig, (∀ n ∈ functionNames f.params f.ret?, C.names n) →
      C.Rel f.body.mentions Eq (Check.checkFunction ctx f.params sig f.body)
        (Check.checkFunction (C.context ctx) f.params sig f.body)
  | .class_ c => ∀ ctx info?, C.Rel (Member.mentionsOfAll c.members) Eq
      (Check.checkMembers ctx info? c.members)
      (Check.checkMembers (C.context ctx) info? c.members)
  | _ => True

mutual

theorem inferType (ctx : Context) : (e : Expr) →
    C.Rel e.mentions C.Types (Check.inferType ctx e) (Check.inferType (C.context ctx) e)
  | .ident n => identifierType n
  | .int .. | .float .. | .string .. | .char .. | .bool .. | .null _ => pure (.inl rfl)
  | .prefixed op right span => by
    refine (inferType ctx right).andThen fun t t' ht => ?_
    cases op with
    | not =>
      exact guardKind ht Ty.isBool (.invalidUnary _) (fun _ _ h hw => h.isKind_eq hw _) (by nofun)
        rfl (pure (.inl rfl))
    | negate =>
      exact guardKind ht Ty.isNumeric (.invalidUnary _) (fun _ _ h hw => h.isNumeric_eq hw)
        (by nofun) rfl (pure ht)
    | bitNot =>
      exact guardKind ht Ty.isInt (.invalidUnary _) (fun _ _ h hw => h.isKind_eq hw _) (by nofun)
        rfl (pure ht)
  | .binary op left right span =>
    (inferType ctx left).bind fun _ _ hl => (inferType ctx right).andThen fun _ _ hr =>
      binaryResult hl hr op span
  | .postfixed op operand span => by
    refine (inferType ctx operand).andThen fun t t' ht => (checkTarget operand).seq fun _ _ _ => ?_
    exact guardKind ht Ty.isNumeric (.invalidUnary _) (fun _ _ h hw => h.isNumeric_eq hw)
      (by nofun) rfl (pure ht)
  | .assign op target value span => by
    have htarget := inferType ctx target
    have hvalue := inferType ctx value
    cases op with
    | define =>
      cases target with
      | ident n =>
        change C.Rel ([n.name].map .name ++ value.mentions) _ _ _
        refine naming fun hn => hvalue.andThen fun _ _ ht => ?_
        exact (usedAsValue ht value).seq fun _ _ ht =>
          defineByAssignment ctx (hn _ List.mem_cons_self) ht
      | _ =>
        rw [Check.inferType_define ctx (by simp), Check.inferType_define (C.context ctx) (by simp)]
        exact mono (defineOther _ hvalue) (List.sublist_append_right _ _)
    | assign | compound op =>
      rw [Check.inferType_assign ctx (by simp), Check.inferType_assign (C.context ctx) (by simp)]
      exact assignPlace _ span htarget hvalue
  | .call function args span => by
    have hargs := fun callee params params' (h : C.Params params params') =>
      checkArguments ctx callee 1 h args
    cases function with
    | ident n =>
      exact (namedSignature (.ident n) n).bind fun _ _ h => finishCall span h (hargs _)
    | member object property arrow memberSpan =>
      have hobject := inferType ctx object
      refine (packageOf? object).seq ?_
      rintro package? _ rfl
      cases package? with
      | some package =>
        refine mono ?_ (List.sublist_append_right _ _)
        exact (packageMember package property).seq fun
          | _, _, rfl => finishCall span (.inl rfl) (hargs _)
      | none =>
        refine hobject.bind fun _ _ ho => (memberType ho property).seq fun ty? ty?' h => ?_
        obtain rfl | ⟨hfades, rfl⟩ := h
        · cases ty?' with
          | some ty => exact (signatureOf (.inl rfl) _).seq fun _ _ h => finishCall span h (hargs _)
          | none => exact finishCall span (.inl rfl) (hargs _)
        · cases ty? with
          | some ty =>
            exact (signatureOf_left hfades _ ty).seq fun _ _ h => finishCall span h (hargs _)
          | none => exact finishCall span (.inl rfl) (hargs _)
    | templateInstance n typeArgs instanceSpan =>
      refine naming fun hnames => (instantiate hnames instanceSpan).seq ?_
      rintro i? _ rfl
      match i? with
      | some (.function sig) => exact finishCall span (.inl rfl) (hargs _)
      | some (.class_ name) =>
        exact (report (by nofun) _).seq fun _ _ _ => finishCall span (.inl rfl) (hargs _)
      | none => exact finishCall span (.inl rfl) (hargs _)
    | _ =>
      exact (inferType ctx _).bind fun _ _ ht => (signatureOf ht _).seq fun _ _ h =>
        finishCall span h (hargs _)
  | .index object key _ =>
    (inferType ctx object).bind fun _ _ ho => (inferType ctx key).andThen fun _ _ hk =>
      elementType ho hk object.span key.span
  | .member object property _ _ => by
    refine (packageOf? object).seq ?_
    rintro package? _ rfl
    cases package? with
    | some package => exact (packageMember package property).seq fun | _, _, rfl => pure (.inl rfl)
    | none =>
      exact (inferType ctx object).andThen fun _ _ ho => (memberType ho property).seq fun _ _ h =>
        pure h.getD
  | .array elements _ =>
    (inferElements ctx .none elements).andThen fun _ _ h => pure (Types.getD h).array
  | .hash entries _ =>
    (inferKeys ctx .none entries).bind fun _ _ hk => (inferValues ctx .none entries).andThen
      fun _ _ hv => pure (Types.map (Types.getD hk) (Types.getD hv))
  | .lambda params ret? body _ => by
    refine naming fun hnames => (resolveSignature [] hnames).seq ?_
    rintro sig _ rfl
    exact (checkFunction ctx hnames sig body).andThen fun _ _ _ => pure (.inl rfl)
  | .new type args span => by
    have hargs := fun callee (params : List Ty) =>
      checkArguments ctx callee 1 (.inl rfl : C.Params params params) args
    refine naming fun hnames => newClass hnames (pure (.inl rfl)) fun n hn => (resolve hn).seq ?_
    rintro _ _ (hs | _)
    · dsimp only
      rw [hs.kind, hs.isClassTemplate]
      refine ite (fun _ => scopes.seq fun t t' ht => ?_) fun _ => ?_
      · rw [ht.findMethod]
        exact (checkCount? _ (.inl rfl) _ _).seq fun _ _ _ => (hargs _ _).andThen
          fun _ _ _ => pure (.inl rfl)
      · exact refuse (by nofun) _ (.inl rfl)
    · exact (report (by nofun) _).seq fun _ _ _ => (hargs _ _).andThen fun _ _ _ => pure (.inl rfl)
  | .this span => (thisType ctx span).weaken fun | _, _, rfl => .inl rfl
  | .super span => (superType ctx span).weaken fun | _, _, rfl => .inl rfl
  | .templateInstance n typeArgs span => by
    refine assuming fun hnames => (instantiate (fun m hm => hnames m ?_) span).seq ?_
    · exact List.mem_map_of_mem hm
    rintro i _ rfl
    split <;> exact pure (.inl rfl)

theorem checkArguments (ctx : Context) (callee : String) (index : Nat) {params params' : List Ty}
    (hparams : C.Params params params') : (es : List Expr) → C.Rel (Expr.mentionsOfAll es) Eq
      (Check.checkArguments ctx callee index params es)
      (Check.checkArguments (C.context ctx) callee index params' es)
  | [] => pure rfl
  | e :: es => by
    refine (inferType ctx e).bind fun _ _ ht => (usedAsValue ht e).seq fun actual actual' ha => ?_
    have hrest := fun params params' (h : C.Params params params') =>
      checkArguments ctx callee (index + 1) h es
    obtain rfl | ⟨hfades, rfl⟩ := hparams
    · cases params' with
      | nil => exact hrest _ _ (.inl rfl)
      | cons param params =>
        refine assignable (.inl rfl) ha ?_ fun hfades b b' hle => ?_
        · rintro _ rfl b
          exact guard (by nofun) rfl (.inl ⟨rfl, rfl⟩) (hrest _ _ (.inl rfl))
        · refine guard (by nofun) rfl (.inr ⟨hfades, fun hc => ?_⟩) (hrest _ _ (.inl rfl))
          rw [Bool.and_eq_false_iff, Bool.not_eq_false', Bool.not_eq_false'] at hc ⊢
          exact hc.imp_right hle
    · cases params with
      | nil => exact hrest _ _ (.inl rfl)
      | cons param params =>
        refine assignable_left fun b => guard_left hfades rfl ?_
        exact hrest _ _ (.inr ⟨hfades, rfl⟩)

theorem inferElements (ctx : Context) {common? common?' : Option Ty}
    (h : Option.Rel C.Types common? common?') : (es : List Expr) →
      C.Rel (Expr.mentionsOfAll es) (Option.Rel C.Types) (Check.inferElements ctx common? es)
        (Check.inferElements (C.context ctx) common?' es)
  | [] => pure h
  | e :: es =>
    (inferType ctx e).bind fun _ _ ht => (commonType ht h e.span).seq fun _ _ hc =>
      inferElements ctx (.some hc) es

theorem inferKeys (ctx : Context) {common? common?' : Option Ty}
    (h : Option.Rel C.Types common? common?') : (es : List Entry) →
      C.Rel (Entry.mentionsOfKeys es) (Option.Rel C.Types) (Check.inferKeys ctx common? es)
        (Check.inferKeys (C.context ctx) common?' es)
  | [] => pure h
  | ⟨key, _⟩ :: es =>
    (inferType ctx key).bind fun _ _ ht => (commonType ht h key.span).seq fun _ _ hc =>
      inferKeys ctx (.some hc) es

theorem inferValues (ctx : Context) {common? common?' : Option Ty}
    (h : Option.Rel C.Types common? common?') : (es : List Entry) →
      C.Rel (Entry.mentionsOfValues es) (Option.Rel C.Types) (Check.inferValues ctx common? es)
        (Check.inferValues (C.context ctx) common?' es)
  | [] => pure h
  | ⟨_, value⟩ :: es =>
    (inferType ctx value).bind fun _ _ ht => (commonType ht h value.span).seq fun _ _ hc =>
      inferValues ctx (.some hc) es

theorem checkFunction (ctx : Context) {params : List Param} {ret? : Option TypeExpr}
    (h : ∀ n ∈ functionNames params ret?, C.names n) (sig : Signature) : (body : Block) →
      C.Rel body.mentions Eq (Check.checkFunction ctx params sig body)
        (Check.checkFunction (C.context ctx) params sig body)
  | ⟨stmts, _⟩ =>
    (pushScope _).seq fun _ _ _ => (declareParams h sig).seq fun _ _ _ =>
      (checkStmts (ctx.inFunction sig.ret) stmts).andThen fun _ _ _ => popScope

theorem checkStmts (ctx : Context) : (ss : List Stmt) →
    C.Rel (Stmt.mentionsOfAll ss) Eq (Check.checkStmts ctx ss) (Check.checkStmts (C.context ctx) ss)
  | [] => pure rfl
  | s :: ss => (checkStmt ctx s).bind fun _ _ _ => checkStmts ctx ss

theorem checkStmt (ctx : Context) : (s : Stmt) →
    C.Rel s.mentions Eq (Check.checkStmt ctx s) (Check.checkStmt (C.context ctx) s)
  | .package .. | .interface .. => pure rfl
  | .imports paths span => by
    refine assuming fun hnames => checkImports (fun path hpath => hnames _ ?_) span
    exact List.mem_map_of_mem hpath
  | .var name type? value? _ => by
    have hvalue := inferTypeIf ctx value?
    rw [Stmt.mentions, Check.checkStmt, Check.checkStmt]
    refine naming fun hnames => ?_
    obtain ⟨hn, htype⟩ := List.forall_mem_cons.1 hnames
    refine (declaredType htype).seq ?_
    rintro declared? _ rfl
    cases value? with
    | some value =>
      exact hvalue.andThen fun _ _ ht => (usedAsValue ht value).seq fun _ _ ht =>
        declareVariable ctx (.inl rfl) hn _ (.some ⟨ht, rfl⟩)
    | none => exact declareVariable ctx (.inl rfl) hn _ .none
  | .const name type? value _ => by
    refine naming fun hnames => ?_
    obtain ⟨hn, htype⟩ := List.forall_mem_cons.1 hnames
    refine (declaredType htype).seq ?_
    rintro declared? _ rfl
    exact (inferType ctx value).andThen fun _ _ ht => (usedAsValue ht value).seq fun _ _ ht =>
      declareVariable ctx (.inr rfl) hn _ (.some ⟨ht, rfl⟩)
  | .ret value? span => by
    have hvalue := inferTypeIf ctx value?
    cases value? with
    | some value => exact hvalue.andThen fun _ _ ht => returned ht ctx span
    | none => exact checkReturned ctx _ span
  | .expr e => (inferType ctx e).andThen fun _ _ _ => pure rfl
  | .block b => checkBlock ctx .block b
  | .ifElse condition consequence alternative? _ => by
    rw [Check.checkStmt_ifElse, Check.checkStmt_ifElse]
    exact (checkCondition (inferType ctx condition)).bind fun _ _ _ =>
      (checkBlock ctx .block consequence).bind fun _ _ _ => checkStmtIf ctx alternative?
  | .forLoop init? condition? post? body _ => by
    rw [Check.checkStmt_forLoop, Check.checkStmt_forLoop]
    exact (pushScope _).seq fun _ _ _ => (checkStmtIf ctx init?).bind fun _ _ _ =>
      (checkConditionIf ctx condition?).bind fun _ _ _ => (checkStmtIf ctx post?).bind fun _ _ _ =>
        (checkBlock { ctx with inLoop := true } .block body).andThen fun _ _ _ => popScope
  | .whileLoop condition body _ =>
    (inferType ctx condition).bind fun _ _ ht => (checkBool ht _).seq fun _ _ _ =>
      checkBlock { ctx with inLoop := true } .loop body
  | .switch tag? cases_ default? _ => by
    rw [Check.checkStmt_switch, Check.checkStmt_switch]
    exact (tagType ctx tag?).bind fun _ _ htag => (checkCaseValues ctx htag cases_).bind fun _ _ _ =>
      (checkCaseBodies { ctx with inSwitch := true } cases_).bind fun _ _ _ =>
        checkBlockIf { ctx with inSwitch := true } default?
  | .break_ span => ite (fun _ => report (by nofun) _) fun _ => pure rfl
  | .continue_ span => ite (fun _ => report (by nofun) _) fun _ => pure rfl
  | .function ⟨name, params, ret?, body, _, _⟩ => by
    rw [Check.checkStmt_function, Check.checkStmt_function]
    refine naming fun hnames => ?_
    obtain ⟨hn, hnames⟩ := List.forall_mem_cons.1 hnames
    refine (functionSignature hn hnames).seq ?_
    rintro sig _ rfl
    exact checkFunction ctx hnames sig body
  | .method ⟨receiver, name, params, ret?, body, span⟩ => by
    rw [Stmt.mentions, Check.checkStmt_method, Check.checkStmt_method]
    refine naming fun hnames => ?_
    obtain ⟨hreceiver, hnames⟩ := List.forall_mem_append.1 hnames
    obtain ⟨hn, htype⟩ := List.forall_mem_cons.1 hreceiver
    refine (methodSignature htype hnames).seq ?_
    rintro k _ rfl
    exact (openMethod hn k.1).seq fun _ _ _ =>
      (checkFunction (Check.methodContext ctx receiver) hnames k.2 body).andThen fun _ _ _ => popScope
  | .class_ ⟨name, extends?, implements, members, _⟩ => by
    refine naming fun hnames => (openClass hnames).seq ?_
    rintro info? _ rfl
    exact (checkMembers { ctx with class? := some name.name } info? members).andThen
      fun _ _ _ => popScope
  | .template typeParams body _ => by
    have hstmt := checkStmt ctx body
    have hparts := templateParts ctx body
    refine naming fun hnames => ?_
    cases body with
    | function f =>
      obtain ⟨name, params, ret?, body, modifiers, span⟩ := f
      rw [Stmt.mentions, Check.checkStmt_templateFunction, Check.checkStmt_templateFunction]
      refine naming fun hnames' => (openTemplate hnames).seq fun _ _ _ => ?_
      obtain ⟨hn, hnames'⟩ := List.forall_mem_cons.1 hnames'
      refine (templateSignature hn hnames').seq ?_
      rintro sig _ rfl
      exact (hparts sig hnames').andThen fun _ _ _ => popScope
    | class_ c =>
      obtain ⟨name, extends?, implements, members, span⟩ := c
      refine naming fun hnames' => (openTemplate hnames).seq fun _ _ _ => (openClass hnames').seq ?_
      rintro info? _ rfl
      exact (hparts { ctx with class? := some name.name } info?).andThen fun _ _ _ =>
        popScope.seq fun _ _ _ => popScope
    | _ => exact (openTemplate hnames).seq fun _ _ _ => hstmt.andThen fun _ _ _ => popScope
  | .tryCatch body catches finally? _ => by
    rw [Check.checkStmt_tryCatch, Check.checkStmt_tryCatch]
    exact (checkBlock ctx .block body).bind fun _ _ _ => (checkCatches ctx catches).bind fun _ _ _ =>
      checkBlockIf ctx finally?
  | .throw value _ => (inferType ctx value).andThen fun _ _ _ => pure rfl
  | .scope body _ => checkBlock ctx .block body

theorem inferTypeIf (ctx : Context) : (e? : Option Expr) → IfAny (fun e =>
    C.Rel e.mentions C.Types (Check.inferType ctx e) (Check.inferType (C.context ctx) e)) e?
  | some e => inferType ctx e
  | none => trivial

theorem checkStmtIf (ctx : Context) : (s? : Option Stmt) →
    C.Rel (Stmt.mentionsIf s?) Eq (Check.checkStmtIf ctx s?) (Check.checkStmtIf (C.context ctx) s?)
  | some s => checkStmt ctx s
  | none => pure rfl

theorem checkConditionIf (ctx : Context) : (e? : Option Expr) →
    C.Rel (Expr.mentionsIf e?) Eq (Check.checkConditionIf ctx e?)
      (Check.checkConditionIf (C.context ctx) e?)
  | some e => checkCondition (inferType ctx e)
  | none => pure rfl

theorem checkBlockIf (ctx : Context) : (b? : Option Block) →
    C.Rel (Block.mentionsIf b?) Eq (Check.checkBlockIf ctx b?)
      (Check.checkBlockIf (C.context ctx) b?)
  | some b => checkBlock ctx .block b
  | none => pure rfl

theorem tagType (ctx : Context) : (tag? : Option Expr) →
    C.Rel (Expr.mentionsIf tag?) (Option.Rel C.Types) (Check.tagType ctx tag?)
      (Check.tagType (C.context ctx) tag?)
  | some tag => (inferType ctx tag).andThen fun _ _ ht => pure (.some ht)
  | none => pure .none

theorem templateParts (ctx : Context) : (s : Stmt) → TemplateParts C ctx s
  | .function ⟨_, _, _, body, _, _⟩ => fun sig hnames => checkFunction ctx hnames sig body
  | .class_ ⟨_, _, _, members, _⟩ => fun ctx info? => checkMembers ctx info? members
  | .package .. | .imports .. | .var .. | .const .. | .ret .. | .expr .. | .block .. | .ifElse ..
  | .forLoop .. | .whileLoop .. | .switch .. | .break_ .. | .continue_ .. | .method .. => trivial
  | .interface .. | .template .. | .tryCatch .. | .throw .. | .scope .. => trivial

theorem checkBlock (ctx : Context) (kind : ScopeKind) : (b : Block) →
    C.Rel b.mentions Eq (Check.checkBlock ctx kind b) (Check.checkBlock (C.context ctx) kind b)
  | ⟨stmts, _⟩ =>
    (pushScope kind).seq fun _ _ _ => (checkStmts ctx stmts).andThen fun _ _ _ => popScope

theorem checkTagged (ctx : Context) {tag? tag?' : Option Ty} (htag : Option.Rel C.Types tag? tag?') :
    (es : List Expr) → C.Rel (Expr.mentionsOfAll es) Eq (Check.checkTagged ctx tag? es)
      (Check.checkTagged (C.context ctx) tag?' es)
  | [] => pure rfl
  | e :: es => by
    refine (inferType ctx e).bind fun _ _ ht => ?_
    have hrest := checkTagged ctx htag es
    cases htag with
    | some htag => exact (checkAssignable htag ht _).seq fun _ _ _ => hrest
    | none => exact (checkBool ht _).seq fun _ _ _ => hrest

theorem checkCaseValues (ctx : Context) {tag? tag?' : Option Ty}
    (htag : Option.Rel C.Types tag? tag?') : (cs : List Case) →
      C.Rel (Case.mentionsOfValues cs) Eq (Check.checkCaseValues ctx tag? cs)
        (Check.checkCaseValues (C.context ctx) tag?' cs)
  | [] => pure rfl
  | ⟨values, _, _⟩ :: cs =>
    (checkTagged ctx htag values).bind fun _ _ _ => checkCaseValues ctx htag cs

theorem checkCaseBodies (ctx : Context) : (cs : List Case) →
    C.Rel (Case.mentionsOfBodies cs) Eq (Check.checkCaseBodies ctx cs)
      (Check.checkCaseBodies (C.context ctx) cs)
  | [] => pure rfl
  | ⟨_, body, _⟩ :: cs => (checkBlock ctx .block body).bind fun _ _ _ => checkCaseBodies ctx cs

theorem checkCatches (ctx : Context) : (cs : List Catch) →
    C.Rel (Catch.mentionsOfAll cs) Eq (Check.checkCatches ctx cs)
      (Check.checkCatches (C.context ctx) cs)
  | [] => pure rfl
  | ⟨param?, type?, ⟨stmts, _⟩, _⟩ :: cs => by
    rw [Check.checkCatches_cons, Check.checkCatches_cons]
    refine naming fun hnames => ?_
    obtain ⟨hparam, htype⟩ := List.forall_mem_append.1 hnames
    have hcatch : ∀ p ∈ param?, C.names p.name := fun p hp =>
      hparam _ (List.mem_map_of_mem (Option.mem_toList.2 hp))
    exact (openCatch hcatch htype).seq fun _ _ _ => (checkStmts ctx stmts).bind fun _ _ _ =>
      popScope.seq fun _ _ _ => checkCatches ctx cs

theorem checkMembers (ctx : Context) (info? : Option ClassInfo) : (ms : List Member) →
    C.Rel (Member.mentionsOfAll ms) Eq (Check.checkMembers ctx info? ms)
      (Check.checkMembers (C.context ctx) info? ms)
  | [] => pure rfl
  | .field ⟨name, type?, value?, _, _, _⟩ :: ms => by
    have hvalue := inferTypeIf ctx value?
    have hrest := checkMembers ctx info? ms
    refine naming fun _ => ?_
    cases value? with
    | some value =>
      exact hvalue.bind fun _ _ ht => (usedAsValue ht value).seq fun _ _ ht =>
        (checkAssignable (.inl rfl) ht _).seq fun _ _ _ => hrest
    | none => exact hrest
  | .method ⟨name, params, ret?, body, _, _⟩ :: ms => by
    rw [Check.checkMembers_method, Check.checkMembers_method]
    refine naming fun hnames => (memberSignature info? hnames).seq ?_
    rintro sig _ rfl
    exact (checkFunction ctx hnames sig body).bind fun _ _ _ => checkMembers ctx info? ms

end

end Rel

end Comparison

end ClassLang
