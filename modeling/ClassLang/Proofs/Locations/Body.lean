import ClassLang.Proofs.Locations.Steps

/-!
# Bodies are located

The walk over expressions and statements, for nodes of a source: every part notes spans of its own
nodes only, or spans that were noted before.
-/

namespace ClassLang

variable {source : String}

namespace Check.Locates

/-- What is said of the parts of a template's body. -/
def TemplateParts (source : String) (ctx : Context) : Stmt → Prop
  | .function f => ∀ sig, Locates source (Check.checkFunction ctx f.params sig f.body)
  | .class_ c => ∀ ctx info?, Locates source (Check.checkMembers ctx info? c.members)
  | _ => True

theorem storedType (op : AssignOp) (target value : Ty) {span : Span} (h : span.Placed source) :
    Locates source (Check.storedType op target value span) := by
  cases op with
  | compound op => exact binaryResult op target value h
  | define | assign => exact pure _

theorem assignPlace {ctx : Context} (op : AssignOp) {target value : Expr} {span : Span}
    (ht : (Node.expr target).Sound source) (hv : (Node.expr value).Sound source)
    (h : span.Placed source) (htarget : Locates source (Check.inferType ctx target))
    (hvalue : Locates source (Check.inferType ctx value)) :
    Locates source (Check.assignPlace ctx op target value span) := by
  refine bind (checkTarget ht) fun place => ?_
  split
  · exact bind htarget fun t => bind hvalue fun v => bind (usedAsValue hv v) fun v =>
      bind (storedType op t v h) fun v => bind (checkAssignable t v hv.placed) fun _ => pure _
  · exact bind hvalue fun _ => pure _

theorem defineOther {ctx : Context} {target value : Expr} (ht : (Node.expr target).Sound source)
    (hv : (Node.expr value).Sound source) (hvalue : Locates source (Check.inferType ctx value)) :
    Locates source (Check.defineOther ctx target value) :=
  bind hvalue fun ty => bind (usedAsValue hv ty) fun _ => bind (report ht.placed rfl) fun _ => pure _

theorem finishCall {ctx : Context} (callee : String) {args : List Expr} {span : Span}
    (h : span.Placed source)
    (hargs : ∀ params, Locates source (checkArguments ctx callee 1 params args))
    (sig? : Option Signature) : Locates source (Check.finishCall ctx callee args span sig?) :=
  bind (checkCount? _ _ _ h) fun _ => bind (hargs _) fun _ => pure _

theorem checkCondition {ctx : Context} {e : Expr} (h : Locates source (Check.inferType ctx e))
    (hspan : e.span.Placed source) : Locates source (Check.checkCondition ctx e) :=
  bind h fun ty => checkBool ty hspan

mutual

theorem inferType (ctx : Context) :
    (e : Expr) → (Node.expr e).Sound source → Locates source (Check.inferType ctx e)
  | .ident n, h => identifierType (h.children _ List.mem_cons_self)
  | .int .., _ | .float .., _ | .string .., _ | .char .., _ | .bool .., _ | .null _, _ => pure _
  | .prefixed op right span, h => by
    have hright := inferType ctx right (h.children _ List.mem_cons_self)
    refine bind hright fun operand => ?_
    cases op
    all_goals
      dsimp only
      split
      · exact bind (report h.placed rfl) fun _ => pure _
      · exact pure _
  | .binary op left right span, h => by
    have hparts := h.children
    simp only [Node.children, Expr.parts, List.forall_mem_cons] at hparts
    exact bind (inferType ctx left hparts.1) fun l => bind (inferType ctx right hparts.2.1) fun r =>
      binaryResult op l r h.placed
  | .postfixed op operand span, h => by
    have hoperand := h.children _ List.mem_cons_self
    refine bind (inferType ctx operand hoperand) fun ty => bind (checkTarget hoperand) fun _ => ?_
    dsimp only
    split
    · exact bind (report h.placed rfl) fun _ => pure _
    · exact pure _
  | .assign op target value span, h => by
    have hparts := h.children
    simp only [Node.children, Expr.parts, List.forall_mem_cons] at hparts
    have htarget := inferType ctx target hparts.1
    have hvalue := inferType ctx value hparts.2.1
    cases op with
    | define =>
      cases target with
      | ident n =>
        have hname := hparts.1.children _ List.mem_cons_self
        exact bind hvalue fun ty => bind (usedAsValue hparts.2.1 ty) fun ty =>
          defineByAssignment ctx hname ty
      | _ =>
        rw [inferType_define ctx (by simp)]
        exact defineOther hparts.1 hparts.2.1 hvalue
    | assign | compound op =>
      rw [inferType_assign ctx (by simp)]
      exact assignPlace _ hparts.1 hparts.2.1 h.placed htarget hvalue
  | .call function args span, h => by
    have hfunction := h.children (.expr function) List.mem_cons_self
    have hargs : ∀ e ∈ args, (Node.expr e).Sound source := fun e he =>
      h.children _ (List.mem_cons_of_mem _ (List.mem_map_of_mem he))
    have hend := fun callee => finishCall callee h.placed fun params =>
      checkArguments ctx callee 1 params args hargs
    cases function with
    | ident n => exact bind (namedSignature hfunction) (hend _)
    | member object property arrow memberSpan =>
      have hparts := hfunction.children
      simp only [Node.children, Expr.parts, List.forall_mem_cons] at hparts
      refine bind (packageOf? object) fun package? => ?_
      cases package? with
      | some package => exact bind (packageMember package hparts.2.1) (hend _)
      | none =>
        refine bind (inferType ctx object hparts.1) fun o =>
          bind (memberType o hparts.2.1) fun ty? => ?_
        cases ty? with
        | some ty => exact bind (signatureOf hfunction ty) (hend _)
        | none => exact hend _ none
    | templateInstance n typeArgs instanceSpan =>
      refine bind (instantiate hfunction) fun i? => ?_
      match i? with
      | some (.function sig) => exact hend _ (some sig)
      | some (.class_ name) => exact bind (report hfunction.placed rfl) fun _ => hend _ none
      | none => exact hend _ none
    | _ => exact bind (inferType ctx _ hfunction) fun ty => bind (signatureOf hfunction ty) (hend _)
  | .index object key _, h => by
    have hparts := h.children
    simp only [Node.children, Expr.parts, List.forall_mem_cons] at hparts
    refine bind (inferType ctx object hparts.1) fun o =>
      bind (inferType ctx key hparts.2.1) fun k => ?_
    have hindexed : ∀ expected result : Ty, Locates source (do
        if !(← Check.assignable expected k) then
          Check.report (.invalidIndex expected k) key.span
        return result) := by
      intro expected result
      refine bind (assignable _ _) fun fits => ?_
      dsimp only
      split
      · exact bind (report hparts.2.1.placed rfl) fun _ => pure _
      · exact pure _
    dsimp only
    split
    · exact hindexed _ _
    · exact hindexed _ _
    · split
      · exact hindexed _ _
      · split
        · exact bind (report hparts.1.placed rfl) fun _ => pure _
        · exact pure _
  | .member object property _ _, h => by
    have hparts := h.children
    simp only [Node.children, Expr.parts, List.forall_mem_cons] at hparts
    refine bind (packageOf? object) fun package? => ?_
    cases package? with
    | some package => exact bind (packageMember package hparts.2.1) fun _ => pure _
    | none =>
      exact bind (inferType ctx object hparts.1) fun o => bind (memberType o hparts.2.1) fun _ =>
        pure _
  | .array elements _, h =>
    bind (inferElements ctx none elements fun e he => h.children _ (List.mem_map_of_mem he))
      fun _ => pure _
  | .hash entries _, h => by
    have hparts := h.children
    simp only [Node.children, Expr.parts, List.forall_mem_flatMap, List.forall_mem_cons] at hparts
    exact bind (inferKeys ctx none entries fun e he => (hparts e he).1) fun _ =>
      bind (inferValues ctx none entries fun e he => (hparts e he).2.1) fun _ => pure _
  | .lambda params ret? body _, h => by
    have hparts := h.children
    simp only [Node.children, Expr.parts, List.forall_mem_append, List.forall_mem_map,
      List.forall_mem_cons, Option.mem_toList] at hparts
    obtain ⟨⟨hparams, hret⟩, hbody, -⟩ := hparts
    exact bind (resolveSignature [] hparams hret) fun sig =>
      bind (checkFunction ctx params sig hparams body hbody) fun _ => pure _
  | .new type args span, h => by
    have hparts := h.children
    simp only [Node.children, Expr.parts, List.forall_mem_cons, List.forall_mem_map] at hparts
    have hargs := fun callee params => checkArguments ctx callee 1 params args hparts.2
    refine newClass hparts.1 (pure _) fun n hn => bind (resolve _) fun s? => ?_
    cases s? with
    | none =>
      exact bind (report hn.placed rfl) fun _ => bind (hargs _ []) fun _ => pure _
    | some s =>
      dsimp only
      split
      · exact bind scopes fun t => bind (checkCount? _ _ _ h.placed) fun _ =>
          bind (hargs _ _) fun _ => pure _
      · exact bind (report hn.placed rfl) fun _ => pure _
  | .this span, h => thisType ctx h.placed
  | .super span, h => superType ctx h.placed
  | .templateInstance n typeArgs span, h => by
    refine bind (instantiate h) fun i => ?_
    split <;> exact pure _

theorem checkArguments (ctx : Context) (callee : String) (index : Nat) (params : List Ty) :
    (args : List Expr) → (∀ e ∈ args, (Node.expr e).Sound source) →
      Locates source (Check.checkArguments ctx callee index params args)
  | [], _ => pure _
  | e :: es, h => by
    have he := h e List.mem_cons_self
    have hrest := fun params => checkArguments ctx callee (index + 1) params es fun e' he' =>
      h e' (List.mem_cons_of_mem e he')
    refine bind (inferType ctx e he) fun ty => bind (usedAsValue he ty) fun actual => ?_
    cases params with
    | nil => exact hrest _
    | cons param params =>
      refine bind (assignable _ _) fun fits => ?_
      split
      · exact bind (report he.placed rfl) fun _ => hrest _
      · exact hrest _

theorem inferElements (ctx : Context) (common? : Option Ty) :
    (es : List Expr) → (∀ e ∈ es, (Node.expr e).Sound source) →
      Locates source (Check.inferElements ctx common? es)
  | [], _ => pure _
  | e :: es, h =>
    bind (inferType ctx e (h e List.mem_cons_self)) fun ty =>
      bind (commonType common? ty (h e List.mem_cons_self).placed) fun common =>
        inferElements ctx (some common) es fun e' he' => h e' (List.mem_cons_of_mem e he')

theorem inferKeys (ctx : Context) (common? : Option Ty) :
    (es : List Entry) → (∀ e ∈ es, (Node.expr e.key).Sound source) →
      Locates source (Check.inferKeys ctx common? es)
  | [], _ => pure _
  | ⟨key, value⟩ :: es, h =>
    bind (inferType ctx key (h ⟨key, value⟩ List.mem_cons_self)) fun ty =>
      bind (commonType common? ty (h ⟨key, value⟩ List.mem_cons_self).placed) fun common =>
        inferKeys ctx (some common) es fun e' he' => h e' (List.mem_cons_of_mem _ he')

theorem inferValues (ctx : Context) (common? : Option Ty) :
    (es : List Entry) → (∀ e ∈ es, (Node.expr e.value).Sound source) →
      Locates source (Check.inferValues ctx common? es)
  | [], _ => pure _
  | ⟨key, value⟩ :: es, h =>
    bind (inferType ctx value (h ⟨key, value⟩ List.mem_cons_self)) fun ty =>
      bind (commonType common? ty (h ⟨key, value⟩ List.mem_cons_self).placed) fun common =>
        inferValues ctx (some common) es fun e' he' => h e' (List.mem_cons_of_mem _ he')

theorem checkFunction (ctx : Context) (params : List Param) (sig : Signature)
    (hparams : ∀ p ∈ params, (Node.param p).Sound source) : (body : Block) →
      (Node.block body).Sound source → Locates source (Check.checkFunction ctx params sig body)
  | ⟨stmts, _⟩, h =>
    bind (pushScope _) fun _ => bind (declareParams hparams sig) fun _ =>
      bind (checkStmts _ stmts fun _ hs => h.children _ (List.mem_map_of_mem hs)) fun _ => popScope

theorem checkStmts (ctx : Context) : (ss : List Stmt) →
    (∀ s ∈ ss, (Node.stmt s).Sound source) → Locates source (Check.checkStmts ctx ss)
  | [], _ => pure _
  | s :: ss, h =>
    bind (checkStmt ctx s (h s List.mem_cons_self)) fun _ =>
      checkStmts ctx ss fun s' hs' => h s' (List.mem_cons_of_mem s hs')

theorem checkStmt (ctx : Context) :
    (s : Stmt) → (Node.stmt s).Sound source → Locates source (Check.checkStmt ctx s)
  | .package .., _ | .interface .., _ => pure _
  | .imports paths span, h => checkImports paths h.placed
  | .var name type? value? _, h => by
    have hparts := h.children
    simp only [Node.children, Stmt.parts, List.forall_mem_append, List.forall_mem_cons,
      List.forall_mem_map, Option.mem_toList] at hparts
    obtain ⟨⟨hname, htype⟩, hvalue⟩ := hparts
    have hinfer := inferTypeIf ctx value? hvalue
    rw [Check.checkStmt]
    refine bind (declaredType htype) fun declared? => ?_
    cases value? with
    | some value =>
      have hspan := (hvalue value rfl).placed
      refine bind (hinfer value rfl) fun ty => bind (usedAsValue (hvalue value rfl) ty) fun _ => ?_
      exact declareVariable ctx _ hname _ fun v hv => Option.some.inj hv ▸ hspan
    | none => exact declareVariable ctx _ hname _ nofun
  | .const name type? value _, h => by
    have hparts := h.children
    simp only [Node.children, Stmt.parts, List.forall_mem_append, List.forall_mem_cons,
      List.forall_mem_map, Option.mem_toList] at hparts
    obtain ⟨⟨hname, htype⟩, hvalue, -⟩ := hparts
    refine bind (declaredType htype) fun _ => bind (inferType ctx value hvalue) fun ty =>
      bind (usedAsValue hvalue ty) fun _ => ?_
    exact declareVariable ctx _ hname _ fun v hv => Option.some.inj hv ▸ hvalue.placed
  | .ret value? span, h => by
    have hvalue := inferTypeIf ctx value? fun e he =>
      h.children _ (List.mem_map_of_mem (Option.mem_toList.2 he))
    cases value? with
    | some value =>
      exact bind (hvalue value rfl) fun ty => bind (judge _) fun _ => checkReturned ctx ty h.placed
    | none => exact checkReturned ctx _ h.placed
  | .expr e, h => bind (inferType ctx e (h.children _ List.mem_cons_self)) fun _ => pure _
  | .block b, h => checkBlock ctx .block b (h.children _ List.mem_cons_self)
  | .ifElse condition consequence alternative? _, h => by
    have hparts := h.children
    simp only [Node.children, Stmt.parts, List.forall_mem_cons, List.forall_mem_map,
      Option.mem_toList] at hparts
    obtain ⟨hcondition, hconsequence, halternative⟩ := hparts
    have hfalse := checkStmtIf ctx alternative? halternative
    rw [checkStmt_ifElse]
    exact bind (checkCondition (inferType ctx condition hcondition) hcondition.placed) fun _ =>
      bind (checkBlock ctx .block consequence hconsequence) fun _ => hfalse
  | .forLoop init? condition? post? body _, h => by
    have hparts := h.children
    simp only [Node.children, Stmt.parts, List.forall_mem_append, List.forall_mem_cons,
      List.forall_mem_map, Option.mem_toList] at hparts
    obtain ⟨⟨⟨hinit, hcondition⟩, hpost⟩, hbody, -⟩ := hparts
    have htype := inferTypeIf ctx condition? hcondition
    have htest : Locates source (Check.checkConditionIf ctx condition?) := by
      cases condition? with
      | some condition => exact checkCondition (htype _ rfl) (hcondition _ rfl).placed
      | none => exact pure _
    rw [checkStmt_forLoop]
    exact bind (pushScope _) fun _ => bind (checkStmtIf ctx init? hinit) fun _ =>
      bind htest fun _ => bind (checkStmtIf ctx post? hpost) fun _ =>
        bind (checkBlock _ .block body hbody) fun _ => popScope
  | .whileLoop condition body _, h => by
    have hparts := h.children
    simp only [Node.children, Stmt.parts, List.forall_mem_cons] at hparts
    exact bind (inferType ctx condition hparts.1) fun ty => bind (checkBool ty hparts.1.placed)
      fun _ => checkBlock _ .loop body hparts.2.1
  | .switch tag? cases_ default? _, h => by
    have hparts := h.children
    simp only [Node.children, Stmt.parts, List.forall_mem_append, List.forall_mem_map,
      Option.mem_toList] at hparts
    obtain ⟨⟨htag, hcases⟩, hdefault⟩ := hparts
    have htype := inferTypeIf ctx tag? htag
    have htagType : Locates source (Check.tagType ctx tag?) := by
      cases tag? with
      | some tag => exact bind (htype tag rfl) fun _ => pure _
      | none => exact pure _
    have hrest := checkBlockIf { ctx with inSwitch := true } default? hdefault
    rw [checkStmt_switch]
    exact bind htagType fun ty? => bind (checkCaseValues ctx ty? cases_ hcases) fun _ =>
      bind (checkCaseBodies _ cases_ hcases) fun _ => hrest
  | .break_ span, h => onlyIf (report h.placed rfl)
  | .continue_ span, h => onlyIf (report h.placed rfl)
  | .function ⟨name, params, ret?, body, modifiers, span⟩, h => by
    have hparts := (h.children (.function _) List.mem_cons_self).children
    simp only [Node.children, List.forall_mem_append, List.forall_mem_cons, List.forall_mem_map,
      Option.mem_toList] at hparts
    obtain ⟨⟨⟨-, hparams⟩, hret⟩, hbody, -⟩ := hparts
    have hchecked := fun sig => checkFunction ctx params sig hparams body hbody
    rw [checkStmt_function]
    exact bind (functionSignature hparams hret) hchecked
  | .method ⟨receiver, name, params, ret?, body, span⟩, h => by
    have hparts := (h.children (.method _) List.mem_cons_self).children
    simp only [Node.children, List.forall_mem_append, List.forall_mem_cons, List.forall_mem_map,
      Option.mem_toList] at hparts
    obtain ⟨⟨⟨hreceiver, -, hparams⟩, hret⟩, hbody, -⟩ := hparts
    have hchecked := fun ctx sig => checkFunction ctx params sig hparams body hbody
    rw [checkStmt_method]
    exact bind (methodSignature hreceiver hparams hret) fun k =>
      bind (openMethod hreceiver k.1) fun _ => bind (hchecked _ k.2) fun _ => popScope
  | .class_ ⟨name, extends?, implements, members, span⟩, h => by
    have hclass := h.children (.class_ _) List.mem_cons_self
    have hmembers : ∀ m ∈ members, (Node.ofMember m).Sound source := fun m hm =>
      hclass.children _ (List.mem_append_right _ (List.mem_map_of_mem hm))
    have hopen := openClass hclass
    exact bind hopen fun info? => bind (checkMembers _ info? members hmembers) fun _ => popScope
  | .template typeParams body _, h => by
    have hparts := h.children
    simp only [Node.children, Stmt.parts, List.forall_mem_append, List.forall_mem_cons,
      List.forall_mem_map] at hparts
    obtain ⟨htypeParams, hbody, -⟩ := hparts
    have hstmt := checkStmt ctx body hbody
    have hinside := templateParts ctx body hbody
    have hopen := openTemplate htypeParams
    cases body with
    | function f =>
      have hparts := (hbody.children (.function f) List.mem_cons_self).children
      simp only [Node.children, List.forall_mem_append, List.forall_mem_cons, List.forall_mem_map,
        Option.mem_toList] at hparts
      rw [checkStmt_templateFunction]
      exact bind hopen fun _ => bind (templateSignature hparts.1.1.2 hparts.1.2) fun sig =>
        bind (hinside sig) fun _ => popScope
    | class_ c =>
      have hclass := openClass (hbody.children (.class_ c) List.mem_cons_self)
      obtain ⟨name, extends?, implements, members, span⟩ := c
      exact bind hopen fun _ => bind hclass fun info? => bind (hinside _ info?) fun _ =>
        bind popScope fun _ => popScope
    | _ => exact bind hopen fun _ => bind hstmt fun _ => popScope
  | .tryCatch body catches finally? _, h => by
    have hparts := h.children
    simp only [Node.children, Stmt.parts, List.forall_mem_append, List.forall_mem_cons,
      List.forall_mem_map, Option.mem_toList] at hparts
    obtain ⟨⟨hbody, hcatches⟩, hfinally⟩ := hparts
    have hrest := checkBlockIf ctx finally? hfinally
    rw [checkStmt_tryCatch]
    exact bind (checkBlock ctx .block body hbody) fun _ =>
      bind (checkCatches ctx catches hcatches) fun _ => hrest
  | .throw value _, h => bind (inferType ctx value (h.children _ List.mem_cons_self)) fun _ => pure _
  | .scope body _, h => checkBlock ctx .block body (h.children _ List.mem_cons_self)

theorem templateParts (ctx : Context) : (s : Stmt) → (Node.stmt s).Sound source →
    TemplateParts source ctx s
  | .function ⟨_, params, _, body, _, _⟩, h => by
    have hparts := (h.children (.function _) List.mem_cons_self).children
    simp only [Node.children, List.forall_mem_append, List.forall_mem_cons, List.forall_mem_map,
      Option.mem_toList] at hparts
    exact fun sig => checkFunction ctx params sig hparts.1.1.2 body hparts.2.1
  | .class_ ⟨_, _, _, members, _⟩, h => by
    have hclass := h.children (.class_ _) List.mem_cons_self
    have hmembers : ∀ m ∈ members, (Node.ofMember m).Sound source := fun m hm =>
      hclass.children _ (List.mem_append_right _ (List.mem_map_of_mem hm))
    exact fun ctx info? => checkMembers ctx info? members hmembers
  | .package .., _ | .imports .., _ | .var .., _ | .const .., _ | .ret .., _ | .expr .., _
  | .block .., _ | .ifElse .., _ | .forLoop .., _ | .whileLoop .., _ | .switch .., _ | .break_ .., _
  | .continue_ .., _ | .method .., _ | .interface .., _ | .template .., _ | .tryCatch .., _
  | .throw .., _ | .scope .., _ => trivial

theorem inferTypeIf (ctx : Context) : (e? : Option Expr) →
    (∀ e ∈ e?, (Node.expr e).Sound source) → ∀ e ∈ e?, Locates source (Check.inferType ctx e)
  | some e, h => fun _ he' => Option.some.inj he' ▸ inferType ctx e (h e rfl)
  | none, _ => nofun

theorem checkStmtIf (ctx : Context) : (s? : Option Stmt) →
    (∀ s ∈ s?, (Node.stmt s).Sound source) → Locates source (Check.checkStmtIf ctx s?)
  | some s, h => checkStmt ctx s (h s rfl)
  | none, _ => pure _

theorem checkBlock (ctx : Context) (kind : ScopeKind) : (b : Block) →
    (Node.block b).Sound source → Locates source (Check.checkBlock ctx kind b)
  | ⟨stmts, _⟩, h =>
    bind (pushScope kind) fun _ =>
      bind (checkStmts ctx stmts fun _ hs => h.children _ (List.mem_map_of_mem hs)) fun _ => popScope

theorem checkBlockIf (ctx : Context) : (b? : Option Block) →
    (∀ b ∈ b?, (Node.block b).Sound source) → Locates source (Check.checkBlockIf ctx b?)
  | some b, h => checkBlock ctx .block b (h b rfl)
  | none, _ => pure _

theorem checkTagged (ctx : Context) (tag? : Option Ty) : (es : List Expr) →
    (∀ e ∈ es, (Node.expr e).Sound source) → Locates source (Check.checkTagged ctx tag? es)
  | [], _ => pure _
  | e :: es, h => by
    have he := h e List.mem_cons_self
    have hrest := checkTagged ctx tag? es fun e' he' => h e' (List.mem_cons_of_mem e he')
    refine bind (inferType ctx e he) fun ty => ?_
    cases tag? with
    | some tag => exact bind (checkAssignable tag ty he.placed) fun _ => hrest
    | none => exact bind (checkBool ty he.placed) fun _ => hrest

theorem checkCaseValues (ctx : Context) (tag? : Option Ty) : (cs : List Case) →
    (∀ c ∈ cs, (Node.case_ c).Sound source) → Locates source (Check.checkCaseValues ctx tag? cs)
  | [], _ => pure _
  | ⟨values, body, span⟩ :: cs, h =>
    bind (checkTagged ctx tag? values fun _ he => (h ⟨values, body, span⟩ List.mem_cons_self).children
      _ (List.mem_append_left _ (List.mem_map_of_mem he))) fun _ =>
        checkCaseValues ctx tag? cs fun c hc => h c (List.mem_cons_of_mem _ hc)

theorem checkCaseBodies (ctx : Context) : (cs : List Case) →
    (∀ c ∈ cs, (Node.case_ c).Sound source) → Locates source (Check.checkCaseBodies ctx cs)
  | [], _ => pure _
  | ⟨values, body, span⟩ :: cs, h =>
    bind (checkBlock ctx .block body ((h ⟨values, body, span⟩ List.mem_cons_self).children
      _ (List.mem_append_right _ List.mem_cons_self))) fun _ =>
        checkCaseBodies ctx cs fun c hc => h c (List.mem_cons_of_mem _ hc)

theorem checkCatches (ctx : Context) : (cs : List Catch) →
    (∀ c ∈ cs, (Node.catch_ c).Sound source) → Locates source (Check.checkCatches ctx cs)
  | [], _ => pure _
  | ⟨param?, type?, ⟨stmts, bodySpan⟩, span⟩ :: cs, h => by
    have hcatch := h _ List.mem_cons_self
    have hbody := hcatch.children (.block ⟨stmts, bodySpan⟩)
      (List.mem_append_right _ List.mem_cons_self)
    have hstmts := checkStmts ctx stmts fun s hs => hbody.children _ (List.mem_map_of_mem hs)
    have hrest := checkCatches ctx cs fun c hc => h c (List.mem_cons_of_mem _ hc)
    rw [checkCatches_cons]
    exact bind (openCatch hcatch) fun _ => bind hstmts fun _ => bind popScope fun _ => hrest

theorem checkMembers (ctx : Context) (info? : Option ClassInfo) : (ms : List Member) →
    (∀ m ∈ ms, (Node.ofMember m).Sound source) → Locates source (Check.checkMembers ctx info? ms)
  | [], _ => pure _
  | .field ⟨name, type?, value?, isConst, modifiers, span⟩ :: ms, h => by
    have hrest := checkMembers ctx info? ms fun m hm => h m (List.mem_cons_of_mem _ hm)
    have hparts := (h _ List.mem_cons_self).children
    simp only [Node.ofMember, Node.children, List.forall_mem_append, List.forall_mem_map,
      Option.mem_toList] at hparts
    have hvalue := inferTypeIf ctx value? hparts.2
    cases value? with
    | some value =>
      exact bind (hvalue value rfl) fun ty => bind (usedAsValue (hparts.2 value rfl) ty) fun _ =>
        bind (checkAssignable _ _ (hparts.2 value rfl).placed) fun _ => hrest
    | none => exact hrest
  | .method ⟨name, params, ret?, body, modifiers, span⟩ :: ms, h => by
    have hrest := checkMembers ctx info? ms fun m hm => h m (List.mem_cons_of_mem _ hm)
    have hparts := (h _ List.mem_cons_self).children
    simp only [Node.ofMember, Node.children, List.forall_mem_append, List.forall_mem_cons,
      List.forall_mem_map, Option.mem_toList] at hparts
    obtain ⟨⟨⟨-, hparams⟩, hret⟩, hbody, -⟩ := hparts
    have hchecked := fun sig => checkFunction ctx params sig hparams body hbody
    rw [checkMembers_method]
    exact bind (memberSignature info? hparams hret) fun sig => bind (hchecked sig) fun _ => hrest

end

end Check.Locates

end ClassLang
