import ClassLang.Proofs.Lowering.Function

/-!
# Bodies

The code of every expression evaluates and the code of every statement performs. The proofs go down
the tree as the code does; detours are sound because they may be nested only so deep.
-/

namespace ClassLang.Draft

open Ir (Value)

variable {d : Draft} {env : Env} {detour : Lower.Detour}

/-! ## Parts that do not go down the tree -/

theorem yields_newClass (type : TypeExpr) :
    Yields (Lower.newClass env type) d fun _ _ => True := by
  have hreport : ∀ cls? : Option String, Yields (do
      if cls?.isNone then Gen.report (.notAClass type.text) type.span
      return cls? : Lower (Option String)) d fun _ _ => True := by
    intro cls?
    split
    · exact .bind_lift (Gen.keeps_report _ _ (by simp)) fun _ => .pure trivial
    · exact .pure trivial
  refine .bind_lift (Gen.keeps_resolveType (Gen.sound_typing _ _) type) fun _ => ?_
  split
  · exact .bind_lift (Gen.keeps_hasLayout _) fun _ => hreport _
  · exact hreport none

theorem yields_initFields (hdetour : SoundDetour detour) (henv : d.HasThis env) (cls : String)
    {object : Value} (ho : d.Carries object) (index : Nat) (fs : List FieldSlot) :
    Yields (Lower.initFields detour env cls object index fs) d fun _ _ => True := by
  induction fs generalizing d index with
  | nil => exact .pure trivial
  | cons f fs ih =>
    have hrest : ∀ v d', d ≤ d' → d'.Carries v → Yields (do
        let ptr ← Lower.structMember cls object index
        Lower.store v ptr
        Lower.initFields detour env cls object (index + 1) fs) d' fun _ _ => True := by
      intro v d₁ hle₁ hv
      refine (Yields.structMember (ho.mono hle₁) cls index).bind fun ptr d₂ hle₂ hptr => ?_
      refine (Yields.store (hv.mono hle₂) hptr).bind fun _ d₃ hle₃ _ => ?_
      have hle := le_trans hle₁ (le_trans hle₂ hle₃)
      exact ih (henv.mono hle) (ho.mono hle) (index + 1)
    rw [Lower.initFields]
    split
    next e _ =>
      refine (hdetour.expr env e d henv).bind fun o d₁ hle₁ hv => ?_
      exact (Yields.convert hv f.ir).bind fun v d₂ hle₂ hv => hrest v d₂ (le_trans hle₁ hle₂) hv
    · exact hrest _ d (le_refl d) (carries_zero _)

theorem yields_newObject (hdetour : SoundDetour detour) (henv : d.HasThis env) (cls : String)
    {args : List Operand} (hargs : d.CarriesAll args) (span : Span) :
    Yields (Lower.newObject detour env cls args span) d fun o d' => d'.Carries o.value := by
  refine (Yields.allocate cls).bind fun object d₁ hle₁ hobject => ?_
  refine .bind_lift (Gen.keeps_layout? cls) fun _ => ?_
  refine (yields_initFields hdetour (henv.mono hle₁) cls hobject 1 _).bind fun _ d₂ hle₂ _ => ?_
  refine .bind_lift (Gen.keeps_method? _ _) fun _ => ?_
  split
  · refine (Yields.callMethod (hobject.mono hle₂) (hargs.mono (le_trans hle₁ hle₂)) _ _ _ _).bind
      fun _ d₃ hle₃ _ => ?_
    exact .pure (hobject.mono (le_trans hle₂ hle₃))
  · exact .pure (hobject.mono hle₂)

theorem keeps_freshLambda : Lower.freshLambda.Keeps :=
  fun _ hg => ⟨hg.functions, hg.globals, hg.errors, hg.queue, hg.copies⟩

theorem keeps_badTarget (target : Expr) : (Lower.badTarget target).Keeps :=
  Gen.keeps_report _ _ (by simp)

theorem keeps_declaredType (env : Env) (type? : Option TypeExpr) :
    (Lower.declaredType env type?).Keeps := by
  cases type? with
  | none => exact .pure _
  | some type => exact .map (Gen.keeps_resolveType (Gen.sound_typing _ _) type)

theorem keeps_declareInner (env : Env) (symbol : String) (params : List Param)
    (ret? : Option TypeExpr) : (Lower.declareInner env symbol params ret?).Keeps :=
  .bind (Gen.keeps_writtenSignature (Gen.sound_typing _ _) params ret?) fun sig =>
    .bind (Gen.keeps_setFunction symbol sig) fun _ => .pure _

theorem yields_mark (span : Span) : Yields (Lower.mark env span) d fun _ _ => True := by
  unfold Lower.mark
  split
  next i hi =>
    unfold Lower.marker? at hi
    split at hi
    · cases hi
      exact .emit rfl rfl fun _ h => nomatch h
    · cases hi
  · exact .pure trivial

theorem carries_integer (v : Nat) : d.Carries (Lower.integer v).value := by
  unfold Lower.integer
  split <;> exact carries_of_reads_eq_nil rfl

theorem Yields.performs {x : Lower Unit} {L : Nat → Prop} (h : Yields x d fun _ _ => True)
    (ho : d.IsOpen) : Goes L x d fun _ _ => True :=
  (h.goes ho).mono fun _ _ _ _ => trivial

theorem yields_bindReceiver (henv : d.HasThis env) (receiver? : Option String) :
    Yields (Lower.bindReceiver env receiver?) d fun _ _ => True := by
  unfold Lower.bindReceiver
  split
  next name this cls hthis =>
    exact (Yields.bindValue (henv this cls hthis) _ _ _).bind fun _ _ _ _ => .pure trivial
  · exact .pure trivial

theorem yields_callInit : Yields Lower.callInit d fun _ _ => True := by
  have hcall : Yields (do
      let _ ← Lower.call .void (.function Lower.initName) [] none) d fun _ _ => True :=
    (Yields.call (.function Lower.initName) (by simp [Ir.Callee.reads]) (by simp) _ _).bind
      fun _ _ _ _ => .pure trivial
  refine (Yields.of_state (Q := fun _ d' => d' = d) (fun _ => rfl) fun _ _ => rfl).bind ?_
  rintro g _ _ rfl
  split
  · exact hcall
  · exact .pure trivial

/-- Code after a mark of its position. -/
theorem performs_marked (span : Span) {act : Lower Unit} (hact : Performs env act) :
    Performs env (do
      Lower.mark env span
      act) :=
  fun _ ho henv => (yields_mark span).bind_goes ho fun _ d₁ hf₁ ho₁ _ =>
    hact d₁ ho₁ (henv.follows hf₁)

/-- Nothing is added to a block that is ended. -/
theorem goes_stmts_of_not_isOpen {L : Nat → Prop} (ho : ¬ d.IsOpen) (ss : List Stmt) :
    Goes L (Lower.stmts detour env ss) d fun _ _ => True := by
  cases ss with
  | nil =>
    rw [Lower.stmts]
    exact .pure trivial
  | cons s ss =>
    rw [Lower.stmts]
    refine .bind_isTerminated ?_
    split
    next h => exact absurd (by simpa [IsOpen] using h) ho
    · exact .pure trivial

/-! ## The walk over the tree -/

mutual

theorem evaluates_expr (hdetour : SoundDetour detour) (env : Env) :
    (e : Expr) → Evaluates env (Lower.expr detour env e)
  | .ident n => fun d henv => by
    rw [Lower.expr]
    exact .nameValue henv n
  | .int v _ => fun d henv => by
    rw [Lower.expr]
    exact .pure (carries_integer v)
  | .float .. | .char .. | .bool .. | .null _ => fun d henv => by
    rw [Lower.expr]
    exact .pure (carries_of_reads_eq_nil rfl)
  | .string body _ => fun d henv => by
    rw [Lower.expr]
    exact .bind_lift (Gen.keeps_addString _) fun _ => .pure (carries_of_reads_eq_nil rfl)
  | .prefixed op right _ => fun d henv => by
    rw [Lower.expr]
    exact (evaluates_expr hdetour env right d henv).bind fun _ _ _ ho => .prefixed ho op
  | .binary op left right _ => fun d henv => by
    have hleft := evaluates_expr hdetour env left
    have hright := evaluates_expr hdetour env right
    rw [Lower.expr]
    split
    · exact evaluates_logical hleft hright _ d henv
    · refine (hleft d henv).bind fun l d₁ hle₁ hl => ?_
      refine (hright d₁ (henv.mono hle₁)).bind fun r d₂ hle₂ hr => ?_
      exact .infix_ (hl.mono hle₂) hr op
  | .postfixed op operand _ => fun d henv => by
    rw [Lower.expr]
    refine (yields_location hdetour env operand d henv).bind fun l? d₁ _ hl => ?_
    split
    next l => exact .step (hl l rfl) op
    · exact .pure carries_undefined
  | .assign .define target value _ => fun d henv => by
    have hvalue := evaluates_expr hdetour env value d henv
    by_cases hname : ∃ n, target = .ident n
    · obtain ⟨n, rfl⟩ := hname
      rw [Lower.expr]
      refine hvalue.bind fun v d₁ _ hv => ?_
      refine (Yields.define n.name none fun o ho => ?_).bind fun l d₂ _ hl => .loadFrom hl
      cases ho
      exact hv
    · rw [Lower.expr]
      · refine hvalue.bind fun v d₁ _ hv => ?_
        exact .bind_lift (keeps_badTarget target) fun _ => .pure hv
      · exact fun n h => hname ⟨n, h⟩
  | .assign .assign target value _ => fun d henv => by
    rw [Lower.expr]
    refine (evaluates_expr hdetour env value d henv).bind fun v d₁ hle₁ hv => ?_
    refine (yields_location hdetour env target d₁ (henv.mono hle₁)).bind fun l? d₂ hle₂ hl => ?_
    split
    next l => exact .assign (hl l rfl) (hv.mono hle₂)
    · exact .pure (hv.mono hle₂)
  | .assign (.compound op) target value _ => fun d henv => by
    rw [Lower.expr]
    refine (yields_location hdetour env target d henv).bind fun l? d₁ hle₁ hl => ?_
    split
    · exact .pure carries_undefined
    next l =>
      refine (Yields.loadFrom (hl l rfl)).bind fun current d₂ hle₂ hcurrent => ?_
      refine (evaluates_expr hdetour env value d₂ (henv.mono (le_trans hle₁ hle₂))).bind
        fun v d₃ hle₃ hv => ?_
      refine (Yields.infix_ (hcurrent.mono hle₃) hv op).bind fun result d₄ hle₄ hresult => ?_
      exact .assign ((hl l rfl).mono (le_trans hle₂ (le_trans hle₃ hle₄))) hresult
  | .call function args span => fun d henv => by
    have hargs := yields_exprs hdetour env args
    have hfunction := evaluates_expr hdetour env function d henv
    cases function with
    | ident n =>
      rw [Lower.expr]
      refine (Yields.namedCallee henv n.name).bind fun callee d₁ hle₁ hc => ?_
      exact (hargs d₁ (henv.mono hle₁)).bind fun os d₂ hle₂ hos => .callNamed (hc.mono hle₂) hos n
    | member object property arrow _ =>
      have hobject := evaluates_expr hdetour env object
      by_cases hsuper : ∃ s, object = .super s
      · obtain ⟨s, rfl⟩ := hsuper
        rw [Lower.expr]
        exact (hargs d henv).bind fun os d₁ hle hos => .callSuper (henv.mono hle) hos _ s
      · rw [Lower.expr]
        · refine (Yields.qualifier object).bind fun q d₁ hle₁ _ => ?_
          have henv₁ := henv.mono hle₁
          split
          · refine (hargs d₁ henv₁).bind fun os d₂ _ hos => ?_
            exact .callMethod (carries_of_reads_eq_nil rfl) hos _ _ _ _
          · exact (hargs d₁ henv₁).bind fun os d₂ _ hos => .callPackage hos _ _
          · refine (hobject d₁ henv₁).bind fun receiver d₂ hle₂ hr => ?_
            exact (hargs d₂ (henv₁.mono hle₂)).bind fun os d₃ hle₃ hos =>
              .callMember (hr.mono hle₃) hos object property
        · exact fun s h => hsuper ⟨s, h⟩
    | super s =>
      rw [Lower.expr]
      exact (hargs d henv).bind fun os d₁ hle hos => .callSuper (henv.mono hle) hos _ s
    | templateInstance n typeArgs _ =>
      rw [Lower.expr]
      refine .bind_lift (keeps_writtenInstance env n typeArgs) fun _ => ?_
      split
      · exact .pure carries_undefined
      · exact (hargs d henv).bind fun os d₁ _ hos => .callSymbol hos _ _
    | _ =>
      rw [Lower.expr]
      · refine hfunction.bind fun callee d₁ hle₁ hc => ?_
        exact (hargs d₁ (henv.mono hle₁)).bind fun os d₂ hle₂ hos =>
          .callPointer (hc.mono hle₂) hos _
      all_goals simp
  | .index object key _ => fun d henv => by
    rw [Lower.expr]
    refine (evaluates_expr hdetour env object d henv).bind fun o d₁ hle₁ ho => ?_
    refine (evaluates_expr hdetour env key d₁ (henv.mono hle₁)).bind fun k d₂ hle₂ hk => ?_
    exact (Yields.elementLocation (ho.mono hle₂) hk).bind fun l d₃ _ hl => .loadFrom hl
  | .member object property _ _ => fun d henv => by
    rw [Lower.expr]
    refine (Yields.qualifier object).bind fun _ d₁ hle₁ _ => ?_
    split
    · exact .reported (by simp) _
    · refine (evaluates_expr hdetour env object d₁ (henv.mono hle₁)).bind fun o d₂ _ ho => ?_
      refine (Yields.memberLocation ho property).bind fun l? d₃ _ hl => ?_
      split
      next l => exact .loadFrom (hl l rfl)
      · exact .pure carries_undefined
  | .array elements _ => fun d henv => by
    rw [Lower.expr]
    exact (yields_exprs hdetour env elements d henv).bind fun _ _ _ hos => .newArray hos
  | .hash pairs _ => fun d henv => by
    rw [Lower.expr]
    exact (yields_entries hdetour env pairs d henv).bind fun _ _ _ hes => .newMap hes
  | .lambda params ret? body span => fun d henv => by
    rw [Lower.expr]
    refine .bind_lift keeps_freshLambda fun _ => ?_
    refine .bind_lift (keeps_declareInner env _ params ret?) fun _ => ?_
    refine .bind_lift (Gen.keeps_function (performs_entry hdetour _ none body)) fun _ => ?_
    exact .pure (carries_of_reads_eq_nil rfl)
  | .new type args span => fun d henv => by
    rw [Lower.expr]
    refine (yields_newClass type).bind fun cls? d₁ hle₁ _ => ?_
    split
    · exact .pure carries_undefined
    · refine (yields_exprs hdetour env args d₁ (henv.mono hle₁)).bind fun os d₂ hle₂ hos => ?_
      exact yields_newObject hdetour (henv.mono (le_trans hle₁ hle₂)) _ hos span
  | .this span => fun d henv => by
    rw [Lower.expr]
    exact .thisValue henv span
  | .super span => fun d henv => by
    rw [Lower.expr]
    exact .superValue henv span
  | .templateInstance n typeArgs _ => fun d henv => by
    rw [Lower.expr]
    exact .instanceValue n typeArgs

theorem yields_exprs (hdetour : SoundDetour detour) (env : Env) :
    (es : List Expr) → ∀ d : Draft, d.HasThis env →
      Yields (Lower.exprs detour env es) d fun os d' => d'.CarriesAll os
  | [] => fun d _ => by
    rw [Lower.exprs]
    exact .pure carriesAll_nil
  | e :: es => fun d henv => by
    rw [Lower.exprs]
    refine (evaluates_expr hdetour env e d henv).bind fun o d₁ hle₁ ho => ?_
    refine (yields_exprs hdetour env es d₁ (henv.mono hle₁)).bind fun os d₂ hle₂ hos => ?_
    exact .pure (hos.cons (ho.mono hle₂))

theorem yields_location (hdetour : SoundDetour detour) (env : Env) :
    (e : Expr) → ∀ d : Draft, d.HasThis env →
      Yields (Lower.location detour env e) d Yields.Locates
  | .ident n => fun d henv => by
    rw [Lower.location]
    refine (Yields.nameLocation henv n.name).bind fun l? d₁ _ hl => ?_
    split
    next l => exact .pure (Yields.locates_some (hl l rfl))
    · exact .bind_lift (Gen.keeps_report _ _ (by simp)) fun _ => .pure Yields.locates_none
  | .member object property _ _ => fun d henv => by
    rw [Lower.location]
    exact (evaluates_expr hdetour env object d henv).bind fun o d₁ _ ho => .memberLocation ho property
  | .index object key _ => fun d henv => by
    rw [Lower.location]
    refine (evaluates_expr hdetour env object d henv).bind fun o d₁ hle₁ ho => ?_
    refine (evaluates_expr hdetour env key d₁ (henv.mono hle₁)).bind fun k d₂ hle₂ hk => ?_
    exact (Yields.elementLocation (ho.mono hle₂) hk).bind fun l d₃ _ hl =>
      .pure (Yields.locates_some hl)
  | .int .. | .float .. | .string .. | .char .. | .bool .. | .null _ | .prefixed .. | .binary ..
  | .postfixed .. | .assign .. | .call .. | .array .. | .hash .. | .lambda .. | .new .. | .this _
  | .super _ | .templateInstance .. => fun d henv => by
    rw [Lower.location]
    · exact .bind_lift (keeps_badTarget _) fun _ => .pure Yields.locates_none
    all_goals simp

theorem yields_entries (hdetour : SoundDetour detour) (env : Env) :
    (es : List Entry) → ∀ d : Draft, d.HasThis env →
      Yields (Lower.entries detour env es) d fun os d' =>
        ∀ o ∈ os, d'.Carries o.1.value ∧ d'.Carries o.2.value
  | [] => fun d _ => by
    rw [Lower.entries]
    exact .pure fun _ h => nomatch h
  | ⟨key, value⟩ :: es => fun d henv => by
    rw [Lower.entries]
    refine (evaluates_expr hdetour env key d henv).bind fun k d₁ hle₁ hk => ?_
    refine (evaluates_expr hdetour env value d₁ (henv.mono hle₁)).bind fun v d₂ hle₂ hv => ?_
    refine (yields_entries hdetour env es d₂ (henv.mono (le_trans hle₁ hle₂))).bind
      fun os d₃ hle₃ hos => .pure (List.forall_mem_cons.2 ⟨?_, hos⟩)
    exact ⟨hk.mono (le_trans hle₂ hle₃), hv.mono hle₃⟩

theorem performs_entry (hdetour : SoundDetour detour) (env : Env) (receiver? : Option String) :
    (b : Block) → Performs env (Lower.entry detour env receiver? b)
  | ⟨body, _⟩ => fun d ho henv => by
    have hscope := (confines_inScope (performs_stmts hdetour env body)).performs
    rw [Lower.entry]
    refine (yields_bindReceiver henv.this receiver?).bind_goes ho fun _ d₁ hf₁ ho₁ _ => ?_
    split
    · refine yields_callInit.bind_goes ho₁ fun _ d₂ hf₂ ho₂ _ => ?_
      exact hscope d₂ ho₂ (henv.follows (hf₁.trans hf₂))
    · exact hscope d₁ ho₁ (henv.follows hf₁)

theorem confines_block (hdetour : SoundDetour detour) (env : Env) :
    (b : Block) → Confines env (Lower.block detour env b)
  | ⟨body, _⟩ => by
    rw [Lower.block]
    exact confines_inScope (performs_stmts hdetour env body)

theorem performs_stmts (hdetour : SoundDetour detour) (env : Env) :
    (ss : List Stmt) → Performs env (Lower.stmts detour env ss)
  | [] => fun d _ _ => by
    rw [Lower.stmts]
    exact .pure trivial
  | s :: ss => fun d ho henv => by
    have hrest := performs_stmts hdetour env ss
    rw [Lower.stmts]
    refine .bind_isTerminated ?_
    split
    · refine .bind_visit ((performs_stmt hdetour env s d ho henv).bind fun _ d₁ hf₁ _ => ?_)
      by_cases ho₁ : d₁.IsOpen
      · exact hrest d₁ ho₁ (henv.follows hf₁)
      · exact goes_stmts_of_not_isOpen ho₁ ss
    · exact .pure trivial

theorem performs_stmt (hdetour : SoundDetour detour) (env : Env) :
    (s : Stmt) → Performs env (Lower.stmt detour env s)
  | .package _ span | .imports _ span | .interface _ _ span | .template _ _ span =>
    fun d ho henv => by
      rw [Lower.stmt]
      exact ((yields_mark span).goes ho).mono fun _ _ _ _ => trivial
  | .class_ c => fun d ho henv => by
    rw [Lower.stmt]
    exact ((yields_mark c.span).goes ho).mono fun _ _ _ _ => trivial
  | .method m => fun d ho henv => by
    rw [Lower.stmt]
    exact ((yields_mark m.span).goes ho).mono fun _ _ _ _ => trivial
  | .var name type? value? span => fun d ho henv => by
    rw [Lower.stmt]
    refine (yields_mark span).bind_goes ho fun _ d₁ hf₁ ho₁ _ => ?_
    refine .bind_lift (keeps_declaredType env type?) fun _ => ?_
    refine (yields_exprIf hdetour env value? d₁ (henv.follows hf₁).this).bind_goes ho₁
      fun v? d₂ _ ho₂ hv => ?_
    exact ((Yields.define name.name _ hv).bind fun _ _ _ _ => .pure trivial).performs ho₂
  | .const name type? value span => fun d ho henv => by
    rw [Lower.stmt]
    refine (yields_mark span).bind_goes ho fun _ d₁ hf₁ ho₁ _ => ?_
    refine .bind_lift (keeps_declaredType env type?) fun _ => ?_
    refine (evaluates_expr hdetour env value d₁ (henv.follows hf₁).this).bind_goes ho₁
      fun v d₂ _ ho₂ hv => ?_
    refine ((Yields.define name.name _ fun o ho => ?_).bind fun _ _ _ _ => .pure trivial).performs ho₂
    cases ho
    exact hv
  | .ret value? span => fun d ho henv => by
    rw [Lower.stmt]
    refine (yields_mark span).bind_goes ho fun _ d₁ hf₁ ho₁ _ => ?_
    refine (yields_exprIf hdetour env value? d₁ (henv.follows hf₁).this).bind_goes ho₁
      fun v? d₂ hf₂ ho₂ hv => ?_
    exact goes_leaveFunction hdetour ho₂ (henv.follows (hf₁.trans hf₂)) hv
  | .expr e => fun d ho henv => by
    rw [Lower.stmt]
    refine (yields_mark e.span).bind_goes ho fun _ d₁ hf₁ ho₁ _ => ?_
    exact ((evaluates_expr hdetour env e d₁ (henv.follows hf₁).this).bind
      fun _ _ _ _ => .pure trivial).performs ho₁
  | .block b => by
    rw [Lower.stmt]
    exact performs_marked b.span (confines_block hdetour env b).performs
  | .ifElse condition consequence alternative? span => by
    rw [Lower.stmt]
    exact performs_marked span (performs_ifElse (evaluates_expr hdetour env condition)
      (confines_block hdetour env consequence) (performs_stmtIf hdetour env alternative?))
  | .whileLoop condition body span => by
    rw [Lower.stmt]
    exact performs_marked span (performs_whileLoop (evaluates_expr hdetour env condition)
      fun inner => confines_block hdetour inner body)
  | .forLoop init? condition? post? body span => by
    rw [Lower.stmt]
    exact performs_marked span (confines_forLoop (performs_stmtIf hdetour env init?)
      (evaluates_testIf hdetour env condition?) (performs_stmtIf hdetour env post?)
      fun inner => confines_block hdetour inner body).performs
  | .switch tag? cases default? span => by
    rw [Lower.stmt]
    exact performs_marked span (performs_switch (yields_exprIf hdetour env tag?)
      (goes_tests hdetour env cases) (arms_caseBodies hdetour cases)
      (confines_blockIf hdetour default?))
  | .break_ span => by
    rw [Lower.stmt]
    exact performs_marked span (performs_leaveLoop hdetour span)
  | .continue_ span => by
    rw [Lower.stmt]
    exact performs_marked span (performs_continueLoop hdetour span)
  | .function ⟨name, params, ret?, body, _, span⟩ => fun d ho henv => by
    rw [Lower.stmt]
    refine (yields_mark span).bind_goes ho fun _ d₁ _ _ _ => ?_
    refine .bind_lift (keeps_declareInner env _ params ret?) fun _ => ?_
    exact .lift (Gen.keeps_function (performs_entry hdetour _ none body)) fun _ => trivial
  | .tryCatch body catches finally? span => by
    rw [Lower.stmt]
    refine performs_marked span (performs_tryCatch (fun inner => confines_block hdetour inner body)
      (arms_clauses hdetour catches) fun act hact => ?_)
    obtain ⟨final, hfinal, rfl⟩ := Option.map_eq_some_iff.1 hact
    exact confines_blockIf hdetour finally? final hfinal env
  | .throw value span => fun d ho henv => by
    rw [Lower.stmt]
    refine (yields_mark span).bind_goes ho fun _ d₁ hf₁ ho₁ _ => ?_
    refine (evaluates_expr hdetour env value d₁ (henv.follows hf₁).this).bind_goes ho₁
      fun o d₂ _ ho₂ hv => ?_
    exact (goes_throwValue ho₂ hv).mono fun _ _ _ _ => trivial
  | .scope body span => by
    rw [Lower.stmt]
    exact performs_marked span (confines_block hdetour env body).performs

theorem yields_exprIf (hdetour : SoundDetour detour) (env : Env) :
    (e? : Option Expr) → ∀ d : Draft, d.HasThis env →
      Yields (Lower.exprIf detour env e?) d fun o? d' => ∀ o, o? = some o → d'.Carries o.value
  | some e => fun d henv => by
    rw [Lower.exprIf]
    refine (evaluates_expr hdetour env e d henv).map fun o d₁ _ ho o' ho' => ?_
    cases ho'
    exact ho
  | none => fun d _ => by
    rw [Lower.exprIf]
    exact .pure fun _ h => nomatch h

theorem evaluates_testIf (hdetour : SoundDetour detour) (env : Env) :
    (e? : Option Expr) → ∀ test, Lower.testIf detour env e? = some test → Evaluates env test
  | some e => fun test htest => by
    rw [Lower.testIf] at htest
    cases htest
    exact evaluates_expr hdetour env e
  | none => fun test htest => by
    rw [Lower.testIf] at htest
    cases htest

theorem performs_stmtIf (hdetour : SoundDetour detour) (env : Env) :
    (s? : Option Stmt) → ∀ act, Lower.stmtIf detour env s? = some act → Performs env act
  | some s => fun act hact => by
    rw [Lower.stmtIf] at hact
    cases hact
    exact fun d ho henv => .bind_visit (performs_stmt hdetour env s d ho henv)
  | none => fun act hact => by
    rw [Lower.stmtIf] at hact
    cases hact

theorem confines_blockIf (hdetour : SoundDetour detour) :
    (b? : Option Block) → ∀ body, Lower.blockIf detour b? = some body →
      ∀ inner, Confines inner (body inner)
  | some b => fun body hbody inner => by
    rw [Lower.blockIf] at hbody
    cases hbody
    exact confines_block hdetour inner b
  | none => fun body hbody => by
    rw [Lower.blockIf] at hbody
    cases hbody

theorem goes_caseTests (hdetour : SoundDetour detour) (env : Env) :
    (es : List Expr) → ∀ (d : Draft) (L : Nat → Prop) (tag? : Option Operand) (target : Nat),
      d.IsOpen → d.HasThis env → (∀ o, tag? = some o → d.Carries o.value) → L target →
      d.Target target →
      Goes L (Lower.caseTests detour env tag? target es) d fun _ d' => d'.IsOpen
  | [] => fun d L tag? target ho _ _ _ _ => by
    rw [Lower.caseTests]
    exact .pure ho
  | e :: es => fun d L tag? target ho henv htag hL ht => by
    rw [Lower.caseTests]
    refine (goes_caseTest (evaluates_expr hdetour env e) ho henv htag hL ht).bind
      fun _ d₁ hf₁ ho₁ => ?_
    exact goes_caseTests hdetour env es d₁ L tag? target ho₁ (henv.mono hf₁.le)
      (fun o ho => (htag o ho).mono hf₁.le) hL (ht.follows hf₁)

theorem goes_tests (hdetour : SoundDetour detour) (env : Env) :
    (cs : List Case) → Tests env fun tag? blocks => Lower.tests detour env tag? blocks cs
  | [] => fun d tag? blocks ho _ _ _ => by
    dsimp only
    rw [Lower.tests]
    · exact .pure ho
    · simp
  | ⟨values, _, _⟩ :: cs => fun d tag? blocks ho henv htag hblocks => by
    dsimp only
    cases blocks with
    | nil =>
      rw [Lower.tests]
      · exact .pure ho
      · simp
    | cons target targets =>
      rw [Lower.tests]
      refine (goes_caseTests hdetour env values d _ tag? target ho henv htag List.mem_cons_self
        (hblocks target List.mem_cons_self)).bind fun _ d₁ hf₁ ho₁ => ?_
      exact (goes_tests hdetour env cs d₁ tag? targets ho₁ (henv.mono hf₁.le)
        (fun o ho => (htag o ho).mono hf₁.le) fun b hb =>
          (hblocks b (List.mem_cons_of_mem _ hb)).follows hf₁).weaken
        fun b hb => List.mem_cons_of_mem _ hb

theorem arms_caseBodies (hdetour : SoundDetour detour) :
    (cs : List Case) → Arms cs.length fun env exit blocks =>
      Lower.caseBodies detour env exit blocks cs
  | [] => .nil fun env exit => by
    rw [Lower.caseBodies]
    simp
  | ⟨_, body, _⟩ :: cs =>
    (arms_caseBodies hdetour cs).cons (fun env => confines_block hdetour env body)
      fun env exit b blocks => by rw [Lower.caseBodies]

theorem arms_clauses (hdetour : SoundDetour detour) :
    (cs : List Catch) → Arms cs.length fun env exit handlers =>
      Lower.clauses detour env exit handlers cs
  | [] => .nil fun env exit => by
    rw [Lower.clauses]
    simp
  | ⟨param?, type?, body, _⟩ :: cs =>
    (arms_clauses hdetour cs).cons
      (fun env => confines_clause (confines_block hdetour env body) param? type?)
      fun env exit b blocks => by rw [Lower.clauses]

end

/-! ## Detours -/

theorem soundDetour_detourAt (fuel : Nat) : SoundDetour (Lower.detourAt fuel) := by
  induction fuel with
  | zero =>
    refine ⟨fun env e d _ => ?_, fun env b d _ _ _ => ?_⟩
    · exact .bind_lift Gen.keeps_exhaust fun _ => .pure carries_undefined
    · exact .lift Gen.keeps_exhaust fun _ => rfl
  | succ fuel ih =>
    refine ⟨fun env e d henv => ?_, fun env b d ho henv hw => ?_⟩
    · refine .bind_lift Gen.keeps_exhausted fun _ => ?_
      split
      · exact .pure carries_undefined
      · exact evaluates_expr ih env e d henv
    · refine .bind_lift Gen.keeps_exhausted fun _ => ?_
      split
      · exact confines_block ih env b d ho henv hw
      · exact .pure rfl

end ClassLang.Draft
