import ClassLang.Proofs.Lowering.Operations

/-!
# Calls

Given arguments that can be read, a call yields a value that can be read. The call that throws ends
its block and goes on in another one.
-/

namespace ClassLang.Draft

open Ir (Value)

variable {d : Draft} {v : Value} {env : Env} {args : List Operand} {L : Nat → Prop}

/-- All operands can be read. -/
def CarriesAll (d : Draft) (os : List Operand) : Prop := ∀ o ∈ os, d.Carries o.value

theorem CarriesAll.mono {d' : Draft} {os : List Operand} (h : d.CarriesAll os) (hle : d ≤ d') :
    d'.CarriesAll os :=
  fun o ho => (h o ho).mono hle

theorem carriesAll_nil : d.CarriesAll [] := fun _ h => nomatch h

theorem CarriesAll.cons {o : Operand} {os : List Operand} (ho : d.Carries o.value)
    (h : d.CarriesAll os) : d.CarriesAll (o :: os) :=
  List.forall_mem_cons.2 ⟨ho, h⟩

theorem carries_void : d.Carries Operand.void.value := carries_of_reads_eq_nil rfl

namespace Yields

/-! ## Functions and methods -/

theorem convertArgs (ts : List Ty) (hargs : d.CarriesAll args) :
    Yields (Lower.convertArgs ts args) d fun vs d' => ∀ v ∈ vs, d'.Carries v := by
  induction args generalizing d ts with
  | nil =>
    cases ts <;> exact .pure fun _ h => nomatch h
  | cons o os ih =>
    have hrest : ∀ ts v d', d ≤ d' → d'.Carries v → Yields (do
        return v :: (← Lower.convertArgs ts os)) d' fun vs d'' => ∀ v ∈ vs, d''.Carries v := by
      intro ts v d' hle hv
      refine (ih ts fun o' ho' => (hargs o' (List.mem_cons_of_mem _ ho')).mono hle).bind
        fun vs d'' hle' hvs => ?_
      exact .pure (List.forall_mem_cons.2 ⟨hv.mono hle', hvs⟩)
    have ho := hargs o List.mem_cons_self
    cases ts with
    | nil => exact hrest [] o.value d (le_refl d) ho
    | cons t ts =>
      rw [Lower.convertArgs]
      split
      · exact hrest ts o.value d (le_refl d) ho
      · exact (convert ho _).bind (hrest ts)

theorem callWith (callee : Ir.Callee) (hc : ∀ r ∈ callee.reads, d.Has r) {vs : List Value}
    (hvs : ∀ v ∈ vs, d.Carries v) (sig : Signature) :
    Yields (Lower.callWith sig callee vs) d fun o d' => d'.Carries o.value := by
  refine (call callee hc hvs _ none).bind fun v d₁ _ hv => .pure ?_
  split
  · exact carries_void
  · exact hv

/-- A call of a function by its name. -/
theorem callSymbolWith {vs : List Value} (hvs : ∀ v ∈ vs, d.Carries v) (sig : Signature)
    (symbol : String) :
    Yields (Lower.callWith sig (.function symbol) vs) d fun o d' => d'.Carries o.value :=
  callWith (.function symbol) (by simp [Ir.Callee.reads]) hvs sig

theorem callMethod (hv : d.Carries v) (hargs : d.CarriesAll args) (cls method : String)
    (dynamic : Bool) (span : Span) :
    Yields (Lower.callMethod v cls method args dynamic span) d fun o d' => d'.Carries o.value := by
  refine bind_lift (Gen.keeps_method? cls method) fun _ => ?_
  split
  · exact reported (by simp) _
  · refine (convertArgs _ hargs).bind fun vs d₁ hle₁ hvs => ?_
    have hall : ∀ w ∈ v :: vs, d₁.Carries w := List.forall_mem_cons.2 ⟨hv.mono hle₁, hvs⟩
    split
    · exact callSymbolWith hvs _ _
    · split
      · split
        · refine (vtableEntry (hv.mono hle₁) cls _).bind fun f d₂ hle₂ hf => ?_
          exact callWith (.pointer f) hf (fun w hw => (hall w hw).mono hle₂) _
        · exact callSymbolWith hall _ _
      · exact callSymbolWith hall _ _

theorem callSuper (henv : d.HasThis env) (hargs : d.CarriesAll args) (method : String)
    (span : Span) :
    Yields (Lower.callSuper env method args span) d fun o d' => d'.Carries o.value := by
  unfold Lower.callSuper
  split
  · exact reported (by simp) _
  next this cls hthis =>
    refine bind_lift (Gen.keeps_layout? cls) fun _ => ?_
    split
    · exact reported (by simp) _
    · exact callMethod (henv this cls hthis) hargs _ _ _ _

theorem callSymbol (hargs : d.CarriesAll args) (symbol : String) (span : Span) :
    Yields (Lower.callSymbol symbol args span) d fun o d' => d'.Carries o.value := by
  refine bind_lift (Gen.keeps_function? symbol) fun _ => ?_
  split
  · exact reported (by simp) _
  · exact (convertArgs _ hargs).bind fun vs d₁ _ hvs => callSymbolWith hvs _ _

theorem callPointer {callee : Operand} (hc : d.Carries callee.value) (hargs : d.CarriesAll args)
    (span : Span) :
    Yields (Lower.callPointer callee args span) d fun o d' => d'.Carries o.value := by
  unfold Lower.callPointer
  dsimp only
  split
  next sig _ =>
    exact (convertArgs _ hargs).bind fun vs d₁ hle hvs =>
      callWith (.pointer callee.value) (hc.mono hle) hvs sig
  · exact reported (by simp) _

theorem callExternal (hargs : d.CarriesAll args) (name : String) (ret : Ty) :
    Yields (Lower.callExternal name ret args) d fun o d' => d'.Carries o.value := by
  refine (promoteAll hargs).bind fun vs d₁ _ hvs => ?_
  refine bind_lift (Gen.keeps_declare _ _ _ _) fun _ => ?_
  refine (call (.function name) (by simp [Ir.Callee.reads]) hvs _ _).bind
    fun v d₂ _ hv => .pure ?_
  split
  · exact carries_void
  · exact hv

/-! ## Predeclared functions -/

theorem callPrintf {vs : List Value} (hvs : ∀ v ∈ vs, d.Carries v) :
    Yields (Lower.callPrintf vs) d fun o d' => d'.Carries o.value := by
  refine bind_lift (Gen.keeps_declare _ _ _ _) fun _ => ?_
  exact (call (.function "printf") (by simp [Ir.Callee.reads]) hvs _ _).bind
    fun _ _ _ hv => .pure hv

theorem callPrint (hargs : d.CarriesAll args) (line : Bool) :
    Yields (Lower.callPrint args line) d fun o d' => d'.Carries o.value := by
  refine (promoteAll hargs).bind fun vs d₁ _ hvs => ?_
  refine bind_lift (Gen.keeps_addString _) fun _ => ?_
  exact callPrintf (List.forall_mem_cons.2 ⟨carries_of_reads_eq_nil rfl, hvs⟩)

theorem callFormat (hargs : d.CarriesAll args) :
    Yields (Lower.callFormat args) d fun o d' => d'.Carries o.value := by
  cases args with
  | nil =>
    refine bind_lift (Gen.keeps_addString _) fun _ => ?_
    refine callPrintf fun w hw => ?_
    rw [List.mem_singleton.1 hw]
    exact carries_of_reads_eq_nil rfl
  | cons format rest =>
    obtain ⟨hformat, hrest⟩ := List.forall_mem_cons.1 hargs
    exact (promoteAll hrest).bind fun vs d₁ hle hvs =>
      callPrintf (List.forall_mem_cons.2 ⟨hformat.mono hle, hvs⟩)

theorem callLength (hargs : d.CarriesAll args) :
    Yields (Lower.callLength args) d fun o d' => d'.Carries o.value := by
  unfold Lower.callLength
  split
  · exact .pure (carries_of_reads_eq_nil rfl)
  next o rest =>
    have ho := hargs o List.mem_cons_self
    split
    · exact (arrayLength ho).bind fun _ _ _ hv => .pure hv
    · exact (callOutside (by simp [ho]) _ _ _).bind fun _ _ _ hv => .pure hv
    · split
      · refine (callOutside (by simp [ho]) _ _ _).bind fun length d₁ _ hlength => ?_
        exact (convert hlength _).bind fun _ _ _ hv => .pure hv
      · exact .pure (carries_of_reads_eq_nil rfl)

theorem callExit (hargs : d.CarriesAll args) :
    Yields (Lower.callExit args) d fun o d' => d'.Carries o.value := by
  have hrest : ∀ code d', d'.Carries code → Yields (do
      let _ ← Lower.call .void (.function "exit") [code] none
      return Operand.void) d' fun o d'' => d''.Carries o.value := by
    intro code d' hcode
    exact (call (.function "exit") (by simp [Ir.Callee.reads]) (by simp [hcode]) _ _).bind
      fun _ _ _ _ => .pure carries_void
  refine bind_lift (Gen.keeps_declare _ _ _ _) fun _ => ?_
  split
  · exact (pure (Q := fun c d' => d'.Carries c) (carries_of_reads_eq_nil rfl)).bind
      fun code d' _ => hrest code d'
  next o rest =>
    exact (convert (hargs o List.mem_cons_self) .i32).bind fun code d' _ => hrest code d'

end Yields

theorem goes_throwValue {o : Operand} (hopen : d.IsOpen) (ho : d.Carries o.value) :
    Goes L (Lower.throwValue o) d fun _ d' => ¬ d'.IsOpen := by
  refine (Yields.alloca _).bind_goes hopen fun slot d₁ hf₁ hopen₁ hslot => ?_
  have hcarries := hslot.carries
  refine (Yields.store (ho.mono hf₁.le) hcarries).bind_goes hopen₁ fun _ d₂ hf₂ hopen₂ _ => ?_
  refine (Yields.callOutside ?_ _ _ _).bind_goes hopen₂ fun _ d₃ _ _ _ => ?_
  · intro w hw
    rcases List.mem_cons.1 hw with rfl | hw
    · exact hcarries.mono hf₂.le
    · have hnull : w = .null := by simpa using hw
      exact carries_of_reads_eq_nil (by rw [hnull]; rfl)
  · exact .terminate (fun h => nomatch h) (fun _ _ h => nomatch h) (fun _ h => nomatch h)

/-- A block that is asked for once the one at hand is ended, and is started at once. -/
theorem follows_next {label : String} (hd : d.Valid) (ho : ¬ d.IsOpen) :
    Follows L d (d.alloc.start d.nextBlock label) := by
  have halloc : Step d.nextBlock L d d.alloc := .alloc
  have hfresh : d.nextBlock ∉ d.alloc.ids := fun h => Nat.lt_irrefl _ (hd.linked.bound _ h)
  have hstart : Step d.nextBlock L d.alloc (d.alloc.start d.nextBlock label) :=
    .start _ label ho (Nat.le_refl _) (Nat.lt_succ_self _) hfresh
  refine ⟨.tail (.single halloc) hstart, ⟨fun r hr => ?_, fun _ hr => hr, rfl⟩, fun b hb hb' => ?_⟩
  · exact has_start.2 (.inr (by simpa [alloc] using hr))
  · have hid : b = d.nextBlock := Nat.le_antisymm (Nat.le_of_lt_succ hb') hb
    simp [ids, hid]

namespace Yields

theorem callPanic (hargs : d.CarriesAll args) :
    Yields (Lower.callPanic args) d fun o d' => d'.Carries o.value := by
  intro hd ho L
  have harg : d.Carries (args.head?.getD ⟨.null, .null⟩).value := by
    cases args with
    | nil => exact carries_of_reads_eq_nil rfl
    | cons o rest => exact hargs o List.mem_cons_self
  refine (goes_throwValue (L := L) ho harg hd).bind fun _ d₁ ⟨hf₁, hended⟩ => ?_
  refine .bind (.freshBlock (Q := fun b d' => b = d₁.nextBlock ∧ d' = d₁.alloc) ⟨rfl, rfl⟩) ?_
  rintro _ _ ⟨rfl, rfl⟩
  refine .bind (.startBlock (Q := fun _ d' => d' = d₁.alloc.start d₁.nextBlock "panic.cont") rfl) ?_
  rintro _ _ rfl
  exact .pure ⟨hf₁.trans (follows_next (hf₁.run.valid hd) hended), rfl, carries_void⟩

theorem callBuiltin (hargs : d.CarriesAll args) (name : String) :
    Yields (Lower.callBuiltin name args) d fun o d' => d'.Carries o.value := by
  unfold Lower.callBuiltin
  split
  · exact callPrint hargs true
  · exact callPrint hargs false
  · exact callLength hargs
  · exact callLength hargs
  · exact callPanic hargs
  · exact .pure (carries_of_reads_eq_nil rfl)
  · exact callExternal hargs _ _

theorem callPackage (hargs : d.CarriesAll args) (package member : String) :
    Yields (Lower.callPackage package member args) d fun o d' => d'.Carries o.value := by
  unfold Lower.callPackage
  split
  · exact callPrint hargs true
  · exact callPrint hargs false
  · exact callFormat hargs
  · exact callExit hargs
  · exact callExternal hargs _ _

end Yields

/-! ## Templates and names -/

/-- What a called name stands for can be read, where it is a value. -/
def CarriesCallee : Lower.NamedCallee → Draft → Prop
  | .value callee, d => d.Carries callee.value
  | .method this _, d => d.Carries this
  | _, _ => True

theorem CarriesCallee.mono {d' : Draft} {callee : Lower.NamedCallee} (h : CarriesCallee callee d)
    (hle : d ≤ d') : CarriesCallee callee d' := by
  cases callee with
  | value | method => exact Carries.mono h hle
  | _ => trivial

theorem keeps_writtenInstance (env : Env) (name : Ident) (typeArgs : List TypeExpr) :
    (Lower.writtenInstance env name typeArgs).Keeps :=
  .bind (Gen.keeps_resolveTypes (Gen.sound_typing _ _) typeArgs) fun types =>
    Gen.sound_typing _ _ name types

namespace Yields

theorem instanceValue (name : Ident) (typeArgs : List TypeExpr) :
    Yields (Lower.instanceValue env name typeArgs) d fun o d' => d'.Carries o.value := by
  refine bind_lift (keeps_writtenInstance env name typeArgs) fun _ => ?_
  split
  · exact .pure carries_undefined
  · exact bind_lift (Gen.keeps_function? _) fun _ => .pure (carries_of_reads_eq_nil rfl)

theorem namedCallee (henv : d.HasThis env) (name : String) :
    Yields (Lower.namedCallee env name) d CarriesCallee := by
  refine (lookup name).bind fun l? d₁ hle hl => ?_
  split
  next l => exact (loadFrom (hl l rfl)).bind fun _ _ _ hv => .pure hv
  · refine bind_lift (Gen.keeps_function? name) fun _ => ?_
    split
    · exact .pure trivial
    · split
      · exact .pure trivial
      · split
        · exact .pure trivial
        next this cls hthis =>
          refine bind_lift (Gen.keeps_method? cls name) fun _ => .pure ?_
          split
          · exact (henv this cls hthis).mono hle
          · trivial

theorem callNamed {callee : Lower.NamedCallee} (hc : CarriesCallee callee d)
    (hargs : d.CarriesAll args) (n : Ident) :
    Yields (Lower.callNamed env n callee args) d fun o d' => d'.Carries o.value := by
  cases callee with
  | value v => exact callPointer hc hargs n.span
  | function => exact callSymbol hargs n.name n.span
  | template t =>
    refine bind_lift (Gen.sound_typing _ _ n _) fun _ => ?_
    split
    · exact .pure carries_undefined
    · exact callSymbol hargs _ n.span
  | method this cls => exact callMethod hc hargs cls n.name true n.span
  | builtin => exact callBuiltin hargs n.name

theorem qualifier (e : Expr) : Yields (Lower.qualifier env e) d fun _ _ => True := by
  unfold Lower.qualifier
  split
  · refine (lookup _).bind fun _ d₁ _ _ => ?_
    split
    · exact .pure trivial
    · refine bind_lift (Gen.keeps_hasLayout _) fun _ => ?_
      split
      · exact .pure trivial
      · refine (isPackage _).bind fun _ _ _ _ => ?_
        split
        · exact .pure trivial
        · exact .pure trivial
  · exact .pure trivial

theorem callMember {receiver : Operand} (hr : d.Carries receiver.value) (hargs : d.CarriesAll args)
    (object : Expr) (property : Ident) :
    Yields (Lower.callMember object property receiver args) d fun o d' => d'.Carries o.value := by
  have hexternal := callExternal (hargs.cons hr)
    (Gen.mangle object.text ++ "_" ++ property.name) .unknown
  unfold Lower.callMember
  split
  · refine bind_lift (Gen.keeps_method? _ _) fun _ => ?_
    dsimp only
    split
    · exact callMethod hr hargs _ property.name true property.span
    · exact hexternal
  · exact hexternal

end Yields

end ClassLang.Draft
