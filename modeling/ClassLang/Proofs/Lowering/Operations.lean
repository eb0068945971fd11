import ClassLang.Proofs.Lowering.Basic

/-!
# Operations on values

Conversions, operators, and access to arrays, maps and objects: given values that can be read, each
of them yields one that can be read, and leaves the block open.
-/

namespace ClassLang.Draft

open Ir (Value)

variable {d : Draft} {v w : Value}

/-- A constant can be read everywhere. -/
theorem carries_zero (t : Ir.Ty) : d.Carries (.zero t) :=
  carries_of_reads_eq_nil (by cases t <;> rfl)

theorem carries_undefined : d.Carries Operand.undefined.value := carries_of_reads_eq_nil rfl

namespace Yields

/-- A reported expression has no value, and nothing is read from it. -/
theorem reported {cause : GenError.Cause} (h : ∀ problem, cause ≠ .internal problem) (span : Span) :
    Yields (do
      Gen.report cause span
      return Operand.undefined) d fun o d' => d'.Carries o.value :=
  bind_lift (Gen.keeps_report cause span h) fun _ => .pure carries_undefined

/-! ## Conversions and operators -/

theorem truth (hv : d.Carries v) : Yields (Lower.truth v) d fun v' d' => d'.Carries v' := by
  unfold Lower.truth
  split
  next b hb =>
    refine .pure ?_
    unfold Lower.constantTruth? at hb
    split at hb
    · cases hb
      exact hv
    · split at hb
      · cases hb
        exact carries_of_reads_eq_nil rfl
      · cases hb
        exact carries_of_reads_eq_nil rfl
      · cases hb
  · exact compare hv (carries_zero _) .ne

private theorem reads_convertConstant? {target : Ir.Ty} {c : Value}
    (h : Lower.convertConstant? v target = some c) : c.reads = [] := by
  unfold Lower.convertConstant? at h
  split at h <;> grind [Ir.Value.reads]

theorem convert (hv : d.Carries v) (target : Ir.Ty) :
    Yields (Lower.convert v target) d fun v' d' => d'.Carries v' := by
  unfold Lower.convert
  split
  · exact .pure hv
  · split
    · exact truth hv
    · split
      next c hc => exact .pure (carries_of_reads_eq_nil (reads_convertConstant? hc))
      · split
        · exact cast hv _ target
        · exact .pure hv

theorem promote {o : Operand} (ho : d.Carries o.value) :
    Yields (Lower.promote o) d fun v d' => d'.Carries v := by
  unfold Lower.promote
  split
  all_goals first | exact convert ho _ | exact .pure ho

theorem promoteAll {os : List Operand} (hos : ∀ o ∈ os, d.Carries o.value) :
    Yields (os.mapM Lower.promote) d fun vs d' => ∀ v ∈ vs, d'.Carries v := by
  refine mapM (P := fun o d => d.Carries o.value) os ?_ ?_ (fun _ _ _ h => promote h) hos
  · exact fun o d d' hle ho => ho.mono hle
  · exact fun v d d' hle hv => hv.mono hle

variable {left right : Operand}

theorem unify (hl : d.Carries left.value) (hr : d.Carries right.value) :
    Yields (Lower.unify left right) d fun p d' => d'.Carries p.1 ∧ d'.Carries p.2.1 := by
  unfold Lower.unify
  split
  · exact .pure ⟨hl, hr⟩
  · refine (convert hl _).bind fun l d₁ hle₁ hl₁ => ?_
    refine (convert (hr.mono hle₁) _).bind fun r d₂ hle₂ hr₂ => ?_
    exact .pure ⟨hl₁.mono hle₂, hr₂⟩

theorem comparison (hl : d.Carries left.value) (hr : d.Carries right.value) (op : InfixOp) :
    Yields (Lower.comparison op left right) d fun v d' => d'.Carries v := by
  unfold Lower.comparison
  split
  · refine (callOutside (by simp [hl, hr]) _ _ _).bind fun order d₁ _ ho => ?_
    exact compare ho (carries_of_reads_eq_nil rfl) _
  · exact (unify hl hr).bind fun p d₁ _ hp => compare hp.1 hp.2 _

theorem infix_ (hl : d.Carries left.value) (hr : d.Carries right.value) (op : InfixOp) :
    Yields (Lower.infix_ op left right) d fun o d' => d'.Carries o.value := by
  unfold Lower.infix_
  split
  · exact (comparison hl hr op).bind fun _ _ _ hv => .pure hv
  · split
    · refine (truth hl).bind fun l d₁ hle₁ hl₁ => ?_
      refine (truth (hr.mono hle₁)).bind fun r d₂ hle₂ hr₂ => ?_
      exact (binary (hl₁.mono hle₂) hr₂ _).bind fun _ _ _ hv => .pure hv
    · split
      · exact (callOutside (by simp [hl, hr]) _ _ _).bind fun _ _ _ hv => .pure hv
      · refine (unify hl hr).bind fun p d₁ _ hp => ?_
        exact (binary hp.1 hp.2 _).bind fun _ _ _ hv => .pure hv

theorem prefixed {o : Operand} (ho : d.Carries o.value) (op : PrefixOp) :
    Yields (Lower.prefixed op o) d fun o' d' => d'.Carries o'.value := by
  unfold Lower.prefixed
  split
  · refine (truth ho).bind fun v d₁ _ hv => ?_
    split
    · exact .pure (carries_of_reads_eq_nil rfl)
    · exact (binary hv (carries_of_reads_eq_nil rfl) _).bind fun _ _ _ hv => .pure hv
  · split
    · exact .pure (carries_of_reads_eq_nil rfl)
    · exact .pure (carries_of_reads_eq_nil rfl)
    · exact (binary (carries_zero _) ho _).bind fun _ _ _ hv => .pure hv
  · exact (binary ho (carries_of_reads_eq_nil rfl) _).bind fun _ _ _ hv => .pure hv

variable {l : Location}

theorem step (hl : d.Carries l.ptr) (op : PostfixOp) :
    Yields (Lower.step op l) d fun o d' => d'.Carries o.value := by
  have hone : ∀ d' : Draft, d'.Carries (if l.ir.isFloat then .float .one l.ir else .int 1 l.ir) :=
    fun _ => carries_of_reads_eq_nil (by split <;> rfl)
  refine (load hl l.ir).bind fun old d₁ hle₁ hold => ?_
  refine (binary hold (hone d₁) _).bind fun new d₂ hle₂ hnew => ?_
  refine (store hnew (hl.mono (le_trans hle₁ hle₂))).bind fun _ d₃ hle₃ _ => ?_
  exact .pure (hold.mono (le_trans hle₂ hle₃))

theorem assign (hl : d.Carries l.ptr) (hv : d.Carries v) :
    Yields (Lower.assign l v) d fun o d' => d'.Carries o.value := by
  refine (convert hv l.ir).bind fun v₁ d₁ hle₁ hv₁ => ?_
  exact (store hv₁ (hl.mono hle₁)).bind fun _ d₂ hle₂ _ => .pure (hv₁.mono hle₂)

theorem define (name : String) (declared? : Option Ty) {value? : Option Operand}
    (hv : ∀ o, value? = some o → d.Carries o.value) :
    Yields (Lower.define name declared? value?) d fun l d' => d'.Carries l.ptr := by
  unfold Lower.define
  split
  next ty ir hp =>
  clear hp
  refine (alloca ir).bind fun ptr d₁ hle₁ hptr => ?_
  dsimp only
  split
  next o =>
    exact (convert ((hv o rfl).mono hle₁) ir).bind fun init d₂ hle₂ hinit =>
      fillSlot (hptr.mono hle₂) hinit name
  · exact (pure (carries_zero ir)).bind fun init d₂ hle₂ hinit =>
      fillSlot (hptr.mono hle₂) hinit name

end Yields

/-! ## Arrays, maps and objects -/

/-- The object at hand can be read. -/
def HasThis (d : Draft) (env : Env) : Prop := ∀ v cls, env.this? = some (v, cls) → d.Carries v

theorem HasThis.mono {d d' : Draft} {env : Env} (h : d.HasThis env) (hle : d ≤ d') :
    d'.HasThis env :=
  fun v cls hv => (h v cls hv).mono hle

namespace Yields

variable {env : Env} {o : Operand}

theorem malloc (hv : d.Carries v) : Yields (Lower.malloc v) d fun v' d' => d'.Carries v' :=
  callOutside (by simp [hv]) _ _ _

theorem arrayElement (hv : d.Carries v) (hw : d.Carries w) (ir : Ir.Ty) :
    Yields (Lower.arrayElement v ir w) d fun v' d' => d'.Carries v' := by
  have hheader : ∀ d' : Draft, ∀ i ∈ [Value.i64 Lower.arrayHeader], d'.Carries i := by
    intro d' i hi
    rw [List.mem_singleton.1 hi]
    exact carries_of_reads_eq_nil rfl
  refine (element hv (hheader d) .i8).bind fun data d₁ hle hdata => ?_
  exact element hdata (by simp [hw.mono hle]) ir

theorem arrayLength (hv : d.Carries v) :
    Yields (Lower.arrayLength v) d fun v' d' => d'.Carries v' :=
  (load hv .i64).bind fun _ _ _ hlength => cast hlength .truncate .i32

theorem elementLocation {key : Operand} (ho : d.Carries o.value) (hk : d.Carries key.value) :
    Yields (Lower.elementLocation o key) d fun l d' => d'.Carries l.ptr := by
  unfold Lower.elementLocation
  split
  · refine (convert hk _).bind fun k d₁ hle₁ hk₁ => ?_
    refine (alloca _).bind fun slot d₂ hle₂ hslot => ?_
    have hcarries := hslot.carries
    refine (store (hk₁.mono hle₂) hcarries).bind fun _ d₃ hle₃ _ => ?_
    have ho₃ := ho.mono (le_trans hle₁ (le_trans hle₂ hle₃))
    refine (callOutside (by simp [ho₃, hcarries.mono hle₃]) _ _ _).bind fun _ _ _ hptr => ?_
    exact .pure hptr
  · exact (arrayElement ho hk _).bind fun _ _ _ hptr => .pure hptr
  · split
    · exact (element ho (by simp [hk]) _).bind fun _ _ _ hptr => .pure hptr
    · exact (arrayElement ho hk _).bind fun _ _ _ hptr => .pure hptr

theorem fillArray (hv : d.Carries v) (ir : Ir.Ty) (index : Nat) {es : List Operand}
    (hes : ∀ e ∈ es, d.Carries e.value) :
    Yields (Lower.fillArray v ir index es) d fun _ _ => True := by
  induction es generalizing d index with
  | nil => exact .pure trivial
  | cons e es ih =>
    refine (convert (hes e List.mem_cons_self) ir).bind fun x d₁ hle₁ hx => ?_
    refine (arrayElement (hv.mono hle₁) (carries_of_reads_eq_nil rfl) ir).bind
      fun ptr d₂ hle₂ hptr => ?_
    refine (store (hx.mono hle₂) hptr).bind fun _ d₃ hle₃ _ => ?_
    have hle := le_trans hle₁ (le_trans hle₂ hle₃)
    exact ih (hv.mono hle) (index + 1) fun e' he' => (hes e' (List.mem_cons_of_mem _ he')).mono hle

theorem newArray {es : List Operand} (hes : ∀ e ∈ es, d.Carries e.value) :
    Yields (Lower.newArray es) d fun o d' => d'.Carries o.value := by
  refine (malloc (carries_of_reads_eq_nil rfl)).bind fun array d₁ hle₁ ha => ?_
  refine (store (carries_of_reads_eq_nil rfl) ha).bind fun _ d₂ hle₂ _ => ?_
  have hle := le_trans hle₁ hle₂
  refine (fillArray (ha.mono hle₂) _ 0 fun e he => (hes e he).mono hle).bind fun _ d₃ hle₃ _ => ?_
  exact .pure (ha.mono (le_trans hle₂ hle₃))

theorem newMap {es : List (Operand × Operand)}
    (hes : ∀ e ∈ es, d.Carries e.1.value ∧ d.Carries e.2.value) :
    Yields (Lower.newMap es) d fun o d' => d'.Carries o.value := by
  unfold Lower.newMap
  refine (callOutside ?_ _ _ _).bind fun map d₁ hle₁ hmap => ?_
  · intro w hw
    rcases List.mem_cons.1 hw with rfl | hw
    · exact carries_of_reads_eq_nil rfl
    · rw [List.mem_singleton.1 hw]
      exact carries_of_reads_eq_nil rfl
  · refine (forM (P := fun e d => d.Carries map ∧ d.Carries e.1.value ∧ d.Carries e.2.value) es
      ?_ ?_ ?_).bind fun _ d₂ hle₂ _ => .pure (hmap.mono hle₂)
    · exact fun e d d' hle he => ⟨he.1.mono hle, he.2.1.mono hle, he.2.2.mono hle⟩
    · rintro ⟨k, x⟩ _ d ⟨hmap, hk, hx⟩
      refine (elementLocation hmap hk).bind fun l d' hle hl => ?_
      exact (assign hl (hx.mono hle)).bind fun _ _ _ _ => .pure trivial
    · exact fun e he => ⟨hmap, (hes e he).1.mono hle₁, (hes e he).2.mono hle₁⟩

theorem structMember (hv : d.Carries v) (cls : String) (index : Nat) :
    Yields (Lower.structMember cls v index) d fun v' d' => d'.Carries v' := by
  refine element hv ?_ _
  intro w hw
  rcases List.mem_cons.1 hw with rfl | hw
  · exact carries_of_reads_eq_nil rfl
  · rw [List.mem_singleton.1 hw]
    exact carries_of_reads_eq_nil rfl

theorem fieldLocation (hv : d.Carries v) (cls : String) (field : Nat × FieldSlot) :
    Yields (Lower.fieldLocation cls v field) d fun l d' => d'.Carries l.ptr :=
  (structMember hv cls field.1).bind fun _ _ _ hptr => .pure hptr

/-! ### Names and fields -/

/-- A location that may not have been found can be read if it was. -/
def Locates (l? : Option Location) (d : Draft) : Prop := ∀ l, l? = some l → d.Carries l.ptr

theorem locates_some {l : Location} (h : d.Carries l.ptr) : Locates (some l) d := by
  rintro _ ⟨⟩
  exact h

theorem locates_none : Locates none d := fun _ h => nomatch h

theorem keeps_classField? (cls name : String) : (Lower.classField? cls name).Keeps :=
  .of_snd_eq fun _ => rfl

theorem memberLocation (ho : d.Carries o.value) (field : Ident) :
    Yields (Lower.memberLocation o field) d Locates := by
  have hreport : Yields (do
      Gen.report (.unknownMember o.ty.text field.name) field.span
      return (none : Option Location) : Lower (Option Location)) d Locates :=
    bind_lift (Gen.keeps_report _ _ (by simp)) fun _ => .pure locates_none
  unfold Lower.memberLocation
  split
  · refine bind_lift (keeps_classField? _ _) fun f? => ?_
    split
    · exact (fieldLocation ho _ _).bind fun _ _ _ hl => .pure (locates_some hl)
    · exact hreport
  · exact hreport

theorem keeps_ownField? (env : Env) (name : String) : (Lower.ownField? env name).Keeps := by
  unfold Lower.ownField?
  split
  · exact .pure _
  · exact .bind (keeps_classField? _ _) fun _ => .pure _

/-- A bare name can only stand for a field of the object at hand. -/
theorem ownField?_this {env : Env} {name : String} {g : GenState} {this : Value}
    {rest : String × Nat × FieldSlot}
    (h : ((Lower.ownField? env name).run g).1 = some (this, rest)) :
    ∃ cls, env.this? = some (this, cls) := by
  unfold Lower.ownField? at h
  split at h
  · cases h
  next this' cls hthis =>
    obtain ⟨f, _, hf⟩ := Option.map_eq_some_iff.1 h
    cases hf
    exact ⟨cls, hthis⟩

theorem ownLocation (henv : d.HasThis env) (name : String) :
    Yields (Lower.ownLocation env name) d Locates := by
  refine bind_lift (keeps_ownField? env name) fun g => ?_
  split
  · exact .pure locates_none
  next this cls f hfield =>
    obtain ⟨cls', hthis⟩ := ownField?_this hfield
    exact (fieldLocation (henv this cls' hthis) cls f).bind fun _ _ _ hl => .pure (locates_some hl)

theorem nameLocation (henv : d.HasThis env) (name : String) :
    Yields (Lower.nameLocation env name) d Locates := by
  refine (lookup name).bind fun l? d₁ hle hl => ?_
  split
  next l => exact .pure (locates_some (hl l rfl))
  · exact ownLocation (henv.mono hle) name

theorem nameValue (henv : d.HasThis env) (n : Ident) :
    Yields (Lower.nameValue env n) d fun o d' => d'.Carries o.value := by
  refine (nameLocation henv n.name).bind fun l? d₁ hle hl => ?_
  split
  next l => exact loadFrom (hl l rfl)
  · refine bind_lift (Gen.keeps_function? _) fun _ => ?_
    split
    · exact .pure (carries_of_reads_eq_nil rfl)
    · exact reported (by simp) _

theorem isPackage (name : String) : Yields (Lower.isPackage env name) d fun _ _ => True := by
  refine (lookup name).bind fun _ d₁ _ _ => ?_
  refine bind_lift (Gen.keeps_function? _) fun _ => ?_
  refine bind_lift (Gen.keeps_hasLayout _) fun _ => ?_
  exact bind_lift (keeps_ownField? _ _) fun _ => .pure trivial

theorem thisValue (henv : d.HasThis env) (span : Span) :
    Yields (Lower.thisValue env span) d fun o d' => d'.Carries o.value := by
  unfold Lower.thisValue
  split
  next this cls hthis => exact .pure (henv this cls hthis)
  · exact reported (by simp) _

theorem superValue (henv : d.HasThis env) (span : Span) :
    Yields (Lower.superValue env span) d fun o d' => d'.Carries o.value := by
  refine (thisValue henv span).bind fun this d₁ _ hthis => ?_
  split
  · refine bind_lift (Gen.keeps_layout? _) fun _ => ?_
    split
    · exact .pure hthis
    · exact .pure hthis
  · exact .pure hthis

theorem allocate (cls : String) : Yields (Lower.allocate cls) d fun v d' => d'.Carries v := by
  refine (element (v := .null) (carries_of_reads_eq_nil rfl) ?_ _).bind fun stop d₁ _ hstop => ?_
  · intro w hw
    rw [List.mem_singleton.1 hw]
    exact carries_of_reads_eq_nil rfl
  refine (cast hstop _ _).bind fun size d₂ _ hsize => ?_
  refine (malloc hsize).bind fun object d₃ _ hobject => ?_
  refine (structMember hobject cls 0).bind fun ptr d₄ hle₄ hptr => ?_
  refine (store (carries_of_reads_eq_nil rfl) hptr).bind fun _ d₅ hle₅ _ => ?_
  exact .pure (hobject.mono (le_trans hle₄ hle₅))

theorem vtableEntry (hv : d.Carries v) (cls : String) (slot : Nat) :
    Yields (Lower.vtableEntry cls v slot) d fun v' d' => d'.Carries v' := by
  refine (structMember hv cls 0).bind fun ptr d₁ _ hptr => ?_
  refine (load hptr .ptr).bind fun table d₂ _ htable => ?_
  refine (element htable ?_ _).bind fun entry d₃ _ hentry => load hentry .ptr
  intro w hw
  rw [List.mem_singleton.1 hw]
  exact carries_of_reads_eq_nil rfl

end Yields

end ClassLang.Draft
