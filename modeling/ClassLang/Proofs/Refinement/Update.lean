import ClassLang.Proofs.Refinement.Expr

/-!
# Declarations and assignments

A declaration takes a new slot, so the locals from before keep theirs, and what a declaration hides
can be seen again after the scope. An assignment stores to the slot that the local has. `Updates`
says that code makes the change to the store that a simple statement means.
-/

namespace ClassLang

namespace Core

/-! ## Simple statements in a scope of their own -/

variable {ρ ρ' : Store}

/-- What is left of a change when the innermost scope is closed that it was made in. -/
def Update.outside : Update → (before after : Store) → Store
  | declare .., before, _ => before
  | assign .., _, after => after

theorem eval_push (ρ : Store) : ∀ e, eval ({} :: ρ) e = eval ρ e
  | .prefixed op e _ => by rw [eval, eval, eval_push ρ e]
  | .binary op l r _ => by rw [eval, eval, eval_push ρ l, eval_push ρ r]
  | .ident _ | .int .. | .float .. | .string .. | .char .. | .bool .. | .null _ | .postfixed ..
  | .assign .. | .call .. | .index .. | .member .. | .array .. | .hash .. | .lambda .. | .new ..
  | .this _ | .super _ | .templateInstance .. => rfl

theorem initial_push (ρ : Store) (type? : Option TypeExpr) (value? : Option Expr) :
    initial ({} :: ρ) type? value? = initial ρ type? value? := by
  cases type? <;> cases value? <;> simp only [initial, eval_push]

theorem update?_push (ρ : Store) (s : Stmt) : update? ({} :: ρ) s = update? ρ s := by
  have hfind : ∀ name, Store.find? ({} :: ρ) name = ρ.find? name := fun _ => rfl
  unfold update?
  split <;> simp only [hfind, initial_push, eval_push]

/-- A simple statement in a scope of its own leaves no local behind. -/
theorem of_inScope_simple {s : Stmt} {out : Outcome}
    (h : Action.inScope (.simple s) ρ = some (out, ρ')) :
    out = .normal ∧ ∃ u ρ₁, update? ρ s = some u ∧ u.apply ρ = some ρ₁ ∧ ρ' = u.outside ρ ρ₁ := by
  simp only [Action.inScope, Action.simple, update?_push, Option.bind_eq_bind,
    Option.bind_eq_some_iff] at h
  obtain ⟨_, ⟨u, hu, ρ₂, hρ₂, heq⟩, h⟩ := h
  cases heq
  cases h
  refine ⟨rfl, u, ?_⟩
  cases u with
  | declare name v =>
    cases hρ₂
    exact ⟨_, hu, rfl, rfl⟩
  | assign name v =>
    obtain ⟨ρ₁, hρ₁, rfl⟩ := Option.map_eq_some_iff.1 hρ₂
    exact ⟨ρ₁, hu, hρ₁, rfl⟩

theorem exec_of_isSimple {s : Stmt} (h : isSimple s = true) (fuel : Nat) :
    exec fuel s = .simple s := by
  unfold isSimple at h
  split at h
  · rw [exec]
  · rw [exec]
  · rw [exec]
  · rw [exec]
  · cases h

end Core

/-- The type of the values of a kind. -/
def Kind.ty : Kind → Ty
  | int => .int
  | bool => .bool

/-- The names of kinds are not those of type parameters. -/
def Env.KnowsKinds (env : Env) : Prop := ∀ κ : Kind, env.bindings.lookup κ.name = none

namespace Lower

open Ir (Value)
open ClassLang.Core (Update)

variable {α β : Type} {x : Lower α} {f : α → Lower β} {c c' : Cursor}
  {pre : Ir.State → Prop} {post : α → Cursor → Ir.State → Prop}
  {final : β → Cursor → Ir.State → Prop} {ρ ρ' : Store} {m : Memory} {v : Val} {name : String}

/-! ## Code that declares -/

/-- The code of `x` extends an open block and may add names to the innermost scope. -/
def Advances (x : Lower α) : Prop := ∀ c, c.IsOpen → Ensures x c fun _ c' => c.Proceeds c'

theorem Adds.advances (h : Adds x) : Advances x := fun c ho => (h c ho).mono fun _ _ h => h.proceeds

theorem Advances.bind (hx : Advances x) (hf : ∀ a, Advances (f a)) : Advances (x >>= f) := by
  refine fun c ho => .bind ((hx c ho).mono fun a c' h => ?_)
  exact (hf a c' h.isOpen).mono fun _ _ h' => h.trans h'

/-- Like `Runs`, for code that may add names to the innermost scope. -/
def Goes (x : Lower α) (c : Cursor) (pre : Ir.State → Prop)
    (post : α → Cursor → Ir.State → Prop) : Prop :=
  Ensures x c fun a c' => c.Proceeds c' ∧ c.Through c' pre (post a c')

theorem Runs.goes (h : Runs x c pre post) : Goes x c pre post :=
  Ensures.mono h fun _ _ h => ⟨h.1.proceeds, h.2⟩

theorem Runs.bind_goes (h : Runs x c pre post)
    (hf : ∀ a c', c.Extends c' → Goes (f a) c' (post a c') final) :
    Goes (x >>= f) c pre final := by
  refine Ensures.bind (Ensures.mono h fun a c₁ ⟨hext₁, hrun₁⟩ => ?_)
  refine Ensures.mono (hf a c₁ hext₁) fun b c₂ ⟨hpro₂, hrun₂⟩ => ⟨hext₁.proceeds.trans hpro₂, ?_⟩
  exact hrun₁.trans hrun₂ hext₁.toGrows hpro₂.toGrows

theorem Goes.mono {pre' : Ir.State → Prop} {post' : α → Cursor → Ir.State → Prop}
    (h : Goes x c pre post) (hpre : ∀ s, pre' s → pre s)
    (hpost : ∀ a c' s, c.Proceeds c' → post a c' s → post' a c' s) : Goes x c pre' post' :=
  Ensures.mono h fun a c' ⟨hpro, hrun⟩ => ⟨hpro, hrun.mono hpre fun s => hpost a c' s hpro⟩

theorem Goes.bind (h : Goes x c pre post)
    (hf : ∀ a c', c.Proceeds c' → Goes (f a) c' (post a c') final) :
    Goes (x >>= f) c pre final := by
  refine Ensures.bind (Ensures.mono h fun a c₁ ⟨hpro₁, hrun₁⟩ => ?_)
  refine Ensures.mono (hf a c₁ hpro₁) fun b c₂ ⟨hpro₂, hrun₂⟩ => ⟨hpro₁.trans hpro₂, ?_⟩
  exact hrun₁.trans hrun₂ hpro₁.toGrows hpro₂.toGrows

theorem Advances.bindName (name : String) (l : Location) : Advances (Lower.bind name l) := by
  rw [bind_eq_modify]
  refine fun c ho _ => ⟨.withScopes c _, ho, ?_⟩
  show (c.scopes.modifyHead (·.insert name l)).tail = c.scopes.tail
  cases c.scopes <;> rfl

theorem Advances.bindValue (name : String) (ty : Ty) (ir : Ir.Ty) (value : Value) :
    Advances (Lower.bindValue name ty ir value) :=
  (Adds.alloca ir).advances.bind fun ptr => (Adds.store value ptr).advances.bind fun _ =>
    (bindName name _).bind fun _ => (Adds.pure _).advances

theorem Advances.define (name : String) (declared? : Option Ty) (value? : Option Operand) :
    Advances (Lower.define name declared? value?) := by
  have hrest : ∀ init ptr l, Advances (do
      Lower.store init ptr
      Lower.bind name l
      return l) := fun init ptr l =>
    (Adds.store init ptr).advances.bind fun _ => (bindName name l).bind fun _ =>
      (Adds.pure l).advances
  refine (Adds.alloca _).advances.bind fun ptr => ?_
  cases value? with
  | some o => exact (Adds.convert _ _).advances.bind fun init => hrest init ptr _
  | none => exact (Adds.pure _).advances.bind fun init => hrest init ptr _

/-! ## A new slot -/

/-- The slot of a new local is none of those from before. -/
theorem slot_ne_of_final {W : Draft} (hW : W.Final) {n : Nat} {ty : Ir.Ty}
    (h : c.slots ++ [.alloca ⟨n, .ptr⟩ ty] <+: W.cursor.slots) : ∀ r ∈ c.slotRegisters, r.id ≠ n := by
  intro r hr hid
  have hnodup := hW.valid.supplied.nodup
  rw [Draft.definitions, Draft.always, List.map_append, List.map_append] at hnodup
  have hslots := (List.nodup_append.1 (List.nodup_append.1 hnodup).1).2.1
  have hpre := (h.filterMap Ir.Instr.dest?).sublist.map Ir.Register.id
  rw [List.filterMap_append, List.map_append] at hpre
  refine (List.nodup_append.1 (hslots.sublist hpre)).2.2 r.id (List.mem_map_of_mem hr) n ?_ hid
  exact List.mem_singleton_self _

/-- A new local, which holds a value from before. -/
theorem Goes.bindValue {ty : Ty} {ir : Ir.Ty} {value : Value} (ho : c.IsOpen) (hρ : c.Agrees ρ m)
    (hir : ir = v.kind.ir) (hty : ty.isString = false) :
    Goes (Lower.bindValue name ty ir value) c (fun s => s.mem = m ∧ c.Carries s value v.word)
      fun l c' s => c'.Agrees (ρ.declare name v) s.mem ∧ c.Agrees ρ s.mem ∧
        Holds c'.slotRegisters s.mem v l := by
  refine fun g => ⟨Advances.bindValue name ty ir value c ho g, fun W hW hg k hat ⟨hm, hvalue⟩ => ?_⟩
  let n := c.nextRegister
  let c₁ : Cursor :=
    { c with nextRegister := n + 1, slots := c.slots ++ [.alloca ⟨n, .ptr⟩ ir] }
  let c₂ := c₁.push (.store value (.reg ⟨n, .ptr⟩))
  have hg₂ : c₂.Grows W.cursor := (Cursor.Grows.withScopes c₂ _).trans hg
  have hslot : (⟨n, .ptr⟩ : Ir.Register) ∈ c₂.slotRegisters := by
    simp [c₂, c₁, Cursor.push, Cursor.slotRegisters, Ir.Instr.dest?]
  have hslots : ∀ r ∈ c.slotRegisters, r ∈ c₂.slotRegisters := by
    intro r hr
    exact ((List.prefix_append c.slots _).filterMap _).subset hr
  have hn : ∀ r ∈ c.slotRegisters, r.id ≠ n := slot_ne_of_final hW hg₂.slots
  have hptr : (Value.reg ⟨n, .ptr⟩).slot? k.state = some n := by
    rw [Value.slot?, Value.word?, hat.ready _ (hg₂.mem_slotRegisters _ hslot)]
  have hexec : (Ir.Instr.store value (.reg ⟨n, .ptr⟩)).exec k.source? k.state =
      some (k.state.store n v.word) := by
    rw [Ir.Instr.exec, hptr, hvalue.word]
    rfl
  have hat₁ : W.At c₁ k := hat.congr rfl
  have hcurrent : c₂.current = c₁.current.push (.store value (.reg ⟨n, .ptr⟩)) := rfl
  obtain ⟨k', hstep, hat', hstate⟩ := hat₁.emit hW ho hcurrent hg₂ hexec
  have hmem : ∀ i, i ≠ n → k'.state.mem i = m i := by
    intro i hi
    rw [hstate, k.state.store_mem_of_ne v.word n hi, hm]
  have hword : k'.state.mem n = some v.word := by
    rw [hstate]
    exact k.state.store_mem_self v.word n
  refine ⟨k', ⟨.single hstep, hat'.congr rfl, fun i _ => by rw [hstate]; rfl⟩, ?_, ?_, ?_⟩
  · exact hρ.declare hn hslots hslot rfl hir hty hword hmem
  · exact hρ.of_mem_eq fun r hr => hmem r.id (hn r hr)
  · exact ⟨⟨n, rfl, hslot, hword⟩, hir, hty⟩

/-! ## Written types -/

theorem name_of_ofType? {t : TypeExpr} {κ : Kind} (h : Kind.ofType? t = some κ) :
    ∃ n, t = .named n ∧ n.name = κ.name := by
  unfold Kind.ofType? at h
  split at h
  · split at h
    next hn =>
      cases h
      exact ⟨_, rfl, hn⟩
    next =>
      obtain ⟨hn, h⟩ := Option.ite_none_right_eq_some.1 h
      cases h
      exact ⟨_, rfl, hn⟩
  · cases h

/-- A kind is known by its name, unless a type parameter has that name. -/
theorem resolveType_eq_pure {t : Gen.Typing} {e : TypeExpr} {κ : Kind}
    (ht : t.bindings.lookup κ.name = none) (h : Kind.ofType? e = some κ) :
    Gen.resolveType t e = pure κ.ty := by
  obtain ⟨n, rfl, hn⟩ := name_of_ofType? h
  rw [Gen.resolveType, Gen.namedType, hn, ht]
  cases κ <;> rfl

/-! ## Declarations -/

theorem Goes.assuming (hx : Advances x) (ho : c.IsOpen) (h : ∀ s, pre s → Goes x c pre post) :
    Goes x c pre post := by
  refine fun g => ⟨hx c ho g, fun W hW hg k hat hk => ?_⟩
  exact (h k.state hk g).2 W hW hg k hat hk

/-- A value is stored as it is in a local that has its kind. -/
theorem define_eq_bindValue (name : String) {declared? : Option Ty} {o : Operand}
    (ho : o.ir = v.kind.ir) (hty : o.ty.isString = false) (hdeclared : ∀ ty, declared? = some ty → ty = v.kind.ty) :
    ∃ ty : Ty, ty.isString = false ∧
      (define name declared? (some o) : Lower Location) =
        Lower.bindValue name ty v.kind.ir o.value := by
  have hvalue : o.value.ty = v.kind.ir := ho
  have horI32 : v.kind.ir.orI32 = v.kind.ir := by cases v <;> rfl
  cases declared? with
  | none =>
    refine ⟨o.ty, hty, ?_⟩
    simp only [define, Lower.bindValue, ho, horI32, convert_eq_pure hvalue, pure_bind]
  | some ty =>
    obtain rfl := hdeclared ty rfl
    have hknown : isUnresolved v.kind.ty = false := by cases v <;> rfl
    have hstorage : storageOf v.kind.ty = v.kind.ir := by cases v <;> rfl
    refine ⟨v.kind.ty, by cases v <;> rfl, ?_⟩
    simp only [define, Lower.bindValue, hknown, hstorage, convert_eq_pure hvalue, pure_bind,
      Bool.false_eq_true, if_false]

theorem Goes.define {declared? : Option Ty} {o : Operand} (ho : c.IsOpen) (hρ : c.Agrees ρ m)
    (hdeclared : ∀ ty, declared? = some ty → ty = v.kind.ty) :
    Goes (Lower.define name declared? (some o)) c (fun s => s.mem = m ∧ c.Gives s o v)
      fun l c' s => c'.Agrees (ρ.declare name v) s.mem ∧ c.Agrees ρ s.mem ∧
        Holds c'.slotRegisters s.mem v l := by
  refine assuming (.define name declared? (some o)) ho fun _ ⟨_, hv⟩ => ?_
  obtain ⟨ty, hty, heq⟩ := define_eq_bindValue name hv.ir hv.ty hdeclared
  rw [heq]
  exact (bindValue ho hρ rfl hty).mono (fun s hs => ⟨hs.1, hs.2.value⟩) fun _ _ _ _ hs => hs

/-- The zero of a kind. -/
theorem Carries.zero (κ : Kind) (s : Ir.State) : c.Carries s (.zero κ.ir) κ.zero.word := by
  cases κ <;> exact .constant rfl rfl rfl

theorem Goes.defineZero {κ : Kind} (ho : c.IsOpen) (hρ : c.Agrees ρ m) :
    Goes (Lower.define name (some κ.ty) none) c (·.mem = m)
      fun l c' s => c'.Agrees (ρ.declare name κ.zero) s.mem ∧ c.Agrees ρ s.mem ∧
        Holds c'.slotRegisters s.mem κ.zero l := by
  have heq : (Lower.define name (some κ.ty) none : Lower Location) =
      Lower.bindValue name κ.ty κ.ir (.zero κ.ir) := by
    cases κ <;> rfl
  have hir : κ.ir = κ.zero.kind.ir := by cases κ <;> rfl
  rw [heq]
  exact (bindValue ho hρ hir (by cases κ <;> rfl)).mono (fun s hs => ⟨hs, Carries.zero κ s⟩)
    fun _ _ _ _ hs => hs

/-! ## Assignments -/

/-- Storing to the slot of a local. -/
theorem Runs.assignTo {l : Location} {value : Value} (ho : c.IsOpen) (hρ : c.Agrees ρ m)
    (hρ' : ρ.assign name v = some ρ') (hl : c.local? name = some l) :
    Runs (Lower.assign l value) c (fun s => s.mem = m ∧ c.Carries s value v.word)
      fun _ _ s => c.Agrees ρ' s.mem := by
  obtain ⟨l', n, hl', hptr, hn, hir, hagrees⟩ := hρ.assign hρ'
  obtain rfl : l' = l := Option.some.inj (hl'.symm.trans hl)
  refine assuming (.assignTo value l') ho fun _ ⟨_, hvalue⟩ => ?_
  have hty : value.ty = l'.ir := by rw [hvalue.ty, v.ty_word, hir]
  rw [Lower.assign, convert_eq_pure hty, pure_bind, hptr]
  refine (store ho hn).bind fun _ c₁ hext => pure hext.isOpen fun s hs => ?_
  rw [hs]
  exact hagrees

/-- `++` and `--`. -/
theorem Runs.step {op : PostfixOp} {l : Location} {old : Val} (ho : c.IsOpen) (hρ : c.Agrees ρ m)
    (hold : ρ.find? name = some old) (hl : c.local? name = some l)
    (hv : Core.infix_ (Core.stepOp op) old (.int 1) = some v) (hρ' : ρ.assign name v = some ρ') :
    Runs (Lower.step op l) c (·.mem = m) fun _ _ s => c.Agrees ρ' s.mem := by
  obtain ⟨l', hl', hholds⟩ := hρ.find hold
  obtain rfl : l' = l := Option.some.inj (hl'.symm.trans hl)
  obtain ⟨l₁, n, hl₁, hptr, hn, -, hagrees⟩ := hρ.assign hρ'
  obtain rfl : l₁ = l' := Option.some.inj (hl₁.symm.trans hl)
  have hone : ∀ (c : Cursor) s, c.Carries s (.int 1 .i32) (.i32 1) :=
    fun _ _ => .constant rfl rfl rfl
  obtain ⟨hkind, happly, hty⟩ : old.kind = .int ∧
      (arithmeticOp (Core.stepOp op)).apply old.word (.i32 1) = some v.word ∧
      old.word.ty = v.word.ty := by
    cases op <;> cases old <;> cases hv <;> exact ⟨rfl, rfl, rfl⟩
  have heq : (Lower.step op l₁ : Lower Operand) = do
      let old ← Lower.load l₁.ptr l₁.ir
      let new ← Lower.binary (arithmeticOp (Core.stepOp op)) old (.int 1 .i32)
      Lower.store new (.reg ⟨n, .ptr⟩)
      return ⟨old, l₁.ty⟩ := by
    unfold Lower.step
    rw [hholds.ir, hkind, hptr]
    cases op <;> rfl
  rw [heq]
  refine (loadValue ho hholds).bind fun u c₁ hext₁ => ?_
  refine ((binary hext₁.isOpen happly hty).mono (fun s hs => ⟨hs.1, hs.2, hone c₁ s⟩)
    fun _ _ _ _ hs => hs).bind fun u' c₂ hext₂ => ?_
  have hn₂ := (hext₁.trans hext₂).toGrows.mem_slotRegisters _ hn
  refine (store hext₂.isOpen hn₂).bind fun _ c₃ hext₃ => pure hext₃.isOpen fun s hs => ?_
  rw [hs]
  exact hagrees

/-- A local is found before anything else of its name. -/
theorem Ensures.bind_location {detour : Detour} {env : Env} {n : Ident} {l : Location}
    {f : Option Location → Lower α} {Q : α → Cursor → Prop} (hl : c.local? n.name = some l)
    (h : Ensures (f (some l)) c Q) : Ensures (location detour env (.ident n) >>= f) c Q := by
  refine .bind ?_
  rw [location]
  exact .bind (.nameLocation hl (.pure h))

theorem Adds.location (detour : Detour) (env : Env) (n : Ident) :
    Adds (Lower.location detour env (.ident n)) := by
  rw [Lower.location]
  refine (nameLocation env n.name).bind fun l? => ?_
  split
  · exact pure _
  · exact (lift (Gen.report _ _)).bind fun _ => pure _

/-! ## Simple statements -/

/-- A run has made the change `u`, which the store after it shows, and so does the store around it. -/
structure Made (c : Cursor) (ρ : Store) (u : Update) (ρ' : Store) (c' : Cursor) (s : Ir.State) :
    Prop where
  after : c'.Agrees ρ' s.mem
  outside : c.Agrees (u.outside ρ ρ') s.mem

/-- The code of `x` makes the change that `meaning` says, in every store in which that is
something. -/
def Updates (meaning : Store → Option Update) (x : Lower α) : Prop :=
  ∀ c, c.IsOpen → Ensures x c fun _ c' => c.Proceeds c' ∧ ∀ ρ u ρ' m, meaning ρ = some u →
    u.apply ρ = some ρ' → c.Agrees ρ m → c.Through c' (·.mem = m) (Made c ρ u ρ' c')

/-- An assignment does not change the scopes. -/
theorem Made.assign {c₁ : Cursor} {s : Ir.State} (hρ : c.Agrees ρ m) (hext : c.Extends c₁)
    (hext' : c₁.Extends c') (h : c₁.Agrees ρ' s.mem) : Made c ρ (.assign name v) ρ' c' s :=
  ⟨h.keeps hext'.toKeeps, h.back hext.toKeeps hρ⟩

theorem Made.declare {c₁ : Cursor} {s : Ir.State} (hρ : c.Agrees ρ m) (hext : c.Extends c₁)
    (h : c'.Agrees (ρ.declare name v) s.mem) (h' : c₁.Agrees ρ s.mem) :
    Made c ρ (.declare name v) (ρ.declare name v) c' s :=
  ⟨h, h'.back hext.toKeeps hρ⟩

namespace Updates

variable {meaning : Store → Option Update} {u : Update}

theorem of_goes (hx : Advances x)
    (h : ∀ c ρ u ρ' m, c.IsOpen → meaning ρ = some u → u.apply ρ = some ρ' → c.Agrees ρ m →
      Goes x c (·.mem = m) fun _ c' s => Made c ρ u ρ' c' s) : Updates meaning x :=
  fun c ho g => ⟨hx c ho g, fun ρ u ρ' m hu hρ' hρ => (h c ρ u ρ' m ho hu hρ' hρ g).2⟩

theorem advances (h : Updates meaning x) : Advances x := fun c ho => (h c ho).mono fun _ _ h => h.1

theorem goes (h : Updates meaning x) (ho : c.IsOpen) (hu : meaning ρ = some u)
    (hρ' : u.apply ρ = some ρ') (hρ : c.Agrees ρ m) :
    Goes x c (·.mem = m) fun _ c' s => Made c ρ u ρ' c' s :=
  (h c ho).mono fun _ _ h => ⟨h.1, h.2 ρ u ρ' m hu hρ' hρ⟩

/-- What the code gives does not matter to a statement. -/
theorem discard (h : Updates meaning x) :
    Updates meaning (do
      let _ ← x
      return ()) := by
  refine fun c ho => .bind ((h c ho).mono fun _ _ h => .pure h)

end Updates

theorem Runs.mark (env : Env) (span : Span) (ho : c.IsOpen) :
    Runs (Lower.mark env span) c (·.mem = m) fun _ _ s => s.mem = m := by
  unfold Lower.mark marker?
  split
  next h =>
    obtain ⟨_, h⟩ := Option.ite_none_right_eq_some.1 h
    cases h
    exact emit ho fun _ s hs => ⟨s, rfl, rfl, fun _ _ => hs⟩
  next => exact pure ho fun _ hs => hs

theorem Updates.mark {meaning : Store → Option Update} (env : Env) (span : Span)
    (h : Updates meaning x) :
    Updates meaning (do
      Lower.mark env span
      x) := by
  refine .of_goes ((Adds.mark env span).advances.bind fun _ => h.advances) ?_
  intro c ρ u ρ' m ho hu hρ' hρ
  refine (Runs.mark env span ho).bind_goes fun _ c₁ hext => ?_
  have hρ₁ := hρ.keeps hext.toKeeps
  exact (h.goes hext.isOpen hu hρ' hρ₁).mono (fun _ hs => hs) fun _ _ _ _ hs =>
    ⟨hs.after, hs.outside.back hext.toKeeps hρ⟩

variable {detour : Detour} {env : Env}

theorem Adds.exprIf (detour : Detour) (env : Env) {e? : Option Expr}
    (h : e?.all Core.isPure = true) : Adds (Lower.exprIf detour env e?) := by
  cases e? with
  | none =>
    rw [Lower.exprIf]
    exact pure _
  | some e =>
    rw [Lower.exprIf]
    exact (computes_expr detour env e h).adds.map

/-- The declaration of a local with a written type or a first value. -/
theorem updates_declaration (henv : env.KnowsKinds) (name : String) (type? : Option TypeExpr)
    {value? : Option Expr} (hvalue : value?.all Core.isPure = true) :
    Updates (fun ρ => (Core.initial ρ type? value?).map (.declare name)) (do
      let declared? ← declaredType env type?
      let v? ← exprIf detour env value?
      let _ ← define name declared? v?) := by
  refine .of_goes ((Adds.lift _).advances.bind fun _ => (Adds.exprIf detour env hvalue).advances.bind
    fun _ => (Advances.define name _ _).bind fun _ => (Adds.pure _).advances) ?_
  intro c ρ u ρ' m ho hu hρ' hρ
  obtain ⟨v, hv, rfl⟩ := Option.map_eq_some_iff.1 hu
  cases hρ'
  have hvalue : ∀ e declared?, value? = some e → Core.eval ρ e = some v →
      (∀ ty, declared? = some ty → ty = v.kind.ty) → Goes (do
        let v? ← exprIf detour env value?
        let _ ← define name declared? v?) c (·.mem = m) fun _ c' s =>
          Made c ρ (.declare name v) (ρ.declare name v) c' s := by
    rintro e declared? rfl he hdeclared
    rw [exprIf, bind_map_left]
    refine ((computes_expr detour env e hvalue).runs ho he hρ).bind_goes fun o c₁ hext => ?_
    have hρ₁ := hρ.keeps hext.toKeeps
    exact (Goes.define hext.isOpen hρ₁ hdeclared).bind fun _ _ hpro =>
      (Runs.pure hpro.isOpen fun s hs => .declare hρ hext hs.1 hs.2.1).goes
  cases type? with
  | none =>
    cases value? with
    | none => cases hv
    | some e => exact hvalue e none rfl hv (by simp)
  | some t =>
    cases value? with
    | none =>
      obtain ⟨κ, hκ, rfl⟩ := Option.map_eq_some_iff.1 hv
      rw [declaredType, resolveType_eq_pure (henv κ) hκ, exprIf]
      exact (Goes.defineZero ho hρ).bind fun _ _ hpro =>
        (Runs.pure hpro.isOpen fun s hs => .declare hρ (.refl ho) hs.1 hs.2.1).goes
    | some e =>
      obtain ⟨he, hκ⟩ := Option.filter_eq_some_iff.1 hv
      rw [declaredType, resolveType_eq_pure (henv v.kind) (of_decide_eq_true hκ)]
      refine hvalue e (some v.kind.ty) rfl he fun _ h => ?_
      cases h
      rfl

section

variable (n : Ident) {e : Expr} (he : Core.isPure e = true) (span : Span)
include he

theorem updates_define : Updates (fun ρ => (Core.eval ρ e).map (.declare n.name))
    (expr detour env (.assign .define (.ident n) e span)) := by
  have hcomputes := computes_expr detour env e he
  rw [expr]
  refine .of_goes (hcomputes.adds.advances.bind fun o => (Advances.define _ _ _).bind fun l =>
    (Adds.loadFrom l).advances) ?_
  intro c ρ u ρ' m ho hu hρ' hρ
  obtain ⟨v, hv, rfl⟩ := Option.map_eq_some_iff.1 hu
  cases hρ'
  refine (hcomputes.runs ho hv hρ).bind_goes fun o c₁ hext => ?_
  have hρ₁ := hρ.keeps hext.toKeeps
  have hnone : ∀ ty, none = some ty → ty = v.kind.ty := fun _ h => nomatch h
  refine (Goes.define hext.isOpen hρ₁ hnone).bind fun l c₂ hpro => Runs.goes ?_
  -- The value that is loaded at the end is not used.
  refine .of_state (.loadFrom l) hpro.isOpen fun s ⟨hafter, hbefore, hl⟩ => ?_
  refine (Runs.load hpro.isOpen hl).mono (fun _ hs => congrArg _ hs) fun _ c₃ s' hext₃ hs' => ?_
  rw [← hs'.1] at hafter hbefore
  exact .declare hρ hext (hafter.keeps hext₃.toKeeps) hbefore

theorem updates_assign : Updates (fun ρ => (Core.eval ρ e).map (.assign n.name))
    (expr detour env (.assign .assign (.ident n) e span)) := by
  have hcomputes := computes_expr detour env e he
  rw [expr]
  refine .of_goes (hcomputes.adds.bind fun o => (Adds.location detour env n).bind fun l? => ?_).advances
    ?_
  · split
    · exact .assignTo _ _
    · exact .pure _
  · intro c ρ u ρ' m ho hu hρ' hρ
    obtain ⟨v, hv, rfl⟩ := Option.map_eq_some_iff.1 hu
    refine Runs.goes ((hcomputes.runs ho hv hρ).bind fun o c₁ hext => ?_)
    have hρ₁ := hρ.keeps hext.toKeeps
    obtain ⟨l, _, hl, _⟩ := hρ₁.assign hρ'
    refine Ensures.bind_location hl ?_
    exact (Runs.assignTo hext.isOpen hρ₁ hρ' hl).mono (fun s hs => ⟨hs.1, hs.2.value⟩)
      fun _ _ _ hext' hs => .assign hρ hext hext' hs

theorem updates_compound (op : InfixOp) :
    Updates (fun ρ => do
      return .assign n.name (← Core.infix_ op (← ρ.find? n.name) (← Core.eval ρ e)))
    (expr detour env (.assign (.compound op) (.ident n) e span)) := by
  have hcomputes := computes_expr detour env e he
  rw [expr]
  refine .of_goes ((Adds.location detour env n).bind fun l? => ?_).advances ?_
  · split
    · exact .pure _
    · exact (Adds.loadFrom _).bind fun _ => hcomputes.adds.bind fun _ => (Adds.infix_ _ _ op).bind
        fun _ => .assignTo _ _
  · intro c ρ u ρ' m ho hu hρ' hρ
    simp only [Option.bind_eq_bind, Option.bind_eq_some_iff] at hu
    obtain ⟨old, hold, w, hw, v, hv, hu⟩ := hu
    cases hu
    obtain ⟨l, hl, hholds⟩ := hρ.find hold
    refine Runs.goes (Ensures.bind_location hl ?_)
    refine (Runs.load ho hholds).bind fun o c₁ hext₁ => ?_
    have hρ₁ := hρ.keeps hext₁.toKeeps
    refine ((hcomputes.runs hext₁.isOpen hw hρ₁).keeping o old).bind fun o' c₂ hext₂ => ?_
    refine ((Runs.infix_ hext₂.isOpen hv).mono (fun s hs => ⟨hs.1.1, hs.2, hs.1.2⟩)
      fun _ _ _ _ hs => hs).bind fun result c₃ hext₃ => ?_
    have hext := (hext₁.trans hext₂).trans hext₃
    have hρ₃ := hρ.keeps hext.toKeeps
    have hl₃ : c₃.local? n.name = some l := by
      rw [Cursor.local?, hext.scopes]
      exact hl
    exact (Runs.assignTo hext₃.isOpen hρ₃ hρ' hl₃).mono (fun s hs => ⟨hs.1, hs.2.value⟩)
      fun _ _ _ hext' hs => .assign hρ hext hext' hs

end

theorem updates_step (op : PostfixOp) (n : Ident) (span : Span) :
    Updates (fun ρ => do
      return .assign n.name (← Core.infix_ (Core.stepOp op) (← ρ.find? n.name) (.int 1)))
    (expr detour env (.postfixed op (.ident n) span)) := by
  rw [expr]
  refine .of_goes ((Adds.location detour env n).bind fun l? => ?_).advances ?_
  · split
    · exact .step op _
    · exact .pure _
  · intro c ρ u ρ' m ho hu hρ' hρ
    simp only [Option.bind_eq_bind, Option.bind_eq_some_iff] at hu
    obtain ⟨old, hold, v, hv, hu⟩ := hu
    cases hu
    obtain ⟨l, hl, _⟩ := hρ.find hold
    refine Runs.goes (Ensures.bind_location hl ?_)
    exact (Runs.step ho hρ hold hl hv hρ').mono (fun _ hs => hs)
      fun _ _ _ hext hs => .assign hρ (.refl ho) hext hs

/-- The code of a simple statement makes the change that the statement means. -/
theorem updates_stmt (henv : env.KnowsKinds) {s : Stmt} (hs : Core.isSimple s = true) :
    Updates (Core.update? · s) (stmt detour env s) := by
  unfold Core.isSimple at hs
  split at hs
  next name type? value? span =>
    rw [stmt]
    exact (updates_declaration henv name.name type? hs).mark env span
  next name type? e span =>
    have hvalue : (some e).all Core.isPure = true := hs
    have h := (updates_declaration henv name.name type? hvalue : Updates _ (do
      let declared? ← declaredType env type?
      let v? ← exprIf detour env (some e)
      let _ ← define name.name declared? v?))
    rw [stmt]
    simp only [exprIf, bind_map_left] at h
    exact h.mark env span
  next op n e span =>
    rw [stmt]
    refine Updates.mark env _ (Updates.discard ?_)
    cases op with
    | define => exact updates_define n hs span
    | assign => exact updates_assign n hs span
    | compound op => exact updates_compound n hs span op
  next op n span =>
    rw [stmt]
    exact (updates_step op n span).discard.mark env _
  next => cases hs

end Lower

end ClassLang
