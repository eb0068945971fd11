import ClassLang.Proofs.Lowering.Outside

/-!
# Code generation as steps on drafts

`Leads x d Q` says that `x`, run at the cursor of the draft `d`, does what some draft can do, and that
`Q` holds of its result and of that draft. Code for an expression goes on from an open block and
leaves one open, and keeps at hand whatever was at hand; this is `Yields`.
-/

namespace ClassLang

namespace Draft

variable {α β : Type} {d d' d'' : Draft} {n : Nat} {L L' : Nat → Prop}

/-! ## What is at hand -/

/-- The registers that hold the addresses of the stack slots. -/
def slotRegisters (d : Draft) : List Ir.Register := d.cursor.slots.filterMap Ir.Instr.dest?

/-- In the second draft everything is at hand that is at hand in the first, and the scopes around the
innermost one are the same. -/
instance : LE Draft :=
  ⟨fun d d' => (∀ r, d.Has r → d'.Has r) ∧ (∀ r ∈ d.slotRegisters, r ∈ d'.slotRegisters) ∧
    d'.cursor.scopes.tail = d.cursor.scopes.tail⟩

theorem le_refl (d : Draft) : d ≤ d := ⟨fun _ hr => hr, fun _ hr => hr, rfl⟩

theorem le_trans (h : d ≤ d') (h' : d' ≤ d'') : d ≤ d'' :=
  ⟨fun r hr => h'.1 r (h.1 r hr), fun r hr => h'.2.1 r (h.2.1 r hr), h'.2.2.trans h.2.2⟩

theorem Carries.mono {v : Ir.Value} (hv : d.Carries v) (h : d ≤ d') : d'.Carries v :=
  fun r hr => h.1 r (hv r hr)

theorem carries_reg {r : Ir.Register} (h : d.Has r) : d.Carries (.reg r) := by
  intro r' hr'
  rw [List.mem_singleton.1 hr']
  exact h

theorem carries_of_reads_eq_nil {v : Ir.Value} (h : v.reads = []) : d.Carries v := by
  intro r hr
  rw [h] at hr
  cases hr

theorem always_has {r : Ir.Register} (h : r ∈ d.always) : d.Has r := .inl h

theorem has_start {id : Nat} {label : String} {r : Ir.Register} :
    (d.start id label).Has r ↔ r ∈ d.always ∨ d.promise id r := by
  simp [Has, HasAt, start, Ir.Block.writes, always]

theorem has_of_mem_slotRegisters {r : Ir.Register} (h : r ∈ d.slotRegisters) : d.Has r :=
  always_has (List.mem_append_right _ h)

theorem le_push (i : Ir.Instr) : d ≤ d.push i := by
  refine ⟨fun r hr => ?_, fun _ hr => hr, rfl⟩
  refine hr.imp_right (.imp_right fun hr => ?_)
  simp only [push, Cursor.push, Ir.Block.push, Ir.Block.writes, List.filterMap_append]
  exact List.mem_append_left _ hr

theorem le_assign (i : Ir.Instr) : d ≤ d.assign i := by
  refine ⟨fun r hr => ?_, fun _ hr => hr, rfl⟩
  refine hr.imp_right (.imp_right fun hr => ?_)
  simp only [assign, Cursor.push, Ir.Block.push, Ir.Block.writes, List.filterMap_append]
  exact List.mem_append_left _ hr

theorem has_assign {i : Ir.Instr} {r : Ir.Register} (hi : i.dest? = some r) :
    (d.assign i).Has r := by
  refine .inr (.inr ?_)
  simp [assign, Cursor.push, Ir.Block.push, Ir.Block.writes, hi]

theorem slotRegisters_addSlot (ty : Ir.Ty) :
    (d.addSlot ty).slotRegisters = d.slotRegisters ++ [⟨d.nextRegister, .ptr⟩] := by
  simp [slotRegisters, addSlot, Ir.Instr.dest?]

theorem le_addSlot (ty : Ir.Ty) : d ≤ d.addSlot ty := by
  refine ⟨fun r hr => hr.imp_left fun hr => ?_, fun r hr => ?_, rfl⟩
  · rw [always_addSlot]
    exact List.mem_append_left _ hr
  · rw [slotRegisters_addSlot]
    exact List.mem_append_left _ hr

theorem le_withScopes {ss : List (Table Location)} (h : ss.tail = d.cursor.scopes.tail) :
    d ≤ d.withScopes ss :=
  ⟨fun _ hr => hr, fun _ hr => hr, h⟩

/-- A stack slot that no local outside of the innermost scope has. -/
structure Spare (d : Draft) (ptr : Ir.Value) : Prop where
  slot : ∃ r ∈ d.slotRegisters, ptr = .reg r
  unused : ∀ s ∈ d.cursor.scopes.tail, ∀ name l, s.find? name = some l → l.ptr ≠ ptr

theorem Spare.mono {ptr : Ir.Value} (h : d.Spare ptr) (hle : d ≤ d') : d'.Spare ptr := by
  obtain ⟨r, hr, hptr⟩ := h.slot
  refine ⟨⟨r, hle.2.1 r hr, hptr⟩, ?_⟩
  rw [hle.2.2]
  exact h.unused

theorem Spare.carries {ptr : Ir.Value} (h : d.Spare ptr) : d.Carries ptr := by
  obtain ⟨r, hr, rfl⟩ := h.slot
  exact carries_reg (has_of_mem_slotRegisters hr)

theorem spare_addSlot (hd : d.Valid) (ty : Ir.Ty) :
    (d.addSlot ty).Spare (.reg ⟨d.nextRegister, .ptr⟩) := by
  refine ⟨⟨_, ?_, rfl⟩, fun s hs name l hl hptr => ?_⟩
  · rw [slotRegisters_addSlot]
    exact List.mem_append_right _ (List.mem_singleton_self _)
  · obtain ⟨r, hr, hreg⟩ := hd.supplied.locals s (List.mem_of_mem_tail hs) name l hl
    have hbound := hd.supplied.bound r
      (mem_definitions.2 (.inl (List.mem_append_right _ hr)))
    rw [hreg] at hptr
    cases hptr
    exact Nat.lt_irrefl _ hbound

theorem has_alloc (hd : d.Valid) {r : Ir.Register} : d.alloc.Has r ↔ d.Has r := by
  have hne : d.cursor.current.id ≠ d.nextBlock :=
    Nat.ne_of_lt (hd.linked.bound _ d.current_id_mem)
  simp only [Has, HasAt, alloc, if_neg hne]
  rfl

/-! ## Going on -/

/-- Code has been added that leaves nothing undone: every block that was asked for meanwhile is
there, and nothing that was at hand is lost. Control goes to new blocks and to those of `L` only. -/
structure Follows (L : Nat → Prop) (d d' : Draft) : Prop where
  run : Run d.nextBlock L d d'
  le : d ≤ d'
  started : ∀ b, d.nextBlock ≤ b → b < d'.nextBlock → b ∈ d'.ids

namespace Follows

theorem refl (d : Draft) : Follows L d d :=
  ⟨.refl, le_refl d, fun _ h h' => absurd h' (Nat.not_lt.2 h)⟩

theorem trans (h : Follows L d d') (h' : Follows L d' d'') : Follows L d d'' := by
  refine ⟨?_, le_trans h.le h'.le, fun b hb hb' => ?_⟩
  · exact h.run.trans (h'.run.mono h.run.nextBlock_le fun _ => .inr)
  · rcases Nat.lt_or_ge b d'.nextBlock with hlt | hge
    · exact h'.run.mem_ids (h.started b hb hlt)
    · exact h'.started b hge hb'

/-- A single step that asks for no block. -/
theorem of_step (h : Step d.nextBlock L d d') (hle : d ≤ d') (hnext : d'.nextBlock = d.nextBlock) :
    Follows L d d' :=
  ⟨.single h, hle, fun b hb hb' => absurd hb' (by rw [hnext]; exact Nat.not_lt.2 hb)⟩

theorem mono (h : Follows L' d d') (hL : ∀ b, L' b → L b) : Follows L d d' :=
  ⟨h.run.mono (Nat.le_refl _) fun b hb => .inr (hL b hb), h.le, h.started⟩

end Follows

/-! ## What a piece of code generation does -/

/-- Run at the cursor of `d`, `x` gives a result and gets to a draft such that `Q`. -/
def Leads (x : Lower α) (d : Draft) (Q : α → Draft → Prop) : Prop :=
  ∀ g : GenState, g.Sound → ∃ a d' g', (x.run d.cursor).run g = ((a, d'.cursor), g') ∧ g'.Sound ∧
    Q a d'

namespace Leads

variable {x : Lower α} {f : α → Lower β} {Q R : α → Draft → Prop} {S : β → Draft → Prop}

theorem mono (h : Leads x d Q) (hQ : ∀ a d', Q a d' → R a d') : Leads x d R := by
  intro g hg
  obtain ⟨a, d', g', hrun, hg', hq⟩ := h g hg
  exact ⟨a, d', g', hrun, hg', hQ a d' hq⟩

theorem pure {a : α} (h : Q a d) : Leads (Pure.pure a) d Q :=
  fun g hg => ⟨a, d, g, rfl, hg, h⟩

theorem bind (h : Leads x d Q) (hf : ∀ a d', Q a d' → Leads (f a) d' S) :
    Leads (x >>= f) d S := by
  intro g hg
  obtain ⟨a, d', g', hrun, hg', hq⟩ := h g hg
  obtain ⟨b, d'', g'', hrun', hg'', hs⟩ := hf a d' hq g' hg'
  refine ⟨b, d'', g'', ?_, hg'', hs⟩
  rw [StateT.run_bind, StateT.run_bind, hrun]
  exact hrun'

/-- Code that was generated in two parts, of which the first is what `h` is about. -/
theorem of_bind_bind {γ : Type} {k : β → Lower γ} {T : γ → Draft → Prop}
    (h : Leads ((x >>= f) >>= k) d T) : Leads (x >>= fun a => f a >>= k) d T := by
  rw [bind_assoc] at h
  exact h

theorem map {R : β → Draft → Prop} {h : α → β} (hx : Leads x d Q)
    (hR : ∀ a d', Q a d' → R (h a) d') : Leads (h <$> x) d R := by
  rw [map_eq_pure_bind]
  exact hx.bind fun a d' hq => .pure (hR a d' hq)

theorem lift {y : Gen α} (hy : y.Keeps) (h : ∀ g, Q (y.run g).1 d) : Leads (liftM y) d Q :=
  fun g hg => ⟨_, d, _, rfl, hy g hg, h g⟩

/-! ### Primitives -/

theorem freshBlock {Q : Nat → Draft → Prop} (h : Q d.nextBlock d.alloc) :
    Leads Lower.freshBlock d Q :=
  fun g hg => ⟨_, d.alloc, g, rfl, hg, h⟩

theorem startBlock {Q : Unit → Draft → Prop} {id : Nat} {label : String}
    (h : Q () (d.start id label)) : Leads (Lower.startBlock id label) d Q :=
  fun g hg => ⟨(), d.start id label, g, rfl, hg, h⟩

theorem terminate {Q : Unit → Draft → Prop} {t : Ir.Terminator}
    (hopen : d.IsOpen → Q () (d.close t)) (hended : ¬ d.IsOpen → Q () d) :
    Leads (Lower.terminate t) d Q := by
  intro g hg
  by_cases h : d.IsOpen
  · refine ⟨(), d.close t, g, ?_, hg, hopen h⟩
    rw [← terminate_cursor h]
    rfl
  · refine ⟨(), d, g, ?_, hg, hended h⟩
    conv => rhs; rw [← terminate_of_not_isOpen h t]
    rfl

theorem bind_currentBlock {f : Nat → Lower β} (h : Leads (f d.cursor.current.id) d S) :
    Leads (Lower.currentBlock >>= f) d S := h

theorem bind_site {env : Env} {f : Site → Lower β}
    (h : Leads (f ⟨d.cursor.scopes, env.loops⟩) d S) : Leads (Lower.site env >>= f) d S := h

theorem emit {Q : Unit → Draft → Prop} {i : Ir.Instr} (h : Q () (d.push i)) :
    Leads (Lower.emit i) d Q :=
  fun g hg => ⟨(), d.push i, g, rfl, hg, h⟩

theorem scopes {Q : Unit → Draft → Prop} {f : List (Table Location) → List (Table Location)}
    {ss : List (Table Location)} (hf : f d.cursor.scopes = ss) (h : Q () (d.withScopes ss)) :
    Leads (modify fun c => { c with scopes := f c.scopes } : Lower Unit) d Q := by
  subst hf
  exact fun g hg => ⟨(), d.withScopes _, g, rfl, hg, h⟩

theorem phi {Q : Ir.Value → Draft → Prop} {ty : Ir.Ty} {incoming : List (Ir.Value × Nat)}
    (h : Q (.reg ⟨d.nextRegister, ty⟩) (d.assign (.phi ⟨d.nextRegister, ty⟩ incoming))) :
    Leads (Lower.phi ty incoming) d Q :=
  fun g hg => ⟨_, d.assign _, g, rfl, hg, h⟩

end Leads

/-! ## Code that leaves its block open -/

/-- Added to an open block, the code of `x` follows and leaves a block open such that `Q`. -/
def Yields (x : Lower α) (d : Draft) (Q : α → Draft → Prop) : Prop :=
  d.Valid → d.IsOpen → ∀ L, Leads x d fun a d' => Follows L d d' ∧ d'.IsOpen ∧ Q a d'

namespace Yields

variable {x : Lower α} {f : α → Lower β} {Q R : α → Draft → Prop} {S : β → Draft → Prop}

theorem pure {a : α} (h : Q a d) : Yields (Pure.pure a) d Q :=
  fun _ ho _ => .pure ⟨.refl d, ho, h⟩

theorem bind (h : Yields x d Q) (hf : ∀ a d', d ≤ d' → Q a d' → Yields (f a) d' S) :
    Yields (x >>= f) d S := by
  intro hd ho L
  refine (h hd ho L).bind fun a d' ⟨hfol, ho', hq⟩ => ?_
  refine (hf a d' hfol.le hq (hfol.run.valid hd) ho' L).mono fun b d'' ⟨hfol', hrest⟩ => ?_
  exact ⟨hfol.trans hfol', hrest⟩

theorem map {h : α → β} (hx : Yields x d Q) (hS : ∀ a d', d ≤ d' → Q a d' → S (h a) d') :
    Yields (h <$> x) d S := by
  rw [map_eq_pure_bind]
  exact hx.bind fun a d' hle hq => .pure (hS a d' hle hq)

theorem lift {y : Gen α} (hy : y.Keeps) (h : ∀ g, Q (y.run g).1 d) : Yields (liftM y) d Q :=
  fun _ ho _ => .lift hy fun g => ⟨.refl d, ho, h g⟩

/-- Code after a step outside of the function. -/
theorem bind_lift {y : Gen α} (hy : y.Keeps) (hf : ∀ g, Yields (f (y.run g).1) d S) :
    Yields (liftM y >>= f) d S := by
  refine (lift (Q := fun a d' => d' = d ∧ ∃ g, a = (y.run g).1) hy fun g => ⟨rfl, g, rfl⟩).bind ?_
  rintro _ _ _ ⟨rfl, g, rfl⟩
  exact hf g

/-- A result that depends on the state only through what always holds of it. -/
theorem of_state {a : GenState → α} (hx : ∀ g, (x.run d.cursor).run g = ((a g, d.cursor), g))
    (h : ∀ g, g.Sound → Q (a g) d) : Yields x d Q :=
  fun _ ho _ g hg => ⟨a g, d, g, hx g, hg, .refl d, ho, h g hg⟩

theorem mapM {γ : Type} {f : γ → Lower α} {P : γ → Draft → Prop} (l : List γ)
    (hP : ∀ c d d', d ≤ d' → P c d → P c d') (hQ : ∀ a d d', d ≤ d' → Q a d → Q a d')
    (hf : ∀ c ∈ l, ∀ d', P c d' → Yields (f c) d' Q) (hl : ∀ c ∈ l, P c d) :
    Yields (l.mapM f) d fun as d' => ∀ a ∈ as, Q a d' := by
  induction l generalizing d with
  | nil => exact .pure fun _ h => nomatch h
  | cons c l ih =>
    rw [List.mapM_cons]
    refine (hf c List.mem_cons_self d (hl c List.mem_cons_self)).bind fun a d' hle ha => ?_
    refine (ih (fun c' hc' => hf c' (List.mem_cons_of_mem _ hc'))
      fun c' hc' => hP c' d d' hle (hl c' (List.mem_cons_of_mem _ hc'))).bind
        fun as d'' hle' has => .pure fun a' ha' => ?_
    rcases List.mem_cons.1 ha' with rfl | ha'
    · exact hQ a' d' d'' hle' ha
    · exact has a' ha'

theorem forM {γ : Type} {f : γ → Lower Unit} {P : γ → Draft → Prop} (l : List γ)
    (hP : ∀ c d d', d ≤ d' → P c d → P c d')
    (hf : ∀ c ∈ l, ∀ d', P c d' → Yields (f c) d' fun _ _ => True) (hl : ∀ c ∈ l, P c d) :
    Yields (l.forM f) d fun _ _ => True := by
  induction l generalizing d with
  | nil => exact .pure trivial
  | cons c l ih =>
    refine (hf c List.mem_cons_self d (hl c List.mem_cons_self)).bind fun _ d' hle _ => ?_
    exact ih (fun c' hc' => hf c' (List.mem_cons_of_mem _ hc'))
      fun c' hc' => hP c' d d' hle (hl c' (List.mem_cons_of_mem _ hc'))

/-! ### Instructions -/

/-- Adding an instruction that writes no register. -/
theorem emit {i : Ir.Instr} (hplain : i.isPlain = true) (hdest : i.dest? = none)
    (hreads : ∀ r ∈ i.reads, d.Has r) : Yields (Lower.emit i) d fun _ _ => True :=
  fun _ ho _ => .emit ⟨.of_step (.push i ho hplain hdest hreads) (le_push i) rfl, ho, trivial⟩

/-- Adding an instruction that writes the next register. -/
theorem of_assign {x : Lower Ir.Value} {i : Ir.Instr} {ty : Ir.Ty}
    (hx : ∀ g, (x.run d.cursor).run g = ((.reg ⟨d.nextRegister, ty⟩, (d.assign i).cursor), g))
    (hplain : i.isPlain = true) (hdest : i.dest? = some ⟨d.nextRegister, ty⟩)
    (hreads : ∀ r ∈ i.reads, d.Has r) : Yields x d fun v d' => d'.Carries v :=
  fun _ ho _ g hg => ⟨_, d.assign i, g, hx g, hg,
    .of_step (.assign i ty ho hplain hdest hreads) (le_assign i) rfl, ho,
    carries_reg (has_assign hdest)⟩

variable {v w : Ir.Value}

private theorem reads_pair (hv : d.Carries v) (hw : d.Carries w) :
    ∀ r ∈ v.reads ++ w.reads, d.Has r :=
  fun r hr => (List.mem_append.1 hr).elim (hv r) (hw r)

private theorem reads_list {vs : List Ir.Value} (hv : d.Carries v) (hvs : ∀ w ∈ vs, d.Carries w) :
    ∀ r ∈ v.reads ++ vs.flatMap Ir.Value.reads, d.Has r := by
  intro r hr
  rcases List.mem_append.1 hr with hr | hr
  · exact hv r hr
  · obtain ⟨w, hw, hr⟩ := List.mem_flatMap.1 hr
    exact hvs w hw r hr

theorem load (hv : d.Carries v) (ty : Ir.Ty) :
    Yields (Lower.load v ty) d fun v' d' => d'.Carries v' :=
  of_assign (i := .load ⟨d.nextRegister, ty⟩ v) (fun _ => rfl) rfl rfl hv

theorem store (hv : d.Carries v) (hw : d.Carries w) : Yields (Lower.store v w) d fun _ _ => True :=
  emit rfl rfl (reads_pair hv hw)

theorem binary (hv : d.Carries v) (hw : d.Carries w) (op : Ir.BinaryOp) :
    Yields (Lower.binary op v w) d fun v' d' => d'.Carries v' :=
  of_assign (i := .binary ⟨d.nextRegister, v.ty⟩ op v w) (fun _ => rfl) rfl rfl (reads_pair hv hw)

theorem compare (hv : d.Carries v) (hw : d.Carries w) (op : Ir.CompareOp) :
    Yields (Lower.compare op v w) d fun v' d' => d'.Carries v' :=
  of_assign (i := .compare ⟨d.nextRegister, .i1⟩ op v w) (fun _ => rfl) rfl rfl (reads_pair hv hw)

theorem cast (hv : d.Carries v) (op : Ir.CastOp) (target : Ir.Ty) :
    Yields (Lower.cast op v target) d fun v' d' => d'.Carries v' :=
  of_assign (i := .cast ⟨d.nextRegister, target⟩ op v) (fun _ => rfl) rfl rfl hv

theorem element (hv : d.Carries v) {indices : List Ir.Value} (hi : ∀ w ∈ indices, d.Carries w)
    (base : Ir.Ty) : Yields (Lower.element base v indices) d fun v' d' => d'.Carries v' :=
  of_assign (i := .element ⟨d.nextRegister, .ptr⟩ base v indices) (fun _ => rfl) rfl rfl
    (reads_list hv hi)

theorem call (callee : Ir.Callee) (hc : ∀ r ∈ callee.reads, d.Has r) {args : List Ir.Value}
    (hargs : ∀ w ∈ args, d.Carries w) (ret : Ir.Ty) (fixed? : Option (List Ir.Ty)) :
    Yields (Lower.call ret callee args fixed?) d fun v' d' => d'.Carries v' := by
  have hreads : ∀ r ∈ callee.reads ++ args.flatMap Ir.Value.reads, d.Has r := by
    intro r hr
    rcases List.mem_append.1 hr with hr | hr
    · exact hc r hr
    · obtain ⟨w, hw, hr⟩ := List.mem_flatMap.1 hr
      exact hargs w hw r hr
  unfold Lower.call
  split
  · exact (emit (i := .call none ret callee args fixed?) rfl rfl hreads).bind
      fun _ d' _ _ => .pure (carries_of_reads_eq_nil rfl)
  · exact of_assign (i := .call (some ⟨d.nextRegister, ret⟩) ret callee args fixed?) (fun _ => rfl)
      rfl rfl hreads

theorem callOutside {args : List Ir.Value} (hargs : ∀ w ∈ args, d.Carries w) (name : String)
    (ret : Ir.Ty) (params : List Ir.Ty) :
    Yields (Lower.callOutside name ret params args) d fun v' d' => d'.Carries v' := by
  refine bind_lift (Gen.keeps_declare name ret params false) fun _ => ?_
  exact call (.function name) (by simp [Ir.Callee.reads]) hargs ret none

/-! ### Slots and names -/

theorem alloca (ty : Ir.Ty) : Yields (Lower.alloca ty) d fun v d' => d'.Spare v :=
  fun hd ho _ g hg => ⟨_, d.addSlot ty, g, rfl, hg, .of_step (.slot ty) (le_addSlot ty) rfl, ho,
    spare_addSlot hd ty⟩

/-- Binds a name to a stack slot. -/
theorem bindName (name : String) {l : Location} (hl : d.Spare l.ptr) :
    Yields (Lower.bind name l) d fun _ _ => True := by
  rw [Lower.bind_eq_modify]
  intro hd ho L
  have hlocals := hd.supplied.locals
  have hapart := hd.supplied.apart
  have hunused := hl.unused
  let f : List (Table Location) → List (Table Location) := List.modifyHead (·.insert name l)
  cases hscopes : d.cursor.scopes with
  | nil =>
    refine .scopes (f := f) (congrArg f hscopes)
      ⟨.of_step (.scopes [] ?_ .nil) (le_withScopes ?_) rfl, ho, trivial⟩
    · exact List.forall_mem_nil _
    · rw [hscopes]
      rfl
  | cons scope outer =>
    rw [hscopes] at hlocals hapart hunused
    obtain ⟨hscope, houter⟩ := List.pairwise_cons.1 hapart
    refine .scopes (f := f) (congrArg f hscopes)
      ⟨.of_step (.scopes (scope.insert name l :: outer) ?_ ?_) (le_withScopes ?_) rfl, ho, trivial⟩
    · intro s hs key l' hl'
      rcases List.mem_cons.1 hs with rfl | hs
      · rw [Table.find?_insert] at hl'
        split at hl'
        · cases hl'
          exact hl.slot
        · exact hlocals scope List.mem_cons_self key l' hl'
      · exact hlocals s (List.mem_cons_of_mem _ hs) key l' hl'
    · refine List.pairwise_cons.2 ⟨fun s hs x y l₁ l₂ hl₁ hl₂ => ?_, houter⟩
      rw [Table.find?_insert] at hl₁
      split at hl₁
      · cases hl₁
        exact (hunused s hs y l₂ hl₂).symm
      · exact hscope s hs x y l₁ l₂ hl₁ hl₂
    · rw [hscopes]
      rfl

/-- The address of what a name stands for can be read. -/
theorem lookup (name : String) :
    Yields (Lower.lookup name) d fun l? d' => ∀ l, l? = some l → d'.Carries l.ptr := by
  intro hd
  refine of_state (a := fun g => d.cursor.local? name <|> g.globals.find? name) (fun _ => rfl)
    (fun g hg l hl => ?_) hd
  rcases hlocal : d.cursor.local? name with _ | l'
  · rw [hlocal] at hl
    exact carries_of_reads_eq_nil (hg.globals name l hl)
  · rw [hlocal] at hl
    cases hl
    obtain ⟨s, hs, hfind⟩ := List.exists_of_findSome?_eq_some hlocal
    obtain ⟨r, hr, hptr⟩ := hd.supplied.locals s hs name l hfind
    rw [hptr]
    exact carries_reg (has_of_mem_slotRegisters hr)

/-- Puts a value in a slot and binds a name to it. -/
theorem fillSlot {l : Location} (hl : d.Spare l.ptr) {v : Ir.Value} (hv : d.Carries v)
    (name : String) :
    Yields (do
      Lower.store v l.ptr
      Lower.bind name l
      return l) d fun l' d' => d'.Carries l'.ptr := by
  refine (store hv hl.carries).bind fun _ d₁ hle₁ _ => ?_
  refine (bindName name (hl.mono hle₁)).bind fun _ d₂ hle₂ _ => ?_
  exact .pure (hl.carries.mono (le_trans hle₁ hle₂))

theorem bindValue {v : Ir.Value} (hv : d.Carries v) (name : String) (ty : Ty) (ir : Ir.Ty) :
    Yields (Lower.bindValue name ty ir v) d fun l d' => d'.Carries l.ptr :=
  (alloca ir).bind fun _ _ hle hptr => fillSlot hptr (hv.mono hle) name

theorem loadFrom {l : Location} (hl : d.Carries l.ptr) :
    Yields (Lower.loadFrom l) d fun o d' => d'.Carries o.value :=
  (load hl l.ir).bind fun _ _ _ hv => .pure hv

end Yields

/-! ## Code that may end its block -/

/-- The code of `x` follows and gets to a draft such that `Q`. -/
def Goes (L : Nat → Prop) (x : Lower α) (d : Draft) (Q : α → Draft → Prop) : Prop :=
  d.Valid → Leads x d fun a d' => Follows L d d' ∧ Q a d'

/-- Control may go to a block: there is one, it holds no phi, and what is promised to it is at
hand. -/
structure Target (d : Draft) (b : Nat) : Prop where
  lt : b < d.nextBlock
  plain : ¬ d.Merges b
  promise : ∀ r, d.promise b r → d.Has r

theorem Target.follows {b : Nat} (h : d.Target b) (hf : Follows L d d') : d'.Target b where
  lt := Nat.lt_of_lt_of_le h.lt hf.run.nextBlock_le
  plain hm := h.plain (hf.run.merges h.lt hm)
  promise r hr := by
    rw [hf.run.promise h.lt] at hr
    exact hf.le.1 r (h.promise r hr)

theorem isOpen_close {t : Ir.Terminator} (ht : t ≠ .open_) : ¬ (d.close t).IsOpen := by
  intro h
  exact ht (by simpa [IsOpen, close, Ir.Block.isTerminated] using h)

namespace Goes

variable {x : Lower α} {f : α → Lower β} {Q R : α → Draft → Prop} {S : β → Draft → Prop}

theorem mono (h : Goes L x d Q) (hQ : ∀ a d', Follows L d d' → Q a d' → R a d') : Goes L x d R :=
  fun hd => (h hd).mono fun a d' ⟨hf, hq⟩ => ⟨hf, hQ a d' hf hq⟩

theorem pure {a : α} (h : Q a d) : Goes L (Pure.pure a) d Q := fun _ => .pure ⟨.refl d, h⟩

theorem bind (h : Goes L x d Q) (hf : ∀ a d', Follows L d d' → Q a d' → Goes L (f a) d' S) :
    Goes L (x >>= f) d S := by
  intro hd
  refine (h hd).bind fun a d' ⟨hfol, hq⟩ => ?_
  refine (hf a d' hfol hq (hfol.run.valid hd)).mono fun b d'' ⟨hfol', hs⟩ => ?_
  exact ⟨hfol.trans hfol', hs⟩

theorem lift {y : Gen α} (hy : y.Keeps) (h : ∀ g, Q (y.run g).1 d) : Goes L (liftM y) d Q :=
  fun _ => .lift hy fun g => ⟨.refl d, h g⟩

/-- Code after a step outside of the function. -/
theorem bind_lift {y : Gen α} (hy : y.Keeps) (hf : ∀ g, Goes L (f (y.run g).1) d S) :
    Goes L (liftM y >>= f) d S := by
  refine (lift (Q := fun a d' => d' = d ∧ ∃ g, a = (y.run g).1) hy fun g => ⟨rfl, g, rfl⟩).bind ?_
  rintro _ _ _ ⟨rfl, g, rfl⟩
  exact hf g

/-- Code that depends on the state, of which all that is known is what always holds of it. -/
theorem bind_state {f : GenState → Lower β} (hf : ∀ g, g.Sound → Goes L (f g) d S) :
    Goes L (getThe GenState >>= f) d S :=
  fun hd g hg => hf g hg hd g hg

theorem weaken (h : Goes L' x d Q) (hL : ∀ b, L' b → L b) : Goes L x d Q :=
  fun hd => (h hd).mono fun _ _ ⟨hf, hq⟩ => ⟨hf.mono hL, hq⟩

/-- Ends the block at hand, if it is open. -/
theorem terminate {t : Ir.Terminator} (ht : t ≠ .open_)
    (hreads : d.IsOpen → ∀ r ∈ t.reads, d.Has r) (htargets : ∀ b ∈ t.targets, L b ∧ d.Target b) :
    Goes L (Lower.terminate t) d fun _ d' => ¬ d'.IsOpen := by
  intro _
  refine .terminate (fun ho => ⟨.of_step (.close t ho ht (hreads ho) fun b hb => ?_) (le_refl d)
    rfl, isOpen_close ht⟩) (fun ho => ⟨.refl d, ho⟩)
  obtain ⟨hL, hb⟩ := htargets b hb
  exact ⟨.inr hL, hb.lt, hb.plain, hb.promise⟩

theorem jump {target : Nat} (hL : L target) (ht : d.Target target) :
    Goes L (Lower.jump target) d fun _ d' => ¬ d'.IsOpen := by
  refine terminate (fun h => nomatch h) (fun _ _ h => nomatch h) fun b hb => ?_
  rw [List.mem_singleton.1 hb]
  exact ⟨hL, ht⟩

theorem bind_isTerminated {f : Bool → Lower β} (h : Goes L (f d.cursor.current.isTerminated) d S) :
    Goes L (Lower.isTerminated >>= f) d S := h

/-- Code in a scope of its own leaves the scopes as they were. -/
theorem inScope {act : Lower Unit}
    (hact : Goes L act (d.withScopes ({} :: d.cursor.scopes)) fun _ _ => True) :
    Goes L (Lower.inScope act) d fun _ d' => d'.cursor.scopes = d.cursor.scopes := by
  intro hd
  have hpush : Step d.nextBlock L d (d.withScopes ({} :: d.cursor.scopes)) := by
    refine .scopes _ (fun s hs name l hl => ?_) (List.pairwise_cons.2 ⟨?_, hd.supplied.apart⟩)
    · rcases List.mem_cons.1 hs with rfl | hs
      · cases hl
      · exact hd.supplied.locals s hs name l hl
    · exact fun _ _ _ _ _ _ hl => nomatch hl
  refine .bind (.scopes (Q := fun _ d' => d' = d.withScopes ({} :: d.cursor.scopes)) rfl rfl) ?_
  rintro _ _ rfl
  refine (hact (hpush.valid hd)).bind fun _ d₂ ⟨hf₂, _⟩ => ?_
  have hd₂ := hf₂.run.valid (hpush.valid hd)
  have htail : d₂.cursor.scopes.tail = d.cursor.scopes := hf₂.le.2.2
  refine .scopes htail ⟨⟨?_, ?_, hf₂.started⟩, rfl⟩
  · refine (Relation.ReflTransGen.head hpush hf₂.run).tail (.scopes _ (fun s hs => ?_) ?_)
    · rw [← htail] at hs
      exact hd₂.supplied.locals s (List.mem_of_mem_tail hs)
    · rw [← htail]
      exact hd₂.supplied.apart.tail
  · exact ⟨hf₂.le.1, hf₂.le.2.1, rfl⟩

end Goes

namespace Yields

variable {x : Lower α} {f : α → Lower β} {Q : α → Draft → Prop} {S : β → Draft → Prop}

theorem goes (h : Yields x d Q) (ho : d.IsOpen) : Goes L x d fun a d' => d'.IsOpen ∧ Q a d' :=
  fun hd => h hd ho L

theorem bind_goes (h : Yields x d Q) (ho : d.IsOpen)
    (hf : ∀ a d', Follows L d d' → d'.IsOpen → Q a d' → Goes L (f a) d' S) :
    Goes L (x >>= f) d S :=
  (h.goes ho).bind fun a d' hfol ⟨ho', hq⟩ => hf a d' hfol ho' hq

end Yields

end Draft

end ClassLang
