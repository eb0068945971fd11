import ClassLang.Gen.Body
import ClassLang.Proofs.Refinement.Code

/-!
# Expressions

The code of an expression computes the value of the expression. Operands of the core have the types
of their values, so no code is needed to convert them, and each operator is one instruction or none.
`&&` and `||` take blocks of their own: a phi chooses between what the left side decides and the
value of the right side, by where control comes from.
-/

namespace ClassLang

namespace Lower

open Ir (Value Word)

variable {c : Cursor} {ρ : Store} {m : Memory} {l r : Value} {left right : Operand}

/-! ## Conversions that do nothing -/

theorem truth_eq_pure {v : Value} (h : v.ty = .i1) : (truth v : Lower Value) = pure v := by
  simp [truth, constantTruth?, h]

theorem convert_eq_pure {v : Value} {target : Ir.Ty} (h : v.ty = target) :
    (convert v target : Lower Value) = pure v := by
  simp [convert, h]

theorem comparison_eq (op : InfixOp) (hl : left.ty.isString = false) (h : left.ir = right.ir) :
    (comparison op left right : Lower Value) =
      compare (compareOp op) left.value right.value := by
  simp [comparison, unify, hl, h]

theorem infix_eq_binary {op : InfixOp} (hop : op.isComparison = false) (hop' : op.isLogical = false)
    (hl : left.ty.isString = false) (hr : right.ty.isString = false) (h : left.ir = right.ir) :
    (infix_ op left right : Lower Operand) = do
      let v ← binary (arithmeticOp op) left.value right.value
      return ⟨v, if isUnresolved left.ty then right.ty else left.ty⟩ := by
  simp [infix_, unify, hop, hop', hl, hr, h]

namespace Runs

/-! ## Operators -/

theorem loadValue {l : Location} {v : Val} (ho : c.IsOpen) (hl : Holds c.slotRegisters m v l) :
    Runs (Lower.load l.ptr l.ir) c (·.mem = m) fun u c' s => s.mem = m ∧ c'.Carries s u v.word := by
  obtain ⟨n, hptr, hn, hword⟩ := hl.slot
  refine ready (assign (i := fun d => .load d l.ptr) ho ?_ (fun _ h => h.1) ?_)
  · rw [v.ty_word]
    exact hl.ir
  · rintro source? s ⟨rfl, hready⟩
    have hslot : l.ptr.slot? s = some n := by
      rw [hptr, Ir.Value.slot?, Ir.Value.word?, hready _ hn]
    rw [Ir.Instr.exec, hslot]
    simp [hword, hl.ir]

theorem load {l : Location} {v : Val} (ho : c.IsOpen) (hl : Holds c.slotRegisters m v l) :
    Runs (Lower.loadFrom l) c (·.mem = m) fun o c' s => s.mem = m ∧ c'.Gives s o v :=
  operand (loadValue ho hl) hl.ty

theorem store {n : Nat} {w : Word} (ho : c.IsOpen) (hn : ⟨n, .ptr⟩ ∈ c.slotRegisters) :
    Runs (Lower.store l (.reg ⟨n, .ptr⟩)) c (fun s => s.mem = m ∧ c.Carries s l w)
      fun _ _ s => s.mem = Function.update m n (some w) := by
  refine ready (emit ho ?_)
  rintro source? s ⟨⟨rfl, hl⟩, hready⟩
  have hslot : (Value.reg ⟨n, .ptr⟩).slot? s = some n := by
    rw [Ir.Value.slot?, Ir.Value.word?, hready _ hn]
  refine ⟨s.store n w, ?_, rfl, fun _ _ => rfl⟩
  rw [Ir.Instr.exec, hslot, hl.word]
  rfl

theorem binary {op : Ir.BinaryOp} {a b w : Word} (ho : c.IsOpen) (hop : op.apply a b = some w)
    (hty : a.ty = w.ty) :
    Runs (Lower.binary op l r) c (fun s => s.mem = m ∧ c.Carries s l a ∧ c.Carries s r b)
      fun v c' s => s.mem = m ∧ c'.Carries s v w := by
  refine assuming (.binary l r op) ho fun _ ⟨_, hl, _⟩ => ?_
  refine assign (i := fun d => .binary d op l r) ho (hl.ty.trans hty) (fun _ h => h.1) ?_
  rintro source? s ⟨-, hl, hr⟩
  simp [Ir.Instr.exec, hl.word, hr.word, hop]

theorem compare {op : Ir.CompareOp} {a b : Word} {t : Bool} (ho : c.IsOpen)
    (hop : op.apply a b = some t) :
    Runs (Lower.compare op l r) c (fun s => s.mem = m ∧ c.Carries s l a ∧ c.Carries s r b)
      fun v c' s => s.mem = m ∧ c'.Carries s v (.i1 t) := by
  refine assign (i := fun d => .compare d op l r) ho rfl (fun _ h => h.1) ?_
  rintro source? s ⟨-, hl, hr⟩
  simp [Ir.Instr.exec, hl.word, hr.word, hop]

end Runs

/-- Changing the sign of a number of 64 bits does so for the lower 32. -/
theorem ofInt_negate64 (n : Int) : BitVec.ofInt 32 (negate64 n) = -BitVec.ofInt 32 n := by
  refine BitVec.eq_of_toInt_eq ?_
  rw [BitVec.toInt_neg, BitVec.toInt_ofInt, BitVec.toInt_ofInt, Int.bmod_neg_bmod]
  exact Int.bmod_bmod_of_dvd (by decide)

/-- What the operators of the core are in the intermediate representation. -/
theorem infix_cases {op : InfixOp} {v w u : Val} (h : Core.infix_ op v w = some u) :
    v.kind = w.kind ∧ op.isLogical = false ∧
      (op.isComparison = true ∧ (∃ t, u = .bool t ∧
        (compareOp op).apply v.word w.word = some t) ∨
      op.isComparison = false ∧ (arithmeticOp op).apply v.word w.word = some u.word ∧
        v.kind = u.kind) := by
  cases v <;> cases w <;> cases op <;> cases h
  all_goals first
    | exact ⟨rfl, rfl, .inl ⟨rfl, _, rfl, rfl⟩⟩
    | exact ⟨rfl, rfl, .inr ⟨rfl, rfl, rfl⟩⟩

namespace Runs

theorem infix_ {op : InfixOp} {v w u : Val} (ho : c.IsOpen) (h : Core.infix_ op v w = some u) :
    Runs (Lower.infix_ op left right) c
      (fun s => s.mem = m ∧ c.Gives s left v ∧ c.Gives s right w)
      fun o c' s => s.mem = m ∧ c'.Gives s o u := by
  obtain ⟨hkind, hlogical, hcases⟩ := infix_cases h
  refine assuming (.infix_ left right op) ho fun _ ⟨_, hl, hr⟩ => ?_
  have hir : left.ir = right.ir := by rw [hl.ir, hr.ir, hkind]
  rcases hcases with ⟨hop, t, rfl, happly⟩ | ⟨hop, happly, hu⟩
  · have heq : (Lower.infix_ op left right : Lower Operand) = do
        let v ← Lower.compare (compareOp op) left.value right.value
        return ⟨v, .bool⟩ := by
      rw [Lower.infix_, if_pos hop, comparison_eq op hl.ty hir]
    rw [heq]
    exact operand (v := .bool t) ((compare ho happly).mono
      (fun s hs => ⟨hs.1, hs.2.1.value, hs.2.2.value⟩) fun _ _ _ _ hs => hs) rfl
  · rw [infix_eq_binary hop hlogical hl.ty hr.ty hir]
    have hty : v.word.ty = u.word.ty := by rw [v.ty_word, u.ty_word, hu]
    refine operand ((binary ho happly hty).mono (fun s hs => ⟨hs.1, hs.2.1.value, hs.2.2.value⟩)
      fun _ _ _ _ hs => hs) ?_
    split
    · exact hr.ty
    · exact hl.ty

theorem prefixed {op : PrefixOp} {o : Operand} {v u : Val} (ho : c.IsOpen)
    (h : Core.prefixed op v = some u) :
    Runs (Lower.prefixed op o) c (fun s => s.mem = m ∧ c.Gives s o v)
      fun o' c' s => s.mem = m ∧ c'.Gives s o' u := by
  refine assuming (.prefixed op o) ho fun s₀ ⟨_, hgives⟩ => ?_
  obtain ⟨value, ty⟩ := o
  have hcases := hgives.value.cases
  cases op with
  | not =>
    cases v with
    | int => cases h
    | bool b =>
      cases h
      rcases hcases with ⟨r, rfl⟩ | ⟨_, _, hw⟩ | ⟨_, rfl, hw⟩
      · have happly : Ir.BinaryOp.apply .xor (.i1 b) (.i1 true) = some (.i1 !b) := by
          rw [Ir.BinaryOp.apply, Bool.xor_true]
        have htrue : ∀ s, c.Carries s (.bool true) (.i1 true) :=
          fun _ => .constant rfl rfl rfl
        rw [Lower.prefixed, truth_eq_pure hgives.value.ty, pure_bind]
        exact operand (v := .bool !b) ((binary ho happly rfl).mono
          (fun s hs => ⟨hs.1, hs.2.value, htrue s⟩) fun _ _ _ _ hs => hs) rfl
      · cases hw
      · cases hw
        exact pure ho fun s hs => ⟨hs.1, .constant rfl rfl rfl, rfl⟩
  | negate =>
    cases v with
    | bool => cases h
    | int n =>
      cases h
      rcases hcases with ⟨r, rfl⟩ | ⟨m, rfl, hw⟩ | ⟨_, _, hw⟩
      · have hty : r.ty = .i32 := hgives.value.ty
        have hzero : ∀ s, c.Carries s (.zero r.ty) (.i32 0) := by
          rw [hty]
          exact fun _ => .constant rfl rfl rfl
        have happly : Ir.BinaryOp.apply .sub (.i32 0) (.i32 n) = some (.i32 (-n)) := by
          simp [Ir.BinaryOp.apply]
        exact operand (v := .int (-n)) ((binary ho happly rfl).mono
          (fun s hs => ⟨hs.1, hzero s, hs.2.value⟩) fun _ _ _ _ hs => hs) hgives.ty
      · cases hw
        refine pure ho fun s hs => ⟨hs.1, .constant ?_ rfl rfl, hs.2.ty⟩
        exact congrArg (fun n => some (Word.i32 n)) (ofInt_negate64 m)
      · cases hw
  | bitNot => cases v <;> cases h

end Runs

/-! ## Names -/

/-- A local is found before anything else of its name. -/
theorem Ensures.nameLocation {env : Env} {name : String} {l : Location}
    {Q : Option Location → Cursor → Prop} (hl : c.local? name = some l) (h : Q (some l) c) :
    Ensures (Lower.nameLocation env name) c Q := by
  intro g
  have hlookup : ((Lower.lookup name : Lower _).run c).run g = ((some l, c), g) := by
    show ((c.local? name <|> g.globals.find? name, c), g) = _
    rw [hl]
    rfl
  rw [Lower.nameLocation, StateT.run_bind, StateT.run_bind, hlookup]
  exact h

theorem Runs.name {env : Env} {n : Ident} {v : Val} (ho : c.IsOpen) (hv : ρ.find? n.name = some v)
    (hρ : c.Agrees ρ m) :
    Runs (nameValue env n) c (·.mem = m) fun o c' s => s.mem = m ∧ c'.Gives s o v := by
  obtain ⟨l, hl, hholds⟩ := hρ.find hv
  exact Ensures.bind (.nameLocation hl (load ho hholds))

/-! ## Whole expressions -/

/-- The code of `x` computes what `meaning` says, in every store in which that is something. -/
def Computes (meaning : Store → Option Val) (x : Lower Operand) : Prop :=
  ∀ c, c.IsOpen → Ensures x c fun o c' => c.Extends c' ∧ ∀ ρ v m, meaning ρ = some v →
    c.Agrees ρ m → c.Through c' (·.mem = m) fun s => s.mem = m ∧ c'.Gives s o v

/-- The code of `x` computes a truth value. -/
def Decides (meaning : Store → Option Bool) (x : Lower Value) : Prop :=
  ∀ c, c.IsOpen → Ensures x c fun v c' => c.Extends c' ∧ ∀ ρ b m, meaning ρ = some b →
    c.Agrees ρ m → c.Through c' (·.mem = m) fun s => s.mem = m ∧ c'.Carries s v (.i1 b)

variable {meaning : Store → Option Val} {x : Lower Operand}

theorem Computes.of_runs (hx : Adds x)
    (h : ∀ c ρ v m, c.IsOpen → meaning ρ = some v → c.Agrees ρ m →
      Runs x c (·.mem = m) fun o c' s => s.mem = m ∧ c'.Gives s o v) : Computes meaning x :=
  fun c ho g => ⟨hx c ho g, fun ρ v m hv hρ => (h c ρ v m ho hv hρ g).2⟩

theorem Computes.adds (h : Computes meaning x) : Adds x :=
  fun c ho => (h c ho).mono fun _ _ h => h.1

theorem Computes.runs (h : Computes meaning x) {v : Val} (ho : c.IsOpen)
    (hv : meaning ρ = some v) (hρ : c.Agrees ρ m) :
    Runs x c (·.mem = m) fun o c' s => s.mem = m ∧ c'.Gives s o v :=
  (h c ho).mono fun _ _ h => ⟨h.1, h.2 ρ v m hv hρ⟩

theorem Computes.condition (h : Computes meaning x) :
    Decides (fun ρ => (meaning ρ).bind Val.bool?) (Lower.condition x) := by
  refine fun c ho g => ⟨h.adds.condition c ho g, fun ρ b m hb hρ => ?_⟩
  obtain ⟨v, hv, hbool⟩ := Option.bind_eq_some_iff.1 hb
  cases v with
  | int => cases hbool
  | bool =>
    cases hbool
    have hruns : Runs (Lower.condition x) c (·.mem = m) fun v c' s =>
        s.mem = m ∧ c'.Carries s v (.i1 b) := by
      refine (h.runs ho hv hρ).bind fun o c₁ hext => ?_
      refine .assuming (.truth o.value) hext.isOpen fun _ hs => ?_
      rw [truth_eq_pure hs.2.value.ty]
      exact .pure hext.isOpen fun _ hs => ⟨hs.1, hs.2.value⟩
    exact (hruns g).2

/-- A phi takes the value that belongs to the block control came from. -/
theorem exec_phi {d : Ir.Register} {v v' : Value} {source source' : Nat} {source? : Option Nat}
    {s : Ir.State} {w : Word} (h : source? = some source ∧ v.word? s = some w ∨
      source ≠ source' ∧ source? = some source' ∧ v'.word? s = some w) :
    (Ir.Instr.phi d [(v, source), (v', source')]).exec source? s = some (s.write d w) := by
  rcases h with ⟨rfl, hw⟩ | ⟨hne, rfl, hw⟩
  · simp [Ir.Instr.exec, hw]
  · simp [Ir.Instr.exec, hw, hne.symm]

theorem Computes.logical (isAnd : Bool) {left right : Lower Operand} {l r : Store → Option Val}
    (hl : Computes l left) (hr : Computes r right) :
    Computes (fun ρ => Core.logical isAnd (l ρ) (r ρ)) (Lower.logical isAnd left right) := by
  intro c ho
  refine (Adds.logical isAnd hl.adds hr.adds c ho).and ?_
  refine .bind ((hl.condition c ho).mono fun lv c₁ ⟨hext₁, hrun₁⟩ => ?_)
  refine .bind_currentBlock (.bind_freshBlock (.bind_freshBlock
    (.bind_terminate (.bind_startBlock ?_))))
  let rest := c₁.nextBlock
  let merge := c₁.nextBlock + 1
  let c₂ : Cursor := { c₁ with nextBlock := c₁.nextBlock + 1 + 1 }
  let c₃ := c₂.terminate
    (.branch lv (if isAnd then rest else merge) (if isAnd then merge else rest))
  let c₄ := c₃.start rest (if isAnd then "and.rhs" else "or.rhs")
  refine .bind ((hr.condition c₄ rfl).mono fun rv c₅ ⟨hext₅, hrun₅⟩ => ?_)
  refine .bind_currentBlock (.bind_terminate (.bind_startBlock ?_))
  let c₆ := (c₅.terminate (.jump merge)).start merge "logic.merge"
  let phi := Ir.Instr.phi ⟨c₆.nextRegister, .i1⟩
    [(.bool (!isAnd), c₁.current.id), (rv, c₅.current.id)]
  have ho₆ : c₆.IsOpen := rfl
  have hk₁ : c₁.Keeps c₂ := (Cursor.Keeps.freshBlock c₁).trans (.freshBlock _)
  have hk₄ : c₁.Keeps c₄ := hk₁.trans ((Cursor.Keeps.terminate ..).trans (.start ..))
  have hg₅ : c₅.Grows c₆ := (Cursor.Grows.terminate ..).trans (.start ..)
  have hg₃ : c₁.Grows c₆ := hk₄.toGrows.trans (hext₅.toGrows.trans hg₅)
  intro g ρ v m hv hρ W hW (hg : (c₆.assign phi).Grows W.cursor) k hat hm
  have hg₆ : c₆.Grows W.cursor := (Cursor.Grows.assign ho₆ phi).trans hg
  have hg₄ : c₄.Grows W.cursor := (hext₅.toGrows.trans hg₅).trans hg₆
  obtain ⟨b, hb, hv⟩ := Option.bind_eq_some_iff.1 hv
  obtain ⟨k₁, hpass₁, hm₁, hlv⟩ := hrun₁ ρ b m hb hρ W hW (hk₄.toGrows.trans hg₄) k hat hm
  have hat₂ : W.At c₂ k₁ := hpass₁.point.congr rfl
  obtain ⟨k₂, hsteps₂, hent₂, hstate₂, hsource₂⟩ :=
    hat₂.branch hW hext₁.isOpen ((Cursor.Grows.start ..).trans hg₄) hlv.word
  have hm₂ : k₂.state.mem = m := by rw [hstate₂, hm₁]
  have hregs₂ : ∀ n < c.nextRegister, k₂.state.regs n = k.state.regs n := by
    rw [hstate₂]
    exact hpass₁.regs
  -- Whichever way control takes, the phi takes the value that belongs to it.
  have hmerge : ∀ k' t, W.code.Steps k k' → W.Entered merge k' →
      (∀ n < c.nextRegister, k'.state.regs n = k.state.regs n) → k'.state.mem = m →
      phi.exec k'.source? k'.state = some (k'.state.write ⟨c₆.nextRegister, .i1⟩ (.i1 t)) →
      ∃ k'', W.Passes c k (c₆.assign phi) k'' ∧ k''.state.mem = m ∧
        (c₆.assign phi).Gives k''.state ⟨.reg ⟨c₆.nextRegister, .i1⟩, .bool⟩ (.bool t) := by
    intro k' t hsteps hent hregs hm' hexec
    obtain ⟨k'', hpass, hmem, hvalue⟩ := (hent.at hW rfl hg₆).assign hW ho₆ rfl hg hexec
    refine ⟨k'', ⟨hsteps.trans hpass.steps, hpass.point, fun n hn => ?_⟩, hmem.trans hm', hvalue,
      rfl⟩
    have hn₆ := Nat.lt_of_lt_of_le hn (hext₁.toGrows.trans hg₃).nextRegister
    exact (hpass.regs n hn₆).trans (hregs n hn)
  by_cases hundecided : b = isAnd
  · have hent₂ : W.Entered rest k₂ := by
      subst hundecided
      cases b <;> exact hent₂
    rw [if_pos hundecided] at hv
    obtain ⟨b', hb', hv⟩ := Option.bind_eq_some_iff.1 hv
    cases hv
    have hρ₄ : c₄.Agrees ρ m := hρ.keeps (hext₁.toKeeps.trans hk₄)
    obtain ⟨k₃, hpass₃, hm₃, hrv⟩ := hrun₅ ρ b' m hb' hρ₄ W hW (hg₅.trans hg₆) k₂
      (hent₂.at hW rfl hg₄) hm₂
    obtain ⟨k₄, hsteps₄, hent₄, hstate₄, hsource₄⟩ :=
      hpass₃.point.jump hW hext₅.isOpen ((Cursor.Grows.start ..).trans hg₆)
    refine hmerge k₄ b' ?_ hent₄ (fun n hn => ?_) (by rw [hstate₄, hm₃])
      (exec_phi (.inr ⟨?_, hsource₄, by rw [hstate₄]; exact hrv.word⟩))
    · exact ((hpass₁.steps.trans hsteps₂).trans hpass₃.steps).trans hsteps₄
    · have hn₄ := Nat.lt_of_lt_of_le hn (hext₁.toGrows.trans hk₄.toGrows).nextRegister
      rw [hstate₄, hpass₃.regs n hn₄, hregs₂ n hn]
    · obtain ⟨b₇, hb₇, hgb₇⟩ :=
        hg.blocks _ (List.mem_append_right _ (List.mem_singleton_self (c₆.current.push phi)))
      have hphi : phi ∈ b₇.instrs := hgb₇.instrs.subset (List.mem_singleton_self phi)
      simpa [phi, Ir.Instr.incoming] using hW.valid.joined.nodup b₇ hb₇ phi hphi rfl
  · have hent₂ : W.Entered merge k₂ := by
      revert hundecided hent₂
      cases b <;> cases isAnd <;> intro hent₂ hundecided
      all_goals first | exact hent₂ | exact absurd rfl hundecided
    rw [if_neg hundecided] at hv
    cases hv
    refine hmerge k₂ b (hpass₁.steps.trans hsteps₂) hent₂ hregs₂ hm₂
      (exec_phi (.inl ⟨hsource₂, ?_⟩))
    rw [Bool.eq_not_of_ne hundecided]
    rfl

theorem Computes.infix_ (op : InfixOp) {left right : Lower Operand} {l r : Store → Option Val}
    (hl : Computes l left) (hr : Computes r right) :
    Computes (fun ρ => do Core.infix_ op (← l ρ) (← r ρ)) (do
      let a ← left
      let b ← right
      Lower.infix_ op a b) := by
  refine .of_runs (hl.adds.bind fun a => hr.adds.bind fun b => .infix_ a b op) ?_
  intro c ρ u m ho hu hρ
  obtain ⟨v, hv, hu⟩ := Option.bind_eq_some_iff.1 hu
  obtain ⟨w, hw, hu⟩ := Option.bind_eq_some_iff.1 hu
  refine (hl.runs ho hv hρ).bind fun a c₁ hext₁ => ?_
  have hρ₁ := hρ.keeps hext₁.toKeeps
  refine ((hr.runs hext₁.isOpen hw hρ₁).keeping a v).bind fun b c₂ hext₂ => ?_
  exact (Runs.infix_ hext₂.isOpen hu).mono (fun s hs => ⟨hs.1.1, hs.2, hs.1.2⟩)
    fun _ _ _ _ hs => hs

/-- The code of an expression computes its value. -/
theorem computes_expr (detour : Detour) (env : Env) :
    ∀ e, Core.isPure e = true → Computes (Core.eval · e) (expr detour env e)
  | .ident n, _ => .of_runs (.nameValue env n) fun _ _ _ _ ho hv hρ => .name ho hv hρ
  | .int n _, _ => by
    refine .of_runs (.pure _) fun c ρ v m ho hv hρ => ?_
    obtain ⟨hn, hv⟩ := Option.ite_none_right_eq_some.1 hv
    cases hv
    refine .pure ho fun s hs => ?_
    rw [integer, if_pos hn]
    exact ⟨hs, .constant rfl rfl rfl, rfl⟩
  | .bool b _, _ => by
    refine .of_runs (.pure _) fun c ρ v m ho hv hρ => ?_
    cases hv
    exact .pure ho fun s hs => ⟨hs, .constant rfl rfl rfl, rfl⟩
  | .prefixed op e _, hpure => by
    have he := computes_expr detour env e hpure
    refine .of_runs (he.adds.bind fun o => .prefixed op o) fun c ρ u m ho hu hρ => ?_
    obtain ⟨v, hv, hu⟩ := Option.bind_eq_some_iff.1 hu
    exact (he.runs ho hv hρ).bind fun o c₁ hext => .prefixed hext.isOpen hu
  | .binary op l r span, hpure => by
    obtain ⟨hl, hr⟩ := Bool.and_eq_true_iff.1 hpure
    have hl := computes_expr detour env l hl
    have hr := computes_expr detour env r hr
    cases hop : op.isLogical with
    | true => simpa only [Core.eval, expr, hop, if_true] using hl.logical (op = .and) hr
    | false => simpa only [Core.eval, expr, hop, Bool.false_eq_true, if_false] using hl.infix_ op hr

end Lower

end ClassLang
