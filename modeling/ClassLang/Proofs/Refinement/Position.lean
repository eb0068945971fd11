import ClassLang.Proofs.Draft.Ssa
import ClassLang.Proofs.Lowering.Basic
import ClassLang.Proofs.Refinement.Growth
import ClassLang.Proofs.Refinement.Machine

/-!
# Where a run stands

A cursor that was on the way to a finished function marks a point of that function: the code that the
cursor has is behind, and what came to it later lies ahead. `Draft.At` says that a run stands at
such a point. What is added next at the cursor is what the run does next, and a jump leads to the
beginning of a block, where the cursor of that block began.
-/

namespace ClassLang

namespace Ir

/-- An instruction changes no register but the one that it writes. -/
theorem Instr.regs_of_exec {i : Instr} {source? : Option Nat} {s s' : State}
    (h : i.exec source? s = some s') {n : Nat} (hn : ∀ r, i.dest? = some r → n ≠ r.id) :
    s'.regs n = s.regs n := by
  have hwrite : ∀ {r : Register} (w : Word), i.dest? = some r →
      (s.write r w).regs n = s.regs n := fun w hr => s.write_regs_of_ne _ w (hn _ hr)
  cases i with
  | alloca d ty =>
    cases h
    exact hwrite _ rfl
  | load d ptr =>
    simp only [exec, Option.bind_eq_bind, Option.bind_eq_some_iff] at h
    obtain ⟨_, _, w, _, h⟩ := h
    split at h
    · cases h
      exact hwrite _ rfl
    · cases h
  | store v ptr =>
    simp only [exec, Option.bind_eq_bind, Option.bind_eq_some_iff] at h
    obtain ⟨_, _, _, _, h⟩ := h
    cases h
    rfl
  | binary d op l r | compare d op l r =>
    simp only [exec, Option.bind_eq_bind, Option.bind_eq_some_iff] at h
    obtain ⟨_, _, _, _, _, _, h⟩ := h
    cases h
    exact hwrite _ rfl
  | phi d incoming =>
    simp only [exec, Option.bind_eq_bind, Option.bind_eq_some_iff] at h
    obtain ⟨_, _, _, _, h⟩ := h
    cases h
    exact hwrite _ rfl
  | comment t =>
    cases h
    rfl
  | cast | element | call => cases h

/-- Slots at the top of a block get their addresses, and nothing else happens. -/
theorem Function.steps_slots (f : Function) {slots : List Instr} (h : ∀ i ∈ slots, i.isAlloca = true)
    (k : Config) {code : List Instr} (hk : k.code = slots ++ code) :
    ∃ s, f.Steps k { k with code, state := s } ∧ s.mem = k.state.mem ∧
      (∀ r ∈ slots.filterMap Instr.dest?, s.regs r.id = some (.ptr r.id)) ∧
      ∀ n, (∀ r ∈ slots.filterMap Instr.dest?, n ≠ r.id) → s.regs n = k.state.regs n := by
  induction slots generalizing k with
  | nil =>
    have hk : k.code = code := hk
    subst hk
    exact ⟨k.state, .refl, rfl, fun _ hr => (nomatch hr), fun _ _ => rfl⟩
  | cons i slots ih =>
    obtain ⟨d, ty, rfl⟩ : ∃ d ty, i = .alloca d ty := by
      have hi := h i List.mem_cons_self
      cases i with
      | alloca d ty => exact ⟨d, ty, rfl⟩
      | _ => cases hi
    let k' : Config := { k with code := slots ++ code, state := k.state.write d (.ptr d.id) }
    have hstep : f.step k = some (.run k') := by
      rw [step, hk]
      rfl
    obtain ⟨s, hsteps, hmem, hslots, hregs⟩ :=
      ih (fun i hi => h i (List.mem_cons_of_mem _ hi)) k' rfl
    refine ⟨s, .head hstep hsteps, hmem, fun r hr => ?_, fun n hn => ?_⟩
    · -- A later slot in the same register would be given the same address.
      by_cases hlater : ∃ r' ∈ slots.filterMap Instr.dest?, r.id = r'.id
      · obtain ⟨r', hr', hid⟩ := hlater
        rw [hid]
        exact hslots r' hr'
      · rcases List.mem_cons.1 hr with rfl | hr
        · rw [hregs r.id fun r' hr' hid => hlater ⟨r', hr', hid⟩]
          exact k.state.write_regs_self r _
        · exact absurd ⟨r, hr, rfl⟩ hlater
    · rw [hregs n fun r hr => hn r (List.mem_cons_of_mem _ hr)]
      exact k.state.write_regs_of_ne d _ (hn d List.mem_cons_self)

end Ir

namespace Draft

variable {W : Draft} {c c' : Cursor} {k : Ir.Config}

/-- A draft that nothing is to be added to. -/
structure Final (W : Draft) : Prop where
  valid : W.Valid
  complete : W.Complete

/-- The function that a draft comes to. -/
abbrev code (W : Draft) : Ir.Function := W.cursor.finish

/-- The stack slots have their addresses. -/
def Ready (W : Draft) (s : Ir.State) : Prop :=
  ∀ r ∈ W.slotRegisters, s.regs r.id = some (.ptr r.id)

/-- A run stands where the code of a cursor ends. -/
structure At (W : Draft) (c : Cursor) (k : Ir.Config) : Prop where
  ready : W.Ready k.state
  block : ∃ b ∈ W.blocks, c.current.Grows b ∧ k.block = b.id ∧
    b.instrs = c.current.instrs ++ k.code ∧ k.exit = b.terminator

/-- A run stands at the beginning of a block. -/
structure Entered (W : Draft) (target : Nat) (k : Ir.Config) : Prop where
  ready : W.Ready k.state
  block : ∃ b ∈ W.blocks, b.id = target ∧ k.block = target ∧ k.code = b.instrs ∧
    k.exit = b.terminator

theorem At.block_eq (h : W.At c k) : k.block = c.current.id := by
  obtain ⟨b, _, hg, hblock, _⟩ := h.block
  exact hblock.trans hg.id

/-- Names and scopes do not matter to a run. -/
theorem At.congr (h : W.At c k) (hcurrent : c'.current = c.current) : W.At c' k :=
  ⟨h.ready, by rw [hcurrent]; exact h.block⟩

section

variable (hW : W.Final)
include hW

theorem eq_of_grows {b b' : Ir.Block} (hb : b ∈ W.blocks) (hb' : b' ∈ W.blocks) {b₀ : Ir.Block}
    (hg : b₀.Grows b) (hg' : b₀.Grows b') : b = b' :=
  hW.valid.linked.eq_of_id_eq hb hb' (hg.id.trans hg'.id.symm)

/-- The block at hand has become the one that the run is in. -/
theorem At.current_grows (h : W.At c k) (hcurrent : c.current.Grows c'.current)
    (hg : c'.Grows W.cursor) : ∃ b ∈ W.blocks, c'.current.Grows b ∧ k.block = b.id ∧
      b.instrs = c.current.instrs ++ k.code ∧ k.exit = b.terminator := by
  obtain ⟨b, hb, hgb, hrest⟩ := h.block
  obtain ⟨b', hb', hgb'⟩ := hg.blocks c'.current (List.mem_append_right _ List.mem_cons_self)
  obtain rfl := eq_of_grows hW hb hb' hgb (hcurrent.trans hgb')
  exact ⟨b, hb, hgb', hrest⟩

/-- Code of a block does not write to the registers of slots. -/
theorem Ready.exec {s s' : Ir.State} (h : W.Ready s) {b : Ir.Block} (hb : b ∈ W.blocks)
    {i : Ir.Instr} (hi : i ∈ b.instrs) {source? : Option Nat} (hexec : i.exec source? s = some s') :
    W.Ready s' := by
  intro r hr
  rw [Ir.Instr.regs_of_exec hexec fun r' hr' hid => ?_, h r hr]
  have hnodup := hW.valid.supplied.nodup
  rw [definitions, always, List.map_append, List.map_append] at hnodup
  refine (List.nodup_append.1 hnodup).2.2 r.id ?_ r'.id ?_ hid
  · exact List.mem_append_right _ (List.mem_map_of_mem hr)
  · refine List.mem_map_of_mem (List.mem_flatMap.2 ⟨b, hb, ?_⟩)
    exact List.mem_filterMap.2 ⟨i, hi, hr'⟩

/-- The run does the instruction that is added at the cursor. -/
theorem At.emit (h : W.At c k) (ho : c.IsOpen) {i : Ir.Instr}
    (hcurrent : c'.current = c.current.push i) (hg : c'.Grows W.cursor) {s : Ir.State}
    (hexec : i.exec k.source? k.state = some s) :
    ∃ k', W.code.step k = some (.run k') ∧ W.At c' k' ∧ k'.state = s := by
  obtain ⟨b, hb, hgb, hblock, hinstrs, hexit⟩ :=
    h.current_grows hW (hcurrent ▸ Ir.Block.Grows.push ho) hg
  have hprefix := hgb.instrs
  rw [hcurrent, hinstrs] at hprefix
  obtain ⟨code, hcode⟩ := (List.prefix_append_right_inj _).1 hprefix
  have hmem : i ∈ b.instrs := by
    rw [hinstrs, ← hcode]
    exact List.mem_append_right _ List.mem_cons_self
  refine ⟨{ k with code, state := s }, ?_, ⟨h.ready.exec hW hb hmem hexec, b, hb, hgb, hblock, ?_,
    hexit⟩, rfl⟩
  · rw [Ir.Function.step, ← hcode]
    exact congrArg (Option.map _) hexec
  · rw [hinstrs, ← hcode, hcurrent, Ir.Block.push, List.append_assoc]

/-- The run stands at the terminator that is set at the cursor. -/
theorem At.terminate (h : W.At c k) (ho : c.IsOpen) {t : Ir.Terminator} (ht : t ≠ .open_)
    (hg : (c.terminate t).Grows W.cursor) : k.code = [] ∧ k.exit = t := by
  have hopen : c.current.isTerminated = false := ho
  have hcurrent : (c.terminate t).current = { c.current with terminator := t } := by
    simp [Cursor.terminate, Ir.Block.terminate, hopen]
  obtain ⟨b, hb, hgb, hblock, hinstrs, hexit⟩ :=
    h.current_grows hW (hcurrent ▸ Ir.Block.Grows.close ho) hg
  have hended : (c.terminate t).current.isTerminated = true := by
    rw [hcurrent]
    exact bne_iff_ne.2 ht
  have heq := (hgb.ended hended).trans hcurrent
  rw [heq] at hinstrs hexit
  exact ⟨by simpa using hinstrs, hexit⟩

/-- A block that begins where the run has come to. -/
theorem Entered.at {target : Nat} (h : W.Entered target k) {label? : Option String}
    (hcurrent : c.current = { id := target, label? }) (hg : c.Grows W.cursor) : W.At c k := by
  obtain ⟨b, hb, hid, hblock, hcode, hexit⟩ := h.block
  obtain ⟨b', hb', hgb⟩ := hg.blocks c.current (List.mem_append_right _ List.mem_cons_self)
  have hid' : b'.id = target := by
    rw [hgb.id, hcurrent]
  obtain rfl := hW.valid.linked.eq_of_id_eq hb hb' (hid.trans hid'.symm)
  exact ⟨h.ready, b, hb, hgb, hblock.trans hid.symm, by rw [hcurrent, hcode]; rfl, hexit⟩

theorem block?_code {b : Ir.Block} (hb : b ∈ W.blocks) :
    W.code.block? b.id = some (W.placed b) := by
  have hmem := hW.complete.placed_mem hW.valid hb
  have hsome : (W.code.block? b.id).isSome = true :=
    Ir.Function.isSome_block?_iff.2 (List.mem_map.2 ⟨_, hmem, rfl⟩)
  obtain ⟨b', hb'⟩ := Option.isSome_iff_exists.1 hsome
  have hid : b'.id = b.id := by simpa using List.find?_some hb'
  obtain ⟨b₁, hb₁, rfl⟩ := hW.complete.of_mem_finish hW.valid (List.mem_reverse.1 (List.mem_of_find?_eq_some hb'))
  rw [hb', hW.valid.linked.eq_of_id_eq hb₁ hb hid]

/-- Going to a block. Its slots, if it is the first one, have their addresses already. -/
theorem enter {target : Nat} (hready : W.Ready k.state) (ht : target < W.nextBlock)
    (hstep : W.code.step k = (W.code.enter (some k.block) target k.state).map .run) :
    ∃ k', W.code.Steps k k' ∧ W.Entered target k' ∧ k'.state = k.state ∧
      k'.source? = some k.block := by
  obtain ⟨b, hb, rfl⟩ := mem_ids.1 (hW.complete.started target ht)
  rw [Ir.Function.enter, block?_code hW hb] at hstep
  obtain ⟨s, hsteps, hmem, hslots, hregs⟩ :=
    W.code.steps_slots (fun i (hi : i ∈ W.top b) => isAlloca_of_mem_top hW.valid hi)
      ⟨some k.block, b.id, (W.placed b).instrs, b.terminator, k.state⟩
      (rfl : (W.placed b).instrs = W.top b ++ b.instrs)
  have hsame : s = k.state := by
    have : s.regs = k.state.regs := by
      funext n
      by_cases hn : ∃ r ∈ (W.top b).filterMap Ir.Instr.dest?, n = r.id
      · obtain ⟨r, hr, rfl⟩ := hn
        rw [hslots r hr]
        refine (hready r ?_).symm
        unfold top at hr
        split at hr
        · exact hr
        · cases hr
      · exact hregs n fun r hr hid => hn ⟨r, hr, hid⟩
    cases s
    cases hk : k.state
    simp_all
  subst hsame
  exact ⟨_, .head hstep hsteps, ⟨hready, b, hb, rfl, rfl, rfl, rfl⟩, rfl, rfl⟩

/-- The run follows the jump that is set at the cursor. -/
theorem At.jump (h : W.At c k) (ho : c.IsOpen) {target : Nat}
    (hg : (c.terminate (.jump target)).Grows W.cursor) :
    ∃ k', W.code.Steps k k' ∧ W.Entered target k' ∧ k'.state = k.state ∧
      k'.source? = some c.current.id := by
  obtain ⟨hcode, hexit⟩ := h.terminate hW ho (t := .jump target) (fun h => nomatch h) hg
  obtain ⟨b, hb, _, _, _, hterm⟩ := h.block
  have ht : target < W.nextBlock := by
    refine hW.valid.linked.targets b hb target ?_
    rw [← hterm, hexit]
    exact List.mem_singleton_self _
  rw [← h.block_eq]
  refine enter hW h.ready ht ?_
  rw [Ir.Function.step, hcode, hexit]

/-- The run follows the branch that is set at the cursor. -/
theorem At.branch (h : W.At c k) (ho : c.IsOpen) {v : Ir.Value} {ifTrue ifFalse : Nat} {b : Bool}
    (hg : (c.terminate (.branch v ifTrue ifFalse)).Grows W.cursor)
    (hv : v.word? k.state = some (.i1 b)) :
    ∃ k', W.code.Steps k k' ∧ W.Entered (if b then ifTrue else ifFalse) k' ∧
      k'.state = k.state ∧ k'.source? = some c.current.id := by
  obtain ⟨hcode, hexit⟩ :=
    h.terminate hW ho (t := .branch v ifTrue ifFalse) (fun h => nomatch h) hg
  obtain ⟨b', hb', _, _, _, hterm⟩ := h.block
  have ht : (if b then ifTrue else ifFalse) < W.nextBlock := by
    refine hW.valid.linked.targets b' hb' _ ?_
    rw [← hterm, hexit]
    cases b <;> simp [Ir.Terminator.targets]
  rw [← h.block_eq]
  refine enter hW h.ready ht ?_
  rw [Ir.Function.step, hcode, hexit]
  simp only [hv]

end

end Draft

end ClassLang
