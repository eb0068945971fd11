import ClassLang.Proofs.Refinement.Memory
import ClassLang.Proofs.Refinement.Position

/-!
# Code that control runs through

`Lower.Runs x c pre post` says what the code of `x` does, once it stands in a finished function: a run
that comes to it in a state such that `pre` gets through it to a state such that `post`, and
registers from before keep what they hold. An operand that was computed before stands for the same
word later on.
-/

namespace ClassLang

namespace Cursor

variable {c c' : Cursor} {s s' : Ir.State} {ρ : Store} {v : Ir.Value} {w : Ir.Word}

/-- The registers that hold the addresses of the stack slots. -/
def slotRegisters (c : Cursor) : List Ir.Register := c.slots.filterMap Ir.Instr.dest?

/-- The stack slots have their addresses. -/
def Ready (c : Cursor) (s : Ir.State) : Prop := ∀ r ∈ c.slotRegisters, s.regs r.id = some (.ptr r.id)

/-- The locals of the source are stored where the scopes say. -/
def Agrees (c : Cursor) (ρ : Store) (m : Memory) : Prop :=
  ClassLang.Agrees c.slotRegisters m ρ c.scopes

/-- A value that was computed before stands for a word. -/
structure Carries (c : Cursor) (s : Ir.State) (v : Ir.Value) (w : Ir.Word) : Prop where
  word : v.word? s = some w
  ty : v.ty = w.ty
  bound : ∀ r ∈ v.reads, r.id < c.nextRegister

/-- A constant carries its word wherever it stands. -/
theorem Carries.constant {v : Ir.Value} {w : Ir.Word} (hword : v.word? s = some w) (hty : v.ty = w.ty)
    (hreads : v.reads = []) : c.Carries s v w :=
  ⟨hword, hty, by simp [hreads]⟩

/-- An operand stands for a value of the source. -/
structure Gives (c : Cursor) (s : Ir.State) (o : Operand) (v : Val) : Prop where
  value : c.Carries s o.value v.word
  ty : o.ty.isString = false

theorem Gives.ir {o : Operand} {v : Val} (h : c.Gives s o v) : o.ir = v.kind.ir := by
  rw [← v.ty_word]
  exact h.value.ty

theorem Grows.mem_slotRegisters (h : c.Grows c') : ∀ r ∈ c.slotRegisters, r ∈ c'.slotRegisters :=
  fun _ hr => (h.slots.filterMap _).subset hr

theorem Agrees.keeps {m : Memory} (h : c.Agrees ρ m) (hk : c.Keeps c') : c'.Agrees ρ m := by
  rw [Agrees, hk.scopes]
  exact h.mono hk.toGrows.mem_slotRegisters

/-- Scopes from before have their slots from before. -/
theorem Agrees.back {ρ₀ : Store} {m m₀ : Memory} (h : c'.Agrees ρ m) (hk : c.Keeps c')
    (h₀ : c.Agrees ρ₀ m₀) : c.Agrees ρ m := by
  rw [Agrees, hk.scopes] at h
  exact h.restrict h₀

/-- Only registers and constants stand for words. -/
theorem Carries.cases (h : c.Carries s v w) : (∃ r, v = .reg r) ∨
    (∃ n, v = .int n .i32 ∧ w = .i32 (.ofInt 32 n)) ∨ ∃ b, v = .bool b ∧ w = .i1 b := by
  have hword := h.word
  cases v with
  | reg r => exact .inl ⟨r, rfl⟩
  | int n t =>
    cases t with
    | i32 =>
      cases hword
      exact .inr (.inl ⟨n, rfl, rfl⟩)
    | _ => cases hword
  | bool b =>
    cases hword
    exact .inr (.inr ⟨b, rfl, rfl⟩)
  | _ => cases hword

/-- What is computed is kept as long as older registers are. -/
theorem Carries.keep (h : c.Carries s v w) (hg : c.Grows c')
    (hregs : ∀ n < c.nextRegister, s'.regs n = s.regs n) : c'.Carries s' v w := by
  refine ⟨?_, h.ty, fun r hr => Nat.lt_of_lt_of_le (h.bound r hr) hg.nextRegister⟩
  rcases h.cases with ⟨r, rfl⟩ | ⟨n, rfl, rfl⟩ | ⟨b, rfl, rfl⟩
  · have hbound : r.id < c.nextRegister := h.bound r (List.mem_singleton_self r)
    exact (hregs r.id hbound).trans h.word
  · rfl
  · rfl

theorem Gives.keep {o : Operand} {v : Val} (h : c.Gives s o v) (hg : c.Grows c')
    (hregs : ∀ n < c.nextRegister, s'.regs n = s.regs n) : c'.Gives s' o v :=
  ⟨h.value.keep hg hregs, h.ty⟩

end Cursor

/-- A run goes from the point of one cursor to that of another, and changes no register from
before. -/
structure Draft.Passes (W : Draft) (c : Cursor) (k : Ir.Config) (c' : Cursor) (k' : Ir.Config) :
    Prop where
  steps : W.code.Steps k k'
  point : W.At c' k'
  regs : ∀ n < c.nextRegister, k'.state.regs n = k.state.regs n

theorem Draft.Passes.trans {W : Draft} {c c' c'' : Cursor} {k k' k'' : Ir.Config}
    (h : W.Passes c k c' k') (hg : c.Grows c') (h' : W.Passes c' k' c'' k'') :
    W.Passes c k c'' k'' := by
  refine ⟨h.steps.trans h'.steps, h'.point, fun n hn => ?_⟩
  rw [h'.regs n (Nat.lt_of_lt_of_le hn hg.nextRegister), h.regs n hn]

/-- A cursor after an instruction that writes a new register. -/
def Cursor.assign (c : Cursor) (i : Ir.Instr) : Cursor :=
  { c with nextRegister := c.nextRegister + 1 }.push i

theorem Cursor.Grows.assign {c : Cursor} (ho : c.IsOpen) (i : Ir.Instr) : c.Grows (c.assign i) :=
  of_current rfl (.push ho) (List.prefix_refl _) (Nat.le_succ _)

/-- The run does an instruction that writes a new register. -/
theorem Draft.At.assign {W : Draft} {c : Cursor} {k : Ir.Config} (h : W.At c k) (hW : W.Final)
    (ho : c.IsOpen) {ty : Ir.Ty} {i : Ir.Instr} {w : Ir.Word} (hty : ty = w.ty)
    (hg : (c.assign i).Grows W.cursor)
    (hexec : i.exec k.source? k.state = some (k.state.write ⟨c.nextRegister, ty⟩ w)) :
    ∃ k', W.Passes c k (c.assign i) k' ∧ k'.state.mem = k.state.mem ∧
      (c.assign i).Carries k'.state (.reg ⟨c.nextRegister, ty⟩) w := by
  have hcurrent : (c.assign i).current = c.current.push i := rfl
  obtain ⟨k', hstep, hat, hstate⟩ := h.emit hW ho hcurrent hg hexec
  refine ⟨k', ⟨.single hstep, hat, fun n hn => ?_⟩, by rw [hstate]; rfl, ?_, hty, fun r hr => ?_⟩
  · rw [hstate]
    exact k.state.write_regs_of_ne _ w (Nat.ne_of_lt hn)
  · rw [hstate]
    exact k.state.write_regs_self _ w
  · rw [List.mem_singleton.1 hr]
    exact Nat.lt_succ_self _

/-- A run gets through the code between two cursors, once it stands in a finished function, from a
state such that `pre` to a state such that `post`. -/
def Cursor.Through (c c' : Cursor) (pre post : Ir.State → Prop) : Prop :=
  ∀ W : Draft, W.Final → c'.Grows W.cursor → ∀ k, W.At c k → pre k.state →
    ∃ k', W.Passes c k c' k' ∧ post k'.state

namespace Cursor.Through

variable {c c' c'' : Cursor} {pre pre' mid post post' : Ir.State → Prop}

theorem mono (h : c.Through c' pre post) (hpre : ∀ s, pre' s → pre s)
    (hpost : ∀ s, post s → post' s) : c.Through c' pre' post' := by
  intro W hW hg k hat hk
  obtain ⟨k', hpass, hk'⟩ := h W hW hg k hat (hpre _ hk)
  exact ⟨k', hpass, hpost _ hk'⟩

theorem refl (h : ∀ s, pre s → post s) : c.Through c pre post :=
  fun _ _ _ k hat hk => ⟨k, ⟨.refl, hat, fun _ _ => rfl⟩, h _ hk⟩

theorem trans (h : c.Through c' pre mid) (h' : c'.Through c'' mid post) (hg : c.Grows c')
    (hg' : c'.Grows c'') : c.Through c'' pre post := by
  intro W hW hgW k hat hk
  obtain ⟨k₁, hpass₁, hk₁⟩ := h W hW (hg'.trans hgW) k hat hk
  obtain ⟨k₂, hpass₂, hk₂⟩ := h' W hW hgW k₁ hpass₁.point hk₁
  exact ⟨k₂, hpass₁.trans hg hpass₂, hk₂⟩

end Cursor.Through

namespace Lower

variable {α β : Type} {x : Lower α} {f : α → Lower β} {c : Cursor}
  {pre pre' : Ir.State → Prop} {post post' : α → Cursor → Ir.State → Prop}
  {final : β → Cursor → Ir.State → Prop}

/-- The code of `x`, added at a cursor, takes a run from `pre` to `post`. -/
def Runs (x : Lower α) (c : Cursor) (pre : Ir.State → Prop)
    (post : α → Cursor → Ir.State → Prop) : Prop :=
  Ensures x c fun a c' => c.Extends c' ∧ c.Through c' pre (post a c')

namespace Runs

theorem mono (h : Runs x c pre post) (hpre : ∀ s, pre' s → pre s)
    (hpost : ∀ a c' s, c.Extends c' → post a c' s → post' a c' s) : Runs x c pre' post' := by
  exact Ensures.mono h fun a c' ⟨hext, hrun⟩ => ⟨hext, hrun.mono hpre fun s => hpost a c' s hext⟩

theorem pure {a : α} (ho : c.IsOpen) (h : ∀ s, pre s → post a c s) :
    Runs (Pure.pure a) c pre post :=
  Ensures.pure ⟨.refl ho, .refl h⟩

theorem bind (h : Runs x c pre post)
    (hf : ∀ a c', c.Extends c' → Runs (f a) c' (post a c') final) :
    Runs (x >>= f) c pre final := by
  refine Ensures.bind (Ensures.mono h fun a c₁ ⟨hext₁, hrun₁⟩ => ?_)
  refine Ensures.mono (hf a c₁ hext₁) fun b c₂ ⟨hext₂, hrun₂⟩ => ⟨hext₁.trans hext₂, ?_⟩
  exact hrun₁.trans hrun₂ hext₁.toGrows hext₂.toGrows

/-- What the code does may depend on the state that a run comes with. -/
theorem of_state (hx : Adds x) (ho : c.IsOpen) (h : ∀ s, pre s → Runs x c (· = s) post) :
    Runs x c pre post := by
  refine fun g => ⟨hx c ho g, fun W hW hg k hat hk => ?_⟩
  exact (h k.state hk g).2 W hW hg k hat rfl

/-- Which code is added may depend on what holds when it runs. -/
theorem assuming (hx : Adds x) (ho : c.IsOpen) (h : ∀ s, pre s → Runs x c pre post) :
    Runs x c pre post := by
  refine of_state hx ho fun s hs => (h s hs).mono ?_ fun _ _ _ _ h => h
  rintro _ rfl
  exact hs

/-- Slots have their addresses wherever code runs. -/
theorem ready (h : Runs x c (fun s => pre s ∧ c.Ready s) post) : Runs x c pre post := by
  refine Ensures.mono h fun a c' ⟨hext, hrun⟩ => ⟨hext, fun W hW hg k hat hk => ?_⟩
  refine hrun W hW hg k hat ⟨hk, fun r hr => hat.ready r ?_⟩
  exact (hext.toGrows.trans hg).mem_slotRegisters r hr

/-- An operand from before is kept. -/
theorem keeping (h : Runs x c pre post) (o : Operand) (v : Val) :
    Runs x c (fun s => pre s ∧ c.Gives s o v) fun a c' s => post a c' s ∧ c'.Gives s o v := by
  refine Ensures.mono h fun a c' ⟨hext, hrun⟩ => ⟨hext, fun W hW hg k hat ⟨hk, ho⟩ => ?_⟩
  obtain ⟨k', hpass, hk'⟩ := hrun W hW hg k hat hk
  exact ⟨k', hpass, hk', ho.keep hext.toGrows hpass.regs⟩

/-- A value becomes an operand. -/
theorem operand {x : Lower Ir.Value} {m : Memory} {v : Val} {ty : Ty}
    (h : Runs x c pre fun u c' s => s.mem = m ∧ c'.Carries s u v.word)
    (hty : ty.isString = false) :
    Runs (do
      let u ← x
      return (⟨u, ty⟩ : Operand)) c pre fun o c' s => s.mem = m ∧ c'.Gives s o v :=
  h.bind fun _ _ hext => pure hext.isOpen fun _ hs => ⟨hs.1, hs.2, hty⟩

/-! ## Instructions -/

/-- An instruction that changes no register. -/
theorem emit {i : Ir.Instr} {post : Unit → Cursor → Ir.State → Prop} (ho : c.IsOpen)
    (h : ∀ source? s, pre s → ∃ s', i.exec source? s = some s' ∧ s'.regs = s.regs ∧
      ∀ c', c.Extends c' → post () c' s') : Runs (Lower.emit i) c pre post := by
  intro g
  have hext := Adds.emit i c ho g
  refine ⟨hext, fun W hW hg k hat hk => ?_⟩
  obtain ⟨s', hexec, hregs, hpost⟩ := h k.source? k.state hk
  have hcurrent : (c.push i).current = c.current.push i := rfl
  obtain ⟨k', hstep, hat', rfl⟩ := hat.emit hW ho hcurrent hg hexec
  exact ⟨k', ⟨.single hstep, hat', fun n _ => by rw [hregs]⟩, hpost _ hext⟩

/-- An instruction that writes a new register. -/
theorem assign {ty : Ir.Ty} {i : Ir.Register → Ir.Instr} {w : Ir.Word} {m : Memory} (ho : c.IsOpen)
    (hty : ty = w.ty) (hm : ∀ s, pre s → s.mem = m)
    (h : ∀ source? s, pre s → (i ⟨c.nextRegister, ty⟩).exec source? s =
      some (s.write ⟨c.nextRegister, ty⟩ w)) :
    Runs (do
      let dest ← Lower.freshRegister ty
      Lower.emit (i dest)
      return Ir.Value.reg dest) c pre fun v c' s => s.mem = m ∧ c'.Carries s v w := by
  refine fun g => ⟨Adds.assign ty i c ho g, fun W hW hg k hat hk => ?_⟩
  obtain ⟨k', hpass, hmem, hvalue⟩ := hat.assign hW ho hty hg (h k.source? k.state hk)
  exact ⟨k', hpass, hmem.trans (hm _ hk), hvalue⟩

end Runs

end Lower

end ClassLang
