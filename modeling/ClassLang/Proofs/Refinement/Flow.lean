import ClassLang.Proofs.Refinement.Update

/-!
# Branches, loops and switches

Code that takes a run from one point to another, one of several, by the outcome of what the code
stands for: an outcome that is not normal leads to the place in the environment that belongs to it.
Code is treated here as in the generator, without going down a tree. What is known of the parts of a
statement carries over to the whole; for loops this goes by induction on the number of rounds.
-/

namespace ClassLang

open ClassLang.Core (Action Outcome)

/-- The type of a result. -/
def resultIr (κ? : Option Kind) : Ir.Ty := (κ?.map Kind.ir).getD .void

/-- The environments inside of a function of the core. -/
structure Env.Plain (env : Env) (κ? : Option Kind) : Prop where
  kinds : env.KnowsKinds
  tries : env.tries = []
  isMain : env.isMain = false
  ret : env.ret = resultIr κ?

theorem Env.Plain.inLoop {env : Env} {κ? : Option Kind} (h : env.Plain κ?) (breakTo continueTo : Nat) :
    (env.inLoop breakTo continueTo).Plain κ? :=
  ⟨h.kinds, h.tries, h.isMain, h.ret⟩

theorem Env.Plain.inSwitch {env : Env} {κ? : Option Kind} (h : env.Plain κ?) (breakTo : Nat) :
    (env.inSwitch breakTo).Plain κ? :=
  ⟨h.kinds, h.tries, h.isMain, h.ret⟩

namespace Draft

variable {W : Draft} {env : Env} {κ? : Option Kind} {here here' : Ir.Config → Prop}
  {P P' : Store → Memory → Prop} {out : Outcome} {ρ : Store} {k : Ir.Config}

/-- A run stands at the end of a cursor that can be added to. -/
structure Stands (W : Draft) (c : Cursor) (k : Ir.Config) : Prop where
  isOpen : c.IsOpen
  point : W.At c k

/-- A run is about to end with what a function gives for `return`. -/
def Answers (W : Draft) (κ? : Option Kind) (v? : Option Val) (k : Ir.Config) : Prop :=
  ∀ u?, Core.answer? κ? (.ret v?) = some u? → W.code.ret = resultIr κ? →
    W.code.step k = some (.done (u?.map Val.word))

/-- A run is where an outcome leads to: `here`, if it is normal, and else where the environment
says. -/
def Lands (W : Draft) (env : Env) (κ? : Option Kind) (here : Ir.Config → Prop)
    (P : Store → Memory → Prop) : Outcome → Store → Ir.Config → Prop
  | .normal, ρ, k => here k ∧ P ρ k.state.mem
  | .break_, ρ, k => ∀ l, env.loops.head? = some l → W.Entered l.breakTo k ∧ P ρ k.state.mem
  | .continue_, ρ, k =>
    ∀ b d, env.continueTarget? = some (b, d) → W.Entered b k ∧ P ρ k.state.mem
  | .ret v?, _, k => W.Answers κ? v? k

theorem Lands.mono (h : W.Lands env κ? here P out ρ k)
    (hhere : out = .normal → here k → here' k) (hP : ∀ m, P ρ m → P' ρ m) :
    W.Lands env κ? here' P' out ρ k := by
  cases out with
  | normal => exact ⟨hhere rfl h.1, hP _ h.2⟩
  | break_ => exact fun l hl => ⟨(h l hl).1, hP _ (h l hl).2⟩
  | continue_ => exact fun b d hb => ⟨(h b d hb).1, hP _ (h b d hb).2⟩
  | ret => exact h

end Draft

/-- Between two cursors stands code for an action: from the first one, with `before` true of store
and memory, a run gets to where the outcome leads to, with `after` true of them. -/
def Cursor.Performs (c c' : Cursor) (env : Env) (κ? : Option Kind) (act : Action)
    (before after : Store → Memory → Prop) : Prop :=
  ∀ W : Draft, W.Final → c'.Grows W.cursor → ∀ ρ out ρ' k, act ρ = some (out, ρ') → W.At c k →
    before ρ k.state.mem →
      ∃ k', W.code.Steps k k' ∧ W.Lands env κ? (W.Stands c') after out ρ' k'

/-- A block `id` holds code for an action, which goes on to the block `exit`. -/
def Cursor.Handles (b c' : Cursor) (env : Env) (κ? : Option Kind) (act : Action) (id exit : Nat) :
    Prop :=
  ∀ W : Draft, W.Final → c'.Grows W.cursor → ∀ ρ out ρ' k, act ρ = some (out, ρ') →
    W.Entered id k → b.Agrees ρ k.state.mem →
      ∃ k', W.code.Steps k k' ∧ W.Lands env κ? (W.Entered exit) b.Agrees out ρ' k'

/-- The cursor outside of the innermost scope. -/
def Cursor.outer (c : Cursor) : Cursor := { c with scopes := c.scopes.tail }

theorem Cursor.Grows.of_outer {c c' : Cursor} (h : c.outer.Grows c'.outer) : c.Grows c' :=
  ⟨h.blocks, h.slots, h.nextRegister⟩

theorem Cursor.Keeps.outer {c c' : Cursor} (h : c.Keeps c') : c.outer.Keeps c'.outer :=
  ⟨⟨h.blocks, h.slots, h.nextRegister⟩, congrArg List.tail h.scopes⟩

theorem Cursor.Proceeds.keeps {c c' : Cursor} (h : c.Proceeds c') : c.outer.Keeps c'.outer :=
  ⟨⟨h.blocks, h.slots, h.nextRegister⟩, h.outer⟩

theorem Cursor.Agrees.outer {c : Cursor} {ρ : Store} {m : Memory} (h : c.Agrees ρ m) :
    c.outer.Agrees ρ.tail m := h.pop

namespace Lower

variable {env : Env} {κ? : Option Kind} {act act' : Action} {x y : Lower Unit} {b c c' : Cursor}

/-- The code of `x` does what an action says, in scopes that stay as they are. -/
def Does (env : Env) (κ? : Option Kind) (act : Action) (x : Lower Unit) : Prop :=
  ∀ c, c.IsOpen → Ensures x c fun _ c' =>
    c.Keeps c' ∧ c.Performs c' env κ? act c.Agrees c.Agrees

/-- The code of `x` does what an action says, as far as it can be seen outside of the innermost
scope. -/
def DoesInside (env : Env) (κ? : Option Kind) (act : Action) (x : Lower Unit) : Prop :=
  ∀ c, c.IsOpen → Ensures x c fun _ c' =>
    c.outer.Keeps c'.outer ∧ c.Performs c' env κ? act c.Agrees fun ρ => c.outer.Agrees ρ.tail

end Lower

theorem Cursor.Performs.weaken {c c' : Cursor} {env : Env} {κ? : Option Kind} {act : Action}
    {before after after' : Store → Memory → Prop} (h : c.Performs c' env κ? act before after)
    (hafter : ∀ ρ m, after ρ m → after' ρ m) : c.Performs c' env κ? act before after' := by
  intro W hW hg ρ out ρ' k hact hat hρ
  obtain ⟨k', hsteps, hlands⟩ := h W hW hg ρ out ρ' k hact hat hρ
  exact ⟨k', hsteps, hlands.mono (fun _ h => h) fun m => hafter ρ' m⟩

/-- Slots from before are enough. -/
theorem Cursor.Performs.rebase {b c c' : Cursor} {env : Env} {κ? : Option Kind} {act : Action}
    (h : c.Performs c' env κ? act c.Agrees c.Agrees) (hb : b.Keeps c) :
    c.Performs c' env κ? act b.Agrees b.Agrees := by
  intro W hW hg ρ out ρ' k hact hat hρ
  obtain ⟨k', hsteps, hlands⟩ := h W hW hg ρ out ρ' k hact hat (hρ.keeps hb)
  exact ⟨k', hsteps, hlands.mono (fun _ h => h) fun _ h => h.back hb hρ⟩

namespace Lower

/-! ## Scopes and sequences -/

theorem DoesInside.inScope (h : DoesInside env κ? act x) :
    Does env κ? (.inScope act) (Lower.inScope x) := by
  intro c ho
  let c₁ : Cursor := { c with scopes := {} :: c.scopes }
  have hx : Ensures x c₁ fun _ c₂ => c.Keeps c₂.outer ∧
      c.Performs c₂.outer env κ? (.inScope act) c.Agrees c.Agrees := by
    refine (h c₁ ho).mono fun _ c₂ ⟨hk, hrun⟩ =>
      ⟨⟨⟨hk.blocks, hk.slots, hk.nextRegister⟩, hk.scopes⟩, ?_⟩
    intro W hW hg ρ out ρ' k hact hat hρ
    obtain ⟨⟨out₁, ρ₁⟩, hinner, heq⟩ := Option.bind_eq_some_iff.1 hact
    cases heq
    have hg₂ : c₂.Grows W.cursor := ⟨hg.blocks, hg.slots, hg.nextRegister⟩
    obtain ⟨k', hsteps, hlands⟩ := hrun W hW hg₂ ({} :: ρ) out ρ₁ k hinner (hat.congr rfl) hρ.push
    refine ⟨k', hsteps, ?_⟩
    cases out with
    | normal => exact ⟨⟨hlands.1.isOpen, hlands.1.point.congr rfl⟩, hlands.2⟩
    | break_ => exact hlands
    | continue_ => exact hlands
    | ret => exact hlands
  exact hx

theorem DoesInside.skip : DoesInside env κ? .skip (pure ()) := by
  refine fun c ho => .pure ⟨.refl _, fun W hW hg ρ out ρ' k hact hat hρ => ?_⟩
  cases hact
  exact ⟨k, .refl, ⟨ho, hat⟩, hρ.outer⟩

/-- Going on after a statement, which may have ended the block. -/
theorem Does.andThen (hx : Does env κ? act x) (hy : DoesInside env κ? act' y)
    (hclosed : ∀ c, ¬c.IsOpen → Ensures y c fun _ c' => c' = c) :
    DoesInside env κ? (.andThen act act') (do
      x
      y) := by
  refine fun c ho => .bind ((hx c ho).mono fun _ c₁ ⟨hk₁, hrun₁⟩ => ?_)
  by_cases ho₁ : c₁.IsOpen
  · refine (hy c₁ ho₁).mono fun _ c₂ ⟨hk₂, hrun₂⟩ => ⟨hk₁.outer.trans hk₂, ?_⟩
    intro W hW hg ρ out ρ' k hact hat hρ
    obtain ⟨⟨out₁, ρ₁⟩, hfirst, hsecond⟩ := Option.bind_eq_some_iff.1 hact
    obtain ⟨k₁, hsteps₁, hlands₁⟩ :=
      hrun₁ W hW (hk₂.toGrows.of_outer.trans hg) ρ out₁ ρ₁ k hfirst hat hρ
    cases out₁ with
    | normal =>
      obtain ⟨k₂, hsteps₂, hlands₂⟩ :=
        hrun₂ W hW hg ρ₁ out ρ' k₁ hsecond hlands₁.1.point (hlands₁.2.keeps hk₁)
      exact ⟨k₂, hsteps₁.trans hsteps₂, hlands₂.mono (fun _ h => h) fun _ h =>
        h.back hk₁.outer hρ.outer⟩
    | break_ | continue_ | ret =>
      cases hsecond
      exact ⟨k₁, hsteps₁, hlands₁.mono (fun h => nomatch h) fun _ h => h.outer⟩
  · refine (hclosed c₁ ho₁).mono ?_
    rintro _ _ rfl
    refine ⟨hk₁.outer, fun W hW hg ρ out ρ' k hact hat hρ => ?_⟩
    obtain ⟨⟨out₁, ρ₁⟩, hfirst, hsecond⟩ := Option.bind_eq_some_iff.1 hact
    obtain ⟨k₁, hsteps₁, hlands₁⟩ := hrun₁ W hW hg ρ out₁ ρ₁ k hfirst hat hρ
    cases out₁ with
    | normal => exact absurd hlands₁.1.isOpen ho₁
    | break_ | continue_ | ret =>
      cases hsecond
      exact ⟨k₁, hsteps₁, hlands₁.mono (fun h => nomatch h) fun _ h => h.outer⟩

/-- Going on after a simple statement. -/
theorem Updates.andThen {s : Stmt} (hx : Updates (Core.update? · s) x)
    (hy : DoesInside env κ? act' y) :
    DoesInside env κ? (.andThen (.simple s) act') (do
      x
      y) := by
  refine fun c ho => .bind ((hx c ho).mono fun _ c₁ ⟨hpro₁, hrun₁⟩ => ?_)
  refine (hy c₁ hpro₁.isOpen).mono fun _ c₂ ⟨hk₂, hrun₂⟩ => ⟨hpro₁.keeps.trans hk₂, ?_⟩
  intro W hW hg ρ out ρ' k hact hat hρ
  obtain ⟨⟨out₁, ρ₁⟩, hfirst, hsecond⟩ := Option.bind_eq_some_iff.1 hact
  obtain ⟨u, hu, hfirst⟩ := Option.bind_eq_some_iff.1 hfirst
  obtain ⟨ρ₂, hρ₂, heq⟩ := Option.bind_eq_some_iff.1 hfirst
  cases heq
  obtain ⟨k₁, hpass, hmade⟩ :=
    hrun₁ ρ u ρ₁ _ hu hρ₂ hρ W hW (hk₂.toGrows.of_outer.trans hg) k hat rfl
  obtain ⟨k₂, hsteps₂, hlands₂⟩ := hrun₂ W hW hg ρ₁ out ρ' k₁ hsecond hpass.point hmade.after
  exact ⟨k₂, hpass.steps.trans hsteps₂, hlands₂.mono (fun _ h => h) fun _ h =>
    h.back hpro₁.keeps hρ.outer⟩

/-- Going on after code that does not concern the store. -/
theorem Does.mark (env' : Env) (span : Span) (h : Does env κ? act x) :
    Does env κ? act (do
      Lower.mark env' span
      x) := by
  intro c ho
  have hmark : Ensures (Lower.mark env' span) c fun _ c₁ => c.Extends c₁ ∧
      ∀ m, c.Through c₁ (·.mem = m) fun s => s.mem = m :=
    fun g => ⟨Adds.mark env' span c ho g, fun m => (Runs.mark env' span ho g).2⟩
  refine .bind (hmark.mono fun _ c₁ ⟨hext₁, hrun₁⟩ => ?_)
  refine (h c₁ hext₁.isOpen).mono fun _ c₂ ⟨hk₂, hrun₂⟩ => ⟨hext₁.toKeeps.trans hk₂, ?_⟩
  intro W hW hg ρ out ρ' k hact hat hρ
  obtain ⟨k₁, hpass, hm⟩ := hrun₁ k.state.mem W hW (hk₂.toGrows.trans hg) k hat rfl
  rw [← hm] at hρ
  obtain ⟨k₂, hsteps₂, hlands₂⟩ :=
    hrun₂.rebase hext₁.toKeeps W hW hg ρ out ρ' k₁ hact hpass.point hρ
  exact ⟨k₂, hpass.steps.trans hsteps₂, hlands₂⟩

end Lower

/-! ## Blocks of their own -/

namespace Cursor

variable {b c c' : Cursor} {env : Env} {κ? : Option Kind} {act : Action} {id exit : Nat}

theorem Handles.rebase (h : c.Handles c' env κ? act id exit) (hb : b.Keeps c) :
    b.Handles c' env κ? act id exit := by
  intro W hW hg ρ out ρ' k hact hentered hρ
  obtain ⟨k', hsteps, hlands⟩ := h W hW hg ρ out ρ' k hact hentered (hρ.keeps hb)
  exact ⟨k', hsteps, hlands.mono (fun _ h => h) fun _ h => h.back hb hρ⟩

theorem Handles.mono (h : b.Handles c env κ? act id exit) (hg : c.Grows c') :
    b.Handles c' env κ? act id exit :=
  fun W hW hgW => h W hW (hg.trans hgW)

/-- Nothing to do, in no block. -/
theorem Handles.skip : b.Handles c env κ? .skip exit exit := by
  intro W hW hg ρ out ρ' k hact hentered hρ
  cases hact
  exact ⟨k, .refl, hentered, hρ⟩

/-- From a block `id`, control goes to one of two blocks by what a condition says. -/
def Checks (b c' : Cursor) (test : Store → Option Bool) (id ifTrue ifFalse : Nat) : Prop :=
  ∀ W : Draft, W.Final → c'.Grows W.cursor → ∀ ρ t k, test ρ = some t → W.Entered id k →
    b.Agrees ρ k.state.mem → ∃ k', W.code.Steps k k' ∧
      W.Entered (if t then ifTrue else ifFalse) k' ∧ b.Agrees ρ k'.state.mem

theorem Checks.rebase {test : Store → Option Bool} {ifTrue ifFalse : Nat}
    (h : c.Checks c' test id ifTrue ifFalse) (hb : b.Keeps c) :
    b.Checks c' test id ifTrue ifFalse := by
  intro W hW hg ρ t k ht hentered hρ
  obtain ⟨k', hsteps, hentered', hρ'⟩ := h W hW hg ρ t k ht hentered (hρ.keeps hb)
  exact ⟨k', hsteps, hentered', hρ'.back hb hρ⟩

theorem Checks.mono {test : Store → Option Bool} {ifTrue ifFalse : Nat}
    (h : b.Checks c test id ifTrue ifFalse) (hg : c.Grows c') :
    b.Checks c' test id ifTrue ifFalse :=
  fun W hW hgW => h W hW (hg.trans hgW)

end Cursor

namespace Lower

variable {env : Env} {κ? : Option Kind} {act act' : Action} {x : Lower Unit} {c : Cursor}
  {id exit : Nat} {label : String}

theorem Does.arm (h : Does env κ? act x) (c : Cursor) :
    Ensures (Lower.arm id label exit x) c fun _ c' =>
      c.Keeps c' ∧ c.Handles c' env κ? act id exit := by
  let c₁ := c.start id label
  have hk₁ : c.Keeps c₁ := .start c id label
  refine .bind_startBlock (.bind ((h c₁ rfl).mono fun _ c₂ ⟨hk₂, hrun₂⟩ _ => ?_))
  let c₃ := c₂.terminate (.jump exit)
  have hk₃ : c₂.Keeps c₃ := .terminate c₂ (.jump exit)
  refine ⟨(hk₁.trans hk₂).trans hk₃, fun W hW hg ρ out ρ' k hact hentered hρ => ?_⟩
  have hg₂ : c₂.Grows W.cursor := hk₃.toGrows.trans hg
  have hat := hentered.at hW (c := c₁) rfl (hk₂.toGrows.trans hg₂)
  obtain ⟨k₁, hsteps₁, hlands₁⟩ := hrun₂ W hW hg₂ ρ out ρ' k hact hat hρ
  cases out with
  | normal =>
    obtain ⟨⟨ho, hat₁⟩, hρ₁⟩ := hlands₁
    obtain ⟨k₂, hsteps₂, hentered₂, hstate, _⟩ := hat₁.jump hW ho hg
    exact ⟨k₂, hsteps₁.trans hsteps₂, hentered₂, by rw [hstate]; exact hρ₁⟩
  | break_ | continue_ | ret => exact ⟨k₁, hsteps₁, hlands₁⟩

/-- Code that may be left out, and then has no block. -/
theorem handles_arm? {x? : Option (Lower Unit)} (hx : ∀ x, x? = some x → Does env κ? act x)
    (hnone : x? = none → act = .skip ∧ id = exit) (c : Cursor) :
    Ensures (Lower.arm? id label exit x?) c fun _ c' =>
      c.Keeps c' ∧ c.Handles c' env κ? act id exit := by
  cases x? with
  | some x => exact (hx x rfl).arm c
  | none =>
    obtain ⟨rfl, rfl⟩ := hnone rfl
    exact .pure ⟨.refl c, .skip⟩

/-- A branch at the end of a condition. -/
theorem Decides.branch {meaning : Store → Option Bool} {test : Lower Ir.Value}
    (h : Decides meaning test) (ho : c.IsOpen) (ifTrue ifFalse : Nat) :
    Ensures (do Lower.branch (← test) ifTrue ifFalse) c fun _ c' => c.Keeps c' ∧
      ∀ W : Draft, W.Final → c'.Grows W.cursor → ∀ ρ t k, meaning ρ = some t → W.At c k →
        c.Agrees ρ k.state.mem → ∃ k', W.code.Steps k k' ∧
          W.Entered (if t then ifTrue else ifFalse) k' ∧ c.Agrees ρ k'.state.mem := by
  refine .bind ((h c ho).mono fun v c₁ ⟨hext₁, hrun₁⟩ _ => ?_)
  let c₂ := c₁.terminate (.branch v ifTrue ifFalse)
  have hk₂ : c₁.Keeps c₂ := .terminate c₁ (.branch v ifTrue ifFalse)
  refine ⟨hext₁.toKeeps.trans hk₂, fun W hW hg ρ t k ht hat hρ => ?_⟩
  obtain ⟨k₁, hpass₁, hm, hv⟩ := hrun₁ ρ t _ ht hρ W hW (hk₂.toGrows.trans hg) k hat rfl
  obtain ⟨k₂, hsteps₂, hentered, hstate, _⟩ := hpass₁.point.branch hW hext₁.isOpen hg hv.word
  refine ⟨k₂, hpass₁.steps.trans hsteps₂, hentered, ?_⟩
  rw [hstate, hm]
  exact hρ

/-! ## Branches -/

theorem Does.ifElse {meaning : Store → Option Bool} {test : Lower Operand}
    (ht : Decides meaning (condition test)) (hx : Does env κ? act x) {y? : Option (Lower Unit)}
    (hy : ∀ y, y? = some y → Does env κ? act' y) (hnone : y? = none → act' = .skip) :
    Does env κ? (fun ρ => do if ← meaning ρ then act ρ else act' ρ) (Lower.ifElse test x y?) := by
  intro c ho
  refine .bind ((ht c ho).mono fun v c₁ ⟨hext₁, hrun₁⟩ => ?_)
  refine .bind_freshBlock (.bind_freshBlock (.bind_freshBlockIf fun elseBlock n helse => ?_))
  let thenBlock := c₁.nextBlock
  let merge := c₁.nextBlock + 1
  let c₂ : Cursor := { c₁ with nextBlock := n }
  let c₃ := c₂.terminate (.branch v thenBlock elseBlock)
  have hk₃ : c.Keeps c₃ :=
    (hext₁.toKeeps.trans (.freshBlock c₁)).trans (.terminate c₂ (.branch v thenBlock elseBlock))
  refine .bind_terminate (.bind ((hx.arm c₃).mono fun _ c₄ ⟨hk₄, hthen⟩ => ?_))
  have hskip : y? = none → act' = .skip ∧ elseBlock = merge := fun h =>
    ⟨hnone h, helse (by rw [h]; rfl)⟩
  refine .bind ((handles_arm? hy hskip c₄).mono fun _ c₅ ⟨hk₅, hother⟩ _ => ?_)
  let c₆ := c₅.start merge "if.merge"
  have hk₆ : c₅.Keeps c₆ := .start c₅ merge "if.merge"
  have hg₃ : c₃.Grows c₆ := ((hk₄.trans hk₅).trans hk₆).toGrows
  refine ⟨((hk₃.trans hk₄).trans hk₅).trans hk₆, fun W hW hg ρ out ρ' k hact hat hρ => ?_⟩
  obtain ⟨t, htest, hact⟩ := Option.bind_eq_some_iff.1 hact
  have hg₁ : c₁.Grows W.cursor := .trans (.trans (.freshBlock c₁) (.terminate c₂ _)) (hg₃.trans hg)
  obtain ⟨k₁, hpass₁, hm, hv⟩ := hrun₁ ρ t _ htest hρ W hW hg₁ k hat rfl
  have hat₂ : W.At c₂ k₁ := hpass₁.point.congr rfl
  obtain ⟨k₂, hsteps₂, hentered, hstate, _⟩ :=
    hat₂.branch hW hext₁.isOpen (hg₃.trans hg) hv.word
  have hρ₂ : c.Agrees ρ k₂.state.mem := by
    rw [hstate, hm]
    exact hρ
  have hmerge : ∀ {k}, W.Entered merge k → W.Stands c₆ k := fun h => ⟨rfl, h.at hW rfl hg⟩
  have harm : ∃ k₃, W.code.Steps k₂ k₃ ∧
      W.Lands env κ? (W.Entered merge) c.Agrees out ρ' k₃ := by
    cases t with
    | true =>
      have hthen := (hthen.rebase hk₃).mono (hk₅.trans hk₆).toGrows
      exact hthen W hW hg ρ out ρ' k₂ hact hentered hρ₂
    | false =>
      have hother := (hother.rebase (hk₃.trans hk₄)).mono hk₆.toGrows
      exact hother W hW hg ρ out ρ' k₂ hact hentered hρ₂
  obtain ⟨k₃, hsteps₃, hlands⟩ := harm
  exact ⟨k₃, (hpass₁.steps.trans hsteps₂).trans hsteps₃, hlands.mono (fun _ h => hmerge h)
    fun _ h => h⟩

end Lower

/-! ## Loops -/

namespace Cursor

variable {b c c₁ c' : Cursor} {env : Env} {κ? : Option Kind} {act : Action}

/-- The rounds of a loop: from the test to the body or out of the loop, from the body to what comes
after each round, and from there to the test again. -/
theorem Handles.loop {test : Store → Option Bool} {body post : Action}
    {header bodyBlock next exit : Nat} (htest : b.Checks c' test header bodyBlock exit)
    (hbody : b.Handles c' (env.inLoop exit next) κ? body bodyBlock next)
    (hpost : b.Handles c' env κ? post next header)
    (hnormal : ∀ ρ out ρ', post ρ = some (out, ρ') → out = .normal) (fuel : Nat) :
    b.Handles c' env κ? (.loop test body post fuel) header exit := by
  intro W hW hg ρ out ρ' k hact hentered hρ
  induction fuel generalizing ρ k with
  | zero => cases hact
  | succ fuel ih =>
    obtain ⟨t, ht, hact⟩ := Option.bind_eq_some_iff.1 hact
    obtain ⟨k₁, hsteps₁, hentered₁, hρ₁⟩ := htest W hW hg ρ t k ht hentered hρ
    cases t with
    | false =>
      cases hact
      exact ⟨k₁, hsteps₁, hentered₁, hρ₁⟩
    | true =>
      obtain ⟨⟨out₁, ρ₁⟩, hround, hact⟩ := Option.bind_eq_some_iff.1 hact
      obtain ⟨k₂, hsteps₂, hlands₂⟩ := hbody W hW hg ρ out₁ ρ₁ k₁ hround hentered₁ hρ₁
      -- The next round, from where the body ends or `continue` leads to.
      have hagain : W.Entered next k₂ ∧ b.Agrees ρ₁ k₂.state.mem →
          ((post ρ₁).bind fun r => Action.loop test body post fuel r.2) = some (out, ρ') →
            ∃ k', W.code.Steps k k' ∧ W.Lands env κ? (W.Entered exit) b.Agrees out ρ' k' := by
        rintro ⟨hentered₂, hρ₂⟩ hact
        obtain ⟨⟨out₂, ρ₂⟩, hpost', hact⟩ := Option.bind_eq_some_iff.1 hact
        obtain rfl := hnormal ρ₁ out₂ ρ₂ hpost'
        obtain ⟨k₃, hsteps₃, hentered₃, hρ₃⟩ := hpost W hW hg ρ₁ .normal ρ₂ k₂ hpost' hentered₂ hρ₂
        obtain ⟨k₄, hsteps₄, hlands₄⟩ := ih ρ₂ k₃ hact hentered₃ hρ₃
        exact ⟨k₄, ((hsteps₁.trans hsteps₂).trans hsteps₃).trans hsteps₄, hlands₄⟩
      cases out₁ with
      | normal => exact hagain hlands₂ hact
      | continue_ => exact hagain (hlands₂ next env.tries.length rfl) hact
      | break_ =>
        cases hact
        obtain ⟨hentered₂, hρ₂⟩ := hlands₂ ⟨exit, some next, env.tries.length⟩ rfl
        exact ⟨k₂, hsteps₁.trans hsteps₂, hentered₂, hρ₂⟩
      | ret =>
        cases hact
        exact ⟨k₂, hsteps₁.trans hsteps₂, hlands₂⟩

/-- Code that starts with a jump to a block and ends at the beginning of another. -/
theorem Handles.performs {entrance exit : Nat} {label : String}
    (h : c.Handles c' env κ? act entrance exit) (ho : c₁.IsOpen) (hcurrent : c₁.current = c.current)
    (hg : (c₁.terminate (.jump entrance)).Grows c') :
    c.Performs (c'.start exit label) env κ? act c.Agrees c.Agrees := by
  intro W hW hgW ρ out ρ' k hact hat hρ
  have hg' : c'.Grows W.cursor := .trans (.start c' exit label) hgW
  have hat₁ : W.At c₁ k := hat.congr hcurrent
  obtain ⟨k₁, hsteps₁, hentered, hstate, _⟩ := hat₁.jump hW ho (hg.trans hg')
  rw [← hstate] at hρ
  obtain ⟨k₂, hsteps₂, hlands⟩ := h W hW hg' ρ out ρ' k₁ hact hentered hρ
  exact ⟨k₂, hsteps₁.trans hsteps₂, hlands.mono (fun _ h => ⟨rfl, h.at hW rfl hgW⟩) fun _ h => h⟩

end Cursor

namespace Lower

variable {env : Env} {κ? : Option Kind} {act : Action} {c : Cursor}

/-- The block in front of each round. -/
theorem Ensures.loopTest {meaning : Store → Option Bool} (test? : Option (Lower Operand))
    (h : ∀ test, test? = some test → Decides meaning (condition test))
    (hnone : test? = none → meaning = fun _ => some true) (c : Cursor) {header body exit : Nat}
    {label : String} :
    Ensures (do
      Lower.startBlock header label
      Lower.loopTest body exit test?) c fun _ c' =>
        c.Keeps c' ∧ c.Checks c' meaning header body exit := by
  let c₁ := c.start header label
  have hk₁ : c.Keeps c₁ := .start c header label
  refine .bind_startBlock ?_
  cases test? with
  | some test =>
    refine ((h test rfl).branch (c := c₁) rfl body exit).mono fun _ c₂ ⟨hk₂, hrun₂⟩ => ?_
    refine ⟨hk₁.trans hk₂, fun W hW hg ρ t k ht hentered hρ => ?_⟩
    have hat := hentered.at hW (c := c₁) rfl (hk₂.toGrows.trans hg)
    exact hrun₂ W hW hg ρ t k ht hat hρ
  | none =>
    let c₂ := c₁.terminate (.jump body)
    have hk₂ : c₁.Keeps c₂ := .terminate c₁ (.jump body)
    refine fun _ => ⟨hk₁.trans hk₂, fun W hW hg ρ t k ht hentered hρ => ?_⟩
    have hat := hentered.at hW (c := c₁) rfl (hk₂.toGrows.trans hg)
    rw [hnone rfl] at ht
    cases ht
    obtain ⟨k₁, hsteps, hentered₁, hstate, _⟩ := hat.jump hW rfl hg
    exact ⟨k₁, hsteps, hentered₁, by rw [hstate]; exact hρ⟩

theorem Does.whileLoop {meaning : Store → Option Bool} {test : Lower Operand}
    {body : Env → Lower Unit} (ht : Decides meaning (condition test))
    (hbody : ∀ exit next, Does (env.inLoop exit next) κ? act (body (env.inLoop exit next)))
    (fuel : Nat) :
    Does env κ? (.loop meaning act .skip fuel) (Lower.whileLoop env test body) := by
  intro c ho
  refine .bind_freshBlock (.bind_freshBlock (.bind_freshBlock (.bind_terminate ?_)))
  let header := c.nextBlock
  let bodyBlock := c.nextBlock + 1
  let exit := c.nextBlock + 1 + 1
  let c₁ : Cursor := { c with nextBlock := c.nextBlock + 1 + 1 + 1 }
  let c₂ := c₁.terminate (.jump header)
  have hk₂ : c.Keeps c₂ := .trans (.freshBlock c) (.terminate c₁ (.jump header))
  have htest : Ensures (do
      Lower.startBlock header "while.header"
      Lower.loopTest bodyBlock exit (some test)) c₂ fun _ c' =>
        c₂.Keeps c' ∧ c₂.Checks c' meaning header bodyBlock exit :=
    .loopTest (some test) (fun _ h => Option.some.inj h ▸ ht) (fun h => nomatch h) c₂
  have hrest : Ensures (do
      (do
        Lower.startBlock header "while.header"
        Lower.loopTest bodyBlock exit (some test))
      Lower.arm bodyBlock "while.body" header (body (env.inLoop exit header))
      Lower.startBlock exit "while.exit") c₂ fun _ c' => c.Keeps c' ∧
        c.Performs c' env κ? (.loop meaning act .skip fuel) c.Agrees c.Agrees := by
    refine .bind (htest.mono fun _ c₃ ⟨hk₃, hchecks⟩ => ?_)
    refine .bind (((hbody exit header).arm c₃).mono fun _ c₄ ⟨hk₄, hround⟩ _ => ?_)
    have hk : c.Keeps c₄ := (hk₂.trans hk₃).trans hk₄
    have hloop : c.Handles c₄ env κ? (.loop meaning act .skip fuel) header exit := by
      refine .loop ((hchecks.rebase hk₂).mono hk₄.toGrows) (hround.rebase (hk₂.trans hk₃)) .skip ?_ fuel
      intro ρ out ρ' h
      cases h
      rfl
    have ho₁ : c₁.IsOpen := ho
    exact ⟨hk.trans (.start c₄ exit "while.exit"), hloop.performs ho₁ rfl (hk₃.trans hk₄).toGrows⟩
  exact hrest

/-! ## Loops with a head -/

/-- What a simple statement does that may be left out. -/
def simpleIf (s? : Option Stmt) : Action := (s?.map Action.simple).getD .skip

/-- Code for a simple statement, if there is one. -/
abbrev UpdatesIf (s? : Option Stmt) (x? : Option (Lower Unit)) : Prop :=
  Option.Rel (fun s x => Updates (Core.update? · s) x) s? x?

/-- A simple statement in a block of its own. What it declares is not seen outside of the block. -/
theorem Updates.arm (env : Env) (κ? : Option Kind) {s : Stmt} {x : Lower Unit}
    (h : Updates (Core.update? · s) x) (c : Cursor) {id exit : Nat} {label : String} :
    Ensures (Lower.arm id label exit x) c fun _ c' =>
      c.outer.Keeps c'.outer ∧ c.Handles c' env κ? (.inScope (.simple s)) id exit := by
  let c₁ := c.start id label
  have hk₁ : c.Keeps c₁ := .start c id label
  refine .bind_startBlock (.bind ((h c₁ rfl).mono fun _ c₂ ⟨hpro₂, hrun₂⟩ _ => ?_))
  let c₃ := c₂.terminate (.jump exit)
  have hk₃ : c₂.Keeps c₃ := .terminate c₂ (.jump exit)
  refine ⟨(hk₁.outer.trans hpro₂.keeps).trans hk₃.outer, ?_⟩
  intro W hW hg ρ out ρ' k hact hentered hρ
  obtain ⟨rfl, u, ρ₁, hu, hρ₁, rfl⟩ := Core.of_inScope_simple hact
  have hg₂ : c₂.Grows W.cursor := hk₃.toGrows.trans hg
  have hat := hentered.at hW (c := c₁) rfl (hpro₂.toGrows.trans hg₂)
  obtain ⟨k₁, hpass₁, hmade⟩ := hrun₂ ρ u ρ₁ _ hu hρ₁ hρ W hW hg₂ k hat rfl
  obtain ⟨k₂, hsteps₂, hentered₂, hstate, _⟩ := hpass₁.point.jump hW hpro₂.isOpen hg
  exact ⟨k₂, hpass₁.steps.trans hsteps₂, hentered₂, by rw [hstate]; exact hmade.outside⟩

theorem UpdatesIf.arm (env : Env) (κ? : Option Kind) {s? : Option Stmt}
    {x? : Option (Lower Unit)} (h : UpdatesIf s? x?) (c : Cursor) {id exit : Nat} {label : String} :
    Ensures (Lower.arm id label exit (perhaps x?)) c fun _ c' =>
      c.outer.Keeps c'.outer ∧ c.Handles c' env κ? (.inScope (simpleIf s?)) id exit := by
  cases h with
  | some h => exact h.arm env κ? c
  | none =>
    have hskip : Does env κ? (.inScope .skip) (pure ()) := by
      refine fun c ho => .pure ⟨.refl c, fun W hW hg ρ out ρ' k hact hat hρ => ?_⟩
      cases hact
      exact ⟨k, .refl, ⟨ho, hat⟩, hρ⟩
    exact (hskip.arm c).mono fun _ _ ⟨hk, hhandles⟩ => ⟨hk.outer, hhandles⟩

theorem UpdatesIf.andThen {s? : Option Stmt} {x? : Option (Lower Unit)} {y : Lower Unit}
    (h : UpdatesIf s? x?) (hy : DoesInside env κ? act y) :
    DoesInside env κ? (.andThen (simpleIf s?) act) (do
      perhaps x?
      y) := by
  cases h with
  | some h => exact h.andThen hy
  | none => exact hy

theorem out_of_inScope_simpleIf {s? : Option Stmt} {ρ ρ' : Store} {out : Outcome}
    (h : Action.inScope (simpleIf s?) ρ = some (out, ρ')) : out = .normal := by
  cases s? with
  | some s => exact (Core.of_inScope_simple h).1
  | none =>
    cases h
    rfl

theorem Does.forLoop {meaning : Store → Option Bool} {init? post? : Option Stmt}
    {x? y? : Option (Lower Unit)} {test? : Option (Lower Operand)} {body : Env → Lower Unit}
    (hinit : UpdatesIf init? x?)
    (ht : ∀ test, test? = some test → Decides meaning (condition test))
    (hnone : test? = none → meaning = fun _ => some true) (hpost : UpdatesIf post? y?)
    (hbody : ∀ exit next, Does (env.inLoop exit next) κ? act (body (env.inLoop exit next)))
    (fuel : Nat) :
    Does env κ? (.inScope (.andThen (simpleIf init?)
      (.loop meaning act (.inScope (simpleIf post?)) fuel)))
      (Lower.forLoop env x? test? y? body) := by
  refine DoesInside.inScope (hinit.andThen ?_)
  intro c ho
  refine .bind_freshBlock (.bind_freshBlock (.bind_freshBlock (.bind_freshBlock (.bind_terminate ?_))))
  let test := c.nextBlock
  let bodyBlock := c.nextBlock + 1
  let post := c.nextBlock + 1 + 1
  let exit := c.nextBlock + 1 + 1 + 1
  let c₁ : Cursor := { c with nextBlock := c.nextBlock + 1 + 1 + 1 + 1 }
  let c₂ := c₁.terminate (.jump test)
  have hk₂ : c.Keeps c₂ := .trans (.freshBlock c) (.terminate c₁ (.jump test))
  have htest : Ensures (do
      Lower.startBlock test "for.cond"
      Lower.loopTest bodyBlock exit test?) c₂ fun _ c' =>
        c₂.Keeps c' ∧ c₂.Checks c' meaning test bodyBlock exit := .loopTest test? ht hnone c₂
  have hrest : Ensures (do
      (do
        Lower.startBlock test "for.cond"
        Lower.loopTest bodyBlock exit test?)
      Lower.arm bodyBlock "for.body" post (body (env.inLoop exit post))
      Lower.arm post "for.post" test (perhaps y?)
      Lower.startBlock exit "for.exit") c₂ fun _ c' => c.outer.Keeps c'.outer ∧
        c.Performs c' env κ? (.loop meaning act (.inScope (simpleIf post?)) fuel) c.Agrees
          fun ρ => c.outer.Agrees ρ.tail := by
    refine .bind (htest.mono fun _ c₃ ⟨hk₃, hchecks⟩ => ?_)
    refine .bind (((hbody exit post).arm c₃).mono fun _ c₄ ⟨hk₄, hround⟩ => ?_)
    refine .bind ((hpost.arm env κ? c₄).mono fun _ c₅ ⟨hk₅, hafter⟩ _ => ?_)
    have hk : c.Keeps c₄ := (hk₂.trans hk₃).trans hk₄
    have hg₅ : c₄.Grows c₅ := hk₅.toGrows.of_outer
    have hloop : c.Handles c₅ env κ? (.loop meaning act (.inScope (simpleIf post?)) fuel) test exit := by
      refine .loop ((hchecks.rebase hk₂).mono (hk₄.toGrows.trans hg₅))
        ((hround.rebase (hk₂.trans hk₃)).mono hg₅) (hafter.rebase hk) ?_ fuel
      exact fun _ _ _ h => out_of_inScope_simpleIf h
    have ho₁ : c₁.IsOpen := ho
    refine ⟨(hk.outer.trans hk₅).trans (Cursor.Keeps.start c₅ exit "for.exit").outer, ?_⟩
    exact (hloop.performs ho₁ rfl ((hk₃.trans hk₄).toGrows.trans hg₅)).weaken fun _ _ h => h.outer
  exact hrest

end Lower

end ClassLang
