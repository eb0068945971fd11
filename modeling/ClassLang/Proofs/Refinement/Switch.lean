import ClassLang.Proofs.Refinement.Flow

/-!
# Switches

All tests of a switch come before the first body. A run goes through the tests in order until a value
is the tag, and from there to the block of the case that the value belongs to; if no value is the tag,
it gets to the end of the tests. `break` inside a switch leads out of it, and `continue` to where it
leads outside.
-/

namespace ClassLang

open ClassLang.Core (Action Outcome)

/-- From one cursor, with a tag at hand, a run gets to a block that is `chosen` or, if none is, to
the other cursor. -/
def Cursor.Sorts (c c' : Cursor) (tag : Operand) (t : BitVec 32) (m : Memory) (chosen : Nat → Prop)
    (missed : Prop) : Prop :=
  ∀ W : Draft, W.Final → c'.Grows W.cursor → ∀ k, W.At c k → k.state.mem = m →
    c.Gives k.state tag (.int t) → ∃ k', W.code.Steps k k' ∧ k'.state.mem = m ∧
      ((∃ target, chosen target ∧ W.Entered target k') ∨
        missed ∧ W.At c' k' ∧ c'.Gives k'.state tag (.int t))

namespace Cursor.Sorts

variable {c c₁ c₂ : Cursor} {tag : Operand} {t : BitVec 32} {m : Memory}
  {chosen chosen' : Nat → Prop} {missed missed' : Prop}

theorem refl (h : missed) : c.Sorts c tag t m chosen missed :=
  fun _ _ _ k hat hm htag => ⟨k, .refl, hm, .inr ⟨h, hat, htag⟩⟩

theorem mono (h : c.Sorts c₁ tag t m chosen missed) (hchosen : ∀ b, chosen b → chosen' b) :
    c.Sorts c₁ tag t m chosen' missed := by
  intro W hW hg k hat hm htag
  obtain ⟨k₁, hsteps, hm₁, hcases⟩ := h W hW hg k hat hm htag
  exact ⟨k₁, hsteps, hm₁, hcases.imp_left fun ⟨b, hb, hentered⟩ => ⟨b, hchosen b hb, hentered⟩⟩

/-- More tests, for what the first ones have not chosen. -/
theorem trans (h : c.Sorts c₁ tag t m chosen missed)
    (h' : missed → c₁.Sorts c₂ tag t m chosen' missed') (hchosen : ∀ b, chosen b → chosen' b)
    (hg : c₁.Grows c₂) : c.Sorts c₂ tag t m chosen' missed' := by
  intro W hW hgW k hat hm htag
  obtain ⟨k₁, hsteps₁, hm₁, ⟨b, hb, hentered⟩ | ⟨hmissed, hat₁, htag₁⟩⟩ :=
    h W hW (hg.trans hgW) k hat hm htag
  · exact ⟨k₁, hsteps₁, hm₁, .inl ⟨b, hchosen b hb, hentered⟩⟩
  · obtain ⟨k₂, hsteps₂, hrest⟩ := h' hmissed W hW hgW k₁ hat₁ hm₁ htag₁
    exact ⟨k₂, hsteps₁.trans hsteps₂, hrest⟩

end Cursor.Sorts

/-- What leads to the end of a switch is normal outside of it. -/
theorem Draft.Lands.inSwitch {W : Draft} {env : Env} {κ? : Option Kind} {exit : Nat}
    {P : Store → Memory → Prop} {act : Action} {out out' : Outcome} {ρ ρ₁ ρ' : Store}
    {k : Ir.Config} (h : W.Lands (env.inSwitch exit) κ? (W.Entered exit) P out ρ₁ k)
    (hact : act ρ = some (out, ρ₁)) (hswitch : act.inSwitch ρ = some (out', ρ')) :
    W.Lands env κ? (W.Entered exit) P out' ρ' k := by
  rw [Action.inSwitch, hact] at hswitch
  cases out with
  | break_ =>
    cases hswitch
    exact h ⟨exit, none, env.tries.length⟩ rfl
  | normal | continue_ | ret =>
    cases hswitch
    exact h

namespace Lower

variable {c : Cursor} {ρ : Store} {m : Memory} {detour : Detour} {env : Env} {κ? : Option Kind}

/-! ## Tests -/

theorem Runs.comparison {tag o : Operand} {t n : BitVec 32} (ho : c.IsOpen) :
    Runs (Lower.comparison .equal tag o) c
      (fun s => s.mem = m ∧ c.Gives s tag (.int t) ∧ c.Gives s o (.int n))
      fun v c' s => s.mem = m ∧ c'.Carries s v (.i1 (t == n)) := by
  refine assuming (.comparison tag o .equal) ho fun _ ⟨_, htag, hn⟩ => ?_
  rw [comparison_eq .equal htag.ty (htag.ir.trans hn.ir.symm)]
  exact (compare ho rfl).mono (fun s hs => ⟨hs.1, hs.2.1.value, hs.2.2.value⟩) fun _ _ _ _ hs => hs

/-- One value is compared with the tag. -/
theorem sorts_caseTest {meaning : Store → Option Val} {value : Lower Operand}
    (hvalue : Computes meaning value) (tag : Operand) (target : Nat) (ho : c.IsOpen) :
    Ensures (Lower.caseTest (some tag) target value) c fun _ c' => c.Extends c' ∧
      ∀ ρ t n m, meaning ρ = some (.int n) → c.Agrees ρ m →
        c.Sorts c' tag t m (fun b => b = target ∧ n = t) (n ≠ t) := by
  have htest : Ensures (value >>= fun o => Lower.comparison .equal tag o) c fun v c₁ =>
      c.Extends c₁ ∧ ∀ ρ t n m, meaning ρ = some (.int n) → c.Agrees ρ m →
        c.Through c₁ (fun s => s.mem = m ∧ c.Gives s tag (.int t)) fun s =>
          (s.mem = m ∧ c₁.Carries s v (.i1 (t == n))) ∧ c₁.Gives s tag (.int t) := by
    intro g
    refine ⟨(hvalue.adds.bind fun o => .comparison tag o .equal) c ho g, fun ρ t n m hn hρ => ?_⟩
    have hruns : Runs (value >>= fun o => Lower.comparison .equal tag o) c
        (fun s => s.mem = m ∧ c.Gives s tag (.int t)) fun v c₁ s =>
          (s.mem = m ∧ c₁.Carries s v (.i1 (t == n))) ∧ c₁.Gives s tag (.int t) := by
      refine ((hvalue.runs ho hn hρ).keeping tag (.int t)).bind fun o c₁ hext => ?_
      exact ((Runs.comparison hext.isOpen).keeping tag (.int t)).mono
        (fun s hs => ⟨⟨hs.1.1, hs.2, hs.1.2⟩, hs.2⟩) fun _ _ _ _ hs => hs
    exact (hruns g).2
  have hrest : Ensures (do
      let v ← value >>= fun o => Lower.comparison .equal tag o
      let next ← Lower.freshBlock
      Lower.branch v target next
      Lower.startBlock next "switch.test") c fun _ c' => c.Extends c' ∧
        ∀ ρ t n m, meaning ρ = some (.int n) → c.Agrees ρ m →
          c.Sorts c' tag t m (fun b => b = target ∧ n = t) (n ≠ t) := by
    refine .bind (htest.mono fun v c₁ ⟨hext₁, hrun₁⟩ => .bind_freshBlock fun _ => ?_)
    let next := c₁.nextBlock
    let c₂ : Cursor := { c₁ with nextBlock := c₁.nextBlock + 1 }
    let c₃ := c₂.terminate (.branch v target next)
    let c₄ := c₃.start next "switch.test"
    have hk₃ : c₁.Keeps c₃ := .trans (.freshBlock c₁) (.terminate c₂ (.branch v target next))
    have hk₄ : c₃.Keeps c₄ := .start c₃ next "switch.test"
    refine ⟨⟨(hext₁.toKeeps.trans hk₃).trans hk₄, rfl⟩, fun ρ t n m hn hρ W hW hg k hat hm htag => ?_⟩
    have hg₃ : c₃.Grows W.cursor := hk₄.toGrows.trans hg
    obtain ⟨k₁, hpass₁, ⟨hm₁, hv⟩, htag₁⟩ :=
      hrun₁ ρ t n m hn hρ W hW (hk₃.toGrows.trans hg₃) k hat ⟨hm, htag⟩
    have hat₂ : W.At c₂ k₁ := hpass₁.point.congr rfl
    obtain ⟨k₂, hsteps₂, hentered, hstate, _⟩ := hat₂.branch hW hext₁.isOpen hg₃ hv.word
    refine ⟨k₂, hpass₁.steps.trans hsteps₂, by rw [hstate, hm₁], ?_⟩
    by_cases hsame : t = n
    · rw [beq_iff_eq.2 hsame] at hentered
      exact .inl ⟨target, ⟨rfl, hsame.symm⟩, hentered⟩
    · rw [beq_eq_false_iff_ne.2 hsame] at hentered
      refine .inr ⟨fun h => hsame h.symm, hentered.at hW rfl hg, ?_⟩
      exact htag₁.keep (hk₃.trans hk₄).toGrows fun _ _ => by rw [hstate]
  exact hrest

/-- The values of one case. -/
theorem sorts_caseTests (tag : Operand) (target : Nat) (es : List Expr)
    (hes : es.all Core.isPure = true) (ho : c.IsOpen) :
    Ensures (Lower.caseTests detour env (some tag) target es) c fun _ c' => c.Extends c' ∧
      ∀ ρ t m found, Core.isCase ρ t es = some found → c.Agrees ρ m →
        c.Sorts c' tag t m (fun b => b = target ∧ found = true) (found = false) := by
  induction es generalizing c with
  | nil =>
    rw [caseTests]
    refine .pure ⟨.refl ho, fun ρ t m found hfound _ => .refl ?_⟩
    cases hfound
    rfl
  | cons e es ih =>
    obtain ⟨he, hes⟩ := Bool.and_eq_true_iff.1 hes
    rw [caseTests]
    refine .bind ((sorts_caseTest (computes_expr detour env e he) tag target ho).mono ?_)
    rintro _ c₁ ⟨hext₁, hfirst⟩
    refine (ih hes hext₁.isOpen).mono ?_
    rintro _ c₂ ⟨hext₂, hrest⟩
    refine ⟨hext₁.trans hext₂, ?_⟩
    intro ρ t m found hfound hρ
    obtain ⟨n, hn, hfound⟩ := Option.bind_eq_some_iff.1 hfound
    obtain ⟨v, hv, hint⟩ := Option.bind_eq_some_iff.1 hn
    cases v with
    | bool => cases hint
    | int n' =>
      cases hint
      refine (hfirst ρ t n m hv hρ).trans (fun hne => ?_) (fun b hb => ?_) hext₂.toGrows
      · rw [if_neg hne] at hfound
        exact hrest ρ t m found hfound (hρ.keeps hext₁.toKeeps)
      · rw [if_pos hb.2] at hfound
        cases hfound
        exact ⟨hb.1, rfl⟩

/-- Control goes to the block of the case that is to run, or else to the end of the tests. -/
theorem sorts_tests (tag : Operand) (cs : List Case) (hcs : ∀ k ∈ cs, k.values.all Core.isPure = true)
    (targets : List Nat) (hlength : targets.length = cs.length) (ho : c.IsOpen) :
    Ensures (Lower.tests detour env (some tag) targets cs) c fun _ c' => c.Extends c' ∧
      ∀ fuel ρ t m other result, Core.execCases fuel t cs other ρ = some result → c.Agrees ρ m →
        c.Sorts c' tag t m
          (fun b => ∃ k, (b, k) ∈ targets.zip cs ∧ Core.execBlock fuel k.body ρ = some result)
          (other ρ = some result) := by
  induction cs generalizing targets c with
  | nil =>
    obtain rfl := List.length_eq_zero_iff.1 hlength
    rw [tests]
    · refine .pure ⟨.refl ho, fun fuel ρ t m other result hresult _ => .refl ?_⟩
      rwa [Core.execCases] at hresult
    · intro _ _ _ _ _ _ h
      cases h
  | cons k cs ih =>
    obtain ⟨target, targets, rfl⟩ := List.exists_cons_of_length_eq_add_one hlength
    obtain ⟨values, body, span⟩ := k
    have hvalues := hcs _ List.mem_cons_self
    have hcs : ∀ k ∈ cs, k.values.all Core.isPure = true := fun k hk =>
      hcs k (List.mem_cons_of_mem _ hk)
    rw [tests]
    refine .bind ((sorts_caseTests tag target values hvalues ho).mono ?_)
    rintro _ c₁ ⟨hext₁, hfirst⟩
    refine (ih hcs targets (Nat.succ.inj hlength) hext₁.isOpen).mono ?_
    rintro _ c₂ ⟨hext₂, hrest⟩
    refine ⟨hext₁.trans hext₂, ?_⟩
    intro fuel ρ t m other result hresult hρ
    rw [Core.execCases] at hresult
    obtain ⟨found, hfound, hresult⟩ := Option.bind_eq_some_iff.1 hresult
    refine .trans (hfirst ρ t m found hfound hρ) (fun hmissed => ?_) (fun b hb => ?_) hext₂.toGrows
    · rw [hmissed] at hresult
      refine (hrest fuel ρ t m other result hresult (hρ.keeps hext₁.toKeeps)).mono fun b hb => ?_
      obtain ⟨k, hk, hbody⟩ := hb
      exact ⟨k, List.mem_cons_of_mem _ hk, hbody⟩
    · rw [hb.2] at hresult
      exact ⟨⟨values, body, span⟩, by rw [hb.1]; exact List.mem_cons_self, hresult⟩

/-! ## Bodies -/

theorem Ensures.freshBlocks (count : Nat) (c : Cursor) :
    Ensures (Lower.freshBlocks count) c fun ids c' =>
      ids.length = count ∧ ∃ n, c' = { c with nextBlock := n } := by
  induction count generalizing c with
  | zero => exact .pure ⟨rfl, c.nextBlock, rfl⟩
  | succ count ih =>
    refine .bind_freshBlock (.bind ((ih _).mono fun ids c₁ ⟨hlength, n, hc₁⟩ => .pure ⟨?_, n, ?_⟩))
    · rw [List.length_cons, hlength]
    · rw [hc₁]

/-- Each body has a block of its own and goes on to the end of the switch. -/
theorem handles_caseBodies (exit : Nat) (targets : List Nat) (cs : List Case) (act : Case → Action)
    (hcs : ∀ k ∈ cs, Does env κ? (act k) (Lower.block detour env k.body)) (c : Cursor) :
    Ensures (Lower.caseBodies detour env exit targets cs) c fun _ c' => c.Keeps c' ∧
      ∀ b k, (b, k) ∈ targets.zip cs → c.Handles c' env κ? (act k) b exit := by
  induction cs generalizing targets c with
  | nil =>
    rw [caseBodies]
    · exact .pure ⟨.refl c, by simp⟩
    · intro _ _ _ _ _ _ _ h
      cases h
  | cons k cs ih =>
    cases targets with
    | nil =>
      rw [caseBodies]
      · exact .pure ⟨.refl c, by simp⟩
      · intro _ _ _ _ _ _ h
        cases h
    | cons target targets =>
      obtain ⟨values, body, span⟩ := k
      have hbody := hcs _ List.mem_cons_self
      rw [caseBodies]
      refine .bind ((hbody.arm c).mono ?_)
      rintro _ c₁ ⟨hk₁, hfirst⟩
      refine (ih targets (fun k hk => hcs k (List.mem_cons_of_mem _ hk)) c₁).mono ?_
      rintro _ c₂ ⟨hk₂, hrest⟩
      refine ⟨hk₁.trans hk₂, fun b k hk => ?_⟩
      rcases List.mem_cons.1 hk with heq | hk
      · cases heq
        exact hfirst.mono hk₂.toGrows
      · exact (hrest b k hk).rebase hk₁

theorem does_switch {tag : Expr} {cs : List Case} {default? : Option Block} {fuel : Nat}
    (htag : Core.isPure tag = true) (hvalues : ∀ k ∈ cs, k.values.all Core.isPure = true)
    (hbodies : ∀ exit, ∀ k ∈ cs, Does (env.inSwitch exit) κ? (Core.execBlock fuel k.body)
      (Lower.block detour (env.inSwitch exit) k.body))
    (hdefault : ∀ exit b, default? = some b → Does (env.inSwitch exit) κ? (Core.execBlock fuel b)
      (Lower.block detour (env.inSwitch exit) b)) :
    Does env κ? (fun ρ => do
        let t ← (Core.eval ρ tag).bind Val.int?
        Action.inSwitch (Core.execCases fuel t cs (Core.execDefault fuel default?)) ρ)
      (Lower.switch env (exprIf detour env (some tag)) cs.length
        (fun tag? blocks => tests detour env tag? blocks cs)
        (fun inner exit blocks => caseBodies detour inner exit blocks cs)
        (blockIf detour default?)) := by
  intro c ho
  have htag' : Ensures (exprIf detour env (some tag)) c fun o? c₁ => ∃ o, o? = some o ∧
      c.Extends c₁ ∧ ∀ ρ v m, Core.eval ρ tag = some v → c.Agrees ρ m →
        c.Through c₁ (·.mem = m) fun s => s.mem = m ∧ c₁.Gives s o v := by
    rw [exprIf, map_eq_pure_bind]
    exact .bind ((computes_expr detour env tag htag c ho).mono fun o c₁ h => .pure ⟨o, rfl, h⟩)
  refine .bind (htag'.mono ?_)
  rintro _ c₁ ⟨o, rfl, hext₁, hrun₁⟩
  refine .bind_freshBlock (.bind ((Ensures.freshBlocks cs.length _).mono ?_))
  rintro blocks _ ⟨hlength, n, rfl⟩
  refine .bind_freshBlockIf fun other n hother => ?_
  let exit := c₁.nextBlock
  let c₂ : Cursor := { c₁ with nextBlock := n }
  refine .bind ((sorts_tests (c := c₂) o cs hvalues blocks hlength hext₁.isOpen).mono
    fun _ c₃ ⟨hext₃, hsorts⟩ => .bind_terminate ?_)
  let c₄ := c₃.terminate (.jump other)
  refine .bind ((handles_caseBodies exit blocks cs _ (hbodies exit) c₄).mono
    fun _ c₅ ⟨hk₅, hcases⟩ => ?_)
  have hotherwise : Ensures (Lower.arm? other "switch.default" exit
      ((blockIf detour default?).map fun body => body (env.inSwitch exit))) c₅ fun _ c' =>
        c₅.Keeps c' ∧
          c₅.Handles c' (env.inSwitch exit) κ? (Core.execDefault fuel default?) other exit := by
    cases default? with
    | some b => exact (hdefault exit b rfl).arm c₅
    | none =>
      obtain rfl := hother rfl
      exact .pure ⟨.refl c₅, .skip⟩
  refine .bind (hotherwise.mono fun _ c₆ ⟨hk₆, hlast⟩ _ => ?_)
  let c₇ := c₆.start exit "switch.exit"
  have hk₂ : c.Keeps c₂ := hext₁.toKeeps.trans (.freshBlock c₁)
  have hk₄ : c.Keeps c₄ := (hk₂.trans hext₃.toKeeps).trans (.terminate c₃ (.jump other))
  have hk₇ : c₆.Keeps c₇ := .start c₆ exit "switch.exit"
  refine ⟨((hk₄.trans hk₅).trans hk₆).trans hk₇, fun W hW hg ρ out ρ' k hact hat hρ => ?_⟩
  have hg₄ : c₄.Grows W.cursor := ((hk₅.trans hk₆).trans hk₇).toGrows.trans hg
  have hg₃ : c₃.Grows W.cursor := .trans (.terminate c₃ (.jump other)) hg₄
  have hg₁ : c₁.Grows W.cursor := .trans (.freshBlock c₁) (hext₃.toGrows.trans hg₃)
  obtain ⟨t, ht, hact⟩ := Option.bind_eq_some_iff.1 hact
  obtain ⟨v, hv, hint⟩ := Option.bind_eq_some_iff.1 ht
  obtain rfl : v = .int t := by
    cases v <;> cases hint
    rfl
  obtain ⟨⟨out₁, ρ₁⟩, hinner, _⟩ := Option.bind_eq_some_iff.1 hact
  obtain ⟨k₁, hpass₁, hm₁, htag₁⟩ := hrun₁ ρ (.int t) _ hv hρ W hW hg₁ k hat rfl
  have hat₂ : W.At c₂ k₁ := hpass₁.point.congr rfl
  have htag₂ : c₂.Gives k₁.state o (.int t) := htag₁.keep (.freshBlock c₁) fun _ _ => rfl
  obtain ⟨k₂, hsteps₂, hm₂, hsorted⟩ :=
    hsorts fuel ρ t _ _ _ hinner (hρ.keeps hk₂) W hW hg₃ k₁ hat₂ hm₁ htag₂
  have hρ₂ : c.Agrees ρ k₂.state.mem := by
    rw [hm₂]
    exact hρ
  have hdone : ∃ k₃, W.code.Steps k₂ k₃ ∧
      W.Lands (env.inSwitch exit) κ? (W.Entered exit) c.Agrees out₁ ρ₁ k₃ := by
    obtain ⟨b, ⟨case_, hmem, hbody⟩, hentered⟩ | ⟨hmissed, hat₃, -⟩ := hsorted
    · have hcase := ((hcases b case_ hmem).rebase hk₄).mono (hk₆.trans hk₇).toGrows
      exact hcase W hW hg ρ out₁ ρ₁ k₂ hbody hentered hρ₂
    · obtain ⟨k₃, hsteps₃, hentered, hstate, _⟩ := hat₃.jump hW hext₃.isOpen hg₄
      have hdefault := (hlast.rebase (hk₄.trans hk₅)).mono hk₇.toGrows
      rw [← hstate] at hρ₂
      obtain ⟨k₄, hsteps₄, hlands⟩ := hdefault W hW hg ρ out₁ ρ₁ k₃ hmissed hentered hρ₂
      exact ⟨k₄, hsteps₃.trans hsteps₄, hlands⟩
  obtain ⟨k₃, hsteps₃, hlands⟩ := hdone
  refine ⟨k₃, (hpass₁.steps.trans hsteps₂).trans hsteps₃, ?_⟩
  exact (hlands.inSwitch hinner hact).mono (fun _ h => ⟨rfl, h.at hW rfl hg⟩) fun _ h => h

end Lower

end ClassLang
