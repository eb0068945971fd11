import ClassLang.Proofs.Refinement.Switch

/-!
# Statements

The code of a statement of the core does what the statement says, by induction on the statement. A
simple statement changes the innermost scope and is treated where it stands in a list of statements;
all others leave the scopes as they are. Without try statements around, nothing runs in between when
a loop or a function is left.
-/

namespace ClassLang

open ClassLang.Core (Action Outcome)

namespace Lower

variable {c : Cursor} {ρ : Store} {m : Memory} {env : Env} {κ? : Option Kind} {detour : Detour}

/-! ## Leaving -/

theorem leaveTries_eq_pure (henv : env.tries = []) (depth : Nat) :
    leaveTries detour env depth = pure () := by
  rw [leaveTries, henv, List.length_nil, Nat.zero_sub, runFinally]

/-- Leaving for a block. -/
theorem performs_jump {target : Nat} {out : Outcome} (ho : c.IsOpen)
    (h : ∀ (W : Draft) ρ k, W.Entered target k → c.Agrees ρ k.state.mem →
      W.Lands env κ? (W.Stands (c.terminate (.jump target))) c.Agrees out ρ k) :
    c.Performs (c.terminate (.jump target)) env κ? (fun ρ => some (out, ρ)) c.Agrees c.Agrees := by
  intro W hW hg ρ out' ρ' k hact hat hρ
  cases hact
  obtain ⟨k', hsteps, hentered, hstate, _⟩ := hat.jump hW ho hg
  rw [← hstate] at hρ
  exact ⟨k', hsteps, h W ρ k' hentered hρ⟩

theorem does_leaveLoop (henv : env.tries = []) (span : Span) :
    Does env κ? (fun ρ => some (.break_, ρ)) (leaveLoop detour env span) := by
  intro c ho
  rw [leaveLoop]
  cases hloops : env.loops with
  | nil =>
    refine fun _ => ⟨.refl c, fun W hW hg ρ out ρ' k hact hat hρ => ?_⟩
    cases hact
    refine ⟨k, .refl, fun l hl => ?_⟩
    rw [hloops] at hl
    cases hl
  | cons l ls =>
    dsimp only
    rw [leaveTries_eq_pure henv, pure_bind]
    refine fun _ => ⟨.terminate c (.jump l.breakTo), performs_jump ho fun W ρ k hentered hρ l' hl' => ?_⟩
    rw [hloops] at hl'
    cases hl'
    exact ⟨hentered, hρ⟩

theorem does_continueLoop (henv : env.tries = []) (span : Span) :
    Does env κ? (fun ρ => some (.continue_, ρ)) (continueLoop detour env span) := by
  intro c ho
  rw [continueLoop]
  cases htarget : env.continueTarget? with
  | none =>
    refine fun _ => ⟨.refl c, fun W hW hg ρ out ρ' k hact hat hρ => ?_⟩
    cases hact
    refine ⟨k, .refl, fun b d hb => ?_⟩
    rw [htarget] at hb
    cases hb
  | some target =>
    dsimp only
    rw [leaveTries_eq_pure henv, pure_bind]
    refine fun _ => ⟨.terminate c (.jump target.1), performs_jump ho fun W ρ k hentered hρ b d hb => ?_⟩
    rw [htarget] at hb
    cases hb
    exact ⟨hentered, hρ⟩

theorem resultIr_of_answer? {out : Outcome} {u? : Option Val}
    (h : Core.answer? κ? out = some u?) : resultIr κ? = (u?.map fun u => u.kind.ir).getD .void := by
  unfold Core.answer? at h
  split at h
  · cases h
    rfl
  · cases h
    rfl
  next κ => cases κ <;> cases h <;> rfl
  next κ => cases κ <;> cases h <;> rfl
  next κ v =>
    obtain ⟨hkind, h⟩ := Option.ite_none_right_eq_some.1 h
    cases h
    rw [← hkind]
    rfl
  · cases h

theorem answer?_ret_some {v : Val} {u? : Option Val}
    (h : Core.answer? κ? (.ret (some v)) = some u?) : κ? = some v.kind ∧ u? = some v := by
  cases κ? with
  | none => cases h
  | some κ =>
    obtain ⟨hkind, h⟩ := Option.ite_none_right_eq_some.1 h
    cases h
    exact ⟨by rw [hkind], rfl⟩

/-- What is to be returned stands for what the function gives. -/
inductive Answered (c : Cursor) (s : Ir.State) : Option Ir.Value → Option Val → Prop
  | void : Answered c s none none
  | value {v : Ir.Value} {w : Val} : c.Carries s v w.word → Answered c s (some v) (some w)

/-- A function ends with what has been computed for it. -/
theorem does_ret {meaning : Store → Option (Option Val)} {x : Lower (Option Ir.Value)}
    (hx : Adds x) (h : ∀ c ρ v? u? m, c.IsOpen → meaning ρ = some v? →
      Core.answer? κ? (.ret v?) = some u? → c.Agrees ρ m →
        Runs x c (·.mem = m) fun r c' s => Answered c' s r u?) :
    Does env κ? (fun ρ => (meaning ρ).map fun v? => (.ret v?, ρ)) (do
      let r ← x
      terminate (.ret r)) := by
  intro c ho
  have hruns : Ensures x c fun r c₁ => c.Extends c₁ ∧ ∀ ρ v? u? m, meaning ρ = some v? →
      Core.answer? κ? (.ret v?) = some u? → c.Agrees ρ m →
        c.Through c₁ (·.mem = m) fun s => Answered c₁ s r u? :=
    fun g => ⟨hx c ho g, fun ρ v? u? m hv hu hρ => (h c ρ v? u? m ho hv hu hρ g).2⟩
  refine .bind (hruns.mono fun r c₁ ⟨hext₁, hrun₁⟩ _ => ?_)
  have hk₂ : c₁.Keeps (c₁.terminate (.ret r)) := .terminate c₁ (.ret r)
  refine ⟨hext₁.toKeeps.trans hk₂, fun W hW hg ρ out ρ' k hact hat hρ => ?_⟩
  obtain ⟨v?, hv, heq⟩ := Option.map_eq_some_iff.1 hact
  cases heq
  cases hanswer : Core.answer? κ? (.ret v?) with
  | none =>
    refine ⟨k, .refl, fun u? hu => ?_⟩
    rw [hanswer] at hu
    cases hu
  | some u? =>
    obtain ⟨k₁, hpass₁, hanswered⟩ := hrun₁ ρ v? u? _ hv hanswer hρ W hW (hk₂.toGrows.trans hg) k hat rfl
    obtain ⟨hcode, hexit⟩ := hpass₁.point.terminate hW hext₁.isOpen (t := .ret r)
      (fun h => nomatch h) hg
    refine ⟨k₁, hpass₁.steps, fun u?' hu' hret => ?_⟩
    rw [hanswer] at hu'
    cases hu'
    rw [Ir.Function.step, hcode, hexit]
    rw [resultIr_of_answer? hanswer] at hret
    cases hanswered with
    | void => exact if_pos hret
    | value hvalue => simp [hvalue.word, hret]

theorem Adds.returnValue (env : Env) (value? : Option Operand) :
    Adds (Lower.returnValue env value?) := by
  unfold Lower.returnValue
  split
  · exact pure _
  · split
    · exact pure _
    · split
      · exact (convert _ _).bind fun _ => pure _
      · exact pure _

/-- A value of the kind of the result is returned as it is. -/
theorem Runs.returnValue {o : Operand} {v : Val} (ho : c.IsOpen) (hmain : env.isMain = false)
    (hret : env.ret = v.kind.ir) :
    Runs (Lower.returnValue env (some o)) c (fun s => s.mem = m ∧ c.Gives s o v)
      fun r c' s => Answered c' s r (some v) := by
  refine .assuming (.returnValue env (some o)) ho fun _ ⟨_, hv⟩ => ?_
  have hvoid : env.ret.isVoid = false := by
    rw [hret]
    cases v <;> rfl
  have hty : o.value.ty = env.ret := hv.ir.trans hret.symm
  have heq : (Lower.returnValue env (some o) : Lower _) = Pure.pure (some o.value) := by
    simp [Lower.returnValue, hmain, hvoid, convert_eq_pure hty]
  rw [heq]
  exact .pure ho fun s hs => .value hs.2.value

/-- Without a value a zero is returned, or nothing. -/
theorem Runs.returnNothing {u? : Option Val} (henv : env.Plain κ?) (ho : c.IsOpen)
    (hu : Core.answer? κ? (.ret none) = some u?) :
    Runs (Lower.returnValue env none) c (·.mem = m) fun r c' s => Answered c' s r u? := by
  cases κ? with
  | none =>
    cases hu
    have heq : (Lower.returnValue env none : Lower _) = Pure.pure none := by
      simp [Lower.returnValue, henv.isMain, henv.ret, resultIr, Ir.Ty.isVoid]
    rw [heq]
    exact .pure ho fun _ _ => .void
  | some κ =>
    cases hu
    have heq : (Lower.returnValue env none : Lower _) = Pure.pure (some (.zero κ.ir)) := by
      cases κ <;> simp [Lower.returnValue, henv.isMain, henv.ret, resultIr, Ir.Ty.isVoid, Kind.ir]
    rw [heq]
    exact .pure ho fun s _ => .value (Carries.zero κ s)

/-- `return`, with a value or without one. -/
theorem does_leaveFunction (henv : env.Plain κ?) {value? : Option Expr}
    (hpure : value?.all Core.isPure = true) (fuel : Nat) (span : Span) :
    Does env κ? (Core.exec fuel (.ret value? span))
      (do leaveFunction detour env (← exprIf detour env value?)) := by
  have hleave : ∀ o?, leaveFunction detour env o? =
      (returnValue env o? >>= fun r => terminate (.ret r)) := by
    intro o?
    simp only [leaveFunction, leaveTries_eq_pure henv.tries, pure_bind]
  simp only [hleave]
  rw [Core.exec]
  cases value? with
  | none =>
    rw [exprIf, pure_bind]
    have hret := @does_ret env κ? (fun _ => some none) _ (.returnValue env none)
      fun c ρ v? u? m ho hv hu hρ => by
        cases hv
        exact .returnNothing henv ho hu
    exact hret
  | some e =>
    have he := computes_expr detour env e hpure
    have hret := @does_ret env κ? (fun ρ => (Core.eval ρ e).map some) _
      (he.adds.bind fun o => .returnValue env (some o)) fun c ρ v? u? m ho hv hu hρ => by
        obtain ⟨v, heval, rfl⟩ := Option.map_eq_some_iff.1 hv
        refine (he.runs ho heval hρ).bind fun o c₁ hext => ?_
        obtain ⟨rfl, rfl⟩ := answer?_ret_some hu
        exact .returnValue hext.isOpen henv.isMain henv.ret
    have hact : (fun ρ => (Core.eval ρ e).bind fun v => some (.ret (some v), ρ)) =
        fun ρ : Store => ((Core.eval ρ e).map some).map fun v? => (Outcome.ret v?, ρ) := by
      funext ρ
      cases Core.eval ρ e <;> rfl
    rw [bind_assoc] at hret
    rw [exprIf, bind_map_left]
    exact hact ▸ hret

/-! ## Parts that may be left out -/

/-- A condition that is left out is true. -/
theorem decides_testIf {e? : Option Expr} (h : e?.all Core.isPure = true) (test : Lower Operand)
    (htest : testIf detour env e? = some test) : Decides (Core.test · e?) (condition test) := by
  cases e? with
  | none =>
    rw [testIf] at htest
    cases htest
  | some e =>
    rw [testIf] at htest
    cases htest
    exact (computes_expr detour env e h).condition

theorem test_eq_of_testIf_eq_none {e? : Option Expr} (h : testIf detour env e? = none) :
    (Core.test · e?) = fun _ => some true := by
  cases e? with
  | none => rfl
  | some e =>
    rw [testIf] at h
    cases h

theorem updatesIf_stmtIf (henv : env.KnowsKinds) {s? : Option Stmt}
    (h : s?.all Core.isSimple = true) : UpdatesIf s? (stmtIf detour env s?) := by
  cases s? with
  | none =>
    rw [stmtIf]
    exact .none
  | some s =>
    rw [stmtIf]
    exact .some fun c ho => (updates_stmt henv h c ho).bind_visit env s

theorem execIf_eq_simpleIf {s? : Option Stmt} (h : s?.all Core.isSimple = true) (fuel : Nat) :
    Core.execIf fuel s? = simpleIf s? := by
  cases s? with
  | none => rfl
  | some s => rw [Core.execIf, Core.exec_of_isSimple h, simpleIf, Option.map_some, Option.getD_some]

theorem stmts_of_not_isOpen {c : Cursor} (hc : ¬ c.IsOpen) (ss : List Stmt) :
    Ensures (stmts detour env ss) c fun _ c' => c' = c := by
  cases ss with
  | nil =>
    rw [stmts]
    exact .pure rfl
  | cons s ss =>
    have hended : c.current.isTerminated = true := by simpa [Cursor.IsOpen] using hc
    rw [stmts]
    refine .bind_isTerminated ?_
    rw [hended]
    exact .pure rfl

theorem pure_of_isCoreCases : (cs : List Case) → Core.isCoreCases cs = true →
    ∀ k ∈ cs, k.values.all Core.isPure = true
  | [], _ => fun _ hk => nomatch hk
  | ⟨values, body, _⟩ :: cs, hcore => by
    simp only [Core.isCoreCases, Bool.and_eq_true] at hcore
    intro k hk
    rcases List.mem_cons.1 hk with rfl | hk
    · exact hcore.1.1
    · exact pure_of_isCoreCases cs hcore.2 k hk

/-! ## Whole statements -/

mutual

theorem does_stmt (detour : Detour) (fuel : Nat) {env : Env} (henv : env.Plain κ?) :
    (s : Stmt) → Core.isCore s = true → Core.isSimple s = false →
      Does env κ? (Core.exec fuel s) (stmt detour env s)
  | .ret value? span, hcore, _ => by
    rw [stmt]
    exact (does_leaveFunction henv hcore fuel span).mark env span
  | .block b, hcore, _ => by
    rw [stmt, Core.exec]
    exact (does_block detour fuel henv b hcore).mark env b.span
  | .ifElse condition consequence alternative? span, hcore, _ => by
    simp only [Core.isCore, Bool.and_eq_true] at hcore
    obtain ⟨⟨⟨hcondition, hconsequence⟩, hbranch⟩, halternative⟩ := hcore
    have htest := (computes_expr detour env condition hcondition).condition
    have hother := does_stmtIf detour fuel henv alternative? halternative hbranch
    rw [stmt, Core.exec]
    exact (Does.ifElse htest (does_block detour fuel henv consequence hconsequence) hother.1
      hother.2).mark env span
  | .whileLoop condition body span, hcore, _ => by
    simp only [Core.isCore, Bool.and_eq_true] at hcore
    obtain ⟨hcondition, hbody⟩ := hcore
    have htest := (computes_expr detour env condition hcondition).condition
    rw [stmt, Core.exec]
    exact (Does.whileLoop htest (fun exit next =>
      does_block detour fuel (henv.inLoop exit next) body hbody) fuel).mark env span
  | .forLoop init? condition? post? body span, hcore, _ => by
    simp only [Core.isCore, Bool.and_eq_true] at hcore
    obtain ⟨⟨⟨hinit, hcondition⟩, hpost⟩, hbody⟩ := hcore
    rw [stmt, Core.exec, execIf_eq_simpleIf hinit, execIf_eq_simpleIf hpost]
    exact (Does.forLoop (updatesIf_stmtIf henv.kinds hinit) (decides_testIf hcondition)
      test_eq_of_testIf_eq_none (updatesIf_stmtIf henv.kinds hpost) (fun exit next =>
        does_block detour fuel (henv.inLoop exit next) body hbody) fuel).mark env span
  | .switch (some tag) cases default? span, hcore, _ => by
    simp only [Core.isCore, Bool.and_eq_true] at hcore
    obtain ⟨⟨htag, hcases⟩, hdefault⟩ := hcore
    rw [stmt, Core.exec]
    refine (does_switch htag (pure_of_isCoreCases cases hcases) (fun exit => ?_) fun exit => ?_).mark env
      span
    · exact does_caseBodies detour fuel (henv.inSwitch exit) cases hcases
    · exact does_default detour fuel (henv.inSwitch exit) default? hdefault
  | .break_ span, _, _ => by
    rw [stmt, Core.exec]
    exact (does_leaveLoop henv.tries span).mark env span
  | .continue_ span, _, _ => by
    rw [stmt, Core.exec]
    exact (does_continueLoop henv.tries span).mark env span
  | .var .., hcore, hsimple | .const .., hcore, hsimple | .expr _, hcore, hsimple => by
    rw [Core.isCore, hsimple] at hcore
    cases hcore

/-- What stands behind `else`. -/
theorem does_stmtIf (detour : Detour) (fuel : Nat) {env : Env} (henv : env.Plain κ?) :
    (s? : Option Stmt) → Core.isCoreIf s? = true → s?.all Core.isBranch = true →
      (∀ x, stmtIf detour env s? = some x → Does env κ? (Core.execIf fuel s?) x) ∧
        (stmtIf detour env s? = none → Core.execIf fuel s? = .skip)
  | some s, hcore, hbranch => by
    have hsimple : Core.isSimple s = false := by
      cases s with
      | block | ifElse => rfl
      | _ => cases hbranch
    have hs := does_stmt detour fuel henv s hcore hsimple
    rw [stmtIf, Core.execIf]
    refine ⟨fun x hx => ?_, fun h => nomatch h⟩
    cases hx
    exact fun c ho => (hs c ho).bind_visit env s
  | none, _, _ => by
    rw [stmtIf, Core.execIf]
    exact ⟨fun x hx => (nomatch hx), fun _ => rfl⟩

theorem does_caseBodies (detour : Detour) (fuel : Nat) {env : Env} (henv : env.Plain κ?) :
    (cs : List Case) → Core.isCoreCases cs = true → ∀ k ∈ cs,
      Does env κ? (Core.execBlock fuel k.body) (block detour env k.body)
  | [], _ => fun _ hk => nomatch hk
  | ⟨values, body, _⟩ :: cs, hcore => by
    simp only [Core.isCoreCases, Bool.and_eq_true] at hcore
    have hbody := does_block detour fuel henv body hcore.1.2
    have hrest := does_caseBodies detour fuel henv cs hcore.2
    intro k hk
    rcases List.mem_cons.1 hk with rfl | hk
    · exact hbody
    · exact hrest k hk

theorem does_default (detour : Detour) (fuel : Nat) {env : Env} (henv : env.Plain κ?) :
    (b? : Option Block) → Core.isCoreDefault b? = true → ∀ b, b? = some b →
      Does env κ? (Core.execBlock fuel b) (block detour env b)
  | some b, hcore => fun b' hb' => by
    have hb := does_block detour fuel henv b hcore
    cases hb'
    exact hb
  | none, _ => fun _ h => nomatch h

theorem does_block (detour : Detour) (fuel : Nat) {env : Env} (henv : env.Plain κ?) :
    (b : Block) → Core.isCoreBlock b = true → Does env κ? (Core.execBlock fuel b) (block detour env b)
  | ⟨ss, _⟩, hcore => by
    rw [block, Core.execBlock]
    exact (doesInside_stmts detour fuel henv ss hcore).inScope

theorem doesInside_stmts (detour : Detour) (fuel : Nat) {env : Env} (henv : env.Plain κ?) :
    (ss : List Stmt) → Core.areCore ss = true →
      DoesInside env κ? (Core.execs fuel ss) (stmts detour env ss)
  | [], _ => by
    rw [stmts, Core.execs]
    exact .skip
  | s :: ss, hcore => by
    obtain ⟨hs, hss⟩ := Bool.and_eq_true_iff.1 hcore
    have hrest := doesInside_stmts detour fuel henv ss hss
    have hboth : DoesInside env κ? (.andThen (Core.exec fuel s) (Core.execs fuel ss)) (do
        stmt detour env s
        stmts detour env ss) := by
      cases hsimple : Core.isSimple s with
      | true =>
        rw [Core.exec_of_isSimple hsimple]
        exact (updates_stmt henv.kinds hsimple).andThen hrest
      | false =>
        exact (does_stmt detour fuel henv s hs hsimple).andThen hrest fun c hc =>
          stmts_of_not_isOpen hc ss
    intro c ho
    have hopen : c.current.isTerminated = false := ho
    rw [stmts, Core.execs]
    refine .bind_isTerminated ?_
    rw [hopen]
    exact (hboth c ho).bind_visit env s

end

end Lower

end ClassLang
