import ClassLang.Proofs.Frames.Trees

/-!
# The stacks of a frame

Whatever the frame is at first, code for an expression or a statement leaves its loops and its try
statements as they were, and as many scopes as there were. In the meantime they are changed: a loop is
on the stack while its body is generated, and while a final block is generated the try statement that it
belongs to and those inside of it are off the stack, also when the final block itself leaves a function.
Since the stack is as before when a final block is done, running one after the other finds each of the
try statements around the point at hand once.
-/

namespace ClassLang

/-- The stacks are as they were, and as many scopes are open. -/
structure Frame.Balanced (f f' : Frame) : Prop where
  loops : f'.loops = f.loops
  exceptions : f'.exceptions = f.exceptions
  scopes : f'.scopes.length = f.scopes.length

/-- The try statements of an environment are those on the stack, the other way round. -/
theorem Frame.env_exceptions {f : Frame} {env : Env} (hf : f.env = env) {stack tries : List Try}
    (h : stack.reverse = tries) : { f with exceptions := stack }.env = { env with tries } := by
  subst hf h
  rfl

namespace Framed

open Lower (Alike)

/-- The surroundings are exchanged for others, and as many scopes are open afterwards as before. -/
def Moves {α : Type} (env env' : Env) (y : Framed α) : Prop :=
  ∀ f g, f.env = env → ((y.run f).run g).1.2.env = env' ∧
    ((y.run f).run g).1.2.scopes.length = f.scopes.length

/-- The surroundings are the same afterwards. -/
def Keeps {α : Type} (y : Framed α) : Prop := ∀ env, Moves env env y

variable {α β : Type} {env env' env'' : Env} {p q : Point}

/-! ## Steps -/

theorem Moves.bind {y : Framed α} {k : α → Framed β} (h : Moves env env' y)
    (hk : ∀ a, Moves env' env'' (k a)) : Moves env env'' (y >>= k) := by
  intro f g hf
  obtain ⟨henv, hscopes⟩ := h f g hf
  obtain ⟨henv', hscopes'⟩ := hk ((y.run f).run g).1.1 _ ((y.run f).run g).2 henv
  exact ⟨henv', hscopes'.trans hscopes⟩

/-- A step before others, which changes what surrounds it in a known way. -/
theorem Moves.after {y : Framed α} {k : α → Framed β} (a : α) (change : Frame → Frame)
    (h : ∀ f g, f.env = env → (y.run f).run g = ((a, change f), g))
    (hchange : ∀ f, f.env = env → (change f).env = env' ∧ (change f).scopes = f.scopes)
    (hk : Moves env' env'' (k a)) : Moves env env'' (y >>= k) := by
  intro f g hf
  obtain ⟨henv, hscopes⟩ := hchange f hf
  obtain ⟨henv', hscopes'⟩ := hk (change f) g henv
  have hrun : ((y >>= k).run f).run g = ((k a).run (change f)).run g := by
    rw [StateT.run_bind, StateT.run_bind, h f g hf]
    rfl
  rw [hrun]
  exact ⟨henv', hscopes'.trans (congrArg _ hscopes)⟩

namespace Keeps

/-- A step that does nothing to the surroundings and the number of scopes. -/
theorem of_eq {y : Framed α} (h : ∀ f g, ((y.run f).run g).1.2.env = f.env ∧
    ((y.run f).run g).1.2.scopes.length = f.scopes.length) : Keeps y := by
  rintro env f g rfl
  exact h f g

theorem pure (a : α) : Keeps (Pure.pure a) := of_eq fun _ _ => ⟨rfl, rfl⟩

theorem lift (x : Gen α) : Keeps (liftM x) := of_eq fun _ _ => ⟨rfl, rfl⟩

theorem onFunction {change : Frame → Ir.Function → Frame} (problem : String)
    (h : ∀ f fn, (change f fn).env = f.env ∧ (change f fn).scopes.length = f.scopes.length) :
    Keeps (Framed.onFunction problem change) := by
  refine of_eq fun f g => ?_
  rw [run_onFunction]
  cases f.function? with
  | some fn => exact h f fn
  | none => exact ⟨rfl, rfl⟩

theorem onBlock {change : Frame → Ir.Block → Frame}
    (h : ∀ f b, (change f b).env = f.env ∧ (change f b).scopes.length = f.scopes.length) :
    Keeps (Framed.onBlock change) := by
  refine of_eq fun f g => ?_
  rw [run_onBlock]
  cases f.current? with
  | some b => exact h f b
  | none => exact ⟨rfl, rfl⟩

theorem startBlock (id : Nat) (label : String) : Keeps (Lower.startBlock id label) :=
  onFunction _ fun _ _ => ⟨rfl, rfl⟩

theorem emit (i : Ir.Instr) : Keeps (Lower.emit i) := onBlock fun _ _ => ⟨rfl, rfl⟩

theorem terminate (t : Ir.Terminator) : Keeps (Lower.terminate t) := by
  refine onBlock fun f b => ?_
  split <;> exact ⟨rfl, rfl⟩

theorem onScope (change : Table Location → Table Location) : Keeps (Framed.onScope change) := by
  refine of_eq fun f g => ?_
  rw [run_onScope]
  cases hscopes : f.scopes with
  | cons scope outer => exact ⟨rfl, rfl⟩
  | nil => exact ⟨rfl, congrArg List.length hscopes⟩

/-- Code that does not go down a tree does not look at the surroundings. -/
theorem alike {y : Framed α} {x : Lower α} (h : Alike Framed Lower y x) : Keeps y := by
  induction h with
  | pure a => exact pure a
  | bind _ _ ih ihk => exact fun env => (ih env).bind fun a => ihk a env
  | looking | report | declare | addString => exact lift _
  | freshRegister | freshBlock | isTerminated | currentBlock | lookup =>
    exact of_eq fun _ _ => ⟨rfl, rfl⟩
  | restart _ label =>
    have hfresh : Keeps (Lower.freshBlock (m := Framed)) := of_eq fun _ _ => ⟨rfl, rfl⟩
    exact fun env => (terminate _ env).bind fun _ => (hfresh env).bind fun b =>
      startBlock b label env
  | emit i => exact emit i
  | terminate t => exact terminate t
  | slot | personality => exact onFunction _ fun _ _ => ⟨rfl, rfl⟩
  | bindName name l => exact onScope (·.insert name l)

end Keeps

/-! ## Whole walks -/

/-- The surroundings are exchanged as the points say, whatever numbers are given to blocks. -/
theorem Tracks.moves {y : Framed α} {x : Lower α} (h : Tracks (fun _ => True) p q y x) :
    Moves p.env q.env y := by
  induction h with
  | pure a => exact Keeps.pure a _
  | bind _ _ ih ihk => exact ih.bind ihk
  | forget _ ih => exact ih
  | alike h => exact Keeps.alike h _
  | lift x => exact Keeps.lift x _
  | reads v h _ ih => exact .after v id h (fun _ hf => ⟨hf, rfl⟩) ih
  | site => exact Keeps.of_eq (fun _ _ => ⟨rfl, rfl⟩) _
  | terminate => exact Keeps.terminate _ _
  | freshBlock _ ih => exact (Keeps.alike .freshBlock _).bind fun b => ih b trivial
  | startBlock label => exact Keeps.startBlock _ label _
  | inScope _ ih =>
    intro f g hf
    obtain ⟨henv, hscopes⟩ := ih { f with scopes := {} :: f.scopes } g hf
    exact ⟨henv, List.length_tail.trans (congrArg (· - 1) hscopes)⟩
  | pushLoop _ ih | popLoop _ ih =>
    refine .after () _ (fun _ _ _ => rfl) (fun f hf => ⟨?_, rfl⟩) ih
    subst hf
    rfl
  | pushTry _ ih =>
    refine .after () _ (fun _ _ _ => rfl) (fun f hf => ⟨Frame.env_exceptions hf ?_, rfl⟩) ih
    subst hf
    exact List.reverse_concat
  | popTry _ ih =>
    refine .after () _ (fun _ _ _ => rfl) (fun f hf => ⟨Frame.env_exceptions hf ?_, rfl⟩) ih
    subst hf
    exact List.tail_reverse.symm
  | @splitOff _ env _ _ inner outer _ _ htries _ ih =>
    have hstack : ∀ f : Frame, f.env = env → f.exceptions = outer.reverse ++ inner.reverse := by
      rintro f rfl
      rw [← List.reverse_append, ← htries]
      exact (List.reverse_reverse _).symm
    refine .after inner.reverse (fun f => { f with exceptions := outer.reverse }) (fun f g hf => ?_)
      (fun f hf => ⟨Frame.env_exceptions hf (List.reverse_reverse _), rfl⟩) ih
    rw [← List.length_reverse]
    exact run_splitOff (hstack f hf) g
  | extend htries _ ih =>
    refine .after () _ (fun _ _ _ => rfl) (fun f hf => ⟨Frame.env_exceptions hf ?_, rfl⟩) ih
    rw [List.reverse_append, List.reverse_reverse, htries]
    exact congrArg _ (congrArg Env.tries hf)
  | nested _ _ => exact Keeps.of_eq (fun _ _ => ⟨rfl, rfl⟩) _

theorem Mirrors.keeps {y : Framed α} {x : Env → Lower α}
    (h : ∀ env, Mirrors (fun _ => True) env y (x env)) : Keeps y := fun env => (h env false).moves

theorem Keeps.balanced {y : Framed α} (h : Keeps y) (f : Frame) (g : GenState) :
    f.Balanced ((y.run f).run g).1.2 := by
  obtain ⟨henv, hscopes⟩ := h f.env f g rfl
  have htries := congrArg Env.tries henv
  exact ⟨congrArg Env.loops henv, List.reverse_inj.1 htries, hscopes⟩

theorem keeps_detour (fuel : Nat) (b : Block) : Keeps ((detourAt fuel).block b) :=
  Mirrors.keeps fun env => (Mirrors.detourAt fuel).block env b

theorem keeps_expr (fuel : Nat) (e : Expr) : Keeps (expr (detourAt fuel) e) :=
  Mirrors.keeps fun _ => Mirrors.expr (Mirrors.detourAt fuel) e

theorem keeps_stmt (fuel : Nat) (s : Stmt) : Keeps (stmt (detourAt fuel) s) :=
  Mirrors.keeps fun _ => Mirrors.stmt (Mirrors.detourAt fuel) s

/-! ## Leaving a function -/

/-- The state after the final block of the try statement number `level`, which is off the stack with
those inside of it while the block is generated. -/
def afterFinal (detour : Detour) (t : Try) (level : Nat) (b : Block) (s : Frame × GenState) :
    Frame × GenState :=
  let r := ((runFinal detour t level b).run s.1).run s.2
  (r.1.2, r.2)

/-- Try statements are left from the inside to the outside. Where one has a final block, this block
runs, and if it ends the block of code then no other one does. The list has the blocks that run. -/
inductive Unwinds (detour : Detour) :
    List Try → List Block → Frame × GenState → Frame × GenState → Prop
  | done (s : Frame × GenState) : Unwinds detour [] [] s s
  | without {t : Try} {outer : List Try} {bs : List Block} {s s' : Frame × GenState}
    (h : t.finally? = none) : Unwinds detour outer bs s s' →
      Unwinds detour (t :: outer) bs s s'
  | last {t : Try} {b : Block} (outer : List Try) (s : Frame × GenState) (h : t.finally? = some b)
    (hended : (afterFinal detour t outer.length b s).1.ended = true) :
      Unwinds detour (t :: outer) [b] s (afterFinal detour t outer.length b s)
  | next {t : Try} {outer : List Try} {b : Block} {bs : List Block} {s s' : Frame × GenState}
    (h : t.finally? = some b)
    (hopen : (afterFinal detour t outer.length b s).1.ended = false) :
      Unwinds detour outer bs (afterFinal detour t outer.length b s) s' →
      Unwinds detour (t :: outer) (b :: bs) s s'

/-- When a final block is done, the stack is as it was. -/
theorem exceptions_afterFinal {detour : Detour} (hd : ∀ b, Keeps (detour.block b)) (t : Try)
    (level : Nat) (b : Block) (s : Frame × GenState) :
    (afterFinal detour t level b s).1.exceptions = s.1.exceptions := by
  let f : Frame := { s.1 with exceptions := s.1.exceptions.take level }
  let g := ((Gen.recordCopy ⟨t, ⟨s.1.scopes, s.1.loops⟩, true⟩).run s.2).2
  have hblock : (((detour.block b).run f).run g).1.2.exceptions = s.1.exceptions.take level :=
    ((hd b).balanced f g).exceptions
  show (((detour.block b).run f).run g).1.2.exceptions ++ s.1.exceptions.drop level = _
  rw [hblock, List.take_append_drop]

/-- After its final block a try statement is left, and then the one around it, unless the block of code
is ended. -/
theorem run_runFinal_bind (detour : Detour) (depth level : Nat) (t : Try) (b : Block) (f : Frame)
    (g : GenState) :
    let s := afterFinal detour t level b (f, g)
    ((do
      runFinal detour t level b
      if !(← Lower.isTerminated) then runFinally detour depth level : Framed Unit).run f).run g =
      if s.1.ended then (((), s.1), s.2) else ((runFinally detour depth level).run s.1).run s.2 := by
  intro s
  have hrun : ∀ ended : Bool, s.1.ended = ended →
      ((do
        runFinal detour t level b
        if !(← Lower.isTerminated) then runFinally detour depth level : Framed Unit).run f).run g =
        ((if !ended then runFinally detour depth level else Pure.pure () : Framed Unit).run s.1).run
          s.2 := by
    rintro ended rfl
    rfl
  cases hended : s.1.ended with
  | true => exact hrun true hended
  | false => exact hrun false hended

/-- One try statement is left after another one. -/
theorem run_runFinally_succ (detour : Detour) {depth level : Nat} (h : depth ≤ level) (f : Frame)
    (g : GenState) {t : Try} (ht : f.exceptions[level]? = some t) :
    ((runFinally detour depth (level + 1)).run f).run g =
      match t.finally? with
      | none => ((runFinally detour depth level).run f).run g
      | some b =>
        let s := afterFinal detour t level b (f, g)
        if s.1.ended then (((), s.1), s.2)
        else ((runFinally detour depth level).run s.1).run s.2 := by
  rw [runFinally, if_pos h, run_exceptions_bind, ht]
  dsimp only
  cases t.finally? with
  | none => rfl
  | some b => exact run_runFinal_bind detour depth level t b f g

namespace Unwinds

variable {detour : Detour} {tries : List Try} {bs : List Block} {s s' : Frame × GenState}

/-- No final block runs twice, and none is passed over before the last one that runs. -/
theorem isPrefix (h : Unwinds detour tries bs s s') : bs <+: tries.filterMap Try.finally? := by
  induction h with
  | done => exact List.prefix_refl _
  | without h _ ih => rwa [List.filterMap_cons_none h]
  | last outer _ h _ =>
    rw [List.filterMap_cons_some h]
    exact List.cons_prefix_cons.2 ⟨rfl, List.nil_prefix⟩
  | next h _ _ ih =>
    rw [List.filterMap_cons_some h]
    exact List.cons_prefix_cons.2 ⟨rfl, ih⟩

/-- All final blocks run, unless one of them ends the block of code. -/
theorem all_or_ended (h : Unwinds detour tries bs s s') :
    bs = tries.filterMap Try.finally? ∨ s'.1.ended = true := by
  induction h with
  | done => exact .inl rfl
  | without h _ ih => rwa [List.filterMap_cons_none h]
  | last _ _ _ hended => exact .inr hended
  | next h _ _ ih =>
    rw [List.filterMap_cons_some h]
    exact ih.imp_left (congrArg _)

/-- This is how final blocks are run. The stack may have more try statements on top, which are not
left. -/
theorem runFinally (hd : ∀ b, Keeps (detour.block b)) (inner tries : List Try) (f : Frame)
    (g : GenState) (hstack : f.exceptions.reverse = inner ++ tries) :
    ∃ bs s', Unwinds detour tries bs (f, g) s' ∧
      ((Framed.runFinally detour 0 tries.length).run f).run g = (((), s'.1), s'.2) := by
  induction tries generalizing inner f g with
  | nil => exact ⟨[], (f, g), .done _, rfl⟩
  | cons t outer ih =>
    have hstack' : f.exceptions.reverse = inner ++ [t] ++ outer := hstack.trans (List.append_cons ..)
    have hget : f.exceptions[outer.length]? = some t := by
      rw [← List.reverse_reverse f.exceptions, hstack, List.reverse_append, List.reverse_cons,
        List.append_assoc, List.getElem?_append_right (Nat.le_of_eq List.length_reverse),
        List.length_reverse, Nat.sub_self]
      rfl
    have hrun := run_runFinally_succ detour (Nat.zero_le outer.length) f g hget
    rw [List.length_cons, hrun]
    cases hfinal : t.finally? with
    | none =>
      obtain ⟨bs, s', h, hrest⟩ := ih _ f g hstack'
      exact ⟨bs, s', .without hfinal h, hrest⟩
    | some b =>
      let s₁ := afterFinal detour t outer.length b (f, g)
      have hstack₁ : s₁.1.exceptions.reverse = inner ++ [t] ++ outer := by
        rw [exceptions_afterFinal hd, hstack']
      cases hended : s₁.1.ended with
      | true => exact ⟨[b], s₁, .last outer (f, g) hfinal hended, if_pos hended⟩
      | false =>
        obtain ⟨bs, s', h, hrest⟩ := ih _ s₁.1 s₁.2 hstack₁
        exact ⟨b :: bs, s', .next hfinal hended h, (if_neg (Bool.eq_false_iff.1 hended)).trans hrest⟩

/-- A return statement computes its value, runs the final blocks of all try statements on the stack, and
only then ends the function. -/
theorem ret (fuel : Nat) (value? : Option Expr) (span : Span) (f : Frame) (g : GenState) :
    ∃ result? s bs s',
      ((do
        Lower.mark (← Framed.env) span
        let value? ← exprIf (detourAt fuel) value?
        Lower.returnValue (← Framed.env) value? : Framed (Option Ir.Value)).run f).run g =
        ((result?, s.1), s.2) ∧
      Unwinds (detourAt fuel) f.exceptions.reverse bs s s' ∧
      ((stmt (detourAt fuel) (.ret value? span)).run f).run g =
        ((Lower.terminate (.ret result?) : Framed Unit).run s'.1).run s'.2 := by
  let value : Framed (Option Ir.Value) := do
    Lower.mark (← Framed.env) span
    let value? ← exprIf (detourAt fuel) value?
    Lower.returnValue (← Framed.env) value?
  have hkeeps : Keeps value := Mirrors.keeps fun env =>
    Mirrors.withinBind (.mark span) fun _ =>
      (Mirrors.exprIf (Mirrors.detourAt fuel) value?).bind fun v? =>
        .within (.alike (.returnValue env v?))
  let r := (value.run f).run g
  have hstack : r.1.2.exceptions = f.exceptions := (hkeeps.balanced f g).exceptions
  obtain ⟨bs, s', hunwinds, hrun⟩ :=
    runFinally (keeps_detour fuel) [] f.exceptions.reverse r.1.2 r.2 (congrArg _ hstack)
  refine ⟨r.1.1, (r.1.2, r.2), bs, s', rfl, hunwinds, ?_⟩
  have hleave : stmt (detourAt fuel) (.ret value? span) = (do
      let result? ← value
      leaveTries (detourAt fuel) 0
      Lower.terminate (.ret result?)) := by
    rw [stmt]
    simp only [value, leaveFunction, bind_assoc]
  rw [hleave]
  show ((do
    Framed.runFinally (detourAt fuel) 0 r.1.2.exceptions.length
    Lower.terminate (.ret r.1.1) : Framed Unit).run r.1.2).run r.2 = _
  rw [hstack, ← List.length_reverse, StateT.run_bind, StateT.run_bind, hrun]
  rfl

end Unwinds

end Framed

end ClassLang
