import ClassLang.Proofs.Code.Plain
import ClassLang.Proofs.Frames.Walk

/-!
# Frames that follow environments

`Tracks fresh p q y x` says that `y`, which keeps a frame, takes the same steps as `x`, which is given
an environment: where `x` is put together for another environment, `y` changes its frame on the way in
and on the way out. `p` and `q` are the points before and after, and `fresh` holds of the numbers that
blocks are given. There is one case for each step, so that the stacks of frames and the code that
comes out can be looked at one step at a time.
-/

namespace ClassLang.Framed

open Ir (Value)
open Lower (Alike Head)

/-- A point of a run: what encloses it, and whether the block at hand is known to be ended. -/
structure Point where
  env : Env
  ended : Bool

/-- The same steps with a frame and with an environment. A block is started with a number that was
handed out for it, and only when the one before is ended. -/
inductive Tracks (fresh : Nat → Prop) : {α : Type} → Point → Point → Framed α → Lower α → Prop
  | pure {α : Type} {p : Point} (a : α) : Tracks fresh p p (Pure.pure a) (Pure.pure a)
  | bind {α β : Type} {p q r : Point} {y : Framed α} {x : Lower α} {k : α → Framed β}
    {l : α → Lower β} :
    Tracks fresh p q y x → (∀ a, Tracks fresh q r (k a) (l a)) →
    Tracks fresh p r (y >>= k) (x >>= l)
  | forget {α : Type} {p : Point} {env : Env} {ended : Bool} {y : Framed α} {x : Lower α} :
    Tracks fresh p ⟨env, ended⟩ y x → Tracks fresh p ⟨env, false⟩ y x
  | alike {α : Type} {env : Env} {ended : Bool} {y : Framed α} {x : Lower α} :
    Alike Framed Lower y x → Tracks fresh ⟨env, ended⟩ ⟨env, false⟩ y x
  /-- A step outside of the function. -/
  | lift {α : Type} {p : Point} (x : Gen α) : Tracks fresh p p (liftM x) (liftM x)
  /-- A look at the surroundings. -/
  | reads {α β : Type} {env : Env} {ended : Bool} {q : Point} {y : Framed α} {k : α → Framed β}
    {x : Lower β} (v : α) : (∀ f g, f.env = env → (y.run f).run g = ((v, f), g)) →
    Tracks fresh ⟨env, ended⟩ q (k v) x → Tracks fresh ⟨env, ended⟩ q (y >>= k) x
  | site {env : Env} {ended : Bool} :
    Tracks fresh ⟨env, ended⟩ ⟨env, ended⟩ Framed.site (Lower.site env)
  | terminate {env : Env} {ended : Bool} {t : Ir.Terminator} : t ≠ .open_ →
    Tracks fresh ⟨env, ended⟩ ⟨env, true⟩ (Lower.terminate t) (Lower.terminate t)
  | freshBlock {α : Type} {p q : Point} {k : Nat → Framed α} {l : Nat → Lower α} :
    (∀ b, fresh b → Tracks fresh p q (k b) (l b)) →
    Tracks fresh p q (Lower.freshBlock >>= k) (Lower.freshBlock >>= l)
  | startBlock {env : Env} {id : Nat} (label : String) : fresh id →
    Tracks fresh ⟨env, true⟩ ⟨env, false⟩ (Lower.startBlock id label) (Lower.startBlock id label)
  | inScope {env : Env} {ended : Bool} {q : Point} {y : Framed Unit} {x : Lower Unit} :
    Tracks fresh ⟨env, ended⟩ q y x →
    Tracks fresh ⟨env, ended⟩ q (Lower.inScope y) (Lower.inScope x)
  | pushLoop {α : Type} {env : Env} {ended : Bool} {q : Point} {l : Loop} {k : Unit → Framed α}
    {x : Lower α} : Tracks fresh ⟨{ env with loops := l :: env.loops }, ended⟩ q (k ()) x →
    Tracks fresh ⟨env, ended⟩ q (Framed.pushLoop l >>= k) x
  | popLoop {α : Type} {env : Env} {ended : Bool} {q : Point} {k : Unit → Framed α}
    {x : Lower α} : Tracks fresh ⟨{ env with loops := env.loops.tail }, ended⟩ q (k ()) x →
    Tracks fresh ⟨env, ended⟩ q (Framed.popLoop >>= k) x
  | pushTry {α : Type} {env : Env} {ended : Bool} {q : Point} {t : Try} {k : Unit → Framed α}
    {x : Lower α} : Tracks fresh ⟨env.inTry t, ended⟩ q (k ()) x →
    Tracks fresh ⟨env, ended⟩ q (Framed.pushTry t >>= k) x
  | popTry {α : Type} {env : Env} {ended : Bool} {q : Point} {k : Unit → Framed α}
    {x : Lower α} : Tracks fresh ⟨{ env with tries := env.tries.tail }, ended⟩ q (k ()) x →
    Tracks fresh ⟨env, ended⟩ q (Framed.popTry >>= k) x
  /-- The inner try statements are taken off the stack. -/
  | splitOff {α : Type} {env : Env} {ended : Bool} {q : Point} {inner outer : List Try}
    {k : List Try → Framed α} {x : Lower α} : env.tries = inner ++ outer →
    Tracks fresh ⟨{ env with tries := outer }, ended⟩ q (k inner.reverse) x →
    Tracks fresh ⟨env, ended⟩ q (Framed.splitOff outer.length >>= k) x
  /-- The inner try statements are put back. -/
  | extend {α : Type} {env : Env} {ended : Bool} {q : Point} {inner outer : List Try}
    {k : Unit → Framed α} {x : Lower α} : env.tries = inner ++ outer →
    Tracks fresh ⟨env, ended⟩ q (k ()) x →
    Tracks fresh ⟨{ env with tries := outer }, ended⟩ q (Framed.extend inner.reverse >>= k) x
  | nested {env : Env} {ended : Bool} {h : Head} {y : Framed Unit} {x : Env → Lower Unit} :
    Tracks fresh ⟨h.env env, false⟩ ⟨h.env env, false⟩ y (x (h.env env)) →
    Tracks fresh ⟨env, ended⟩ ⟨env, ended⟩ (Framed.nested env.bindings (Framed.function h y))
      (Lower.function env h x)

/-- Code that gets from a point to one with the same surroundings. -/
def Mirrors (fresh : Nat → Prop) {α : Type} (env : Env) (y : Framed α) (x : Lower α) : Prop :=
  ∀ ended, Tracks fresh ⟨env, ended⟩ ⟨env, false⟩ y x

/-- The ways to code from elsewhere go along with each other. -/
structure Detour.Mirrors (fresh : Nat → Prop) (framed : Detour) (detour : Lower.Detour) : Prop where
  expr : ∀ env e, Framed.Mirrors fresh env (framed.expr e) (detour.expr env e)
  block : ∀ env b, Framed.Mirrors fresh env (framed.block b) (detour.block env b)

variable {α β γ : Type} {fresh : Nat → Prop} {env : Env} {ended : Bool} {p q : Point}

namespace Tracks

theorem jump (target : Nat) :
    Tracks fresh ⟨env, ended⟩ ⟨env, true⟩ (Lower.jump target) (Lower.jump target) :=
  terminate nofun

theorem branch (condition : Value) (ifTrue ifFalse : Nat) :
    Tracks fresh ⟨env, ended⟩ ⟨env, true⟩ (Lower.branch condition ifTrue ifFalse)
      (Lower.branch condition ifTrue ifFalse) :=
  terminate nofun

theorem exceptions {k : List Try → Framed β} {x : Lower β}
    (h : Tracks fresh ⟨env, ended⟩ q (k env.tries.reverse) x) :
    Tracks fresh ⟨env, ended⟩ q (Framed.exceptions >>= k) x := by
  refine reads _ (fun f g hf => ?_) h
  subst hf
  show ((f.exceptions, f), g) = ((f.exceptions.reverse.reverse, f), g)
  rw [List.reverse_reverse]

/-- The number of try statements goes with a loop when it is put on the stack. -/
theorem enterLoop {breakTo : Nat} {continueTo? : Option Nat} {k : Unit → Framed β} {x : Lower β}
    (h : Tracks fresh
      ⟨{ env with loops := ⟨breakTo, continueTo?, env.tries.length⟩ :: env.loops }, ended⟩ q (k ()) x) :
    Tracks fresh ⟨env, ended⟩ q (do
      let ts ← Framed.exceptions
      Framed.pushLoop ⟨breakTo, continueTo?, ts.length⟩ >>= k) x := by
  refine exceptions ?_
  rw [List.length_reverse]
  exact pushLoop h

theorem freshBlocks (count : Nat) {k : List Nat → Framed α} {l : List Nat → Lower α}
    (h : ∀ bs, (∀ b ∈ bs, fresh b) → Tracks fresh p q (k bs) (l bs)) :
    Tracks fresh p q (Lower.freshBlocks count >>= k) (Lower.freshBlocks count >>= l) := by
  induction count generalizing k l with
  | zero => exact h [] nofun
  | succ count ih =>
    simp only [Lower.freshBlocks, bind_assoc, pure_bind]
    exact freshBlock fun b hb => ih fun bs hbs => h (b :: bs) (List.forall_mem_cons.2 ⟨hb, hbs⟩)

theorem freshBlockIf (wanted : Bool) {other : Nat} (hother : fresh other) {k : Nat → Framed α}
    {l : Nat → Lower α} (h : ∀ b, fresh b → Tracks fresh p q (k b) (l b)) :
    Tracks fresh p q (Lower.freshBlockIf wanted other >>= k)
      (Lower.freshBlockIf wanted other >>= l) := by
  cases wanted with
  | true => exact freshBlock h
  | false => exact h other hother

theorem freshBlockWhere (wanted : Bool) {k : Option Nat → Framed α} {l : Option Nat → Lower α}
    (h : ∀ b?, (∀ b ∈ b?, fresh b) → Tracks fresh p q (k b?) (l b?)) :
    Tracks fresh p q (if wanted then some <$> Lower.freshBlock >>= k else Pure.pure none >>= k)
      (if wanted then some <$> Lower.freshBlock >>= l else Pure.pure none >>= l) := by
  cases wanted with
  | true =>
    simp only [bind_map_left]
    exact freshBlock fun b hb => h (some b) fun _ hb' => Option.some.inj hb' ▸ hb
  | false => exact h none nofun

theorem arm {y : Framed Unit} {x : Lower Unit} (h : Mirrors fresh env y x) {id : Nat}
    (hid : fresh id) (label : String) (exit : Nat) :
    Tracks fresh ⟨env, true⟩ ⟨env, true⟩ (Lower.arm id label exit y) (Lower.arm id label exit x) :=
  (startBlock label hid).bind fun _ => (h false).bind fun _ => jump exit

theorem arm? {y? : Option (Framed Unit)} {x? : Option (Lower Unit)}
    (h : Option.Rel (Mirrors fresh env) y? x?) {id : Nat} (hid : fresh id) (label : String)
    (exit : Nat) :
    Tracks fresh ⟨env, true⟩ ⟨env, true⟩ (Lower.arm? id label exit y?)
      (Lower.arm? id label exit x?) := by
  cases h with
  | some h => exact arm h hid label exit
  | none => exact pure ()

end Tracks

namespace Mirrors

variable {y y' : Framed α} {x x' : Lower α} {k : α → Framed β} {l : α → Lower β}

theorem pure (a : α) : Mirrors fresh env (Pure.pure a) (Pure.pure a) := fun _ => .forget (.pure a)

theorem bind (h : Mirrors fresh env y x) (hk : ∀ a, Mirrors fresh env (k a) (l a)) :
    Mirrors fresh env (y >>= k) (x >>= l) := fun ended => (h ended).bind fun a => hk a false

theorem map {f : α → β} (h : Mirrors fresh env y x) : Mirrors fresh env (f <$> y) (f <$> x) := by
  rw [map_eq_pure_bind, map_eq_pure_bind]
  exact h.bind fun a => pure (f a)

theorem alike (h : Alike Framed Lower y x) : Mirrors fresh env y x := fun _ => .alike h

theorem lift (x : Gen α) : Mirrors fresh env (liftM x) (liftM x) := fun _ => .forget (.lift x)

theorem ite {c : Prop} [Decidable c] (h : Mirrors fresh env y x) (h' : Mirrors fresh env y' x') :
    Mirrors fresh env (if c then y else y') (if c then x else x') := by
  split <;> assumption

/-- Code that comes after a look at the surroundings. -/
theorem within {k : Env → Framed α} (h : Mirrors fresh env (k env) x) :
    Mirrors fresh env (Framed.env >>= k) x :=
  fun ended => .reads env (fun f g hf => by subst hf; rfl) (h ended)

/-- Code that belongs to the surroundings, before other code. -/
theorem withinBind {k : Env → Framed α} {l : α → Framed β} {m : α → Lower β}
    (h : Mirrors fresh env (k env) x) (hl : ∀ a, Mirrors fresh env (l a) (m a)) :
    Mirrors fresh env (do l (← k (← Framed.env))) (x >>= m) :=
  within (h.bind hl)

/-- Code that there may be, in the surroundings that it is given. -/
theorem rel_at {y? : Option (Framed α)} {x? : Option (Env → Lower α)}
    (h : Option.Rel (fun y x => ∀ env, Mirrors fresh env y (x env)) y? x?) (env : Env) :
    Option.Rel (Mirrors fresh env) y? (x?.map fun x => x env) := by
  cases h with
  | some h => exact .some (h env)
  | none => exact .none

theorem visit (s : Stmt) : Mirrors fresh env (Framed.visit s) (Lower.visit env s) := within (lift _)

theorem perhaps {y? : Option (Framed Unit)} {x? : Option (Lower Unit)}
    (h : Option.Rel (Mirrors fresh env) y? x?) :
    Mirrors fresh env (Lower.perhaps y?) (Lower.perhaps x?) := by
  cases h with
  | some h => exact h
  | none => exact pure ()

theorem condition {y : Framed Operand} {x : Lower Operand} (h : Mirrors fresh env y x) :
    Mirrors fresh env (Lower.condition y) (Lower.condition x) := h.bind fun _ => alike (.truth _)

/-! ## Code that looks at types -/

theorem mark (span : Span) : Mirrors fresh env (Lower.mark env span) (Lower.mark env span) := by
  unfold Lower.mark
  split
  · exact alike (.emit _)
  · exact pure ()

theorem declaredType (type? : Option TypeExpr) :
    Mirrors fresh env (Lower.declaredType env type? : Framed (Option Ty))
      (Lower.declaredType env type? : Lower (Option Ty)) := lift _

theorem newClass (type : TypeExpr) :
    Mirrors fresh env (Lower.newClass env type) (Lower.newClass env type) := by
  refine (lift _).bind fun ty => ?_
  split
  · refine (lift _).bind fun _ => (pure _).bind fun _ => ?_
    exact .ite ((lift _).bind fun _ => pure _) (pure _)
  · exact (pure _).bind fun _ => .ite ((lift _).bind fun _ => pure _) (pure _)

theorem instanceValue (name : Ident) (typeArgs : List TypeExpr) :
    Mirrors fresh env (Lower.instanceValue env name typeArgs)
      (Lower.instanceValue env name typeArgs) := by
  refine (lift _).bind fun symbol? => ?_
  split
  · exact pure _
  · exact (lift _).bind fun _ => pure _

theorem callNamed (n : Ident) (callee : Lower.NamedCallee) (args : List Operand) :
    Mirrors fresh env (Lower.callNamed env n callee args) (Lower.callNamed env n callee args) := by
  unfold Lower.callNamed
  split
  · exact alike (.callPointer _ _ _)
  · exact alike (.callSymbol _ _ _)
  · refine (lift _).bind fun symbol? => ?_
    split
    · exact pure _
    · exact alike (.callSymbol _ _ _)
  · exact alike (.callMethod _ _ _ _ _ _)
  · exact alike (.callBuiltin _ _)

theorem bindCaught (param? : Option Ident) (type? : Option TypeExpr) :
    Mirrors fresh env (Lower.bindCaught env param? type?) (Lower.bindCaught env param? type?) := by
  unfold Lower.bindCaught
  split
  · exact pure _
  · exact (lift _).bind fun _ => (alike (.bindValue _ _ _ _)).bind fun _ => pure _

theorem clause (param? : Option Ident) (type? : Option TypeExpr) {y : Framed Unit} {x : Lower Unit}
    (h : Mirrors fresh env y x) :
    Mirrors fresh env (Lower.clause env param? type? y) (Lower.clause env param? type? x) :=
  fun ended => .inScope ((bindCaught param? type?).bind (fun _ => h) ended)

/-! ## Control flow -/

theorem logical (isAnd : Bool) {left right : Framed Operand} {left' right' : Lower Operand}
    (hl : Mirrors fresh env left left') (hr : Mirrors fresh env right right') :
    Mirrors fresh env (Lower.logical isAnd left right) (Lower.logical isAnd left' right') := by
  refine (condition hl).bind fun _ => (alike .currentBlock).bind fun _ => fun _ => ?_
  refine .freshBlock fun rest hrest => .freshBlock fun merge hmerge => ?_
  refine (Tracks.branch _ _ _).bind fun _ => (Tracks.startBlock _ hrest).bind fun _ => ?_
  refine (condition hr false).bind fun _ => (alike .currentBlock false).bind fun _ => ?_
  refine (Tracks.jump _).bind fun _ => (Tracks.startBlock _ hmerge).bind fun _ => ?_
  exact (alike (.phi _ _)).bind (fun _ => pure _) false

theorem ifElse {test : Framed Operand} {test' : Lower Operand} {consequence : Framed Unit}
    {consequence' : Lower Unit} {alternative? : Option (Framed Unit)}
    {alternative'? : Option (Lower Unit)} (ht : Mirrors fresh env test test')
    (hc : Mirrors fresh env consequence consequence')
    (ha : Option.Rel (Mirrors fresh env) alternative? alternative'?) :
    Mirrors fresh env (Lower.ifElse test consequence alternative?)
      (Lower.ifElse test' consequence' alternative'?) := by
  have hsome : alternative?.isSome = alternative'?.isSome := by cases ha <;> rfl
  unfold Lower.ifElse
  rw [hsome]
  refine (condition ht).bind fun _ _ => .freshBlock fun _ hthen => .freshBlock fun _ hmerge => ?_
  refine .freshBlockIf _ hmerge fun _ helse => (Tracks.branch _ _ _).bind fun _ => ?_
  refine (Tracks.arm hc hthen _ _).bind fun _ => (Tracks.arm? ha helse _ _).bind fun _ => ?_
  exact .startBlock _ hmerge

theorem loopTest {test? : Option (Framed Operand)} {test'? : Option (Lower Operand)}
    (h : Option.Rel (Mirrors fresh env) test? test'?) (body exit : Nat) :
    Tracks fresh ⟨env, ended⟩ ⟨env, true⟩ (Lower.loopTest body exit test?)
      (Lower.loopTest body exit test'?) := by
  cases h with
  | some h => exact (condition h _).bind fun _ => .branch _ _ _
  | none => exact .jump _

theorem whileLoop {test : Framed Operand} {test' : Lower Operand} {body : Framed Unit}
    {body' : Env → Lower Unit} (ht : Mirrors fresh env test test')
    (hb : ∀ exit header,
      Mirrors fresh (env.inLoop exit header) body (body' (env.inLoop exit header))) :
    Mirrors fresh env (Framed.whileLoop test body) (Lower.whileLoop env test' body') := by
  refine fun _ => .freshBlock fun _ hheader => .freshBlock fun _ hbody => ?_
  refine .freshBlock fun _ hexit => ?_
  refine (Tracks.jump _).bind fun _ => (Tracks.startBlock _ hheader).bind fun _ => ?_
  refine (condition ht false).bind fun _ => (Tracks.branch _ _ _).bind fun _ => .enterLoop ?_
  exact (Tracks.arm (hb _ _) hbody _ _).bind fun _ => .popLoop (.startBlock _ hexit)

theorem forLoop {init? post? : Option (Framed Unit)} {init'? post'? : Option (Lower Unit)}
    {test? : Option (Framed Operand)} {test'? : Option (Lower Operand)} {body : Framed Unit}
    {body' : Env → Lower Unit} (hi : Option.Rel (Mirrors fresh env) init? init'?)
    (ht : Option.Rel (Mirrors fresh env) test? test'?)
    (hp : Option.Rel (Mirrors fresh env) post? post'?)
    (hb : ∀ exit post, Mirrors fresh (env.inLoop exit post) body (body' (env.inLoop exit post))) :
    Mirrors fresh env (Framed.forLoop init? test? post? body)
      (Lower.forLoop env init'? test'? post'? body') := by
  refine fun _ => .inScope ((perhaps hi _).bind fun _ => .freshBlock fun _ htest => ?_)
  refine .freshBlock fun _ hbody => .freshBlock fun _ hpost => .freshBlock fun _ hexit => ?_
  refine (Tracks.jump _).bind fun _ => (Tracks.startBlock _ htest).bind fun _ => ?_
  refine (loopTest ht _ _).bind fun _ => .enterLoop ?_
  refine (Tracks.arm (hb _ _) hbody _ _).bind fun _ => .popLoop ?_
  exact (Tracks.arm (perhaps hp) hpost _ _).bind fun _ => .startBlock _ hexit

theorem caseTest (tag? : Option Operand) {target : Nat} {value : Framed Operand}
    {value' : Lower Operand} (h : Mirrors fresh env value value') :
    Mirrors fresh env (Lower.caseTest tag? target value) (Lower.caseTest tag? target value') := by
  refine h.bind fun o => ?_
  split
  · refine (alike (.comparison _ _ _)).bind fun _ _ => .freshBlock fun _ hnext => ?_
    exact (Tracks.branch _ _ _).bind fun _ => .startBlock _ hnext
  · refine (alike (.truth _)).bind fun _ _ => .freshBlock fun _ hnext => ?_
    exact (Tracks.branch _ _ _).bind fun _ => .startBlock _ hnext

theorem switch {tag? : Framed (Option Operand)} {tag'? : Lower (Option Operand)} {count : Nat}
    {tests : Option Operand → List Nat → Framed Unit}
    {tests' : Option Operand → List Nat → Lower Unit}
    {bodies : Nat → List Nat → Framed Unit} {bodies' : Env → Nat → List Nat → Lower Unit}
    {default? : Option (Framed Unit)} {default'? : Option (Env → Lower Unit)}
    (htag : Mirrors fresh env tag? tag'?)
    (htests : ∀ tag? blocks, Mirrors fresh env (tests tag? blocks) (tests' tag? blocks))
    (hbodies : ∀ exit blocks, (∀ b ∈ blocks, fresh b) → Tracks fresh ⟨env.inSwitch exit, true⟩
      ⟨env.inSwitch exit, true⟩ (bodies exit blocks) (bodies' (env.inSwitch exit) exit blocks))
    (hdefault : Option.Rel (fun y x => ∀ env, Mirrors fresh env y (x env)) default? default'?) :
    Mirrors fresh env (Framed.switch tag? count tests bodies default?)
      (Lower.switch env tag'? count tests' bodies' default'?) := by
  have hsome : default?.isSome = default'?.isSome := by cases hdefault <;> rfl
  unfold Framed.switch Lower.switch
  rw [hsome]
  refine htag.bind fun tag? _ => .freshBlock fun exit hexit => ?_
  refine .freshBlocks _ fun blocks hblocks => ?_
  refine .freshBlockIf _ hexit fun other hother => (htests _ _ _).bind fun _ => ?_
  refine (Tracks.jump _).bind fun _ => .enterLoop ((hbodies exit blocks hblocks).bind fun _ => ?_)
  exact (Tracks.arm? (rel_at hdefault _) hother _ _).bind fun _ => .popLoop (.startBlock _ hexit)

theorem fallThrough (t : Try) {final : Framed Unit} {final' : Lower Unit}
    (h : Mirrors fresh env final final') :
    Mirrors fresh env (Framed.fallThrough t final) (Lower.fallThrough env t final') :=
  fun ended => Tracks.site.bind fun _ => (Tracks.lift _).bind fun _ => h ended

theorem tryCatch {finally? : Option Block} {body : Framed Unit} {body' : Env → Lower Unit}
    {count : Nat} {clauses : Nat → List Nat → Framed Unit}
    {clauses' : Env → Nat → List Nat → Lower Unit} {final? : Option (Framed Unit)}
    {final'? : Option (Lower Unit)}
    (hbody : ∀ t, Mirrors fresh (env.inTry t) body (body' (env.inTry t)))
    (hclauses : ∀ t exit handlers, (∀ b ∈ handlers, fresh b) → Tracks fresh ⟨env.inTry t, true⟩
      ⟨env.inTry t, true⟩ (clauses exit handlers) (clauses' (env.inTry t) exit handlers))
    (hfinal : Option.Rel (Mirrors fresh env) final? final'?) :
    Mirrors fresh env (Framed.tryCatch finally? body count clauses final?)
      (Lower.tryCatch env finally? body' count clauses' final'?) := by
  have hafter : ∀ (t : Try) (done : Nat) {exit : Nat}, fresh exit →
      Tracks fresh ⟨env, true⟩ ⟨env, true⟩
      (Lower.arm? exit "try.finally" done (final?.map (Framed.fallThrough t)))
      (Lower.arm? exit "try.finally" done (final'?.map (Lower.fallThrough env t))) := by
    intro t done exit hexit
    refine Tracks.arm? ?_ hexit _ _
    cases hfinal with
    | some h => exact .some (fallThrough t h)
    | none => exact .none
  have hsome : final?.isSome = final'?.isSome := by cases hfinal <;> rfl
  unfold Framed.tryCatch Lower.tryCatch
  rw [hsome]
  refine (alike .usePersonality).bind fun _ _ => Tracks.site.bind fun site => ?_
  refine .freshBlock fun _ hbodyBlock => .freshBlock fun _ hlanding => ?_
  refine .freshBlocks _ fun handlers hhandlers => .freshBlockWhere _ fun final? hfinal => ?_
  refine .freshBlock fun resume hresume => .freshBlock fun done hdone => ?_
  have hexit : fresh (final?.getD done) := by
    cases final? with
    | some b => exact hfinal b rfl
    | none => exact hdone
  refine (Tracks.jump _).bind fun _ => .pushTry ?_
  refine (Tracks.arm (hbody _) hbodyBlock _ _).bind fun _ => ?_
  refine (Tracks.startBlock _ hlanding).bind fun _ => ?_
  refine (alike (.emit _) _).bind fun _ => (Tracks.jump _).bind fun _ => ?_
  refine (hclauses _ _ _ hhandlers).bind fun _ => .popTry ((hafter _ _ hexit).bind fun _ => ?_)
  refine (Tracks.startBlock _ hresume).bind fun _ => ?_
  refine (Tracks.terminate (t := .unreachable) nofun).bind fun _ => ?_
  exact .startBlock _ hdone

end Mirrors

end ClassLang.Framed
