import ClassLang.Proofs.Frames.Cursors

/-!
# Whole programs with frames

Between two functions there is no function, and then the generator that keeps a frame does what the other
one does. A function is begun with a frame that its cursor makes, and so is one that is generated in the
middle of another one. In the end both generators are in the same state, which includes the errors: none of
the steps of a frame found anything missing.
-/

namespace ClassLang.Framed

open Lower (Head)

/-- From a frame between two functions, `y` does what `x` does, and there is no function afterwards. -/
def Runs {α : Type} (catalog : Catalog) (bindings : List (String × Ty)) (y : Framed α) (x : Gen α) :
    Prop :=
  ∀ g, (y.run (.idle catalog bindings)).run g =
    (((x.run g).1, .idle catalog bindings), (x.run g).2)

namespace Mirrors

variable {fresh : Nat → Prop} {framed : Framed.Detour} {detour : Lower.Detour} {env : Env}

theorem storeGlobal (hd : framed.Mirrors fresh detour) (name : Ident) (value : Expr) (span : Span) :
    Mirrors fresh env (Framed.storeGlobal framed name value span)
      (Gen.storeGlobal detour env name value span) := by
  refine withinBind (mark span) fun _ => (expr hd value).bind fun o => (lift _).bind fun l? => ?_
  cases l? with
  | some l => exact (alike (.assign l o.value)).bind fun _ => pure _
  | none => exact pure _

theorem startStmt (hd : framed.Mirrors fresh detour) (s : Stmt) :
    Mirrors fresh env (Framed.startStmt framed s) (Gen.startStmt detour env s) := by
  cases s with
  | var name type? value? span =>
    cases value? with
    | some value => exact storeGlobal hd name value span
    | none => exact pure _
  | const name type? value span => exact storeGlobal hd name value span
  | _ => exact stmt hd _

theorem startStmts (hd : framed.Mirrors fresh detour) (ss : List Stmt) :
    Mirrors fresh env (Framed.startStmts framed ss) (Gen.startStmts detour env ss) := by
  induction ss with
  | nil => exact pure _
  | cons s ss ih =>
    refine (visit s).bind fun _ => (startStmt hd s).bind fun _ => ?_
    exact (alike .isTerminated).bind fun _ => .ite ih (pure _)

end Mirrors

namespace Runs

variable {α β : Type} {catalog : Catalog} {bindings : List (String × Ty)} {framed : Framed.Detour}
  {detour : Lower.Detour}

/-! ## Steps -/

theorem lift (x : Gen α) : Runs catalog bindings (liftM x) x := fun _ => rfl

theorem pure (a : α) : Runs catalog bindings (Pure.pure a) (Pure.pure a) := fun _ => rfl

theorem bind {y : Framed α} {x : Gen α} {k : α → Framed β} {l : α → Gen β}
    (h : Runs catalog bindings y x) (hk : ∀ a, Runs catalog bindings (k a) (l a)) :
    Runs catalog bindings (y >>= k) (x >>= l) := by
  intro g
  rw [StateT.run_bind, StateT.run_bind, h]
  exact hk _ _

theorem ite {c : Prop} [Decidable c] {y y' : Framed α} {x x' : Gen α}
    (h : Runs catalog bindings y x) (h' : Runs catalog bindings y' x') :
    Runs catalog bindings (if c then y else y') (if c then x else x') := by
  split <;> assumption

theorem forM {l : List α} {y : α → Framed Unit} {x : α → Gen Unit}
    (h : ∀ a, Runs catalog bindings (y a) (x a)) : Runs catalog bindings (l.forM y) (l.forM x) := by
  induction l with
  | nil => exact pure ()
  | cons a l ih => exact (h a).bind fun _ => ih

/-- Code that comes after a look at the surroundings. -/
theorem within {k : Env → Framed α} {x : Gen α}
    (h : Runs catalog bindings (k { catalog, bindings }) x) :
    Runs catalog bindings (Framed.env >>= k) x := h

theorem function {h : Head} {y : Framed Unit} {x : Env → Lower Unit}
    (hbody : ∀ env, Mirrors (· ≠ 0) env y (x env)) :
    Runs catalog bindings (Framed.function h y) (Lower.function { catalog, bindings } h x) := by
  let env : Env := { catalog, bindings }
  exact run_function (hbody (h.env env) false).simulates

theorem nested {inner : List (String × Ty)} {y : Framed Unit} {x : Gen Unit}
    (h : Runs catalog inner y x) : Runs catalog bindings (Framed.nested inner y) x := by
  let restore (r : (Unit × Frame) × GenState) : (Unit × Frame) × GenState :=
    (((), .idle catalog bindings), r.2)
  exact fun g => congrArg restore (h g)

/-! ## Declarations -/

theorem generateStart (hd : framed.Mirrors (· ≠ 0) detour) (p : Program) :
    Runs catalog bindings (Framed.generateStart framed p)
      (Gen.generateStart detour { catalog, bindings } p) := by
  refine (lift _).bind fun g => ?_
  dsimp only
  cases p.stmts.filter (Gen.runsAtStart g.computed) with
  | nil => exact pure ()
  | cons s ss => exact (function fun _ => Mirrors.startStmts hd (s :: ss)).bind fun _ => lift _

theorem generateFunction (hd : framed.Mirrors (· ≠ 0) detour) (symbol : String) (params : List Param)
    (sig : Signature) (body : Block) (span : Span) (class? receiver? : Option String) :
    Runs catalog bindings
      (Framed.generateFunction framed symbol params sig body span class? receiver?)
      (Gen.generateFunction detour { catalog, bindings } symbol params sig body span class?
        receiver?) :=
  function fun _ => Mirrors.entry hd receiver? body

theorem generateClass (hd : framed.Mirrors (· ≠ 0) detour) (name : String) (c : Class) :
    Runs catalog bindings (Framed.generateClass framed name c)
      (Gen.generateClass detour { catalog, bindings } name c) := by
  refine (lift _).bind fun l? => ?_
  cases l? with
  | none => exact pure ()
  | some l =>
    refine (forM fun m => ?_).bind fun _ => within (forM fun m => ?_)
    · cases l.methods.find? m.name.name with
      | none => exact pure ()
      | some entry => exact generateFunction hd _ _ _ _ _ _ _
    · cases l.methods.find? m.name.name with
      | none => exact pure ()
      | some entry => exact generateFunction hd _ _ _ _ _ _ _

theorem generateDetached (hd : framed.Mirrors (· ≠ 0) detour) (m : Method) :
    Runs catalog bindings (Framed.generateDetached framed m)
      (Gen.generateDetached detour { catalog, bindings } m) := by
  unfold Framed.generateDetached Gen.generateDetached
  cases m.receiverClass? with
  | none => exact pure ()
  | some cls =>
    refine within (.ite (pure ()) ?_)
    exact (lift _).bind fun sig => (lift _).bind fun _ => generateFunction hd _ _ _ _ _ _ _

theorem generateStmt (hd : framed.Mirrors (· ≠ 0) detour) (s : Stmt) :
    Runs catalog bindings (Framed.generateStmt framed s)
      (Gen.generateStmt detour { catalog, bindings } s) := by
  cases s with
  | function f =>
    have hcode : ∀ sig, Runs catalog bindings _ _ := fun sig =>
      generateFunction hd f.name.name f.params sig f.body f.span none none
    refine (lift _).bind fun sig? => ?_
    cases sig? with
    | some sig => exact (pure sig).bind hcode
    | none => exact within ((lift _).bind hcode)
  | class_ c => exact generateClass hd _ c
  | method m => exact generateDetached hd m
  | _ => exact pure ()

theorem instanceCode (hd : framed.Mirrors (· ≠ 0) detour) (i : TemplateInstance) :
    Runs catalog i.bindings (Framed.instanceCode framed i)
      (Gen.generateInstance detour { catalog, bindings } i) := by
  unfold Framed.instanceCode Gen.generateInstance
  cases i.body with
  | function f =>
    refine (lift _).bind fun sig? => ?_
    cases sig? with
    | some sig => exact generateFunction hd _ _ _ _ _ _ _
    | none => exact lift _
  | class_ c => exact generateClass hd _ c
  | _ => exact pure ()

theorem generateInstances (hd : framed.Mirrors (· ≠ 0) detour) (fuel : Nat) :
    Runs catalog bindings (Framed.generateInstances framed fuel)
      (Gen.generateInstances detour { catalog, bindings } fuel) := by
  induction fuel with
  | zero => exact (lift _).bind fun _ => (lift _).bind fun _ => .ite (lift _) (pure ())
  | succ fuel ih =>
    refine (lift _).bind fun g => ?_
    cases g.queue[g.lowered]? with
    | none => exact pure ()
    | some i =>
      exact (lift _).bind fun _ => (nested (instanceCode hd i)).bind fun _ => ih

theorem ensureEntry : Runs catalog bindings Framed.ensureEntry
    (Gen.ensureEntry { catalog, bindings }) := by
  refine (lift _).bind fun g => .ite (function fun _ => ?_) (pure ())
  exact (Mirrors.alike .callInit).bind fun _ => .alike (.terminate _)

theorem program (catalog : Catalog) (p : Program) :
    Runs catalog [] (Framed.program catalog p) (Gen.program catalog p) := by
  have hd : (Framed.detourAt catalog.limit).Mirrors (· ≠ 0) (Lower.detourAt catalog.limit) :=
    Mirrors.detourAt _
  refine (lift _).bind fun _ => (generateStart hd p).bind fun _ => ?_
  refine (forM (generateStmt hd)).bind fun _ => (generateInstances hd _).bind fun _ => ?_
  have hflaws : Runs catalog [] (do
      if ← Gen.succeeded then
        (← getThe GenState).module.flaws.forM fun f => Gen.internal (Ir.flawText f)) (do
      if ← Gen.succeeded then
        (← get).module.flaws.forM fun f => Gen.internal (Ir.flawText f)) :=
    (lift _).bind fun _ => .ite ((lift _).bind fun _ => forM fun _ => lift _) (pure ())
  exact (lift _).bind fun _ => .ite (ensureEntry.bind fun _ => hflaws) hflaws

end Runs

end ClassLang.Framed

namespace ClassLang

/-- The generator that keeps a frame generates the same code, reports the same errors, and leaves the same
records of what was done. -/
theorem Framed.generate_eq (p : Program) (scopes : ScopeTree) (file? : Option String) (limit : Nat) :
    Framed.generate p scopes file? limit = ClassLang.generate p scopes file? limit :=
  congrArg Prod.snd (Runs.program _ p _)

end ClassLang
