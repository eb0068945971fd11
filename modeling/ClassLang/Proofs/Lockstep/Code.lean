import ClassLang.Proofs.Lockstep.Instance

/-!
# Control flow in lockstep

Control flow is put together from parts. If the parts go in lockstep then so does the whole, since the
positions that are marked on the way are comments. A function that is generated for one file is the
same as for another one, but for comments and positions.
-/

namespace ClassLang

/-- The environment with another file for positions. -/
def Env.withFile (env : Env) (file? : Option String) : Env :=
  { env with catalog := env.catalog.withFile file? }

namespace Lower.Agree

variable {α β : Type} {d : Discipline} [d.Ambient] {env : Env} {file? : Option String}

/-- Plain code comes first. -/
theorem andThen {x : Lower α} {f f' : α → Lower β} (hx : Plain x) (hf : ∀ a, Agree d (f a) (f' a)) :
    Agree d (x >>= f) (x >>= f') := (plain hx).bind hf

/-- Plain code comes last. -/
theorem after {x y : Lower α} {f : α → Lower β} (hx : Agree d x y) (hf : ∀ a, Plain (f a)) :
    Agree d (x >>= f) (y >>= f) := hx.bind fun a => plain (hf a)

omit [d.Ambient] in
/-- A position leaves no trace. -/
theorem mark (env : Env) (file? : Option String) (span : Span) :
    Agree d (Lower.mark env span) (Lower.mark (env.withFile file?) span) := by
  have hbare : ∀ (env : Env) (c : Cursor) (g : GenState),
      (((Lower.mark env span : Lower Unit).run c).run g).1.2.bare = c.bare ∧
        (((Lower.mark env span : Lower Unit).run c).run g).2 = g := by
    intro env c g
    unfold Lower.mark Lower.marker?
    split
    next i hi =>
      split at hi
      · cases hi
        exact ⟨Cursor.bare_push_comment c _, rfl⟩
      · cases hi
    next => exact ⟨rfl, rfl⟩
  intro c c' g g' hc hg hkeeps
  obtain ⟨hc₁, hg₁⟩ := hbare env c g
  obtain ⟨hc₂, hg₂⟩ := hbare (env.withFile file?) c' g'
  rw [hc₁, hc₂, hg₁, hg₂]
  exact ⟨rfl, hc, hg, hkeeps⟩

/-- What is said of code that may be left out. -/
def All (d : Discipline) (x? y? : Option (Lower α)) : Prop := Option.Rel (Agree d) x? y?

omit [d.Ambient] in
theorem inScope {act act' : Lower Unit} (h : Agree d act act') :
    Agree d (Lower.inScope act) (Lower.inScope act') := by
  have hpush : Agrees d Lower.pushScope :=
    changing fun _ _ => congrArg fun c : Cursor => { c with scopes := {} :: c.scopes }
  have hpop : Agrees d Lower.popScope :=
    changing fun _ _ => congrArg fun c : Cursor => { c with scopes := c.scopes.tail }
  exact hpush.bind fun _ => h.bind fun _ => hpop

theorem arm {act act' : Lower Unit} (h : Agree d act act') (id : Nat) (label : String) (exit : Nat) :
    Agree d (Lower.arm id label exit act) (Lower.arm id label exit act') :=
  .bind (startBlock _ _) fun _ => h.after fun _ => .jump _

theorem arm? {act? act'? : Option (Lower Unit)} (h : All d act? act'?) (id : Nat) (label : String)
    (exit : Nat) : Agree d (Lower.arm? id label exit act?) (Lower.arm? id label exit act'?) := by
  cases h with
  | some h => exact arm h _ _ _
  | none => exact pure _

omit [d.Ambient] in
theorem All.isSome {x? y? : Option (Lower α)} (h : All d x? y?) : x?.isSome = y?.isSome := by
  cases h <;> rfl

theorem condition {value value' : Lower Operand} (h : Agree d value value') :
    Agree d (Lower.condition value) (Lower.condition value') :=
  h.after fun _ => .truth _

theorem logical (isAnd : Bool) {left left' right right' : Lower Operand} (hl : Agree d left left')
    (hr : Agree d right right') :
    Agree d (Lower.logical isAnd left right) (Lower.logical isAnd left' right') := by
  refine (condition hl).bind fun _ => .andThen .currentBlock fun _ => .andThen .freshBlock fun _ => ?_
  refine .andThen .freshBlock fun _ => .andThen (.branch _ _ _) fun _ => ?_
  refine .bind (startBlock _ _) fun _ => (condition hr).bind fun _ => ?_
  refine .bind currentBlock fun _ => .andThen (.jump _) fun _ => ?_
  exact .bind (startBlock _ _) fun _ => .andThen (.phi _ _) fun _ => pure _

theorem ifElse {test test' : Lower Operand} {consequence consequence' : Lower Unit}
    {alternative? alternative'? : Option (Lower Unit)} (ht : Agree d test test')
    (hc : Agree d consequence consequence') (ha : All d alternative? alternative'?) :
    Agree d (Lower.ifElse test consequence alternative?)
      (Lower.ifElse test' consequence' alternative'?) := by
  unfold Lower.ifElse
  rw [ha.isSome]
  refine (condition ht).bind fun _ => .andThen .freshBlock fun _ => .andThen .freshBlock fun _ => ?_
  refine .andThen (.freshBlockIf _ _) fun _ => .andThen (.branch _ _ _) fun _ => ?_
  exact (arm hc _ _ _).bind fun _ => (arm? ha _ _ _).bind fun _ => startBlock _ _

theorem whileLoop {test test' : Lower Operand} {body body' : Env → Lower Unit}
    (ht : Agree d test test')
    (hb : ∀ exit header, Agree d (body (env.inLoop exit header))
      (body' ((env.inLoop exit header).withFile file?))) :
    Agree d (Lower.whileLoop env test body) (Lower.whileLoop (env.withFile file?) test' body') := by
  refine .andThen .freshBlock fun _ => .andThen .freshBlock fun _ => .andThen .freshBlock fun _ => ?_
  refine .andThen (.jump _) fun _ => .bind (startBlock _ _) fun _ => (condition ht).bind fun _ => ?_
  exact .andThen (.branch _ _ _) fun _ => (arm (hb _ _) _ _ _).bind fun _ => startBlock _ _

omit [d.Ambient] in
theorem perhaps {act? act'? : Option (Lower Unit)} (h : All d act? act'?) :
    Agree d (Lower.perhaps act?) (Lower.perhaps act'?) := by
  cases h with
  | some h => exact h
  | none => exact pure _

theorem loopTest (body exit : Nat) {test? test'? : Option (Lower Operand)} (h : All d test? test'?) :
    Agree d (Lower.loopTest body exit test?) (Lower.loopTest body exit test'?) := by
  cases h with
  | some h => exact (condition h).after fun _ => .branch _ _ _
  | none => exact plain (.jump _)

theorem forLoop {init? init'? post? post'? : Option (Lower Unit)}
    {test? test'? : Option (Lower Operand)} {body body' : Env → Lower Unit}
    (hinit : All d init? init'?) (htest : All d test? test'?) (hpost : All d post? post'?)
    (hbody : ∀ exit post, Agree d (body (env.inLoop exit post))
      (body' ((env.inLoop exit post).withFile file?))) :
    Agree d (Lower.forLoop env init? test? post? body)
      (Lower.forLoop (env.withFile file?) init'? test'? post'? body') := by
  refine inScope ((perhaps hinit).bind fun _ => .andThen .freshBlock fun _ => ?_)
  refine .andThen .freshBlock fun _ => .andThen .freshBlock fun _ => .andThen .freshBlock fun _ => ?_
  refine .andThen (.jump _) fun _ => .bind (startBlock _ _) fun _ => ?_
  refine (loopTest _ _ htest).bind fun _ => (arm (hbody _ _) _ _ _).bind fun _ => ?_
  exact (arm (perhaps hpost) _ _ _).bind fun _ => startBlock _ _

theorem caseTest (tag? : Option Operand) (target : Nat) {value value' : Lower Operand}
    (h : Agree d value value') :
    Agree d (Lower.caseTest tag? target value) (Lower.caseTest tag? target value') := by
  have hrest : ∀ c : Ir.Value, Agrees d (do
      let next ← Lower.freshBlock
      Lower.branch c target next
      Lower.startBlock next "switch.test") := fun _ =>
    .andThen .freshBlock fun _ => .andThen (.branch _ _ _) fun _ => startBlock _ _
  refine h.bind fun _ => ?_
  split
  · exact .andThen (.comparison _ _ _) hrest
  · exact .andThen (.truth _) hrest

theorem switch {tag? tag'? : Lower (Option Operand)} (count : Nat)
    {tests tests' : Option Operand → List Nat → Lower Unit}
    {bodies bodies' : Env → Nat → List Nat → Lower Unit}
    {default? default'? : Option (Env → Lower Unit)} (htag : Agree d tag? tag'?)
    (htests : ∀ tag? blocks, Agree d (tests tag? blocks) (tests' tag? blocks))
    (hbodies : ∀ exit blocks, Agree d (bodies (env.inSwitch exit) exit blocks)
      (bodies' ((env.inSwitch exit).withFile file?) exit blocks))
    (hdefault : ∀ exit, All d (default?.map fun body => body (env.inSwitch exit))
      (default'?.map fun body => body ((env.inSwitch exit).withFile file?))) :
    Agree d (Lower.switch env tag? count tests bodies default?)
      (Lower.switch (env.withFile file?) tag'? count tests' bodies' default'?) := by
  have hsome : default?.isSome = default'?.isSome := by
    have h := (hdefault 0).isSome
    rwa [Option.isSome_map, Option.isSome_map] at h
  unfold Lower.switch
  rw [hsome]
  refine htag.bind fun _ => .andThen .freshBlock fun _ => .andThen (.freshBlocks _) fun _ => ?_
  refine .andThen (.freshBlockIf _ _) fun _ => (htests _ _).bind fun _ => .andThen (.jump _) fun _ => ?_
  refine (hbodies _ _).bind fun _ => ?_
  exact (arm? (hdefault _) _ _ _).bind fun _ => startBlock _ _

theorem recordCopy (k : Copy) : Agrees d (Gen.recordCopy k : Lower Unit) := lift (.recordCopy k)

theorem tryCatch (finally? : Option Block) {body body' : Env → Lower Unit} (count : Nat)
    {clauses clauses' : Env → Nat → List Nat → Lower Unit} {final? final'? : Option (Lower Unit)}
    (hbody : ∀ site, Agree d (body (env.inTry ⟨finally?, site⟩))
      (body' ((env.inTry ⟨finally?, site⟩).withFile file?)))
    (hclauses : ∀ site exit handlers, Agree d (clauses (env.inTry ⟨finally?, site⟩) exit handlers)
      (clauses' ((env.inTry ⟨finally?, site⟩).withFile file?) exit handlers))
    (hfinal : All d final? final'?) :
    Agree d (Lower.tryCatch env finally? body count clauses final?)
      (Lower.tryCatch (env.withFile file?) finally? body' count clauses' final'?) := by
  have hafter : ∀ exit done t, Agree d
      (Lower.arm? exit "try.finally" done (final?.map (fallThrough env t)))
      (Lower.arm? exit "try.finally" done (final'?.map (fallThrough (env.withFile file?) t))) := by
    intro exit done t
    cases hfinal with
    | some hfinal =>
      exact arm? (.some (.bind (site env) fun _ => (recordCopy _).bind fun _ => hfinal)) _ _ _
    | none => exact pure _
  unfold Lower.tryCatch
  rw [hfinal.isSome]
  refine .andThen .usePersonality fun _ => .bind (site env) fun _ => .andThen .freshBlock fun _ => ?_
  refine .andThen .freshBlock fun _ => .andThen (.freshBlocks _) fun _ => ?_
  refine .ite (.bind (.map (plain .freshBlock)) ?rest) (.bind (pure none) ?rest)
  refine fun _ => .andThen .freshBlock fun _ => .andThen .freshBlock fun _ => .andThen (.jump _) fun _ => ?_
  refine (arm (hbody _) _ _ _).bind fun _ => .bind (startBlock _ _) fun _ => ?_
  refine .andThen (.emit _) fun _ => .andThen (.jump _) fun _ => (hclauses _ _ _).bind fun _ => ?_
  refine (hafter _ _ _).bind fun _ => .bind (startBlock _ _) fun _ => ?_
  exact .andThen (.terminate _) fun _ => startBlock _ _

/-! ## Whole functions -/

theorem whole {h : Head} {body body' : Env → Lower Unit}
    (hbody : Agree d (body (h.env env)) (body' ((h.env env).withFile file?))) :
    Agree d (Lower.whole env h body) (Lower.whole (env.withFile file?) h body') :=
  .andThen (.bindParams h) fun _ => hbody.after fun _ => .terminate _

end Lower.Agree

/-- A function is added to the module, the same one but for comments. -/
theorem Gen.Agree.function {d : Discipline} [d.Ambient] {env : Env} {file? : Option String}
    {h : Lower.Head} {body body' : Env → Lower Unit}
    (hbody : Lower.Agree d (body (h.env env)) (body' ((h.env env).withFile file?))) :
    Agree d (Lower.function env h body) (Lower.function (env.withFile file?) h body') := by
  intro g g' hg hkeeps
  let r := ((Lower.whole env h body).run (h.cursor env.catalog.file?)).run g
  let r' := ((Lower.whole (env.withFile file?) h body').run (h.cursor file?)).run g'
  obtain ⟨-, hc, hg₁, hkeeps₁⟩ : _ ∧ r.1.2.bare = r'.1.2.bare ∧ r.2.bare = r'.2.bare ∧ d.keeps r.2 :=
    Lower.Agree.whole hbody _ _ g g' (h.bare_cursor _ _) hg hkeeps
  have hmodule : r.2.module.bare = r'.2.module.bare := congrArg GenState.module hg₁
  refine ⟨rfl, ?_, Discipline.Ambient.same (by rfl) (by rfl) (by rfl) (by rfl) (by rfl) hkeeps₁⟩
  show ({ r.2.bare with module := (r.2.module.addFunction r.1.2.finish).bare } : GenState) =
    { r'.2.bare with module := (r'.2.module.addFunction r'.1.2.finish).bare }
  rw [Ir.Module.bare_addFunction, Ir.Module.bare_addFunction, hmodule, hg₁,
    Cursor.bare_finish_eq hc]

end ClassLang
