import ClassLang.Gen.Program
import ClassLang.Proofs.Lockstep.Code

/-!
# Bodies in lockstep

By induction on trees, generating code for them goes in lockstep if all that they demand is allowed.
The demands of a tree depend on whether there is a loop or a switch around it, which the environment
has to bear out. The final block of a try statement is generated again wherever the statement is left;
there may be more loops around it then, but never fewer. The depth to which such detours are nested is
the measure of another induction.
-/

namespace ClassLang

namespace Env

/-- There is a loop to go on with and a loop or a switch to leave, as the flags tell. -/
structure Places (env : Env) (loop switch : Bool) : Prop where
  loop : loop = true → env.continueTarget?.isSome = true
  switch : switch = true → env.loops ≠ []

variable {env : Env} {loop switch : Bool}

theorem Places.nowhere (env : Env) : env.Places false false := ⟨nofun, nofun⟩

theorem Places.inLoop (env : Env) (loop switch : Bool) (breakTo continueTo : Nat) :
    (env.inLoop breakTo continueTo).Places loop switch := ⟨fun _ => rfl, fun _ => nofun⟩

theorem Places.inSwitch (h : env.Places loop switch) (breakTo : Nat) :
    (env.inSwitch breakTo).Places loop true := ⟨h.loop, fun _ => nofun⟩

/-- Outside of all loops and switches nothing can be left. -/
theorem Places.eq_false (h : env.Places loop switch) (hloops : env.loops = []) :
    (loop || switch) = false := by
  cases loop with
  | true =>
    have hsome := h.loop rfl
    rw [continueTarget?, hloops] at hsome
    cases hsome
  | false =>
    cases switch with
    | true => exact absurd hloops (h.switch rfl)
    | false => rfl

/-- The final blocks of these try statements may be generated in the environment, each outside of its
own statement. -/
def AllowsTries (env : Env) (d : Discipline) : List Try → Prop
  | [] => True
  | t :: outer => (∀ b, t.finally? = some b → ∃ loop switch, env.Places loop switch ∧
      d.Allows (b.demands loop switch (outer.map Try.finally?))) ∧ env.AllowsTries d outer

theorem AllowsTries.mono {d : Discipline} {tries : List Try} (h : env.AllowsTries d tries)
    (env' : Env) (hplaces : ∀ {loop switch}, env.Places loop switch → env'.Places loop switch) :
    env'.AllowsTries d tries := by
  induction tries with
  | nil => trivial
  | cons t outer ih =>
    refine ⟨fun b hb => ?_, ih h.2⟩
    obtain ⟨loop, switch, hplaces', hallows⟩ := h.1 b hb
    exact ⟨loop, switch, hplaces hplaces', hallows⟩

/-- The environment belongs to a catalog, and the final blocks of the try statements around it may be
generated in it. -/
structure Suits (env : Env) (d : Discipline) (c : Catalog) (loop switch : Bool) : Prop where
  catalog : env.catalog = c
  bindings : d.AdmitsBindings env.bindings
  places : env.Places loop switch
  tries : env.AllowsTries d env.tries

theorem typing_withFile (env : Env) (file? : Option String) :
    (env.withFile file?).typing = env.typing.withFile file? := Gen.typing_withFile _ _ _

end Env

namespace Lower

/-- The ways to code from elsewhere go in lockstep. -/
structure Detour.Agree (d : Discipline) (c : Catalog) (file? : Option String)
    (detour detour' : Detour) : Prop where
  expr : ∀ env e loop switch, env.Suits d c loop switch → d.Allows e.demands →
    Lower.Agree d (detour.expr env e) (detour'.expr (env.withFile file?) e)
  block : ∀ env b loop switch, env.Suits d c loop switch →
    d.Allows (b.demands loop switch env.finals) →
    Lower.Agree d (detour.block env b) (detour'.block (env.withFile file?) b)

/-- All that the walk over a tree depends on. -/
structure Lockstep (d : Discipline) (c : Catalog) (file? : Option String) (detour detour' : Detour)
    (loop switch : Bool) (env : Env) : Prop where
  governs : d.Governs c
  detours : Detour.Agree d c file? detour detour'
  suits : env.Suits d c loop switch

namespace Lockstep

variable {d : Discipline} {c : Catalog} {file? : Option String} {detour detour' : Detour}
  {loop switch : Bool} {env : Env}

theorem inLoop (h : Lockstep d c file? detour detour' loop switch env) (breakTo continueTo : Nat) :
    Lockstep d c file? detour detour' true switch (env.inLoop breakTo continueTo) := by
  refine ⟨h.governs, h.detours, h.suits.catalog, h.suits.bindings, .inLoop _ _ _ _ _, ?_⟩
  exact h.suits.tries.mono (env.inLoop _ _) fun _ => .inLoop _ _ _ _ _

theorem inSwitch (h : Lockstep d c file? detour detour' loop switch env) (breakTo : Nat) :
    Lockstep d c file? detour detour' loop true (env.inSwitch breakTo) := by
  refine ⟨h.governs, h.detours, h.suits.catalog, h.suits.bindings, h.suits.places.inSwitch _, ?_⟩
  exact h.suits.tries.mono (env.inSwitch _) fun hplaces => ⟨hplaces.loop, fun _ => nofun⟩

theorem inTry (h : Lockstep d c file? detour detour' loop switch env) {finally? : Option Block}
    (hfinal : d.Allows (Block.demandsIf loop switch env.finals finally?)) (site : Site) :
    Lockstep d c file? detour detour' loop switch (env.inTry ⟨finally?, site⟩) := by
  refine ⟨h.governs, h.detours, h.suits.catalog, h.suits.bindings,
    ⟨h.suits.places.loop, h.suits.places.switch⟩, ?_, ?_⟩
  · rintro b rfl
    rw [Block.demandsIf] at hfinal
    exact ⟨loop, switch, ⟨h.suits.places.loop, h.suits.places.switch⟩, hfinal⟩
  · exact h.suits.tries.mono (env.inTry _) fun hplaces => ⟨hplaces.loop, hplaces.switch⟩

/-- The environment of a function's body. -/
theorem head (h : Lockstep d c file? detour detour' loop switch env) (head : Head) :
    Lockstep d c file? detour detour' false false (head.env env) :=
  ⟨h.governs, h.detours, h.suits.catalog, h.suits.bindings, .nowhere _, trivial⟩

theorem lawful (h : Lockstep d c file? detour detour' loop switch env) : d.Lawful c :=
  h.governs.lawful

theorem resolves [d.Ambient] (h : Lockstep d c file? detour detour' loop switch env) :
    Gen.Agree.Resolves d c c.limit env.bindings :=
  .ofLawful h.lawful h.governs.sustains h.suits.bindings

theorem typing (h : Lockstep d c file? detour detour' loop switch env) :
    env.typing = Gen.typingAt c c.limit env.bindings := by
  rw [Env.typing, h.suits.catalog]
  rfl

end Lockstep

namespace Agree

open Ir (Value)

variable {d : Discipline} [d.Ambient] {c : Catalog} {file? : Option String}
  {detour detour' : Detour} {loop switch : Bool} {env : Env}

/-! ## Types in code -/

section

variable (h : Lockstep d c file? detour detour' loop switch env)
include h

theorem resolveType (e : TypeExpr) (he : d.Allows e.demands) :
    Agree d (Gen.resolveType env.typing e : Lower Ty)
      (Gen.resolveType (env.withFile file?).typing e : Lower Ty) := by
  rw [Env.typing_withFile, Gen.resolveType_withFile, h.typing]
  exact lift (.resolveType h.resolves e he)

theorem writtenInstance (n : Ident) (typeArgs : List TypeExpr)
    (hargs : d.Allows (TypeExpr.demandsOfArguments typeArgs)) :
    Agree d (Lower.writtenInstance env n typeArgs : Lower (Option String))
      (Lower.writtenInstance (env.withFile file?) n typeArgs : Lower (Option String)) := by
  unfold Lower.writtenInstance
  rw [Env.typing_withFile, Gen.resolveTypes_withFile, h.typing]
  obtain ⟨hagrees, htypes⟩ := Gen.Agree.resolveTypes h.resolves typeArgs hargs
  exact lift (hagrees.bindOf (P := fun types => ∀ ty ∈ types, d.admits ty) htypes
    fun types htypes => h.resolves.instantiates n types fun _ => htypes)

theorem instanceValue (n : Ident) (typeArgs : List TypeExpr)
    (hargs : d.Allows (TypeExpr.demandsOfArguments typeArgs)) :
    Agree d (Lower.instanceValue env n typeArgs)
      (Lower.instanceValue (env.withFile file?) n typeArgs) := by
  refine (writtenInstance h n typeArgs hargs).after fun symbol? => ?_
  split
  · exact .pure _
  · exact .bind (.function? _) fun _ => .pure _

theorem callNamed (n : Ident) (callee : NamedCallee) (args : List Operand)
    (hcall : d.allows (.call n.name)) :
    Agree d (Lower.callNamed env n callee args)
      (Lower.callNamed (env.withFile file?) n callee args) := by
  unfold Lower.callNamed
  split
  · exact plain (.callPointer _ _ _)
  · exact plain (.callSymbol _ _ _)
  next t =>
    have hinstance : ∀ types, Agree d (env.typing.instantiate n types : Lower (Option String))
        ((env.withFile file?).typing.instantiate n types : Lower (Option String)) := by
      intro types
      rw [Env.typing_withFile, h.typing]
      exact lift (h.resolves.instantiates n types fun ht ty _ => h.lawful.call hcall ht ty)
    refine (hinstance _).after fun symbol? => ?_
    split
    · exact .pure _
    · exact .callSymbol _ _ _
  · exact plain (.callMethod _ _ _ _ _ _)
  · exact plain (.callBuiltin _ _)

theorem declaredType (type? : Option TypeExpr) (htype : d.Allows (TypeExpr.demandsIf type?)) :
    Agree d (Lower.declaredType env type? : Lower (Option Ty))
      (Lower.declaredType (env.withFile file?) type? : Lower (Option Ty)) := by
  cases type? with
  | some e => exact (resolveType h e (by simpa [TypeExpr.demandsIf] using htype)).map
  | none => exact pure _

theorem newClass (type : TypeExpr) (htype : d.Allows type.demands) :
    Agree d (Lower.newClass env type) (Lower.newClass (env.withFile file?) type) := by
  have hrest : ∀ cls? : Option String, Plain (do
      if cls?.isNone then Gen.report (.notAClass type.text) type.span
      return cls?) := fun cls? =>
    .ite (.bind (.report rfl _) fun _ => .pure _) (.pure _)
  refine (resolveType h type htype).after fun ty => ?_
  split
  · exact .bind (.hasLayout _) fun _ => .bind (.pure _) hrest
  · exact .bind (.pure _) hrest

theorem clause (param? : Option Ident) (type? : Option TypeExpr) {body body' : Lower Unit}
    (htype : d.Allows (TypeExpr.demandsIf type?)) (hbody : Agree d body body') :
    Agree d (Lower.clause env param? type? body)
      (Lower.clause (env.withFile file?) param? type? body') := by
  refine inScope (.bind ?_ fun _ => hbody)
  unfold Lower.bindCaught
  split
  · exact pure _
  · rw [Env.typing_withFile, Gen.resolveOptional_withFile, h.typing]
    refine (lift (.resolveOptional h.resolves _ type? htype)).after fun _ => ?_
    exact .bind (.bindValue _ _ _ _) fun _ => .pure _

/-! ## Functions inside of functions -/

theorem declareInner (symbol : String) (params : List Param) (ret? : Option TypeExpr)
    (hsig : d.Allows (signatureDemands params ret?)) :
    Agree d (Lower.declareInner env symbol params ret? : Lower Signature)
      (Lower.declareInner (env.withFile file?) symbol params ret? : Lower Signature) := by
  unfold Lower.declareInner
  rw [Env.typing_withFile, Gen.writtenSignature_withFile, h.typing]
  refine lift ((Gen.Agree.writtenSignature h.resolves params ret? hsig).bind fun _ => ?_)
  exact (Gen.Agree.setFunction _ _).bind fun _ => .pure _

theorem function (head : Head) {body body' : Env → Lower Unit}
    (hbody : Lockstep d c file? detour detour' false false (head.env env) →
      Agree d (body (head.env env)) (body' ((head.env env).withFile file?))) :
    Agree d (Lower.function env head body : Lower Unit)
      (Lower.function (env.withFile file?) head body' : Lower Unit) :=
  lift (.function (hbody (h.head head)))

omit h in
theorem freshLambda : Agrees d (Lower.freshLambda : Lower String) := by
  refine lift fun g g' hg hkeeps => ⟨?_, ?_, Discipline.Ambient.same (by rfl) (by rfl) (by rfl)
    (by rfl) (by rfl) hkeeps⟩
  · exact (congrArg (fun g : GenState => s!"__lambda_{g.lambdas}") hg :)
  · exact congrArg (fun g : GenState => { g with lambdas := g.lambdas + 1 }) hg

omit [d.Ambient] in
theorem visit (s : Stmt) (hs : d.allows (.visit ⟨s, env.finals⟩)) :
    Agree d (Lower.visit env s) (Lower.visit (env.withFile file?) s) :=
  lift (.changing (fun _ => rfl) fun _ => h.lawful.visit hs)

/-! ## Leaving try statements -/

theorem runFinally (count : Nat) (tries : List Try)
    (htries : env.AllowsTries d tries) :
    Agree d (Lower.runFinally detour env count tries)
      (Lower.runFinally detour' (env.withFile file?) count tries) := by
  induction tries generalizing count with
  | nil => cases count <;> exact pure _
  | cons t outer ih =>
    obtain ⟨ht, houter⟩ := htries
    cases count with
    | zero => exact pure _
    | succ count =>
      rw [Lower.runFinally, Lower.runFinally]
      split
      next => exact ih count houter
      next b hb =>
        obtain ⟨loop, switch, hplaces, hallows⟩ := ht b hb
        refine .bind (site env) fun _ => (recordCopy _).bind fun _ => ?_
        refine (h.detours.block { env with tries := outer } b loop switch ?_ hallows).bind fun _ => ?_
        · exact ⟨h.suits.catalog, h.suits.bindings, ⟨hplaces.loop, hplaces.switch⟩,
            houter.mono { env with tries := outer } fun hplaces => ⟨hplaces.loop, hplaces.switch⟩⟩
        · exact .andThen .isTerminated fun _ => .ite (ih count houter) (pure _)

theorem leaveTries (depth : Nat) : Agree d (Lower.leaveTries detour env depth)
    (Lower.leaveTries detour' (env.withFile file?) depth) :=
  runFinally h _ _ h.suits.tries

theorem leaveFunction (value? : Option Operand) : Agree d (Lower.leaveFunction detour env value?)
    (Lower.leaveFunction detour' (env.withFile file?) value?) :=
  .andThen (.returnValue env value?) fun _ => (leaveTries h _).after fun _ => .terminate _

omit h [d.Ambient] in
/-- A demand that makes no sense is reported. -/
theorem misplaced (hd : d.Lawful c) {m : Demand} (hm : d.allows m) (hplaced : m.isPlaced = false)
    {cause : GenError.Cause} (hcause : cause ≠ .unbounded) (span : Span) :
    Agrees d (Gen.report cause span : Lower Unit) :=
  lift (.changing (fun _ => rfl) fun _ => hd.misplaced hm hplaced hcause)

theorem leaveLoop (span : Span) (hjump : d.allows (.jump (loop || switch))) :
    Agree d (Lower.leaveLoop detour env span)
      (Lower.leaveLoop detour' (env.withFile file?) span) := by
  have hloops : (env.withFile file?).loops = env.loops := rfl
  unfold Lower.leaveLoop
  rw [hloops]
  split
  next hnone => exact misplaced h.lawful hjump (h.suits.places.eq_false hnone) (by simp) _
  next => exact (leaveTries h _).after fun _ => .jump _

theorem continueLoop (span : Span) (hjump : d.allows (.jump loop)) :
    Agree d (Lower.continueLoop detour env span)
      (Lower.continueLoop detour' (env.withFile file?) span) := by
  have htarget : (env.withFile file?).continueTarget? = env.continueTarget? := rfl
  unfold Lower.continueLoop
  rw [htarget]
  split
  next hnone =>
    have hloop : loop = false := by
      rw [← Bool.not_eq_true]
      intro hloop
      have hsome := h.suits.places.loop hloop
      rw [hnone] at hsome
      cases hsome
    exact misplaced h.lawful hjump hloop (by simp) _
  next => exact (leaveTries h _).after fun _ => .jump _

/-! ## New objects -/

theorem initFields (cls : String) (object : Value) (index : Nat) (fs : List FieldSlot)
    (hfs : ∀ f ∈ fs, d.Allows (Expr.demandsIf f.default?)) :
    Agree d (Lower.initFields detour env cls object index fs)
      (Lower.initFields detour' (env.withFile file?) cls object index fs) := by
  induction fs generalizing index with
  | nil => exact pure _
  | cons f fs ih =>
    obtain ⟨hf, hfs⟩ := List.forall_mem_cons.1 hfs
    have hrest : ∀ v : Value, Agree d (do
        let ptr ← Lower.structMember cls object index
        Lower.store v ptr
        Lower.initFields detour env cls object (index + 1) fs) (do
        let ptr ← Lower.structMember cls object index
        Lower.store v ptr
        Lower.initFields detour' (env.withFile file?) cls object (index + 1) fs) := fun _ =>
      .andThen (.structMember _ _ _) fun _ => .andThen (.store _ _) fun _ => ih _ hfs
    rw [Lower.initFields, Lower.initFields]
    split
    next e he =>
      rw [he, Expr.demandsIf] at hf
      refine (h.detours.expr env e loop switch h.suits hf).bind fun _ => ?_
      exact .andThen (.convert _ _) hrest
    next => exact (pure _).bind hrest

/-- Making an object looks up the fields at the point where it is made. -/
theorem newObject (cls : String) (args : List Operand) (span : Span) :
    Agree d (Lower.newObject detour env cls args span)
      (Lower.newObject detour' (env.withFile file?) cls args span) := by
  refine .andThen (.allocate cls) fun object => .bindOf (plain (.layout? cls))
    (P := fun l? => ∀ l, l? = some l → d.AllowsFields l)
    (fun _ _ hkeeps _ hl => h.lawful.layout hkeeps hl) fun l? hl? => ?_
  refine (initFields h cls object 1 _ ?_).after fun _ => .bind (.method? _ _) fun _ =>
    .ite (.bind (.callMethod _ _ _ _ _ _) fun _ => .pure _) (.pure _)
  cases l? with
  | some l => exact hl? l rfl
  | none => exact fun _ hf => nomatch hf

end

/-! ## Trees -/

omit [d.Ambient] in
/-- A called expression that is none of those with a meaning of their own is a value. -/
theorem expr_callValue (detour : Detour) (env : Env) {function : Expr} (args : List Expr) (span : Span)
    (hident : ∀ n, function ≠ .ident n) (hmember : ∀ o p a s, function ≠ .member o p a s)
    (hsuper : ∀ s, function ≠ .super s)
    (htemplate : ∀ n ts s, function ≠ .templateInstance n ts s) :
    Lower.expr detour env (.call function args span) = (do
      let callee ← Lower.expr detour env function
      let args ← Lower.exprs detour env args
      Lower.callPointer callee args function.span) := by
  rw [Lower.expr]
  · exact hident
  · exact fun _ _ _ _ h => hmember _ _ _ _ h
  · exact fun _ _ _ _ h => hmember _ _ _ _ h
  · exact hsuper
  · exact htemplate

set_option linter.unusedSectionVars false in
mutual

theorem expr {env : Env} {loop switch : Bool}
    (h : Lockstep d c file? detour detour' loop switch env) : (e : Expr) → d.Allows e.demands →
      Agree d (Lower.expr detour env e) (Lower.expr detour' (env.withFile file?) e)
  | .ident n, _ => by
    rw [Lower.expr, Lower.expr]
    exact plain (.nameValue env n)
  | .int .., _ | .float .., _ | .char .., _ | .bool .., _ | .null .., _ => by
    rw [Lower.expr, Lower.expr]
    exact pure _
  | .string .., _ => by
    rw [Lower.expr, Lower.expr]
    exact plain (.bind (.addString _) fun _ => .pure _)
  | .prefixed op right _, he => by
    rw [Expr.demands] at he
    rw [Lower.expr, Lower.expr]
    exact (expr h right he).after fun _ => .prefixed op _
  | .binary op left right _, he => by
    rw [Expr.demands, Discipline.allows_append] at he
    have hl := expr h left he.1
    have hr := expr h right he.2
    rw [Lower.expr, Lower.expr]
    exact .ite (logical _ hl hr) (hl.bind fun _ => hr.after fun _ => .infix_ _ _ _)
  | .postfixed op operand _, he => by
    rw [Expr.demands, Discipline.allows_cons] at he
    rw [Lower.expr, Lower.expr]
    refine (location h operand he.1 he.2).after fun l? => ?_
    split
    · exact .step _ _
    · exact .pure _
  | .assign .define target value _, he => by
    rw [Expr.demands, Discipline.allows_cons, Discipline.allows_append] at he
    have hvalue := expr h value he.2.2
    by_cases hname : ∃ n, target = .ident n
    · obtain ⟨n, rfl⟩ := hname
      rw [Lower.expr, Lower.expr]
      exact hvalue.after fun _ => .bind (.define _ _ _) fun _ => .loadFrom _
    · have hbad : target.isTarget true = false := by
        unfold Expr.isTarget
        split
        next n => exact absurd ⟨n, rfl⟩ hname
        all_goals rfl
      have hcause : GenError.Cause.invalidAssignTarget target.text ≠ .unbounded := nofun
      have hreport := misplaced h.lawful he.1 hbad hcause target.span
      rw [Lower.expr, Lower.expr]
      · exact hvalue.bind fun _ => hreport.bind fun _ => pure _
      all_goals exact fun n hn => hname ⟨n, hn⟩
  | .assign .assign target value _, he => by
    rw [Expr.demands, Discipline.allows_cons, Discipline.allows_append] at he
    rw [Lower.expr, Lower.expr]
    refine (expr h value he.2.2).bind fun _ => (location h target he.1 he.2.1).after fun l? => ?_
    split
    · exact .assign _ _
    · exact .pure _
  | .assign (.compound op) target value _, he => by
    rw [Expr.demands, Discipline.allows_cons, Discipline.allows_append] at he
    rw [Lower.expr, Lower.expr]
    refine (location h target he.1 he.2.1).bind fun l? => ?_
    split
    · exact pure _
    · refine .andThen (.loadFrom _) fun _ => (expr h value he.2.2).after fun _ => ?_
      exact .bind (.infix_ _ _ _) fun _ => .assign _ _
  | .call function args span, he => by
    rw [Expr.demands, Discipline.allows_append, Discipline.allows_append] at he
    have hargs := exprs h args he.2.2
    have hfunction := expr h function he.2.1
    cases function with
    | ident n =>
      rw [Expr.calleeDemands, Discipline.allows_cons] at he
      rw [Lower.expr, Lower.expr]
      exact .andThen (.namedCallee env n.name) fun _ =>
        hargs.bind fun _ => callNamed h _ _ _ he.1.1
    | member object property arrow _ =>
      rw [Expr.demands] at he
      have hobject := expr h object he.2.1
      by_cases hsuper : ∃ s, object = .super s
      · obtain ⟨s, rfl⟩ := hsuper
        rw [Lower.expr, Lower.expr]
        exact hargs.after fun _ => .callSuper env _ _ _
      · rw [Lower.expr, Lower.expr]
        · refine .andThen (.qualifier env object) fun _ => ?_
          split
          · exact hargs.after fun _ => .callMethod _ _ _ _ _ _
          · exact hargs.after fun _ => .callPackage _ _ _
          · exact hobject.bind fun _ => hargs.after fun _ => .callMember _ _ _ _
        all_goals exact fun s hs => hsuper ⟨s, hs⟩
    | super s =>
      rw [Lower.expr, Lower.expr]
      exact hargs.after fun _ => .callSuper env _ _ _
    | templateInstance n typeArgs _ =>
      rw [Expr.demands] at he
      rw [Lower.expr, Lower.expr]
      refine (writtenInstance h n typeArgs he.2.1).bind fun symbol? => ?_
      split
      · exact pure _
      · exact hargs.after fun _ => .callSymbol _ _ _
    | _ =>
      rw [expr_callValue detour env, expr_callValue detour' (env.withFile file?)]
      · exact hfunction.bind fun _ => hargs.after fun _ => .callPointer _ _ _
      all_goals nofun
  | .index object key _, he => by
    rw [Expr.demands, Discipline.allows_append] at he
    rw [Lower.expr, Lower.expr]
    refine (expr h object he.1).bind fun _ => (expr h key he.2).after fun _ => ?_
    exact .bind (.elementLocation _ _) fun _ => .loadFrom _
  | .member object property _ _, he => by
    rw [Expr.demands] at he
    rw [Lower.expr, Lower.expr]
    refine .andThen (.qualifier env object) fun _ => ?_
    split
    · exact plain (.bind (.report rfl _) fun _ => .pure _)
    · refine (expr h object he).after fun _ => .bind (.memberLocation _ _) fun l? => ?_
      split
      · exact .loadFrom _
      · exact .pure _
  | .array elements _, he => by
    rw [Expr.demands] at he
    rw [Lower.expr, Lower.expr]
    exact (exprs h elements he).after fun _ => .newArray _
  | .hash pairs _, he => by
    rw [Expr.demands] at he
    rw [Lower.expr, Lower.expr]
    exact (entries h pairs he).after fun _ => .newMap _
  | .lambda params ret? body span, he => by
    rw [Expr.demands, Discipline.allows_append] at he
    rw [Lower.expr, Lower.expr]
    refine freshLambda.bind fun symbol => (declareInner h symbol params ret? he.1).bind fun sig => ?_
    exact (function h _ fun h => entry h none body he.2).bind fun _ => pure _
  | .new type args span, he => by
    rw [Expr.demands, Discipline.allows_append] at he
    rw [Lower.expr, Lower.expr]
    refine (newClass h type he.1).bind fun cls? => ?_
    split
    · exact pure _
    · exact (exprs h args he.2).bind fun _ => newObject h _ _ _
  | .this span, _ => by
    rw [Lower.expr, Lower.expr]
    exact plain (.thisValue env span)
  | .super span, _ => by
    rw [Lower.expr, Lower.expr]
    exact plain (.superValue env span)
  | .templateInstance n typeArgs _, he => by
    rw [Expr.demands] at he
    rw [Lower.expr, Lower.expr]
    exact instanceValue h n typeArgs he

theorem exprs {env : Env} {loop switch : Bool}
    (h : Lockstep d c file? detour detour' loop switch env) :
    (es : List Expr) → d.Allows (Expr.demandsAll es) →
      Agree d (Lower.exprs detour env es) (Lower.exprs detour' (env.withFile file?) es)
  | [], _ => by
    rw [Lower.exprs, Lower.exprs]
    exact pure _
  | e :: es, hes => by
    rw [Expr.demandsAll, Discipline.allows_append] at hes
    rw [Lower.exprs, Lower.exprs]
    exact (expr h e hes.1).bind fun _ => (exprs h es hes.2).after fun _ => .pure _

theorem entries {env : Env} {loop switch : Bool}
    (h : Lockstep d c file? detour detour' loop switch env) :
    (es : List Entry) → d.Allows (Entry.demandsAll es) →
      Agree d (Lower.entries detour env es) (Lower.entries detour' (env.withFile file?) es)
  | [], _ => by
    rw [Lower.entries, Lower.entries]
    exact pure _
  | ⟨key, value⟩ :: es, hes => by
    rw [Entry.demandsAll, Discipline.allows_append, Discipline.allows_append] at hes
    rw [Lower.entries, Lower.entries]
    refine (expr h key hes.1).bind fun _ => (expr h value hes.2.1).bind fun _ => ?_
    exact (entries h es hes.2.2).after fun _ => .pure _

theorem location {env : Env} {loop switch : Bool}
    (h : Lockstep d c file? detour detour' loop switch env) :
    (e : Expr) → d.allows (.target false e) → d.Allows e.demands →
      Agree d (Lower.location detour env e) (Lower.location detour' (env.withFile file?) e)
  | .ident n, _, _ => by
    rw [Lower.location, Lower.location]
    refine plain (.bind (.nameLocation env n.name) fun l? => ?_)
    split
    · exact .pure _
    · exact .bind (.report rfl _) fun _ => .pure _
  | .member object property _ _, _, he => by
    rw [Expr.demands] at he
    rw [Lower.location, Lower.location]
    exact (expr h object he).after fun _ => .memberLocation _ _
  | .index object key _, _, he => by
    rw [Expr.demands, Discipline.allows_append] at he
    rw [Lower.location, Lower.location]
    refine (expr h object he.1).bind fun _ => (expr h key he.2).after fun _ => ?_
    exact .bind (.elementLocation _ _) fun _ => .pure _
  | .int .., he, _ | .float .., he, _ | .string .., he, _ | .char .., he, _ | .bool .., he, _
  | .null _, he, _ | .prefixed .., he, _ | .binary .., he, _ | .postfixed .., he, _
  | .assign .., he, _ | .call .., he, _ | .array .., he, _ | .hash .., he, _ | .lambda .., he, _
  | .new .., he, _ | .this _, he, _ | .super _, he, _ | .templateInstance .., he, _ => by
    rw [Lower.location, Lower.location]
    · exact (misplaced h.lawful he rfl (by simp) _).bind fun _ => pure _
    all_goals simp

theorem entry {env : Env} {loop switch : Bool}
    (h : Lockstep d c file? detour detour' loop switch env) (receiver? : Option String) :
    (b : Block) → d.Allows (b.demands loop switch env.finals) →
      Agree d (Lower.entry detour env receiver? b)
        (Lower.entry detour' (env.withFile file?) receiver? b)
  | ⟨body, _⟩, hb => by
    rw [Block.demands] at hb
    have hbody := inScope (stmts h body hb)
    rw [Lower.entry, Lower.entry]
    exact .andThen (.bindReceiver env receiver?) fun _ =>
      .ite (.andThen .callInit fun _ => hbody) hbody

theorem block {env : Env} {loop switch : Bool}
    (h : Lockstep d c file? detour detour' loop switch env) :
    (b : Block) → d.Allows (b.demands loop switch env.finals) →
      Agree d (Lower.block detour env b) (Lower.block detour' (env.withFile file?) b)
  | ⟨body, _⟩, hb => by
    rw [Block.demands] at hb
    rw [Lower.block, Lower.block]
    exact inScope (stmts h body hb)

theorem stmts {env : Env} {loop switch : Bool}
    (h : Lockstep d c file? detour detour' loop switch env) :
    (ss : List Stmt) → d.Allows (Stmt.demandsAll loop switch env.finals ss) →
      Agree d (Lower.stmts detour env ss) (Lower.stmts detour' (env.withFile file?) ss)
  | [], _ => by
    rw [Lower.stmts, Lower.stmts]
    exact pure _
  | s :: ss, hss => by
    rw [Stmt.demandsAll, Discipline.allows_cons, Discipline.allows_append] at hss
    have hs := stmt h s hss.2.1
    have hrest := stmts h ss hss.2.2
    rw [Lower.stmts, Lower.stmts]
    refine .andThen .isTerminated fun _ => .ite ?_ (pure _)
    exact (visit h s hss.1).bind fun _ => hs.bind fun _ => hrest

theorem stmt {env : Env} {loop switch : Bool}
    (h : Lockstep d c file? detour detour' loop switch env) :
    (s : Stmt) → d.Allows (s.demands loop switch env.finals) →
      Agree d (Lower.stmt detour env s) (Lower.stmt detour' (env.withFile file?) s)
  | .package _ span, _ | .imports _ span, _ | .interface _ _ span, _ | .template _ _ span, _ => by
    rw [Lower.stmt, Lower.stmt]
    exact mark env file? span
  | .class_ cls, _ => by
    rw [Lower.stmt, Lower.stmt]
    exact mark env file? cls.span
  | .method m, _ => by
    rw [Lower.stmt, Lower.stmt]
    exact mark env file? m.span
  | .var name type? value? span, hs => by
    rw [Stmt.demands, Discipline.allows_append] at hs
    rw [Lower.stmt, Lower.stmt]
    refine (mark env file? span).bind fun _ => (declaredType h type? hs.1).bind fun _ => ?_
    exact (exprIf h value? hs.2).after fun _ => .bind (.define _ _ _) fun _ => .pure _
  | .const name type? value span, hs => by
    rw [Stmt.demands, Discipline.allows_append] at hs
    rw [Lower.stmt, Lower.stmt]
    refine (mark env file? span).bind fun _ => (declaredType h type? hs.1).bind fun _ => ?_
    exact (expr h value hs.2).after fun _ => .bind (.define _ _ _) fun _ => .pure _
  | .ret value? span, hs => by
    rw [Stmt.demands] at hs
    rw [Lower.stmt, Lower.stmt]
    refine (mark env file? span).bind fun _ => (exprIf h value? hs).bind fun _ => ?_
    exact leaveFunction h _
  | .expr e, hs => by
    rw [Stmt.demands] at hs
    rw [Lower.stmt, Lower.stmt]
    exact (mark env file? e.span).bind fun _ => (expr h e hs).after fun _ => .pure _
  | .block b, hs => by
    rw [Stmt.demands] at hs
    rw [Lower.stmt, Lower.stmt]
    exact (mark env file? b.span).bind fun _ => block h b hs
  | .ifElse condition consequence alternative? span, hs => by
    rw [Stmt.demands, Discipline.allows_append, Discipline.allows_append] at hs
    rw [Lower.stmt, Lower.stmt]
    exact (mark env file? span).bind fun _ => ifElse (expr h condition hs.1)
      (block h consequence hs.2.1) (stmtIf h alternative? hs.2.2)
  | .whileLoop condition body span, hs => by
    rw [Stmt.demands, Discipline.allows_append] at hs
    rw [Lower.stmt, Lower.stmt]
    exact (mark env file? span).bind fun _ => whileLoop (expr h condition hs.1)
      fun _ _ => block (h.inLoop _ _) body hs.2
  | .forLoop init? condition? post? body span, hs => by
    rw [Stmt.demands, Discipline.allows_append, Discipline.allows_append,
      Discipline.allows_append] at hs
    rw [Lower.stmt, Lower.stmt]
    exact (mark env file? span).bind fun _ => forLoop (stmtIf h init? hs.1)
      (testIf h condition? hs.2.1) (stmtIf h post? hs.2.2.2)
      fun _ _ => block (h.inLoop _ _) body hs.2.2.1
  | .switch tag? cases default? span, hs => by
    rw [Stmt.demands, Discipline.allows_append, Discipline.allows_append,
      Discipline.allows_append] at hs
    rw [Lower.stmt, Lower.stmt]
    exact (mark env file? span).bind fun _ => .switch cases.length (exprIf h tag? hs.1)
      (fun tag? blocks => tests h tag? cases hs.2.1 blocks)
      (fun exit blocks => caseBodies (h.inSwitch exit) exit cases hs.2.2.1 blocks)
      (fun exit => blockIf (h.inSwitch exit) default? hs.2.2.2)
  | .break_ span, hs => by
    rw [Stmt.demands, Discipline.allows_cons] at hs
    rw [Lower.stmt, Lower.stmt]
    exact (mark env file? span).bind fun _ => leaveLoop h span hs.1
  | .continue_ span, hs => by
    rw [Stmt.demands, Discipline.allows_cons] at hs
    rw [Lower.stmt, Lower.stmt]
    exact (mark env file? span).bind fun _ => continueLoop h span hs.1
  | .function ⟨name, params, ret?, body, _, span⟩, hs => by
    rw [Stmt.demands, Discipline.allows_append] at hs
    rw [Lower.stmt, Lower.stmt]
    refine (mark env file? span).bind fun _ => ?_
    refine (declareInner h name.name params ret? hs.1).bind fun sig => ?_
    exact function h _ fun h => entry h none body hs.2
  | .tryCatch body catches finally? span, hs => by
    rw [Stmt.demands, Discipline.allows_append, Discipline.allows_append] at hs
    rw [Lower.stmt, Lower.stmt]
    exact (mark env file? span).bind fun _ => tryCatch finally? catches.length
      (fun site => block (h.inTry hs.2.2 site) body hs.1)
      (fun site exit handlers => clauses (h.inTry hs.2.2 site) exit catches hs.2.1 handlers)
      (blockIf h finally? hs.2.2)
  | .throw value span, hs => by
    rw [Stmt.demands] at hs
    rw [Lower.stmt, Lower.stmt]
    exact (mark env file? span).bind fun _ => (expr h value hs).after fun _ => .throwValue _
  | .scope body span, hs => by
    rw [Stmt.demands] at hs
    rw [Lower.stmt, Lower.stmt]
    exact (mark env file? span).bind fun _ => block h body hs

theorem exprIf {env : Env} {loop switch : Bool}
    (h : Lockstep d c file? detour detour' loop switch env) :
    (e? : Option Expr) → d.Allows (Expr.demandsIf e?) →
      Agree d (Lower.exprIf detour env e?) (Lower.exprIf detour' (env.withFile file?) e?)
  | some e, he => by
    rw [Expr.demandsIf] at he
    rw [Lower.exprIf, Lower.exprIf]
    exact (expr h e he).map
  | none, _ => by
    rw [Lower.exprIf, Lower.exprIf]
    exact pure _

theorem testIf {env : Env} {loop switch : Bool}
    (h : Lockstep d c file? detour detour' loop switch env) :
    (e? : Option Expr) → d.Allows (Expr.demandsIf e?) →
      All d (Lower.testIf detour env e?) (Lower.testIf detour' (env.withFile file?) e?)
  | some e, he => by
    rw [Expr.demandsIf] at he
    rw [Lower.testIf, Lower.testIf]
    exact .some (expr h e he)
  | none, _ => by
    rw [Lower.testIf, Lower.testIf]
    exact .none

theorem stmtIf {env : Env} {loop switch : Bool}
    (h : Lockstep d c file? detour detour' loop switch env) :
    (s? : Option Stmt) → d.Allows (Stmt.demandsIf loop switch env.finals s?) →
      All d (Lower.stmtIf detour env s?) (Lower.stmtIf detour' (env.withFile file?) s?)
  | some s, hs => by
    rw [Stmt.demandsIf, Discipline.allows_cons] at hs
    rw [Lower.stmtIf, Lower.stmtIf]
    exact .some ((visit h s hs.1).bind fun _ => stmt h s hs.2)
  | none, _ => by
    rw [Lower.stmtIf, Lower.stmtIf]
    exact .none

theorem blockIf {env : Env} {loop switch : Bool}
    (h : Lockstep d c file? detour detour' loop switch env) :
    (b? : Option Block) → d.Allows (Block.demandsIf loop switch env.finals b?) →
      All d ((Lower.blockIf detour b?).map fun body => body env)
        ((Lower.blockIf detour' b?).map fun body => body (env.withFile file?))
  | some b, hb => by
    rw [Block.demandsIf] at hb
    rw [Lower.blockIf, Lower.blockIf]
    exact .some (block h b hb)
  | none, _ => by
    rw [Lower.blockIf, Lower.blockIf]
    exact .none

theorem caseTests {env : Env} {loop switch : Bool}
    (h : Lockstep d c file? detour detour' loop switch env) (tag? : Option Operand) (target : Nat) :
    (es : List Expr) → d.Allows (Expr.demandsAll es) →
      Agree d (Lower.caseTests detour env tag? target es)
        (Lower.caseTests detour' (env.withFile file?) tag? target es)
  | [], _ => by
    rw [Lower.caseTests, Lower.caseTests]
    exact pure _
  | e :: es, hes => by
    rw [Expr.demandsAll, Discipline.allows_append] at hes
    rw [Lower.caseTests, Lower.caseTests]
    exact (caseTest _ _ (expr h e hes.1)).bind fun _ => caseTests h tag? target es hes.2

theorem tests {env : Env} {loop switch : Bool}
    (h : Lockstep d c file? detour detour' loop switch env) (tag? : Option Operand) :
    (cs : List Case) → d.Allows (Case.demandsOfValues cs) → ∀ targets,
      Agree d (Lower.tests detour env tag? targets cs)
        (Lower.tests detour' (env.withFile file?) tag? targets cs)
  | [], _ => fun targets => by
    rw [Lower.tests, Lower.tests]
    · exact pure _
    all_goals simp
  | ⟨values, _, _⟩ :: cs, hcs => fun targets => by
    cases targets with
    | nil =>
      rw [Lower.tests, Lower.tests]
      · exact pure _
      all_goals simp
    | cons target targets =>
      rw [Case.demandsOfValues, Discipline.allows_append] at hcs
      rw [Lower.tests, Lower.tests]
      exact (caseTests h tag? target values hcs.1).bind fun _ => tests h tag? cs hcs.2 targets

theorem caseBodies {env : Env} {loop switch : Bool}
    (h : Lockstep d c file? detour detour' loop switch env) (exit : Nat) :
    (cs : List Case) → d.Allows (Case.demandsOfBodies loop switch env.finals cs) → ∀ targets,
      Agree d (Lower.caseBodies detour env exit targets cs)
        (Lower.caseBodies detour' (env.withFile file?) exit targets cs)
  | [], _ => fun targets => by
    rw [Lower.caseBodies, Lower.caseBodies]
    · exact pure _
    all_goals simp
  | ⟨_, body, _⟩ :: cs, hcs => fun targets => by
    cases targets with
    | nil =>
      rw [Lower.caseBodies, Lower.caseBodies]
      · exact pure _
      all_goals simp
    | cons target targets =>
      rw [Case.demandsOfBodies, Discipline.allows_append] at hcs
      rw [Lower.caseBodies, Lower.caseBodies]
      exact (arm (block h body hcs.1) _ _ _).bind fun _ => caseBodies h exit cs hcs.2 targets

theorem clauses {env : Env} {loop switch : Bool}
    (h : Lockstep d c file? detour detour' loop switch env) (exit : Nat) :
    (cs : List Catch) → d.Allows (Catch.demandsAll loop switch env.finals cs) → ∀ handlers,
      Agree d (Lower.clauses detour env exit handlers cs)
        (Lower.clauses detour' (env.withFile file?) exit handlers cs)
  | [], _ => fun handlers => by
    rw [Lower.clauses, Lower.clauses]
    · exact pure _
    all_goals simp
  | ⟨param?, type?, body, _⟩ :: cs, hcs => fun handlers => by
    cases handlers with
    | nil =>
      rw [Lower.clauses, Lower.clauses]
      · exact pure _
      all_goals simp
    | cons handler handlers =>
      rw [Catch.demandsAll, Discipline.allows_append, Discipline.allows_append] at hcs
      have hclause := clause h param? type? hcs.1 (block h body hcs.2.1)
      rw [Lower.clauses, Lower.clauses]
      exact (arm hclause _ _ _).bind fun _ => clauses h exit cs hcs.2.2 handlers

end

end Agree

/-! ## Detours -/

theorem Detour.Agree.detourAt {d : Discipline} [d.Ambient] {c : Catalog} (hd : d.Governs c)
    (file? : Option String) (fuel : Nat) :
    Detour.Agree d c file? (Lower.detourAt fuel) (Lower.detourAt fuel) := by
  induction fuel with
  | zero =>
    have hexhaust : Agrees d (Gen.exhaust : Lower Unit) := .lift (.exhaust hd.tolerant)
    exact ⟨fun _ _ _ _ _ _ => hexhaust.bind fun _ => .pure _, fun _ _ _ _ _ _ => hexhaust⟩
  | succ fuel ih =>
    have hexhausted : Agrees d (Gen.exhausted : Lower Bool) := .lift .exhausted
    refine ⟨fun env e loop switch henv he => ?_, fun env b loop switch henv hb => ?_⟩
    · exact hexhausted.bind fun _ => .ite (.pure _) (.expr ⟨hd, ih, henv⟩ e he)
    · exact hexhausted.bind fun _ => .ite (.block ⟨hd, ih, henv⟩ b hb) (.pure _)

end Lower

end ClassLang
