import ClassLang.Proofs.Frames.Mirror

/-!
# Whole trees with frames and with environments

By induction on trees, the walk that keeps a frame goes along with the one that is given an
environment, whatever the environment is. Final blocks are run with a part of the stack of try
statements, which is that of the environment they are given, and the depth to which detours are nested
is the measure of another induction.
-/

namespace ClassLang.Framed.Mirrors

open Ir (Value)
open Lower (Head)

variable {fresh : Nat → Prop} {framed : Framed.Detour} {detour : Lower.Detour} {env : Env}

/-! ## Leaving -/

/-- A final block runs with the outer try statements on the stack, and after it the inner ones are put
back. -/
theorem runFinal (hd : framed.Mirrors fresh detour) (t : Try) (body : Block) {inner outer : List Try}
    (h : env.tries = inner ++ outer) {k : Unit → Framed Unit} {l : Unit → Lower Unit}
    (hk : Mirrors fresh env (k ()) (l ())) :
    Mirrors fresh env (Framed.runFinal framed t outer.length body >>= k) (do
      Gen.recordCopy ⟨t, ← Lower.site env, true⟩
      detour.block { env with tries := outer } body >>= l) := by
  unfold Framed.runFinal
  simp only [bind_assoc]
  refine fun ended => Tracks.site.bind fun site => (Tracks.lift _).bind fun _ => .splitOff h ?_
  exact (hd.block { env with tries := outer } body ended).bind fun _ => .extend h (hk false)

/-- The final blocks of the try statements below a number are run, each on a part of the stack. -/
theorem runFinally (hd : framed.Mirrors fresh detour) (depth : Nat) {inner tries : List Try}
    (h : env.tries = inner ++ tries) :
    Mirrors fresh env (Framed.runFinally framed depth tries.length)
      (Lower.runFinally detour env (tries.length - depth) tries) := by
  induction tries generalizing inner with
  | nil =>
    rw [List.length_nil, Nat.zero_sub]
    exact pure ()
  | cons t outer ih =>
    have houter : env.tries = (inner ++ [t]) ++ outer := by rw [h, List.append_assoc]; rfl
    have hget : env.tries.reverse[outer.length]? = some t := by
      rw [h, List.reverse_append, List.reverse_cons, List.append_assoc, List.getElem?_append_right]
      all_goals simp
    rw [List.length_cons, Framed.runFinally]
    by_cases hdepth : depth ≤ outer.length
    · rw [if_pos hdepth, Nat.sub_add_comm hdepth, Lower.runFinally]
      refine fun ended => .exceptions ?_
      rw [hget]
      dsimp only
      cases hfinal : t.finally? with
      | none => exact ih houter ended
      | some body =>
        dsimp only
        refine runFinal hd t body houter ?_ ended
        exact (alike .isTerminated).bind fun _ => .ite (ih houter) (pure ())
    · rw [if_neg hdepth, Nat.sub_eq_zero_of_le (Nat.lt_of_not_le hdepth)]
      exact pure ()

theorem leaveTries (hd : framed.Mirrors fresh detour) (depth : Nat) :
    Mirrors fresh env (Framed.leaveTries framed depth) (Lower.leaveTries detour env depth) := by
  refine fun ended => .exceptions ?_
  rw [List.length_reverse]
  exact runFinally hd depth (List.nil_append env.tries).symm ended

theorem leaveFunction (hd : framed.Mirrors fresh detour) (value? : Option Operand) :
    Mirrors fresh env (Framed.leaveFunction framed value?)
      (Lower.leaveFunction detour env value?) :=
  withinBind (alike (.returnValue env value?)) fun _ => (leaveTries hd 0).bind fun _ =>
    alike (.terminate _)

theorem leaveLoop (hd : framed.Mirrors fresh detour) (span : Span) :
    Mirrors fresh env (Framed.leaveLoop framed span) (Lower.leaveLoop detour env span) := by
  refine within ?_
  unfold Lower.leaveLoop
  cases env.loops with
  | nil => exact lift _
  | cons l outer => exact (leaveTries hd _).bind fun _ => alike (.jump _)

theorem continueLoop (hd : framed.Mirrors fresh detour) (span : Span) :
    Mirrors fresh env (Framed.continueLoop framed span) (Lower.continueLoop detour env span) := by
  refine within ?_
  unfold Lower.continueLoop
  cases env.continueTarget? with
  | none => exact lift _
  | some target => exact (leaveTries hd _).bind fun _ => alike (.jump _)

/-! ## Objects and functions -/

theorem initFields (hd : framed.Mirrors fresh detour) (cls : String) (object : Value) (index : Nat)
    (fs : List FieldSlot) : Mirrors fresh env (Framed.initFields framed cls object index fs)
      (Lower.initFields detour env cls object index fs) := by
  induction fs generalizing index with
  | nil => exact pure ()
  | cons f fs ih =>
    rw [Framed.initFields, Lower.initFields]
    cases f.default? with
    | some e =>
      refine (hd.expr env _).bind fun _ => (alike (.convert _ _)).bind fun _ => ?_
      exact (alike (.structMember _ _ _)).bind fun _ => (alike (.store _ _)).bind fun _ => ih _
    | none =>
      refine (pure _).bind fun _ => (alike (.structMember _ _ _)).bind fun _ => ?_
      exact (alike (.store _ _)).bind fun _ => ih _

theorem newObject (hd : framed.Mirrors fresh detour) (cls : String) (args : List Operand)
    (span : Span) : Mirrors fresh env (Framed.newObject framed cls args span)
      (Lower.newObject detour env cls args span) := by
  refine (alike (.allocate cls)).bind fun object => (lift _).bind fun l? => ?_
  refine (initFields hd cls object 1 _).bind fun _ => (lift _).bind fun _ => .ite ?_ (pure _)
  exact (alike (.callMethod _ _ _ _ _ _)).bind fun _ => pure _

/-- A function inside of another one. -/
theorem nested {h : Head} {y : Framed Unit} {x : Env → Lower Unit}
    (hbody : Mirrors fresh (h.env env) y (x (h.env env))) :
    Mirrors fresh env (Framed.nested env.bindings (Framed.function h y)) (Lower.function env h x) :=
  fun _ => .forget (.nested (hbody false))

/-- The value at a location that there may be. -/
theorem loadIf (l? : Option Location) :
    Mirrors fresh env (match l? with
      | some l => Lower.loadFrom l
      | none => return .undefined) (match l? with
      | some l => Lower.loadFrom l
      | none => return .undefined) := by
  cases l? with
  | some l => exact alike (.loadFrom l)
  | none => exact pure _

/-! ## Trees -/

/-- A called expression that is none of those with a meaning of their own is a value. -/
theorem expr_callValue (framed : Framed.Detour) {function : Expr} (args : List Expr) (span : Span)
    (hident : ∀ n, function ≠ .ident n) (hmember : ∀ o p a s, function ≠ .member o p a s)
    (hsuper : ∀ s, function ≠ .super s)
    (htemplate : ∀ n ts s, function ≠ .templateInstance n ts s) :
    Framed.expr framed (.call function args span) = (do
      let callee ← Framed.expr framed function
      let args ← Framed.exprs framed args
      Lower.callPointer callee args function.span) := by
  rw [Framed.expr]
  · exact hident
  · exact fun _ _ _ _ h => hmember _ _ _ _ h
  · exact fun _ _ _ _ h => hmember _ _ _ _ h
  · exact hsuper
  · exact htemplate

mutual

theorem expr (hd : framed.Mirrors fresh detour) {env : Env} :
    (e : Expr) → Mirrors fresh env (Framed.expr framed e) (Lower.expr detour env e)
  | .ident n => by
    rw [Framed.expr, Lower.expr]
    exact within (alike (.nameValue env n))
  | .int .. | .float .. | .char .. | .bool .. | .null .. => by
    rw [Framed.expr, Lower.expr]
    exact pure _
  | .string .. => by
    rw [Framed.expr, Lower.expr]
    exact (lift _).bind fun _ => pure _
  | .prefixed op right _ => by
    rw [Framed.expr, Lower.expr]
    exact (expr hd right).bind fun _ => alike (.prefixed op _)
  | .binary op left right _ => by
    have hl : Mirrors fresh env _ _ := expr hd left
    have hr : Mirrors fresh env _ _ := expr hd right
    rw [Framed.expr, Lower.expr]
    exact .ite (logical _ hl hr) (hl.bind fun _ => hr.bind fun _ => alike (.infix_ _ _ _))
  | .postfixed op operand _ => by
    rw [Framed.expr, Lower.expr]
    refine (location hd operand).bind fun l? => ?_
    split
    · exact alike (.step _ _)
    · exact pure _
  | .assign .define target value _ => by
    have hvalue : Mirrors fresh env _ _ := expr hd value
    by_cases hname : ∃ n, target = .ident n
    · obtain ⟨n, rfl⟩ := hname
      rw [Framed.expr, Lower.expr]
      exact hvalue.bind fun _ => (alike (.define _ _ _)).bind fun _ => alike (.loadFrom _)
    · rw [Framed.expr, Lower.expr]
      · exact hvalue.bind fun _ => (lift _).bind fun _ => pure _
      all_goals exact fun n hn => hname ⟨n, hn⟩
  | .assign .assign target value _ => by
    rw [Framed.expr, Lower.expr]
    refine (expr hd value).bind fun _ => (location hd target).bind fun l? => ?_
    split
    · exact alike (.assign _ _)
    · exact pure _
  | .assign (.compound op) target value _ => by
    rw [Framed.expr, Lower.expr]
    refine (location hd target).bind fun l? => ?_
    split
    · exact pure _
    · refine (alike (.loadFrom _)).bind fun _ => (expr hd value).bind fun _ => ?_
      exact (alike (.infix_ _ _ _)).bind fun _ => alike (.assign _ _)
  | .call function args span => by
    have hargs : Mirrors fresh env _ _ := exprs hd args
    have hfunction : Mirrors fresh env _ _ := expr hd function
    cases function with
    | ident n =>
      rw [Framed.expr, Lower.expr]
      refine withinBind (alike (.namedCallee env n.name)) fun _ => hargs.bind fun _ => ?_
      exact within (callNamed _ _ _)
    | member object property arrow _ =>
      by_cases hsuper : ∃ s, object = .super s
      · obtain ⟨s, rfl⟩ := hsuper
        rw [Framed.expr, Lower.expr]
        exact hargs.bind fun _ => within (alike (.callSuper env _ _ _))
      · have hobject : Mirrors fresh env _ _ := expr hd object
        rw [Framed.expr, Lower.expr]
        · refine withinBind (alike (.qualifier env object)) fun _ => ?_
          split
          · exact hargs.bind fun _ => alike (.callMethod _ _ _ _ _ _)
          · exact hargs.bind fun _ => alike (.callPackage _ _ _)
          · exact hobject.bind fun _ => hargs.bind fun _ => alike (.callMember _ _ _ _)
        all_goals exact fun s hs => hsuper ⟨s, hs⟩
    | super s =>
      rw [Framed.expr, Lower.expr]
      exact hargs.bind fun _ => within (alike (.callSuper env _ _ _))
    | templateInstance n typeArgs _ =>
      rw [Framed.expr, Lower.expr]
      refine withinBind (lift _) fun symbol? => ?_
      split
      · exact pure _
      · exact hargs.bind fun _ => alike (.callSymbol _ _ _)
    | _ =>
      rw [expr_callValue framed, Lower.expr]
      · exact hfunction.bind fun _ => hargs.bind fun _ => alike (.callPointer _ _ _)
      all_goals nofun
  | .index object key _ => by
    rw [Framed.expr, Lower.expr]
    refine (expr hd object).bind fun _ => (expr hd key).bind fun _ => ?_
    exact (alike (.elementLocation _ _)).bind fun _ => alike (.loadFrom _)
  | .member object property _ _ => by
    rw [Framed.expr, Lower.expr]
    have hobject : Mirrors fresh env _ _ := (expr hd object).bind fun o =>
      (alike (.memberLocation o property)).bind fun l? => loadIf l?
    refine withinBind (alike (.qualifier env object)) fun q => ?_
    cases q with
    | package p => exact (lift _).bind fun _ => pure _
    | class_ cls => exact hobject
    | object => exact hobject
  | .array elements _ => by
    rw [Framed.expr, Lower.expr]
    exact (exprs hd elements).bind fun _ => alike (.newArray _)
  | .hash pairs _ => by
    rw [Framed.expr, Lower.expr]
    exact (entries hd pairs).bind fun _ => alike (.newMap _)
  | .lambda params ret? body span => by
    rw [Framed.expr, Lower.expr]
    refine (lift _).bind fun symbol => withinBind (lift _) fun sig => ?_
    exact within ((nested (entry hd none body)).bind fun _ => pure _)
  | .new type args span => by
    rw [Framed.expr, Lower.expr]
    refine withinBind (newClass type) fun cls? => ?_
    split
    · exact pure _
    · exact (exprs hd args).bind fun _ => newObject hd _ _ _
  | .this span => by
    rw [Framed.expr, Lower.expr]
    exact within (alike (.thisValue env span))
  | .super span => by
    rw [Framed.expr, Lower.expr]
    exact within (alike (.superValue env span))
  | .templateInstance n typeArgs _ => by
    rw [Framed.expr, Lower.expr]
    exact within (instanceValue n typeArgs)

theorem exprs (hd : framed.Mirrors fresh detour) {env : Env} :
    (es : List Expr) → Mirrors fresh env (Framed.exprs framed es) (Lower.exprs detour env es)
  | [] => by
    rw [Framed.exprs, Lower.exprs]
    exact pure _
  | e :: es => by
    rw [Framed.exprs, Lower.exprs]
    exact (expr hd e).bind fun _ => (exprs hd es).bind fun _ => pure _

theorem entries (hd : framed.Mirrors fresh detour) {env : Env} :
    (es : List Entry) → Mirrors fresh env (Framed.entries framed es) (Lower.entries detour env es)
  | [] => by
    rw [Framed.entries, Lower.entries]
    exact pure _
  | ⟨key, value⟩ :: es => by
    rw [Framed.entries, Lower.entries]
    refine (expr hd key).bind fun _ => (expr hd value).bind fun _ => ?_
    exact (entries hd es).bind fun _ => pure _

theorem location (hd : framed.Mirrors fresh detour) {env : Env} :
    (e : Expr) → Mirrors fresh env (Framed.location framed e) (Lower.location detour env e)
  | .ident n => by
    rw [Framed.location, Lower.location]
    refine withinBind (alike (.nameLocation env n.name)) fun l? => ?_
    split
    · exact pure _
    · exact (lift _).bind fun _ => pure _
  | .member object property _ _ => by
    rw [Framed.location, Lower.location]
    exact (expr hd object).bind fun _ => alike (.memberLocation _ _)
  | .index object key _ => by
    rw [Framed.location, Lower.location]
    refine (expr hd object).bind fun _ => (expr hd key).bind fun _ => ?_
    exact (alike (.elementLocation _ _)).bind fun _ => pure _
  | .int .. | .float .. | .string .. | .char .. | .bool .. | .null _ | .prefixed .. | .binary ..
  | .postfixed .. | .assign .. | .call .. | .array .. | .hash .. | .lambda .. | .new .. | .this _
  | .super _ | .templateInstance .. => by
    rw [Framed.location, Lower.location]
    · exact (lift _).bind fun _ => pure _
    all_goals simp

/-- The body of a function, in the surroundings of its own. -/
theorem entry (hd : framed.Mirrors fresh detour) {env : Env} (receiver? : Option String) :
    (b : Block) → Mirrors fresh env (Framed.entry framed receiver? b)
      (Lower.entry detour env receiver? b)
  | ⟨body, _⟩ => by
    have hbody : Mirrors fresh env (Lower.inScope (Framed.stmts framed body))
        (Lower.inScope (Lower.stmts detour env body)) := fun ended => .inScope (stmts hd body ended)
    rw [Framed.entry, Lower.entry]
    refine withinBind (alike (.bindReceiver env receiver?)) fun _ => within ?_
    exact .ite ((alike .callInit).bind fun _ => hbody) hbody

theorem block (hd : framed.Mirrors fresh detour) {env : Env} :
    (b : Block) → Mirrors fresh env (Framed.block framed b) (Lower.block detour env b)
  | ⟨body, _⟩ => by
    rw [Framed.block, Lower.block]
    exact fun ended => .inScope (stmts hd body ended)

theorem stmts (hd : framed.Mirrors fresh detour) {env : Env} :
    (ss : List Stmt) → Mirrors fresh env (Framed.stmts framed ss) (Lower.stmts detour env ss)
  | [] => by
    rw [Framed.stmts, Lower.stmts]
    exact pure _
  | s :: ss => by
    have hs : Mirrors fresh env _ _ := stmt hd s
    have hss : Mirrors fresh env _ _ := stmts hd ss
    rw [Framed.stmts, Lower.stmts]
    refine (alike .isTerminated).bind fun _ => .ite ?_ (pure _)
    exact (visit s).bind fun _ => hs.bind fun _ => hss

theorem stmt (hd : framed.Mirrors fresh detour) {env : Env} :
    (s : Stmt) → Mirrors fresh env (Framed.stmt framed s) (Lower.stmt detour env s)
  | .package _ span | .imports _ span | .interface _ _ span | .template _ _ span => by
    rw [Framed.stmt, Lower.stmt]
    exact within (mark span)
  | .class_ cls => by
    rw [Framed.stmt, Lower.stmt]
    exact within (mark cls.span)
  | .method m => by
    rw [Framed.stmt, Lower.stmt]
    exact within (mark m.span)
  | .var name type? value? span => by
    rw [Framed.stmt, Lower.stmt]
    refine withinBind (mark span) fun _ => withinBind (declaredType type?) fun _ => ?_
    exact (exprIf hd value?).bind fun _ => (alike (.define _ _ _)).bind fun _ => pure _
  | .const name type? value span => by
    rw [Framed.stmt, Lower.stmt]
    refine withinBind (mark span) fun _ => withinBind (declaredType type?) fun _ => ?_
    exact (expr hd value).bind fun _ => (alike (.define _ _ _)).bind fun _ => pure _
  | .ret value? span => by
    rw [Framed.stmt, Lower.stmt]
    exact withinBind (mark span) fun _ => (exprIf hd value?).bind fun _ => leaveFunction hd _
  | .expr e => by
    rw [Framed.stmt, Lower.stmt]
    exact withinBind (mark e.span) fun _ => (expr hd e).bind fun _ => pure _
  | .block b => by
    rw [Framed.stmt, Lower.stmt]
    exact withinBind (mark b.span) fun _ => block hd b
  | .ifElse condition consequence alternative? span => by
    rw [Framed.stmt, Lower.stmt]
    exact withinBind (mark span) fun _ =>
      ifElse (expr hd condition) (block hd consequence) (stmtIf hd alternative?)
  | .whileLoop condition body span => by
    rw [Framed.stmt, Lower.stmt]
    exact withinBind (mark span) fun _ => whileLoop (expr hd condition) fun _ _ => block hd body
  | .forLoop init? condition? post? body span => by
    rw [Framed.stmt, Lower.stmt]
    exact withinBind (mark span) fun _ => forLoop (stmtIf hd init?) (testIf hd condition?)
      (stmtIf hd post?) fun _ _ => block hd body
  | .switch tag? cases default? span => by
    rw [Framed.stmt, Lower.stmt]
    exact withinBind (mark span) fun _ => switch (exprIf hd tag?)
      (fun tag? blocks => tests hd tag? cases blocks)
      (fun exit blocks hblocks => caseBodies hd exit cases blocks hblocks) (blockIf hd default?)
  | .break_ span => by
    rw [Framed.stmt, Lower.stmt]
    exact withinBind (mark span) fun _ => leaveLoop hd span
  | .continue_ span => by
    rw [Framed.stmt, Lower.stmt]
    exact withinBind (mark span) fun _ => continueLoop hd span
  | .function ⟨name, params, ret?, body, _, span⟩ => by
    rw [Framed.stmt, Lower.stmt]
    exact withinBind (mark span) fun _ => withinBind (lift _) fun sig =>
      within (nested (entry hd none body))
  | .tryCatch body catches finally? span => by
    rw [Framed.stmt, Lower.stmt]
    exact withinBind (mark span) fun _ => tryCatch (fun t => block hd body)
      (fun t exit handlers hhandlers => clauses hd exit catches handlers hhandlers)
      (rel_at (blockIf hd finally?) env)
  | .throw value span => by
    rw [Framed.stmt, Lower.stmt]
    exact withinBind (mark span) fun _ => (expr hd value).bind fun _ => alike (.throwValue _)
  | .scope body span => by
    rw [Framed.stmt, Lower.stmt]
    exact withinBind (mark span) fun _ => block hd body

theorem exprIf (hd : framed.Mirrors fresh detour) {env : Env} :
    (e? : Option Expr) → Mirrors fresh env (Framed.exprIf framed e?) (Lower.exprIf detour env e?)
  | some e => by
    rw [Framed.exprIf, Lower.exprIf]
    exact (expr hd e).map
  | none => by
    rw [Framed.exprIf, Lower.exprIf]
    exact pure _

theorem testIf (hd : framed.Mirrors fresh detour) {env : Env} :
    (e? : Option Expr) →
      Option.Rel (Mirrors fresh env) (Framed.testIf framed e?) (Lower.testIf detour env e?)
  | some e => by
    rw [Framed.testIf, Lower.testIf]
    exact .some (expr hd e)
  | none => by
    rw [Framed.testIf, Lower.testIf]
    exact .none

theorem stmtIf (hd : framed.Mirrors fresh detour) {env : Env} :
    (s? : Option Stmt) →
      Option.Rel (Mirrors fresh env) (Framed.stmtIf framed s?) (Lower.stmtIf detour env s?)
  | some s => by
    rw [Framed.stmtIf, Lower.stmtIf]
    exact .some ((visit s).bind fun _ => stmt hd s)
  | none => by
    rw [Framed.stmtIf, Lower.stmtIf]
    exact .none

theorem blockIf (hd : framed.Mirrors fresh detour) :
    (b? : Option Block) → Option.Rel (fun y x => ∀ env, Mirrors fresh env y (x env))
      (Framed.blockIf framed b?) (Lower.blockIf detour b?)
  | some b => by
    rw [Framed.blockIf, Lower.blockIf]
    exact .some fun _ => block hd b
  | none => by
    rw [Framed.blockIf, Lower.blockIf]
    exact .none

theorem caseTests (hd : framed.Mirrors fresh detour) {env : Env} (tag? : Option Operand)
    (target : Nat) : (es : List Expr) → Mirrors fresh env (Framed.caseTests framed tag? target es)
      (Lower.caseTests detour env tag? target es)
  | [] => by
    rw [Framed.caseTests, Lower.caseTests]
    exact pure _
  | e :: es => by
    rw [Framed.caseTests, Lower.caseTests]
    exact (caseTest _ (expr hd e)).bind fun _ => caseTests hd tag? target es

theorem tests (hd : framed.Mirrors fresh detour) {env : Env} (tag? : Option Operand) :
    (cs : List Case) → ∀ targets, Mirrors fresh env (Framed.tests framed tag? targets cs)
      (Lower.tests detour env tag? targets cs)
  | [] => fun targets => by
    rw [Framed.tests, Lower.tests]
    · exact pure _
    all_goals simp
  | ⟨values, _, _⟩ :: cs => fun targets => by
    cases targets with
    | nil =>
      rw [Framed.tests, Lower.tests]
      · exact pure _
      all_goals simp
    | cons target targets =>
      rw [Framed.tests, Lower.tests]
      exact (caseTests hd tag? target values).bind fun _ => tests hd tag? cs targets

/-- Each body has a block of its own, which it ends. -/
theorem caseBodies (hd : framed.Mirrors fresh detour) {env : Env} (exit : Nat) :
    (cs : List Case) → ∀ targets, (∀ b ∈ targets, fresh b) → Tracks fresh ⟨env, true⟩ ⟨env, true⟩
      (Framed.caseBodies framed exit targets cs) (Lower.caseBodies detour env exit targets cs)
  | [] => fun targets _ => by
    rw [Framed.caseBodies, Lower.caseBodies]
    · exact .pure _
    all_goals simp
  | ⟨_, body, _⟩ :: cs => fun targets htargets => by
    cases targets with
    | nil =>
      rw [Framed.caseBodies, Lower.caseBodies]
      · exact .pure _
      all_goals simp
    | cons target targets =>
      obtain ⟨htarget, htargets⟩ := List.forall_mem_cons.1 htargets
      rw [Framed.caseBodies, Lower.caseBodies]
      exact (Tracks.arm (block hd body) htarget _ _).bind fun _ =>
        caseBodies hd exit cs targets htargets

theorem clauses (hd : framed.Mirrors fresh detour) {env : Env} (exit : Nat) :
    (cs : List Catch) → ∀ handlers, (∀ b ∈ handlers, fresh b) → Tracks fresh ⟨env, true⟩ ⟨env, true⟩
      (Framed.clauses framed exit handlers cs) (Lower.clauses detour env exit handlers cs)
  | [] => fun handlers _ => by
    rw [Framed.clauses, Lower.clauses]
    · exact .pure _
    all_goals simp
  | ⟨param?, type?, body, _⟩ :: cs => fun handlers hhandlers => by
    cases handlers with
    | nil =>
      rw [Framed.clauses, Lower.clauses]
      · exact .pure _
      all_goals simp
    | cons handler handlers =>
      obtain ⟨hhandler, hhandlers⟩ := List.forall_mem_cons.1 hhandlers
      have hclause := within (k := fun env =>
        Lower.clause env param? type? (Framed.block framed body))
        (clause param? type? (block hd body : Mirrors fresh env _ _))
      rw [Framed.clauses, Lower.clauses]
      exact (Tracks.arm hclause hhandler _ _).bind fun _ => clauses hd exit cs handlers hhandlers

end

/-! ## Detours -/

theorem detourAt (fuel : Nat) : (Framed.detourAt fuel).Mirrors fresh (Lower.detourAt fuel) := by
  induction fuel with
  | zero => exact ⟨fun _ _ => (lift _).bind fun _ => pure _, fun _ _ => lift _⟩
  | succ fuel ih =>
    refine ⟨fun env e => ?_, fun env b => ?_⟩
    · exact (lift _).bind fun _ => .ite (pure _) (expr ih e)
    · exact (lift _).bind fun _ => .ite (block ih b) (pure _)

end ClassLang.Framed.Mirrors
