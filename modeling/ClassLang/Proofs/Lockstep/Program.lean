import ClassLang.Proofs.Evolution.Program
import ClassLang.Proofs.Lockstep.Body

/-!
# Programs in lockstep

Generating a program for one file goes in lockstep with generating it for another one, and keeps to
any discipline that is lawful for the declarations and allows what the program demands.
-/

namespace ClassLang

/-! ## Declarations -/

namespace Catalog

variable {d : Discipline}

theorem Allowed.add {c : Catalog} (h : c.Allowed d) {s : Stmt} (hs : d.Allows s.topDemands) :
    (c.add s).Allowed d := by
  cases s with
  | class_ cls =>
    refine ⟨fun {name cls'} hcls => ?_, h.methods, h.templates⟩
    rw [Catalog.add, Table.find?_insert] at hcls
    split at hcls
    · cases hcls
      exact hs
    · exact h.classes hcls
  | method m =>
    refine ⟨h.classes, fun m' hm => ?_, h.templates⟩
    rcases List.mem_append.1 hm with hm | hm
    · exact h.methods m' hm
    · cases List.mem_singleton.1 hm
      exact hs
  | template params body span =>
    rw [Catalog.add]
    cases body.templateName? with
    | none => exact h
    | some n =>
      refine ⟨h.classes, h.methods, fun {name t} ht => ?_⟩
      rw [Table.find?_insert] at ht
      split at ht
      · cases ht
        exact hs
      · exact h.templates ht
  | _ => exact h

theorem allowed_ofProgram {p : Program} (h : d.Allows p.demands) (scopes : ScopeTree)
    (file? : Option String) (limit : Nat) : (ofProgram scopes file? p limit).Allowed d := by
  rw [Program.demands, Discipline.allows_flatMap] at h
  have hfold : ∀ (stmts : List Stmt) (c : Catalog), c.Allowed d →
      (∀ s ∈ stmts, d.Allows s.topDemands) → (stmts.foldl add c).Allowed d := by
    intro stmts
    induction stmts with
    | nil => exact fun _ h _ => h
    | cons s stmts ih =>
      intro c hc hs
      obtain ⟨hs, hstmts⟩ := List.forall_mem_cons.1 hs
      exact ih _ (hc.add hs) hstmts
  exact hfold p.stmts _ ⟨nofun, nofun, nofun⟩ h

end Catalog

/-- What is generated when the next instance is taken from the queue, if one waits there. -/
def Gen.generateNext (detour : Lower.Detour) (env : Env) (fuel : Nat) :
    Option TemplateInstance → Gen Unit
  | none => return
  | some i => do
    modify fun g => { g with lowered := g.lowered + 1 }
    generateInstance detour env i
    generateInstances detour env fuel

theorem Gen.generateInstances_succ (detour : Lower.Detour) (env : Env) (fuel : Nat) :
    generateInstances detour env (fuel + 1) =
      (return (← get).queue[(← get).lowered]?) >>= generateNext detour env fuel := by
  funext g
  refine (run_generateInstances_succ detour env fuel g).trans ?_
  show _ = (generateNext detour env fuel g.queue[g.lowered]?).run g
  cases g.queue[g.lowered]? <;> rfl

namespace Gen.Agree

open Ir (Value)

variable {d : Discipline} [d.Ambient] {c : Catalog} {file? : Option String}
  {detour detour' : Lower.Detour} {env : Env}

theorem constantValue (ir : Ir.Ty) : (e : Expr) → Agrees d (Gen.constantValue ir e)
  | .string .. => .ite (.bind (.addString _) fun _ => .pure _) (.pure _)
  | .prefixed .negate right _ => by
    refine .bind (constantValue ir right) fun v? => ?_
    split <;> exact .pure _
  | .int .. | .float .. | .bool .. | .char .. | .null .. | .prefixed .not .. | .prefixed .bitNot ..
  | .ident .. | .binary .. | .postfixed .. | .assign .. | .call .. | .index .. | .member ..
  | .array .. | .hash .. | .lambda .. | .new .. | .this .. | .super .. | .templateInstance .. =>
    .pure _

section

variable (h : Lower.Lockstep d c file? detour detour' false false env)
include h

theorem writtenType (e : TypeExpr) (he : d.Allows e.demands) :
    Agree d (Gen.resolveType env.typing e) (Gen.resolveType (env.withFile file?).typing e) := by
  rw [Env.typing_withFile, Gen.resolveType_withFile, h.typing]
  exact resolveType h.resolves e he

theorem writtenHead (params : List Param) (ret? : Option TypeExpr)
    (hsig : d.Allows (signatureDemands params ret?)) :
    Agree d (Gen.writtenSignature env.typing params ret?)
      (Gen.writtenSignature (env.withFile file?).typing params ret?) := by
  rw [Env.typing_withFile, Gen.writtenSignature_withFile, h.typing]
  exact writtenSignature h.resolves params ret? hsig

theorem declareGlobal (name : String) (type? : Option TypeExpr) (value? : Option Expr)
    (htype : d.Allows (TypeExpr.demandsIf type?)) :
    Agree d (Gen.declareGlobal env name type? value?)
      (Gen.declareGlobal (env.withFile file?) name type? value?) := by
  have hrest : ∀ (ty : Ty) (init : Value), Agrees d (do
      modifyModule (·.addGlobal (.variable_ name (storageOf ty) init))
      modify fun s : GenState => { s with
        globals := s.globals.insert name ⟨.global name, ty, storageOf ty⟩ }) := fun ty init =>
    .bind (changingRest (fun _ => rfl) fun _ => ⟨rfl, rfl, rfl, rfl, rfl⟩) fun _ =>
      changingRest (fun _ => rfl) fun _ => ⟨rfl, rfl, rfl, rfl, rfl⟩
  have htype' : Agree d (Gen.globalType env name type? value?)
      (Gen.globalType (env.withFile file?) name type? value?) := by
    cases type? with
    | some e => exact writtenType h e (by simpa [TypeExpr.demandsIf] using htype)
    | none => exact pure _
  refine htype'.bind fun ty => ?_
  dsimp only
  split
  · exact (pure _).bind fun init => hrest ty init
  · refine (constantValue _ _).bind fun v? => ?_
    split
    · exact (pure _).bind fun init => hrest ty init
    · refine .bind (changingRest (fun _ => rfl) fun _ => ⟨rfl, rfl, rfl, rfl, rfl⟩) fun _ => ?_
      exact (pure _).bind fun init => hrest ty init

theorem declareStmt (s : Stmt) (hs : d.Allows s.topDemands) :
    Agree d (Gen.declareStmt env s) (Gen.declareStmt (env.withFile file?) s) := by
  unfold Gen.declareStmt
  split
  next f =>
    rw [Stmt.topDemands, Function.demands, Discipline.allows_append] at hs
    have hscopes : (env.withFile file?).catalog.scopes = env.catalog.scopes := rfl
    rw [hscopes]
    split
    · exact (pure _).bind fun _ => setFunction _ _
    · exact (writtenHead h _ _ hs.1).bind fun _ => setFunction _ _
  next name type? value? _ =>
    rw [Stmt.topDemands, Stmt.demands, Discipline.allows_cons, Discipline.allows_append] at hs
    · exact declareGlobal h name.name type? value? hs.2.1
    all_goals nofun
  next name type? value _ =>
    rw [Stmt.topDemands, Stmt.demands, Discipline.allows_cons, Discipline.allows_append] at hs
    · exact declareGlobal h name.name type? (some value) hs.2.1
    all_goals nofun
  next => exact pure _

/-! ## Functions and methods -/

theorem generateFunction (symbol : String) (params : List Param) (sig : Signature) (body : Block)
    (span : Span) (class? receiver? : Option String) (hbody : d.Allows (body.demands false false [])) :
    Agree d (Gen.generateFunction detour env symbol params sig body span class? receiver?)
      (Gen.generateFunction detour' (env.withFile file?) symbol params sig body span class?
        receiver?) :=
  function (Lower.Agree.entry (h.head _) receiver? body hbody)

theorem generateClass (name : String) (cls : Class) (hcls : d.Allows cls.demands) :
    Agree d (Gen.generateClass detour env name cls)
      (Gen.generateClass detour' (env.withFile file?) name cls) := by
  rw [Class.demands, Discipline.allows_append, Discipline.allows_flatMap,
    Discipline.allows_flatMap] at hcls
  have hmethods : env.catalog.methods = c.methods := by rw [h.suits.catalog]
  refine (layout? name).bind fun l? => ?_
  split
  · exact pure _
  · refine .bind (forM _ fun m hm => ?_) fun _ => forM _ fun m hm => ?_
    · have hm := hcls.2 m hm
      rw [Function.demands, Discipline.allows_append] at hm
      split
      · exact pure _
      · exact generateFunction h _ _ _ _ _ _ _ hm.2
    · have hm := h.lawful.declared.methods m (hmethods ▸ (List.mem_filter.1 hm).1)
      rw [Method.demands, Discipline.allows_append] at hm
      split
      · exact pure _
      · exact generateFunction h _ _ _ _ _ _ _ hm.2

theorem generateDetached (m : Method) (hm : d.Allows m.demands) :
    Agree d (Gen.generateDetached detour env m)
      (Gen.generateDetached detour' (env.withFile file?) m) := by
  rw [Method.demands, Discipline.allows_append] at hm
  unfold Gen.generateDetached
  split
  · exact pure _
  · refine .ite (pure _) ((writtenHead h _ _ hm.1).bind fun _ => (setFunction _ _).bind fun _ => ?_)
    exact generateFunction h _ _ _ _ _ _ _ hm.2

theorem generateStmt (s : Stmt) (hs : d.Allows s.topDemands) :
    Agree d (Gen.generateStmt detour env s) (Gen.generateStmt detour' (env.withFile file?) s) := by
  unfold Gen.generateStmt
  split
  next f =>
    rw [Stmt.topDemands, Function.demands, Discipline.allows_append] at hs
    refine (function? _).bind fun sig? => ?_
    split
    · exact (pure _).bind fun _ => generateFunction h _ _ _ _ _ _ _ hs.2
    · exact (writtenHead h _ _ hs.1).bind fun _ => generateFunction h _ _ _ _ _ _ _ hs.2
  next cls => exact generateClass h cls.name.name cls hs
  next m => exact generateDetached h m hs
  next => exact pure _

/-! ## The start of the program -/

theorem storeGlobal (name : Ident) (value : Expr) (span : Span) (hvalue : d.Allows value.demands) :
    Lower.Agree d (Gen.storeGlobal detour env name value span)
      (Gen.storeGlobal detour' (env.withFile file?) name value span) := by
  refine (Lower.Agree.mark env file? span).bind fun _ => ?_
  refine (Lower.Agree.expr h value hvalue).after fun o => ?_
  refine (Lower.Alike.looking (·.globals.find? name.name) fun _ => rfl).bind fun l? => ?_
  cases l? with
  | some l => exact .bind (.assign _ _) fun _ => .pure _
  | none => exact .pure _

theorem startStmt (s : Stmt) (hs : d.Allows (s.demands false false env.finals)) :
    Lower.Agree d (Gen.startStmt detour env s) (Gen.startStmt detour' (env.withFile file?) s) := by
  unfold Gen.startStmt
  split
  next name _ value span =>
    rw [Stmt.demands, Expr.demandsIf, Discipline.allows_append] at hs
    exact storeGlobal h name value span hs.2
  next => exact .pure _
  next name _ value span =>
    rw [Stmt.demands, Discipline.allows_append] at hs
    exact storeGlobal h name value span hs.2
  next => exact Lower.Agree.stmt h s hs

theorem startStmts (ss : List Stmt) (hss : ∀ s ∈ ss,
      d.Allows (.visit ⟨s, env.finals⟩ :: s.demands false false env.finals)) :
    Lower.Agree d (Gen.startStmts detour env ss)
      (Gen.startStmts detour' (env.withFile file?) ss) := by
  induction ss with
  | nil => exact .pure _
  | cons s ss ih =>
    obtain ⟨hs, hss⟩ := List.forall_mem_cons.1 hss
    rw [Discipline.allows_cons] at hs
    refine (Lower.Agree.visit h s hs.1).bind fun _ => (startStmt h s hs.2).bind fun _ => ?_
    exact .andThen .isTerminated fun _ => .ite (ih hss) (.pure _)

end

/-- What runs at the start demands the same on the top level as anywhere else, and its own code. -/
theorem demands_of_runsAtStart {computed : List String} {s : Stmt}
    (h : runsAtStart computed s = true) :
    s.topDemands = .visit ⟨s, []⟩ :: s.demands false false [] := by
  cases s with
  | function | method | class_ | template => cases h
  | _ => rfl

variable (h : Lower.Lockstep d c file? detour detour' false false env)
include h

theorem generateStart (p : Program) (hp : d.Allows p.demands) :
    Agree d (Gen.generateStart detour env p)
      (Gen.generateStart detour' (env.withFile file?) p) := by
  rw [Program.demands, Discipline.allows_flatMap] at hp
  refine bindState fun g g' hg => ?_
  rw [show g'.computed = g.computed from (congrArg GenState.computed hg.symm :)]
  generalize g.computed = computed
  dsimp only
  have hstmts : ∀ s ∈ p.stmts.filter (runsAtStart computed),
      d.Allows (.visit ⟨s, []⟩ :: s.demands false false []) := by
    intro s hs
    obtain ⟨hs, hruns⟩ := List.mem_filter.1 hs
    rw [← demands_of_runsAtStart hruns]
    exact hp s hs
  generalize p.stmts.filter (runsAtStart computed) = stmts at hstmts
  cases stmts with
  | nil => exact pure _
  | cons s ss =>
    let start : Lower.Head := { symbol := Lower.initName, ret := .void, span := p.span }
    refine .bind (function (h := start) (startStmts (h.head start) _ hstmts)) fun _ => ?_
    exact changingRest (fun _ => rfl) fun _ => ⟨rfl, rfl, rfl, rfl, rfl⟩

/-! ## Instances -/

theorem generateInstance (i : TemplateInstance) (hbindings : d.AdmitsBindings i.bindings)
    (hbody : d.Allows i.body.templateDemands) :
    Agree d (Gen.generateInstance detour env i)
      (Gen.generateInstance detour' (env.withFile file?) i) := by
  have hinner : Lower.Lockstep d c file? detour detour' false false
      { env with bindings := i.bindings } :=
    ⟨h.governs, h.detours, h.suits.catalog, hbindings, .nowhere _,
      h.suits.tries.mono { env with bindings := i.bindings } fun hplaces => ⟨hplaces.loop, hplaces.switch⟩⟩
  unfold Gen.generateInstance
  dsimp only
  split
  next f hf =>
    rw [hf, Stmt.templateDemands, Function.demands, Discipline.allows_append] at hbody
    refine (function? _).bind fun sig? => ?_
    split
    · exact generateFunction hinner _ _ _ _ _ _ _ hbody.2
    · exact internal _
  next cls hcls =>
    rw [hcls, Stmt.templateDemands] at hbody
    exact generateClass hinner _ _ hbody
  next => exact pure _

theorem generateInstances (fuel : Nat) :
    Agree d (Gen.generateInstances detour env fuel)
      (Gen.generateInstances detour' (env.withFile file?) fuel) := by
  induction fuel with
  | zero =>
    refine bindState fun g₁ g₁' hg₁ => bindState fun g₂ g₂' hg₂ => ?_
    rw [show g₁'.lowered = g₁.lowered from (congrArg GenState.lowered hg₁.symm :),
      show g₂'.queue = g₂.queue from (congrArg GenState.queue hg₂.symm :)]
    exact .ite (exhaust h.governs.tolerant) (pure _)
  | succ fuel ih =>
    rw [generateInstances_succ, generateInstances_succ]
    refine bindOf (P := fun i? => ∀ i, i? = some i →
        d.AdmitsBindings i.bindings ∧ d.Allows i.body.templateDemands)
      (reading (fun g => g.queue[g.lowered]?) fun _ => rfl)
      (fun g hkeeps i hi => h.lawful.queued hkeeps (List.mem_of_getElem? hi)) fun i? hi? => ?_
    cases i? with
    | none => exact pure _
    | some i =>
      obtain ⟨hbindings, hbody⟩ := hi? i rfl
      refine .bind (changingRest (fun _ => rfl) fun _ => ⟨rfl, rfl, rfl, rfl, rfl⟩) fun _ => ?_
      exact (generateInstance h i hbindings hbody).bind fun _ => ih

omit h in
theorem ensureEntry : Agree d (Gen.ensureEntry env) (Gen.ensureEntry (env.withFile file?)) := by
  refine bindState fun g g' hg => ?_
  have hmodule : g'.module.bare = g.module.bare := congrArg GenState.module hg.symm
  rw [← g'.module.hasFunction_bare, hmodule, g.module.hasFunction_bare]
  refine .ite (function (Lower.Agree.plain ?_)) (pure _)
  exact .bind .callInit fun _ => .terminate _

omit h in
theorem closing : Agree d (Gen.closing env) (Gen.closing (env.withFile file?)) := by
  have hsucceeded : Agrees d Gen.succeeded := reading (fun g => g.errors.isEmpty) fun _ => rfl
  have hflaws : Agrees d (do (← get).module.flaws.forM fun f => Gen.internal (Ir.flawText f)) :=
    bindState fun g g' hg => by
      have hmodule : g'.module.bare = g.module.bare := congrArg GenState.module hg.symm
      rw [← g'.module.flaws_bare, hmodule, g.module.flaws_bare]
      exact forM _ fun _ _ => internal _
  have hrest := hsucceeded.bind fun ok => Agree.ite (c := ok = true) hflaws (pure ())
  exact hsucceeded.bind fun _ => .ite (ensureEntry.bind fun _ => hrest) hrest

omit h in
theorem lockstep (hd : d.Governs c) (file? : Option String) :
    Lower.Lockstep d c file? (Lower.detourAt c.limit) (Lower.detourAt c.limit) false false
      { catalog := c } :=
  ⟨hd, .detourAt hd file? c.limit, rfl, nofun, .nowhere _, trivial⟩

omit h in
theorem prepare (hd : d.Governs c) (p : Program) (hp : d.Allows p.demands) :
    Agree d (Gen.prepare c p) (Gen.prepare (c.withFile file?) p) := by
  rw [Program.demands, Discipline.allows_flatMap] at hp
  have h := lockstep hd file?
  refine .bind (forM p.stmts fun s hs => declareStmt h s (hp s hs)) fun _ => forM _ fun name _ => ?_
  have htyping : ({ catalog := c.withFile file? } : Env).typing =
      ({ catalog := c } : Env).typing.withFile file? := Env.typing_withFile { catalog := c } file?
  rw [htyping, Gen.ensureLayout_withFile, h.typing]
  exact (ensureLayout h.resolves name).bind fun _ => pure _

end Gen.Agree

/-- Generates all of a program but the instances. -/
def Gen.generateDeclared (c : Catalog) (p : Program) : Gen Unit := do
  prepare c p
  generateStart (Lower.detourAt c.limit) { catalog := c } p
  p.stmts.forM (generateStmt (Lower.detourAt c.limit) { catalog := c })

theorem Gen.program_eq_closing (c : Catalog) (p : Program) : program c p = (do
    generateDeclared c p
    generateInstances (Lower.detourAt c.limit) { catalog := c } (c.limit * c.limit)
    closing { catalog := c }) := by
  simp only [generateDeclared, bind_assoc]
  rfl

namespace Gen.Agree

variable {d : Discipline} [d.Ambient] {c : Catalog}

theorem generateDeclared (hd : d.Governs c) (p : Program) (hp : d.Allows p.demands)
    (file? : Option String) :
    Agree d (Gen.generateDeclared c p) (Gen.generateDeclared (c.withFile file?) p) := by
  have hstmts := hp
  rw [Program.demands, Discipline.allows_flatMap] at hstmts
  have h := lockstep hd file?
  refine (prepare hd p hp).bind fun _ => (generateStart h p hp).bind fun _ => ?_
  exact forM _ fun s hs => generateStmt h s (hstmts s hs)

/-- Generating a program for one file goes in lockstep with generating it for another. -/
theorem program (hd : d.Governs c) (p : Program) (hp : d.Allows p.demands) (file? : Option String) :
    Agree d (Gen.program c p) (Gen.program (c.withFile file?) p) := by
  rw [program_eq_closing, program_eq_closing]
  refine (generateDeclared hd p hp file?).bind fun _ => ?_
  exact (generateInstances (lockstep hd file?) _).bind fun _ => closing

end Gen.Agree

/-- What a discipline keeps is kept while a program is generated. -/
theorem Discipline.Governs.keeps_program {d : Discipline} [d.Ambient] {c : Catalog} (hd : d.Governs c)
    {p : Program} (hp : d.Allows p.demands) {g : GenState} (hg : d.keeps g) :
    d.keeps ((Gen.program c p).run g).2 :=
  (Gen.Agree.program hd p hp c.file? g g rfl hg).2.2

/-! ## Programs without restrictions -/

/-- Everything is allowed, with an invariant of the requests for instances. -/
def Discipline.ofRequests (P : List Request → Prop) : Discipline :=
  ⟨fun _ => True, fun _ => True, fun _ => True, fun g => P g.requests⟩

section

variable {P : List Request → Prop}

instance : (Discipline.ofRequests P).Ambient where
  same _ _ hrequests _ _ h := (congrArg P hrequests).mpr h
  report _ _ h := h

theorem Discipline.lawful_ofRequests (c : Catalog) : (Discipline.ofRequests P).Lawful c where
  misplaced _ _ _ hg := hg
  visit _ hg := hg
  addLayout _ hg := hg
  layout _ _ _ _ _ _ := trivial
  queued _ _ := ⟨fun _ _ => ⟨trivial, trivial⟩, fun _ _ => trivial⟩
  argument _ _ _ _ := trivial
  call _ _ _ := trivial
  params _ _ _ := trivial
  declared := ⟨fun _ _ _ => trivial, fun _ _ _ _ => trivial, fun _ _ _ => trivial⟩

theorem Discipline.sustains_ofRequests
    (h : ∀ rs name args, P rs → P (rs ++ [Gen.request name args])) (c : Catalog) (fuel : Nat) :
    (Discipline.ofRequests P).Sustains c fuel :=
  .of_makes (lawful_ofRequests c) id
    (fun _ _ => ⟨rfl, rfl, rfl, fun _ _ _ _ hg => h _ _ _ hg, fun _ _ _ _ hg => hg⟩) fuel

theorem Discipline.governs_ofRequests
    (h : ∀ rs name args, P rs → P (rs ++ [Gen.request name args])) (c : Catalog) :
    (Discipline.ofRequests P).Governs c :=
  ⟨lawful_ofRequests c, id, sustains_ofRequests h c _⟩

/-- What holds of the requests at first and after each request holds in the end. -/
theorem requests_generate (p : Program) (scopes : ScopeTree) (file? : Option String) (limit : Nat)
    (h₀ : P []) (h : ∀ rs name args, P rs → P (rs ++ [Gen.request name args])) :
    P (generate p scopes file? limit).requests :=
  (Discipline.governs_ofRequests h _).keeps_program (fun _ _ => trivial) h₀

end

end ClassLang
