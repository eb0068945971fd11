import ClassLang.Proofs.Lockstep.Program
import ClassLang.Proofs.Lowering.Program

/-!
# Every instance once

An instance may be asked for any number of times: by signatures, layouts, globals and code, by other
instances, and by itself while it is made. It is recorded before anything else happens, so that every
later request finds it. An invariant of the state says this: what is being made and what is queued are
different instances, and all of them are recorded. The queue is then worked off from its start, and no
instance has a second turn.
-/

namespace ClassLang

/-- Template and type arguments that are asked for. -/
def Request.id (r : Request) : String × String := (r.template, r.key)

/-- Template and type arguments of an instance. -/
def TemplateInstance.id? (i : TemplateInstance) : Option (String × String) :=
  i.body.templateName?.map fun n => (n.name, Gen.instanceKey n.name (i.bindings.map Prod.snd))

/-- Templates are known by the names of what they declare. -/
def Catalog.NamesTemplates (c : Catalog) : Prop :=
  ∀ name t, c.templates.find? name = some t → t.body.templateName?.map Ident.name = some name

namespace Catalog

theorem NamesTemplates.add {c : Catalog} (h : c.NamesTemplates) (s : Stmt) :
    (c.add s).NamesTemplates := by
  cases s with
  | template params body span =>
    rw [Catalog.add]
    split
    next n hn =>
      intro name t ht
      rw [Table.find?_insert] at ht
      split at ht
      next hname =>
        cases ht
        rw [hn, eq_of_beq hname]
        rfl
      next => exact h name t ht
    next => exact h
  | _ => exact h

theorem namesTemplates_ofProgram (scopes : ScopeTree) (file? : Option String) (p : Program)
    (limit : Nat) :
    (ofProgram scopes file? p limit).NamesTemplates := by
  have hfold : ∀ (stmts : List Stmt) (c : Catalog), c.NamesTemplates →
      (stmts.foldl add c).NamesTemplates := by
    intro stmts
    induction stmts with
    | nil => exact fun _ h => h
    | cons s stmts ih => exact fun c h => ih _ (h.add s)
  exact hfold p.stmts _ nofun

end Catalog

/-- An instance is what the request for it asks for. -/
theorem Gen.id?_instanceOf {name : String} {t : Template} {args : List Ty}
    (hname : t.body.templateName?.map Ident.name = some name)
    (hlength : t.params.length = args.length) :
    (instanceOf name t args).id? = some (request name args).id := by
  obtain ⟨n, hn, rfl⟩ := Option.map_eq_some_iff.1 hname
  have hargs : (t.params.zip args).map Prod.snd = args :=
    List.map_snd_zip (Nat.le_of_eq hlength.symm)
  rw [TemplateInstance.id?, instanceOf, hn, hargs]
  rfl

/-! ## What is asked for and made -/

/-- No instance is recorded twice, and none that is queued or being made is so twice. -/
structure GenState.Unique (making : List Request) (g : GenState) : Prop where
  requests : (g.requests.map Request.id).Nodup
  made : (making.map (fun r => some r.id) ++ g.queue.map TemplateInstance.id?).Nodup
  making : ∀ r ∈ making, r ∈ g.requests
  queue : ∀ i ∈ g.queue, ∃ r ∈ g.requests, i.id? = some r.id ∧ i.symbol = r.symbol

namespace GenState.Unique

variable {making : List Request} {g : GenState} {name : String} {args : List Ty}

theorem initial (file? : Option String) : (GenState.initial file?).Unique [] :=
  ⟨.nil, .nil, nofun, nofun⟩

/-- What is not known is not recorded. -/
theorem fresh (hnew : Gen.known? g name args = none) :
    ∀ r ∈ g.requests, r.id ≠ (Gen.request name args).id := by
  intro r hr heq
  have hother := List.find?_eq_none.1 hnew r hr
  simp only [Request.id, Gen.request, Prod.mk.injEq] at heq
  simp [heq] at hother

/-- A new instance is recorded and is being made from then on. -/
theorem begins (h : g.Unique making) (hnew : Gen.known? g name args = none) :
    GenState.Unique (Gen.request name args :: making)
      { g with requests := g.requests ++ [Gen.request name args] } where
  requests := by
    rw [List.map_append, List.map_singleton]
    refine List.nodup_append.2 ⟨h.requests, List.nodup_singleton _, fun id hid id' hid' => ?_⟩
    obtain ⟨r, hr, rfl⟩ := List.mem_map.1 hid
    rw [List.mem_singleton.1 hid']
    exact fresh hnew r hr
  made := by
    refine List.nodup_cons.2 ⟨fun hmem => ?_, h.made⟩
    rcases List.mem_append.1 hmem with hmem | hmem
    · obtain ⟨r, hr, heq⟩ := List.mem_map.1 hmem
      exact fresh hnew r (h.making r hr) (Option.some.inj heq)
    · obtain ⟨i, hi, heq⟩ := List.mem_map.1 hmem
      obtain ⟨r, hr, hid, _⟩ := h.queue i hi
      exact fresh hnew r hr (Option.some.inj (hid.symm.trans heq))
  making := by
    refine List.forall_mem_cons.2 ⟨by simp, fun r hr => ?_⟩
    exact List.mem_append_left _ (h.making r hr)
  queue i hi :=
    have ⟨r, hr, hid⟩ := h.queue i hi
    ⟨r, List.mem_append_left _ hr, hid⟩

/-- An instance that was being made is queued. -/
theorem ends {r : Request} {i : TemplateInstance} (h : g.Unique (r :: making))
    (hid : i.id? = some r.id) (hsymbol : i.symbol = r.symbol) :
    GenState.Unique making { g with queue := g.queue ++ [i] } where
  requests := h.requests
  made := by
    have hperm : (making.map (fun r => some r.id) ++ (g.queue ++ [i]).map TemplateInstance.id?).Perm
        ((r :: making).map (fun r => some r.id) ++ g.queue.map TemplateInstance.id?) := by
      rw [List.map_append, List.map_singleton, hid, ← List.append_assoc]
      exact List.perm_append_singleton _ _
    exact hperm.nodup_iff.2 h.made
  making := (List.forall_mem_cons.1 h.making).2
  queue := by
    have hr : r ∈ g.requests := (List.forall_mem_cons.1 h.making).1
    refine List.forall_mem_append.2 ⟨h.queue, List.forall_mem_singleton.2 ?_⟩
    exact ⟨r, hr, hid, hsymbol⟩

end GenState.Unique

namespace Discipline

/-- Everything is allowed, and no instance is made twice. -/
def unique (making : List Request) : Discipline :=
  ⟨fun _ => True, fun _ => True, fun _ => True, GenState.Unique making⟩

variable {making : List Request} {c : Catalog}

instance : (unique making).Ambient where
  same _ _ hrequests hqueue _ h :=
    ⟨hrequests ▸ h.requests, hqueue ▸ h.made, hrequests ▸ h.making, hqueue ▸ hrequests ▸ h.queue⟩
  report _ _ h := ⟨h.requests, h.made, h.making, h.queue⟩

theorem lawful_unique (making : List Request) (c : Catalog) : (unique making).Lawful c where
  misplaced _ _ _ h := ⟨h.requests, h.made, h.making, h.queue⟩
  visit _ h := ⟨h.requests, h.made, h.making, h.queue⟩
  addLayout _ h := ⟨h.requests, h.made, h.making, h.queue⟩
  layout _ _ _ _ _ _ := trivial
  queued _ _ := ⟨fun _ _ => ⟨trivial, trivial⟩, fun _ _ => trivial⟩
  argument _ _ _ _ := trivial
  call _ _ _ := trivial
  params _ _ _ := trivial
  declared := ⟨fun _ _ _ => trivial, fun _ _ _ _ => trivial, fun _ _ _ => trivial⟩

theorem tolerant_unique (making : List Request) : (unique making).Tolerant :=
  fun h => ⟨h.requests, h.made, h.making, h.queue⟩

/-- While an instance is made, it is one of those that are being made. -/
theorem makes_unique (hc : c.NamesTemplates) (name : String) (args : List Ty) :
    (unique making).Makes c name args (unique (Gen.request name args :: making)) where
  allows := rfl
  binds := rfl
  admits := rfl
  begins _ _ _ hnew h := GenState.Unique.begins h hnew
  ends ht hlength _ _ h := GenState.Unique.ends h (Gen.id?_instanceOf (hc name _ ht) hlength) rfl

theorem sustains_unique (hc : c.NamesTemplates) (fuel : Nat) (making : List Request) :
    (unique making).Sustains c fuel := by
  induction fuel generalizing making with
  | zero => exact .limit (tolerant_unique making)
  | succ fuel ih =>
    exact .nested (makes_unique hc) (fun _ _ => inferInstance) (fun _ _ => lawful_unique _ c)
      fun _ _ => ih _

end Discipline

theorem unique_generate (p : Program) (scopes : ScopeTree) (file? : Option String) (limit : Nat) :
    (generate p scopes file? limit).Unique [] := by
  have hc := Catalog.namesTemplates_ofProgram scopes file? p limit
  have hgoverns : (Discipline.unique []).Governs (.ofProgram scopes file? p limit) :=
    ⟨Discipline.lawful_unique _ _, Discipline.tolerant_unique _, Discipline.sustains_unique hc _ _⟩
  exact hgoverns.keeps_program (fun _ _ => trivial) (.initial file?)

/-! ## The turns of instances -/

namespace Gen

/-- Takes an instance from the queue and generates its body. -/
def generateTurn (detour : Lower.Detour) (env : Env) (i : TemplateInstance) : Gen Unit := do
  modify fun g => { g with lowered := g.lowered + 1 }
  generateInstance detour env i

/-- The instances that are generated one after the other, each with the state when its turn comes. -/
def turns (detour : Lower.Detour) (env : Env) :
    (fuel : Nat) → GenState → List (TemplateInstance × GenState)
  | 0, _ => []
  | fuel + 1, g =>
    match g.queue[g.lowered]? with
    | none => []
    | some i => (i, g) :: turns detour env fuel ((generateTurn detour env i).run g).2

variable {detour : Lower.Detour} {env : Env}

/-- Generating the instances is nothing else than to give them their turns. -/
theorem run_generateInstances (detour : Lower.Detour) (env : Env) (fuel : Nat) (g : GenState) :
    (generateInstances detour env fuel).run g = (do
      (turns detour env fuel g).forM fun t => generateTurn detour env t.1
      generateInstances detour env 0).run g := by
  induction fuel generalizing g with
  | zero => rfl
  | succ fuel ih =>
    rw [run_generateInstances_succ, turns]
    cases hi : g.queue[g.lowered]? with
    | none =>
      have hdone : ¬g.lowered < g.queue.length := Nat.not_lt.2 (List.getElem?_eq_none_iff.1 hi)
      show _ = (if g.lowered < g.queue.length then exhaust else pure () : Gen Unit).run g
      rw [if_neg hdone]
    | some i => exact ih _

/-- No place of the queue has two turns. -/
theorem sublist_turns (hdetour : Lower.Evolves.Detours detour) (fuel : Nat) (g : GenState) :
    ((turns detour env fuel g).map Prod.fst).Sublist
      (((generateInstances detour env fuel).run g).2.queue.drop g.lowered) := by
  induction fuel generalizing g with
  | zero => exact List.nil_sublist _
  | succ fuel ih =>
    rw [turns]
    cases hi : g.queue[g.lowered]? with
    | none => exact List.nil_sublist _
    | some i =>
      let g₁ := ((generateTurn detour env i).run g).2
      let g₂ := ((generateInstances detour env fuel).run g₁).2
      have hrun : ((generateInstances detour env (fuel + 1)).run g).2 = g₂ := by
        rw [run_generateInstances_succ, hi]
        rfl
      have hturn : GenState.Evolves { g with lowered := g.lowered + 1 } g₁ :=
        Evolves.generateInstance hdetour i _
      have hqueue : g.queue <+: g₂.queue :=
        hturn.queued.trans (Evolves.generateInstances hdetour fuel g₁).queued
      have hnext : g₂.queue[g.lowered]? = some i := by
        obtain ⟨hlt, rfl⟩ := List.getElem?_eq_some_iff.1 hi
        exact List.prefix_iff_getElem?.1 hqueue g.lowered hlt
      rw [hrun, List.map_cons, List.drop_eq_getElem?_toList_append, hnext]
      refine List.Sublist.cons_cons i ((ih g₁).trans ?_)
      exact List.drop_sublist_drop_left _ hturn.lowered

/-- What was queued before a turn is queued in the end. -/
theorem queue_of_mem_turns (hdetour : Lower.Evolves.Detours detour) {fuel : Nat} {g : GenState}
    {t : TemplateInstance × GenState} (ht : t ∈ turns detour env fuel g) :
    t.2.queue <+: ((generateInstances detour env fuel).run g).2.queue := by
  induction fuel generalizing g with
  | zero => cases ht
  | succ fuel ih =>
    have hevolves : Evolves (generateInstances detour env (fuel + 1)) :=
      Evolves.generateInstances hdetour _
    have hall := (hevolves g).queued
    rw [run_generateInstances_succ] at hall ⊢
    rw [turns] at ht
    cases hi : g.queue[g.lowered]? with
    | none =>
      rw [hi] at ht
      cases ht
    | some i =>
      rw [hi] at ht hall
      rcases List.mem_cons.1 ht with rfl | ht
      · exact hall
      · exact ih ht

/-- When its turn comes, an instance of a template of functions has its signature. -/
theorem signature_of_mem_turns (hdetour : Draft.SoundDetour detour) {fuel : Nat} {g : GenState}
    (hg : g.Sound) {t : TemplateInstance × GenState} (ht : t ∈ turns detour env fuel g)
    {f : Function} (hf : t.1.body = .function f) :
    (t.2.functions.find? t.1.symbol).isSome = true := by
  induction fuel generalizing g with
  | zero => cases ht
  | succ fuel ih =>
    rw [turns] at ht
    cases hi : g.queue[g.lowered]? with
    | none =>
      rw [hi] at ht
      cases ht
    | some i =>
      rw [hi] at ht
      have hbody := hg.queue i (List.mem_of_getElem? hi)
      rcases List.mem_cons.1 ht with rfl | ht
      · exact hbody f hf
      · have hnext : GenState.Sound { g with lowered := g.lowered + 1 } :=
          ⟨hg.functions, hg.globals, hg.errors, hg.queue, hg.copies⟩
        exact ih (sound_generateInstance hdetour hnext hbody) ht

theorem keeps_generateDeclared (c : Catalog) (p : Program) : Keeps (generateDeclared c p) := by
  have hdetour := Draft.soundDetour_detourAt c.limit
  refine .bind (keeps_prepare c p) fun _ => .bind (keeps_generateStart hdetour p) fun _ => ?_
  exact .forM _ fun s _ => keeps_generateStmt hdetour s

end Gen

/-- No two requests are for the same template and type arguments, and no two instances of the same
template for the same type arguments are ever queued. After the declared functions the instances get
their turns, each at most one; an instance of a template of functions has its signature by then, so
that no instance is found without one. -/
theorem instances_once (p : Program) (scopes : ScopeTree) (file? : Option String) (limit : Nat) :
    let c := Catalog.ofProgram scopes file? p limit
    let env : Env := { catalog := c }
    let detour := Lower.detourAt c.limit
    let declared := ((Gen.generateDeclared c p).run (.initial file?)).2
    let turns := Gen.turns detour env (c.limit * c.limit) declared
    let g := generate p scopes file? limit
    (g.requests.map Request.id).Nodup ∧ (g.queue.map TemplateInstance.id?).Nodup ∧
      (∀ i ∈ g.queue, ∃ r ∈ g.requests, i.id? = some r.id ∧ i.symbol = r.symbol) ∧
      g = ((do
        turns.forM fun t => Gen.generateTurn detour env t.1
        Gen.generateInstances detour env 0
        Gen.closing env : Gen Unit).run declared).2 ∧
      (turns.map Prod.fst).Sublist g.queue ∧
      (∀ t ∈ turns, t.2.queue <+: g.queue ∧
        ∀ f, t.1.body = .function f → (t.2.functions.find? t.1.symbol).isSome = true) ∧
      ∀ e ∈ g.errors, e.cause ≠ .internal "template instance without a signature" := by
  intro c env detour declared turns g
  have hunique := unique_generate p scopes file? limit
  have hsound : declared.Sound := Gen.keeps_generateDeclared c p _ (.initial file?)
  have hevolves : Lower.Evolves.Detours detour := Lower.Evolves.detourAt c.limit
  let after := ((Gen.generateInstances detour env (c.limit * c.limit)).run declared).2
  have hrun : g = ((Gen.closing env).run after).2 := by
    show ((Gen.program c p).run (.initial file?)).2 = _
    rw [Gen.program_eq_closing]
    rfl
  have hqueue : after.queue <+: g.queue := by
    rw [hrun]
    exact (Gen.Evolves.closing after).queued
  refine ⟨hunique.requests, hunique.made, hunique.queue, ?_, ?_, fun t ht => ⟨?_, fun f hf => ?_⟩,
    fun e he => (sound_generate p scopes file? limit).errors e he _⟩
  · rw [hrun]
    show ((Gen.closing env).run ((Gen.generateInstances detour env (c.limit * c.limit)).run
      declared).2).2 = _
    rw [Gen.run_generateInstances]
    rfl
  · exact ((Gen.sublist_turns hevolves _ declared).trans (List.drop_sublist _ _)).trans
      hqueue.sublist
  · exact (Gen.queue_of_mem_turns hevolves ht).trans hqueue
  · exact Gen.signature_of_mem_turns (Draft.soundDetour_detourAt c.limit) hsound ht hf

end ClassLang
