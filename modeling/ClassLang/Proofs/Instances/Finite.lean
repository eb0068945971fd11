import ClassLang.Proofs.Instances.Spelling
import Mathlib.Data.List.Nodup
import Mathlib.Data.List.Perm.Subperm
import Mathlib.Data.List.Sections

/-!
# Finitely many instances

An instance may ask for others, with type arguments that are larger than its own, so that there is no
end to it. There is an end if every written type argument is a type parameter itself or makes no use of
type parameters. Then the types that can be meant are known beforehand, and so are the instances.
-/

namespace ClassLang

/-! ## What written types can stand for -/

mutual

/-- No part of the type is one of these type parameters. -/
def TypeExpr.avoids (params : List String) : TypeExpr → Bool
  | .named n => !params.contains n.name
  | .array element _ => element.avoids params
  | .map key value _ => key.avoids params && value.avoids params
  | .pointer inner _ => inner.avoids params
  | .generic _ args _ => TypeExpr.allAvoid params args

def TypeExpr.allAvoid (params : List String) : List TypeExpr → Bool
  | [] => true
  | e :: es => e.avoids params && TypeExpr.allAvoid params es

end

mutual

/-- The types that a written type may stand for where none of its parts is a type parameter. -/
def TypeExpr.readings : TypeExpr → List Ty
  | .named n => (Ty.ofBasicName? n.name).toList ++ [.class_ n.name, .interface n.name, .unknown]
  | .array element _ => element.readings.map .array
  | .map key value _ => key.readings.flatMap fun k => value.readings.map fun v => .map k v
  | .pointer inner _ => inner.readings
  | .generic n args _ => .unknown ::
    (TypeExpr.readingsEach args).sections.map fun types =>
      .class_ (Gen.mangle (Gen.instanceKey n.name types))

def TypeExpr.readingsEach : List TypeExpr → List (List Ty)
  | [] => []
  | e :: es => e.readings :: TypeExpr.readingsEach es

end

namespace Gen

variable {c : Catalog} {fuel : Nat} {bindings : List (String × Ty)} {params : List String}

theorem recorded_resolveType (c : Catalog) (fuel : Nat) (bindings : List (String × Ty))
    (e : TypeExpr) {g : GenState} (hg : Request.Recorded g.requests) :
    Request.Recorded ((resolveType (typingAt c fuel bindings) e).run g).2.requests := by
  have h : Agree.Resolves (.ofRequests Request.Recorded) c fuel bindings :=
    .ofLawful (Discipline.lawful_ofRequests c) (Discipline.sustains_ofRequests .request c fuel)
      fun _ _ => ⟨trivial, trivial⟩
  exact (Agree.resolveType h e (fun _ _ => trivial) g g rfl hg).2.2

theorem lookup_eq_none_of_avoids (hb : ∀ b ∈ bindings, b.1 ∈ params) {n : Ident}
    (h : (TypeExpr.named n).avoids params = true) : bindings.lookup n.name = none := by
  refine List.lookup_eq_none_iff.2 fun b hmem => ?_
  have hne : n.name ≠ b.1 := by
    rintro heq
    rw [TypeExpr.avoids] at h
    simp [heq, hb b hmem] at h
  simpa using hne

theorem namedType_mem_readings {name : String} (h : bindings.lookup name = none) (g : GenState) :
    ((namedType (typingAt c fuel bindings) name).run g).1 ∈
      (Ty.ofBasicName? name).toList ++ [.class_ name, .interface name, .unknown] := by
  rw [namedType, show (typingAt c fuel bindings).bindings.lookup name = none from h]
  cases Ty.ofBasicName? name with
  | some ty => exact List.mem_append_left _ (List.mem_singleton_self ty)
  | none =>
    show ((if (c.classes.contains name || g.layouts.contains name) = true then
        pure (.class_ name)
      else if (c.scopes.interfaceInfo? name).isSome = true then pure (.interface name)
      else if (c.scopes.classInfo? name).isSome = true then pure (.class_ name)
      else pure .unknown : Gen Ty).run g).1 ∈ [.class_ name, .interface name, .unknown]
    split
    · exact List.mem_cons_self
    · split
      · exact List.mem_cons_of_mem _ List.mem_cons_self
      · split
        · exact List.mem_cons_self
        · exact List.mem_cons_of_mem _ (List.mem_cons_of_mem _ List.mem_cons_self)

/-- The class of an instance has the symbol of the instance as its name. -/
theorem instanceType_cases (t : Typing) (name : Ident) (symbol? : Option String) (g : GenState) :
    ((instanceType t name symbol?).run g).1 = .unknown ∨
      ∃ symbol, symbol? = some symbol ∧ ((instanceType t name symbol?).run g).1 = .class_ symbol := by
  cases symbol? with
  | none => exact .inl rfl
  | some symbol =>
    cases hclass : g.layouts.contains symbol || t.catalog.isClassTemplate name.name with
    | true =>
      refine .inr ⟨symbol, rfl, ?_⟩
      show ((if (g.layouts.contains symbol || t.catalog.isClassTemplate name.name) = true then
        pure (.class_ symbol) else _ : Gen Ty).run g).1 = _
      rw [if_pos hclass]
      rfl
    | false =>
      left
      show ((if (g.layouts.contains symbol || t.catalog.isClassTemplate name.name) = true then
        pure (.class_ symbol) else _ : Gen Ty).run g).1 = _
      rw [if_neg (by simp [hclass])]
      rfl

mutual

/-- A written type stands for one of the types that it may stand for. -/
theorem mem_readings (hb : ∀ b ∈ bindings, b.1 ∈ params) :
    (e : TypeExpr) → e.avoids params = true → ∀ g : GenState, Request.Recorded g.requests →
      ((resolveType (typingAt c fuel bindings) e).run g).1 ∈ e.readings
  | .named n, he, g, _ => by
    rw [TypeExpr.readings]
    exact namedType_mem_readings (lookup_eq_none_of_avoids hb he) g
  | .array element _, he, g, hg => by
    rw [TypeExpr.avoids] at he
    rw [TypeExpr.readings, resolveType]
    exact List.mem_map_of_mem (mem_readings hb element he g hg)
  | .map key value _, he, g, hg => by
    rw [TypeExpr.avoids, Bool.and_eq_true] at he
    rw [TypeExpr.readings, resolveType]
    refine List.mem_flatMap.2 ⟨_, mem_readings hb key he.1 g hg, ?_⟩
    exact List.mem_map_of_mem (mem_readings hb value he.2 _ (recorded_resolveType _ _ _ key hg))
  | .pointer inner _, he, g, hg => by
    rw [TypeExpr.avoids] at he
    rw [TypeExpr.readings, resolveType]
    exact mem_readings hb inner he g hg
  | .generic n args _, he, g, hg => by
    rw [TypeExpr.avoids] at he
    obtain ⟨htypes, hg₁⟩ := mem_readingsEach hb args he g hg
    rw [TypeExpr.readings, resolveType]
    let r := (resolveTypes (typingAt c fuel bindings) args).run g
    let r₁ := (instantiate c fuel n r.1).run r.2
    show ((instanceType (typingAt c fuel bindings) n r₁.1).run r₁.2).1 ∈ _
    obtain hunknown | ⟨symbol, hsymbol, hclass⟩ :=
      instanceType_cases (typingAt c fuel bindings) n r₁.1 r₁.2
    · rw [hunknown]
      exact List.mem_cons_self
    · rw [hclass, (symbol_instantiate hg₁ hsymbol).1]
      exact List.mem_cons_of_mem _ (List.mem_map_of_mem (List.mem_sections.2 htypes))

theorem mem_readingsEach (hb : ∀ b ∈ bindings, b.1 ∈ params) :
    (es : List TypeExpr) → TypeExpr.allAvoid params es = true → ∀ g : GenState,
      Request.Recorded g.requests →
        List.Forall₂ (· ∈ ·) ((resolveTypes (typingAt c fuel bindings) es).run g).1
          (TypeExpr.readingsEach es) ∧
        Request.Recorded ((resolveTypes (typingAt c fuel bindings) es).run g).2.requests
  | [], _, g, hg => by
    rw [TypeExpr.readingsEach, resolveTypes]
    exact ⟨.nil, hg⟩
  | e :: es, he, g, hg => by
    rw [TypeExpr.allAvoid, Bool.and_eq_true] at he
    have hg₁ := recorded_resolveType c fuel bindings e hg
    obtain ⟨htypes, hg₂⟩ := mem_readingsEach hb es he.2 _ hg₁
    rw [TypeExpr.readingsEach, resolveTypes]
    exact ⟨.cons (mem_readings hb e he.1 g hg) htypes, hg₂⟩

end

end Gen

/-! ## The instances that can be asked for -/

/-- The types that a demand may give to a template. -/
def Demand.readings : Demand → List Ty
  | argument e => e.readings
  | _ => []

/-- The types that a program may give to templates. -/
def Program.typeArguments (p : Program) : List Ty := p.demands.flatMap Demand.readings

/-- All names of type parameters. -/
def Template.paramsOf (templates : Table Template) : List String :=
  templates.values.flatMap Template.params

/-- The requests for instances that can come up. -/
def Program.requests (p : Program) (templates : Table Template) : List Request :=
  templates.entries.flatMap fun (name, t) =>
    (List.replicate t.params.length p.typeArguments).sections.map (Gen.request name)

/-- Whether a type argument is settled: it is a type parameter itself or makes no use of type
parameters. It is not settled if it is to be inferred. -/
def Demand.isSettled (templates : Table Template) : Demand → Bool
  | argument (.named _) => true
  | argument e => e.avoids (Template.paramsOf templates)
  | call name => !templates.contains name
  | _ => true

/-- All type arguments of a program are settled. -/
def Program.Settled (p : Program) (templates : Table Template) : Prop :=
  ∀ m ∈ p.demands, m.isSettled templates = true

theorem Program.mem_requests {p : Program} {templates : Table Template} {name : String}
    {t : Template} {args : List Ty} (ht : templates.find? name = some t)
    (hlength : t.params.length = args.length) (hargs : ∀ ty ∈ args, ty ∈ p.typeArguments) :
    Gen.request name args ∈ p.requests templates := by
  have hentry : (name, t) ∈ templates.entries := by
    obtain ⟨l₁, l₂, hentries, _⟩ := List.lookup_eq_some_iff.1 ht
    rw [hentries]
    simp
  have hchosen : List.Forall₂ (· ∈ ·) args (List.replicate args.length p.typeArguments) := by
    clear hlength
    induction args with
    | nil => exact .nil
    | cons ty args ih =>
      rw [List.forall_mem_cons] at hargs
      exact .cons hargs.1 (ih hargs.2)
  refine List.mem_flatMap.2 ⟨_, hentry, List.mem_map_of_mem (List.mem_sections.2 ?_)⟩
  rwa [hlength]

/-- The state of a run that has come across nothing but what the program demands. -/
structure GenState.Within (p : Program) (templates : Table Template) (g : GenState) : Prop where
  layouts : ∀ {name : String} {l : Layout}, g.layouts.find? name = some l →
    ∀ f ∈ l.fields, ∀ m ∈ Expr.demandsIf f.default?, m ∈ p.demands
  queue : ∀ i ∈ g.queue,
    (∀ b ∈ i.bindings, b.1 ∈ Template.paramsOf templates ∧ b.2 ∈ p.typeArguments) ∧
      ∀ m ∈ i.body.templateDemands, m ∈ p.demands
  requests : ∀ r ∈ g.requests, r ∈ p.requests templates
  nodup : g.requests.Nodup

namespace GenState.Within

variable {p : Program} {templates : Table Template} {g : GenState}

theorem initial (p : Program) (templates : Table Template) (file? : Option String) :
    (GenState.initial file?).Within p templates := ⟨nofun, nofun, nofun, .nil⟩

/-- There are no more requests than can come up. -/
theorem length_requests_le (h : g.Within p templates) :
    g.requests.length ≤ (p.requests templates).length :=
  (List.subperm_of_subset h.nodup h.requests).length_le

theorem recorded (h : g.Within p templates) : Request.Recorded g.requests := by
  intro r hr
  obtain ⟨⟨name, t⟩, _, hr⟩ := List.mem_flatMap.1 (h.requests r hr)
  obtain ⟨args, _, rfl⟩ := List.mem_map.1 hr
  rfl

theorem request (h : g.Within p templates) {name : String} {t : Template} {args : List Ty}
    (ht : templates.find? name = some t) (hlength : t.params.length = args.length)
    (hargs : ∀ ty ∈ args, ty ∈ p.typeArguments) (hnew : Gen.known? g name args = none) :
    GenState.Within p templates { g with requests := g.requests ++ [Gen.request name args] } where
  layouts := h.layouts
  queue := h.queue
  requests := List.forall_mem_append.2 ⟨h.requests,
    List.forall_mem_singleton.2 (Program.mem_requests ht hlength hargs)⟩
  nodup := by
    refine List.nodup_append.2 ⟨h.nodup, List.nodup_singleton _, fun r hr r' hr' heq => ?_⟩
    have hother := List.find?_eq_none.1 hnew r hr
    rw [heq, List.mem_singleton.1 hr'] at hother
    simp [Gen.request] at hother

theorem instance_ (h : g.Within p templates) {i : TemplateInstance}
    (hbindings : ∀ b ∈ i.bindings, b.1 ∈ Template.paramsOf templates ∧ b.2 ∈ p.typeArguments)
    (hbody : ∀ m ∈ i.body.templateDemands, m ∈ p.demands) :
    GenState.Within p templates { g with queue := g.queue ++ [i] } where
  layouts := h.layouts
  queue := List.forall_mem_append.2 ⟨h.queue, List.forall_mem_singleton.2 ⟨hbindings, hbody⟩⟩
  requests := h.requests
  nodup := h.nodup

end GenState.Within

/-! ## Runs of a program -/

/-- The declarations are those of a program. -/
def Catalog.DeclaredBy (c : Catalog) (p : Program) : Prop :=
  ∀ d : Discipline, d.Allows p.demands → c.Allowed d

/-- The discipline of a program whose type arguments are settled, while `making` instances are being
made. If it is `strict`, the limit on nesting must not be met. -/
def Discipline.settled (p : Program) (templates : Table Template) (strict : Bool) (making : Nat) :
    Discipline where
  allows m := m ∈ p.demands
  binds name := name ∈ Template.paramsOf templates
  admits ty := ty ∈ p.typeArguments
  keeps g := g.Within p templates ∧ g.queue.length + making ≤ g.requests.length ∧
    (strict = true → ∀ e ∈ g.errors, e.cause ≠ .unbounded)

namespace Discipline

variable {p : Program} {templates : Table Template} {strict : Bool} {making : Nat}

theorem keeps_report {g : GenState} {e : GenError} (he : e.cause ≠ .unbounded)
    (h : (settled p templates strict making).keeps g) :
    (settled p templates strict making).keeps { g with errors := g.errors ++ [e] } := by
  refine ⟨⟨h.1.layouts, h.1.queue, h.1.requests, h.1.nodup⟩, h.2.1, fun hstrict => ?_⟩
  exact List.forall_mem_append.2 ⟨h.2.2 hstrict, List.forall_mem_singleton.2 he⟩

instance : (settled p templates strict making).Ambient where
  same := by
    rintro g g' herrors hlayouts hrequests hqueue - ⟨hwithin, hlength, hstrict⟩
    refine ⟨⟨?_, ?_, ?_, ?_⟩, ?_, ?_⟩
    · rw [hlayouts]; exact hwithin.layouts
    · rw [hqueue]; exact hwithin.queue
    · rw [hrequests]; exact hwithin.requests
    · rw [hrequests]; exact hwithin.nodup
    · rwa [hqueue, hrequests]
    · rwa [herrors]
  report e hcause := keeps_report fun heq => by rw [heq] at hcause; cases hcause

theorem lawful_settled {c : Catalog} (hp : p.Settled c.templates)
    (hc : c.DeclaredBy p) : (settled p c.templates strict making).Lawful c where
  misplaced _ _ hcause := keeps_report hcause
  visit _ h := ⟨⟨h.1.layouts, h.1.queue, h.1.requests, h.1.nodup⟩, h.2⟩
  addLayout hl h := ⟨{ h.1 with layouts := Table.of_find?_insert h.1.layouts hl }, h.2⟩
  layout h hfind := h.1.layouts hfind
  queued h hi := h.1.queue _ hi
  argument := by
    intro g bindings e fuel he hbindings hg
    by_cases hname : ∃ n, e = .named n
    · obtain ⟨n, rfl⟩ := hname
      cases hbound : bindings.lookup n.name with
      | some ty =>
        rw [Gen.resolveType, Gen.namedType,
          show (Gen.typingAt c fuel bindings).bindings.lookup n.name = some ty from hbound]
        obtain ⟨l₁, l₂, rfl, _⟩ := List.lookup_eq_some_iff.1 hbound
        exact (hbindings (n.name, ty) (by simp)).2
      | none =>
        refine List.mem_flatMap.2 ⟨_, he, ?_⟩
        rw [Demand.readings, TypeExpr.readings]
        exact Gen.namedType_mem_readings hbound g
    · have havoids := hp _ he
      rw [Demand.isSettled] at havoids
      · refine List.mem_flatMap.2 ⟨_, he, ?_⟩
        exact Gen.mem_readings (fun b hb => (hbindings b hb).1) e havoids g hg.1.recorded
      · exact fun n hn => hname ⟨n, hn⟩
  call hcall htemplate := by
    have hsettled := hp _ hcall
    rw [Demand.isSettled, htemplate] at hsettled
    cases hsettled
  params ht n hn := List.mem_flatMap.2 ⟨_, Table.mem_values_of_find? ht, hn⟩
  declared := hc _ fun _ hm => hm

theorem makes_settled {c : Catalog} (name : String) (args : List Ty) :
    (settled p c.templates strict making).Makes c name args
      (settled p c.templates strict (making + 1)) where
  allows := rfl
  binds := rfl
  admits := rfl
  begins := by
    intro g t ht hlength hargs hnew h
    refine ⟨h.1.request ht hlength hargs hnew, ?_, h.2.2⟩
    have := h.2.1
    simp only [List.length_append, List.length_singleton]
    omega
  ends := by
    intro g t _ _ hbindings hbody h
    refine ⟨h.1.instance_ hbindings hbody, ?_, h.2.2⟩
    have := h.2.1
    simp only [List.length_append, List.length_singleton]
    omega

/-- If the limit may be met, instances may be nested in any way. -/
theorem sustains_settled {c : Catalog} (hp : p.Settled c.templates)
    (hc : c.DeclaredBy p) (fuel making : Nat) :
    (settled p c.templates false making).Sustains c fuel := by
  induction fuel generalizing making with
  | zero =>
    refine .limit fun h => ⟨⟨h.1.layouts, h.1.queue, h.1.requests, h.1.nodup⟩, h.2.1, nofun⟩
  | succ fuel ih =>
    exact .nested makes_settled (fun _ _ => inferInstance) (fun _ _ => lawful_settled hp hc)
      fun _ _ => ih (making + 1)

/-- Instances are never nested so deep as there are requests that can come up. -/
theorem sustains_strict {c : Catalog} (hp : p.Settled c.templates)
    (hc : c.DeclaredBy p) (fuel making : Nat)
    (h : (p.requests c.templates).length < fuel + making) :
    (settled p c.templates true making).Sustains c fuel := by
  induction fuel generalizing making with
  | zero =>
    refine .never fun g hg => ?_
    have := hg.1.length_requests_le
    have := hg.2.1
    omega
  | succ fuel ih =>
    refine .nested makes_settled (fun _ _ => inferInstance) (fun _ _ => lawful_settled hp hc)
      fun _ _ => ih (making + 1) ?_
    omega

end Discipline

/-- If no more than `bound` instances are ever queued, none is left after `bound` rounds. -/
theorem Gen.drains {d : Discipline} [d.Ambient] {c : Catalog} {detour : Lower.Detour} {env : Env}
    (h : Lower.Lockstep d c c.file? detour detour false false env)
    (hdetour : Lower.Evolves.Detours detour) {bound : Nat}
    (hbound : ∀ g, d.keeps g → g.queue.length ≤ bound) {fuel : Nat} {g : GenState}
    (hg : d.keeps g) (hfuel : bound ≤ fuel + g.lowered) :
    ((generateInstances detour env fuel).run g).2.queue.length ≤
      ((generateInstances detour env fuel).run g).2.lowered := by
  induction fuel generalizing g with
  | zero =>
    have hle : ¬g.lowered < g.queue.length := by
      have := hbound g hg
      omega
    show ((if g.lowered < g.queue.length then exhaust else pure () : Gen Unit).run g).2.queue.length ≤
      ((if g.lowered < g.queue.length then exhaust else pure () : Gen Unit).run g).2.lowered
    rw [if_neg hle]
    exact Nat.le_of_not_lt hle
  | succ fuel ih =>
    rw [run_generateInstances_succ]
    cases hnext : g.queue[g.lowered]? with
    | none => exact List.getElem?_eq_none_iff.1 hnext
    | some i =>
      obtain ⟨hbindings, hbody⟩ := h.lawful.queued hg (List.mem_of_getElem? hnext)
      let g₁ : GenState := { g with lowered := g.lowered + 1 }
      let g₂ := ((generateInstance detour env i).run g₁).2
      have hg₁ : d.keeps g₁ := Discipline.Ambient.same (g := g) rfl rfl rfl rfl rfl hg
      have hg₂ : d.keeps g₂ := (Agree.generateInstance h i hbindings hbody g₁ g₁ rfl hg₁).2.2
      have hlowered : g.lowered + 1 ≤ g₂.lowered := (Evolves.generateInstance hdetour i g₁).lowered
      have hfuel₂ : bound ≤ fuel + g₂.lowered := by omega
      exact ih hg₂ hfuel₂

/-- The end of a program does not ask for instances. -/
theorem Gen.queue_closing (env : Env) (g : GenState) :
    ((closing env).run g).2.queue.length = g.queue.length := by
  let d : Discipline := ⟨fun _ => True, fun _ => True, fun _ => True,
    fun s => s.queue.length = g.queue.length⟩
  have hd : d.Ambient :=
    ⟨fun _ _ _ hqueue _ h => (congrArg List.length hqueue).trans h, fun _ _ h => h⟩
  have hclosing : Agree d (closing env) (closing (env.withFile none)) := Agree.closing
  exact (hclosing g g rfl rfl).2.2

section

variable {p : Program} {c : Catalog}

/-- No more instances are asked for than can come up, and none is left waiting. -/
theorem Gen.settles_program (hp : p.Settled c.templates) (hc : c.DeclaredBy p)
    (hlimit : (p.requests c.templates).length < c.limit) (file? : Option String) :
    let g := ((program c p).run (.initial file?)).2
    g.Within p c.templates ∧ g.queue.length ≤ g.lowered := by
  let d := Discipline.settled p c.templates false 0
  have hlawful : d.Lawful c := Discipline.lawful_settled hp hc
  have htolerant : d.Tolerant :=
    fun h => ⟨⟨h.1.layouts, h.1.queue, h.1.requests, h.1.nodup⟩, h.2.1, nofun⟩
  have hgoverns : d.Governs c := ⟨hlawful, htolerant, Discipline.sustains_settled hp hc _ 0⟩
  have hallows : d.Allows p.demands := fun _ hm => hm
  have hinitial : d.keeps (.initial file?) := ⟨.initial p c.templates file?, Nat.le_refl 0, nofun⟩
  refine ⟨(hgoverns.keeps_program hallows hinitial).1, ?_⟩
  -- The instances are generated in between, and only this adds to the queue.
  let g₁ := ((generateDeclared c p).run (.initial file?)).2
  have hg₁ : d.keeps g₁ :=
    (Agree.generateDeclared hgoverns p hallows c.file? _ (.initial file?) rfl hinitial).2.2
  let g₂ := ((generateInstances (Lower.detourAt c.limit) { catalog := c } (c.limit * c.limit)).run
    g₁).2
  have hbound : ∀ g, d.keeps g → g.queue.length ≤ (p.requests c.templates).length :=
    fun g hg => Nat.le_trans hg.2.1 hg.1.length_requests_le
  have hdrained : g₂.queue.length ≤ g₂.lowered := by
    refine drains (Agree.lockstep hgoverns c.file?) (Lower.Evolves.detourAt _) hbound hg₁ ?_
    have : c.limit ≤ c.limit * c.limit := Nat.le_mul_self _
    omega
  rw [program_eq_closing]
  show ((closing { catalog := c }).run g₂).2.queue.length ≤ ((closing { catalog := c }).run g₂).2.lowered
  rw [queue_closing]
  exact Nat.le_trans hdrained (Evolves.closing g₂).lowered

/-- While an instance is made, the limit on nesting is not met. -/
theorem Gen.settles_instantiate (hp : p.Settled c.templates) (hc : c.DeclaredBy p) {fuel : Nat}
    (hfuel : (p.requests c.templates).length < fuel) {g : GenState} (hg : g.Within p c.templates)
    (hqueue : g.queue.length ≤ g.requests.length) (herrors : ∀ e ∈ g.errors, e.cause ≠ .unbounded)
    (name : Ident) {args : List Ty} (hargs : ∀ ty ∈ args, ty ∈ p.typeArguments) :
    ∀ e ∈ ((instantiate c fuel name args).run g).2.errors, e.cause ≠ .unbounded := by
  let d := Discipline.settled p c.templates true 0
  have hsustains : d.Sustains c fuel := Discipline.sustains_strict hp hc fuel 0 hfuel
  have hmake := Agree.instantiate hsustains inferInstance (Discipline.lawful_settled hp hc)
  exact (hmake name args (fun _ => hargs) g g rfl ⟨hg, hqueue, fun _ => herrors⟩).2.2.2.2 rfl

end

/-- The catalog with another limit on nesting. -/
def Catalog.withLimit (c : Catalog) (limit : Nat) : Catalog := { c with limit }

theorem Catalog.declaredBy_ofProgram (scopes : ScopeTree) (file? : Option String) (p : Program)
    (limit : Nat) : ((ofProgram scopes file? p).withLimit limit).DeclaredBy p := by
  intro d hd
  have h := Catalog.allowed_ofProgram hd scopes file? 1000
  exact ⟨h.classes, h.methods, h.templates⟩

/-- If all type arguments of a program are settled, it asks for no more instances than can come up, and
none is left waiting in the end, whatever the limit on nesting is beyond that. The limit is not met
when an instance is made, in any state that has come across nothing but what the program demands. -/
theorem finite_instances (p : Program) (scopes : ScopeTree) (file? : Option String)
    (h : p.Settled (Catalog.ofProgram scopes file? p).templates) :
    let bound := (p.requests (Catalog.ofProgram scopes file? p).templates).length
    ∀ limit > bound,
      let c := (Catalog.ofProgram scopes file? p).withLimit limit
      let g := ((Gen.program c p).run (.initial file?)).2
      g.requests.length ≤ bound ∧ g.queue.length ≤ g.lowered ∧ g.Within p c.templates ∧
        ∀ (s : GenState) (name : Ident) (args : List Ty), s.Within p c.templates →
          s.queue.length ≤ s.requests.length → (∀ e ∈ s.errors, e.cause ≠ .unbounded) →
          (∀ ty ∈ args, ty ∈ p.typeArguments) →
          ∀ e ∈ ((Gen.instantiate c limit name args).run s).2.errors, e.cause ≠ .unbounded := by
  intro bound limit hlimit c g
  have hc : c.DeclaredBy p := Catalog.declaredBy_ofProgram scopes file? p limit
  obtain ⟨hwithin, hdrained⟩ := Gen.settles_program (c := c) h hc hlimit file?
  refine ⟨hwithin.length_requests_le, hdrained, hwithin, ?_⟩
  intro s name args hs hqueue herrors hargs
  exact Gen.settles_instantiate (c := c) h hc hlimit hs hqueue herrors name hargs

/-- A template of lists, where each list refers to another list of the same type, and one list of
lists. -/
def lists : Program :=
  let field (name : String) (type : TypeExpr) : Member :=
    .field ⟨⟨name, {}⟩, some type, none, false, {}, {}⟩
  let listOf (type : TypeExpr) : TypeExpr := .generic ⟨"List", {}⟩ [type] {}
  let list : Class := ⟨⟨"List", {}⟩, none, [],
    [field "head" (.named ⟨"T", {}⟩), field "tail" (listOf (.named ⟨"T", {}⟩))], {}⟩
  let main : Function := ⟨⟨"main", {}⟩, [], none,
    ⟨[.expr (.new (listOf (listOf (.named ⟨"int", {}⟩))) [] {})], {}⟩, {}, {}⟩
  ⟨[.template [⟨"T", {}⟩] (.class_ list) {}, .function main], {}⟩

/-- Twelve requests can come up, and two do. -/
theorem finite_instances_lists :
    lists.Settled (Catalog.ofProgram {} none lists).templates ∧
      (lists.requests (Catalog.ofProgram {} none lists).templates).length = 12 ∧
      let c := (Catalog.ofProgram {} none lists).withLimit 13
      let g := ((Gen.program c lists).run (.initial none)).2
      g.requests.map Request.symbol = ["List_int", "List_List_int"] ∧
        g.requests.length ≤ 12 ∧ g.queue.length ≤ g.lowered := by
  have hsettled : lists.Settled (Catalog.ofProgram {} none lists).templates := by
    unfold Program.Settled
    decide +kernel
  have hbound : (lists.requests (Catalog.ofProgram {} none lists).templates).length = 12 := by
    decide +kernel
  have hlimit : 13 > (lists.requests (Catalog.ofProgram {} none lists).templates).length := by
    rw [hbound]
    decide
  obtain ⟨hrequests, hdrained, _⟩ := finite_instances lists {} none hsettled 13 hlimit
  refine ⟨hsettled, hbound, ?_, ?_, hdrained⟩
  · decide +kernel
  · rw [← hbound]
    exact hrequests

end ClassLang
