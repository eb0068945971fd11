import ClassLang.Proofs.Instances.Requests
import ClassLang.Proofs.Lockstep.Agree
import ClassLang.Proofs.Symbols.Layouts

/-!
# Types and instances in lockstep

Types are resolved, classes laid out and instances made without a look at the file that positions
refer to. Such steps keep to a discipline that is `Lawful` for the declarations of the program, as long
as templates get type arguments that the discipline admits.
-/

namespace ClassLang

/-- The catalog with another file. -/
def Catalog.withFile (c : Catalog) (file? : Option String) : Catalog := { c with file? }

namespace Gen

/-! ## Files do not matter -/

def Typing.withFile (t : Typing) (file? : Option String) : Typing :=
  { t with catalog := t.catalog.withFile file? }

section

variable (t : Typing) (file? : Option String)

mutual

theorem resolveType_withFile : (e : TypeExpr) → resolveType (t.withFile file?) e = resolveType t e
  | .named _ => rfl
  | .array element _ => by rw [resolveType, resolveType, resolveType_withFile element]
  | .map key value _ => by
    rw [resolveType, resolveType, resolveType_withFile key, resolveType_withFile value]
  | .pointer inner _ => by rw [resolveType, resolveType, resolveType_withFile inner]
  | .generic n args _ => by
    rw [resolveType, resolveType, resolveTypes_withFile args]
    rfl

theorem resolveTypes_withFile :
    (es : List TypeExpr) → resolveTypes (t.withFile file?) es = resolveTypes t es
  | [] => by rw [resolveTypes, resolveTypes]
  | e :: es => by
    rw [resolveTypes, resolveTypes, resolveType_withFile e, resolveTypes_withFile es]

end

theorem resolveOptional_withFile (missing : Ty) (e? : Option TypeExpr) :
    resolveOptional (t.withFile file?) missing e? = resolveOptional t missing e? := by
  cases e? with
  | some e => exact resolveType_withFile t file? e
  | none => rfl

theorem writtenSignature_withFile (params : List Param) (ret? : Option TypeExpr) :
    writtenSignature (t.withFile file?) params ret? = writtenSignature t params ret? := by
  simp only [writtenSignature, resolveOptional_withFile]

theorem layoutOf_withFile (name : String) (c : Class) (parent? : Option String) :
    layoutOf (t.withFile file?) name c parent? = layoutOf t name c parent? := by
  have hfield : ∀ info? f, fieldType (t.withFile file?) info? f = fieldType t info? f := by
    intro info? f
    simp only [fieldType, resolveType_withFile]
    rfl
  simp only [layoutOf, writtenSignature_withFile, hfield]
  rfl

theorem layoutClass_withFile (fuel : Nat) (waiting : List String) (name : String) :
    layoutClass (t.withFile file?) fuel waiting name = layoutClass t fuel waiting name := by
  induction fuel generalizing waiting name with
  | zero => rfl
  | succ fuel ih =>
    simp only [layoutClass, layoutOf_withFile, ih]
    rfl

theorem ensureLayout_withFile (name : String) :
    ensureLayout (t.withFile file?) name = ensureLayout t name :=
  layoutClass_withFile t file? _ _ name

theorem layoutInstance_withFile (symbol : String) (c : Class) :
    layoutInstance (t.withFile file?) symbol c = layoutInstance t symbol c := by
  simp only [layoutInstance, layoutOf_withFile, ensureLayout_withFile]

end

theorem instantiate_withFile (c : Catalog) (file? : Option String) (fuel : Nat) :
    instantiate (c.withFile file?) fuel = instantiate c fuel := by
  induction fuel with
  | zero => rfl
  | succ fuel ih =>
    funext name args
    have ht : ∀ bindings, typingAt (c.withFile file?) fuel bindings =
        (typingAt c fuel bindings).withFile file? := fun bindings => by
      rw [typingAt, ih]
      rfl
    simp only [typingAt] at ht
    simp only [instantiate, ht, writtenSignature_withFile, layoutInstance_withFile]
    rfl

theorem typing_withFile (c : Catalog) (file? : Option String) (bindings : List (String × Ty)) :
    typing (c.withFile file?) bindings = (typing c bindings).withFile file? := by
  rw [typing, instantiate_withFile]
  rfl

end Gen

/-! ## Lawful disciplines -/

/-- What holds of all values of a table, and of a new one, holds of all values with the new one. -/
theorem Table.of_find?_insert {α : Type} {t : Table α} {name : String} {a : α} {Q : α → Prop}
    (ht : ∀ {k : String} {b : α}, t.find? k = some b → Q b) (ha : Q a) {k : String} {b : α}
    (h : (t.insert name a).find? k = some b) : Q b := by
  rw [Table.find?_insert] at h
  split at h
  · cases h
    exact ha
  · exact ht h

/-- All that the declarations of a catalog demand is allowed. -/
structure Catalog.Allowed (c : Catalog) (d : Discipline) : Prop where
  classes : ∀ {name : String} {cls : Class}, c.classes.find? name = some cls → d.Allows cls.demands
  methods : ∀ m ∈ c.methods, d.Allows m.demands
  templates : ∀ {name : String} {t : Template}, c.templates.find? name = some t →
    d.Allows t.body.templateDemands

namespace Discipline

/-- The first values of the fields make no other demands than those that are allowed. -/
def AllowsFields (d : Discipline) (l : Layout) : Prop :=
  ∀ f ∈ l.fields, d.Allows (Expr.demandsIf f.default?)

/-- Names and types are such that templates may have them. -/
def AdmitsBindings (d : Discipline) (bindings : List (String × Ty)) : Prop :=
  ∀ b ∈ bindings, d.binds b.1 ∧ d.admits b.2

/-- What is asked of a discipline so that code with these declarations keeps to it, instances
apart. -/
structure Lawful (d : Discipline) (c : Catalog) : Prop where
  /-- Where a demand that makes no sense is allowed, it may be reported. -/
  misplaced : ∀ {g : GenState} {m : Demand} {e : GenError}, d.allows m → m.isPlaced = false →
    e.cause ≠ .unbounded → d.keeps g → d.keeps { g with errors := g.errors ++ [e] }
  visit : ∀ {g : GenState} {v : Visit}, d.allows (.visit v) → d.keeps g →
    d.keeps { g with visits := g.visits ++ [v] }
  addLayout : ∀ {g : GenState} {l : Layout}, d.AllowsFields l → d.keeps g →
    d.keeps { g with layouts := g.layouts.insert l.name l }
  layout : ∀ {g : GenState} {name : String} {l : Layout}, d.keeps g →
    g.layouts.find? name = some l → d.AllowsFields l
  queued : ∀ {g : GenState} {i : TemplateInstance}, d.keeps g → i ∈ g.queue →
    d.AdmitsBindings i.bindings ∧ d.Allows i.body.templateDemands
  /-- What is written as a type argument stands for a type that is admitted. -/
  argument : ∀ {g : GenState} {bindings : List (String × Ty)} {e : TypeExpr} (fuel : Nat),
    d.allows (.argument e) → d.AdmitsBindings bindings → d.keeps g →
    d.admits ((Gen.resolveType (Gen.typingAt c fuel bindings) e).run g).1
  /-- Where the type arguments of a template are to be inferred, they may be any types. -/
  call : ∀ {name : String}, d.allows (.call name) → c.templates.contains name = true →
    ∀ ty, d.admits ty
  params : ∀ {name : String} {t : Template}, c.templates.find? name = some t →
    ∀ n ∈ t.params, d.binds n
  declared : c.Allowed d

/-- While the instance of a template is made for type arguments, the invariant of `d` gives way to
that of `d'`. -/
structure Makes (c : Catalog) (name : String) (args : List Ty) (d d' : Discipline) : Prop where
  allows : d'.allows = d.allows
  binds : d'.binds = d.binds
  admits : d'.admits = d.admits
  /-- When the instance is recorded. -/
  begins : ∀ {g : GenState} {t : Template}, c.templates.find? name = some t →
    t.params.length = args.length → (∀ ty ∈ args, d.admits ty) →
    Gen.known? g name args = none → d.keeps g →
    d'.keeps { g with requests := g.requests ++ [Gen.request name args] }
  /-- When its body is queued. -/
  ends : ∀ {g : GenState} {t : Template}, c.templates.find? name = some t →
    t.params.length = args.length → d.AdmitsBindings (t.params.zip args) →
    d.Allows t.body.templateDemands → d'.keeps g →
    d.keeps { g with queue := g.queue ++ [Gen.instanceOf name t args] }

/-- Instances that are nested `fuel` deep can be made. -/
inductive Sustains (c : Catalog) : (fuel : Nat) → Discipline → Prop
  | limit {d : Discipline} : d.Tolerant → Sustains c 0 d
  | never {d : Discipline} {fuel : Nat} : (∀ g, ¬d.keeps g) → Sustains c fuel d
  | nested {d : Discipline} {d' : String → List Ty → Discipline} {fuel : Nat} :
    (∀ name args, Makes c name args d (d' name args)) → (∀ name args, (d' name args).Ambient) →
    (∀ name args, (d' name args).Lawful c) → (∀ name args, Sustains c fuel (d' name args)) →
    Sustains c (fuel + 1) d

/-- What is asked of a discipline so that whole programs with these declarations keep to it. -/
structure Governs (d : Discipline) (c : Catalog) : Prop where
  lawful : d.Lawful c
  tolerant : d.Tolerant
  sustains : d.Sustains c c.limit

/-- Instances may be made under the discipline itself. -/
theorem Sustains.of_makes {d : Discipline} [d.Ambient] {c : Catalog} (hd : d.Lawful c)
    (htolerant : d.Tolerant) (hmakes : ∀ name args, d.Makes c name args d) (fuel : Nat) :
    d.Sustains c fuel := by
  induction fuel with
  | zero => exact .limit htolerant
  | succ fuel ih => exact .nested hmakes (fun _ _ => inferInstance) (fun _ _ => hd) fun _ _ => ih

end Discipline

namespace Gen.Agree

variable {d : Discipline} [d.Ambient] {c : Catalog} {fuel : Nat} {bindings : List (String × Ty)}
  {t : Typing}

/-! ## Types -/

omit [d.Ambient] in
theorem namedType (t : Typing) (name : String) : Agrees d (Gen.namedType t name) := by
  unfold Gen.namedType
  split
  · exact pure _
  · exact (hasLayout name).bind fun _ => .ite (pure _) (.ite (pure _) (.ite (pure _) (pure _)))

theorem instanceType (t : Typing) (name : Ident) (symbol? : Option String) :
    Agrees d (Gen.instanceType t name symbol?) := by
  unfold Gen.instanceType
  split
  · exact pure _
  · exact (hasLayout _).bind fun _ => .ite (pure _) ((report rfl _).bind fun _ => pure _)

/-- Making instances keeps to the discipline. -/
def Instantiates (d : Discipline) (c : Catalog) (fuel : Nat) : Prop :=
  ∀ name args, (c.templates.contains name.name = true → ∀ ty ∈ args, d.admits ty) →
    Agrees d (Gen.instantiate c fuel name args)

/-- All that the resolution of types depends on. -/
structure Resolves (d : Discipline) (c : Catalog) (fuel : Nat) (bindings : List (String × Ty)) :
    Prop where
  lawful : d.Lawful c
  admitted : d.AdmitsBindings bindings
  instantiates : Instantiates d c fuel

set_option linter.unusedSectionVars false in
mutual

theorem resolveType (h : Resolves d c fuel bindings) :
    (e : TypeExpr) → d.Allows e.demands → Agrees d (Gen.resolveType (typingAt c fuel bindings) e)
  | .named n, _ => namedType _ n.name
  | .array element _, he => by
    rw [TypeExpr.demands] at he
    exact (resolveType h element he).bind fun _ => pure _
  | .map key value _, he => by
    rw [TypeExpr.demands, Discipline.allows_append] at he
    exact (resolveType h key he.1).bind fun _ => (resolveType h value he.2).bind fun _ => pure _
  | .pointer inner _, he => by
    rw [TypeExpr.demands] at he
    exact resolveType h inner he
  | .generic n args _, he => by
    rw [TypeExpr.demands] at he
    obtain ⟨hagrees, htypes⟩ := resolveTypes h args he
    refine hagrees.bindOf (P := fun types => ∀ ty ∈ types, d.admits ty) htypes fun types htypes => ?_
    exact (h.instantiates n types fun _ => htypes).bind fun _ => instanceType _ n _

theorem resolveTypes (h : Resolves d c fuel bindings) :
    (es : List TypeExpr) → d.Allows (TypeExpr.demandsOfArguments es) →
      Agrees d (Gen.resolveTypes (typingAt c fuel bindings) es) ∧ ∀ g, d.keeps g →
        ∀ ty ∈ ((Gen.resolveTypes (typingAt c fuel bindings) es).run g).1, d.admits ty
  | [], _ => ⟨pure [], fun _ _ _ hty => nomatch hty⟩
  | e :: es, hes => by
    rw [TypeExpr.demandsOfArguments, Discipline.allows_cons, Discipline.allows_append] at hes
    obtain ⟨hargument, he, hes⟩ := hes
    have hagrees := resolveType h e he
    obtain ⟨hrest, htypes⟩ := resolveTypes h es hes
    refine ⟨hagrees.bind fun _ => hrest.bind fun _ => pure _, fun g hg => ?_⟩
    refine List.forall_mem_cons.2 ⟨h.lawful.argument fuel hargument h.admitted hg, ?_⟩
    exact htypes _ (hagrees g g rfl hg).2.2

end

theorem resolveOptional (h : Resolves d c fuel bindings) (missing : Ty) (e? : Option TypeExpr)
    (he : d.Allows (TypeExpr.demandsIf e?)) :
    Agrees d (Gen.resolveOptional (typingAt c fuel bindings) missing e?) := by
  cases e? with
  | some e => exact resolveType h e (by simpa [TypeExpr.demandsIf] using he)
  | none => exact pure _

theorem writtenSignature (h : Resolves d c fuel bindings) (params : List Param)
    (ret? : Option TypeExpr) (hsig : d.Allows (signatureDemands params ret?)) :
    Agrees d (Gen.writtenSignature (typingAt c fuel bindings) params ret?) := by
  rw [signatureDemands, Discipline.allows_append, Discipline.allows_flatMap] at hsig
  refine (mapM params fun p hp => resolveOptional h _ _ (hsig.1 p hp)).bind fun _ => ?_
  exact (resolveOptional h _ _ hsig.2).bind fun _ => pure _

/-! ## Layouts -/

theorem fieldType (h : Resolves d c fuel bindings) (info? : Option ClassInfo) (f : Field)
    (hf : d.Allows f.demands) :
    Agrees d (Gen.fieldType (typingAt c fuel bindings) info? f) := by
  rw [Field.demands, Discipline.allows_append] at hf
  unfold Gen.fieldType
  split
  next e he => exact resolveType h e (by simpa [TypeExpr.demandsIf, he] using hf.1)
  next => exact pure _

theorem layoutOf (h : Resolves d c fuel bindings) (name : String) (cls : Class)
    (parent? : Option String) (hcls : d.Allows cls.demands) :
    Agrees d (Gen.layoutOf (typingAt c fuel bindings) name cls parent?) := by
  rw [Class.demands, Discipline.allows_append, Discipline.allows_flatMap,
    Discipline.allows_flatMap] at hcls
  have hinner : ∀ m ∈ cls.methods,
      Agrees d (Gen.writtenSignature (typingAt c fuel bindings) m.params m.ret?) := by
    intro m hm
    have hm := hcls.2 m hm
    rw [Function.demands, Discipline.allows_append] at hm
    exact writtenSignature h _ _ hm.1
  have houter : ∀ m ∈ c.methodsOf cls.name.name,
      Agrees d (Gen.writtenSignature (typingAt c fuel bindings) m.params m.ret?) := by
    intro m hm
    have hm := h.lawful.declared.methods m (List.mem_filter.1 hm).1
    rw [Method.demands, Discipline.allows_append] at hm
    exact writtenSignature h _ _ hm.1
  have hover : ∀ base?, Agrees d (Gen.layoutOver (typingAt c fuel bindings) name cls parent? base?) := by
    intro base?
    refine (mapM _ fun f hf => (fieldType h _ f (hcls.1 f hf)).bind fun _ => pure _).bind fun _ => ?_
    refine (mapM _ fun m hm => (hinner m hm).bind fun _ => pure _).bind fun _ => ?_
    exact (mapM _ fun m hm => (houter m hm).bind fun _ => pure _).bind fun _ => pure _
  rw [layoutOf_eq_bind]
  cases parent? with
  | some p => exact (layout? _).bind hover
  | none => exact (pure none).bind hover

omit [d.Ambient] in
/-- The first values of fields come from the class and from the parent's layout. -/
theorem allowsFields_layoutOf (hd : d.Lawful c) (name : String) (cls : Class)
    (parent? : Option String) (hcls : d.Allows cls.demands) (g : GenState) (hg : d.keeps g) :
    d.AllowsFields ((Gen.layoutOf t name cls parent?).run g).1 := by
  rw [Class.demands, Discipline.allows_append, Discipline.allows_flatMap] at hcls
  obtain ⟨own, hown, hfields⟩ := Gen.fields_layoutOf t name cls parent? g
  intro f hf
  rw [hfields] at hf
  rcases List.mem_append.1 hf with hf | hf
  · cases hbase : parent?.bind g.layouts.find? with
    | none =>
      rw [hbase] at hf
      cases hf
    | some base =>
      rw [hbase] at hf
      obtain ⟨p, _, hp⟩ := Option.bind_eq_some_iff.1 hbase
      exact hd.layout hg hp f hf
  · have hvalue : f.default? ∈ cls.fields.map Field.value? := by
      rw [← hown]
      exact List.mem_map_of_mem hf
    obtain ⟨f', hf', hvalue⟩ := List.mem_map.1 hvalue
    have hf' := hcls.1 f' hf'
    rw [Field.demands, Discipline.allows_append, hvalue] at hf'
    exact hf'.2

theorem recordLayout (hd : d.Lawful c) (l : Layout) (hl : d.AllowsFields l) :
    Agrees d (Gen.recordLayout l) := by
  refine .bind (changingRest (fun _ => rfl) fun _ => ⟨rfl, rfl, rfl, rfl, rfl⟩) fun _ => ?_
  exact changing (fun _ => rfl) fun _ => hd.addLayout hl

theorem layoutAndRecord (h : Resolves d c fuel bindings) (name : String) (cls : Class)
    (parent? : Option String) (hcls : d.Allows cls.demands) :
    Agrees d (Gen.layoutOf (typingAt c fuel bindings) name cls parent? >>= Gen.recordLayout) :=
  (layoutOf h name cls parent? hcls).bindOf (allowsFields_layoutOf h.lawful name cls parent? hcls)
    fun l hl => recordLayout h.lawful l hl

theorem layoutClass (h : Resolves d c fuel bindings) (depth : Nat) (waiting : List String)
    (name : String) :
    Agrees d (Gen.layoutClass (typingAt c fuel bindings) depth waiting name) := by
  induction depth generalizing waiting name with
  | zero => exact pure _
  | succ depth ih =>
    unfold Gen.layoutClass
    refine (hasLayout name).bind fun _ => .ite (pure _) ?_
    split
    · exact pure _
    next cls hcls =>
    have hown : ∀ parent?, Agrees d (do
        Gen.recordLayout (← Gen.layoutOf (typingAt c fuel bindings) name cls parent?)
        return true) := fun parent? => by
      have hboth := layoutAndRecord h name cls parent? (h.lawful.declared.classes hcls)
      have hthen := hboth.bind fun _ => pure (d := d) true
      rwa [bind_assoc] at hthen
    refine .ite ((report rfl _).bind fun _ => pure _) ?_
    split
    · exact hown none
    · refine (ih _ _).bind fun _ => .ite (hown _) (.ite (pure _) (hown _))

theorem ensureLayout (h : Resolves d c fuel bindings) (name : String) :
    Agrees d (Gen.ensureLayout (typingAt c fuel bindings) name) := layoutClass h _ _ name

theorem layoutInstance (h : Resolves d c fuel bindings) (symbol : String) (cls : Class)
    (hcls : d.Allows cls.demands) :
    Agrees d (Gen.layoutInstance (typingAt c fuel bindings) symbol cls) := by
  unfold Gen.layoutInstance
  split
  · exact (pure none).bind fun _ => layoutAndRecord h symbol cls _ hcls
  · exact (ensureLayout h _).bind fun _ => (pure _).bind fun _ => layoutAndRecord h symbol cls _ hcls

/-! ## Instances -/

theorem settleInstance (h : Resolves d c fuel bindings) (symbol : String) (body : Stmt)
    (hbody : d.Allows body.templateDemands) :
    Agrees d (Gen.settleInstance (typingAt c fuel bindings) symbol body) := by
  unfold Gen.settleInstance
  split
  · rw [Stmt.templateDemands, Function.demands, Discipline.allows_append] at hbody
    exact (writtenSignature h _ _ hbody.1).bind fun _ => setFunction _ _
  · rw [Stmt.templateDemands] at hbody
    exact layoutInstance h _ _ hbody
  · exact pure _

/-- The instance is made under another discipline, but in the end the old one holds. -/
theorem makeInstance {d d' : Discipline} [d'.Ambient] {name : String} {args : List Ty}
    (hmakes : d.Makes c name args d') (hd' : d'.Lawful c) (ih : Instantiates d' c fuel)
    {template : Template} (ht : c.templates.find? name = some template)
    (hlength : template.params.length = args.length) (hargs : ∀ ty ∈ args, d.admits ty)
    {g g' : GenState} (hg : g.bare = g'.bare) (hkeeps : d'.keeps g) :
    ((Gen.makeInstance c fuel name template args).run g).1 =
        ((Gen.makeInstance c fuel name template args).run g').1 ∧
      ((Gen.makeInstance c fuel name template args).run g).2.bare =
        ((Gen.makeInstance c fuel name template args).run g').2.bare ∧
      d.keeps ((Gen.makeInstance c fuel name template args).run g).2 := by
  have hbindings : d'.AdmitsBindings (template.params.zip args) := by
    intro b hb
    obtain ⟨hparam, harg⟩ := List.of_mem_zip hb
    exact ⟨hd'.params ht _ hparam, by rw [hmakes.admits]; exact hargs _ harg⟩
  have hbody := hd'.declared.templates ht
  let i := Gen.instanceOf name template args
  have h : Resolves d' c fuel (template.params.zip args) := ⟨hd', hbindings, ih⟩
  obtain ⟨_, hbare, hsettled⟩ :=
    settleInstance h i.symbol template.body hbody g g' hg hkeeps
  refine ⟨rfl, ?_, ?_⟩
  · exact congrArg (fun g : GenState => { g with queue := g.queue ++ [i] }) hbare
  · simp only [Discipline.AdmitsBindings, hmakes.binds, hmakes.admits] at hbindings
    simp only [Discipline.Allows, hmakes.allows] at hbody
    exact hmakes.ends ht hlength hbindings hbody hsettled

theorem instantiate {d : Discipline} (hfuel : d.Sustains c fuel) (hambient : d.Ambient)
    (hd : d.Lawful c) : Instantiates d c fuel := by
  induction hfuel with
  | limit h => exact fun _ _ _ => (exhaust h).bind fun _ => pure _
  | never h => exact fun _ _ _ g _ _ hkeeps => absurd hkeeps (h g)
  | @nested d d' fuel hmakes hambient' hd' _ ih =>
    intro name args hargs
    cases ht : c.templates.find? name.name with
    | none =>
      rw [Gen.instantiate, ht]
      exact (report rfl _).bind fun _ => pure _
    | some template =>
    have hargs := hargs (by rw [Table.contains, ht]; rfl)
    by_cases hlength : template.params.length = args.length
    · intro g g' hg hkeeps
      have hknown : known? g' name.name args = known? g name.name args :=
        (congrArg (known? · name.name args) hg.symm :)
      have herrors : g'.errors.any (·.cause == .unbounded) = g.errors.any (·.cause == .unbounded) :=
        (congrArg (fun g : GenState => g.errors.any (·.cause == .unbounded)) hg.symm :)
      rw [Gen.run_instantiate ht hlength, Gen.run_instantiate ht hlength, hknown, herrors]
      split
      · exact ⟨rfl, hg, hkeeps⟩
      next hnew =>
      split
      · exact ⟨rfl, hg, hkeeps⟩
      · have hmakes := hmakes name.name args
        have hambient' := hambient' name.name args
        have hd' := hd' name.name args
        have hbegun := hmakes.begins ht hlength hargs hnew hkeeps
        refine makeInstance hmakes hd' (ih _ _ hambient' hd') ht hlength hargs ?_ hbegun
        exact congrArg (fun g : GenState => { g with
          requests := g.requests ++ [Gen.request name.name args] }) hg
    · rw [Gen.instantiate, ht]
      dsimp only
      rw [if_pos (by simpa using hlength)]
      exact (report rfl _).bind fun _ => pure _

/-- Where types are resolved in a program. -/
theorem Resolves.ofLawful (hd : d.Lawful c) (hfuel : Discipline.Sustains c fuel d)
    (hbindings : d.AdmitsBindings bindings) : Resolves d c fuel bindings :=
  ⟨hd, hbindings, instantiate hfuel inferInstance hd⟩

end Gen.Agree

end ClassLang
