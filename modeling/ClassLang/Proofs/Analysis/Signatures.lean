import ClassLang.Gen.Program
import ClassLang.Proofs.Analysis.Declarations
import ClassLang.Proofs.Analysis.Nesting
import ClassLang.Proofs.Evolution.Ambient

/-!
# Signatures from the analysis

Code is generated for a function of the top level with the signature that analysis found for it. For
types without type arguments this is also the signature that resolving the written types again would
give, as long as the names in them still stand for what they stood for when the function was declared:
no plain symbol hides the name of an interface or a template in the end, and no class is laid out
under the name of an interface.
-/

namespace ClassLang

/-! ## Written types without type arguments -/

namespace Catalog

variable (scopes : ScopeTree) (file? : Option String) (p : Program) (limit : Nat)

theorem scopes_ofProgram : (ofProgram scopes file? p limit).scopes = scopes := by
  have hadd : ∀ (stmts : List Stmt) (c : Catalog), (stmts.foldl add c).scopes = c.scopes := by
    intro stmts
    induction stmts with
    | nil => exact fun _ => rfl
    | cons s stmts ih =>
      intro c
      refine (ih _).trans ?_
      cases s with
      | template params body span =>
        rw [add]
        cases body.templateName? <;> rfl
      | _ => rfl
  exact hadd p.stmts _

theorem contains_ofProgram (n : String) :
    (ofProgram scopes file? p limit).classes.contains n = true ↔
    ∃ c, .class_ c ∈ p.stmts ∧ c.name.name = n := by
  have hadd : ∀ (stmts : List Stmt) (c : Catalog), (stmts.foldl add c).classes.contains n = true ↔
      c.classes.contains n = true ∨ ∃ d, .class_ d ∈ stmts ∧ d.name.name = n := by
    intro stmts
    induction stmts with
    | nil => simp
    | cons s stmts ih =>
      intro c
      rw [List.foldl_cons, ih]
      cases s with
      | class_ d =>
        simp only [add, Table.contains, Table.find?_insert, List.mem_cons, Stmt.class_.injEq]
        by_cases hn : n = d.name.name
        · simp [hn]
        · have hn' : ¬ d.name.name = n := fun h => hn h.symm
          simp [hn, or_and_right, exists_or, hn']
      | template params body span =>
        rw [add]
        cases body.templateName? <;> simp
      | _ => simp [add]
  refine (hadd p.stmts _).trans (or_iff_right ?_)
  exact Bool.false_ne_true

end Catalog

/-- The type that a name stands for is read off the catalog and the layouts. -/
theorem run_namedType (typing : Gen.Typing) (n : String) (g : GenState) :
    (Gen.namedType typing n).run g =
      ((typing.bindings.lookup n <|> Ty.ofBasicName? n).getD
        (if typing.catalog.classes.contains n || g.layouts.contains n then .class_ n
          else if (typing.catalog.scopes.interfaceInfo? n).isSome then .interface n
          else if (typing.catalog.scopes.classInfo? n).isSome then .class_ n
          else .unknown), g) := by
  rw [Gen.namedType]
  cases typing.bindings.lookup n <|> Ty.ofBasicName? n with
  | some ty => rfl
  | none =>
    show StateT.run (if typing.catalog.classes.contains n || g.layouts.contains n then _ else _) g = _
    rw [Option.getD_none]
    split
    · rfl
    · split
      · rfl
      · split <;> rfl

namespace Check

variable {α β : Type} {t : ScopeTree} {g : GenState} {x : Check α} {y : Gen α}

/-- Two steps give the same if the first one reports no error. The second one changes nothing. -/
def Matches (t : ScopeTree) (g : GenState) (x : Check α) (y : Gen α) : Prop :=
  ∃ v fs, Gives x t v fs ∧ ((∀ f ∈ fs, f.isError = false) → y.run g = (v, g))

namespace Matches

theorem pure (v : α) : Matches t g (Pure.pure v) (Pure.pure v) := ⟨v, [], .pure v, fun _ => rfl⟩

theorem bind {f : α → Check β} {f' : α → Gen β} (h : Matches t g x y)
    (hf : ∀ v, Matches t g (f v) (f' v)) : Matches t g (x >>= f) (y >>= f') := by
  obtain ⟨v, fs, hx, hy⟩ := h
  obtain ⟨w, gs, hw, hw'⟩ := hf v
  refine ⟨w, fs ++ gs, hx.bind hw, fun hok => ?_⟩
  have hrun : (y >>= f').run g = (f' (y.run g).1).run (y.run g).2 := rfl
  rw [hrun, hy fun f hf => hok f (List.mem_append_left _ hf)]
  exact hw' fun f hf => hok f (List.mem_append_right _ hf)

theorem mapM {f : α → Check β} {f' : α → Gen β} (l : List α)
    (h : ∀ a ∈ l, Matches t g (f a) (f' a)) : Matches t g (l.mapM f) (l.mapM f') := by
  induction l with
  | nil => exact pure []
  | cons a l ih =>
    rw [List.mapM_cons, List.mapM_cons]
    refine bind (h a List.mem_cons_self) fun b => ?_
    exact bind (ih fun a ha => h a (List.mem_cons_of_mem _ ha)) fun bs => pure (b :: bs)

variable {typing : Gen.Typing}

/-- A name that stands for a type stands for the same type when code is generated. -/
def NameAgrees (t : ScopeTree) (typing : Gen.Typing) (g : GenState) (name : String) : Prop :=
  ∀ ty, Ty.ofBasicName? name = none → t.typeNamed? name = some ty →
    (Gen.namedType typing name).run g = (ty, g)

theorem named (hbindings : typing.bindings = []) {n : Ident} (h : NameAgrees t typing g n.name) :
    Matches t g (resolveType [] (.named n)) (Gen.namedType typing n.name) := by
  rw [resolveType_named]
  cases hbasic : Ty.ofBasicName? n.name with
  | some ty =>
    refine ⟨ty, [], .pure ty, fun _ => ?_⟩
    rw [run_namedType, hbindings, hbasic]
    rfl
  | none =>
    have hresolve : Gives (resolve n.name) t (t.resolve n.name) [] := .resolve n.name
    cases hty : t.typeNamed? n.name with
    | some ty =>
      refine ⟨ty, [] ++ [], hresolve.bind ?_, fun _ => h ty hbasic hty⟩
      rw [ScopeTree.typeNamed?] at hty
      rw [hty]
      exact .pure ty
    | none =>
      refine ⟨.unknown, [] ++ [⟨.undefinedType n.name, n.span⟩], hresolve.bind ?_, fun hok => ?_⟩
      · rw [ScopeTree.typeNamed?] at hty
        rw [hty]
        exact .undefinedType n
      · cases hok _ (List.mem_singleton_self _)

theorem resolveType (hbindings : typing.bindings = []) : (e : TypeExpr) → e.isPlain = true →
    (∀ n ∈ e.bareNames, NameAgrees t typing g n) →
      Matches t g (Check.resolveType [] e) (Gen.resolveType typing e)
  | .named n, _, h => named hbindings (h n.name List.mem_cons_self)
  | .array element _, hplain, h =>
    bind (resolveType hbindings element hplain h) fun _ => pure _
  | .map key value _, hplain, h => by
    obtain ⟨hkey, hvalue⟩ := Bool.and_eq_true_iff.1 hplain
    have hkey := resolveType hbindings key hkey fun n hn => h n (List.mem_append_left _ hn)
    have hvalue := resolveType hbindings value hvalue fun n hn => h n (List.mem_append_right _ hn)
    exact bind hkey fun _ => bind hvalue fun _ => pure _
  | .pointer inner _, hplain, h => resolveType hbindings inner hplain h

theorem resolveOptional (hbindings : typing.bindings = []) (missing : Ty) {e? : Option TypeExpr}
    (hplain : ∀ e, e? = some e → e.isPlain = true)
    (h : ∀ n ∈ TypeExpr.optionalBareNames e?, NameAgrees t typing g n) :
    Matches t g (Check.resolveOptional [] missing e?) (Gen.resolveOptional typing missing e?) := by
  cases e? with
  | some e => exact resolveType hbindings e (hplain e rfl) h
  | none => exact pure _

theorem signature (hbindings : typing.bindings = []) {params : List Param} {ret? : Option TypeExpr}
    (hparams : ∀ p ∈ params, ∀ e, p.type? = some e → e.isPlain = true)
    (hret : ∀ e, ret? = some e → e.isPlain = true)
    (h : ∀ n ∈ TypeExpr.signatureBareNames params ret?, NameAgrees t typing g n) :
    Matches t g (resolveSignature [] params ret?) (Gen.writtenSignature typing params ret?) := by
  refine bind (mapM params fun p hp => resolveOptional hbindings _ (hparams p hp) fun n hn => ?_)
    fun _ => bind (resolveOptional hbindings _ hret fun n hn => ?_) fun _ => pure _
  · exact h n (List.mem_append_left _ (List.mem_flatMap.2 ⟨p, hp, hn⟩))
  · exact h n (List.mem_append_right _ hn)

end Matches

/-! ## Declared names -/

/-- The name that a statement declares. -/
def declaredName? (s : Stmt) : Option String := (declaredSymbol? s).map Symbol.name

theorem declaredName?_eq {s : Stmt} {d : Symbol} (h : declaredSymbol? s = some d) :
    declaredName? s = some d.name := by
  rw [declaredName?, h]
  rfl

theorem isSome_classInfo? {s : Symbol} (h : s.isClassTemplate = true) :
    s.classInfo?.isSome = true := by
  rw [Symbol.classInfo?]
  cases s.class? with
  | some info => rfl
  | none => exact h

/-- A template is declared before its class is known. -/
theorem bare_of_template {s : Stmt} {d : Symbol} (h : declaredSymbol? s = some d)
    (hkind : d.kind = .template) : ¬ d.isClassTemplate = true ∧ d.interface?.isSome = false := by
  cases s with
  | template params body span =>
    obtain ⟨n, _, rfl⟩ := Option.map_eq_some_iff.1 h
    exact ⟨Bool.false_ne_true, rfl⟩
  | class_ | interface | function =>
    cases h
    cases hkind
  | _ => cases h

/-- What a list of statements declares. -/
structure Declares (a b : Analysis) (l : List Stmt) : Prop where
  top : b.scopes.AtTop
  findings : b.findings = a.findings
  nodup : (l.filterMap declaredName?).Nodup
  free : ∀ n ∈ l.filterMap declaredName?, a.scopes.taken? n = none
  mem : ∀ s ∈ l, ∀ d, declaredSymbol? s = some d →
    b.scopes.global? d.name = some { d with scope := 0 }
  other : ∀ n ∉ l.filterMap declaredName?, b.scopes.global? n = a.scopes.global? n

theorem atTop_declared {a : Analysis} (ha : a.scopes.AtTop) (s : Stmt) :
    (declared a s).scopes.AtTop := by
  cases hs : declaredSymbol? s with
  | none => rwa [declared_of_none hs]
  | some d =>
    rw [declared_of_some hs ha]
    cases a.scopes.taken? d.name with
    | some first => exact ha
    | none => exact ha.replace d

theorem atTop_foldl_declared (l : List Stmt) {a : Analysis} (ha : a.scopes.AtTop) :
    (l.foldl declared a).scopes.AtTop := by
  induction l generalizing a with
  | nil => exact ha
  | cons s l ih => exact ih (atTop_declared ha s)

/-- Where no error is reported, every name is declared once. -/
theorem declares_foldl_declared (l : List Stmt)
    (hlocated : ∀ s ∈ l, ∀ d, declaredSymbol? s = some d → d.span.line ≠ 0) {a : Analysis}
    (ha : a.scopes.AtTop) (hok : ∀ f ∈ (l.foldl declared a).findings, f.isError = false) :
    Declares a (l.foldl declared a) l := by
  induction l generalizing a with
  | nil => exact ⟨ha, rfl, .nil, (fun _ h => nomatch h), (fun _ h => nomatch h), fun _ _ => rfl⟩
  | cons s l ih =>
    have hl := fun s hs => hlocated s (List.mem_cons_of_mem _ hs)
    cases hs : declaredSymbol? s with
    | none =>
      have hname : declaredName? s = none := by rw [declaredName?, hs]; rfl
      rw [List.foldl_cons, declared_of_none hs] at hok ⊢
      have h := ih hl ha hok
      refine ⟨h.top, h.findings, ?_, ?_, fun s' hs' d hd => ?_, fun n hn => h.other n ?_⟩
      · rw [List.filterMap_cons_none hname]
        exact h.nodup
      · rw [List.filterMap_cons_none hname]
        exact h.free
      · rcases List.mem_cons.1 hs' with rfl | hs'
        · rw [hs] at hd
          cases hd
        · exact h.mem s' hs' d hd
      · rwa [List.filterMap_cons_none hname] at hn
    | some d =>
      have hname := declaredName?_eq hs
      have hdeclared := declared_of_some hs ha
      cases htaken : a.scopes.taken? d.name with
      | some first =>
        -- The name was declared before, which is an error.
        let again : Finding := ⟨.redeclared d.name first, d.span⟩
        have hagain : declared a s = { a with findings := a.findings ++ [again] } := by
          rw [hdeclared, htaken]
        rw [List.foldl_cons, hagain] at hok
        have h := ih hl (a := { a with findings := a.findings ++ [again] }) ha hok
        have herror : again ∈ (l.foldl declared { a with findings := a.findings ++ [again] }).findings := by
          rw [h.findings]
          simp
        cases hok again herror
      | none =>
        have hnew : declared a s = { a with scopes := a.scopes.replace d } := by
          rw [hdeclared, htaken]
        rw [List.foldl_cons, hnew] at hok ⊢
        have h := ih hl (a := { a with scopes := a.scopes.replace d }) (ha.replace d) hok
        have hfresh : d.name ∉ l.filterMap declaredName? := by
          intro hmem
          have hfree := h.free d.name hmem
          have hline := hlocated s List.mem_cons_self d hs
          simp [ScopeTree.taken?, ha.global?_replace, hline] at hfree
        refine ⟨h.top, h.findings, ?_, ?_, ?_, ?_⟩
        · rw [List.filterMap_cons_some hname]
          exact List.nodup_cons.2 ⟨hfresh, h.nodup⟩
        · rw [List.filterMap_cons_some hname]
          intro n hn
          rcases List.mem_cons.1 hn with rfl | hn
          · exact htaken
          · rw [← taken?_replace ha d fun heq => hfresh (heq ▸ hn)]
            exact h.free n hn
        · intro s' hs' d' hd'
          rcases List.mem_cons.1 hs' with rfl | hs'
          · rw [hs] at hd'
            cases hd'
            rw [h.other d.name hfresh]
            simp [ha.global?_replace]
          · exact h.mem s' hs' d' hd'
        · intro n hn
          rw [List.filterMap_cons_some hname, List.mem_cons, not_or] at hn
          rw [h.other n hn.2]
          simp [ha.global?_replace, hn.1]

/-! ## Filled symbols -/

/-- The symbol after some fillings. -/
def fillAll (fs : List Filling) (s : Symbol) : Symbol := fs.foldl (fun s f => f.apply s) s

/-- What filling statements in does to each name. -/
structure FillsIn (a b : Analysis) (l : List Stmt) : Prop where
  top : b.scopes.AtTop
  findings : a.findings <+: b.findings
  symbols : ∀ n, ∃ fs, b.scopes.global? n = (a.scopes.global? n).map (fillAll fs) ∧
    ∀ f ∈ fs, ∃ s ∈ l, s.Writes n f

theorem fillsIn_foldl_filled (l : List Stmt) {a : Analysis} (ha : a.scopes.AtTop) :
    FillsIn a (l.foldl filled a) l := by
  induction l generalizing a with
  | nil =>
    refine ⟨ha, List.prefix_refl _, fun n => ⟨[], ?_, (fun _ h => nomatch h)⟩⟩
    rw [List.foldl_nil]
    cases a.scopes.global? n <;> rfl
  | cons s l ih =>
    obtain ⟨change?, gs, hfills, _, hwrites⟩ := fills_of_seesSame s (Stmt.SeesSame.refl s a.scopes)
    have hfilled := filled_eq hfills
    have h := ih (a := filled a s) (by rw [hfilled]; exact ha.fill change?)
    rw [List.foldl_cons]
    refine ⟨h.top, ?_, fun n => ?_⟩
    · exact List.IsPrefix.trans (by rw [hfilled]; exact List.prefix_append _ _) h.findings
    · obtain ⟨fs, hfs, hfrom⟩ := h.symbols n
      have hfrom : ∀ f ∈ fs, ∃ u ∈ s :: l, u.Writes n f := by
        intro f hf
        obtain ⟨u, hu, hw⟩ := hfrom f hf
        exact ⟨u, List.mem_cons_of_mem _ hu, hw⟩
      have hscopes : (filled a s).scopes = a.scopes.fill change? := by rw [hfilled]
      rw [hscopes] at hfs
      match change? with
      | none => exact ⟨fs, hfs, hfrom⟩
      | some (m, f) =>
        simp only [ScopeTree.fill, ScopeTree.global?_modifyGlobal] at hfs
        split at hfs
        next hn =>
          refine ⟨f :: fs, hfs.trans (Option.map_map ..), fun f' hf' => ?_⟩
          rcases List.mem_cons.1 hf' with rfl | hf'
          · exact ⟨s, List.mem_cons_self, eq_of_beq hn ▸ hwrites m f' rfl⟩
          · exact hfrom f' hf'
        next => exact ⟨fs, hfs, hfrom⟩

section

variable {fs : List Filling}

theorem kind_fillAll (fs : List Filling) (s : Symbol) : (fillAll fs s).kind = s.kind := by
  induction fs generalizing s with
  | nil => rfl
  | cons f fs ih => exact (ih _).trans (f.kind_apply s)

theorem span_fillAll (fs : List Filling) (s : Symbol) : (fillAll fs s).span = s.span := by
  induction fs generalizing s with
  | nil => rfl
  | cons f fs ih => exact (ih _).trans (f.span_apply s)

/-- The type of a class or an interface stays what it is. -/
theorem ty_fillAll (fs : List Filling) {s : Symbol} (hkind : s.kind ≠ .function)
    (hty : ∀ n ps b, s.ty ≠ .template n ps b) : (fillAll fs s).ty = s.ty := by
  induction fs generalizing s with
  | nil => rfl
  | cons f fs ih =>
    have hf : (f.apply s).ty = s.ty := by
      cases f with
      | signature sig => rw [Filling.apply, if_neg (by simpa using hkind)]
      | template =>
        simp only [Filling.apply]
      | _ => rfl
    exact (ih (by rwa [f.kind_apply]) (by rwa [hf])).trans hf

theorem isSome_interface?_fillAll (fs : List Filling) (s : Symbol) :
    (fillAll fs s).interface?.isSome = s.interface?.isSome := by
  induction fs generalizing s with
  | nil => rfl
  | cons f fs ih =>
    refine (ih _).trans ?_
    cases f with
    | signature sig =>
      simp only [Filling.apply]
      split <;> rfl
    | interface methods => exact Option.isSome_map
    | _ => rfl

/-- Without a template among the fillings nothing changes for a template. -/
theorem template?_fillAll (h : ∀ f ∈ fs, f.isTemplate = false) (s : Symbol) :
    (fillAll fs s).template? = s.template? := by
  induction fs generalizing s with
  | nil => rfl
  | cons f fs ih =>
    refine (ih (fun f hf => h f (List.mem_cons_of_mem _ hf)) _).trans ?_
    have hf := h f List.mem_cons_self
    cases f with
    | signature sig =>
      simp only [Filling.apply]
      split <;> rfl
    | template => cases hf
    | _ => rfl

/-- Methods change nothing for a function. -/
theorem signature?_fillAll (h : ∀ f ∈ fs, f.isMethod = true) (s : Symbol) :
    (fillAll fs s).signature? = s.signature? := by
  induction fs generalizing s with
  | nil => rfl
  | cons f fs ih =>
    refine (ih (fun f hf => h f (List.mem_cons_of_mem _ hf)) _).trans ?_
    have hf := h f List.mem_cons_self
    cases f with
    | method => rfl
    | _ => cases hf

end

/-- The predeclared symbols are functions and packages. -/
theorem kind_initial {n : String} {s : Symbol} (h : Analysis.initial.scopes.global? n = some s) :
    s.kind = .function ∨ s.kind = .package := by
  have hall : (Analysis.initial.scopes.scopes.all fun scope => scope.symbols.entries.all fun e =>
      e.2.kind == .function || e.2.kind == .package) = true := by decide +kernel
  rw [ScopeTree.global?, ScopeTree.lookupIn] at h
  obtain ⟨scope, hscope, hs⟩ := Option.bind_eq_some_iff.1 h
  have hscope := List.all_eq_true.1 hall scope (List.mem_of_getElem? hscope)
  obtain ⟨_, _, hentries, _⟩ := List.lookup_eq_some_iff.1 hs
  have hentry := List.all_eq_true.1 hscope (n, s) (by rw [hentries]; simp)
  simpa using hentry

/-! ## A function among the declarations -/

/-- The state when the declarations have been collected. -/
def collected (p : Program) : Analysis := ((collectDeclarations p).run .initial).2

theorem collected_eq (p : Program) :
    collected p = p.stmts.foldl filled (p.stmts.foldl declared .initial) :=
  run_collectDeclarations p .initial

theorem nested_analyze (p : Program) (inference : Bool) :
    (collected p).Nested (fun _ => True) (analyze p inference) := by
  have hrest : Nests (fun _ => True) (do
      checkStmts { inference } p.stmts
      reportUnusedImports) := by
    refine Nests.bind (Nests.checkStmts _ _) fun _ => ?_
    exact Nests.bind (Nests.reading fun _ => rfl) fun _ => Nests.forM _ fun _ => Nests.report _ _
  exact hrest (collected p)

/-- Every declaration of the top level has a position. -/
def Located (p : Program) : Prop :=
  ∀ s ∈ p.stmts, ∀ d, declaredSymbol? s = some d → d.span.line ≠ 0

theorem atTop_initial : Analysis.initial.scopes.AtTop := ⟨by decide +kernel, by decide +kernel⟩

/-- The declarations of a program are without error. -/
structure Clean (p : Program) : Prop where
  declares : Declares .initial (p.stmts.foldl declared .initial) p.stmts
  ok : ∀ x ∈ (collected p).findings, x.isError = false

theorem clean_of_accepted {p : Program} {inference : Bool} (hlocated : Located p)
    (haccepted : (analyze p inference).hasErrors = false) : Clean p := by
  have hok : ∀ x ∈ (collected p).findings, x.isError = false := by
    intro x hx
    have hx := (nested_analyze p inference).findings.subset hx
    simpa using List.any_eq_false.1 haccepted x hx
  have htop := atTop_foldl_declared p.stmts atTop_initial
  have hfills := fillsIn_foldl_filled p.stmts htop
  rw [← collected_eq] at hfills
  refine ⟨declares_foldl_declared p.stmts hlocated atTop_initial fun x hx => ?_, hok⟩
  exact hok x (hfills.findings.subset hx)

namespace Clean

variable {p : Program} {f : Function} {before after : List Stmt} {n : String}

/-- What is known when the statements in front of a function are filled in. -/
def seen (p : Program) (before : List Stmt) : Analysis :=
  before.foldl filled (p.stmts.foldl declared .initial)

theorem fillsIn_seen (h : Clean p) (before : List Stmt) :
    FillsIn (p.stmts.foldl declared .initial) (seen p before) before :=
  fillsIn_foldl_filled before h.declares.top

theorem collected_eq_seen (hstmts : p.stmts = before ++ .function f :: after) :
    collected p = (.function f :: after).foldl filled (seen p before) := by
  rw [collected_eq, seen, ← List.foldl_append, ← hstmts]

/-- A name of the top level is predeclared, or one statement declares it. -/
theorem global?_declared (h : Clean p) {s : Symbol}
    (hs : (p.stmts.foldl declared .initial).scopes.global? n = some s) :
    s.kind = .function ∨ s.kind = .package ∨
      ∃ u ∈ p.stmts, ∃ d, declaredSymbol? u = some d ∧ d.name = n ∧ s = { d with scope := 0 } := by
  by_cases hn : n ∈ p.stmts.filterMap declaredName?
  · obtain ⟨u, hu, hname⟩ := List.mem_filterMap.1 hn
    obtain ⟨d, hd, rfl⟩ := Option.map_eq_some_iff.1 hname
    have hd' := h.declares.mem u hu d hd
    rw [hd'] at hs
    cases hs
    exact .inr (.inr ⟨u, hu, d, hd, rfl, rfl⟩)
  · rw [h.declares.other n hn] at hs
    exact (kind_initial hs).imp_right .inl

/-- Statements that do not declare a name only add methods to it. -/
theorem isMethod_of_writes {l : List Stmt} (hn : n ∉ l.filterMap declaredName?) {x : Filling}
    (hx : ∃ s ∈ l, s.Writes n x) : x.isMethod = true := by
  obtain ⟨s, hs, hmethod | ⟨d, hd, rfl, _⟩⟩ := hx
  · assumption
  · exact absurd (List.mem_filterMap.2 ⟨s, hs, declaredName?_eq hd⟩) hn

/-- The signature of a function is what its types stand for where it is declared. -/
theorem signature_collected (h : Clean p) (hstmts : p.stmts = before ++ .function f :: after) :
    ∃ sig fs s, Gives (resolveSignature [] f.params f.ret?) (seen p before).scopes sig fs ∧
      (∀ x ∈ fs, x.isError = false) ∧ (collected p).scopes.global? f.name.name = some s ∧
        s.kind = .function ∧ s.span = f.name.span ∧ s.signature? = some sig := by
  obtain ⟨sig, fs, hsig, -⟩ := alike_resolveSignature [] f.params f.ret?
    (Stmt.SeesSame.refl (.function f) (seen p before).scopes).types
  have hfills : (Stmt.function f).Fills (seen p before).scopes
    (some (f.name.name, .signature sig)) fs := hsig.fill rfl
  have hfilled := filled_eq hfills
  have hseen := h.fillsIn_seen before
  have htop : (filled (seen p before) (.function f)).scopes.AtTop := by
    rw [hfilled]
    exact hseen.top.fill (some (f.name.name, .signature sig))
  have hafter := fillsIn_foldl_filled after htop
  rw [← List.foldl_cons, ← collected_eq_seen hstmts, hfilled] at hafter
  -- The symbol as it was declared, with the fillings before, of and after the function.
  have hmem : .function f ∈ p.stmts := by
    rw [hstmts]
    exact List.mem_append_right _ List.mem_cons_self
  have hdeclared : ∃ d, (p.stmts.foldl declared .initial).scopes.global? f.name.name = some d ∧
      d.kind = .function ∧ d.span = f.name.span := ⟨_, h.declares.mem _ hmem _ rfl, rfl, rfl⟩
  obtain ⟨d, hd, hkind, hspan⟩ := hdeclared
  obtain ⟨earlier, hearlier, -⟩ := hseen.symbols f.name.name
  obtain ⟨later, hlater, hwrites⟩ := hafter.symbols f.name.name
  have hnodup := h.declares.nodup
  rw [hstmts, List.filterMap_append, List.filterMap_cons_some (declaredName?_eq rfl)] at hnodup
  have hfresh := (List.nodup_cons.1 (List.nodup_append.1 hnodup).2.1).1
  have hmethods : ∀ x ∈ later, x.isMethod = true := fun x hx =>
    isMethod_of_writes hfresh (hwrites x hx)
  rw [ScopeTree.fill, ScopeTree.global?_modifyGlobal, if_pos (beq_self_eq_true _), hearlier, hd]
    at hlater
  refine ⟨sig, fs, _, hsig, fun x hx => h.ok x (hafter.findings.subset ?_), hlater, ?_, ?_, ?_⟩
  · exact List.mem_append_right _ hx
  · rw [kind_fillAll, Filling.kind_apply, kind_fillAll, hkind]
  · rw [span_fillAll, Filling.span_apply, span_fillAll, hspan]
  · have hfunction : ((fillAll earlier d).kind == .function) = true := by
      rw [kind_fillAll, hkind]
      rfl
    rw [signature?_fillAll hmethods, Filling.apply, if_pos hfunction]
    rfl

/-- A template of classes stays one. -/
theorem isClassTemplate_collected (h : Clean p) (hstmts : p.stmts = before ++ .function f :: after)
    {s : Symbol} (hs : (seen p before).scopes.global? n = some s) (hkind : s.kind = .template)
    (hclass : s.isClassTemplate = true) :
    ∃ s', (collected p).scopes.global? n = some s' ∧ s'.isClassTemplate = true ∧
      s'.interface?.isSome = false := by
  obtain ⟨earlier, hearlier, hwrites⟩ := (h.fillsIn_seen before).symbols n
  have hrest := fillsIn_foldl_filled (.function f :: after) (h.fillsIn_seen before).top
  rw [← collected_eq_seen hstmts] at hrest
  obtain ⟨later, hlater, hwrites'⟩ := hrest.symbols n
  rw [hs] at hearlier hlater
  obtain ⟨s₀, hs₀, rfl⟩ := Option.map_eq_some_iff.1 hearlier.symm
  rw [kind_fillAll] at hkind
  obtain hfun | hpackage | ⟨u, hu, d, hd, rfl, rfl⟩ := h.global?_declared hs₀
  · rw [hkind] at hfun
    cases hfun
  · rw [hkind] at hpackage
    cases hpackage
  · obtain ⟨hbare, hinterface⟩ := bare_of_template hd hkind
    -- As the template has been filled in, its declaration is among the statements in front.
    have hfront : d.name ∈ before.filterMap declaredName? := by
      by_contra hn
      have hmethods : ∀ x ∈ earlier, x.isTemplate = false := fun x hx =>
        Filling.isTemplate_of_isMethod (isMethod_of_writes hn (hwrites x hx))
      rw [Symbol.isClassTemplate, template?_fillAll hmethods] at hclass
      exact absurd hclass hbare
    have hnodup := h.declares.nodup
    rw [hstmts, List.filterMap_append] at hnodup
    have hback := fun hn => (List.nodup_append.1 hnodup).2.2 d.name hfront d.name hn rfl
    have hmethods : ∀ x ∈ later, x.isTemplate = false := fun x hx =>
      Filling.isTemplate_of_isMethod (isMethod_of_writes hback (hwrites' x hx))
    refine ⟨_, hlater, ?_, ?_⟩
    · rwa [Symbol.isClassTemplate, template?_fillAll hmethods]
    · rw [isSome_interface?_fillAll, isSome_interface?_fillAll, hinterface]

theorem interface_collected (h : Clean p) {i : Ident} {ms : List InterfaceMethod} {span : Span}
    (hi : .interface i ms span ∈ p.stmts) :
    ∃ s, (collected p).scopes.global? i.name = some s ∧ s.interface?.isSome = true := by
  obtain ⟨fs, hfs, -⟩ := (fillsIn_foldl_filled p.stmts h.declares.top).symbols i.name
  rw [← collected_eq] at hfs
  have hdeclared := h.declares.mem _ hi _ rfl
  refine ⟨_, hfs.trans (congrArg _ hdeclared), ?_⟩
  rw [isSome_interface?_fillAll]
  rfl

/-- No class has the name of an interface. -/
theorem not_class_of_interface (h : Clean p) {i : Ident} {ms : List InterfaceMethod} {span : Span}
    (hi : .interface i ms span ∈ p.stmts) {c : Class} (hc : .class_ c ∈ p.stmts) :
    c.name.name ≠ i.name := by
  intro hname
  have hi := h.declares.mem _ hi _ rfl
  have hc := h.declares.mem _ hc _ rfl
  have hsame := hc.symm.trans ((congrArg _ hname).trans hi)
  exact nomatch congrArg (Option.map Symbol.kind) hsame

/-- What stands for a type is declared by a class, an interface or a template. -/
theorem typeNamed?_seen (h : Clean p) (before : List Stmt) {ty : Ty}
    (hty : (seen p before).scopes.typeNamed? n = some ty) :
    (ty = .class_ n ∧ ∃ c, .class_ c ∈ p.stmts ∧ c.name.name = n) ∨
      (ty = .interface n ∧ ∃ i ms span, .interface i ms span ∈ p.stmts ∧ i.name = n) ∨
        (ty = .class_ n ∧ ∃ s, (seen p before).scopes.global? n = some s ∧ s.kind = .template ∧
          s.isClassTemplate = true) := by
  rw [ScopeTree.typeNamed?, (h.fillsIn_seen before).top.resolve] at hty
  obtain ⟨s, hs, hty⟩ := Option.bind_eq_some_iff.1 hty
  obtain ⟨fs, hfs, -⟩ := (h.fillsIn_seen before).symbols n
  rw [hs] at hfs
  obtain ⟨s₀, hs₀, rfl⟩ := Option.map_eq_some_iff.1 hfs.symm
  rw [Symbol.typeNamed?, kind_fillAll] at hty
  obtain hkind | hkind | ⟨u, hu, d, hd, rfl, heq⟩ := h.global?_declared hs₀
  · rw [hkind] at hty
    cases hty
  · rw [hkind] at hty
    cases hty
  · have hdkind : s₀.kind = d.kind := by rw [heq]
    have hdty : s₀.ty = d.ty := by rw [heq]
    cases u with
    | class_ c =>
      cases hd
      rw [hdkind, ty_fillAll fs (by simp [hdkind, classSymbol]) (by simp [hdty, classSymbol]),
        hdty] at hty
      cases hty
      exact .inl ⟨rfl, c, hu, rfl⟩
    | interface i ms span =>
      cases hd
      rw [hdkind, ty_fillAll fs (by simp [hdkind]) (by simp [hdty]), hdty] at hty
      cases hty
      exact .inr (.inl ⟨rfl, i, ms, span, hu, rfl⟩)
    | template params body span =>
      obtain ⟨n, _, rfl⟩ := Option.map_eq_some_iff.1 hd
      rw [hdkind] at hty
      dsimp only at hty
      split at hty
      next hclass =>
        cases hty
        exact .inr (.inr ⟨rfl, _, hs, (kind_fillAll ..).trans hdkind, hclass⟩)
      next => cases hty
    | function f =>
      cases hd
      rw [hdkind] at hty
      cases hty
    | _ => cases hd

end Clean

/-! ## Signatures in code generation -/

variable {p : Program} {inference : Bool} {n : String}

/-- At the end of an analysis a name of the top level is what was declared, or it is hidden by
something without members. -/
theorem declared_or_hidden_analyze (h : Clean p) (inference : Bool) (n : String) :
    (analyze p inference).scopes.global? n = (collected p).scopes.global? n ∨
      ∃ s, (analyze p inference).scopes.global? n = some s ∧ s.isPlain = true ∧
        s.classInfo? = none := by
  have htop : (collected p).scopes.AtTop := by
    rw [collected_eq]
    exact (fillsIn_foldl_filled p.stmts h.declares.top).top
  obtain ⟨scope, hscope⟩ := Option.isSome_iff_exists.1 htop.root
  obtain ⟨scope', hscope', hgrows⟩ := (nested_analyze p inference).inner scope (htop.current ▸ hscope)
  rw [htop.current] at hscope'
  simp only [ScopeTree.global?, ScopeTree.lookupIn, hscope, hscope', Option.bind_some]
  exact (hgrows.symbols n).imp_right And.right

/-- At the end of an analysis a name of the top level is what was declared, or it is hidden. -/
theorem global?_analyze (h : Clean p) (inference : Bool) (n : String) :
    (analyze p inference).scopes.global? n = (collected p).scopes.global? n ∨
      ∃ s, (analyze p inference).scopes.global? n = some s ∧ s.isPlain = true :=
  (declared_or_hidden_analyze h inference n).imp_right fun ⟨s, hs, hplain, _⟩ => ⟨s, hs, hplain⟩

theorem global?_of_visible (h : Clean p) {scopes : ScopeTree}
    (hscopes : scopes = (analyze p inference).scopes)
    (hvisible : (scopes.global? n).any Symbol.isPlain = false) :
    scopes.global? n = (collected p).scopes.global? n := by
  subst hscopes
  obtain hsame | ⟨s, hs, hplain⟩ := global?_analyze h inference n
  · exact hsame
  · rw [hs, Option.any_some, hplain] at hvisible
    cases hvisible

/-- A name that generation finds as it was declared: a class, or a name that no plain symbol hides
in the end and, if it is that of an interface, without a layout of its own. -/
def Kept (catalog : Catalog) (g : GenState) (n : String) : Prop :=
  catalog.classes.contains n = true ∨
    (catalog.scopes.global? n).any Symbol.isPlain = false ∧
      ((catalog.scopes.interfaceInfo? n).isSome = true → g.layouts.contains n = false)

instance (catalog : Catalog) (g : GenState) (n : String) : Decidable (Kept catalog g n) :=
  inferInstanceAs (Decidable (_ ∨ _))

/-- Generation takes a name for the type that it stood for where a function was declared. -/
theorem nameAgrees (h : Clean p) {f : Function} {before after : List Stmt}
    (hstmts : p.stmts = before ++ .function f :: after) {file? : Option String} {limit : Nat}
    {g : GenState} (hkept : Kept (.ofProgram (analyze p inference).scopes file? p limit) g n) :
    Matches.NameAgrees (Clean.seen p before).scopes
      (Gen.typing (.ofProgram (analyze p inference).scopes file? p limit) []) g n := by
  intro ty hbasic hty
  have hscopes := Catalog.scopes_ofProgram (analyze p inference).scopes file? p limit
  have hclasses := Catalog.contains_ofProgram (analyze p inference).scopes file? p limit n
  generalize Catalog.ofProgram (analyze p inference).scopes file? p limit = catalog at *
  rw [run_namedType, hbasic]
  show (if catalog.classes.contains n || g.layouts.contains n then _ else _, g) = _
  obtain ⟨rfl, hc⟩ | ⟨rfl, i, ms, span, hi, rfl⟩ | ⟨rfl, s, hs, hkind, hclass⟩ :=
    h.typeNamed?_seen before hty
  · rw [hclasses.2 hc]
    rfl
  · have hnot : catalog.classes.contains i.name = false := by
      refine Bool.eq_false_iff.2 fun hcontains => ?_
      obtain ⟨c, hc, hname⟩ := hclasses.1 hcontains
      exact h.not_class_of_interface hi hc hname
    obtain hcontains | ⟨hvisible, hlayout⟩ := hkept
    · rw [hnot] at hcontains
      cases hcontains
    · have hinfo : (catalog.scopes.interfaceInfo? i.name).isSome = true := by
        obtain ⟨s, hs, hinterface⟩ := h.interface_collected hi
        rw [ScopeTree.interfaceInfo?, global?_of_visible h hscopes hvisible, hs]
        exact hinterface
      rw [hlayout hinfo, hnot]
      exact congrArg (·, g) (if_pos hinfo)
  · obtain hcontains | ⟨hvisible, -⟩ := hkept
    · rw [hcontains]
      rfl
    · obtain ⟨s', hs', hclass', hinterface'⟩ := h.isClassTemplate_collected hstmts hs hkind hclass
      have hglobal := (global?_of_visible h hscopes hvisible).trans hs'
      have hinterface : (catalog.scopes.interfaceInfo? n).isSome = false := by
        rw [ScopeTree.interfaceInfo?, hglobal]
        exact hinterface'
      have hinfo : (catalog.scopes.classInfo? n).isSome = true := by
        rw [ScopeTree.classInfo?, hglobal]
        exact isSome_classInfo? hclass'
      show (if _ then _ else if (catalog.scopes.interfaceInfo? n).isSome then _
        else if (catalog.scopes.classInfo? n).isSome then _ else _, g) = _
      rw [hinterface, hinfo]
      split <;> rfl

/-! ## The type of a parameter and the type of a local -/

section

variable (typing : Gen.Typing) (g : GenState)

/-- Types without type arguments are resolved without a trace. -/
theorem resolveType_keeps : (e : TypeExpr) → e.isPlain = true →
    ((Gen.resolveType typing e).run g).2 = g
  | .named n, _ => by
    rw [Gen.resolveType, run_namedType]
  | .array element _, h => resolveType_keeps element h
  | .map key value _, h => by
    obtain ⟨hkey, hvalue⟩ := Bool.and_eq_true_iff.1 h
    have hrun : ((Gen.resolveType typing (.map key value ‹_›)).run g).2 =
        ((Gen.resolveType typing value).run ((Gen.resolveType typing key).run g).2).2 := rfl
    rw [hrun, resolveType_keeps key hkey, resolveType_keeps value hvalue]
  | .pointer inner _, h => resolveType_keeps inner h

theorem resolveOptional_keeps (missing : Ty) {e? : Option TypeExpr}
    (h : ∀ e, e? = some e → e.isPlain = true) :
    ((Gen.resolveOptional typing missing e?).run g).2 = g := by
  cases e? with
  | some e => exact resolveType_keeps typing g e (h e rfl)
  | none => rfl

variable {g}

theorem run_mapM {f : α → Gen β} {l : List α} (h : ∀ a ∈ l, ((f a).run g).2 = g) :
    (l.mapM f).run g = (l.map fun a => ((f a).run g).1, g) := by
  induction l with
  | nil => rfl
  | cons a l ih =>
    have hrun : ((a :: l).mapM f).run g = (((f a).run g).1 :: ((l.mapM f).run ((f a).run g).2).1,
        ((l.mapM f).run ((f a).run g).2).2) := by
      rw [List.mapM_cons]
      rfl
    rw [hrun, h a List.mem_cons_self, ih fun a ha => h a (List.mem_cons_of_mem _ ha)]
    rfl

/-- A parameter gets the type that a local with the same written type gets. -/
theorem params_writtenSignature {params : List Param} (ret? : Option TypeExpr)
    (hparams : ∀ p ∈ params, ∀ e, p.type? = some e → e.isPlain = true) :
    ((Gen.writtenSignature typing params ret?).run g).1.params =
      params.map fun p => ((Gen.resolveOptional typing .unknown p.type?).run g).1 := by
  have hrun : ((Gen.writtenSignature typing params ret?).run g).1.params =
    ((params.mapM fun p => Gen.resolveOptional typing .unknown p.type?).run g).1 := rfl
  rw [hrun, run_mapM fun p hp => resolveOptional_keeps typing g .unknown (hparams p hp)]

end

/-- The written types of a function stand for the signature that was found when it was declared. -/
theorem run_writtenSignature (h : Clean p) {f : Function} (hf : .function f ∈ p.stmts)
    {catalog : Catalog} {file? : Option String} {limit : Nat}
    (hcatalog : catalog = .ofProgram (analyze p inference).scopes file? p limit) {g : GenState}
    (hparams : ∀ q ∈ f.params, ∀ e, q.type? = some e → e.isPlain = true)
    (hret : ∀ e, f.ret? = some e → e.isPlain = true)
    (hkept : ∀ n ∈ TypeExpr.signatureBareNames f.params f.ret?, Kept catalog g n) :
    ∃ sig s, (Gen.writtenSignature (Gen.typing catalog []) f.params f.ret?).run g = (sig, g) ∧
      (collected p).scopes.global? f.name.name = some s ∧ s.kind = .function ∧
        s.span = f.name.span ∧ s.signature? = some sig := by
  subst hcatalog
  obtain ⟨before, after, hstmts⟩ := List.append_of_mem hf
  obtain ⟨sig, fs, s, hgives, hok, hs⟩ := h.signature_collected hstmts
  obtain ⟨sig', fs', hgives', hrun⟩ := Matches.signature rfl hparams hret fun n hn =>
    nameAgrees h hstmts (hkept n hn)
  have hboth := (hgives' _ rfl).symm.trans (hgives _ rfl)
  obtain ⟨rfl, hfindings⟩ := Prod.mk.inj hboth
  have hfs : fs' = fs := List.append_cancel_left (congrArg Analysis.findings hfindings)
  exact ⟨sig', s, hrun (hfs ▸ hok), hs⟩

theorem analyzedSignature?_eq {scopes : ScopeTree} {f : Function} {s : Symbol} {sig : Signature}
    (hs : scopes.global? f.name.name = some s) (hkind : s.kind = .function)
    (hline : s.span.line ≠ 0) (hsig : s.signature? = some sig)
    (hlength : sig.params.length = f.params.length) :
    Gen.analyzedSignature? scopes f = some sig := by
  simp [Gen.analyzedSignature?, hs, hkind, hsig, hlength, Nat.pos_of_ne_zero hline]

theorem analyzedSignature?_of_isPlain {scopes : ScopeTree} {f : Function} {s : Symbol}
    (hs : scopes.global? f.name.name = some s) (hplain : s.isPlain = true) :
    Gen.analyzedSignature? scopes f = none := by
  have hkind : s.kind ≠ .function := by
    intro hkind
    rw [Symbol.isPlain, hkind] at hplain
    cases hplain
  simp [Gen.analyzedSignature?, hs, hkind]

theorem run_setFunction {x : Gen Signature} {sig : Signature} {g : GenState} {symbol : String}
    (hx : x.run g = (sig, g)) : (x >>= fun sig => Gen.setFunction symbol sig).run g =
      ((), { g with functions := g.functions.insert symbol sig }) := by
  have hrun : (x >>= fun sig => Gen.setFunction symbol sig).run g =
    (Gen.setFunction symbol (x.run g).1).run (x.run g).2 := rfl
  rw [hrun, hx]
  rfl

/-- A function of an accepted program is declared with the signature that its written types stand
for, and analysis has found this signature unless a plain symbol hides the function. -/
theorem declares_writtenSignature {f : Function} {file? : Option String} {limit : Nat} {g : GenState}
    {env : Env} (hf : .function f ∈ p.stmts) (hlocated : Located p)
    (haccepted : (analyze p inference).hasErrors = false)
    (henv : env = { catalog := .ofProgram (analyze p inference).scopes file? p limit })
    (hparams : ∀ q ∈ f.params, ∀ e, q.type? = some e → e.isPlain = true)
    (hret : ∀ e, f.ret? = some e → e.isPlain = true)
    (hkept : ∀ n ∈ TypeExpr.signatureBareNames f.params f.ret?, Kept env.catalog g n) :
    ∃ sig, (Gen.writtenSignature env.typing f.params f.ret?).run g = (sig, g) ∧
      (Gen.declareStmt env (.function f)).run g =
        ((), { g with functions := g.functions.insert f.name.name sig }) ∧
      ((env.catalog.scopes.global? f.name.name).any Symbol.isPlain = false →
        Gen.analyzedSignature? env.catalog.scopes f = some sig) ∧
      sig.params = f.params.map fun q =>
        ((Gen.resolveOptional env.typing .unknown q.type?).run g).1 := by
  have h := clean_of_accepted hlocated haccepted
  have hcatalog : env.catalog = .ofProgram (analyze p inference).scopes file? p limit := by rw [henv]
  have htyping : env.typing = Gen.typing env.catalog [] := by rw [henv]; rfl
  obtain ⟨sig, s, hrun, hs, hkind, hspan, hsig⟩ :=
    run_writtenSignature h hf hcatalog hparams hret hkept
  have hscopes : env.catalog.scopes = (analyze p inference).scopes := by
    rw [hcatalog, Catalog.scopes_ofProgram]
  rw [← htyping] at hrun
  have htypes := params_writtenSignature env.typing (g := g) f.ret? hparams
  rw [hrun] at htypes
  have hlength : sig.params.length = f.params.length := by rw [htypes, List.length_map]
  have hline : s.span.line ≠ 0 := hspan ▸ hlocated _ hf _ rfl
  have hanalyzed : Gen.analyzedSignature? env.catalog.scopes f = some sig ∨
      ∃ s, env.catalog.scopes.global? f.name.name = some s ∧ s.isPlain = true := by
    rw [hscopes]
    refine (global?_analyze h inference f.name.name).imp_left fun hsame => ?_
    exact analyzedSignature?_eq (hsame.trans hs) hkind hline hsig hlength
  refine ⟨sig, hrun, ?_, fun hvisible => ?_, htypes⟩
  · rw [Gen.declareStmt]
    obtain hfound | ⟨s', hs', hplain⟩ := hanalyzed
    · rw [hfound]
      rfl
    · rw [analyzedSignature?_of_isPlain hs' hplain]
      exact run_setFunction hrun
  · refine hanalyzed.resolve_right ?_
    rintro ⟨s', hs', hplain⟩
    rw [hs', Option.any_some, hplain] at hvisible
    cases hvisible

/-- A function of an interface, of a class behind it and of the bare name of a template. -/
def arrange : Function :=
  let type (name : String) : TypeExpr := .named ⟨name, {}⟩
  let param (name : String) (e : TypeExpr) : Param := ⟨⟨name, {}⟩, some e, {}⟩
  { name := ⟨"arrange", { line := 2 }⟩
    params := [param "s" (type "Shape"), param "qs" (.array (.pointer (type "Square") {}) {}),
      param "b" (type "Box"), param "n" (type "int")]
    ret? := some (.map (type "string") (type "Square") {})
    body := ⟨[], {}⟩
    modifiers := {}
    span := {} }

/-- The function with what it refers to. -/
def arrangement : Program :=
  let field (name ty : String) : Member :=
    .field ⟨⟨name, {}⟩, some (.named ⟨ty, {}⟩), none, false, {}, {}⟩
  ⟨[.template [⟨"T", {}⟩] (.class_ ⟨⟨"Box", { line := 1 }⟩, none, [], [field "value" "T"], {}⟩) {},
    .function arrange,
    .interface ⟨"Shape", { line := 3 }⟩ [⟨⟨"area", {}⟩, [], some (.named ⟨"int", {}⟩), {}⟩] {},
    .class_ ⟨⟨"Square", { line := 4 }⟩, none, [], [field "side" "int"], {}⟩], {}⟩

def arrangementEnv : Env :=
  { catalog := .ofProgram (analyze arrangement true).scopes none arrangement }

theorem arrange_declared :
    ∃ sig, (Gen.writtenSignature arrangementEnv.typing arrange.params arrange.ret?).run {} =
        (sig, {}) ∧
      (Gen.declareStmt arrangementEnv (.function arrange)).run {} =
        ((), { functions := Table.empty.insert "arrange" sig }) ∧
      Gen.analyzedSignature? arrangementEnv.catalog.scopes arrange = some sig := by
  have hlocated : Located arrangement := by
    intro s hs d hd
    simp only [arrangement, List.mem_cons, List.not_mem_nil, or_false] at hs
    rcases hs with rfl | rfl | rfl | rfl <;> cases hd <;> decide
  obtain ⟨sig, hrun, hdeclared, hanalyzed, -⟩ := declares_writtenSignature (p := arrangement)
    (f := arrange) (g := {}) (List.mem_cons_of_mem _ List.mem_cons_self) hlocated
    (by decide +kernel) (show arrangementEnv = _ from rfl) (by simp [arrange, TypeExpr.isPlain])
    (by simp [arrange, TypeExpr.isPlain]) (by decide +kernel)
  exact ⟨sig, hrun, hdeclared, hanalyzed (by decide +kernel)⟩

end Check

end ClassLang
