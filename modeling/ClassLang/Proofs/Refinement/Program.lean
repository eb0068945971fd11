import ClassLang.Proofs.Analysis.Signatures
import ClassLang.Proofs.Evolution.Program
import ClassLang.Proofs.Lowering.Program
import ClassLang.Proofs.Refinement.Function

/-!
# Functions of accepted programs

A function of the core is declared with the signature that it is written with. It is generated with
what the table of functions holds under its name by then, and this is the same signature, unless an
instance or another function has taken the name. So a function of an accepted program whose name
nothing else takes does what it says.
-/

namespace ClassLang

/-! ## Signatures -/

namespace Core

variable {m : Type → Type} [Monad m] [LawfulMonad m]

/-- Reading of the written types of the core. -/
structure Reads (read : Ty → Option TypeExpr → m Ty) : Prop where
  written : ∀ missing e κ, Kind.ofType? e = some κ → read missing (some e) = pure κ.ty
  missing : ∀ missing, read missing none = pure missing

/-- Whoever reads the types of a function of the core gets its signature. -/
theorem Reads.signature {read : Ty → Option TypeExpr → m Ty} (h : Reads read)
    {params : List Param} {ret? : Option TypeExpr} {sig : Signature}
    (hsig : signature? params ret? = some sig) :
    (do
      let types ← params.mapM fun p : Param => read .unknown p.type?
      let ret ← read .void ret?
      return (⟨types, ret, false⟩ : Signature)) = pure sig := by
  simp only [signature?, Option.bind_eq_bind, Option.bind_eq_some_iff, Option.pure_def,
    Option.some.injEq] at hsig
  obtain ⟨kinds, hkinds, κ?, hκ, rfl⟩ := hsig
  have hparams : params.mapM (fun p => read .unknown p.type?) = pure (kinds.map Kind.ty) := by
    clear hκ
    induction params generalizing kinds with
    | nil =>
      cases hkinds
      rfl
    | cons p ps ih =>
      rw [List.mapM_cons] at hkinds ⊢
      simp only [Option.bind_eq_bind, Option.bind_eq_some_iff, Option.pure_def,
        Option.some.injEq] at hkinds
      obtain ⟨κ, hκ, κs, hκs, rfl⟩ := hkinds
      obtain ⟨e, he, hkind⟩ := Option.bind_eq_some_iff.1 hκ
      rw [ih κs hκs, he, h.written _ e κ hkind]
      simp
  have hret : read .void ret? = pure ((κ?.map Kind.ty).getD .void) := by
    cases ret? with
    | none =>
      cases hκ
      exact h.missing _
    | some e =>
      obtain ⟨κ, hkind, rfl⟩ := Option.map_eq_some_iff.1 hκ
      exact h.written _ e κ hkind
  rw [hparams, hret]
  simp

theorem length_signature? {params : List Param} {ret? : Option TypeExpr} {sig : Signature}
    (hsig : signature? params ret? = some sig) : sig.params.length = params.length := by
  simp only [signature?, Option.bind_eq_bind, Option.bind_eq_some_iff, Option.pure_def,
    Option.some.injEq] at hsig
  obtain ⟨kinds, hkinds, κ?, -, rfl⟩ := hsig
  rw [List.length_map]
  induction params generalizing kinds with
  | nil =>
    cases hkinds
    rfl
  | cons p ps ih =>
    rw [List.mapM_cons] at hkinds
    simp only [Option.bind_eq_bind, Option.bind_eq_some_iff, Option.pure_def,
      Option.some.injEq] at hkinds
    obtain ⟨κ, -, κs, hκs, rfl⟩ := hkinds
    exact congrArg (· + 1) (ih κs hκs)

theorem resolveSignature_eq_pure {params : List Param} {ret? : Option TypeExpr} {sig : Signature}
    (hsig : signature? params ret? = some sig) :
    Check.resolveSignature [] params ret? = pure sig := by
  have hreads : Reads (Check.resolveOptional []) := by
    refine ⟨fun missing e κ h => ?_, fun _ => rfl⟩
    obtain ⟨n, rfl, hn⟩ := Lower.name_of_ofType? h
    have hbasic : Ty.ofBasicName? n.name = some κ.ty := by
      rw [hn]
      cases κ <;> rfl
    rw [Check.resolveOptional, Check.resolveType, hbasic]
  exact hreads.signature hsig

theorem writtenSignature_eq_pure {params : List Param} {ret? : Option TypeExpr} {sig : Signature}
    (hsig : signature? params ret? = some sig) {env : Env} (henv : env.KnowsKinds) :
    Gen.writtenSignature env.typing params ret? = pure sig := by
  have hreads : Reads (Gen.resolveOptional env.typing) :=
    ⟨fun missing e κ h => Lower.resolveType_eq_pure (henv κ) h, fun _ => rfl⟩
  exact hreads.signature hsig

end Core

/-- A function of the core is declared with its signature in an accepted program. -/
theorem Check.Clean.declares_signature {p : Program} (h : Clean p) {inference : Bool}
    {file? : Option String} {limit : Nat} {f : Function} (hf : .function f ∈ p.stmts)
    (hline : f.name.span.line ≠ 0) {sig : Signature}
    (hsig : Core.signature? f.params f.ret? = some sig) (g : GenState) :
    (Gen.declareStmt { catalog := .ofProgram (analyze p inference).scopes file? p limit }
      (.function f)).run g = ((), { g with functions := g.functions.insert f.name.name sig }) := by
  obtain ⟨before, after, hstmts⟩ := List.append_of_mem hf
  obtain ⟨sig', fs, s, hgives, -, hs, hkind, hspan, hsig'⟩ := h.signature_collected hstmts
  rw [Core.resolveSignature_eq_pure hsig] at hgives
  obtain ⟨rfl, -⟩ := Prod.mk.inj (hgives _ rfl)
  have hlength := Core.length_signature? hsig
  rw [Gen.declareStmt, Catalog.scopes_ofProgram]
  obtain hsame | ⟨s', hs', hplain⟩ := global?_analyze h inference f.name.name
  · rw [analyzedSignature?_eq (hsame.trans hs) hkind (hspan ▸ hline) hsig' hlength]
    rfl
  · rw [analyzedSignature?_of_isPlain hs' hplain]
    dsimp only
    rw [Core.writtenSignature_eq_pure hsig fun _ => rfl]
    rfl

/-! ## From the declaration to the code -/

/-- What has become of the state, as far as a name of a function is concerned. -/
structure GenState.Spares (n : String) (g g' : GenState) : Prop where
  takes : g.Takes n → g'.Takes n
  signature : g'.functions.find? n = g.functions.find? n ∨ g'.Takes n

namespace GenState.Spares

variable {n : String} {g g' g'' : GenState}

theorem trans (h : g.Spares n g') (h' : g'.Spares n g'') : g.Spares n g'' := by
  refine ⟨h'.takes ∘ h.takes, ?_⟩
  rcases h'.signature with hsame' | hn
  · exact h.signature.imp hsame'.trans h'.takes
  · exact .inr hn

theorem of_evolves (h : g.Evolves g') (n : String) : g.Spares n g' := ⟨h.takes, h.signature n⟩

/-- What matters to a name has not changed. -/
theorem of_eq (hfunctions : g'.functions.find? n = g.functions.find? n)
    (hrequests : g'.requests = g.requests)
    (hmodule : g'.module.functions = g.module.functions) : g.Spares n g' := by
  refine ⟨fun hn => ?_, .inl hfunctions⟩
  rw [Takes, hrequests, hmodule]
  exact hn

end GenState.Spares

namespace Gen

variable {n : String} {env : Env}

/-- A step leaves a name of a function as it is, until an instance or a function takes it. -/
def Spares {α : Type} (n : String) (x : Gen α) : Prop := ∀ g : GenState, g.Spares n (x.run g).2

namespace Spares

variable {α β : Type} {x : Gen α} {f : α → Gen β}

theorem of_evolves (h : Evolves x) : Spares n x := fun g => .of_evolves (h g) n

theorem bind (hx : Spares n x) (hf : ∀ a, Spares n (f a)) : Spares n (x >>= f) :=
  fun g => (hx g).trans (hf _ _)

theorem forM {f : α → Gen Unit} (l : List α) (h : ∀ a ∈ l, Spares n (f a)) :
    Spares n (l.forM f) := by
  induction l with
  | nil => exact .of_evolves (.pure _)
  | cons a l ih =>
    exact (h a List.mem_cons_self).bind fun _ => ih fun a' ha' => h a' (List.mem_cons_of_mem _ ha')

theorem declareGlobal (name : String) (type? : Option TypeExpr) (value? : Option Expr) :
    Spares n (Gen.declareGlobal env name type? value?) := by
  have hrest : ∀ (ty : Ty) (ir : Ir.Ty) (init : Ir.Value), Spares n (do
      modifyModule (·.addGlobal (.variable_ name ir init))
      modify fun s => { s with globals := s.globals.insert name ⟨.global name, ty, ir⟩ }) :=
    fun ty ir init => .bind (fun g => .of_eq rfl rfl rfl) fun _ g => .of_eq rfl rfl rfl
  refine (of_evolves (.globalType (Evolves.typing _ _) _ _ _)).bind fun ty => ?_
  dsimp only
  split
  · exact hrest ty _ _
  · refine (of_evolves (.constantValue _ _)).bind fun v? => ?_
    split
    · exact hrest ty _ _
    · exact .bind (fun g => .of_eq rfl rfl rfl) fun _ => hrest ty _ _

theorem declareStmt {s : Stmt} (hs : ∀ f, s = .function f → f.name.name ≠ n) :
    Spares n (Gen.declareStmt env s) := by
  unfold Gen.declareStmt
  split
  next f =>
    have hset : ∀ sig, Spares n (setFunction f.name.name sig) := by
      refine fun sig g => .of_eq ?_ rfl rfl
      show (g.functions.insert f.name.name sig).find? n = g.functions.find? n
      rw [Table.find?_insert, if_neg (by simpa using (hs f rfl).symm)]
    split
    · exact hset _
    · exact (of_evolves (.writtenSignature _ _ (.inl (Evolves.typing _ _)))).bind hset
  · exact declareGlobal _ _ _
  · exact declareGlobal _ _ _
  · exact of_evolves (.pure _)

end Spares

/-- When everything is declared, a function of the core has its signature. -/
theorem signature_prepared {p : Program} {inference : Bool} {file? : Option String} {limit : Nat}
    {f : Function} {before after : List Stmt} {sig : Signature} (h : Check.Clean p)
    (hstmts : p.stmts = before ++ .function f :: after) (hline : f.name.span.line ≠ 0)
    (hsig : Core.signature? f.params f.ret? = some sig) :
    let g := GenState.prepared p (analyze p inference).scopes file? limit
    g.functions.find? f.name.name = some sig ∨ g.Takes f.name.name := by
  intro g
  let catalog : Catalog := .ofProgram (analyze p inference).scopes file? p limit
  let g₁ := ((before.forM (declareStmt { catalog })).run (.initial file?)).2
  let g₂ : GenState := { g₁ with functions := g₁.functions.insert f.name.name sig }
  let rest : Gen Unit := do
    after.forM (declareStmt { catalog })
    catalog.classNames.forM fun name => do
      let _ ← ensureLayout (Gen.typing catalog []) name
  have hf : .function f ∈ p.stmts := by
    rw [hstmts]
    exact List.mem_append_right _ List.mem_cons_self
  have hdeclared : (declareStmt { catalog } (.function f)).run g₁ = ((), g₂) :=
    h.declares_signature hf hline hsig g₁
  have hg : g = (rest.run g₂).2 := by
    have hforM : p.stmts.forM (declareStmt { catalog }) = (do
        before.forM (declareStmt { catalog })
        declareStmt { catalog } (.function f)
        after.forM (declareStmt { catalog })) := by
      rw [hstmts]
      exact List.forM_append
    have hprepare : prepare catalog p = (do
        before.forM (declareStmt { catalog })
        declareStmt { catalog } (.function f)
        rest) := by
      rw [prepare, hforM]
      simp only [bind_assoc]
      rfl
    show ((prepare catalog p).run (.initial file?)).2 = _
    rw [hprepare]
    show (rest.run ((declareStmt { catalog } (.function f)).run g₁).2).2 = _
    rw [hdeclared]
  have hrest : Spares f.name.name rest := by
    have hnodup := h.declares.nodup
    rw [hstmts, List.filterMap_append, List.filterMap_cons_some (Check.declaredName?_eq rfl)] at hnodup
    have hfresh := (List.nodup_cons.1 (List.nodup_append.1 hnodup).2.1).1
    refine (Spares.forM _ fun s hs => .declareStmt fun f' hf' hname => ?_).bind fun _ => ?_
    · refine hfresh (List.mem_filterMap.2 ⟨s, hs, ?_⟩)
      rw [hf', Check.declaredName?_eq rfl]
      exact congrArg some hname
    · refine .forM _ fun name _ => .of_evolves ?_
      exact (Evolves.ensureLayout (Evolves.typing _ _) name).bind fun _ => .pure _
  rw [hg]
  refine (hrest g₂).signature.imp_left fun hsame => hsame.trans ?_
  rw [Table.find?_insert, if_pos (beq_self_eq_true _)]

/-! ## Whole programs -/

variable {detour : Lower.Detour} {g : GenState} {f : Function}

/-- What is generated after the declared functions, the methods and the start of a program. -/
def generateLast (catalog : Catalog) : Gen Unit := do
  generateInstances (Lower.detourAt catalog.limit) { catalog } (catalog.limit * catalog.limit)
  closing { catalog }

theorem evolves_generateLast (catalog : Catalog) : Evolves (generateLast catalog) :=
  (Evolves.generateInstances (Lower.Evolves.detourAt _) _).bind fun _ => Evolves.closing

/-- The code of one function among the statements of a program. -/
theorem program_eq {catalog : Catalog} {p : Program} {before after : List Stmt} {s : Stmt}
    (hstmts : p.stmts = before ++ s :: after) :
    let generate := generateStmt (Lower.detourAt catalog.limit) { catalog }
    program catalog p = (do
      prepare catalog p
      (do
        generateStart (Lower.detourAt catalog.limit) { catalog } p
        before.forM generate)
      generate s
      (do
        after.forM generate
        generateLast catalog)) := by
  intro generate
  have hforM : p.stmts.forM generate = (do
      before.forM generate
      generate s
      after.forM generate) := by
    rw [hstmts]
    exact List.forM_append
  have hprogram : program catalog p = (do
      prepare catalog p
      generateStart (Lower.detourAt catalog.limit) { catalog } p
      p.stmts.forM generate
      generateLast catalog) := rfl
  rw [hprogram, hforM]
  simp only [bind_assoc]

end Gen

/-- A function is added to a module where no other one has its name in the end, so no other one has
its name before. -/
theorem GenState.not_takes {g g' : GenState} {fs : List Ir.Function} {F : Ir.Function}
    (hfs : g.module.functions <+: fs) (hF : (fs ++ [F]) <+: g'.module.functions)
    (hg' : g.requests <+: g'.requests)
    (hfunctions : (g'.module.functions.map Ir.Function.name).count F.name ≤ 1)
    (hrequests : ∀ r ∈ g'.requests, r.symbol ≠ F.name) : ¬ g.Takes F.name := by
  rintro (⟨r, hr, hn⟩ | ⟨F₀, hF₀, hn⟩)
  · exact hrequests r (hg'.subset hr) hn
  · have hmem : F.name ∈ fs.map Ir.Function.name := List.mem_map.2 ⟨F₀, hfs.subset hF₀, hn⟩
    have hpos := List.count_pos_iff.2 hmem
    have hle := (hF.sublist.map Ir.Function.name).count_le F.name
    rw [List.map_append, List.count_append, List.map_singleton, List.count_singleton_self] at hle
    omega

/-- A function of the core does what it says, in an accepted program where no other function and no
instance of a template has its name. -/
theorem returns_generate {p : Program} {inference : Bool} {file? : Option String} {limit : Nat}
    {f : Function} (hlocated : Check.Located p) (haccepted : (analyze p inference).hasErrors = false)
    (hf : .function f ∈ p.stmts) (hname : f.name.name ≠ "main")
    (htypes : (Core.signature? f.params f.ret?).isSome = true)
    (hbody : Core.isCoreBlock f.body = true) {g : GenState}
    (hg : g = generate p (analyze p inference).scopes file? limit)
    (hfunctions : (g.module.functions.map Ir.Function.name).count f.name.name ≤ 1)
    (hrequests : ∀ r ∈ g.requests, r.symbol ≠ f.name.name) :
    ∃ F ∈ g.module.functions, F.name = f.name.name ∧
      ∀ args v?, Core.Results f.params f.ret? f.body args v? →
        F.Returns (args.map Val.word) (v?.map Val.word) := by
  obtain ⟨before, after, hstmts⟩ := List.append_of_mem hf
  obtain ⟨sig, hsig⟩ := Option.isSome_iff_exists.1 htypes
  let catalog : Catalog := .ofProgram (analyze p inference).scopes file? p limit
  let detour := Lower.detourAt catalog.limit
  let generate := Gen.generateStmt detour { catalog }
  let earlier : Gen Unit := do
    Gen.generateStart detour { catalog } p
    before.forM generate
  let later : Gen Unit := do
    after.forM generate
    Gen.generateLast catalog
  -- The states when all is declared, and before and after the function itself.
  let g₁ := GenState.prepared p (analyze p inference).scopes file? limit
  let g₂ := (earlier.run g₁).2
  let g₃ := ((generate (.function f)).run g₂).2
  have hg₃ : g = (later.run g₃).2 := by
    rw [hg]
    show ((Gen.program catalog p).run (.initial file?)).2 = _
    rw [Gen.program_eq hstmts]
    rfl
  have hdetour := Lower.Evolves.detourAt catalog.limit
  have hearlier : g₁.Evolves g₂ := ((Gen.Evolves.generateStart hdetour p).bind fun _ =>
    .forM _ fun s => Gen.Evolves.generateStmt hdetour s) g₁
  have hitself : g₂.Evolves g₃ := Gen.Evolves.generateStmt hdetour (.function f) g₂
  have hlater : g₃.Evolves g := by
    rw [hg₃]
    exact ((Gen.Follows.forM _ fun s => Gen.Evolves.generateStmt hdetour s).bind fun _ =>
      Gen.evolves_generateLast catalog) g₃
  have hfree : ¬ g₂.Takes f.name.name := by
    obtain ⟨fs, F, hfs, hprefix, hF⟩ :=
      @Gen.functions_generateStmt { catalog } detour hdetour f g₂
    rw [← hF] at hfunctions hrequests ⊢
    exact GenState.not_takes hprefix (hfs ▸ hlater.functions) (hitself.trans hlater).requests
      hfunctions hrequests
  have hclean := Check.clean_of_accepted hlocated haccepted
  have hsig₁ : g₁.functions.find? f.name.name = some sig ∨ g₁.Takes f.name.name :=
    Gen.signature_prepared hclean hstmts (hlocated _ hf _ rfl) hsig
  have hsig₂ : g₂.functions.find? f.name.name = some sig := by
    have hsame := (hearlier.signature f.name.name).resolve_right hfree
    exact hsame.trans (hsig₁.resolve_right fun hn => hfree (hearlier.takes hn))
  have hsound : g₂.Sound := by
    have hdetour := Draft.soundDetour_detourAt catalog.limit
    have hkeeps : Gen.Keeps earlier := (Gen.keeps_generateStart hdetour p).bind fun _ =>
      .forM _ fun s _ => Gen.keeps_generateStmt hdetour s
    exact hkeeps g₁ (Gen.keeps_prepare catalog p _ (.initial file?))
  obtain ⟨fs, F, hfs, hF, hreturns⟩ := @Gen.returns_generateFunction detour { catalog } g₂
    f.name.name f.params f.ret? sig f.body (Draft.soundDetour_detourAt catalog.limit) hsound
    (fun _ => rfl) hname hsig hbody f.span
  refine ⟨F, hlater.functions.subset ?_, hF, hreturns⟩
  have hrun : (Gen.function? f.name.name).run g₂ = (some sig, g₂) := congrArg (·, g₂) hsig₂
  have hg₃ : g₃ = ((Gen.generateFunction detour { catalog } f.name.name f.params sig f.body f.span
      none none).run g₂).2 := by
    show ((Gen.generateStmt detour { catalog } (.function f)).run g₂).2 = _
    rw [Gen.generateStmt, StateT.run_bind, hrun]
    rfl
  rw [hg₃, hfs]
  exact List.mem_append_right _ (List.mem_singleton_self F)

/-- The sum of the numbers up to `n`, those past 100 left out. -/
def triangle : Function :=
  let int : Option TypeExpr := some (.named ⟨"int", {}⟩)
  let local_ (name : String) : Expr := .ident ⟨name, {}⟩
  let past : Expr := .binary .greater (local_ "i") (.int 100 {}) {}
  { name := ⟨"triangle", { line := 1 }⟩
    params := [⟨⟨"n", {}⟩, int, {}⟩]
    ret? := int
    body := ⟨[.var ⟨"s", {}⟩ int none {},
      .forLoop (some (.expr (.assign .define (local_ "i") (.int 1 {}) {})))
        (some (.binary .lessEqual (local_ "i") (local_ "n") {}))
        (some (.expr (.postfixed .increment (local_ "i") {})))
        ⟨[.ifElse past ⟨[.break_ {}], {}⟩ none {},
          .expr (.assign (.compound .add) (local_ "s") (local_ "i") {})], {}⟩ {},
      .ret (some (local_ "s")) {}], {}⟩
    modifiers := {}
    span := {} }

/-- A program of this function alone. -/
def triangleProgram : Program := ⟨[.function triangle], {}⟩

theorem triangle_returns :
    ∃ F ∈ (generate triangleProgram (analyze triangleProgram true).scopes none).module.functions,
      F.name = "triangle" ∧ F.Returns [.i32 4] (some (.i32 10)) := by
  have hlocated : Check.Located triangleProgram := by
    intro s hs d hd
    rw [triangleProgram, List.mem_singleton] at hs
    subst hs
    cases hd
    decide
  obtain ⟨F, hF, hname, hreturns⟩ := @returns_generate triangleProgram true none 1000 triangle hlocated
    (by decide +kernel) (List.mem_singleton_self _) (by decide) (by decide) (by decide) _ rfl
    (by decide +kernel) (by decide +kernel)
  exact ⟨F, hF, hname, hreturns [.int 4] (some (.int 10)) ⟨6, by decide +kernel⟩⟩

end ClassLang
