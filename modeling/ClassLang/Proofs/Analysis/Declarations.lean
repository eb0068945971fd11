import ClassLang.Proofs.Analysis.Reading

/-!
# Declarations of the top level

Names are declared in a first round and filled in in a second one. At the top a name hides nothing,
so it is declared unless it was declared before. Filling a statement in reads written types and then
changes one symbol: that of the receiver's class for a method, and else the one that the statement
declares. What it changes is decided by what it sees of the scope tree.
-/

namespace ClassLang

/-! ## Declaring names -/

/-- Where a name was declared before, if that was at a position. -/
def ScopeTree.taken? (t : ScopeTree) (name : String) : Option Span :=
  (t.global? name).bind fun s => if s.span.line = 0 then none else some s.span

namespace Check

variable {a : Analysis} {s : Stmt}

/-- The state when the name of a statement has been declared. -/
def declared (a : Analysis) (s : Stmt) : Analysis :=
  ((match declaredSymbol? s with
    | some symbol => declare symbol
    | none => pure () : Check Unit).run a).2

theorem run_noteShadowing (ht : a.scopes.AtTop) (d : Symbol) :
    (noteShadowing d).run a = ((), a) := by
  have hhides : ((a.scopes.resolveLocal d.name).isNone &&
      ((a.scopes.resolve d.name).map Symbol.isStored).getD false) = false := by
    rw [ht.resolveLocal, ht.resolve]
    cases a.scopes.global? d.name <;> rfl
  show StateT.run (if _ then _ else _) a = _
  rw [hhides]
  rfl

/-- At the top a name hides nothing. It is declared unless it is taken. -/
theorem run_declare (ht : a.scopes.AtTop) (d : Symbol) : ((declare d).run a).2 =
    match a.scopes.taken? d.name with
    | some first => { a with findings := a.findings ++ [⟨.redeclared d.name first, d.span⟩] }
    | none => { a with scopes := a.scopes.replace d } := by
  rw [run_declare_eq_define, run_noteShadowing ht, ScopeTree.define, ht.resolveLocal,
    ScopeTree.taken?]
  cases a.scopes.global? d.name with
  | none => rfl
  | some first =>
    rw [Option.bind_some]
    dsimp only
    split <;> rfl

theorem declared_of_none (h : declaredSymbol? s = none) (a : Analysis) : declared a s = a := by
  rw [declared, h]
  rfl

theorem declared_of_some {d : Symbol} (h : declaredSymbol? s = some d) (ht : a.scopes.AtTop) :
    declared a s =
      match a.scopes.taken? d.name with
      | some first => { a with findings := a.findings ++ [⟨.redeclared d.name first, d.span⟩] }
      | none => { a with scopes := a.scopes.replace d } := by
  rw [declared, h]
  exact run_declare ht d

/-- Declaring one name leaves another as it is. -/
theorem taken?_replace {t : ScopeTree} (ht : t.AtTop) (d : Symbol) {name : String}
    (hne : d.name ≠ name) : (t.replace d).taken? name = t.taken? name := by
  rw [ScopeTree.taken?, ScopeTree.taken?, ht.global?_replace, if_neg]
  simpa using hne.symm

end Check

/-! ## What a declaration fills in -/

/-- A change to the symbol of a declaration. -/
inductive Filling where
  | signature (sig : Signature)
  | members (fields : List FieldInfo) (methods : List MethodInfo)
  /-- One more method. -/
  | method (m : MethodInfo)
  | interface (methods : List (String × Signature))
  | template (base : Ty) (signature? : Option Signature) (class? : Option ClassInfo)

namespace Filling

def apply : Filling → Symbol → Symbol
  | signature sig, s => if s.kind == .function then s.withSignature sig else s
  | members fields methods, s =>
    { s with class? := s.class?.map fun info => { info with fields, methods } }
  | method m, s =>
    { s with class? := s.class?.map fun info => { info with methods := info.methods ++ [m] } }
  | interface methods, s =>
    { s with interface? := s.interface?.map fun info => { info with methods } }
  | template base signature? class?, s =>
    { s with
      ty := match s.ty with
        | .template n ps _ => .template n ps (some base)
        | t => t
      template? := s.template?.map fun t => { t with signature?, class? } }

/-- The kind of the symbols that are changed. -/
def kind : Filling → SymbolKind
  | signature _ => .function
  | members .. | method _ => .class_
  | interface _ => .interface
  | template .. => .template

def isTemplate : Filling → Bool
  | template .. => true
  | _ => false

theorem isTemplate_or_kind (f : Filling) : f.isTemplate = false ∨ f.kind = .template := by
  cases f with
  | template => exact .inr rfl
  | _ => exact .inl rfl

def isMethod : Filling → Bool
  | method _ => true
  | _ => false

theorem isTemplate_of_isMethod {f : Filling} (h : f.isMethod = true) : f.isTemplate = false := by
  cases f with
  | template => cases h
  | _ => rfl

theorem kind_apply (f : Filling) (s : Symbol) : (f.apply s).kind = s.kind := by
  cases f with
  | signature sig =>
    rw [apply]
    split <;> rfl
  | _ => rfl

theorem span_apply (f : Filling) (s : Symbol) : (f.apply s).span = s.span := by
  cases f with
  | signature sig =>
    rw [apply]
    split <;> rfl
  | _ => rfl

/-- Only filling in a template changes what a name stands for as a type. -/
theorem typeNamed?_apply {f : Filling} (h : f.isTemplate = false) (s : Symbol) (name : String) :
    (f.apply s).typeNamed? name = s.typeNamed? name := by
  cases f with
  | signature sig =>
    rw [apply]
    split
    next hkind => simp [Symbol.typeNamed?, Symbol.withSignature, eq_of_beq hkind]
    next => rfl
  | template => cases h
  | _ => rfl

/-- Only filling in a template changes whether a name has members. -/
theorem classInfo?_apply {f : Filling} (h : f.isTemplate = false) (s : Symbol) :
    (f.apply s).classInfo?.isNone = s.classInfo?.isNone := by
  cases f with
  | signature sig =>
    rw [apply]
    split <;> rfl
  | members fields methods =>
    simp only [apply, Symbol.classInfo?]
    cases s.class? <;> rfl
  | method m =>
    simp only [apply, Symbol.classInfo?]
    cases s.class? <;> rfl
  | interface methods => rfl
  | template => cases h

end Filling

/-- The scope tree with a declaration filled in. -/
def ScopeTree.fill (t : ScopeTree) : Option (String × Filling) → ScopeTree
  | some (name, f) => t.modifyGlobal name f.apply
  | none => t

namespace Stmt

/-- The class that a method outside of its class belongs to. -/
def receiverClass? : Stmt → Option String
  | .method m => m.receiverClass?
  | _ => none

/-- The bare names in the types that are resolved when a statement is filled in. -/
def bareNames : Stmt → List String
  | .function f => TypeExpr.signatureBareNames f.params f.ret?
  | .class_ c => c.bareNames
  | .method m => TypeExpr.signatureBareNames m.params m.ret?
  | .interface _ methods _ =>
    methods.flatMap fun m => TypeExpr.signatureBareNames m.params m.ret?
  | .template _ (.function f) _ => TypeExpr.signatureBareNames f.params f.ret?
  | .template _ (.class_ c) _ => c.bareNames
  | _ => []

/-- Filling a statement in finds the same in two scope trees. -/
structure SeesSame (s : Stmt) (t t' : ScopeTree) : Prop where
  types : t.SameTypes t' s.bareNames
  receiver : ∀ cls, s.receiverClass? = some cls →
    (t.classInfo? cls).isNone = (t'.classInfo? cls).isNone

theorem SeesSame.refl (s : Stmt) (t : ScopeTree) : s.SeesSame t t :=
  ⟨⟨fun _ _ => rfl, fun _ => rfl⟩, fun _ _ => rfl⟩

/-- Whose symbol a statement fills in: that of its receiver's class, or the one it declares. -/
inductive Writes (s : Stmt) (name : String) (f : Filling) : Prop
  | method : s.receiverClass? = some name → f.isMethod = true → Writes s name f
  | own (d : Symbol) : Check.declaredSymbol? s = some d → d.name = name →
      f.isTemplate = false ∨ d.kind = .template → Writes s name f

/-- In a scope tree a statement fills a symbol in, or none, and reports some findings. -/
def Fills (s : Stmt) (t : ScopeTree) (change? : Option (String × Filling)) (fs : List Finding) :
    Prop :=
  ∀ a : Analysis, a.scopes = t → (Check.fillDeclaration s).run a =
    ((), { a with scopes := t.fill change?, findings := a.findings ++ fs })

end Stmt

theorem ScopeTree.AtTop.fill {t : ScopeTree} (h : t.AtTop) (change? : Option (String × Filling)) :
    (t.fill change?).AtTop := by
  cases change? with
  | some c => exact h.modifyGlobal c.1 c.2.apply
  | none => exact h

namespace Check

variable {t t' : ScopeTree}

theorem Gives.fill {α : Type} {x : Check α} {v : α} {fs : List Finding} (hx : Gives x t v fs)
    {k : α → Check Unit} {name : String} {f : Filling} (hk : k v = modifyGlobal name f.apply)
    (a : Analysis) (ha : a.scopes = t) : (x >>= k).run a =
      ((), { a with scopes := t.fill (some (name, f)), findings := a.findings ++ fs }) := by
  have hrun : (x >>= k).run a = (k (x.run a).1).run (x.run a).2 := rfl
  rw [hrun, hx a ha]
  subst ha
  show (k v).run _ = _
  rw [hk]
  rfl

/-- Adds a method to its class. -/
def addMethod (cls : String) (m : Method) : Check Unit := do
  let sig ← resolveSignature [] m.params m.ret?
  modifyGlobal cls (Filling.method ⟨m.name.name, sig, false⟩).apply

theorem alike_interfaceMethods (methods : List InterfaceMethod)
    (h : t.SameTypes t' (methods.flatMap fun m => TypeExpr.signatureBareNames m.params m.ret?)) :
    Alike (methods.mapM fun m => do
        return (m.name.name, ← resolveSignature [] m.params m.ret?)) t
      (methods.mapM fun m => do
        return (m.name.name, ← resolveSignature [] m.params m.ret?)) t' := by
  refine .mapM methods fun m hm => .bind (alike_resolveSignature _ _ _ ?_) fun _ => .pure _
  exact h.mono fun n hn => List.mem_flatMap.2 ⟨m, hm, hn⟩

/-- A declaration fills in the symbol of its name, if that is of its kind. -/
theorem fills_of_declaredSymbol? {s : Stmt} {d : Symbol} (hd : declaredSymbol? s = some d)
    (h : s.SeesSame t t') : ∃ f fs, s.Fills t (some (d.name, f)) fs ∧
      s.Fills t' (some (d.name, f)) fs ∧ f.kind = d.kind := by
  cases s with
  | function f =>
    cases hd
    obtain ⟨sig, fs, hsig, hsig'⟩ := alike_resolveSignature [] f.params f.ret? h.types
    exact ⟨.signature sig, fs, hsig.fill rfl, hsig'.fill rfl, rfl⟩
  | class_ c =>
    cases hd
    obtain ⟨⟨fields, methods⟩, fs, hm, hm'⟩ := alike_classMembers [] c h.types
    exact ⟨.members fields methods, fs, hm.fill rfl, hm'.fill rfl, rfl⟩
  | interface n methods span =>
    cases hd
    obtain ⟨infos, fs, hm, hm'⟩ := alike_interfaceMethods methods h.types
    exact ⟨.interface infos, fs, hm.fill rfl, hm'.fill rfl, rfl⟩
  | template params body span =>
    cases body with
    | function f =>
      cases hd
      obtain ⟨sig, fs, hsig, hsig'⟩ :=
        alike_resolveSignature (params.map Ident.name) f.params f.ret? h.types
      exact ⟨.template sig.toTy (some sig) none, fs, hsig.fill rfl, hsig'.fill rfl, rfl⟩
    | class_ c =>
      cases hd
      obtain ⟨⟨fields, methods⟩, fs, hm, hm'⟩ := alike_classMembers (params.map Ident.name) c h.types
      exact ⟨.template (.class_ c.name.name) none (some _), fs, hm.fill rfl, hm'.fill rfl, rfl⟩
    | _ => cases hd
  | _ => cases hd

/-- What a statement fills in is decided by what it sees. -/
theorem fills_of_seesSame (s : Stmt) (h : s.SeesSame t t') :
    ∃ change? fs, s.Fills t change? fs ∧ s.Fills t' change? fs ∧
      ∀ name f, change? = some (name, f) → s.Writes name f := by
  have hnone : ∀ s : Stmt, fillDeclaration s = pure () → ∃ change? fs, s.Fills t change? fs ∧
      s.Fills t' change? fs ∧ ∀ name f, change? = some (name, f) → s.Writes name f := by
    intro s hs
    have hfills : ∀ t, s.Fills t none [] := by
      intro t a ha
      subst ha
      rw [hs, List.append_nil]
      rfl
    exact ⟨none, [], hfills t, hfills t', fun _ _ h => by cases h⟩
  have hown : ∀ d, declaredSymbol? s = some d → ∃ change? fs, s.Fills t change? fs ∧
      s.Fills t' change? fs ∧ ∀ name f, change? = some (name, f) → s.Writes name f := by
    intro d hd
    obtain ⟨f, fs, hf, hf', hkind⟩ := fills_of_declaredSymbol? hd h
    refine ⟨_, fs, hf, hf', fun name f' heq => ?_⟩
    cases heq
    exact .own d hd rfl (hkind ▸ f.isTemplate_or_kind)
  cases s with
  | function | class_ | interface => exact hown _ rfl
  | method m =>
    cases hcls : m.receiverClass? with
    | none =>
      refine hnone (.method m) ?_
      rw [fillDeclaration, hcls]
    | some cls =>
      have hknown := h.receiver cls hcls
      have hrun : ∀ a : Analysis, (fillDeclaration (.method m)).run a =
          if (a.scopes.classInfo? cls).isNone then ((), a)
          else (addMethod cls m).run a := by
        intro a
        rw [fillDeclaration, hcls]
        show StateT.run (if (a.scopes.classInfo? cls).isNone = true then _ else _) a = _
        split <;> rfl
      cases hmissing : (t.classInfo? cls).isNone with
      | true =>
        have hfills : ∀ t, (t.classInfo? cls).isNone = true → (Stmt.method m).Fills t none [] := by
          rintro t ht a rfl
          rw [hrun, if_pos ht, List.append_nil]
          rfl
        exact ⟨none, [], hfills t hmissing, hfills t' (hknown ▸ hmissing), fun _ _ h => by cases h⟩
      | false =>
        obtain ⟨sig, fs, hsig, hsig'⟩ := alike_resolveSignature [] m.params m.ret? h.types
        have hfills : ∀ t, (t.classInfo? cls).isNone = false →
            Gives (resolveSignature [] m.params m.ret?) t sig fs →
              (Stmt.method m).Fills t (some (cls, .method ⟨m.name.name, sig, false⟩)) fs := by
          intro t ht hsig a ha
          rw [hrun, ha, ht, if_neg Bool.false_ne_true]
          exact hsig.fill rfl a ha
        refine ⟨_, fs, hfills t hmissing hsig, hfills t' (hknown ▸ hmissing) hsig', ?_⟩
        intro name f heq
        cases heq
        exact .method hcls rfl
  | template params body span =>
    cases body with
    | function | class_ => exact hown _ rfl
    | _ => exact hnone _ rfl
  | _ => exact hnone _ rfl

variable {a : Analysis} {s : Stmt}

/-- The state when a declaration has been filled in. -/
def filled (a : Analysis) (s : Stmt) : Analysis := ((fillDeclaration s).run a).2

theorem filled_eq {change? : Option (String × Filling)} {fs : List Finding}
    (h : s.Fills a.scopes change? fs) :
    filled a s = { a with scopes := a.scopes.fill change?, findings := a.findings ++ fs } := by
  rw [filled, h a rfl]

/-! ## All declarations -/

theorem run_forM {α : Type} (f : α → Check Unit) (l : List α) (a : Analysis) :
    ((l.forM f).run a).2 = l.foldl (fun a x => ((f x).run a).2) a := by
  induction l generalizing a with
  | nil => rfl
  | cons x l ih => exact ih _

theorem run_collectDeclarations (p : Program) (a : Analysis) :
    ((collectDeclarations p).run a).2 = p.stmts.foldl filled (p.stmts.foldl declared a) := by
  exact (run_forM fillDeclaration p.stmts _).trans
    (congrArg (p.stmts.foldl filled) (run_forM _ p.stmts a))

end Check

end ClassLang
