import ClassLang.Proofs.Analysis.Points
import ClassLang.Proofs.Nodes.Basic

/-!
# Findings are located

Whatever analysis reports, it reports at the span of a node, or of a symbol that was declared at one.
So if the nodes of a program are stretches of a source then its findings point into that source. Only
predeclared symbols have no place, and a second declaration of one of them is not reported.
-/

namespace ClassLang

variable {source : String}

/-! ## Spans of findings and symbols -/

/-- Everything that a finding points at is a stretch of the source. -/
structure Finding.Located (source : String) (f : Finding) : Prop where
  span : f.span.Placed source
  first : ∀ s ∈ f.cause.first?, s.Placed source

/-- A stretch of the source, or the place of a predeclared symbol. -/
def Span.Known (source : String) (s : Span) : Prop := s.line = 0 ∨ s.Placed source

theorem Table.mem_values_insert {α : Type} {t : Table α} {name : String} {a b : α}
    (h : b ∈ (t.insert name a).values) : b = a ∨ b ∈ t.values := by
  obtain ⟨⟨key, b⟩, he, rfl⟩ := List.mem_map.1 h
  have hentry : ∀ l : List (String × α), (key, b) ∈ insertEntry name a l → b = a ∨ (key, b) ∈ l := by
    intro l hl
    induction l with
    | nil => exact .inl (Prod.mk.inj (List.mem_singleton.1 hl)).2
    | cons e l ih =>
      obtain ⟨k, c⟩ := e
      rw [insertEntry] at hl
      split at hl
      · rcases List.mem_cons.1 hl with heq | hmem
        · exact .inl (Prod.mk.inj heq).2
        · exact .inr (List.mem_cons_of_mem _ hmem)
      · rcases List.mem_cons.1 hl with heq | hmem
        · exact .inr (heq ▸ List.mem_cons_self)
        · exact (ih hmem).imp_right (List.mem_cons_of_mem _)
  exact (hentry t.entries he).imp_right fun hmem => List.mem_map.2 ⟨_, hmem, rfl⟩

namespace ScopeTree

variable {t : ScopeTree}

/-- The symbols of all scopes, also of those that were left. -/
def symbols (t : ScopeTree) : List Symbol := t.scopes.flatMap fun scope => scope.symbols.values

theorem mem_symbols_of_lookupIn {i : Nat} {name : String} {s : Symbol}
    (h : t.lookupIn i name = some s) : s ∈ t.symbols := by
  obtain ⟨scope, hscope, hs⟩ := Option.bind_eq_some_iff.1 h
  exact List.mem_flatMap.2 ⟨scope, List.mem_of_getElem? hscope, Table.mem_values_of_find? hs⟩

theorem mem_modify {α : Type} {l : List α} {i : Nat} {f : α → α} {b : α} (h : b ∈ l.modify i f) :
    b ∈ l ∨ ∃ a ∈ l, b = f a := by
  obtain ⟨k, hk, rfl⟩ := List.mem_iff_getElem.1 h
  have hlt : k < l.length := by simpa using hk
  have hmem : l[k] ∈ l := List.getElem_mem hlt
  rw [List.getElem_modify]
  split
  · exact .inr ⟨_, hmem, rfl⟩
  · exact .inl hmem

theorem mem_symbols_replace {d s : Symbol} (h : s ∈ (t.replace d).symbols) :
    s ∈ t.symbols ∨ s.span = d.span := by
  obtain ⟨scope, hscope, hs⟩ := List.mem_flatMap.1 h
  rcases mem_modify hscope with hold | ⟨scope, hold, rfl⟩
  · exact .inl (List.mem_flatMap.2 ⟨scope, hold, hs⟩)
  · rcases Table.mem_values_insert hs with rfl | hs
    · exact .inr rfl
    · exact .inl (List.mem_flatMap.2 ⟨scope, hold, hs⟩)

theorem mem_symbols_modifyGlobal {name : String} {f : Symbol → Symbol}
    (hf : ∀ s, (f s).span = s.span) {s : Symbol} (h : s ∈ (t.modifyGlobal name f).symbols) :
    ∃ s' ∈ t.symbols, s.span = s'.span := by
  obtain ⟨scope, hscope, hs⟩ := List.mem_flatMap.1 h
  rcases mem_modify hscope with hold | ⟨scope, hold, rfl⟩
  · exact ⟨s, List.mem_flatMap.2 ⟨scope, hold, hs⟩, rfl⟩
  have hvalues : ∀ s' ∈ scope.symbols.values, s' ∈ t.symbols :=
    fun s' hs' => List.mem_flatMap.2 ⟨scope, hold, hs'⟩
  dsimp only [Table.modify] at hs
  split at hs
  next s' hs' =>
    rcases Table.mem_values_insert hs with rfl | hs
    · exact ⟨s', hvalues s' (Table.mem_values_of_find? hs'), hf s'⟩
    · exact ⟨s, hvalues s hs, rfl⟩
  next => exact ⟨s, hvalues s hs, rfl⟩

theorem mem_symbols_push {k : ScopeKind} {s : Symbol} (h : s ∈ (t.push k).symbols) :
    s ∈ t.symbols := by
  obtain ⟨scope, hscope, hs⟩ := List.mem_flatMap.1 h
  rcases List.mem_append.1 hscope with hold | hnew
  · rcases mem_modify hold with hsame | ⟨scope, hsame, rfl⟩
    · exact List.mem_flatMap.2 ⟨scope, hsame, hs⟩
    · exact List.mem_flatMap.2 ⟨scope, hsame, hs⟩
  · obtain rfl := List.mem_singleton.1 hnew
    cases hs

theorem symbols_pop (t : ScopeTree) : t.pop.symbols = t.symbols := by
  unfold pop
  split <;> rfl

end ScopeTree

/-- All that an analysis has noted points into the source. -/
structure Analysis.Located (source : String) (a : Analysis) : Prop where
  findings : ∀ f ∈ a.findings, f.Located source
  symbols : ∀ s ∈ a.scopes.symbols, s.span.Known source
  imports : ∀ i ∈ a.imports, i.span.Placed source

theorem Analysis.located_initial (source : String) : Analysis.initial.Located source where
  findings := nofun
  symbols := by
    have hlines : ∀ s ∈ Analysis.initial.scopes.symbols, s.span.line = 0 := by decide
    exact fun s hs => .inl (hlines s hs)
  imports := nofun

namespace Check

variable {α β : Type} {x : Check α} {f : α → Check β}

/-- A step of an analysis that notes spans of the source only. -/
def Locates (source : String) (x : Check α) : Prop :=
  ∀ a : Analysis, a.Located source → (x.run a).2.Located source

namespace Locates

theorem pure (v : α) : Locates source (Pure.pure v) := fun _ ha => ha

theorem bind (hx : Locates source x) (hf : ∀ v, Locates source (f v)) : Locates source (x >>= f) :=
  fun a ha => hf _ _ (hx a ha)

theorem reading (h : ∀ a : Analysis, (x.run a).2 = a) : Locates source x :=
  fun a ha => (h a).symm ▸ ha

theorem onlyIf {c : Bool} {x : Check Unit} (hx : Locates source x) :
    Locates source (if c = true then x else Pure.pure ()) := by
  split
  · exact hx
  · exact pure ()

theorem mapM {l : List α} (h : ∀ v ∈ l, Locates source (f v)) : Locates source (l.mapM f) := by
  induction l with
  | nil => exact pure []
  | cons v l ih =>
    rw [List.mapM_cons]
    have hl := ih fun w hw => h w (List.mem_cons_of_mem v hw)
    exact bind (h v List.mem_cons_self) fun w => bind hl fun ws => pure (w :: ws)

theorem forM {f : α → Check Unit} {l : List α} (h : ∀ v ∈ l, Locates source (f v)) :
    Locates source (l.forM f) := by
  induction l with
  | nil => exact pure ()
  | cons v l ih =>
    exact bind (h v List.mem_cons_self) fun _ => ih fun w hw => h w (List.mem_cons_of_mem v hw)

theorem scopes : Locates source Check.scopes := reading fun _ => rfl

theorem resolve (name : String) : Locates source (Check.resolve name) := reading fun _ => rfl

theorem assignable (target value : Ty) : Locates source (Check.assignable target value) :=
  reading fun _ => rfl

theorem judge (j : Judgement) : Locates source (Check.judge j) :=
  fun _ ha => ⟨ha.findings, ha.symbols, ha.imports⟩

theorem pushScope (k : ScopeKind) : Locates source (Check.pushScope k) :=
  fun _ ha => ⟨ha.findings, fun s hs => ha.symbols s (ScopeTree.mem_symbols_push hs), ha.imports⟩

theorem popScope : Locates source Check.popScope :=
  fun a ha => ⟨ha.findings, fun s hs => ha.symbols s (a.scopes.symbols_pop ▸ hs), ha.imports⟩

theorem usePackage (name : String) : Locates source (Check.usePackage name) := by
  refine fun a ha => ⟨ha.findings, ha.symbols, fun i hi => ?_⟩
  obtain ⟨j, hj, rfl⟩ := List.mem_map.1 hi
  split
  · exact ha.imports j hj
  · exact ha.imports j hj

theorem replace {d : Symbol} (h : d.span.Known source) : Locates source (Check.replace d) := by
  refine fun a ha => ⟨ha.findings, fun s hs => ?_, ha.imports⟩
  rcases ScopeTree.mem_symbols_replace hs with hs | hspan
  · exact ha.symbols s hs
  · exact hspan ▸ h

theorem modifyGlobal (name : String) {f : Symbol → Symbol} (hf : ∀ s, (f s).span = s.span) :
    Locates source (Check.modifyGlobal name f) := by
  refine fun a ha => ⟨ha.findings, fun s hs => ?_, ha.imports⟩
  obtain ⟨s', hs', hspan⟩ := ScopeTree.mem_symbols_modifyGlobal hf hs
  exact hspan ▸ ha.symbols s' hs'

/-- A finding at a span of the source. -/
theorem report_at {cause : Finding.Cause} {span : Span} (h : span.Placed source)
    (hfirst : ∀ s ∈ cause.first?, s.Placed source) : Locates source (Check.report cause span) := by
  refine fun a ha => ⟨fun f hf => ?_, ha.symbols, ha.imports⟩
  rcases List.mem_append.1 hf with hf | hf
  · exact ha.findings f hf
  · obtain rfl := List.mem_singleton.1 hf
    exact ⟨h, hfirst⟩

/-- A finding that does not refer back. -/
theorem report {cause : Finding.Cause} {span : Span} (h : span.Placed source)
    (hcause : cause.first? = none) : Locates source (Check.report cause span) :=
  report_at h (by rw [hcause]; exact nofun)

theorem noteShadowing {d : Symbol} (h : d.span.Placed source) :
    Locates source (Check.noteShadowing d) :=
  bind scopes fun _ => onlyIf (report h rfl)

/-- Only what has a place is reported as the first declaration. -/
theorem declare {d : Symbol} (h : d.span.Placed source) : Locates source (Check.declare d) := by
  intro a ha
  rw [run_declare_eq_define]
  have hb := noteShadowing h a ha
  generalize ((Check.noteShadowing d).run a).2 = b at hb
  rw [ScopeTree.define]
  cases hfirst : b.scopes.resolveLocal d.name with
  | none =>
    have hreplaced : Analysis.Located source { b with scopes := b.scopes.replace d } :=
      replace (.inr h) b hb
    exact hreplaced
  | some first =>
    have hknown := hb.symbols first (ScopeTree.mem_symbols_of_lookupIn hfirst)
    dsimp only
    split
    · exact replace (.inr h) b hb
    next hline =>
      refine report_at h (fun s hs => ?_) b hb
      obtain rfl := Option.some.inj hs
      exact hknown.resolve_left hline

theorem redefine {d : Symbol} (h : d.span.Placed source) : Locates source (Check.redefine d) :=
  bind (noteShadowing h) fun _ => replace (.inr h)

/-! ## Steps that look at no subexpression -/

theorem undefinedType {n : Ident} (h : (Node.ident n).Sound source) :
    Locates source (Check.undefinedType n) := bind (report h.placed rfl) fun _ => pure _

mutual

theorem resolveType (bound : List String) : (t : TypeExpr) → (Node.type t).Sound source →
    Locates source (Check.resolveType bound t)
  | .named n, h => by
    have hname := h.children (.ident n) List.mem_cons_self
    rw [Check.resolveType]
    split
    · exact pure _
    · split
      · exact pure _
      · refine bind (resolve _) fun s? => ?_
        split
        · exact undefinedType hname
        · split
          · exact pure _
          · exact pure _
          · exact pure _
          · split
            · exact pure _
            · exact undefinedType hname
          · exact undefinedType hname
  | .array element _, h =>
    bind (resolveType bound element (h.children _ List.mem_cons_self)) fun _ => pure _
  | .map key value _, h =>
    bind (resolveType bound key (h.children _ List.mem_cons_self)) fun _ =>
      bind (resolveType bound value (h.children _ (List.mem_cons_of_mem _ List.mem_cons_self)))
        fun _ => pure _
  | .pointer inner _, h => resolveType bound inner (h.children _ List.mem_cons_self)
  | .generic n args _, h => by
    have hname := h.children (.ident n) List.mem_cons_self
    have hargs := resolveTypes bound args fun t ht =>
      h.children _ (List.mem_cons_of_mem _ (List.mem_map_of_mem ht))
    refine bind hargs fun _ => bind (resolve _) fun s? => ?_
    split
    · exact undefinedType hname
    · split
      · exact pure _
      · exact bind (report hname.placed rfl) fun _ => pure _

theorem resolveTypes (bound : List String) : (ts : List TypeExpr) →
    (∀ t ∈ ts, (Node.type t).Sound source) → Locates source (Check.resolveTypes bound ts)
  | [], _ => pure _
  | t :: ts, h =>
    bind (resolveType bound t (h t List.mem_cons_self)) fun _ =>
      bind (resolveTypes bound ts fun u hu => h u (List.mem_cons_of_mem t hu)) fun _ => pure _

end

theorem resolveOptional (bound : List String) (missing : Ty) {t? : Option TypeExpr}
    (h : ∀ t ∈ t?, (Node.type t).Sound source) :
    Locates source (Check.resolveOptional bound missing t?) := by
  cases t? with
  | some t => exact resolveType bound t (h t rfl)
  | none => exact pure _

theorem declaredType {t? : Option TypeExpr} (h : ∀ t ∈ t?, (Node.type t).Sound source) :
    Locates source (t?.mapM (Check.resolveType [])) := by
  cases t? with
  | some t => exact bind (resolveType [] t (h t rfl)) fun _ => pure _
  | none => exact pure _

theorem resolveSignature (bound : List String) {params : List Param} {ret? : Option TypeExpr}
    (hparams : ∀ p ∈ params, (Node.param p).Sound source)
    (hret : ∀ t ∈ ret?, (Node.type t).Sound source) :
    Locates source (Check.resolveSignature bound params ret?) := by
  refine bind (mapM fun p hp => resolveOptional _ _ fun t ht => ?_) fun _ =>
    bind (resolveOptional _ _ hret) fun _ => pure _
  obtain ⟨name, type?, span⟩ := p
  obtain rfl := ht
  exact (hparams _ hp).children _ (List.mem_cons_of_mem _ List.mem_cons_self)

theorem binaryResult (op : InfixOp) (left right : Ty) {span : Span} (h : span.Placed source) :
    Locates source (Check.binaryResult op left right span) := by
  refine bind (judge _) fun _ => bind scopes fun t => ?_
  split
  · exact pure _
  · exact bind (report h rfl) fun _ => pure _

theorem identifierType {n : Ident} (h : (Node.ident n).Sound source) :
    Locates source (Check.identifierType n) := by
  refine bind (judge _) fun _ => bind (resolve _) fun s? => ?_
  split
  · exact bind (report h.placed rfl) fun _ => pure _
  · split
    · exact bind (usePackage _) fun _ => pure _
    · exact pure _

theorem checkTarget {e : Expr} (h : (Node.expr e).Sound source) :
    Locates source (Check.checkTarget e) := by
  unfold Check.checkTarget
  split
  next n =>
    refine bind (resolve _) fun s? => ?_
    dsimp only
    split
    · exact bind (report h.placed rfl) fun _ => pure _
    · exact pure _
  · exact pure _
  · exact pure _
  · exact bind (report h.placed rfl) fun _ => pure _

theorem packageOf? (e : Expr) : Locates source (Check.packageOf? e) := by
  unfold Check.packageOf?
  split
  · refine bind (resolve _) fun s? => ?_
    split
    · exact bind (usePackage _) fun _ => pure _
    · exact pure _
  · exact pure _

theorem packageMember (package : String) {member : Ident} (h : (Node.ident member).Sound source) :
    Locates source (Check.packageMember package member) := by
  unfold Check.packageMember
  dsimp only
  split
  · exact bind (report h.placed rfl) fun _ => pure _
  · exact pure _

theorem memberType (object : Ty) {property : Ident} (h : (Node.ident property).Sound source) :
    Locates source (Check.memberType object property) := by
  unfold Check.memberType
  split
  · exact pure _
  · refine bind scopes fun t => ?_
    dsimp only
    split
    · exact bind (report h.placed rfl) fun _ => pure _
    · exact pure _

theorem signatureOf {callee : Expr} (h : (Node.expr callee).Sound source) (ty : Ty) :
    Locates source (Check.signatureOf callee ty) := by
  unfold Check.signatureOf
  split
  · exact pure _
  · split
    · exact bind (report h.placed rfl) fun _ => pure _
    · exact pure _

theorem instantiate {n : Ident} {args : List TypeExpr} {span : Span}
    (h : (Node.expr (.templateInstance n args span)).Sound source) :
    Locates source (Check.instantiate n args span) := by
  have hname := h.children (.ident n) List.mem_cons_self
  have hargs : ∀ t ∈ args, (Node.type t).Sound source := fun t ht =>
    h.children _ (List.mem_cons_of_mem _ (List.mem_map_of_mem ht))
  refine bind (resolveTypes [] args hargs) fun args => bind (resolve _) fun s? => ?_
  split
  · exact bind (report hname.placed rfl) fun _ => pure _
  · split
    · exact bind (report hname.placed rfl) fun _ => pure _
    · split
      · exact bind (report h.placed rfl) fun _ => pure _
      · split <;> exact pure _

theorem sound_base : (t : TypeExpr) → (Node.type t).Sound source → (Node.type t.base).Sound source
  | .pointer inner _, h => sound_base inner (h.children _ List.mem_cons_self)
  | .named _, h | .array _ _, h | .map _ _ _, h | .generic _ _ _, h => h

/-- The name of a class in `new` is one that is written there. -/
theorem newClass {type : TypeExpr} {f : Option Ident → Check β} (h : (Node.type type).Sound source)
    (hnone : Locates source (f none))
    (hsome : ∀ n, (Node.ident n).Sound source → Locates source (f (some n))) :
    Locates source (Check.newClass type >>= f) := by
  have hbase := sound_base type h
  unfold Check.newClass
  split
  next n args _ =>
    have hargs := resolveTypes [] args fun t ht =>
      h.children _ (List.mem_cons_of_mem _ (List.mem_map_of_mem ht))
    rw [bind_assoc]
    exact bind hargs fun _ => hsome n (h.children _ List.mem_cons_self)
  · split
    next n heq => exact hsome n ((heq ▸ hbase).children _ List.mem_cons_self)
    next =>
      rw [bind_assoc]
      exact bind (report hbase.placed rfl) fun _ => hnone

theorem checkCount? (callee : String) (sig? : Option Signature) (count : Nat) {span : Span}
    (h : span.Placed source) : Locates source (Check.checkCount? callee sig? count span) := by
  cases sig? with
  | some sig => exact onlyIf (report h rfl)
  | none => exact pure _

theorem checkAssignable (expected actual : Ty) {span : Span} (h : span.Placed source) :
    Locates source (Check.checkAssignable expected actual span) :=
  bind (assignable _ _) fun _ => onlyIf (report h rfl)

theorem usedAsValue {e : Expr} (h : (Node.expr e).Sound source) (ty : Ty) :
    Locates source (Check.usedAsValue e ty) := by
  unfold Check.usedAsValue
  split
  · exact bind (report h.placed rfl) fun _ => pure _
  · exact pure _

theorem checkBool (ty : Ty) {span : Span} (h : span.Placed source) :
    Locates source (Check.checkBool ty span) := onlyIf (report h rfl)

theorem commonType (common? : Option Ty) (ty : Ty) {span : Span} (h : span.Placed source) :
    Locates source (Check.commonType common? ty span) := by
  unfold Check.commonType
  split
  · exact pure _
  · split
    · exact pure _
    · refine bind (judge _) fun _ => ?_
      dsimp only
      split
      · exact bind (report h rfl) fun _ => pure _
      · exact pure _

theorem bindFields (cls : String) {span : Span} (h : span.Placed source) :
    Locates source (Check.bindFields cls span) :=
  bind scopes fun _ => forM fun _ _ => replace (.inr h)

theorem checkImports (paths : List String) {span : Span} (h : span.Placed source) :
    Locates source (Check.checkImports paths span) := by
  refine forM fun path _ => bind scopes fun t => ?_
  have himport : Locates source (modify fun a : Analysis => { a with
      imports := a.imports ++ [{ name := lastSegment path, path, span }] }) := by
    refine fun a ha => ⟨ha.findings, ha.symbols, fun i hi => ?_⟩
    rcases List.mem_append.1 hi with hi | hi
    · exact ha.imports i hi
    · obtain rfl := List.mem_singleton.1 hi
      exact h
  split
  · exact bind (replace (.inr h)) fun _ => himport
  · exact himport

theorem checkHeader {name : Ident} {extends? : Option Ident} {implements : List Ident}
    (hname : (Node.ident name).Sound source)
    (hextends : ∀ n ∈ extends?, (Node.ident n).Sound source)
    (himplements : ∀ n ∈ implements, (Node.ident n).Sound source) :
    Locates source (Check.checkHeader name extends? implements) := by
  have hinterfaces : Locates source (Check.checkHeader name none implements) := by
    show Locates source (implements.forM _)
    refine forM fun i hi => bind scopes fun t => ?_
    split
    · exact forM fun m _ => onlyIf (report hname.placed rfl)
    · split
      · exact report (himplements i hi).placed rfl
      · exact bind (undefinedType (himplements i hi)) fun _ => pure _
  unfold Check.checkHeader
  split
  next parent =>
    have hparent := hextends parent rfl
    refine bind (resolve _) fun s? => ?_
    split
    · split
      · exact bind (report hparent.placed rfl) fun _ => hinterfaces
      · exact hinterfaces
    · exact bind (bind (undefinedType hparent) fun _ => pure _) fun _ => hinterfaces
  · exact hinterfaces

/-- The three names in the header of a class. -/
theorem openClass {c : Class} (h : (Node.class_ c).Sound source) :
    Locates source (Check.openClass c.name c.extends? c.implements) := by
  have hparts := h.children
  simp only [Node.children, List.forall_mem_append, List.forall_mem_cons, List.forall_mem_map,
    Option.mem_toList] at hparts
  obtain ⟨⟨⟨hname, hextends⟩, himplements⟩, -⟩ := hparts
  exact bind (checkHeader hname hextends himplements) fun _ => bind scopes fun _ =>
    bind (pushScope _) fun _ => bind (bindFields _ hname.placed) fun _ => pure _

theorem declareParams {params : List Param} (h : ∀ p ∈ params, (Node.param p).Sound source)
    (sig : Signature) : Locates source (Check.declareParams params sig) := by
  refine forM fun v hv => ?_
  have hparam := h v.1 (List.of_mem_zip hv).1
  exact declare (hparam.children _ List.mem_cons_self).placed

theorem thisType (ctx : Context) {span : Span} (h : span.Placed source) :
    Locates source (Check.thisType ctx span) := by
  unfold Check.thisType
  split
  · exact pure _
  · exact bind (report h rfl) fun _ => pure _

theorem superType (ctx : Context) {span : Span} (h : span.Placed source) :
    Locates source (Check.superType ctx span) := by
  refine bind scopes fun t => ?_
  split
  · exact pure _
  · exact bind (report h rfl) fun _ => pure _

theorem namedSignature {n : Ident} (h : (Node.expr (.ident n)).Sound source) :
    Locates source (Check.namedSignature (.ident n) n) := by
  refine bind (judge _) fun _ => bind (resolve _) fun s? => ?_
  split
  · exact bind (report h.placed rfl) fun _ => pure _
  · split
    · exact pure _
    · exact signatureOf h _

theorem defineByAssignment (ctx : Context) {n : Ident} (h : (Node.ident n).Sound source)
    (value : Ty) : Locates source (Check.defineByAssignment ctx n value) :=
  bind (redefine h.placed) fun _ => pure _

theorem declareVariable (ctx : Context) (kind : SymbolKind) {n : Ident}
    (h : (Node.ident n).Sound source) (declared? : Option Ty) {value? : Option (Ty × Span)}
    (hvalue : ∀ v ∈ value?, v.2.Placed source) :
    Locates source (Check.declareVariable ctx kind n declared? value?) := by
  have hdeclare : ∀ ty, Locates source (Check.declare { name := n.name, kind, ty, span := n.span }) :=
    fun _ => declare h.placed
  unfold Check.declareVariable
  split
  · exact bind (checkAssignable _ _ (hvalue _ rfl)) fun _ => hdeclare _
  · exact hdeclare _
  · exact hdeclare _
  · exact hdeclare _

theorem checkReturned (ctx : Context) (actual : Ty) {span : Span} (h : span.Placed source) :
    Locates source (Check.checkReturned ctx actual span) := by
  unfold Check.checkReturned
  split
  · exact report h rfl
  · exact bind scopes fun _ => onlyIf (report h rfl)

theorem openTemplate {params : List Ident} (h : ∀ p ∈ params, (Node.ident p).Sound source) :
    Locates source (Check.openTemplate params) :=
  bind (pushScope _) fun _ => forM fun p hp => declare (h p hp).placed

theorem functionSignature {f : Function} (hparams : ∀ p ∈ f.params, (Node.param p).Sound source)
    (hret : ∀ t ∈ f.ret?, (Node.type t).Sound source) :
    Locates source (Check.functionSignature f) := by
  refine bind (resolve _) fun s? => ?_
  dsimp only
  split
  · exact pure _
  · exact resolveSignature [] hparams hret

theorem templateSignature {f : Function} (hparams : ∀ p ∈ f.params, (Node.param p).Sound source)
    (hret : ∀ t ∈ f.ret?, (Node.type t).Sound source) :
    Locates source (Check.templateSignature f) := by
  refine bind scopes fun t => ?_
  dsimp only
  split
  · exact pure _
  · exact resolveSignature [] hparams hret

theorem memberSignature (info? : Option ClassInfo) {f : Function}
    (hparams : ∀ p ∈ f.params, (Node.param p).Sound source)
    (hret : ∀ t ∈ f.ret?, (Node.type t).Sound source) :
    Locates source (Check.memberSignature info? f) := by
  unfold Check.memberSignature
  split
  · exact pure _
  · exact resolveSignature [] hparams hret

theorem methodSignature {m : Method} (hreceiver : (Node.param m.receiver).Sound source)
    (hparams : ∀ p ∈ m.params, (Node.param p).Sound source)
    (hret : ∀ t ∈ m.ret?, (Node.type t).Sound source) :
    Locates source (Check.methodSignature m) := by
  refine bind scopes fun t => ?_
  dsimp only
  split
  · exact pure _
  · have htype := resolveOptional [] .unknown fun t ht => hreceiver.children _
      (List.mem_cons_of_mem _ (List.mem_map_of_mem (Option.mem_toList.2 ht)))
    exact bind htype fun _ => bind (resolveSignature [] hparams hret) fun _ => pure _

theorem openMethod {receiver : Param} (h : (Node.param receiver).Sound source) (ty : Ty) :
    Locates source (Check.openMethod receiver ty) := by
  have hname := (h.children _ List.mem_cons_self).placed
  refine bind (pushScope _) fun _ => ?_
  split
  · exact bind (bindFields _ hname) fun _ => redefine hname
  · exact redefine hname

theorem openCatch {c : Catch} (h : (Node.catch_ c).Sound source) :
    Locates source (Check.openCatch c) := by
  have hparts := h.children
  simp only [Node.children, List.forall_mem_append, List.forall_mem_map, Option.mem_toList] at hparts
  obtain ⟨⟨hparam, htype⟩, -⟩ := hparts
  refine bind (pushScope _) fun _ => ?_
  split
  next p heq => exact bind (resolveOptional _ _ htype) fun _ => declare (hparam p heq).placed
  next => exact pure _

end Locates

end Check

end ClassLang
