import ClassLang.Proofs.Evolution.Program
import ClassLang.Proofs.Symbols.Layouts
import Mathlib.Data.List.Nodup
import Mathlib.Data.List.Pairwise

/-!
# Symbols of programs

`Catalog.symbols` lists the names that a program asks for, as often as it asks for them: those of its
declarations and of the instances it makes, and two of its own for the start and the entry. Where no
name is asked for twice, and none looks like that of a lambda or a string, no symbol of the module is
defined twice.
-/

namespace ClassLang

/-! ## The names that are asked for -/

namespace Stmt

/-- The global that a statement declares. -/
def storage : Stmt → List String
  | .var name .. | .const name .. => [name.name]
  | _ => []

/-- The functions that are declared in a statement that runs when the program starts. -/
def started : Stmt → List String
  | .function _ => []
  | s => s.inner

/-- The table of a class. -/
def table : Stmt → List String
  | .class_ d => [Layout.vtableName d.name.name]
  | _ => []

/-- Whether a statement declares the entry. -/
def isEntry : Stmt → Bool
  | .function f => f.name.name == "main"
  | _ => false

end Stmt

namespace Catalog

/-- The functions that are generated for a statement of the top level. -/
def generated (c : Catalog) : Stmt → List String
  | .function f => c.functionsOf f.name.name (.function f)
  | .class_ d => c.functionsOf d.name.name (.class_ d)
  | .method m =>
    match m.receiverClass? with
    | none => []
    | some cls =>
      if c.classes.contains cls || c.templates.contains cls then []
      else Layout.methodSymbol cls m.name.name :: m.body.inner
  | _ => []

/-- The names that a statement of the top level has. -/
def symbolsOf (c : Catalog) (s : Stmt) : List String :=
  s.storage ++ s.started ++ c.generated s ++ s.table

/-- The names of the start and, unless the program declares it, of the entry. -/
def ownSymbols (p : Program) : List String :=
  Lower.initName :: if p.stmts.any Stmt.isEntry then [] else ["main"]

/-- All names that a program asks for when it makes certain instances. -/
def symbols (c : Catalog) (p : Program) (requests : List Request) : List String :=
  ownSymbols p ++ p.stmts.flatMap c.symbolsOf ++ requests.flatMap c.instanceSymbols

/-! ## Classes of a program -/

variable {c : Catalog} {name : String}

theorem vtableName_inj {name name' : String} :
    Layout.vtableName name = Layout.vtableName name' ↔ name = name' :=
  String.append_left_inj "_vtable"

theorem classes_add (s : Stmt) (h : Layout.vtableName name ∉ s.table) :
    (c.add s).classes.find? name = c.classes.find? name := by
  cases s with
  | class_ d =>
    rw [Stmt.table, List.mem_singleton, vtableName_inj] at h
    rw [add, Table.find?_insert, if_neg (by simpa using h)]
  | template params body span =>
    rw [add]
    cases body.templateName? <;> rfl
  | _ => rfl

theorem classes_foldl_add (stmts : List Stmt)
    (h : Layout.vtableName name ∉ stmts.flatMap Stmt.table) :
    (stmts.foldl add c).classes.find? name = c.classes.find? name := by
  induction stmts generalizing c with
  | nil => rfl
  | cons s stmts ih =>
    rw [List.flatMap_cons, List.mem_append, not_or] at h
    exact (ih h.2).trans (classes_add s h.1)

/-- A class is found under its name if no other class has it. -/
theorem find?_class {d : Class} (stmts : List Stmt) (hd : .class_ d ∈ stmts)
    (h : (stmts.flatMap Stmt.table).Nodup) :
    (stmts.foldl add c).classes.find? d.name.name = some d := by
  induction stmts generalizing c with
  | nil => cases hd
  | cons s stmts ih =>
    rw [List.flatMap_cons] at h
    obtain ⟨_, hstmts, hdisjoint⟩ := List.nodup_append.1 h
    rcases List.mem_cons.1 hd with rfl | hd
    · rw [List.foldl_cons, classes_foldl_add, add, Table.find?_insert, if_pos (beq_self_eq_true _)]
      intro hmem
      exact hdisjoint _ (List.mem_singleton_self _) _ hmem rfl
    · exact ih hd hstmts

/-- A class of the program has a table. -/
theorem table_of_contains {p : Program} {scopes : ScopeTree} {file? : Option String} {limit : Nat}
    (h : (ofProgram scopes file? p limit).classes.contains name = true) :
    Layout.vtableName name ∈ p.stmts.flatMap Stmt.table := by
  by_contra hname
  rw [Table.contains, ofProgram, classes_foldl_add p.stmts hname] at h
  cases h

end Catalog

/-! ## Layouts of classes and of instances -/

namespace GenState

variable {c : Catalog} {tables L : List String} {g g' : GenState} {name : String}

/-- The tables of classes and the names of the instances that were asked for are distinct. -/
def Distinct (g : GenState) (c : Catalog) (tables : List String) : Prop :=
  (tables ++ g.requests.flatMap c.instanceSymbols).Nodup

theorem Distinct.before (h : g'.Distinct c tables) (hrequests : g.requests <+: g'.requests) :
    g.Distinct c tables :=
  ((List.Sublist.refl tables).append (hrequests.sublist.flatMap c.instanceSymbols)).nodup h

theorem Distinct.nodup_functionsOf {body : Stmt} (h : g.Distinct c tables)
    (hbody : g.Requested c name body) : (c.functionsOf name body).Nodup := by
  obtain ⟨r, hr, rfl, hbody⟩ := hbody
  have hnodup := (List.nodup_flatMap.1 (List.nodup_append.1 h).2.1).1 r hr
  rw [Catalog.instanceSymbols_eq hbody] at hnodup
  exact (List.nodup_append.1 hnodup).2.1

/-- Only one class is laid out under a name. -/
theorem Distinct.unique {d d' : Class} (h : g.Distinct c tables)
    (htables : ∀ name, c.classes.contains name = true → Layout.vtableName name ∈ tables)
    (hd : c.classes.find? name = some d ∨ g.Requested c name (.class_ d))
    (hd' : c.classes.find? name = some d' ∨ g.Requested c name (.class_ d')) : d = d' := by
  obtain ⟨_, hinstances, hdisjoint⟩ := List.nodup_append.1 h
  have hmem : ∀ {d : Class} {r : Request}, r.symbol = name →
      (c.templates.find? r.template).map Template.body = some (.class_ d) →
      Layout.vtableName name ∈ c.instanceSymbols r := by
    rintro d r rfl hbody
    rw [Catalog.instanceSymbols_eq hbody]
    exact List.mem_cons_self
  -- A class and an instance do not share a name, because they do not share a table.
  have happart : ∀ {d d' : Class}, c.classes.find? name = some d →
      ¬g.Requested c name (.class_ d') := by
    rintro d d' hd ⟨r, hr, hsymbol, hbody⟩
    have hname := htables name (by rw [Table.contains, hd]; rfl)
    exact hdisjoint _ hname _ (List.mem_flatMap.2 ⟨r, hr, hmem hsymbol hbody⟩) rfl
  rcases hd with hd | hd <;> rcases hd' with hd' | hd'
  · exact Option.some.inj (hd.symm.trans hd')
  · exact absurd hd' (happart hd)
  · exact absurd hd (happart hd')
  · obtain ⟨r, hr, hsymbol, hbody⟩ := hd
    obtain ⟨r', hr', hsymbol', hbody'⟩ := hd'
    have hsame : r = r' := by
      by_contra hne
      have happart := (List.nodup_flatMap.1 hinstances).2
      have : Std.Symm (Function.onFun List.Disjoint c.instanceSymbols) :=
        ⟨fun _ _ h _ ha hb => h hb ha⟩
      exact happart.forall hr hr' hne (hmem hsymbol hbody) (hmem hsymbol' hbody')
    subst hsame
    rw [hbody] at hbody'
    cases hbody'
    rfl

/-- Between two states names are defined as in `Defines`, if in the end all tables and instances have
distinct names. -/
def Completes (c : Catalog) (tables L : List String) (g g' : GenState) : Prop :=
  g.requests <+: g'.requests ∧ (g'.Distinct c tables → Defines c (fun _ => True) L g g')

theorem Completes.of_defines {P : String → Prop} (hrequests : g.requests <+: g'.requests)
    (h : Defines c P L g g') : Completes c tables L g g' :=
  ⟨hrequests, fun _ htidy => (h htidy).mono (fun _ _ => trivial) fun _ => Nat.le_refl _⟩

/-- No instance is asked for. -/
theorem Completes.of_eq (hrequests : g'.requests = g.requests)
    (h : Defines c (fun _ => True) L g g') : Completes c tables L g g' :=
  .of_defines (hrequests ▸ List.prefix_refl _) h

end GenState

instance (c : Catalog) (tables : List String) :
    GenState.Ambient (GenState.Completes c tables []) where
  refl g := .of_eq rfl (GenState.Ambient.refl g)
  trans h h' := ⟨h.1.trans h'.1, fun hdistinct =>
    GenState.Ambient.trans (h.2 (hdistinct.before h'.1)) (h'.2 hdistinct)⟩
  report g e := .of_eq rfl (GenState.Ambient.report g e)
  declare g d := .of_eq rfl (GenState.Ambient.declare g d)
  string g bytes := .of_eq rfl (GenState.Ambient.string g bytes)
  copy g k := .of_eq rfl (GenState.Ambient.copy g k)
  visit g v := .of_eq rfl (GenState.Ambient.visit g v)

instance (c : Catalog) (tables : List String) : GenState.Graded (GenState.Completes c tables) where
  ambient := inferInstance
  append h h' := ⟨h.1.trans h'.1, fun hdistinct =>
    GenState.Graded.append (h.2 (hdistinct.before h'.1)) (h'.2 hdistinct)⟩
  mono hL h := ⟨h.1, fun hdistinct => GenState.Graded.mono hL (h.2 hdistinct)⟩

/-- What is declared at the start is declared in statements that are not functions. -/
theorem Stmt.sublist_started (computed : List String) (stmts : List Stmt) :
    (innerAll (stmts.filter (Gen.runsAtStart computed))).Sublist (stmts.flatMap started) := by
  induction stmts with
  | nil => exact List.Sublist.refl _
  | cons s stmts ih =>
    rw [List.filter_cons, List.flatMap_cons]
    split
    next hs =>
      rw [innerAll]
      refine List.Sublist.append ?_ ih
      cases s with
      | function f => cases hs
      | _ => exact List.Sublist.refl _
    next => exact ih.trans (List.sublist_append_right _ _)

/-! ## Functions, classes and instances -/

namespace Gen.Completes

open GenState (Completes Defines)

variable {c : Catalog} {tables : List String} {env : Env}

theorem of_defines {α : Type} {x : Gen α} {L : List String}
    (hx : x.Follows (Defines c c.Plain L)) (hevolves : x.Evolves) :
    x.Follows (Completes c tables L) := fun g => .of_defines (hevolves g).requests (hx g)

variable (hc : c.Settled)
include hc

theorem setting (fuel : Nat) (henv : env.Fits c (· = [])) :
    Lower.Setting c (Defines c c.Plain) List.Nodup (· = []) (Lower.detourAt fuel) env :=
  ⟨Defines.walk hc, .detourAt (Defines.walk hc) fuel, henv⟩

theorem writtenSignature (henv : env.catalog = c) (params : List Param) (ret? : Option TypeExpr) :
    (Gen.writtenSignature env.typing params ret?).Follows (Completes c tables []) := by
  exact of_defines (Follows.writtenSignature params ret? (.inl (Defines.typing hc henv)))
    (Follows.writtenSignature params ret? (.inl (Evolves.typing _ _)))

theorem generateFunction (fuel : Nat) (henv : env.catalog = c) (symbol : String)
    (params : List Param) (sig : Signature) {body : Block} (hbody : body.inner.Nodup) (span : Span)
    (class? receiver? : Option String) :
    (Gen.generateFunction (Lower.detourAt fuel) env symbol params sig body span class?
      receiver?).Follows (Completes c tables (symbol :: body.inner)) := by
  let h : Lower.Head := .ofSignature symbol params sig span class?
  have henv : (h.env env).Fits c (· = []) := ⟨henv, fun _ ht => nomatch ht⟩
  have hentry := Lower.Follows.entry (setting hc fuel henv) receiver? body hbody
  refine of_defines (Follows.function (h := h) (Defines.walk hc) hentry) fun g => ?_
  exact Evolves.generateFunction (Lower.Evolves.detourAt fuel) _ _ _ _ _ _ _ g

/-- A method of a class whose layout has the functions of the class. -/
theorem generateMember (fuel : Nat) (henv : env.catalog = c) {name m : String} {d : Class}
    {l : Layout} (hsymbols : ∀ m, c.declares m d = true → ∀ e, l.methods.find? m = some e →
      e.symbol = Layout.methodSymbol name m)
    (hm : m ∈ (c.declaredMethods d).map Prod.fst) (params : List Param) {body : Block}
    (hnodup : (Layout.methodSymbol name m :: body.inner).Nodup) (span : Span)
    (class? : MethodEntry → Option String) (receiver? : Option String) :
    Follows (Completes c tables (Layout.methodSymbol name m :: body.inner)) (
      match l.methods.find? m with
      | none => return
      | some entry => Gen.generateFunction (Lower.detourAt fuel) env entry.symbol params
          entry.signature body span (class? entry) receiver?) := by
  split
  · exact .any (.pure _)
  next e he =>
    obtain ⟨d', hd', hname⟩ := List.mem_map.1 hm
    rw [hsymbols m (List.any_eq_true.2 ⟨d', hd', beq_iff_eq.2 hname⟩) e he]
    exact generateFunction hc fuel henv _ _ _ (List.nodup_cons.1 hnodup).2 _ _ _

theorem generateMethods (fuel : Nat) (henv : env.catalog = c) {name : String} {d : Class}
    {l : Layout} (hsymbols : ∀ m, c.declares m d = true → ∀ e, l.methods.find? m = some e →
      e.symbol = Layout.methodSymbol name m) (hnodup : (c.functionsOf name (.class_ d)).Nodup) :
    Follows (Completes c tables (c.functionsOf name (.class_ d))) (do
      d.methods.forM fun m =>
        match l.methods.find? m.name.name with
        | none => return
        | some entry =>
          Gen.generateFunction (Lower.detourAt fuel) env entry.symbol m.params entry.signature m.body
            m.span (if entry.isStatic then none else some name) none
      (env.catalog.methodsOf d.name.name).forM fun m =>
        match l.methods.find? m.name.name with
        | none => return
        | some entry =>
          Gen.generateFunction (Lower.detourAt fuel) env entry.symbol m.params entry.signature m.body
            m.span (some name) (some m.receiver.name.name)) := by
  obtain ⟨hinner, houter, _⟩ := List.nodup_append.1 hnodup
  have hmethods : (c.declaredMethods d).map Prod.fst =
      d.methods.map (·.name.name) ++ (c.methodsOf d.name.name).map (·.name.name) := by
    rw [Catalog.declaredMethods, List.map_append, List.map_map, List.map_map]
    rfl
  refine .append (.flatMap _ fun m hm => ?_) fun _ => ?_
  · refine generateMember hc fuel henv hsymbols ?_ _ ((List.nodup_flatMap.1 hinner).1 m hm) _
      (fun e => if e.isStatic then none else some name) _
    rw [hmethods]
    exact List.mem_append_left _ (List.mem_map.2 ⟨m, hm, rfl⟩)
  · rw [henv]
    refine .flatMap _ fun m hm => ?_
    refine generateMember hc fuel henv hsymbols ?_ _ ((List.nodup_flatMap.1 houter).1 m hm) _
      (fun _ => some name) _
    rw [hmethods]
    exact List.mem_append_right _ (List.mem_map.2 ⟨m, hm, rfl⟩)

variable (htables : ∀ name, c.classes.contains name = true → Layout.vtableName name ∈ tables)
include htables

theorem generateClass (fuel : Nat) (henv : env.catalog = c) {name : String} {d : Class}
    {g : GenState}
    (hsource : c.classes.find? name = some d ∨ g.Requested c name (.class_ d))
    (hnodup : (c.functionsOf name (.class_ d)).Nodup) :
    g.Completes c tables (c.functionsOf name (.class_ d))
      ((Gen.generateClass (Lower.detourAt fuel) env name d).run g).2 := by
  have hevolves : g.Evolves ((Gen.generateClass (Lower.detourAt fuel) env name d).run g).2 :=
    Evolves.generateClass (Lower.Evolves.detourAt fuel) name d g
  refine ⟨hevolves.requests, fun hdistinct htidy => ?_⟩
  have hdistinct₀ := hdistinct.before hevolves.requests
  have hrun : (layout? name).run g = (g.layouts.find? name, g) := rfl
  rw [Gen.generateClass, StateT.run_bind, hrun] at hdistinct ⊢
  cases hl : g.layouts.find? name with
  | none =>
    rw [hl] at hdistinct
    exact (Follows.any (Follows.pure (R := Completes c tables []) ()) g).2 hdistinct htidy
  | some l =>
    rw [hl] at hdistinct
    obtain ⟨d', hd'⟩ := htidy.layouts name l hl
    obtain rfl := hdistinct₀.unique htables hsource hd'.source
    exact (generateMethods hc fuel henv hd'.symbols hnodup g).2 hdistinct htidy

omit htables in
theorem generateDetached (fuel : Nat) (henv : env.catalog = c) (m : Method)
    (hnodup : (c.generated (.method m)).Nodup) :
    (Gen.generateDetached (Lower.detourAt fuel) env m).Follows
      (Completes c tables (c.generated (.method m))) := by
  unfold Gen.generateDetached
  rw [Catalog.generated] at hnodup ⊢
  cases hcls : m.receiverClass? with
  | none => exact .pure _
  | some cls =>
    simp only [hcls] at hnodup ⊢
    rw [henv]
    split at hnodup
    next hknown =>
      rw [if_pos hknown, if_pos hknown]
      exact .pure _
    next hknown =>
      rw [if_neg hknown, if_neg hknown]
      refine .andThen (writtenSignature hc henv _ _) fun sig => .andThen (fun g => ?_) fun _ => ?_
      · exact .of_eq rfl (.of_eq rfl)
      · exact generateFunction hc fuel henv _ _ _ (List.nodup_cons.1 hnodup).2 _ _ _

theorem generateStmt (fuel : Nat) (henv : env.catalog = c) (s : Stmt)
    (hclass : ∀ d, s = .class_ d → c.classes.find? d.name.name = some d)
    (hnodup : (c.generated s).Nodup) :
    (Gen.generateStmt (Lower.detourAt fuel) env s).Follows (Completes c tables (c.generated s)) := by
  cases s with
  | function f =>
    have hbody : f.body.inner.Nodup := (List.nodup_cons.1 hnodup).2
    refine .andThen (.function? _) fun sig? => ?_
    split
    · exact .andThen (.pure _) fun _ => generateFunction hc fuel henv _ _ _ hbody _ _ _
    · exact .andThen (writtenSignature hc henv _ _) fun _ =>
        generateFunction hc fuel henv _ _ _ hbody _ _ _
  | class_ d => exact fun g => generateClass hc htables fuel henv (.inl (hclass d rfl)) hnodup
  | method m => exact generateDetached hc fuel henv m hnodup
  | _ => exact .any (.pure _)

/-- The names of an instance were given out when it was asked for. -/
theorem generateInstance (fuel : Nat) (henv : env.catalog = c) (i : TemplateInstance) {g : GenState}
    (hi : g.Requested c i.symbol i.body) (hnodup : (c.functionsOf i.symbol i.body).Nodup) :
    g.Completes c tables (c.functionsOf i.symbol i.body)
      ((Gen.generateInstance (Lower.detourAt fuel) env i).run g).2 := by
  let inner : Env := { env with bindings := i.bindings }
  have hinner : inner.catalog = c := henv
  unfold Gen.generateInstance
  dsimp only
  split
  next f hf =>
    rw [hf] at hnodup ⊢
    refine Follows.andThen (R := Completes c tables) (.function? i.symbol) (fun sig? => ?_) g
    split
    · exact generateFunction hc fuel hinner _ _ _ (List.nodup_cons.1 hnodup).2 _ _ _
    · exact .any (.internal _)
  next d hd =>
    rw [hd] at hi hnodup ⊢
    exact generateClass hc htables fuel hinner (.inr hi) hnodup
  next => exact Follows.any (Follows.pure (R := Completes c tables []) ()) g

/-- Instances define names that were given out for them, so nothing is left to be declared. -/
theorem generateInstances (fuel : Nat) (henv : env.catalog = c) (count : Nat) :
    (Gen.generateInstances (Lower.detourAt fuel) env count).Follows (Completes c tables []) := by
  induction count with
  | zero =>
    refine .bind (.reading fun _ => rfl) fun _ => .bind (.reading fun _ => rfl) fun _ => ?_
    exact .ite .exhaust (.pure _)
  | succ count ih =>
    intro g
    have hevolves : Evolves (Gen.generateInstances (Lower.detourAt fuel) env (count + 1)) :=
      Evolves.generateInstances (Lower.Evolves.detourAt fuel) (count + 1)
    refine ⟨(hevolves g).requests, fun hdistinct => ?_⟩
    have hdistinct₀ := hdistinct.before (hevolves g).requests
    rw [run_generateInstances_succ] at hdistinct ⊢
    cases hi : g.queue[g.lowered]? with
    | none => exact GenState.Ambient.refl g
    | some i =>
      rw [hi] at hdistinct
      refine Defines.take hi fun htidy => ?_
      have hrequested := htidy.queue i (List.mem_of_getElem? hi)
      have hinstance := generateInstance hc htables fuel henv i hrequested
        (hdistinct₀.nodup_functionsOf hrequested)
      exact (GenState.Graded.append hinstance (ih _)).2 hdistinct htidy

omit htables

/-! ## The start and the entry -/

theorem generateStart (fuel : Nat) (henv : env.catalog = c) (p : Program)
    (hnodup : (p.stmts.flatMap Stmt.started).Nodup) :
    (Gen.generateStart (Lower.detourAt fuel) env p).Follows
      (Completes c tables (Lower.initName :: p.stmts.flatMap Stmt.started)) := by
  refine .andThen (.reading fun _ => rfl) fun g => ?_
  have hsub := Stmt.sublist_started g.computed p.stmts
  dsimp only
  generalize p.stmts.filter (runsAtStart g.computed) = stmts at hsub
  let h : Lower.Head := { symbol := Lower.initName, ret := .void, span := p.span }
  have hfits : (h.env env).Fits c (· = []) := ⟨henv, fun _ ht => nomatch ht⟩
  have hstart := Lower.Follows.startStmts (setting hc fuel hfits) stmts (hsub.nodup hnodup)
  split
  · exact .any (.pure _)
  have hevolves : Evolves (Lower.function env h fun inner =>
      startStmts (Lower.detourAt fuel) inner stmts) := Evolves.function fun env =>
    Lower.Follows.startStmts (Lower.Evolves.setting (Lower.Evolves.detourAt fuel) env) _ trivial
  have hfunction : Follows (Defines c c.Plain (Lower.initName :: Stmt.innerAll stmts))
      (Lower.function env h fun inner => startStmts (Lower.detourAt fuel) inner stmts) :=
    .function (h := h) (Defines.walk hc) hstart
  refine .after (.mono (of_defines hfunction hevolves) fun n => ?_) fun _ g => ?_
  · exact (hsub.cons_cons Lower.initName).count_le n
  · exact .of_eq rfl (.of_eq rfl)

theorem ensureEntry : (Gen.ensureEntry env).Follows (Completes c tables ["main"]) := by
  let h : Lower.Head := { symbol := "main", ret := .i32 }
  have hbody : Lower.Follows (Defines c c.Plain []) (do
      Lower.callInit
      Lower.terminate (.ret (some (.i32 0)))) := .bind (.plain .callInit) fun _ => .plain (.terminate _)
  refine .andThen (.reading fun _ => rfl) fun g => .ite ?_ (.any (.pure _))
  refine of_defines (Follows.function (h := h) (Defines.walk hc) hbody) ?_
  exact Evolves.function fun _ => .bind (.plain .callInit) fun _ => .plain (.terminate _)

end Gen.Completes

/-! ## Declarations -/

namespace Gen.Defines

open GenState (Defines)

variable {c : Catalog} {env : Env} (hc : c.Settled)
include hc

theorem declareGlobal (henv : env.catalog = c) (name : String) (type? : Option TypeExpr)
    (value? : Option Expr) :
    (Gen.declareGlobal env name type? value?).Follows (Defines c c.Plain [name]) := by
  have hrest : ∀ (ty : Ty) (ir : Ir.Ty) (init : Ir.Value), Follows (Defines c c.Plain [name]) (do
      modifyModule (·.addGlobal (.variable_ name ir init))
      modify fun s => { s with globals := s.globals.insert name ⟨.global name, ty, ir⟩ }) :=
    fun ty ir init => .after
      (fun g => Defines.addVariable (g := g) (x := .variable_ name ir init) rfl) fun _ g =>
        .of_eq rfl
  refine .andThen (.globalType (Defines.typing hc henv) name type? value?) fun ty => ?_
  split
  · exact .andThen (.pure _) fun _ => hrest ty _ _
  · refine .andThen (.constantValue _ _) fun v? => ?_
    split
    · exact .andThen (.pure _) fun _ => hrest ty _ _
    · refine .andThen (fun g => .of_eq rfl) fun _ => ?_
      exact .andThen (.pure _) fun _ => hrest ty _ _

theorem declareStmt (henv : env.catalog = c) (s : Stmt) :
    (Gen.declareStmt env s).Follows (Defines c c.Plain s.storage) := by
  cases s with
  | function f =>
    have hset : ∀ sig, Follows (Defines c c.Plain []) (setFunction f.name.name sig) :=
      fun sig g => .of_eq rfl
    unfold Gen.declareStmt
    dsimp only
    split
    · exact .andThen (.pure _) fun _ => hset _
    · exact .andThen (.writtenSignature _ _ (.inl (Defines.typing hc henv))) fun _ => hset _
  | var name type? value? => exact declareGlobal hc henv name.name type? value?
  | const name type? value => exact declareGlobal hc henv name.name type? (some value)
  | _ => exact .any (.pure _)

theorem prepare (p : Program) :
    (Gen.prepare c p).Follows (Defines c (fun _ => True) (p.stmts.flatMap Stmt.storage)) := by
  let t := Gen.typing c []
  refine .after (fun g htidy => ?_) fun _ => .forM _ fun name => .bind ?_ fun _ => .pure _
  · have hstmts := Follows.flatMap p.stmts fun s _ => @declareStmt c { catalog := c } hc rfl s
    exact (hstmts g htidy).mono (fun _ _ => trivial) fun _ => Nat.le_refl _
  · exact Defines.ensureLayout (t := t) hc ((Defines.walk hc).typing _) name fun _ _ => trivial

end Gen.Defines

end ClassLang
