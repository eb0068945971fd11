import ClassLang.Gen.Program
import ClassLang.Proofs.Dispatch.Layout

/-!
# Hierarchies of classes

The classes of a program are laid out in any order, each after its parent. `GenState.LaidOut` says
that a layout was built on top of that of the parent, or on top of nothing where the parent is no
class of the program. In a program without templates this holds of all layouts when they are made:
only laying classes out makes a layout, and none changes once it is there.
-/

namespace ClassLang

/-! ## Classes of a program -/

namespace Catalog

variable {c : Catalog}

/-- The names of the methods that a class declares, in its body and then outside of it. The static
ones are marked. -/
def declaredMethods (c : Catalog) (d : Class) : List (String × Bool) :=
  d.methods.map (fun f => (f.name.name, f.modifiers.isStatic)) ++
    (c.methodsOf d.name.name).map fun m => (m.name.name, false)

/-- Whether a class declares a method. -/
def declares (c : Catalog) (m : String) (d : Class) : Bool :=
  (c.declaredMethods d).any (·.1 == m)

/-- A class and the classes above it, up to an ancestor that is not among them. -/
inductive Descends (c : Catalog) (ancestor : String) : String → List Class → Prop
  | refl : Descends c ancestor ancestor []
  | step {name : String} {d : Class} {parent : Ident} {path : List Class} :
    c.classes.find? name = some d → d.extends? = some parent →
      Descends c ancestor parent.name path → Descends c ancestor name (d :: path)

/-- The function of the first class on a path that declares a method, or else the one that is
inherited from above the path. -/
def mostDerived (c : Catalog) (m inherited : String) (path : List Class) : String :=
  ((path.find? (c.declares m)).map fun d => Layout.methodSymbol d.name.name m).getD inherited

/-- Every class is kept under its own name. -/
def Named (c : Catalog) : Prop := ∀ name d, c.classes.find? name = some d → d.name.name = name

theorem named_add (h : c.Named) (s : Stmt) : (c.add s).Named := by
  cases s with
  | class_ d =>
    intro name d' hd'
    rw [add, Table.find?_insert] at hd'
    split at hd'
    next hname =>
      cases hd'
      exact (eq_of_beq hname).symm
    next => exact h name d' hd'
  | template params body span =>
    rw [add]
    cases body.templateName? with
    | some n => exact h
    | none => exact h
  | _ => exact h

theorem named_ofProgram (scopes : ScopeTree) (file? : Option String) (p : Program) (limit : Nat) :
    (ofProgram scopes file? p limit).Named := by
  have hadd : ∀ (stmts : List Stmt) (c : Catalog), c.Named → (stmts.foldl add c).Named := by
    intro stmts
    induction stmts with
    | nil => exact fun _ h => h
    | cons s stmts ih => exact fun c h => ih _ (named_add h s)
  refine hadd p.stmts _ ?_
  intro _ _ h
  cases h

end Catalog

/-- Whether a statement declares a template. -/
def Stmt.isTemplate : Stmt → Bool
  | .template .. => true
  | _ => false

theorem Catalog.templates_ofProgram (scopes : ScopeTree) (file? : Option String) (limit : Nat)
    {p : Program} (h : ∀ s ∈ p.stmts, s.isTemplate = false) : (ofProgram scopes file? p limit).templates = {} := by
  have hadd : ∀ (stmts : List Stmt) (c : Catalog), (∀ s ∈ stmts, s.isTemplate = false) →
      (stmts.foldl add c).templates = c.templates := by
    intro stmts
    induction stmts with
    | nil => exact fun _ _ => rfl
    | cons s stmts ih =>
      intro c hs
      rw [List.foldl_cons, ih _ fun s' hs' => hs s' (List.mem_cons_of_mem _ hs')]
      have hs := hs s List.mem_cons_self
      cases s with
      | template => cases hs
      | _ => rfl
  exact hadd p.stmts _ h

/-! ## Steps that lay nothing out -/

namespace Gen

/-- A step leaves the layouts alone. -/
def KeepsLayouts {α : Type} (x : Gen α) : Prop := ∀ g : GenState, (x.run g).2.layouts = g.layouts

namespace KeepsLayouts

variable {α β : Type} {x : Gen α} {f : α → Gen β}

theorem pure (a : α) : KeepsLayouts (Pure.pure a) := fun _ => rfl

theorem bind (hx : KeepsLayouts x) (hf : ∀ a, KeepsLayouts (f a)) : KeepsLayouts (x >>= f) :=
  fun g => (hf _ _).trans (hx g)

theorem mapM (l : List α) (h : ∀ a, KeepsLayouts (f a)) : KeepsLayouts (l.mapM f) := by
  induction l with
  | nil => exact pure []
  | cons a l ih =>
    rw [List.mapM_cons]
    exact bind (h a) fun b => bind ih fun bs => pure (b :: bs)

theorem forM {f : α → Gen Unit} (l : List α) (h : ∀ a, KeepsLayouts (f a)) :
    KeepsLayouts (l.forM f) := by
  induction l with
  | nil => exact pure ()
  | cons a l ih => exact bind (h a) fun _ => ih

theorem report (cause : GenError.Cause) (span : Span) : KeepsLayouts (Gen.report cause span) :=
  fun _ => rfl

theorem exhaust : KeepsLayouts Gen.exhaust := by
  refine bind (fun _ => rfl) fun b => ?_
  split
  · exact fun _ => rfl
  · exact pure ()

theorem namedType (t : Typing) (name : String) : KeepsLayouts (Gen.namedType t name) := by
  unfold Gen.namedType
  split
  · exact pure _
  · refine bind (fun _ => rfl) fun b => ?_
    repeat' split
    all_goals exact pure _

theorem instanceType (t : Typing) (n : Ident) (symbol? : Option String) :
    KeepsLayouts (Gen.instanceType t n symbol?) := by
  unfold Gen.instanceType
  split
  · exact pure _
  · refine bind (fun _ => rfl) fun b => ?_
    split
    · exact pure _
    · exact bind (report _ _) fun _ => pure _

/-- There is nothing to make an instance of. -/
theorem instantiate {catalog : Catalog} (h : catalog.templates = {}) (fuel : Nat) (n : Ident)
    (args : List Ty) : KeepsLayouts (Gen.instantiate catalog fuel n args) := by
  cases fuel with
  | zero => exact bind exhaust fun _ => pure _
  | succ fuel =>
    rw [Gen.instantiate, h]
    exact bind (report _ _) fun _ => pure _

variable {t : Typing}

/-- Making instances leaves the layouts alone. -/
def Inert (t : Typing) : Prop := ∀ n args, KeepsLayouts (t.instantiate n args)

mutual

theorem resolveType (ht : Inert t) : (e : TypeExpr) → KeepsLayouts (Gen.resolveType t e)
  | .named n => namedType t n.name
  | .array element _ => bind (resolveType ht element) fun _ => pure _
  | .map key value _ =>
    bind (resolveType ht key) fun _ => bind (resolveType ht value) fun _ => pure _
  | .pointer inner _ => resolveType ht inner
  | .generic n args _ =>
    bind (resolveTypes ht args) fun types => bind (ht n types) fun s => instanceType t n s

theorem resolveTypes (ht : Inert t) : (es : List TypeExpr) → KeepsLayouts (Gen.resolveTypes t es)
  | [] => pure _
  | e :: es => bind (resolveType ht e) fun _ => bind (resolveTypes ht es) fun _ => pure _

end

theorem resolveOptional (ht : Inert t) (missing : Ty) (e? : Option TypeExpr) :
    KeepsLayouts (Gen.resolveOptional t missing e?) := by
  cases e? with
  | some e => exact resolveType ht e
  | none => exact pure _

theorem writtenSignature (ht : Inert t) (params : List Param) (ret? : Option TypeExpr) :
    KeepsLayouts (Gen.writtenSignature t params ret?) := by
  refine bind (mapM params fun p => resolveOptional ht _ _) fun _ => ?_
  exact bind (resolveOptional ht _ _) fun _ => pure _

theorem fieldType (ht : Inert t) (info? : Option ClassInfo) (f : Field) :
    KeepsLayouts (Gen.fieldType t info? f) := by
  unfold Gen.fieldType
  split
  · exact resolveType ht _
  · exact pure _

theorem constantValue (ir : Ir.Ty) : (e : Expr) → KeepsLayouts (Gen.constantValue ir e)
  | .string body _ => by
    rw [Gen.constantValue]
    split
    · exact bind (bind (fun _ => rfl) fun _ => bind (fun _ => rfl) fun _ => pure _) fun _ => pure _
    · exact pure _
  | .prefixed .negate right _ => by
    refine bind (constantValue ir right) fun v? => ?_
    split <;> exact pure _
  | .int .. | .float .. | .bool .. | .char .. | .null .. | .prefixed .not .. | .prefixed .bitNot ..
  | .ident .. | .binary .. | .postfixed .. | .assign .. | .call .. | .index .. | .member ..
  | .array .. | .hash .. | .lambda .. | .new .. | .this .. | .super .. | .templateInstance .. =>
    pure _

variable {env : Env}

theorem declareGlobal (ht : Inert env.typing) (name : String) (type? : Option TypeExpr)
    (value? : Option Expr) : KeepsLayouts (Gen.declareGlobal env name type? value?) := by
  have htype : KeepsLayouts (globalType env name type? value?) := by
    unfold globalType
    split
    · exact resolveType ht _
    · exact pure _
  have hrest : ∀ (ty : Ty) (ir : Ir.Ty) (init : Ir.Value), KeepsLayouts (do
      modifyModule (·.addGlobal (.variable_ name ir init))
      modify fun s => { s with globals := s.globals.insert name ⟨.global name, ty, ir⟩ }) :=
    fun _ _ _ _ => rfl
  refine bind htype fun ty => ?_
  split
  · exact bind (pure _) fun _ => hrest ty _ _
  · refine bind (constantValue _ _) fun v? => ?_
    split
    · exact bind (pure _) fun _ => hrest ty _ _
    · exact bind (fun _ => rfl) fun _ => bind (pure _) fun _ => hrest ty _ _

theorem declareStmt (ht : Inert env.typing) (s : Stmt) : KeepsLayouts (Gen.declareStmt env s) := by
  unfold Gen.declareStmt
  split
  · split
    · exact bind (pure _) fun _ _ => rfl
    · exact bind (writtenSignature ht _ _) fun _ _ => rfl
  · exact declareGlobal ht _ _ _
  · exact declareGlobal ht _ _ _
  · exact pure _

end KeepsLayouts

end Gen

/-! ## Laying classes out -/

namespace Layout

/-- A layout has the members of a class in addition to what it began with. -/
def Built (c : Catalog) (d : Class) (base l : Layout) : Prop :=
  ∃ fields ds, ds.map (fun d => (d.name, d.isStatic)) = c.declaredMethods d ∧
    l = base.declareAll fields ds

end Layout

namespace GenState

/-- How the layout of a class came about: on top of that of its parent or, if the parent is no class
of the program, on top of nothing. -/
inductive LaidOut (g : GenState) (c : Catalog) (name : String) (d : Class) (l : Layout) : Prop
  | root : (∀ p, d.extends? = some p → c.classes.find? p.name = none) →
      Layout.Built c d (.derive name none none) l → LaidOut g c name d l
  | derived (p : Ident) (b : Layout) : d.extends? = some p → g.layouts.find? p.name = some b →
      Layout.Built c d (.derive name (some p.name) (some b)) l → LaidOut g c name d l

/-- What holds of the layouts at every point. -/
structure Hierarchy (g : GenState) (c : Catalog) : Prop where
  sound : ∀ name l, g.layouts.find? name = some l → l.Sound
  laidOut : ∀ name l, g.layouts.find? name = some l →
    ∃ d, c.classes.find? name = some d ∧ g.LaidOut c name d l

/-- No layout changes once it is there. -/
def Keeps (g g' : GenState) : Prop :=
  ∀ name l, g.layouts.find? name = some l → g'.layouts.find? name = some l

variable {g g' : GenState} {c : Catalog} {name : String} {d : Class} {l : Layout}

theorem LaidOut.mono (h : g.LaidOut c name d l) (hg : g.Keeps g') : g'.LaidOut c name d l := by
  cases h with
  | root hp hbuilt => exact .root hp hbuilt
  | derived p b hp hb hbuilt => exact .derived p b hp (hg _ _ hb) hbuilt

theorem Keeps.of_layouts_eq (hg : g'.layouts = g.layouts) : g.Keeps g' := by
  intro _ _ h
  rw [hg]
  exact h

theorem Hierarchy.of_layouts_eq (h : g.Hierarchy c) (hg : g'.layouts = g.layouts) :
    g'.Hierarchy c := by
  constructor
  · rw [hg]
    exact h.sound
  · intro k l hl
    rw [hg] at hl
    obtain ⟨d, hd, hlaid⟩ := h.laidOut k l hl
    exact ⟨d, hd, hlaid.mono (.of_layouts_eq hg)⟩

end GenState

namespace Gen

/-- Each result stands beside the element that it belongs to. -/
theorem map_fst_mapM {α β : Type} (f : α → Gen β) (l : List α) (g : GenState) :
    ((l.mapM fun a => do return (a, ← f a)).run g).1.map Prod.fst = l := by
  induction l generalizing g with
  | nil => rfl
  | cons a l ih =>
    rw [List.mapM_cons]
    exact congrArg (a :: ·) (ih _)

variable {t : Typing}

theorem built_of_pairs (c : Catalog) (d : Class) (base : Layout) (fields : List FieldSlot)
    {inner : List (Function × Signature)} {outer : List (Method × Signature)}
    (hinner : inner.map Prod.fst = d.methods)
    (houter : outer.map Prod.fst = c.methodsOf d.name.name) :
    Layout.Built c d base
      (outer.foldl (fun l (m, sig) => l.addMethod m.name.name sig false false)
        (inner.foldl (fun l (m, sig) => l.addMethod m.name.name sig
          (m.modifiers.isVirtual || m.modifiers.isOverride) m.modifiers.isStatic)
          (fields.foldl Layout.addField base))) := by
  let ofInner (q : Function × Signature) : Layout.Declared :=
    ⟨q.1.name.name, q.2, q.1.modifiers.isVirtual || q.1.modifiers.isOverride,
      q.1.modifiers.isStatic⟩
  let ofOuter (q : Method × Signature) : Layout.Declared := ⟨q.1.name.name, q.2, false, false⟩
  refine ⟨fields, inner.map ofInner ++ outer.map ofOuter, ?_, ?_⟩
  · rw [Catalog.declaredMethods, ← hinner, ← houter]
    simp only [List.map_append, List.map_map]
    rfl
  · rw [Layout.declareAll, List.foldl_append, List.foldl_map, List.foldl_map]
    rfl

theorem built_layoutOf (t : Typing) (name : String) (d : Class) (parent? : Option String)
    (g : GenState) :
    Layout.Built t.catalog d (.derive name parent? (parent?.bind g.layouts.find?))
      ((layoutOf t name d parent?).run g).1 := by
  unfold layoutOf
  cases parent? with
  | none => exact built_of_pairs _ _ _ _ (map_fst_mapM _ _ _) (map_fst_mapM _ _ _)
  | some p => exact built_of_pairs _ _ _ _ (map_fst_mapM _ _ _) (map_fst_mapM _ _ _)

/-- A layout has the name that it is made for. -/
theorem name_layoutOf (t : Typing) (name : String) (d : Class) (parent? : Option String)
    (g : GenState) : ((layoutOf t name d parent?).run g).1.name = name := by
  obtain ⟨fields, ds, _, hl⟩ := built_layoutOf t name d parent? g
  rw [hl, Layout.name_of_steps (Layout.steps_declareAll _ fields ds)]
  cases parent?.bind g.layouts.find? <;> rfl

theorem layoutOf_spec (ht : KeepsLayouts.Inert t) (name : String) (d : Class)
    (parent? : Option String) (g : GenState) :
    ((layoutOf t name d parent?).run g).2.layouts = g.layouts ∧
      Layout.Built t.catalog d (.derive name parent? (parent?.bind g.layouts.find?))
        ((layoutOf t name d parent?).run g).1 := by
  have hfields := fun info? => KeepsLayouts.mapM d.fields fun f =>
    KeepsLayouts.bind (KeepsLayouts.fieldType ht info? f) fun ty =>
      KeepsLayouts.pure (⟨f.name.name, ty, f.value?⟩ : FieldSlot)
  have hinner := KeepsLayouts.mapM d.methods fun m =>
    KeepsLayouts.bind (KeepsLayouts.writtenSignature ht m.params m.ret?) fun sig =>
      KeepsLayouts.pure (m, sig)
  have houter := KeepsLayouts.mapM (t.catalog.methodsOf d.name.name) fun m =>
    KeepsLayouts.bind (KeepsLayouts.writtenSignature ht m.params m.ret?) fun sig =>
      KeepsLayouts.pure (m, sig)
  constructor
  · revert g
    show KeepsLayouts _
    unfold layoutOf
    cases parent? with
    | none =>
      exact .bind (.pure _) fun _ => .bind (hfields _) fun _ => .bind hinner fun _ =>
        .bind houter fun _ => .pure _
    | some p =>
      exact .bind (fun _ => rfl) fun _ => .bind (hfields _) fun _ => .bind hinner fun _ =>
        .bind houter fun _ => .pure _
  · exact built_layoutOf t name d parent? g

/-- A class gets its layout, and no other class does. -/
structure Adds (c : Catalog) (name : String) (g g' : GenState) : Prop where
  hierarchy : g'.Hierarchy c
  keeps : g.Keeps g'
  isSome : (g'.layouts.find? name).isSome = true
  other : ∀ k, k ≠ name → g'.layouts.find? k = g.layouts.find? k

theorem adds_recordLayout {g g₁ : GenState} {name : String} {d : Class} {l : Layout}
    (h : g.Hierarchy t.catalog) (hlayouts : g₁.layouts = g.layouts)
    (hnew : g.layouts.find? name = none) (hd : t.catalog.classes.find? name = some d)
    (hname : l.name = name) (hsound : l.Sound) (hl : g.LaidOut t.catalog name d l) :
    Adds t.catalog name g ((recordLayout l).run g₁).2 := by
  have hfind : ∀ k, ((recordLayout l).run g₁).2.layouts.find? k =
      if k == name then some l else g.layouts.find? k := by
    intro k
    show (g₁.layouts.insert l.name l).find? k = _
    rw [Table.find?_insert, hlayouts, hname]
  have hkeeps : g.Keeps ((recordLayout l).run g₁).2 := by
    intro k l' hl'
    rw [hfind]
    split
    next hk =>
      rw [eq_of_beq hk, hnew] at hl'
      cases hl'
    next => exact hl'
  refine ⟨⟨fun k l' hl' => ?_, fun k l' hl' => ?_⟩, hkeeps, ?_, fun k hk => ?_⟩
  · rw [hfind] at hl'
    split at hl'
    · cases hl'
      exact hsound
    · exact h.sound k l' hl'
  · rw [hfind] at hl'
    split at hl'
    next hk =>
      cases hl'
      rw [eq_of_beq hk]
      exact ⟨d, hd, hl.mono hkeeps⟩
    next =>
      obtain ⟨d', hd', hlaid⟩ := h.laidOut k l' hl'
      exact ⟨d', hd', hlaid.mono hkeeps⟩
  · rw [hfind, if_pos (beq_self_eq_true _)]
    rfl
  · rw [hfind, if_neg (by simpa using hk)]

/-- A class is laid out on top of `parent?`. -/
theorem adds_layoutOf (ht : KeepsLayouts.Inert t) {g : GenState} {name : String} {d : Class}
    {parent? : Option String} (h : g.Hierarchy t.catalog) (hnew : g.layouts.find? name = none)
    (hd : t.catalog.classes.find? name = some d)
    (hparent : ∀ l, Layout.Built t.catalog d
      (.derive name parent? (parent?.bind g.layouts.find?)) l → g.LaidOut t.catalog name d l) :
    Adds t.catalog name g ((layoutOf t name d parent? >>= recordLayout).run g).2 := by
  obtain ⟨hlayouts, hbuilt⟩ := layoutOf_spec ht name d parent? g
  have hbase : ∀ b, parent?.bind g.layouts.find? = some b → b.Sound := by
    intro b hb
    obtain ⟨p, _, hb⟩ := Option.bind_eq_some_iff.1 hb
    exact h.sound p b hb
  obtain ⟨fields, ds, _, hl⟩ := id hbuilt
  have hsteps :=
    Layout.steps_declareAll (.derive name parent? (parent?.bind g.layouts.find?)) fields ds
  rw [← hl] at hsteps
  have hname := name_layoutOf t name d parent? g
  have hsound := (Layout.Sound.derive hbase name parent?).steps hsteps
  exact adds_recordLayout h hlayouts hnew hd hname hsound (hparent _ hbuilt)

/-- What laying a class out does to the layouts. The classes that wait get none. -/
structure LaysOut (c : Catalog) (waiting : List String) (name : String) (g : GenState)
    (r : Bool × GenState) : Prop where
  hierarchy : r.2.Hierarchy c
  keeps : g.Keeps r.2
  isSome : r.1 = true → (r.2.layouts.find? name).isSome = true
  waiting : ∀ w ∈ waiting, r.2.layouts.find? w = g.layouts.find? w

theorem LaysOut.refused {c : Catalog} {waiting : List String} {name : String} {g g' : GenState}
    (h : g.Hierarchy c) (hg : g'.layouts = g.layouts) : LaysOut c waiting name g (false, g') := by
  exact ⟨h.of_layouts_eq hg, .of_layouts_eq hg, (fun h => nomatch h), fun w _ => by rw [hg]⟩

theorem LaysOut.added {c : Catalog} {waiting : List String} {name : String} {g g₁ g' : GenState}
    (hkeeps : g.Keeps g₁) (hwaiting : ∀ w ∈ waiting, g₁.layouts.find? w = g.layouts.find? w)
    (hname : name ∉ waiting) (h : Adds c name g₁ g') : LaysOut c waiting name g (true, g') := by
  refine ⟨h.hierarchy, fun k l hl => h.keeps k l (hkeeps k l hl), fun _ => h.isSome, fun w hw => ?_⟩
  rw [h.other w, hwaiting w hw]
  rintro rfl
  exact hname hw

/-- One layout on top of what is there. -/
theorem run_layoutClass (fuel : Nat) (waiting : List String) (name : String) (g : GenState) :
    (layoutClass t (fuel + 1) waiting name).run g =
      if g.layouts.contains name = true then (true, g) else
      match t.catalog.classes.find? name with
      | none => (false, g)
      | some c =>
        if waiting.contains name = true then
          (false, ((report (.cyclicClass name) c.name.span).run g).2)
        else
        match c.extends? with
        | none => (true, ((layoutOf t name c none >>= recordLayout).run g).2)
        | some parent =>
          let r := (layoutClass t fuel (name :: waiting) parent.name).run g
          if r.1 = true then
            (true, ((layoutOf t name c (some parent.name) >>= recordLayout).run r.2).2)
          else if t.catalog.classes.contains parent.name = true then (false, r.2)
          else (true, ((layoutOf t name c none >>= recordLayout).run r.2).2) := by
  by_cases hhas : g.layouts.contains name = true
  · rw [if_pos hhas]
    show StateT.run (if g.layouts.contains name = true then _ else _) g = _
    rw [if_pos hhas]
    rfl
  rw [if_neg hhas]
  show StateT.run (if g.layouts.contains name = true then _ else _) g = _
  rw [if_neg hhas]
  cases t.catalog.classes.find? name with
  | none => rfl
  | some c =>
    by_cases hwaits : waiting.contains name = true
    · simp only [hwaits, if_true]
      rfl
    simp only [hwaits, if_false, Bool.false_eq_true]
    cases c.extends? with
    | none => rfl
    | some parent =>
      show StateT.run (if ((layoutClass t fuel (name :: waiting) parent.name).run g).1 = true
        then _ else _) ((layoutClass t fuel (name :: waiting) parent.name).run g).2 = _
      simp only
      split
      · rfl
      · split <;> rfl

/-- The parent is laid out first. While that is done the class waits, so it still has no layout when
the parent is ready. -/
theorem laysOut_layoutClass (ht : KeepsLayouts.Inert t) (fuel : Nat) (waiting : List String)
    (name : String) (g : GenState) (h : g.Hierarchy t.catalog) :
    LaysOut t.catalog waiting name g ((layoutClass t fuel waiting name).run g) := by
  induction fuel generalizing waiting name g with
  | zero => exact .refused h rfl
  | succ fuel ih =>
    rw [run_layoutClass]
    split
    next hhas => exact ⟨h, fun _ _ h => h, fun _ => hhas, fun _ _ => rfl⟩
    next hhas =>
    have hnew : g.layouts.find? name = none := by simpa [Table.contains] using hhas
    split
    next => exact .refused h rfl
    next d hd =>
    split
    next => exact .refused h rfl
    next hwaits =>
    have hwaits : name ∉ waiting := by simpa using hwaits
    split
    next hroot =>
      refine .added (fun _ _ h => h) (fun _ _ => rfl) hwaits (adds_layoutOf ht h hnew hd ?_)
      exact fun l hl => .root (fun p hp => by rw [hroot] at hp; cases hp) hl
    next parent hparent =>
      have hp := ih (name :: waiting) parent.name g h
      obtain ⟨r, hr⟩ : ∃ r, (layoutClass t fuel (name :: waiting) parent.name).run g = r := ⟨_, rfl⟩
      rw [hr] at hp
      simp only [hr]
      have hnew' : r.2.layouts.find? name = none :=
        (hp.waiting name List.mem_cons_self).trans hnew
      have hwaiting := fun w hw => hp.waiting w (List.mem_cons_of_mem name hw)
      split
      next hknown =>
        obtain ⟨b, hb⟩ := Option.isSome_iff_exists.1 (hp.isSome hknown)
        refine .added hp.keeps hwaiting hwaits (adds_layoutOf ht hp.hierarchy hnew' hd ?_)
        intro l hl
        rw [Option.bind_some, hb] at hl
        exact .derived parent b hparent hb hl
      next =>
      split
      next => exact ⟨hp.hierarchy, hp.keeps, (fun h => nomatch h), hwaiting⟩
      next hunknown =>
        refine .added hp.keeps hwaiting hwaits (adds_layoutOf ht hp.hierarchy hnew' hd ?_)
        refine fun l hl => .root (fun p hp => ?_) hl
        rw [hparent] at hp
        cases hp
        simpa [Table.contains] using hunknown

theorem inert_typing {catalog : Catalog} (h : catalog.templates = {}) (env : Env)
    (henv : env.catalog = catalog) : KeepsLayouts.Inert env.typing := by
  subst henv
  exact fun n args => .instantiate h _ n args

theorem hierarchy_prepare {catalog : Catalog} (htemplates : catalog.templates = {}) (p : Program)
    {g : GenState} (h : g.Hierarchy catalog) :
    ((prepare catalog p).run g).2.Hierarchy catalog := by
  let env : Env := { catalog }
  have ht : KeepsLayouts.Inert env.typing := inert_typing htemplates env rfl
  have hdeclared := KeepsLayouts.forM p.stmts (fun s => KeepsLayouts.declareStmt ht s) g
  have hlaid : ∀ (names : List String) (g : GenState), g.Hierarchy catalog →
      ((names.forM fun name => do let _ ← ensureLayout env.typing name).run g).2.Hierarchy
        catalog := by
    intro names
    induction names with
    | nil => exact fun _ h => h
    | cons name names ih =>
      intro g h
      exact ih ((ensureLayout env.typing name).run g).2
        (laysOut_layoutClass ht _ [] name g h).hierarchy
  exact hlaid catalog.classNames _ (h.of_layouts_eq hdeclared)

end Gen

theorem GenState.hierarchy_prepared {p : Program} (h : ∀ s ∈ p.stmts, s.isTemplate = false)
    (scopes : ScopeTree) (file? : Option String) (limit : Nat) :
    (prepared p scopes file? limit).Hierarchy (.ofProgram scopes file? p limit) := by
  refine Gen.hierarchy_prepare (Catalog.templates_ofProgram scopes file? limit h) p ⟨?_, ?_⟩
  all_goals
    intro _ _ h
    cases h

end ClassLang
