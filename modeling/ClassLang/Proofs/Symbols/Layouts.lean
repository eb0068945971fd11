import ClassLang.Proofs.Evolution.Basic
import ClassLang.Proofs.Symbols.Basic

/-!
# Symbols of classes and instances

A class that is laid out may ask for instances, and an instance of a class template asks for the
parent of the template. So the class may be laid out once more before its layout is there. This does
not happen where the parents of class templates are *plain*, that is, make no instances themselves:
a class that waits for another one has an ancestor that is not plain whenever an instance is made,
and only plain classes are laid out for the sake of an instance.
-/

namespace ClassLang

/-- Nothing is declared in the first values of the fields. -/
def Class.IdleFields (d : Class) : Prop := ∀ f ∈ d.fields, Expr.innerIf f.value? = []

instance (d : Class) : Decidable d.IdleFields :=
  inferInstanceAs (Decidable (∀ f ∈ d.fields, Expr.innerIf f.value? = []))

namespace Catalog

/-- A name that makes no instances when it is laid out: one of no class, or of a class whose members
are written without type arguments and whose parent is plain. -/
inductive Plain (c : Catalog) : String → Prop
  | unknown {name : String} : c.classes.find? name = none → Plain c name
  | class_ {name : String} {d : Class} : c.classes.find? name = some d →
      (∀ e ∈ c.memberTypes d, e.isPlain = true) → (∀ p, d.extends? = some p → Plain c p.name) →
      Plain c name

/-- Nothing in the declarations is generated more often than it is declared. -/
structure Settled (c : Catalog) : Prop where
  classes : ∀ d ∈ c.classes.values, d.IdleFields
  templates : ∀ t ∈ c.templates.values, ∀ d, t.body = .class_ d → d.IdleFields
  parents : ∀ t ∈ c.templates.values, ∀ d, t.body = .class_ d →
    ∀ p, d.extends? = some p → c.Plain p.name

variable {c : Catalog} {name : String} {d : Class}

theorem Plain.members (h : c.Plain name) (hd : c.classes.find? name = some d) :
    ∀ e ∈ c.memberTypes d, e.isPlain = true := by
  cases h with
  | unknown hnone =>
    rw [hd] at hnone
    cases hnone
  | class_ hd' hmembers _ =>
    rw [hd] at hd'
    cases hd'
    exact hmembers

theorem Plain.parent (h : c.Plain name) (hd : c.classes.find? name = some d) {p : Ident}
    (hp : d.extends? = some p) : c.Plain p.name := by
  cases h with
  | unknown hnone =>
    rw [hd] at hnone
    cases hnone
  | class_ hd' _ hparent =>
    rw [hd] at hd'
    cases hd'
    exact hparent p hp

end Catalog

/-! ## What a layout holds -/

namespace Layout

theorem fields_foldl_addField (l : Layout) (fields : List FieldSlot) :
    (fields.foldl addField l).fields = l.fields ++ fields := by
  induction fields generalizing l with
  | nil => exact (List.append_nil _).symm
  | cons f fields ih =>
    rw [List.foldl_cons, ih]
    exact List.append_assoc ..

/-- Methods leave the fields alone. -/
theorem fields_foldl {α : Type} {f : Layout → α → Layout} (h : ∀ l a, (f l a).fields = l.fields)
    (l : Layout) (as : List α) : (as.foldl f l).fields = l.fields := by
  induction as generalizing l with
  | nil => rfl
  | cons a as ih => exact (ih _).trans (h l a)

/-- A method that is among those declared is a function under the name of the class. -/
theorem symbol_foldl_declare {l : Layout} {m : String} {e : MethodEntry} (ds : List Declared)
    (hm : ds.any (·.name == m) = true ∨
      ∀ e, l.methods.find? m = some e → e.symbol = methodSymbol l.name m)
    (he : (ds.foldl declare l).methods.find? m = some e) : e.symbol = methodSymbol l.name m := by
  induction ds generalizing l with
  | nil =>
    rcases hm with hm | hm
    · cases hm
    · exact hm e he
  | cons d ds ih =>
    refine ih (l := l.declare d) ?_ he
    rw [List.any_cons] at hm
    by_cases hd : d.name = m
    · right
      intro e he
      rw [declare, find?_addMethod, if_pos (by simpa using hd.symm)] at he
      cases he
      rw [hd]
      rfl
    · rw [beq_false_of_ne hd, Bool.false_or] at hm
      refine hm.imp_right fun hm e he => ?_
      rw [declare, find?_addMethod, if_neg (by simpa using Ne.symm hd)] at he
      exact hm e he

end Layout

namespace Gen

/-- What is known of each result. -/
theorem map_mapM {α β γ : Type} {f : α → Gen β} {p : β → γ} {q : α → γ}
    (h : ∀ a g, p ((f a).run g).1 = q a) (l : List α) (g : GenState) :
    ((l.mapM f).run g).1.map p = l.map q := by
  induction l generalizing g with
  | nil => rfl
  | cons a l ih =>
    rw [List.mapM_cons]
    exact congr (congrArg List.cons (h a g)) (ih _)

theorem fields_of_pairs (base : Layout) (fields : List FieldSlot)
    (inner : List (Function × Signature)) (outer : List (Method × Signature)) :
    (outer.foldl (fun l (m, sig) => l.addMethod m.name.name sig false false)
      (inner.foldl (fun l (m, sig) => l.addMethod m.name.name sig
        (m.modifiers.isVirtual || m.modifiers.isOverride) m.modifiers.isStatic)
        (fields.foldl Layout.addField base))).fields = base.fields ++ fields := by
  rw [Layout.fields_foldl, Layout.fields_foldl, Layout.fields_foldl_addField]
  all_goals exact fun _ _ => rfl

/-- The fields of a layout: those of the parent, and those of the class with their first values. -/
theorem fields_layoutOf (t : Typing) (name : String) (d : Class) (parent? : Option String)
    (g : GenState) : ∃ own : List FieldSlot,
      own.map FieldSlot.default? = d.fields.map Field.value? ∧
      ((layoutOf t name d parent?).run g).1.fields =
        (Layout.derive name parent? (parent?.bind g.layouts.find?)).fields ++ own := by
  let slot (f : Field) : Gen FieldSlot := do
    return ⟨f.name.name, ← fieldType t (t.catalog.scopes.classInfo? d.name.name) f, f.value?⟩
  refine ⟨((d.fields.mapM slot).run g).1, map_mapM (fun _ _ => rfl) d.fields g, ?_⟩
  unfold layoutOf
  cases parent? with
  | none => exact fields_of_pairs _ _ _ _
  | some p => exact fields_of_pairs _ _ _ _

end Gen

namespace GenState

variable {t : Gen.Typing} {g g' : GenState} {name : String} {d : Class}

theorem Lays.layoutOf (parent? : Option String) (h : g.Tidy t.catalog) (hd : d.IdleFields)
    (hsource : t.catalog.classes.find? name = some d ∨ g'.Requested t.catalog name (.class_ d)) :
    g'.Lays t.catalog name d ((Gen.layoutOf t name d parent?).run g).1 := by
  refine ⟨hsource, fun m hm e he => ?_, fun f hf e he => ?_⟩
  · obtain ⟨fields, ds, hds, hl⟩ := Gen.built_layoutOf t name d parent? g
    have hname := Gen.name_layoutOf t name d parent? g
    have hdeclared : ds.any (·.name == m) = true := by
      rw [Catalog.declares, ← hds, List.any_map] at hm
      exact hm
    rw [hl] at he hname
    have hsteps := Layout.name_of_steps (Layout.steps_foldl_declare
      (fields.foldl Layout.addField (.derive name parent? (parent?.bind g.layouts.find?))) ds)
    rw [Layout.symbol_foldl_declare ds (.inl hdeclared) he, ← hsteps]
    exact congrArg (Layout.methodSymbol · m) hname
  · obtain ⟨own, hown, hfields⟩ := Gen.fields_layoutOf t name d parent? g
    rw [hfields] at hf
    rcases List.mem_append.1 hf with hf | hf
    · cases hbase : parent?.bind g.layouts.find? with
      | none =>
        rw [hbase] at hf
        cases hf
      | some base =>
        rw [hbase] at hf
        obtain ⟨p, _, hp⟩ := Option.bind_eq_some_iff.1 hbase
        obtain ⟨d', hd'⟩ := h.layouts p base hp
        exact hd'.fields f hf e he
    · have hvalue : f.default? ∈ d.fields.map Field.value? := by
        rw [← hown]
        exact List.mem_map_of_mem hf
      obtain ⟨f', hf', hvalue⟩ := List.mem_map.1 hvalue
      have hidle := hd f' hf'
      rw [hvalue, he] at hidle
      exact hidle

/-! ## Laying classes out -/

section

variable (hc : t.catalog.Settled) (ht : t.Follows (Defines t.catalog t.catalog.Plain []))
include hc ht

/-- The class itself is laid out when its parent is ready. While this is done neither the class nor
one that waits for it is laid out, or else it would be plain. -/
theorem Defined.layoutOwn {waiting : List String} {g₀ : GenState}
    (hwaiting : ∀ w ∈ waiting, t.catalog.Plain w → t.catalog.Plain name)
    (h : g₀.Defined t.catalog
      (fun n => (t.catalog.Plain name → t.catalog.Plain n) ∧ n ∉ name :: waiting) [] g)
    (hd : t.catalog.classes.find? name = some d) (hnew : g₀.layouts.contains name = false)
    (hname : name ∉ waiting) (parent? : Option String) :
    g₀.Defined t.catalog (fun n => (t.catalog.Plain name → t.catalog.Plain n) ∧ n ∉ waiting) []
      ((Gen.layoutOf t name d parent? >>= Gen.recordLayout).run g).2 := by
  let P := fun n => (t.catalog.Plain name → t.catalog.Plain n) ∧ n ∉ name :: waiting
  have hlayout : g.Defined t.catalog P [] ((Gen.layoutOf t name d parent?).run g).2 := by
    by_cases hmembers : ∀ e ∈ t.catalog.memberTypes d, e.isPlain = true
    · exact Gen.Follows.layoutOf (R := Defines t.catalog P []) name d parent? (.inr hmembers) g h.tidy
    · have hplain : ¬t.catalog.Plain name := fun hplain => hmembers (hplain.members hd)
      refine (Gen.Follows.layoutOf name d parent? (.inl ht) g h.tidy).mono
        (fun n hn => ⟨fun h => absurd h hplain, ?_⟩) fun _ => Nat.le_refl _
      rintro (_ | ⟨_, hmem⟩)
      · exact hplain hn
      · exact hplain (hwaiting n hmem hn)
  have hl : ((Gen.layoutOf t name d parent?).run g).1.name = name := Gen.name_layoutOf ..
  have hlays : ((Gen.layoutOf t name d parent?).run g).2.Lays t.catalog name d _ :=
    .layoutOf parent? h.tidy (hc.classes d (Table.mem_values_of_find? hd)) (.inl hd)
  refine (h.append hlayout).recordClass (l := ((Gen.layoutOf t name d parent?).run g).1) (d := d)
    ?_ ?_ ?_ (fun n hn => ⟨?_, hn.1, fun hmem => hn.2 (List.mem_cons_of_mem _ hmem)⟩) ?_
  all_goals rw [hl]
  · exact hlays
  · rw [Table.contains, hd]
    rfl
  · exact hnew
  · rintro rfl
    exact hn.2 List.mem_cons_self
  · exact ⟨id, hname⟩

/-- A class that is plain lays out plain classes only, and none that waits for it. -/
theorem Defined.layoutClass (fuel : Nat) (waiting : List String) (name : String)
    (hwaiting : ∀ w ∈ waiting, t.catalog.Plain w → t.catalog.Plain name) (h : g.Tidy t.catalog) :
    g.Defined t.catalog (fun n => (t.catalog.Plain name → t.catalog.Plain n) ∧ n ∉ waiting) []
      ((Gen.layoutClass t fuel waiting name).run g).2 := by
  induction fuel generalizing waiting name with
  | zero => exact GenState.Ambient.refl (R := Defines _ _ []) g h
  | succ fuel ih =>
    rw [Gen.run_layoutClass]
    split
    · exact GenState.Ambient.refl (R := Defines _ _ []) g h
    next hhas =>
    have hnew := Bool.eq_false_iff.2 hhas
    split
    · exact GenState.Ambient.refl (R := Defines _ _ []) g h
    next d hd =>
    split
    · exact GenState.Ambient.report (R := Defines _ _ []) g _ h
    next hwaits =>
    have hname : name ∉ waiting := by simpa using hwaits
    split
    · refine layoutOwn hc ht hwaiting ?_ hd hnew hname none
      exact GenState.Ambient.refl (R := Defines _ _ []) g h
    next parent hparent =>
    have hplain : t.catalog.Plain name → t.catalog.Plain parent.name := fun h => h.parent hd hparent
    have hp := ih (name :: waiting) parent.name <| List.forall_mem_cons.2
      ⟨hplain, fun w hw h => hplain (hwaiting w hw h)⟩
    have hp := hp.mono (Q := fun n => (t.catalog.Plain name → t.catalog.Plain n) ∧
      n ∉ name :: waiting) (fun n hn => ⟨fun h => hn.1 (hplain h), hn.2⟩) fun _ => Nat.le_refl _
    dsimp only
    split
    · exact layoutOwn hc ht hwaiting hp hd hnew hname (some parent.name)
    split
    · exact hp.mono (fun n hn => ⟨hn.1, fun hmem => hn.2 (List.mem_cons_of_mem _ hmem)⟩)
        fun _ => Nat.le_refl _
    · exact layoutOwn hc ht hwaiting hp hd hnew hname none

theorem Defines.ensureLayout {P : String → Prop} (name : String)
    (hP : ∀ n, (t.catalog.Plain name → t.catalog.Plain n) → P n) :
    Gen.Follows (Defines t.catalog P []) (Gen.ensureLayout t name) := by
  intro g h
  have hdefined := Defined.layoutClass hc ht (t.catalog.classes.size + 1) [] name
    (fun _ hw => nomatch hw) h
  exact hdefined.mono (fun n hn => hP n hn.1) fun _ => Nat.le_refl _

/-! ## Making instances -/

theorem Defines.layoutInstance (hevolves : t.Evolves) {symbol : String} (hidle : d.IdleFields)
    (hplain : ∀ p, d.extends? = some p → t.catalog.Plain p.name)
    (hrequest : g.Requested t.catalog symbol (.class_ d)) :
    Defines t.catalog t.catalog.Plain [Layout.vtableName symbol] g
      ((Gen.layoutInstance t symbol d).run g).2 := by
  have hown : ∀ (parent? : Option String) (g : GenState),
      g.Requested t.catalog symbol (.class_ d) →
      Defines t.catalog t.catalog.Plain [Layout.vtableName symbol] g
        ((Gen.layoutOf t symbol d parent? >>= Gen.recordLayout).run g).2 := by
    intro parent? g hrequest h
    have hlayout := Gen.Follows.layoutOf symbol d parent? (.inl ht) g h
    have hrequests := Gen.Follows.layoutOf symbol d parent? (.inl hevolves) g
    have hl := Gen.name_layoutOf t symbol d parent? g
    have hlays := Lays.layoutOf parent? h hidle
      (.inr (hrequest.mono hrequests.requests.subset))
    have hrecord := Defines.recordInstance (c := t.catalog) (P := t.catalog.Plain) (d := d)
      (g := ((Gen.layoutOf t symbol d parent?).run g).2)
      (l := ((Gen.layoutOf t symbol d parent?).run g).1)
    rw [hl] at hrecord
    exact hlayout.append (hrecord hlays hlayout.tidy)
  intro h
  unfold Gen.layoutInstance
  cases hextends : d.extends? with
  | none => exact hown none g hrequest h
  | some parent =>
    have hensure := Defines.ensureLayout hc ht (P := t.catalog.Plain) parent.name
      (fun n hn => hn (hplain parent hextends)) g h
    have hrequests := Gen.Evolves.ensureLayout hevolves parent.name g
    exact hensure.append (hown _ _ (hrequest.mono hrequests.requests.subset) hensure.tidy)

end

variable {c : Catalog} {P : String → Prop}

/-- A new instance: it is asked for, then `x` gives it a signature or a layout, then it waits. -/
theorem Defines.newInstance {x : Gen Unit} (r : Request) (i : TemplateInstance)
    (hsymbol : r.symbol = i.symbol)
    (hbody : (c.templates.find? r.template).map Template.body = some i.body)
    (hx : ∀ g, g.Requested c i.symbol i.body →
      Defines c P (Catalog.tableOf i.symbol i.body) g (x.run g).2 ∧
        g.requests ⊆ (x.run g).2.requests) :
    Gen.Follows (Defines c P []) (do
      modify fun s => { s with requests := s.requests ++ [r] }
      x
      modify fun s => { s with queue := s.queue ++ [i] }
      return some r.symbol) := by
  intro g
  refine Defines.request r ?_
  let g₁ : GenState := { g with requests := g.requests ++ [r] }
  have hr : g₁.Requested c i.symbol i.body :=
    ⟨r, List.mem_append_right _ (List.mem_singleton_self r), hsymbol, hbody⟩
  obtain ⟨hx, hrequests⟩ := hx g₁ hr
  have hqueue := Defines.queue (P := P) i (hr.mono hrequests)
  have hnames : c.instanceSymbols r ++ [] =
      Catalog.tableOf i.symbol i.body ++ c.functionsOf i.symbol i.body := by
    rw [List.append_nil, Catalog.instanceSymbols_eq hbody, hsymbol]
  rw [hnames]
  exact GenState.Graded.append hx hqueue

theorem Defines.instantiate (hc : c.Settled) (fuel : Nat) (name : Ident) (args : List Ty) :
    Gen.Follows (Defines c c.Plain []) (Gen.instantiate c fuel name args) := by
  induction fuel generalizing name args with
  | zero => exact .bind .exhaust fun _ => .pure _
  | succ fuel ih =>
    rw [Gen.instantiate]
    split
    · exact .bind (.report _ _) fun _ => .pure _
    next template htemplate =>
    refine .ite (.bind (.report _ _) fun _ => .pure _) (.bind (.reading fun _ => rfl) fun s => ?_)
    dsimp only
    split
    · exact .pure _
    refine .bind .exhausted fun _ => .ite (.pure _) ?_
    let key := Gen.instanceKey name.name args
    let t : Gen.Typing := ⟨c, template.params.zip args, Gen.instantiate c fuel⟩
    have ht : t.Follows (Defines c c.Plain []) := ih
    have hevolves : t.Evolves := Gen.Evolves.instantiate c fuel
    let r : Request := ⟨name.name, key, Gen.mangle key⟩
    let i : TemplateInstance := ⟨r.symbol, t.bindings, template.body⟩
    have hbody : (c.templates.find? r.template).map Template.body = some i.body := by
      rw [htemplate, Option.map_some]
    split
    next f hf =>
      let x : Gen Unit := do
        Gen.setFunction r.symbol (← Gen.writtenSignature t f.params f.ret?)
      refine Defines.newInstance (x := x) r i rfl hbody fun g _ => ⟨?_, ?_⟩
      · have hsig := Gen.Follows.writtenSignature f.params f.ret? (.inl ht) g
        rw [show i.body = .function f from hf]
        exact GenState.Graded.append hsig (.of_eq rfl)
      · have hsig := Gen.Follows.writtenSignature f.params f.ret? (.inl hevolves) g
        exact hsig.requests.subset
    next d hd =>
      refine Defines.newInstance r i rfl hbody fun g hr => ⟨?_, ?_⟩
      · have hmem := Table.mem_values_of_find? htemplate
        rw [show i.body = .class_ d from hd] at hr ⊢
        exact Defines.layoutInstance hc ht hevolves (hc.templates template hmem d hd)
          (hc.parents template hmem d hd) hr
      · exact (Gen.Evolves.layoutInstance hevolves r.symbol d g).requests.subset
    next =>
      refine Defines.newInstance (x := pure ()) r i rfl hbody fun g _ => ⟨?_, List.Subset.refl _⟩
      exact GenState.Graded.mono (fun _ => Nat.zero_le _)
        (GenState.Ambient.refl (R := Defines c c.Plain []) g)

theorem Defines.typing (hc : c.Settled) {env : Env} (henv : env.catalog = c) :
    env.typing.Follows (Defines c c.Plain []) := by
  subst henv
  exact Defines.instantiate hc env.catalog.limit

theorem Tidy.idleFields (h : g.Tidy c) : g.IdleFields (· = []) := by
  intro name l hl f hf e he
  obtain ⟨d, hd⟩ := h.layouts name l hl
  exact hd.fields f hf e he

/-- Code generation defines the names that are declared, each once; it suffices that no names are
declared in the code that is taken up in detours. -/
theorem Defines.walk (hc : c.Settled) :
    Lower.Walk c (Defines c c.Plain) List.Nodup (· = []) where
  typing bindings := @Defines.typing c hc { catalog := c, bindings } rfl
  lambda h := h.lambda
  inner {L g g' f} sig edits h htidy := by
    have hset : Defines c c.Plain [] g { g with functions := g.functions.insert f.name sig } :=
      .of_eq rfl
    exact (GenState.Graded.append hset h htidy).addFunction f edits
  function f edits h htidy := (h htidy).addFunction f edits
  fields h htidy := h htidy.idleFields htidy
  sublist hM hL := hM.nodup hL
  once h := h ▸ List.nodup_nil
  twice h := List.eq_nil_iff_forall_not_mem.2 fun n hn =>
    (List.nodup_append.1 h).2.2 n hn n hn rfl
  nothing hL h := hL ▸ h

end GenState

end ClassLang
