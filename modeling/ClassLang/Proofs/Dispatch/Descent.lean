import ClassLang.Proofs.Dispatch.Hierarchy

/-!
# Virtual dispatch

A class is laid out on top of its parent, so what is known of an ancestor by position stays true of
the class: its fields come first, and a method that has a slot there has the same slot here. In the
slot stands the function of the nearest class that declares the method. A method loses its slot only
where a class declares it as static.
-/

namespace ClassLang

namespace Layout

variable {c : Catalog} {name m : String} {d : Class} {p : Option String} {b l : Layout}
  {e : MethodEntry} {s : Nat}

theorem Built.extends (h : Built c d (.derive name p (some b)) l) : b.Extends l := by
  obtain ⟨fields, ds, _, rfl⟩ := h
  have h := extends_of_steps (steps_declareAll (.derive name p (some b)) fields ds)
  exact ⟨h.fields, h.vtable⟩

/-- A method with a slot in the parent keeps it in the class, and the function in it is that of the
class if the class declares the method. -/
theorem Built.slot (h : Built c d (.derive name p (some b)) l) (he : b.methods.find? m = some e)
    (hs : e.slot? = some s) (hstatic : (m, true) ∉ c.declaredMethods d) :
    ∃ e', l.methods.find? m = some e' ∧ e'.slot? = some s ∧
      e'.symbol = if c.declares m d then methodSymbol name m else e.symbol := by
  obtain ⟨fields, ds, hds, rfl⟩ := h
  have hdeclares : c.declares m d = ds.any (·.name == m) := by
    rw [Catalog.declares, ← hds, List.any_map]
    rfl
  have hbase : (fields.foldl addField (derive name p (some b))).methods.find? m = some e := by
    rw [methods_foldl_addField]
    exact he
  have hname : (fields.foldl addField (derive name p (some b))).name = name := by
    exact name_of_steps (steps_declareAll (derive name p (some b)) fields [])
  have hinner : ∀ d' ∈ ds, d'.name = m → d'.isStatic = false := by
    rintro d' hd' rfl
    rw [← hds] at hstatic
    exact Bool.eq_false_iff.2 fun htrue =>
      hstatic (List.mem_map.2 ⟨d', hd', by rw [htrue]⟩)
  have := slot_foldl_declare ds hbase hs hinner
  rwa [hname, ← hdeclares] at this

end Layout

theorem Catalog.mostDerived_cons (c : Catalog) (m inherited : String) (d : Class)
    (path : List Class) : c.mostDerived m inherited (d :: path) =
      if c.declares m d then Layout.methodSymbol d.name.name m
      else c.mostDerived m inherited path := by
  rw [mostDerived, List.find?_cons]
  cases c.declares m d <;> rfl

namespace GenState.Hierarchy

variable {g : GenState} {c : Catalog} {a name : String} {path : List Class} {la l : Layout}

/-- A class with a parent of the program is laid out on top of the parent. -/
theorem parent (h : g.Hierarchy c) {d : Class} {p : Ident} (hl : g.layouts.find? name = some l)
    (hd : c.classes.find? name = some d) (hp : d.extends? = some p)
    (hknown : (c.classes.find? p.name).isSome = true) :
    ∃ b, g.layouts.find? p.name = some b ∧
      Layout.Built c d (.derive name (some p.name) (some b)) l := by
  obtain ⟨d', hd', hlaid⟩ := h.laidOut name l hl
  rw [hd] at hd'
  cases hd'
  cases hlaid with
  | root hnone _ =>
    rw [hnone p hp] at hknown
    cases hknown
  | derived p' b hp' hb hbuilt =>
    rw [hp] at hp'
    cases hp'
    exact ⟨b, hb, hbuilt⟩

/-- An ancestor that is laid out is a class, and so are the classes between. -/
theorem isSome_of_descends (h : g.Hierarchy c) (hpath : c.Descends a name path)
    (ha : g.layouts.find? a = some la) : (c.classes.find? name).isSome = true := by
  cases hpath with
  | refl =>
    obtain ⟨d, hd, _⟩ := h.laidOut a la ha
    rw [hd]
    rfl
  | step hd _ _ =>
    rw [hd]
    rfl

theorem extends_of_descends (h : g.Hierarchy c) (hpath : c.Descends a name path)
    (ha : g.layouts.find? a = some la) (hl : g.layouts.find? name = some l) : la.Extends l := by
  induction hpath generalizing l with
  | refl =>
    rw [ha] at hl
    cases hl
    exact ⟨List.prefix_refl _, Nat.le_refl _⟩
  | step hd hp hpath ih =>
    obtain ⟨b, hb, hbuilt⟩ := h.parent hl hd hp (h.isSome_of_descends hpath ha)
    exact (ih hb).trans hbuilt.extends

theorem slot_of_descends (h : g.Hierarchy c) (hc : c.Named) (hpath : c.Descends a name path)
    (ha : g.layouts.find? a = some la) (hl : g.layouts.find? name = some l) {m : String}
    {e : MethodEntry} {s : Nat} (he : la.methods.find? m = some e) (hs : e.slot? = some s)
    (hstatic : ∀ d ∈ path, (m, true) ∉ c.declaredMethods d) :
    ∃ e', l.methods.find? m = some e' ∧ e'.slot? = some s ∧
      e'.symbol = c.mostDerived m e.symbol path := by
  induction hpath generalizing l with
  | refl =>
    rw [ha] at hl
    cases hl
    exact ⟨e, he, hs, rfl⟩
  | @step name d p path hd hp hpath ih =>
    obtain ⟨b, hb, hbuilt⟩ := h.parent hl hd hp (h.isSome_of_descends hpath ha)
    obtain ⟨e₁, he₁, hs₁, hsymbol₁⟩ := ih hb fun d hd => hstatic d (List.mem_cons_of_mem _ hd)
    obtain ⟨e₂, he₂, hs₂, hsymbol₂⟩ := hbuilt.slot he₁ hs₁ (hstatic d List.mem_cons_self)
    refine ⟨e₂, he₂, hs₂, ?_⟩
    rw [hsymbol₂, hsymbol₁, c.mostDerived_cons, hc _ _ hd]

/-- Every layout grew member by member out of nothing or out of another one. -/
theorem steps (h : g.Hierarchy c) (hl : g.layouts.find? name = some l) :
    ∃ parent? base?, (∀ b, base? = some b → ∃ k, g.layouts.find? k = some b) ∧
      Relation.ReflTransGen Layout.Step (.derive name parent? base?) l := by
  obtain ⟨d, _, hlaid⟩ := h.laidOut name l hl
  cases hlaid with
  | root _ hbuilt =>
    obtain ⟨fields, ds, _, rfl⟩ := hbuilt
    exact ⟨none, none, (fun _ hb => nomatch hb), Layout.steps_declareAll _ fields ds⟩
  | derived p b _ hb hbuilt =>
    obtain ⟨fields, ds, _, rfl⟩ := hbuilt
    refine ⟨some p.name, some b, fun b' hb' => ?_, Layout.steps_declareAll _ fields ds⟩
    cases hb'
    exact ⟨p.name, hb⟩

end GenState.Hierarchy

/-- Calls through the tables of classes reach the right functions. -/
structure GenState.Dispatches (g : GenState) (c : Catalog) : Prop where
  /-- In every layout the methods with a slot are in the table, each in a place of its own. -/
  sound : ∀ name l, g.layouts.find? name = some l → l.Sound ∧
    ∀ m e s, l.methods.find? m = some e → e.slot? = some s → s < l.vtable.length
  /-- Every layout grew member by member. -/
  steps : ∀ name l, g.layouts.find? name = some l → ∃ parent? base?,
    (∀ b, base? = some b → ∃ k, g.layouts.find? k = some b) ∧
      Relation.ReflTransGen Layout.Step (.derive name parent? base?) l
  /-- At each step of that the slot that a new member takes over is in the table. -/
  inRange : ∀ name parent? base? l, (∀ b, base? = some b → ∃ k, g.layouts.find? k = some b) →
    Relation.ReflTransGen Layout.Step (.derive name parent? base?) l →
      ∀ m e s, l.methods.find? m = some e → e.slot? = some s → s < l.vtable.length
  /-- What an ancestor has comes first. -/
  inherits : ∀ a name path la l, c.Descends a name path → g.layouts.find? a = some la →
    g.layouts.find? name = some l →
      la.fields <+: l.fields ∧ la.vtable.length ≤ l.vtable.length
  /-- In the slot that a method has in an ancestor stands the function of the nearest class that
  declares it, which is the method's own, unless it was declared as static on the way. -/
  reaches : ∀ a name path la l m e s, c.Descends a name path → g.layouts.find? a = some la →
    g.layouts.find? name = some l → la.methods.find? m = some e → e.slot? = some s →
      (∀ d ∈ path, (m, true) ∉ c.declaredMethods d) →
        ∃ e', l.methods.find? m = some e' ∧ e'.slot? = some s ∧
          e'.symbol = c.mostDerived m e.symbol path ∧ l.vtable[s]? = some e'.symbol

/-- Virtual calls are sound in every program that declares no template. -/
theorem dispatches_prepared (p : Program) (scopes : ScopeTree) (file? : Option String) (limit : Nat)
    (h : ∀ s ∈ p.stmts, s.isTemplate = false) :
    (GenState.prepared p scopes file? limit).Dispatches (.ofProgram scopes file? p limit) := by
  have hg := GenState.hierarchy_prepared h scopes file? limit
  have hc := Catalog.named_ofProgram scopes file? p limit
  refine ⟨fun name l hl => ?_, fun name l hl => hg.steps hl, ?_, ?_, ?_⟩
  · exact ⟨hg.sound name l hl, fun m e s => (hg.sound name l hl).slot_lt⟩
  · intro name parent? base? l hbase hsteps m e s
    refine ((Layout.Sound.derive (fun b hb => ?_) name parent?).steps hsteps).slot_lt
    obtain ⟨k, hk⟩ := hbase b hb
    exact hg.sound k b hk
  · intro a name path la l hpath ha hl
    have hextends := hg.extends_of_descends hpath ha hl
    exact ⟨hextends.fields, hextends.vtable⟩
  · intro a name path la l m e s hpath ha hl he hs hstatic
    obtain ⟨e', he', hs', hsymbol⟩ := hg.slot_of_descends hc hpath ha hl he hs hstatic
    exact ⟨e', he', hs', hsymbol, (hg.sound name l hl).entry m e' s he' hs'⟩

/-- A class that redefines one of two virtual methods in its body and the other one outside, and
after it the class that it extends. -/
def shapes : Program :=
  let method (name : String) (modifiers : Modifiers) : Member :=
    .method ⟨⟨name, {}⟩, [], none, ⟨[], {}⟩, modifiers, {}⟩
  let circle : Class :=
    ⟨⟨"Circle", {}⟩, some ⟨"Shape", {}⟩, [], [method "area" { isOverride := true }], {}⟩
  let shape : Class := ⟨⟨"Shape", {}⟩, none, [],
    [method "name" { isVirtual := true }, method "area" { isVirtual := true }], {}⟩
  let receiver : Param := ⟨⟨"c", {}⟩, some (.named ⟨"Circle", {}⟩), {}⟩
  ⟨[.class_ circle, .class_ shape, .method ⟨receiver, ⟨"name", {}⟩, [], none, ⟨[], {}⟩, {}⟩], {}⟩

/-- Both slots of the class hold its own functions. -/
theorem dispatches_shapes :
    (∀ s ∈ shapes.stmts, s.isTemplate = false) ∧
      (GenState.prepared shapes {} none).Dispatches (.ofProgram {} none shapes) ∧
        ((GenState.prepared shapes {} none).layouts.find? "Circle").map Layout.vtable =
          some ["Circle_name", "Circle_area"] := by
  have h : ∀ s ∈ shapes.stmts, s.isTemplate = false := by decide
  exact ⟨h, dispatches_prepared shapes {} none 1000 h, by decide +kernel⟩

end ClassLang
