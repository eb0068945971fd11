import ClassLang.Proofs.Analysis.Signatures
import ClassLang.Proofs.Capture.Bindings
import ClassLang.Proofs.Symbols.Basic

/-!
# Layouts as they are written

In a regular state every layout is that of an instance or lays out a class as it is written, at least
where the members of the class and of its ancestors are sheltered from the type parameters of the
templates that extend them. What is resolved without bindings in such a state is what was written,
and so is the layout that comes of it.
-/

namespace ClassLang

namespace Catalog

/-- The members of a class and of its ancestors are written without the type parameters of the
templates below them. -/
def Sheltered (c : Catalog) (name : String) : Prop :=
  ∀ t ∈ c.templates.values, ∀ d, t.body = .class_ d → ∀ p, d.extends? = some p →
    ∀ ancestor path path' a, c.Descends ancestor name path → c.Descends ancestor p.name path' →
      c.classes.find? ancestor = some a → ∀ e ∈ c.memberTypes a, e.avoids t.params = true

/-- No instance has the name of a class or of one of its ancestors. -/
def Apart (c : Catalog) (g : GenState) (name : String) : Prop :=
  ∀ ancestor path, c.Descends ancestor name path → ¬g.HasSymbol ancestor

/-- If the class is sheltered, the layout is that of the class with all its ancestors. -/
def Faithful (c : Catalog) (g : GenState) (name : String) (l : Layout) : Prop :=
  c.Sheltered name → c.Apart g name → ∃ lineage, c.Lineage name lineage ∧ c.LaysOut g lineage l

variable {c : Catalog} {g g' : GenState} {name : String} {l : Layout}

/-- It suffices that no class is written with a type parameter. -/
theorem sheltered_of_avoids (h : ∀ t ∈ c.templates.values, ∀ a ∈ c.classes.values,
    ∀ e ∈ c.memberTypes a, e.avoids t.params = true) (name : String) : c.Sheltered name :=
  fun t ht _ _ _ _ _ _ _ a _ _ ha => h t ht a (Table.mem_values_of_find? ha)

/-- It suffices that no instance has the name of the class or of a parent of any class. -/
theorem apart_of_ne (h : ∀ r ∈ g.requests, r.symbol ≠ name ∧
    ∀ d ∈ c.classes.values, ∀ p ∈ d.extends?, r.symbol ≠ p.name) : c.Apart g name := by
  rintro ancestor path hpath ⟨r, hr, hsymbol⟩
  obtain ⟨hname, hparents⟩ := h r hr
  clear h
  induction hpath with
  | refl => exact hname hsymbol
  | step hd hp _ ih => exact ih (hparents _ (Table.mem_values_of_find? hd) _ hp)

theorem Sheltered.parent (h : c.Sheltered name) {d : Class} {p : Ident}
    (hd : c.classes.find? name = some d) (hp : d.extends? = some p) : c.Sheltered p.name :=
  fun t ht d' hd' p' hp' ancestor path path' a h₁ h₂ ha =>
    h t ht d' hd' p' hp' ancestor (d :: path) path' a (.step hd hp h₁) h₂ ha

theorem Apart.parent (h : c.Apart g name) {d : Class} {p : Ident}
    (hd : c.classes.find? name = some d) (hp : d.extends? = some p) : c.Apart g p.name :=
  fun ancestor path hpath => h ancestor (d :: path) (.step hd hp hpath)

theorem Apart.before (h : c.Apart g' name) (hg : g.Grows g') : c.Apart g name :=
  fun ancestor path hpath hsymbol => h ancestor path hpath (hsymbol.mono hg)

theorem Faithful.mono (hg : g.Grows g') (h : c.Faithful g name l) : c.Faithful g' name l :=
  fun hshelter hapart =>
    have ⟨lineage, hlineage, hl⟩ := h hshelter (hapart.before hg)
    ⟨lineage, hlineage, hl.mono hg⟩

end Catalog

namespace GenState

/-- Every layout and every struct is that of an instance or of a class as it is written. -/
structure Regular (g : GenState) (c : Catalog) : Prop where
  recorded : Request.Recorded g.requests
  layouts : ∀ name l, g.layouts.find? name = some l → g.HasSymbol name ∨
    c.classes.contains name = true ∧ ⟨name, l.members⟩ ∈ g.module.structs ∧ c.Faithful g name l
  structs : ∀ s ∈ g.module.structs, g.HasSymbol s.name ∨
    ∃ l : Layout, l.members = s.fields ∧ c.Faithful g s.name l

variable {c : Catalog} {g g' g'' : GenState}

namespace Regular

theorem initial (file? : Option String) : (GenState.initial file?).Regular c :=
  ⟨nofun, nofun, nofun⟩

/-- More is asked for or reported. -/
theorem grow (h : g.Regular c) (hg : g.Grows g') (hrecorded : Request.Recorded g'.requests)
    (hlayouts : g'.layouts = g.layouts) (hstructs : g'.module.structs = g.module.structs) :
    g'.Regular c := by
  refine ⟨hrecorded, fun name l hl => ?_, fun s hs => ?_⟩
  · rw [hlayouts] at hl
    rw [hstructs]
    exact (h.layouts name l hl).imp (·.mono hg) fun ⟨hclass, hs, hl⟩ => ⟨hclass, hs, hl.mono hg⟩
  · rw [hstructs] at hs
    exact (h.structs s hs).imp (·.mono hg) fun ⟨l, hmembers, hl⟩ => ⟨l, hmembers, hl.mono hg⟩

/-- The layout of an instance or of a class is recorded. -/
theorem recordLayout (h : g.Regular c) {l : Layout} (hl : g.HasSymbol l.name ∨
    c.classes.contains l.name = true ∧ c.Faithful g l.name l) :
    ((Gen.recordLayout l).run g).2.Regular c := by
  let g' := ((Gen.recordLayout l).run g).2
  have hg : g.Grows g' := ⟨List.Subset.refl _, List.Subset.refl _⟩
  have hstructs : g'.module.structs = g.module.structs ++ [⟨l.name, l.members⟩] := rfl
  refine ⟨h.recorded, fun name l' hl' => ?_, fun s hs => ?_⟩
  · rw [find?_recordLayout] at hl'
    rw [hstructs, List.mem_append]
    split at hl'
    next hname =>
      cases hl'
      rw [eq_of_beq hname]
      exact hl.imp (·.mono hg) fun ⟨hclass, hl⟩ =>
        ⟨hclass, .inr (List.mem_singleton_self _), hl.mono hg⟩
    next =>
      exact (h.layouts name l' hl').imp (·.mono hg) fun ⟨hclass, hs, hl⟩ =>
        ⟨hclass, .inl hs, hl.mono hg⟩
  · rw [hstructs, List.mem_append, List.mem_singleton] at hs
    rcases hs with hs | rfl
    · exact (h.structs s hs).imp (·.mono hg) fun ⟨l, hmembers, hl⟩ => ⟨l, hmembers, hl.mono hg⟩
    · exact hl.imp (·.mono hg) fun ⟨_, hl⟩ => ⟨l, rfl, hl.mono hg⟩

/-- Where no instance has its name, what is laid out is a class as it is written. -/
theorem faithful (h : g.Regular c) {name : String} {l : Layout} (hl : g.layouts.find? name = some l)
    (hname : ¬g.HasSymbol name) : c.classes.contains name = true ∧ c.Faithful g name l :=
  have hclass := (h.layouts name l hl).resolve_left hname
  ⟨hclass.1, hclass.2.2⟩

end Regular

/-- From a regular state one comes to a regular state that has grown. -/
def Respects (c : Catalog) (g g' : GenState) : Prop := g.Regular c → g.Grows g' ∧ g'.Regular c

theorem Respects.of_eq (hrequests : g'.requests = g.requests) (herrors : g.errors ⊆ g'.errors)
    (hlayouts : g'.layouts = g.layouts) (hstructs : g'.module.structs = g.module.structs) :
    Respects c g g' := fun h =>
  have hg : g.Grows g' := ⟨hrequests ▸ List.Subset.refl _, herrors⟩
  ⟨hg, h.grow hg (hrequests ▸ h.recorded) hlayouts hstructs⟩

/-- An instance is asked for. -/
theorem Respects.request (template : String) (args : List Ty) :
    Respects c g { g with requests := g.requests ++ [Gen.request template args] } := by
  intro h
  have hg : g.Grows { g with requests := g.requests ++ [Gen.request template args] } :=
    ⟨List.subset_append_left _ _, List.Subset.refl _⟩
  exact ⟨hg, h.grow hg (List.forall_mem_append.2 ⟨h.recorded, List.forall_mem_singleton.2 rfl⟩) rfl
    rfl⟩

end GenState

instance (c : Catalog) : GenState.Ambient (GenState.Respects c) where
  refl g h := ⟨.refl g, h⟩
  trans h h' hg :=
    have ⟨hgrows, hg'⟩ := h hg
    have ⟨hgrows', hg''⟩ := h' hg'
    ⟨hgrows.trans hgrows', hg''⟩
  report _ _ := .of_eq rfl (List.subset_append_left _ _) rfl rfl
  declare g d := by
    unfold Ir.Module.declare
    split
    all_goals exact .of_eq rfl (List.Subset.refl _) rfl rfl
  string g bytes := by
    refine .of_eq rfl (List.Subset.refl _) rfl ?_
    unfold Ir.Module.addString
    split <;> rfl
  copy _ _ := .of_eq rfl (List.Subset.refl _) rfl rfl
  visit _ _ := .of_eq rfl (List.Subset.refl _) rfl rfl

namespace Gen

open GenState (Respects)

variable {α β γ : Type} {c : Catalog} {fuel : Nat}

/-- A run from a regular state leads to a regular state that has grown, and its result has a property
there. -/
def Reaches (c : Catalog) (x : Gen α) (g : GenState) (Q : α → GenState → Prop) : Prop :=
  g.Regular c → g.Grows (x.run g).2 ∧ (x.run g).2.Regular c ∧ Q (x.run g).1 (x.run g).2

namespace Reaches

variable {x : Gen α} {f : α → Gen β} {g : GenState} {Q Q' : α → GenState → Prop}
  {S : β → GenState → Prop}

theorem mono (h : Reaches c x g Q) (hQ : ∀ a g', Q a g' → Q' a g') : Reaches c x g Q' :=
  fun hg => have ⟨hgrows, hg', hq⟩ := h hg; ⟨hgrows, hg', hQ _ _ hq⟩

theorem pure {a : α} (h : g.Regular c → Q a g) : Reaches c (Pure.pure a) g Q :=
  fun hg => ⟨.refl g, hg, h hg⟩

theorem bind (h : Reaches c x g Q)
    (hf : ∀ a g', g.Grows g' → Q a g' → Reaches c (f a) g' S) : Reaches c (x >>= f) g S := by
  intro hg
  obtain ⟨hgrows, hg', hq⟩ := h hg
  obtain ⟨hgrows', hg'', hs⟩ := hf _ _ hgrows hq hg'
  exact ⟨hgrows.trans hgrows', hg'', hs⟩

theorem of_follows (h : Follows (Respects c) x) (hQ : g.Regular c → Q (x.run g).1 (x.run g).2) :
    Reaches c x g Q :=
  fun hg => ⟨(h g hg).1, (h g hg).2, hQ hg⟩

/-- The results for a list of things, each of which stays what it is when more is asked for. -/
theorem mapM {P : GenState → α → β → Prop} (l : List α)
    (hP : ∀ g g' a b, g.Grows g' → P g a b → P g' a b)
    (hf : ∀ a ∈ l, ∀ g, Reaches c (f a) g fun b g' => P g' a b) (g : GenState) :
    Reaches c (l.mapM f) g fun bs g' => List.Forall₂ (P g') l bs := by
  induction l generalizing g with
  | nil => exact pure fun _ => .nil
  | cons a l ih =>
    rw [List.mapM_cons]
    refine bind (hf a List.mem_cons_self g) fun b g₁ _ hb => ?_
    refine bind (ih (fun a ha => hf a (List.mem_cons_of_mem _ ha)) g₁) fun bs g₂ hg₂ hbs => ?_
    exact pure fun _ => .cons (hP g₁ g₂ a b hg₂ hb) hbs

end Reaches

/-! ## Instances -/

/-- Asking for an instance gives its symbol, unless an error was reported. -/
def Obtains (g : GenState) (name : String) (args : List Ty) : Option String → Prop
  | some symbol => symbol = (request name args).symbol ∧ request name args ∈ g.requests
  | none => g.errors ≠ []

/-- So it is with all instances that may nest `fuel` deep. -/
def Instantiates (c : Catalog) (fuel : Nat) : Prop :=
  ∀ name args g, Reaches c (instantiate c fuel name args) g fun symbol? g' =>
    Obtains g' name.name args symbol?

theorem Instantiates.follows (h : Instantiates c fuel) (bindings : List (String × Ty)) :
    (typingAt c fuel bindings).Follows (Respects c) := fun name args g hg =>
  have ⟨hgrows, hg', _⟩ := h name args g hg
  ⟨hgrows, hg'⟩

/-! ## Types -/

theorem reaches_namedType (n : Ident) (g : GenState) :
    Reaches c (namedType (typingAt c fuel []) n.name) g fun ty g' => c.Means g' (.named n) ty := by
  refine .of_follows (.namedType _ _) fun hg => ?_
  rw [run_namedType]
  show c.Means g (.named n) ((Ty.ofBasicName? n.name).getD _)
  have hnamed := Catalog.Means.named (c := c) (g := g) n
  cases hbasic : Ty.ofBasicName? n.name with
  | some ty =>
    rw [Catalog.typeNamed?, hbasic] at hnamed
    exact hnamed
  | none =>
  show c.Means g (.named n) (if c.classes.contains n.name || g.layouts.contains n.name then
    .class_ n.name else _)
  by_cases hsymbol : g.HasSymbol n.name ∧ g.layouts.contains n.name = true
  · rw [hsymbol.2, Bool.or_true, if_pos rfl]
    exact .symbol hbasic hsymbol.1
  · have hclass : (c.classes.contains n.name || g.layouts.contains n.name) =
        c.classes.contains n.name := by
      cases hl : g.layouts.find? n.name with
      | none => rw [Table.contains, Table.contains, hl, Option.isSome_none, Bool.or_false]
      | some l =>
        have hlayout : g.layouts.contains n.name = true := by rw [Table.contains, hl]; rfl
        rw [(hg.faithful hl fun h => hsymbol ⟨h, hlayout⟩).1, Bool.true_or]
    have htype : (c.typeNamed? n.name).getD .unknown =
        if c.classes.contains n.name then .class_ n.name
        else if (c.scopes.interfaceInfo? n.name).isSome then .interface n.name
        else if (c.scopes.classInfo? n.name).isSome then .class_ n.name
        else .unknown := by
      rw [Catalog.typeNamed?, hbasic]
      dsimp only
      split_ifs <;> rfl
    rw [hclass]
    exact htype ▸ hnamed

theorem reaches_instanceType {t : Typing} {n : Ident} {args : List TypeExpr} {types : List Ty}
    (span : Span) {symbol? : Option String} {g : GenState}
    (hargs : List.Forall₂ (c.Means g) args types) (hsymbol : Obtains g n.name types symbol?) :
    Reaches c (instanceType t n symbol?) g fun ty g' => c.Means g' (.generic n args span) ty := by
  cases symbol? with
  | none => exact .pure fun _ => .failed n args span hsymbol
  | some symbol =>
    obtain ⟨rfl, hrequest⟩ := hsymbol
    refine .of_follows (.instanceType _ _ _) fun _ => ?_
    let symbol := (request n.name types).symbol
    show c.Means ((if g.layouts.contains symbol || t.catalog.isClassTemplate n.name then
        Pure.pure (.class_ symbol)
      else do
        report (.notAClass n.name) n.span
        return .unknown : Gen Ty).run g).2 _ ((if _ then _ else _ : Gen Ty).run g).1
    split
    · exact .instance_ span hargs hrequest
    · exact .failed n args span (List.append_ne_nil_of_right_ne_nil _ (List.cons_ne_nil _ _))

mutual

theorem reaches_resolveType (h : Instantiates c fuel) : (e : TypeExpr) → (g : GenState) →
    Reaches c (resolveType (typingAt c fuel []) e) g fun ty g' => c.Means g' e ty
  | .named n, g => by
    rw [resolveType]
    exact reaches_namedType n g
  | .array element span, g => by
    rw [resolveType]
    exact (reaches_resolveType h element g).bind fun _ _ _ hty => .pure fun _ => .array span hty
  | .map key value span, g => by
    rw [resolveType]
    refine (reaches_resolveType h key g).bind fun k g₁ _ hk => ?_
    refine (reaches_resolveType h value g₁).bind fun v g₂ hg₂ hv => ?_
    exact .pure fun _ => .map span (hk.mono hg₂ key) hv
  | .pointer inner span, g => by
    rw [resolveType]
    exact (reaches_resolveType h inner g).mono fun _ _ hty => .pointer span hty
  | .generic n args span, g => by
    rw [resolveType]
    refine (reaches_resolveTypes h args g).bind fun types g₁ _ htypes => ?_
    refine (h n types g₁).bind fun symbol? g₂ hg₂ hsymbol => ?_
    exact reaches_instanceType span (Catalog.Means.mono_all hg₂ args htypes) hsymbol

theorem reaches_resolveTypes (h : Instantiates c fuel) : (es : List TypeExpr) → (g : GenState) →
    Reaches c (resolveTypes (typingAt c fuel []) es) g fun types g' =>
      List.Forall₂ (c.Means g') es types
  | [], _ => .pure fun _ => .nil
  | e :: es, g => by
    rw [resolveTypes]
    refine (reaches_resolveType h e g).bind fun ty g₁ _ hty => ?_
    refine (reaches_resolveTypes h es g₁).bind fun types g₂ hg₂ htypes => ?_
    exact .pure fun _ => .cons (hty.mono hg₂ e) htypes

end

theorem reaches_resolveOptional (h : Instantiates c fuel) (missing : Ty) (e? : Option TypeExpr)
    (g : GenState) : Reaches c (resolveOptional (typingAt c fuel []) missing e?) g fun ty g' =>
      c.MeansOr g' missing e? ty := by
  cases e? with
  | some e => exact reaches_resolveType h e g
  | none => exact .pure fun _ => rfl

theorem reaches_writtenSignature (h : Instantiates c fuel) (params : List Param)
    (ret? : Option TypeExpr) (g : GenState) :
    Reaches c (writtenSignature (typingAt c fuel []) params ret?) g fun sig g' =>
      c.Signs g' params ret? sig := by
  refine (Reaches.mapM (P := fun g (p : Param) ty => c.MeansOr g .unknown p.type? ty) params
    (fun _ _ _ _ hg h => h.mono hg) (fun p _ => reaches_resolveOptional h _ _) g).bind ?_
  refine fun types g₁ _ htypes => (reaches_resolveOptional h _ _ g₁).bind fun ret g₂ hg₂ hret => ?_
  exact .pure fun _ => ⟨htypes.imp fun _ _ h => h.mono hg₂, hret, rfl⟩

/-! ## Layouts -/

theorem reaches_fieldType (h : Instantiates c fuel) {d : Class}
    (hclosed : ∀ info, c.scopes.classInfo? d.name.name = some info →
      ∀ i ∈ info.fields, i.ty.freeParams = []) (f : Field) (g : GenState) :
    Reaches c (fieldType (typingAt c fuel []) (c.scopes.classInfo? d.name.name) f) g fun ty g' =>
      c.MeansOr g' (c.foundType d f) f.type? ty := by
  cases hf : f.type? with
  | some e =>
    unfold fieldType
    rw [hf]
    exact reaches_resolveType h e g
  | none =>
    rw [fieldType_missing hf hclosed]
    exact .pure fun _ => rfl

theorem reaches_methods (h : Instantiates c fuel) (params : α → List Param)
    (ret? : α → Option TypeExpr) (methods : List α) (g : GenState) :
    Reaches c (methods.mapM fun m => do
        return (m, ← writtenSignature (typingAt c fuel []) (params m) (ret? m))) g
      fun qs g' => List.Forall₂ (fun m q => q.1 = m ∧ c.Signs g' (params m) (ret? m) q.2) methods
        qs := by
  refine Reaches.mapM methods (fun _ _ _ _ hg h => ⟨h.1, h.2.mono hg⟩) (fun m _ g => ?_) g
  exact (reaches_writtenSignature h _ _ g).bind fun _ _ _ hsig => .pure fun _ => ⟨rfl, hsig⟩

/-- What is laid out without bindings on top of the ancestors of a class is the class as it is
written. -/
theorem reaches_layoutOver (h : Instantiates c fuel) {d : Class}
    (hclosed : ∀ info, c.scopes.classInfo? d.name.name = some info →
      ∀ i ∈ info.fields, i.ty.freeParams = []) (name : String) (parent? : Option String)
    {base? : Option Layout} {lineage : List Class} {g : GenState}
    (hbase : c.LaysOut g lineage (.derive name parent? base?)) :
    Reaches c (layoutOver (typingAt c fuel []) name d parent? base?) g fun l g' =>
      c.LaysOut g' (d :: lineage) l := by
  have hslot : ∀ f ∈ d.fields, ∀ g, Reaches c (do
      return (⟨f.name.name, ← fieldType (typingAt c fuel []) (c.scopes.classInfo? d.name.name) f,
        f.value?⟩ : FieldSlot)) g fun s g' => c.Stores g' d f s := fun f _ g =>
    (reaches_fieldType h hclosed f g).bind fun ty _ _ hty => .pure fun _ => ⟨rfl, hty, rfl⟩
  refine (Reaches.mapM (P := fun g f s => c.Stores g d f s) d.fields
    (fun _ _ _ _ hg h => h.mono hg) hslot g).bind fun slots g₁ hg₁ hslots => ?_
  refine (reaches_methods h Function.params Function.ret? d.methods g₁).bind
    fun inner g₂ hg₂ hinner => ?_
  refine (reaches_methods h Method.params Method.ret? (c.methodsOf d.name.name) g₂).bind
    fun outer g₃ hg₃ houter => ?_
  refine .pure fun _ => ?_
  let ofInner (q : Function × Signature) : Layout.Declared :=
    ⟨q.1.name.name, q.2, q.1.modifiers.isVirtual || q.1.modifiers.isOverride,
      q.1.modifiers.isStatic⟩
  let ofOuter (q : Method × Signature) : Layout.Declared := ⟨q.1.name.name, q.2, false, false⟩
  have hdeclared : List.Forall₂ (fun x e => e.name = x.name ∧ c.Signs g₃ x.params x.ret? e.signature)
      (c.prototypes d) (inner.map ofInner ++ outer.map ofOuter) := by
    refine List.rel_append ?_ ?_
    · refine List.forall₂_map_left_iff.2 (List.forall₂_map_right_iff.2 (hinner.imp ?_))
      rintro m q ⟨rfl, hsig⟩
      exact ⟨rfl, hsig.mono hg₃⟩
    · refine List.forall₂_map_left_iff.2 (List.forall₂_map_right_iff.2 (houter.imp ?_))
      rintro m q ⟨rfl, hsig⟩
      exact ⟨rfl, hsig⟩
  have hgrows := hg₁.trans (hg₂.trans hg₃)
  have hl := (hbase.mono hgrows).declareAll (hslots.imp fun _ _ h => h.mono (hg₂.trans hg₃)) hdeclared
  rw [Layout.declareAll, List.foldl_append, List.foldl_map, List.foldl_map] at hl
  exact hl

end Gen

end ClassLang
