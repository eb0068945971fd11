import ClassLang.Proofs.Dispatch.Hierarchy
import ClassLang.Proofs.Instances.Spelling
import Mathlib.Data.List.Forall2

/-!
# What classes are written with

A written type has a meaning outside of templates, where no name stands for a type parameter. The
layout of a class goes by that meaning: the fields of its ancestors come first and then its own, and
each of its methods has the signature that is written with it in the nearest class.
-/

namespace ClassLang

namespace GenState

/-- The name is the symbol of an instance that was asked for. -/
def HasSymbol (g : GenState) (name : String) : Prop := ∃ r ∈ g.requests, r.symbol = name

/-- What was asked for and what was reported is not taken back. -/
structure Grows (g g' : GenState) : Prop where
  requests : g.requests ⊆ g'.requests
  errors : g.errors ⊆ g'.errors

variable {g g' g'' : GenState}

theorem Grows.refl (g : GenState) : g.Grows g := ⟨List.Subset.refl _, List.Subset.refl _⟩

theorem Grows.trans (h : g.Grows g') (h' : g'.Grows g'') : g.Grows g'' :=
  ⟨List.Subset.trans h.requests h'.requests, List.Subset.trans h.errors h'.errors⟩

theorem HasSymbol.mono {name : String} (h : g.HasSymbol name) (hg : g.Grows g') :
    g'.HasSymbol name :=
  have ⟨r, hr, hsymbol⟩ := h
  ⟨r, hg.requests hr, hsymbol⟩

end GenState

namespace Catalog

variable {c : Catalog} {g g' : GenState} {missing : Ty}

/-! ## Written types -/

/-- A written type may stand for a type outside of templates. With type arguments it is the class of
the instance that was asked for, unless the instance could not be made, which is an error. -/
inductive Means (c : Catalog) (g : GenState) : TypeExpr → Ty → Prop
  | named (n : Ident) : Means c g (.named n) ((c.typeNamed? n.name).getD .unknown)
  /-- A name may also be the symbol of an instance. -/
  | symbol {n : Ident} : Ty.ofBasicName? n.name = none → g.HasSymbol n.name →
    Means c g (.named n) (.class_ n.name)
  | array {e : TypeExpr} {ty : Ty} (span : Span) : Means c g e ty →
    Means c g (.array e span) (.array ty)
  | map {key value : TypeExpr} {k v : Ty} (span : Span) : Means c g key k → Means c g value v →
    Means c g (.map key value span) (.map k v)
  | pointer {e : TypeExpr} {ty : Ty} (span : Span) : Means c g e ty → Means c g (.pointer e span) ty
  | instance_ {n : Ident} {args : List TypeExpr} {types : List Ty} (span : Span) :
    List.Forall₂ (Means c g) args types → Gen.request n.name types ∈ g.requests →
    Means c g (.generic n args span) (.class_ (Gen.request n.name types).symbol)
  | failed (n : Ident) (args : List TypeExpr) (span : Span) : g.errors ≠ [] →
    Means c g (.generic n args span) .unknown

/-- A type that may be left out. -/
def MeansOr (c : Catalog) (g : GenState) (missing : Ty) : Option TypeExpr → Ty → Prop
  | some e, ty => c.Means g e ty
  | none, ty => ty = missing

mutual

theorem Means.mono (hg : g.Grows g') :
    (e : TypeExpr) → {ty : Ty} → c.Means g e ty → c.Means g' e ty
  | .named n, _, h => by
    cases h with
    | named => exact .named n
    | symbol hbasic hsymbol => exact .symbol hbasic (hsymbol.mono hg)
  | .array element _, _, .array _ h => .array _ (h.mono hg element)
  | .map key value _, _, .map _ h h' => .map _ (h.mono hg key) (h'.mono hg value)
  | .pointer inner _, _, .pointer _ h => .pointer _ (h.mono hg inner)
  | .generic n args _, _, h => by
    cases h with
    | instance_ _ hargs hrequest =>
      exact .instance_ _ (Means.mono_all hg args hargs) (hg.requests hrequest)
    | failed _ _ _ herrors =>
      exact .failed n args _ fun hnone => herrors (List.subset_nil.1 (hnone ▸ hg.errors))

theorem Means.mono_all (hg : g.Grows g') : (es : List TypeExpr) → {types : List Ty} →
    List.Forall₂ (c.Means g) es types → List.Forall₂ (c.Means g') es types
  | [], _, .nil => .nil
  | e :: es, _, .cons h hs => .cons (h.mono hg e) (Means.mono_all hg es hs)

end

theorem MeansOr.mono (hg : g.Grows g') {e? : Option TypeExpr} {ty : Ty}
    (h : c.MeansOr g missing e? ty) : c.MeansOr g' missing e? ty := by
  cases e? with
  | some e => exact Means.mono hg e h
  | none => exact h

/-! ## Members -/

/-- A signature is what is written with a function. -/
structure Signs (c : Catalog) (g : GenState) (params : List Param) (ret? : Option TypeExpr)
    (sig : Signature) : Prop where
  params : List.Forall₂ (fun p ty => c.MeansOr g .unknown p.type? ty) params sig.params
  ret : c.MeansOr g .void ret? sig.ret
  variadic : sig.variadic = false

/-- The type of a field that is written without one: what analysis found for it, or else the type of
its first value. -/
def foundType (c : Catalog) (d : Class) (f : Field) : Ty :=
  let found? := ((c.scopes.classInfo? d.name.name).bind (·.field? f.name.name)).map FieldInfo.ty
  (found?.filter (fun ty => !ty.isUnknown) <|> f.value?.bind Ty.ofLiteral?).getD .unknown

/-- A slot is that of a field of a class. -/
structure Stores (c : Catalog) (g : GenState) (d : Class) (f : Field) (s : FieldSlot) : Prop where
  name : s.name = f.name.name
  type : c.MeansOr g (c.foundType d f) f.type? s.ty
  default : s.default? = f.value?

/-- A method as it is written. -/
structure Prototype where
  name : String
  params : List Param
  ret? : Option TypeExpr

/-- The methods that a class declares, in its body and then outside of it. -/
def prototypes (c : Catalog) (d : Class) : List Prototype :=
  d.methods.map (fun m => ⟨m.name.name, m.params, m.ret?⟩) ++
    (c.methodsOf d.name.name).map fun m => ⟨m.name.name, m.params, m.ret?⟩

theorem Signs.mono (hg : g.Grows g') {params : List Param} {ret? : Option TypeExpr}
    {sig : Signature} (h : c.Signs g params ret? sig) : c.Signs g' params ret? sig :=
  ⟨h.params.imp fun _ _ h => h.mono hg, h.ret.mono hg, h.variadic⟩

theorem Stores.mono (hg : g.Grows g') {d : Class} {f : Field} {s : FieldSlot}
    (h : c.Stores g d f s) : c.Stores g' d f s :=
  ⟨h.name, h.type.mono hg, h.default⟩

/-! ## Classes with their ancestors -/

/-- A class and its ancestors, the nearest first. -/
inductive Lineage (c : Catalog) : String → List Class → Prop
  | root {name : String} {d : Class} : c.classes.find? name = some d →
    (∀ p, d.extends? = some p → c.classes.find? p.name = none) → Lineage c name [d]
  | derived {name : String} {d : Class} {p : Ident} {ds : List Class} :
    c.classes.find? name = some d → d.extends? = some p → Lineage c p.name ds →
    Lineage c name (d :: ds)

/-- The fields of an object, those of the ancestors first. -/
def storedFields (lineage : List Class) : List (Class × Field) :=
  lineage.reverse.flatMap fun d => d.fields.map (d, ·)

/-- The method of a name: the last one of the nearest class that declares it. -/
def prototype? (c : Catalog) (lineage : List Class) (m : String) : Option Prototype :=
  (lineage.flatMap fun d => (c.prototypes d).reverse).find? (·.name == m)

/-- A layout is that of a class with these ancestors. -/
structure LaysOut (c : Catalog) (g : GenState) (lineage : List Class) (l : Layout) : Prop where
  fields : List.Forall₂ (fun x s => c.Stores g x.1 x.2 s) (storedFields lineage) l.fields
  methods : ∀ m, Option.Rel (fun x e => c.Signs g x.params x.ret? e.signature)
    (c.prototype? lineage m) (l.methods.find? m)

theorem rel_imp {α β : Type} {R S : α → β → Prop} (h : ∀ a b, R a b → S a b) {a? : Option α}
    {b? : Option β} (hR : Option.Rel R a? b?) : Option.Rel S a? b? := by
  cases hR with
  | some hab => exact .some (h _ _ hab)
  | none => exact .none

variable {d : Class} {lineage : List Class} {l : Layout}

theorem LaysOut.mono (hg : g.Grows g') (h : c.LaysOut g lineage l) : c.LaysOut g' lineage l :=
  ⟨h.fields.imp fun _ _ h => h.mono hg, fun m => rel_imp (fun _ _ h => h.mono hg) (h.methods m)⟩

/-- Without a parent there is nothing at first. -/
theorem LaysOut.root (name : String) (parent? : Option String) :
    c.LaysOut g [] (.derive name parent? none) := ⟨.nil, fun _ => .none⟩

/-- What a class has from its parent. -/
theorem LaysOut.derive (h : c.LaysOut g lineage l) (name : String) (parent? : Option String) :
    c.LaysOut g lineage (.derive name parent? (some l)) := ⟨h.fields, h.methods⟩

theorem methods_foldl_declare {R : Prototype → MethodEntry → Prop} {xs : List Prototype}
    {ds : List Layout.Declared} (hds : List.Forall₂ (fun x e => e.name = x.name ∧
      ∀ symbol slot? isStatic, R x ⟨symbol, e.signature, slot?, isStatic⟩) xs ds) {l : Layout}
    {m : String} {x? : Option Prototype} (h : Option.Rel R x? (l.methods.find? m)) :
    Option.Rel R ((xs.reverse.find? (·.name == m)).or x?)
      ((ds.foldl Layout.declare l).methods.find? m) := by
  induction hds generalizing l x? with
  | nil => exact h
  | @cons x e xs ds hx _ ih =>
    have hlast : Option.Rel R (if x.name == m then some x else x?)
        ((l.declare e).methods.find? m) := by
      rw [Layout.declare, Layout.find?_addMethod, hx.1]
      by_cases hm : x.name = m
      · rw [if_pos (by simpa using hm), if_pos (by simpa using hm.symm)]
        exact .some (hx.2 _ _ _)
      · rw [if_neg (by simpa using hm), if_neg (by simpa using Ne.symm hm)]
        exact h
    have hfind : ((x :: xs).reverse.find? (·.name == m)).or x? =
        (xs.reverse.find? (·.name == m)).or (if x.name == m then some x else x?) := by
      rw [List.reverse_cons, List.find?_append, Option.or_assoc, List.find?_cons, List.find?_nil]
      cases x.name == m <;> rfl
    rw [hfind]
    exact ih hlast

/-- The members of a class come after those of its ancestors. -/
theorem LaysOut.declareAll (h : c.LaysOut g lineage l) {slots : List FieldSlot}
    (hslots : List.Forall₂ (c.Stores g d) d.fields slots) {ds : List Layout.Declared}
    (hds : List.Forall₂ (fun x e => e.name = x.name ∧ c.Signs g x.params x.ret? e.signature)
      (c.prototypes d) ds) : c.LaysOut g (d :: lineage) (l.declareAll slots ds) := by
  constructor
  · have hfields : (l.declareAll slots ds).fields = l.fields ++ slots := by
      rw [Layout.declareAll, @Layout.fields_foldl _ Layout.declare fun _ _ => rfl,
        Layout.fields_foldl_addField]
    rw [hfields, storedFields, List.reverse_cons, List.flatMap_append, List.flatMap_singleton]
    exact List.rel_append h.fields (List.forall₂_map_left_iff.2 hslots)
  · intro m
    rw [prototype?, List.flatMap_cons, List.find?_append, Layout.declareAll]
    refine methods_foldl_declare (hds.imp fun x e hx => ⟨hx.1, fun _ _ _ => hx.2⟩) ?_
    rw [Layout.methods_foldl_addField]
    exact h.methods m

/-- A class has its ancestors in one way. -/
theorem Lineage.unique {name : String} {ds ds' : List Class} (h : c.Lineage name ds)
    (h' : c.Lineage name ds') : ds = ds' := by
  induction h generalizing ds' with
  | root hd hroot =>
    cases h' with
    | root hd' => rw [hd] at hd'; cases hd'; rfl
    | derived hd' hp hds =>
      rw [hd] at hd'
      cases hd'
      cases hds <;> simp_all
  | derived hd hp hds ih =>
    cases h' with
    | root hd' hroot =>
      rw [hd] at hd'
      cases hd'
      cases hds <;> simp_all
    | derived hd' hp' hds' =>
      rw [hd] at hd'
      cases hd'
      rw [hp] at hp'
      cases hp'
      rw [ih hds']

end Catalog

end ClassLang
