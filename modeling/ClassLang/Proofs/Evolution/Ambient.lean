import ClassLang.Gen.Instance

/-!
# Relations that code generation goes by

What code generation does to the state is described by relations between the state before and the
state after. A relation that is `GenState.Ambient` allows for what happens all over the place: errors
are reported, outside functions declared, strings added, and statements and copies of final blocks
recorded. Types are resolved by such steps alone, but for the instances that are made on the way.
-/

namespace ClassLang

/-- A relation between states that allows for steps which leave functions and layouts alone. -/
class GenState.Ambient (R : GenState → GenState → Prop) : Prop where
  refl : ∀ g : GenState, R g g
  trans : ∀ {g g' g'' : GenState}, R g g' → R g' g'' → R g g''
  report : ∀ (g : GenState) (e : GenError), R g { g with errors := g.errors ++ [e] }
  declare : ∀ (g : GenState) (d : Ir.Declaration), R g { g with module := g.module.declare d }
  string : ∀ (g : GenState) (bytes : List UInt8),
    R g { g with module := (g.module.addString bytes).2 }
  copy : ∀ (g : GenState) (k : Copy), R g { g with copies := g.copies ++ [k] }
  visit : ∀ (g : GenState) (v : Visit), R g { g with visits := g.visits ++ [v] }

/-- Whether a type is written without type arguments. No instance is made for such a type. -/
def TypeExpr.isPlain : TypeExpr → Bool
  | .named _ => true
  | .array element _ => element.isPlain
  | .map key value _ => key.isPlain && value.isPlain
  | .pointer inner _ => inner.isPlain
  | .generic .. => false

namespace Gen

/-- What a step does to the state is in a relation. -/
def Follows {α : Type} (R : GenState → GenState → Prop) (x : Gen α) : Prop :=
  ∀ g : GenState, R g (x.run g).2

/-- Making instances goes by a relation. -/
def Typing.Follows (R : GenState → GenState → Prop) (t : Typing) : Prop :=
  ∀ name args, Gen.Follows R (t.instantiate name args)

namespace Follows

variable {α β : Type} {R : GenState → GenState → Prop} [GenState.Ambient R] {x : Gen α}
  {f : α → Gen β}

theorem pure (a : α) : Follows R (Pure.pure a) := fun g => GenState.Ambient.refl g

theorem bind (hx : Follows R x) (hf : ∀ a, Follows R (f a)) : Follows R (x >>= f) :=
  fun g => GenState.Ambient.trans (hx g) (hf _ _)

/-- A step that only looks. -/
theorem reading (h : ∀ g, (x.run g).2 = g) : Follows R x := fun g => by
  rw [h g]
  exact GenState.Ambient.refl g

theorem mapM (l : List α) (h : ∀ a ∈ l, Follows R (f a)) : Follows R (l.mapM f) := by
  induction l with
  | nil => exact pure []
  | cons a l ih =>
    rw [List.mapM_cons]
    have hl := ih fun b hb => h b (List.mem_cons_of_mem a hb)
    exact (h a List.mem_cons_self).bind fun b => hl.bind fun bs => pure (b :: bs)

theorem forM {f : α → Gen Unit} (l : List α) (h : ∀ a, Follows R (f a)) : Follows R (l.forM f) := by
  induction l with
  | nil => exact pure ()
  | cons a l ih => exact (h a).bind fun _ => ih

omit [GenState.Ambient R] in
theorem ite {c : Prop} [Decidable c] {y : Gen α} (hx : Follows R x) (hy : Follows R y) :
    Follows R (if c then x else y) := by
  split <;> assumption

theorem report (cause : GenError.Cause) (span : Span) : Follows R (Gen.report cause span) :=
  fun g => GenState.Ambient.report g _

theorem internal (problem : String) : Follows R (Gen.internal problem) :=
  fun g => GenState.Ambient.report g _

theorem exhausted : Follows R Gen.exhausted := reading fun _ => rfl

theorem exhaust : Follows R Gen.exhaust :=
  exhausted.bind fun _ => .ite (fun g => GenState.Ambient.report g _) (pure ())

theorem addString (bytes : List UInt8) : Follows R (Gen.addString bytes) :=
  fun g => GenState.Ambient.string g bytes

theorem declare (name : String) (ret : Ir.Ty) (params : List Ir.Ty) (variadic : Bool) :
    Follows R (Gen.declare name ret params variadic) :=
  fun g => GenState.Ambient.declare g _

theorem recordCopy (k : Copy) : Follows R (Gen.recordCopy k) := fun g => GenState.Ambient.copy g k

theorem recordVisit (v : Visit) : Follows R (Gen.recordVisit v) := fun g => GenState.Ambient.visit g v

theorem function? (symbol : String) : Follows R (Gen.function? symbol) := reading fun _ => rfl

theorem layout? (cls : String) : Follows R (Gen.layout? cls) := reading fun _ => rfl

theorem hasLayout (cls : String) : Follows R (Gen.hasLayout cls) := reading fun _ => rfl

/-! ## Types -/

variable {t : Typing}

theorem namedType (t : Typing) (name : String) : Follows R (Gen.namedType t name) := by
  unfold Gen.namedType
  split
  · exact pure _
  · exact (hasLayout name).bind fun _ => .ite (pure _) (.ite (pure _) (.ite (pure _) (pure _)))

theorem instanceType (t : Typing) (name : Ident) (symbol? : Option String) :
    Follows R (Gen.instanceType t name symbol?) := by
  unfold Gen.instanceType
  split
  · exact pure _
  · exact (hasLayout _).bind fun _ => .ite (pure _) ((report _ _).bind fun _ => pure _)

mutual

theorem resolveType :
    (e : TypeExpr) → (ht : t.Follows R ∨ e.isPlain = true) → Follows R (Gen.resolveType t e)
  | .named n, _ => namedType t n.name
  | .array element _, ht => (resolveType element ht).bind fun _ => pure _
  | .map key value _, ht => by
    rw [TypeExpr.isPlain, Bool.and_eq_true] at ht
    refine (resolveType key (ht.imp_right And.left)).bind fun _ => ?_
    exact (resolveType value (ht.imp_right And.right)).bind fun _ => pure _
  | .pointer inner _, ht => resolveType inner ht
  | .generic n args _, .inl ht =>
    (resolveTypes args ht).bind fun types => (ht n types).bind fun _ => instanceType t n _

theorem resolveTypes :
    (es : List TypeExpr) → (ht : t.Follows R) → Follows R (Gen.resolveTypes t es)
  | [], _ => pure _
  | e :: es, ht => (resolveType e (.inl ht)).bind fun _ => (resolveTypes es ht).bind fun _ => pure _

end

theorem resolveOptional (missing : Ty) (e? : Option TypeExpr)
    (ht : t.Follows R ∨ ∀ e, e? = some e → e.isPlain = true) :
    Follows R (Gen.resolveOptional t missing e?) := by
  cases e? with
  | some e => exact resolveType e (ht.imp_right fun h => h e rfl)
  | none => exact pure _

theorem writtenSignature (params : List Param) (ret? : Option TypeExpr)
    (ht : t.Follows R ∨ ∀ e ∈ params.filterMap Param.type? ++ ret?.toList, e.isPlain = true) :
    Follows R (Gen.writtenSignature t params ret?) := by
  have hparams : ∀ p ∈ params, Follows R (Gen.resolveOptional t .unknown p.type?) := by
    refine fun p hp => resolveOptional _ _ (ht.imp_right fun h e he => h e ?_)
    exact List.mem_append_left _ (List.mem_filterMap.2 ⟨p, hp, he⟩)
  refine (mapM params hparams).bind fun _ => ?_
  refine (resolveOptional _ _ (ht.imp_right fun h e he => h e ?_)).bind fun _ => pure _
  exact List.mem_append_right _ (Option.mem_toList.2 he)

theorem fieldType (info? : Option ClassInfo) (f : Field)
    (ht : t.Follows R ∨ ∀ e, f.type? = some e → e.isPlain = true) :
    Follows R (Gen.fieldType t info? f) := by
  unfold Gen.fieldType
  split
  next e he => exact resolveType e (ht.imp_right fun h => h e he)
  next => exact pure _

end Follows

end Gen

/-- The types that the members of a class are written with, also of those declared outside of it. -/
def Catalog.memberTypes (c : Catalog) (d : Class) : List TypeExpr :=
  d.fields.filterMap Field.type? ++
    d.methods.flatMap (fun m => m.params.filterMap Param.type? ++ m.ret?.toList) ++
    (c.methodsOf d.name.name).flatMap fun m => m.params.filterMap Param.type? ++ m.ret?.toList

section

variable {c : Catalog} {d : Class} {e : TypeExpr}

theorem Catalog.mem_memberTypes_field {f : Field} (hf : f ∈ d.fields) (he : f.type? = some e) :
    e ∈ c.memberTypes d :=
  List.mem_append_left _ (List.mem_append_left _ (List.mem_filterMap.2 ⟨f, hf, he⟩))

theorem Catalog.mem_memberTypes_inner {m : Function} (hm : m ∈ d.methods)
    (he : e ∈ m.params.filterMap Param.type? ++ m.ret?.toList) : e ∈ c.memberTypes d :=
  List.mem_append_left _ (List.mem_append_right _ (List.mem_flatMap.2 ⟨m, hm, he⟩))

theorem Catalog.mem_memberTypes_outer {m : Method} (hm : m ∈ c.methodsOf d.name.name)
    (he : e ∈ m.params.filterMap Param.type? ++ m.ret?.toList) : e ∈ c.memberTypes d :=
  List.mem_append_right _ (List.mem_flatMap.2 ⟨m, hm, he⟩)

end

/-- The layout of a class declaration on top of a given one. -/
def Gen.layoutOver (t : Typing) (name : String) (c : Class) (parent? : Option String)
    (base? : Option Layout) : Gen Layout := do
  let info? := t.catalog.scopes.classInfo? c.name.name
  let fields ← c.fields.mapM fun f => do
    return (⟨f.name.name, ← fieldType t info? f, f.value?⟩ : FieldSlot)
  let inner ← c.methods.mapM fun m => do
    return (m, ← writtenSignature t m.params m.ret?)
  let outer ← (t.catalog.methodsOf c.name.name).mapM fun m => do
    return (m, ← writtenSignature t m.params m.ret?)
  let l := fields.foldl Layout.addField (Layout.derive name parent? base?)
  let l := inner.foldl (fun l (m, sig) =>
    l.addMethod m.name.name sig (m.modifiers.isVirtual || m.modifiers.isOverride)
      m.modifiers.isStatic) l
  return outer.foldl (fun l (m, sig) => l.addMethod m.name.name sig false false) l

theorem Gen.layoutOf_eq_bind (t : Typing) (name : String) (c : Class) (parent? : Option String) :
    layoutOf t name c parent? = parent?.elim (pure none) layout? >>= layoutOver t name c parent? := by
  cases parent? <;> rfl

theorem Gen.Follows.layoutOf {R : GenState → GenState → Prop} [GenState.Ambient R] {t : Typing}
    (name : String) (d : Class) (parent? : Option String)
    (ht : t.Follows R ∨ ∀ e ∈ t.catalog.memberTypes d, e.isPlain = true) :
    Follows R (Gen.layoutOf t name d parent?) := by
  have hfields : ∀ info?, ∀ f ∈ d.fields, Follows R (Gen.fieldType t info? f) := by
    refine fun info? f hf => fieldType info? f (ht.imp_right fun h e he => h e ?_)
    exact Catalog.mem_memberTypes_field hf he
  have hinner : ∀ m ∈ d.methods, Follows R (Gen.writtenSignature t m.params m.ret?) := by
    refine fun m hm => writtenSignature _ _ (ht.imp_right fun h e he => h e ?_)
    exact Catalog.mem_memberTypes_inner hm he
  have houter : ∀ m ∈ t.catalog.methodsOf d.name.name,
      Follows R (Gen.writtenSignature t m.params m.ret?) := by
    refine fun m hm => writtenSignature _ _ (ht.imp_right fun h e he => h e ?_)
    exact Catalog.mem_memberTypes_outer hm he
  have hover : ∀ base?, Follows R (Gen.layoutOver t name d parent? base?) := by
    intro base?
    refine (mapM _ fun f hf => (hfields _ f hf).bind fun _ => pure _).bind fun _ => ?_
    refine (mapM _ fun m hm => (hinner m hm).bind fun _ => pure _).bind fun _ => ?_
    exact (mapM _ fun m hm => (houter m hm).bind fun _ => pure _).bind fun _ => pure _
  rw [layoutOf_eq_bind]
  cases parent? with
  | some p => exact (layout? _).bind hover
  | none => exact (pure none).bind hover

end ClassLang
