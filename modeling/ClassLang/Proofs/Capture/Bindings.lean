import ClassLang.Proofs.Capture.Meaning
import ClassLang.Proofs.Instances.Finite
import ClassLang.Proofs.Types.Substitution

/-!
# Bindings that nothing is written with

Types are resolved under bindings of type parameters. Where no part of a written type is bound, it is
resolved as if there were no bindings. So a class whose members are written without certain type
parameters is laid out under bindings of these as it is laid out without any.
-/

namespace ClassLang.Gen

variable {c : Catalog} {fuel : Nat} {bindings : List (String × Ty)} {params : List String}

theorem mapM_congr {α β : Type} {f f' : α → Gen β} {l : List α} (h : ∀ a ∈ l, f a = f' a) :
    l.mapM f = l.mapM f' := by
  induction l with
  | nil => rfl
  | cons a l ih =>
    rw [List.mapM_cons, List.mapM_cons, h a List.mem_cons_self,
      ih fun a ha => h a (List.mem_cons_of_mem _ ha)]

mutual

theorem resolveType_unbound (hb : ∀ b ∈ bindings, b.1 ∈ params) :
    (e : TypeExpr) → e.avoids params = true →
      resolveType (typingAt c fuel bindings) e = resolveType (typingAt c fuel []) e
  | .named n, he => by
    have hlookup : (typingAt c fuel bindings).bindings.lookup n.name = none :=
      lookup_eq_none_of_avoids hb he
    rw [resolveType, resolveType, namedType, namedType, hlookup]
    rfl
  | .array element _, he => by
    rw [TypeExpr.avoids] at he
    rw [resolveType, resolveType, resolveType_unbound hb element he]
  | .map key value _, he => by
    rw [TypeExpr.avoids, Bool.and_eq_true] at he
    rw [resolveType, resolveType, resolveType_unbound hb key he.1,
      resolveType_unbound hb value he.2]
  | .pointer inner _, he => by
    rw [TypeExpr.avoids] at he
    rw [resolveType, resolveType, resolveType_unbound hb inner he]
  | .generic n args _, he => by
    rw [TypeExpr.avoids] at he
    rw [resolveType, resolveType, resolveTypes_unbound hb args he]
    rfl

theorem resolveTypes_unbound (hb : ∀ b ∈ bindings, b.1 ∈ params) :
    (es : List TypeExpr) → TypeExpr.allAvoid params es = true →
      resolveTypes (typingAt c fuel bindings) es = resolveTypes (typingAt c fuel []) es
  | [], _ => rfl
  | e :: es, he => by
    rw [TypeExpr.allAvoid, Bool.and_eq_true] at he
    rw [resolveTypes, resolveTypes, resolveType_unbound hb e he.1, resolveTypes_unbound hb es he.2]

end

section

variable (hb : ∀ b ∈ bindings, b.1 ∈ params)
include hb

theorem resolveOptional_unbound (missing : Ty) (e? : Option TypeExpr)
    (he : ∀ e, e? = some e → e.avoids params = true) :
    resolveOptional (typingAt c fuel bindings) missing e? =
      resolveOptional (typingAt c fuel []) missing e? := by
  cases e? with
  | some e => exact resolveType_unbound hb e (he e rfl)
  | none => rfl

theorem writtenSignature_unbound (ps : List Param) (ret? : Option TypeExpr)
    (he : ∀ e ∈ ps.filterMap Param.type? ++ ret?.toList, e.avoids params = true) :
    writtenSignature (typingAt c fuel bindings) ps ret? =
      writtenSignature (typingAt c fuel []) ps ret? := by
  have hps : ∀ p ∈ ps, resolveOptional (typingAt c fuel bindings) .unknown p.type? =
      resolveOptional (typingAt c fuel []) .unknown p.type? := fun p hp =>
    resolveOptional_unbound hb _ _ fun e h =>
      he e (List.mem_append_left _ (List.mem_filterMap.2 ⟨p, hp, h⟩))
  have hret : resolveOptional (typingAt c fuel bindings) .void ret? =
      resolveOptional (typingAt c fuel []) .void ret? :=
    resolveOptional_unbound hb _ _ fun e h =>
      he e (List.mem_append_right _ (Option.mem_toList.2 h))
  rw [writtenSignature, writtenSignature, mapM_congr hps, hret]

end

/-- What analysis found for a field does not depend on bindings if no type parameters are in it. -/
theorem fieldType_missing {d : Class} {f : Field} (hf : f.type? = none)
    (hclosed : ∀ info, c.scopes.classInfo? d.name.name = some info →
      ∀ i ∈ info.fields, i.ty.freeParams = []) :
    fieldType (typingAt c fuel bindings) (c.scopes.classInfo? d.name.name) f =
      pure (c.foundType d f) := by
  have hfound : ((c.scopes.classInfo? d.name.name).bind (·.field? f.name.name)).map
      (fun i => i.ty.substitute bindings) =
      ((c.scopes.classInfo? d.name.name).bind (·.field? f.name.name)).map FieldInfo.ty := by
    refine Option.map_congr fun i hi => Ty.substitute_eq_self ?_
    obtain ⟨info, hinfo, hi⟩ := Option.bind_eq_some_iff.1 hi
    rw [hclosed info hinfo i (List.mem_of_find?_eq_some hi)]
    exact nofun
  unfold fieldType
  rw [hf]
  dsimp only [typingAt]
  rw [hfound]
  rfl

theorem layoutOver_congr {t t' : Typing} {d : Class} (hcatalog : t'.catalog = t.catalog)
    (hfields : ∀ f ∈ d.fields, fieldType t (t.catalog.scopes.classInfo? d.name.name) f =
      fieldType t' (t.catalog.scopes.classInfo? d.name.name) f)
    (hinner : ∀ m ∈ d.methods,
      writtenSignature t m.params m.ret? = writtenSignature t' m.params m.ret?)
    (houter : ∀ m ∈ t.catalog.methodsOf d.name.name,
      writtenSignature t m.params m.ret? = writtenSignature t' m.params m.ret?)
    (name : String) (parent? : Option String) (base? : Option Layout) :
    layoutOver t name d parent? base? = layoutOver t' name d parent? base? := by
  unfold layoutOver
  rw [hcatalog]
  dsimp only
  rw [mapM_congr fun f hf => congrArg (· >>= fun ty => pure (⟨f.name.name, ty, f.value?⟩ : FieldSlot))
      (hfields f hf),
    mapM_congr fun m hm => congrArg (· >>= fun sig => pure (m, sig)) (hinner m hm),
    mapM_congr fun m hm => congrArg (· >>= fun sig => pure (m, sig)) (houter m hm)]

/-- A class is laid out without regard to type parameters that its members are written without. -/
theorem layoutOf_unbound (hb : ∀ b ∈ bindings, b.1 ∈ params) {d : Class}
    (hclosed : ∀ info, c.scopes.classInfo? d.name.name = some info →
      ∀ i ∈ info.fields, i.ty.freeParams = [])
    (he : ∀ e ∈ c.memberTypes d, e.avoids params = true) (name : String)
    (parent? : Option String) :
    layoutOf (typingAt c fuel bindings) name d parent? =
      layoutOf (typingAt c fuel []) name d parent? := by
  have hfields : ∀ f ∈ d.fields,
      fieldType (typingAt c fuel bindings) (c.scopes.classInfo? d.name.name) f =
        fieldType (typingAt c fuel []) (c.scopes.classInfo? d.name.name) f := by
    intro f hf
    cases htype : f.type? with
    | some e =>
      unfold fieldType
      rw [htype]
      exact resolveType_unbound hb e (he e (Catalog.mem_memberTypes_field hf htype))
    | none => rw [fieldType_missing htype hclosed, fieldType_missing htype hclosed]
  have hinner : ∀ m ∈ d.methods, writtenSignature (typingAt c fuel bindings) m.params m.ret? =
      writtenSignature (typingAt c fuel []) m.params m.ret? := fun m hm =>
    writtenSignature_unbound hb _ _ fun e h => he e (Catalog.mem_memberTypes_inner hm h)
  have houter : ∀ m ∈ c.methodsOf d.name.name,
      writtenSignature (typingAt c fuel bindings) m.params m.ret? =
        writtenSignature (typingAt c fuel []) m.params m.ret? := fun m hm =>
    writtenSignature_unbound hb _ _ fun e h => he e (Catalog.mem_memberTypes_outer hm h)
  have hover : ∀ base?, layoutOver (typingAt c fuel bindings) name d parent? base? =
      layoutOver (typingAt c fuel []) name d parent? base? :=
    layoutOver_congr (by rfl) hfields hinner houter name parent?
  rw [layoutOf_eq_bind, layoutOf_eq_bind, funext hover]

end ClassLang.Gen
