import ClassLang.Proofs.Comparison.Steps

/-!
# The parts of checking that look at no subexpression

Each of these does the same on both sides for related types: it looks up the same names, makes the same
changes to the scopes, and reports the same. Where types have faded on the right, it reports no more
than on the left.
-/

namespace ClassLang

namespace Check

/-- What is done with the scope tree may use that it is the one of the state. -/
theorem scopes_bind_congr {α : Type} {f g : ScopeTree → Check α}
    (h : ∀ a : Analysis, (f a.scopes).run a = (g a.scopes).run a) : scopes >>= f = scopes >>= g :=
  funext h

theorem declare_eq (d : Symbol) : declare d = (do
    noteShadowing d
    match (← scopes).resolveLocal d.name with
    | none => replace d
    | some first =>
      if first.span.line = 0 then replace d
      else report (.redeclared d.name first.span) d.span) := by
  have hmodify (f : Analysis → Analysis) a : (modify f : Check Unit).run a = ((), f a) := rfl
  have hreplace a : (replace d).run a = ((), { a with scopes := a.scopes.replace d }) := rfl
  refine congrArg (noteShadowing d >>= ·) (funext fun _ => scopes_bind_congr fun a => ?_)
  rw [ScopeTree.define]
  cases a.scopes.resolveLocal d.name with
  | none => exact (hmodify _ a).trans (hreplace a).symm
  | some first => rfl

/-- The type of an element, by the types of the object and of the index. -/
def elementType (o k : Ty) (objectSpan keySpan : Span) : Check Ty := do
  let indexed (expected result : Ty) : Check Ty := do
    if !(← assignable expected k) then report (.invalidIndex expected k) keySpan
    return result
  match o with
  | .array element => indexed .int element
  | .map keyType value => indexed keyType value
  | _ =>
    if o.isString then indexed .int .byte
    else
      if !o.isWildcard then report (.notIndexable o) objectSpan
      return .unknown

theorem elementType_of_isWildcard {o : Ty} (h : o.isWildcard = true) (k : Ty) (s s' : Span) :
    elementType o k s s' = pure .unknown := by
  have hstring : o.isString = false := Ty.isKind_of_isWildcard h nofun
  cases o with
  | basic | template =>
    simp only [elementType, hstring, h, Bool.not_true, Bool.false_eq_true, if_false]
  | _ => cases h

end Check

namespace Comparison.Similar

variable {C : Comparison} {t t' : ScopeTree} (h : C.Similar t t')

include h

theorem classChain (n : String) : t'.classChain n = t.classChain n :=
  ScopeTree.classChain_congr h.classes n

theorem findMethod (cls n : String) : t'.findMethod cls n = t.findMethod cls n := by
  rw [ScopeTree.findMethod, ScopeTree.findMethod, h.classChain]

theorem assignable (target value : Ty) : t'.assignable target value = t.assignable target value := by
  unfold ScopeTree.assignable ScopeTree.isSubclass ScopeTree.implements
  simp only [h.classChain]

theorem resultOf (op : InfixOp) (l r : Ty) : Check.resultOf t' op l r = Check.resultOf t op l r := by
  simp only [Check.resultOf, h.assignable]

theorem memberOf? (object : Ty) (n : String) :
    Check.memberOf? t' object n = Check.memberOf? t object n := by
  unfold Check.memberOf? ScopeTree.findField
  simp only [h.classChain, h.findMethod, h.interfaces]

end Comparison.Similar

namespace Comparison.Rel

open Check (Steps)

variable {C : Comparison} {α : Type} {L : List Mention} {Q : α → α → Prop}

/-! ## Scopes and declarations -/

theorem usePackage (n : String) : C.Rel L Eq (Check.usePackage n) (Check.usePackage n) := by
  refine intro (fun _ => .of_eq (List.prefix_refl _) rfl) fun a b hab _ => ⟨rfl, hab.trees, ?_, ?_⟩
  · exact congrArg (List.map _) hab.imports
  · exact hab.records

theorem pushScope (k : ScopeKind) : C.Rel L Eq (Check.pushScope k) (Check.pushScope k) :=
  intro (fun _ => .of_eq (List.prefix_refl _) rfl) fun _ _ hab _ =>
    ⟨rfl, hab.trees.push k, hab.imports, hab.records⟩

theorem popScope : C.Rel L Eq Check.popScope Check.popScope :=
  intro (fun _ => .of_eq (List.prefix_refl _) rfl) fun _ _ hab _ =>
    ⟨rfl, hab.trees.pop, hab.imports, hab.records⟩

theorem modifyGlobal {n : String} (hn : C.names n) {f : Symbol → Symbol}
    (hf : ∀ d d', C.Symbols d d' → C.Symbols (f d) (f d'))
    (hfields : ∀ d, d.FieldsIn C.names → (f d).FieldsIn C.names) :
    C.Rel L Eq (Check.modifyGlobal n f) (Check.modifyGlobal n f) :=
  intro (fun _ => .of_eq (List.prefix_refl _) rfl) fun _ _ hab _ =>
    ⟨rfl, hab.trees.modifyGlobal hn hf hfields, hab.imports, hab.records⟩

variable {d d' : Symbol} (hd : C.Symbols d d') (hn : C.names d.name)

include hd hn

theorem replace (hfields : d.FieldsIn C.names) :
    C.Rel L Eq (Check.replace d) (Check.replace d') :=
  intro (.replace d) fun _ _ hab _ =>
    ⟨rfl, hab.trees.replace hd hn hfields, hab.imports, hab.records⟩

theorem noteShadowing : C.Rel L Eq (Check.noteShadowing d) (Check.noteShadowing d') := by
  refine scopes.seq fun t t' ht => ?_
  have hstored : ((t'.resolve d.name).map Symbol.isStored).getD false =
      ((t.resolve d.name).map Symbol.isStored).getD false := by
    obtain ⟨h, h'⟩ | ⟨_, _, h, h', hs⟩ := rel_cases (ht.resolve _ hn)
    · rw [h, h']
    · rw [h, h']
      exact hs.isStored
  rw [hd.name, hd.span, isNone_eq_of_rel (ht.resolveLocal _ hn), hstored]
  exact ite (fun _ => report (by nofun) _) fun _ => pure rfl

theorem declare (hfields : d.FieldsIn C.names) :
    C.Rel L Eq (Check.declare d) (Check.declare d') := by
  rw [Check.declare_eq, Check.declare_eq, hd.name, hd.span]
  refine (noteShadowing hd hn).seq fun _ _ _ => scopes.seq fun t t' ht => ?_
  obtain ⟨h, h'⟩ | ⟨first, first', h, h', hfirst⟩ := rel_cases (ht.resolveLocal _ hn)
  · rw [h, h']
    exact replace hd hn hfields
  · rw [h, h']
    dsimp only
    rw [hfirst.span]
    exact ite (fun _ => replace hd hn hfields) fun _ => report (by nofun) _

theorem redefine (hfields : d.FieldsIn C.names) :
    C.Rel L Eq (Check.redefine d) (Check.redefine d') :=
  (noteShadowing hd hn).seq fun _ _ _ => replace hd hn hfields

omit hd hn

/-! ## Written types -/

theorem undefinedType (n : Ident) :
    C.Rel L Eq (Check.undefinedType n) (Check.undefinedType n) :=
  refuse (by nofun) _ rfl

mutual

theorem resolveType {L : List Mention} (bound : List String) :
    (e : TypeExpr) → (∀ n ∈ e.names, C.names n) →
    C.Rel L Eq (Check.resolveType bound e) (Check.resolveType bound e)
  | .named n, h => by
    rw [Check.resolveType]
    split
    · exact pure rfl
    refine ite (fun _ => pure rfl) fun _ => (resolve (h n.name List.mem_cons_self)).seq ?_
    rintro _ _ (hs | _)
    · rename_i s s'
      have hty : s.isStored = false → s'.ty = s.ty := hs.ty_eq
      dsimp only
      rw [hs.kind, hs.isClassTemplate]
      split
      next hkind => rw [hty (by rw [Symbol.isStored, hkind]; rfl)]; exact pure rfl
      next hkind => rw [hty (by rw [Symbol.isStored, hkind]; rfl)]; exact pure rfl
      next hkind => rw [hty (by rw [Symbol.isStored, hkind]; rfl)]; exact pure rfl
      · exact ite (fun _ => pure rfl) fun _ => undefinedType n
      · exact undefinedType n
    · exact undefinedType n
  | .array element _, h => by
    refine (resolveType bound element h).seq ?_
    rintro t _ rfl
    exact pure rfl
  | .map key value _, h => by
    obtain ⟨hkey, hvalue⟩ := List.forall_mem_append.1 h
    refine (resolveType bound key hkey).seq ?_
    rintro k _ rfl
    refine (resolveType bound value hvalue).seq ?_
    rintro v _ rfl
    exact pure rfl
  | .pointer inner _, h => resolveType bound inner h
  | .generic n args _, h => by
    obtain ⟨hn, hargs⟩ := List.forall_mem_cons.1 h
    refine (resolveTypes bound args hargs).seq fun _ _ _ => (resolve hn).seq ?_
    rintro _ _ (hs | _)
    · dsimp only
      rw [hs.kind]
      exact ite (fun _ => pure rfl) fun _ => refuse (by nofun) _ rfl
    · exact undefinedType n

theorem resolveTypes {L : List Mention} (bound : List String) :
    (es : List TypeExpr) → (∀ n ∈ TypeExpr.namesOfAll es, C.names n) →
      C.Rel L Eq (Check.resolveTypes bound es) (Check.resolveTypes bound es)
  | [], _ => pure rfl
  | e :: es, h => by
    obtain ⟨he, hes⟩ := List.forall_mem_append.1 h
    refine (resolveType bound e he).seq ?_
    rintro t _ rfl
    refine (resolveTypes bound es hes).seq ?_
    rintro ts _ rfl
    exact pure rfl

end

theorem resolveOptional (bound : List String) (missing : Ty) {e? : Option TypeExpr}
    (h : ∀ n ∈ TypeExpr.namesIf e?, C.names n) : C.Rel L Eq
      (Check.resolveOptional bound missing e?) (Check.resolveOptional bound missing e?) := by
  cases e? with
  | none => exact pure rfl
  | some e => exact resolveType bound e (by simpa [TypeExpr.namesIf] using h)

theorem declaredType {e? : Option TypeExpr} (h : ∀ n ∈ TypeExpr.namesIf e?, C.names n) :
    C.Rel L Eq (e?.mapM (Check.resolveType [])) (e?.mapM (Check.resolveType [])) := by
  cases e? with
  | none => exact pure rfl
  | some e => exact (resolveType [] e (by simpa [TypeExpr.namesIf] using h)).map (congrArg some)

theorem resolveSignature (bound : List String) {params : List Param} {ret? : Option TypeExpr}
    (h : ∀ n ∈ functionNames params ret?, C.names n) : C.Rel L Eq
      (Check.resolveSignature bound params ret?) (Check.resolveSignature bound params ret?) := by
  obtain ⟨hparams, hret⟩ := List.forall_mem_append.1 h
  refine (mapM_mem params fun p hp => resolveOptional bound _ fun n hn => ?_).seq ?_
  · exact hparams n (List.mem_flatMap.2 ⟨p, hp, List.mem_cons_of_mem _ hn⟩)
  rintro types _ rfl
  refine (resolveOptional bound _ hret).seq ?_
  rintro ret _ rfl
  exact pure rfl

/-! ## Classes -/

theorem bindFields (cls : String) (span : Span) :
    C.Rel L Eq (Check.bindFields cls span) (Check.bindFields cls span) := by
  let bind (f : FieldInfo) : Check Unit := Check.replace
    { name := f.name, kind := if f.isConst then .constant else .variable_, ty := f.ty, span }
  intro hnames
  refine ⟨Steps.scopes.seq fun t => Steps.forM _ fun f => .replace _, fun a b hab hfine => ?_⟩
  -- The names of the fields are known of the scope tree at hand only.
  have hbind : C.Rel L Eq (((a.scopes.classChain cls).reverse.flatMap ClassInfo.fields).forM bind)
      (((a.scopes.classChain cls).reverse.flatMap ClassInfo.fields).forM bind) := by
    refine forM_mem _ fun f hf => ?_
    obtain ⟨info, hinfo, hfield⟩ := List.mem_flatMap.1 hf
    refine replace (.inl rfl) ?_ nofun
    exact hab.trees.fields (List.mem_reverse.1 hinfo) f hfield
  have hright : (Check.bindFields cls span).run b =
      (((b.scopes.classChain cls).reverse.flatMap ClassInfo.fields).forM bind).run b := rfl
  rw [hright, hab.trees.similar.classChain]
  exact (hbind hnames).2 a b hab hfine

theorem checkInterfaces (name : Ident) (implements : List Ident)
    (h : ∀ i ∈ implements, C.names i.name) :
    let check (i : Ident) : Check Unit := do
      let t ← Check.scopes
      match t.interfaceInfo? i.name with
      | some info =>
        info.methods.forM fun m => do
          if (t.findMethod name.name m.1).isNone then
            Check.report (.missingInterfaceMethod name.name i.name m.1) name.span
      | none =>
        if (t.resolve i.name).isSome then Check.report (.notAnInterface i.name) i.span
        else let _ ← Check.undefinedType i
    C.Rel L Eq (implements.forM check) (implements.forM check) := by
  refine forM_mem implements fun i hi => scopes.seq fun t t' ht => ?_
  rw [ht.interfaces]
  split
  · simp only [ht.findMethod]
    exact forM_mem _ fun m _ => ite (fun _ => report (by nofun) _) fun _ => pure rfl
  · rw [isSome_eq_of_rel (ht.resolve _ (h i hi))]
    exact ite (fun _ => report (by nofun) _) fun _ => (undefinedType i).seq fun _ _ _ => pure rfl

theorem checkHeader {name : Ident} {extends? : Option Ident} {implements : List Ident}
    (h : ∀ n ∈ headerNames name extends? implements, C.names n) : C.Rel L Eq
      (Check.checkHeader name extends? implements) (Check.checkHeader name extends? implements) := by
  have hinterfaces : C.Rel L Eq _ _ := checkInterfaces name implements fun i hi =>
    h i.name (by simp only [headerNames, List.mem_cons, List.mem_map, List.mem_append]; grind)
  cases extends? with
  | none => exact hinterfaces
  | some parent =>
    refine (resolve (h parent.name (by simp [headerNames]))).seq ?_
    rintro _ _ (hs | _)
    · dsimp only
      rw [hs.kind]
      exact ite (fun _ => (report (by nofun) _).seq fun _ _ _ => hinterfaces) fun _ => hinterfaces
    · exact ((undefinedType parent).seq fun _ _ _ => pure (Q := Eq) rfl).seq fun _ _ _ => hinterfaces

theorem openClass {name : Ident} {extends? : Option Ident} {implements : List Ident}
    (h : ∀ n ∈ headerNames name extends? implements, C.names n) : C.Rel L Eq
      (Check.openClass name extends? implements) (Check.openClass name extends? implements) := by
  refine (checkHeader h).seq fun _ _ _ => scopes.seq fun t t' ht => ?_
  refine (pushScope _).seq fun _ _ _ => (bindFields _ _).seq fun _ _ _ => ?_
  exact pure (ht.classes _).symm

theorem thisType (ctx : Context) (span : Span) :
    C.Rel L Eq (Check.thisType ctx span) (Check.thisType ctx span) := by
  unfold Check.thisType
  split
  · exact pure rfl
  · exact refuse (by simp) _ rfl

theorem superType (ctx : Context) (span : Span) :
    C.Rel L Eq (Check.superType ctx span) (Check.superType ctx span) := by
  refine scopes.seq fun t t' ht => ?_
  rw [funext ht.classes]
  split
  · exact pure rfl
  · exact refuse (by simp) _ rfl

/-! ## Other declarations -/

theorem declareParams {params : List Param} {ret? : Option TypeExpr}
    (h : ∀ n ∈ functionNames params ret?, C.names n) (sig : Signature) :
    C.Rel L Eq (Check.declareParams params sig) (Check.declareParams params sig) := by
  refine forM_mem _ fun p hp => declare (.inl rfl) (h p.1.name.name ?_) nofun
  refine List.mem_append_left _ (List.mem_flatMap.2 ⟨p.1, (List.of_mem_zip hp).1, ?_⟩)
  exact List.mem_cons_self

theorem openTemplate {params : List Ident} (h : ∀ n ∈ params.map Ident.name, C.names n) :
    C.Rel L Eq (Check.openTemplate params) (Check.openTemplate params) :=
  (pushScope _).seq fun _ _ _ => forM_mem _ fun p hp =>
    declare (.inl rfl) (h p.name (List.mem_map_of_mem hp)) nofun

theorem checkImports {paths : List String} (h : ∀ path ∈ paths, C.names (Check.lastSegment path))
    (span : Span) : C.Rel L Eq (Check.checkImports paths span) (Check.checkImports paths span) := by
  refine forM_mem paths fun path hpath => scopes.seq fun t t' ht => ?_
  have himport : C.Rel [] Eq
      (modify fun a : Analysis => { a with
        imports := a.imports ++ [{ name := Check.lastSegment path, path, span }] })
      (modify fun a : Analysis => { a with
        imports := a.imports ++ [{ name := Check.lastSegment path, path, span }] }) :=
    intro (fun _ => .of_eq (List.prefix_refl _) rfl) fun _ _ hab _ =>
      ⟨rfl, hab.trees, congrArg (· ++ _) hab.imports, hab.records⟩
  rw [isNone_eq_of_rel (ht.globals _ (h path hpath))]
  refine ite (fun _ => ?_) fun _ => himport
  exact (replace (.inl rfl) (h path hpath) (by nofun)).seq fun _ _ _ => himport

theorem instantiate {name : Ident} {typeArgs : List TypeExpr}
    (h : ∀ n ∈ name.name :: TypeExpr.namesOfAll typeArgs, C.names n) (span : Span) : C.Rel L Eq
      (Check.instantiate name typeArgs span) (Check.instantiate name typeArgs span) := by
  obtain ⟨hn, hargs⟩ := List.forall_mem_cons.1 h
  refine (resolveTypes [] typeArgs hargs).seq ?_
  rintro args _ rfl
  refine (resolve hn).seq ?_
  rintro _ _ (hs | _)
  · dsimp only
    rw [hs.template?]
    split
    · exact refuse (by nofun) _ rfl
    · refine ite (fun _ => refuse (by nofun) _ rfl) fun _ => ?_
      split <;> exact pure rfl
  · exact refuse (by rintro _ ⟨⟩; exact hn) _ rfl

/-- The class that `new` names, with what follows. -/
theorem newClass {type : TypeExpr} (h : ∀ n ∈ type.names, C.names n) {f g : Option Ident → Check α}
    (hnone : C.Rel L Q (f none) (g none))
    (hsome : ∀ n : Ident, C.names n.name → C.Rel L Q (f (some n)) (g (some n))) :
    C.Rel L Q (Check.newClass type >>= f) (Check.newClass type >>= g) := by
  unfold Check.newClass
  split
  next n args _ =>
    obtain ⟨hn, hargs⟩ := List.forall_mem_cons.1 h
    exact (resolveTypes [] args hargs).seq fun _ _ _ => hsome n hn
  · split
    next n hbase =>
      refine hsome n (h n.name ?_)
      rw [← type.names_base, hbase]
      exact List.mem_cons_self
    · exact (report (by nofun) _).seq fun _ _ _ => hnone

theorem packageMember (package : String) (member : Ident) :
    C.Rel L Eq (Check.packageMember package member) (Check.packageMember package member) := by
  unfold Check.packageMember
  exact ite (fun _ => refuse (by nofun) _ rfl) fun _ => pure rfl

/-! ## Checks of types -/

section

variable {t t' u u' : Ty} (ht : C.Types t t') (hu : C.Types u u')

include ht in
/-- A check of the kind of a type, which every wildcard passes. -/
theorem guardKind (fits : Ty → Bool) (cause : Ty → Finding.Cause) {span : Span} {x y : Check α}
    (hfits : ∀ t u : Ty, t.Blurs u → u.isWildcard = false → fits u = fits t)
    (hcause : ∀ n, cause t ≠ .undefinedIdentifier n) (hlevel : (cause t).level = .error)
    (hxy : C.Rel L Q x y) :
    C.Rel L Q (if (!fits t && !t.isWildcard) = true then Check.report (cause t) span >>= fun _ => x
        else x)
      (if (!fits t' && !t'.isWildcard) = true then Check.report (cause t') span >>= fun _ => y
        else y) := by
  refine guard hcause hlevel ?_ hxy
  obtain rfl | ⟨hfades, hblurs⟩ := ht
  · exact .inl ⟨rfl, rfl⟩
  · refine .inr ⟨hfades, fun hc => ?_⟩
    cases hw : t'.isWildcard with
    | true => rw [Bool.not_true, Bool.and_false]
    | false =>
      rw [hblurs.isWildcard_eq_false hw] at hc
      rwa [hfits t t' hblurs hw]

include ht hu in
/-- A check of what can be stored, with what follows it. -/
theorem assignable {f g : Bool → Check α} (hsame : t' = t → u' = u → ∀ b, C.Rel L Q (f b) (g b))
    (hfades : C.fades = true → ∀ b b', (b = true → b' = true) → C.Rel L Q (f b) (g b')) :
    C.Rel L Q (Check.assignable t u >>= f) (Check.assignable t' u' >>= g) := by
  have hsteps : ∀ t u, Steps [] (Check.assignable t u) := fun t u => .reading fun _ => rfl
  obtain ⟨rfl, rfl⟩ | hf := ht.eq_or_fades hu
  · have hanswer : C.Rel [] Eq (Check.assignable t' u') (Check.assignable t' u') :=
      intro (hsteps _ _) fun a b hab _ => ⟨(hab.trees.similar.assignable t' u').symm, hab⟩
    refine hanswer.seq ?_
    rintro b _ rfl
    exact hsame rfl rfl b
  · have hanswer : C.Rel [] (fun b b' => b = true → b' = true)
        (Check.assignable t u) (Check.assignable t' u') := by
      refine intro (hsteps _ _) fun a b hab _ => ⟨fun hfits => ?_, hab⟩
      exact (hab.trees.similar.assignable t' u').trans (ht.blurs.assignable hu.blurs hfits)
    have : Std.Refl fun b b' : Bool => b = true → b' = true := ⟨fun _ => id⟩
    exact hanswer.seq (hfades hf)

theorem assignable_left {f : Bool → Check α} {y : Check α} (h : ∀ b, C.Rel L Q (f b) y) :
    C.Rel L Q (Check.assignable t u >>= f) y :=
  scopes_left (f := fun s => f (s.assignable t u)) fun _ => h _

include ht hu in
theorem checkAssignable (span : Span) :
    C.Rel L Eq (Check.checkAssignable t u span) (Check.checkAssignable t' u' span) := by
  refine assignable ht hu ?_ fun hfades b b' hle => ?_
  · rintro rfl rfl b
    exact ite (fun _ => report (by nofun) _) fun _ => pure rfl
  · exact guard (by nofun) rfl (.inr ⟨hfades, by simpa using hle⟩) (pure rfl)

include ht in
theorem usedAsValue (e : Expr) :
    C.Rel L C.Types (Check.usedAsValue e t) (Check.usedAsValue e t') := by
  unfold Check.usedAsValue
  obtain rfl | ⟨hfades, hblurs⟩ := ht
  · exact ite (fun _ => refuse (by nofun) _ (.inl rfl)) fun _ => pure (.inl rfl)
  · cases hvoid : t.isVoid with
    | true => exact of_error hfades rfl (.pure _)
    | false =>
      have hvoid' : t'.isVoid = false := hblurs.isKind_eq_false nofun hvoid
      rw [hvoid']
      exact pure (.inr ⟨hfades, hblurs⟩)

include ht in
theorem checkBool (span : Span) : C.Rel L Eq (Check.checkBool t span) (Check.checkBool t' span) :=
  guardKind ht Ty.isBool .nonBoolCondition (fun _ _ h hw => h.isKind_eq hw _)
    (by nofun) rfl (pure rfl)

include ht hu in
theorem binaryResult (op : InfixOp) (span : Span) :
    C.Rel L C.Types (Check.binaryResult op t u span) (Check.binaryResult op t' u' span) := by
  obtain ⟨rfl, rfl⟩ | hfades := ht.eq_or_fades hu
  · refine judge rfl (scopes.seq fun s s' hs => ?_)
    rw [hs.resultOf]
    split
    · exact pure (.inl rfl)
    · exact refuse (by simp) _ (.inl rfl)
  · refine judge_left hfades rfl (Steps.scopes.seq fun s => ?_) fun hdelicate => ?_
    · split
      · exact .pure _
      · exact (Steps.report _ _).seq fun _ => .pure _
    refine judge_right hfades _ (scopes.seq fun s s' hs => ?_)
    rw [hs.resultOf]
    cases hresult : Check.resultOf s op t u with
    | none => exact of_error hfades rfl (.pure _)
    | some v =>
      obtain ⟨v', hv', hblurs⟩ := ht.blurs.resultOf hu.blurs hdelicate hresult
      rw [hv']
      exact pure (.inr ⟨hfades, hblurs⟩)

include ht hu in
/-- The next element, where the type of those before it is known. -/
theorem commonType_some (span : Span) : C.Rel L C.Types (Check.commonType (some t) u span)
    (Check.commonType (some t') u' span) := by
  obtain ⟨rfl, rfl⟩ | hfades := ht.eq_or_fades hu
  · refine ite (fun _ => pure (.inl rfl)) fun _ => judge rfl ?_
    exact ite (fun _ => refuse (by nofun) _ (.inl rfl)) fun _ => pure (.inl rfl)
  unfold Check.commonType
  dsimp only
  cases htw : t.isWildcard with
  | true =>
    rw [ht.blurs.isWildcard htw]
    exact pure hu
  | false =>
    have hsteps : Steps L (do
        if !u.isWildcard && !t.same u then Check.report (.mixedElements t u) span
        return t) :=
      .ite ((Steps.report _ _).seq fun _ => .pure _) (.pure _)
    refine judge_left hfades rfl hsteps fun hcompound => ?_
    cases hmixed : !u.isWildcard && !t.same u with
    | true => exact of_error hfades rfl (.pure _)
    | false =>
      have hfits : t.Blurs u' ∧ (t'.isWildcard = false → (!u'.isWildcard && !t'.same u') = false) := by
        cases huw : u.isWildcard with
        | true =>
          have huw' := hu.blurs.isWildcard huw
          exact ⟨.wildcard huw', fun _ => by rw [huw']; rfl⟩
        | false =>
          have hsame : t.same u = true := by simpa [huw] using hmixed
          obtain ⟨hblurs, hsame'⟩ := ht.blurs.same hu.blurs hsame huw hcompound
          refine ⟨hblurs, fun htw' => ?_⟩
          cases huw' : u'.isWildcard with
          | true => rfl
          | false => rw [hsame' htw' huw']; rfl
      cases htw' : t'.isWildcard with
      | true => exact pure (.inr ⟨hfades, hfits.1⟩)
      | false =>
        refine judge_right hfades _ ?_
        rw [hfits.2 htw']
        exact pure ht

include hu in
theorem commonType {common? common?' : Option Ty} (hcommon : Option.Rel C.Types common? common?')
    (span : Span) : C.Rel L C.Types (Check.commonType common? u span)
      (Check.commonType common?' u' span) := by
  cases hcommon with
  | none => exact pure hu
  | some ht => exact commonType_some ht hu span

theorem checkReturned (ctx : Context) (t : Ty) (span : Span) :
    C.Rel L Eq (Check.checkReturned ctx t span) (Check.checkReturned (C.context ctx) t span) := by
  have hreturns : (C.context ctx).returns? = ctx.returns? := rfl
  unfold Check.checkReturned
  rw [hreturns]
  split
  · exact report (by nofun) _
  · refine scopes.seq fun s s' hs => ?_
    simp only [hs.assignable]
    exact ite (fun _ => report (by nofun) _) fun _ => pure rfl

include ht in
/-- A value is returned. -/
theorem returned (ctx : Context) (span : Span) : C.Rel L Eq
    (do Check.judge (.returned t); Check.checkReturned ctx t span)
    (do Check.judge (.returned t'); Check.checkReturned (C.context ctx) t' span) := by
  obtain rfl | ⟨hfades, hblurs⟩ := ht
  · exact judge rfl (checkReturned ctx t' span)
  have hreturns : (C.context ctx).returns? = ctx.returns? := rfl
  refine judge_left hfades rfl ?_ fun hvoid => judge_right hfades _ ?_
  · unfold Check.checkReturned
    split
    · exact .report _ _
    · exact Steps.scopes.seq fun s => .ite (.report _ _) (.pure _)
  have hvoid' : t'.isVoid = false := hblurs.isKind_eq_false nofun hvoid
  unfold Check.checkReturned
  rw [hreturns]
  split
  · exact report (by nofun) _
  next expected _ =>
    refine scopes.seq fun s s' hs => guard (by nofun) rfl (.inr ⟨hfades, fun hfits => ?_⟩) (pure rfl)
    have hvoid : t.isVoid = false := hvoid
    rw [hvoid, Bool.or_false] at hfits
    rw [hvoid', Bool.or_false, hs.assignable]
    cases hexpected : expected.isVoid with
    | true => simp [hexpected] at hfits
    | false =>
      simp only [hexpected, Bool.false_eq_true, if_false, Bool.not_eq_false'] at hfits ⊢
      exact (Ty.Blurs.refl expected).assignable hblurs hfits

end

/-! ## Members and callees -/

section

variable {t t' : Ty} (ht : C.Types t t')

include ht

theorem signatureOf (callee : Expr) :
    C.Rel L C.Facts (Check.signatureOf callee t) (Check.signatureOf callee t') := by
  have hsame : ∀ t, C.Rel L C.Facts (Check.signatureOf callee t) (Check.signatureOf callee t) := by
    intro t
    unfold Check.signatureOf
    split
    · exact pure (.inl rfl)
    · exact ite (fun _ => refuse (by simp) _ (.inl rfl)) fun _ => pure (.inl rfl)
  obtain rfl | ⟨hfades, hblurs⟩ := ht
  · exact hsame t'
  cases hw' : t'.isWildcard with
  | true =>
    simp only [Check.signatureOf, Ty.ofTy?_of_isWildcard hw', hw']
    split
    · exact pure (.inr ⟨hfades, rfl⟩)
    · exact guard_left hfades rfl (pure (.inl rfl))
  | false =>
    obtain rfl | ⟨hsig, _⟩ := hblurs.eq_or_plain hw'
    · exact hsame t'
    · simp only [Check.signatureOf, hsig, hblurs.isWildcard_eq_false hw']
      exact of_error hfades rfl (.pure _)

omit ht in
theorem signatureOf_left (hfades : C.fades = true) (callee : Expr) (t : Ty) :
    C.Rel L C.Facts (Check.signatureOf callee t) (Pure.pure none) :=
  signatureOf (.unknown hfades t) callee

theorem memberType (property : Ident) :
    C.Rel L C.Facts (Check.memberType t property) (Check.memberType t' property) := by
  have hsame : ∀ t, C.Rel L C.Facts (Check.memberType t property) (Check.memberType t property) := by
    intro t
    refine ite (fun _ => pure (.inl rfl)) fun _ => scopes.seq fun s s' hs => ?_
    rw [hs.memberOf?]
    exact ite (fun _ => refuse (by nofun) _ (.inl rfl)) fun _ => pure (.inl rfl)
  obtain rfl | ⟨hfades, hblurs⟩ := ht
  · exact hsame t'
  cases hw' : t'.isWildcard with
  | true =>
    simp only [Check.memberType, hw', if_true]
    split
    · exact pure (.inl rfl)
    · exact scopes_left fun s => guard_left hfades rfl (pure (.inr ⟨hfades, rfl⟩))
  | false =>
    obtain rfl | ⟨_, hmember⟩ := hblurs.eq_or_plain hw'
    · exact hsame t'
    · simp only [Check.memberType, hmember, hblurs.isWildcard_eq_false hw']
      exact scopes_left fun s => of_error hfades rfl (.pure _)

omit ht in
theorem indexed {e e' r r' k k' : Ty} (he : C.Types e e') (hr : C.Types r r') (hk : C.Types k k')
    (span : Span) : C.Rel L C.Types
      (do
        if !(← Check.assignable e k) then Check.report (.invalidIndex e k) span
        return r)
      (do
        if !(← Check.assignable e' k') then Check.report (.invalidIndex e' k') span
        return r') := by
  refine assignable he hk ?_ fun hfades b b' hle => ?_
  · rintro rfl rfl b
    exact guard (by nofun) rfl (.inl ⟨rfl, rfl⟩) (pure hr)
  · exact guard (by nofun) rfl (.inr ⟨hfades, by simpa using hle⟩) (pure hr)

theorem elementType {k k' : Ty} (hk : C.Types k k') (s s' : Span) :
    C.Rel L C.Types (Check.elementType t k s s') (Check.elementType t' k' s s') := by
  have hsame : ∀ t, C.Rel L C.Types (Check.elementType t k s s') (Check.elementType t k' s s') := by
    intro t
    unfold Check.elementType
    split
    · exact indexed (.inl rfl) (.inl rfl) hk s'
    · exact indexed (.inl rfl) (.inl rfl) hk s'
    · refine ite (fun _ => indexed (.inl rfl) (.inl rfl) hk s') fun _ => ?_
      exact guard (by simp) rfl (.inl ⟨rfl, rfl⟩) (pure (.inl rfl))
  obtain rfl | ⟨hfades, hblurs⟩ := ht
  · exact hsame t'
  cases hblurs with
  | refl => exact hsame t
  | wildcard hw' =>
    have hleft : ∀ e r, C.Rel L C.Types (do
        if !(← Check.assignable e k) then Check.report (.invalidIndex e k) s'
        return r) (Pure.pure .unknown) := by
      intro e r
      refine assignable_left fun _ => ?_
      exact guard_left hfades rfl (pure (.unknown hfades r))
    rw [Check.elementType_of_isWildcard hw']
    unfold Check.elementType
    split
    · exact hleft _ _
    · exact hleft _ _
    · split
      · exact hleft _ _
      · exact guard_left hfades rfl (pure (.inl rfl))
  | basic n m kind =>
    refine ite (fun _ => indexed (.inl rfl) (.inl rfl) hk s') fun _ => ?_
    exact guard (by simp) rfl (.inr ⟨hfades, id⟩) (pure (.inl rfl))
  | array he => exact indexed (.inl rfl) (.inr ⟨hfades, he⟩) hk s'
  | map hkey hvalue => exact indexed (.inr ⟨hfades, hkey⟩) (.inr ⟨hfades, hvalue⟩) hk s'

end

theorem checkCount? (callee : String) {sig? sig?' : Option Signature} (h : C.Facts sig? sig?')
    (count : Nat) (span : Span) : C.Rel L Eq
      (Check.checkCount? callee sig? count span) (Check.checkCount? callee sig?' count span) := by
  obtain rfl | ⟨hfades, rfl⟩ := h
  · cases sig?' with
    | none => exact pure rfl
    | some sig => exact ite (fun _ => report (by nofun) _) fun _ => pure rfl
  · cases sig? with
    | none => exact pure rfl
    | some sig => exact guard_left hfades rfl (pure rfl)

/-! ## Names -/

/-- A name is looked up. One that is set apart is found on the right only. -/
theorem resolveAny {n : String} {f g : Option Symbol → Check α} (hnone : C.Rel L Q (f none) (g none))
    (hsome : ∀ s s', C.Symbols s s' → C.Rel L Q (f (some s)) (g (some s')))
    (hunknown : C.Rel L Q (f none) (g (some (.unknown n)))) :
    C.Rel L Q (Check.resolve n >>= f) (Check.resolve n >>= g) := by
  by_cases hn : C.names n
  · refine (resolve hn).seq ?_
    rintro _ _ (hs | _)
    · exact hsome _ _ hs
    · exact hnone
  · intro hnames
    have hsteps : ∀ s?, Steps L (f s?) := fun
      | none => (hnone hnames).1
      | some s => (hsome s s (.inl rfl) hnames).1
    refine ⟨(Steps.resolve n).seq hsteps, fun a b hab hfine => ?_⟩
    obtain ⟨hleft, hright⟩ := hab.trees.resolve_missing hn
    change C.Fine ((f (a.scopes.resolve n)).run a).2.record at hfine
    change Q ((f (a.scopes.resolve n)).run a).1 ((g (b.scopes.resolve n)).run b).1 ∧
      C.States ((f (a.scopes.resolve n)).run a).2 ((g (b.scopes.resolve n)).run b).2
    rw [hleft] at hfine ⊢
    rw [hright]
    exact (hunknown hnames).2 a b hab hfine

theorem checkTarget (e : Expr) : C.Rel L Eq (Check.checkTarget e) (Check.checkTarget e) := by
  cases e with
  | ident n =>
    refine resolveAny (pure rfl) (fun s s' hs => ?_) (pure rfl)
    simp only [Option.map_some, Option.getD_some, Symbol.isConst, hs.kind]
    exact ite (fun _ => refuse (by nofun) _ rfl) fun _ => pure rfl
  | index | member => exact pure rfl
  | _ => exact refuse (by nofun) _ rfl

theorem packageOf? (e : Expr) : C.Rel L Eq (Check.packageOf? e) (Check.packageOf? e) := by
  cases e with
  | ident n =>
    refine resolveAny (pure rfl) (fun s s' hs => ?_) (pure rfl)
    simp only [Option.map_some, Option.getD_some, hs.kind]
    exact ite (fun _ => (usePackage _).seq fun _ _ _ => pure rfl) fun _ => pure rfl
  | _ => exact pure rfl

/-- A name is looked up as a value. One that is set apart is reported on the left only. -/
theorem lookup {n : Ident} {f g : Option Symbol → Check α} {x y : Check α}
    (hf : f none = Check.report (.undefinedIdentifier n.name) n.span >>= fun _ => x)
    (hg : g none = Check.report (.undefinedIdentifier n.name) n.span >>= fun _ => y)
    (hnone : C.Rel [] Q x y)
    (hsome : ∀ s s', C.Symbols s s' → C.Rel [] Q (f (some s)) (g (some s')))
    (hunknown : C.Rel [] Q x (g (some (.unknown n.name)))) :
    C.Rel [.value n] Q (do Check.judge (.name n); f (← Check.resolve n.name))
      (do Check.judge (.name n); g (← Check.resolve n.name)) := by
  have hjudge : Steps [.value n] (Check.judge (.name n)) :=
    fun _ => ⟨List.prefix_refl _, [.name n], rfl, List.Sublist.refl _⟩
  by_cases hn : C.names n.name
  · have hlook : C.Rel [.value n] Eq (Check.judge (.name n)) (Check.judge (.name n)) := by
      refine intro hjudge fun a b hab _ => ⟨rfl, hab.trees, hab.imports, ?_⟩
      exact C.judge (by rintro _ ⟨⟩; exact hn) hab.records
    refine hlook.andThen fun _ _ _ => (resolve hn).seq ?_
    rintro _ _ (hs | _)
    · exact hsome _ _ hs
    · rw [hf, hg]
      exact (report (by rintro _ ⟨⟩; exact hn) _).seq fun _ _ _ => hnone
  · intro _
    have hx : Steps [] x := (hnone nofun).1
    have hsteps : ∀ s?, Steps [] (f s?)
      | none => hf ▸ (Steps.report _ _).seq fun _ => hx
      | some s => (hsome s s (.inl rfl) nofun).1
    refine ⟨hjudge.bind fun _ => (Steps.resolve _).seq hsteps, fun a b hab hfine => ?_⟩
    obtain ⟨hleft, hright⟩ := hab.trees.resolve_missing hn
    let a' := ((Check.report (.undefinedIdentifier n.name) n.span).run
      ((Check.judge (.name n)).run a).2).2
    let b' := ((Check.judge (.name n)).run b).2
    have hrunLeft : (do Check.judge (.name n); f (← Check.resolve n.name) : Check α).run a =
        x.run a' := by
      change (f (a.scopes.resolve n.name)).run _ = _
      rw [hleft, hf]
      rfl
    have hrunRight : (do Check.judge (.name n); g (← Check.resolve n.name) : Check α).run b =
        (g (some (.unknown n.name))).run b' := by
      change (g (b.scopes.resolve n.name)).run b' = _
      rw [hright]
    have hstates : C.States a' b' := ⟨hab.trees, hab.imports, C.missing hn hab.records⟩
    rw [hrunLeft] at hfine ⊢
    rw [hrunRight]
    exact (hunknown nofun).2 a' b' hstates hfine

theorem identifierType (n : Ident) :
    C.Rel [.value n] C.Types (Check.identifierType n) (Check.identifierType n) := by
  refine lookup rfl rfl (pure (.inl rfl)) (fun s s' hs => ?_) (pure (.inl rfl))
  dsimp only
  rw [hs.kind]
  exact ite (fun _ => (usePackage _).seq fun _ _ _ => pure (.inl rfl)) fun _ => pure hs.ty

theorem namedSignature (callee : Expr) (n : Ident) :
    C.Rel [.value n] C.Facts (Check.namedSignature callee n) (Check.namedSignature callee n) := by
  refine lookup rfl rfl (pure (.inl rfl)) (fun s s' hs => ?_) (pure (.inl rfl))
  dsimp only
  rw [hs.signature?, hs.template?]
  split
  · exact pure (.inl rfl)
  · exact signatureOf hs.ty callee

/-! ## Variables -/

/-- The type that a variable takes from its value. -/
theorem inferred (ctx : Context) {t t' : Ty} (ht : C.Types t t') {kind : SymbolKind}
    (hkind : kind = .variable_ ∨ kind = .constant) (name : Ident) : C.Symbols
      { name := name.name, kind, ty := if ctx.inference then t else .unknown, span := name.span }
      { name := name.name, kind, ty := if (C.context ctx).inference then t' else .unknown
        span := name.span } := by
  cases hfades : C.fades with
  | true =>
    refine .inr ⟨hfades, ?_, ?_⟩
    · obtain rfl | rfl := hkind <;> rfl
    · simp [context, hfades]
  | false =>
    obtain rfl | ⟨hf, _⟩ := ht
    · exact .inl (by simp [context, hfades])
    · rw [hfades] at hf
      cases hf

theorem defineByAssignment (ctx : Context) {name : Ident} (hn : C.names name.name) {t t' : Ty}
    (ht : C.Types t t') : C.Rel L C.Types (Check.defineByAssignment ctx name t)
      (Check.defineByAssignment (C.context ctx) name t') :=
  (redefine (inferred ctx ht (.inl rfl) name) hn (by nofun)).seq fun _ _ _ =>
    pure (inferred ctx ht (.inl rfl) name).ty

theorem declareVariable (ctx : Context) {kind : SymbolKind}
    (hkind : kind = .variable_ ∨ kind = .constant) {name : Ident} (hn : C.names name.name)
    (declared? : Option Ty) {value? value?' : Option (Ty × Span)}
    (hvalue : Option.Rel (fun v v' => C.Types v.1 v'.1 ∧ v'.2 = v.2) value? value?') :
    C.Rel L Eq (Check.declareVariable ctx kind name declared? value?)
      (Check.declareVariable (C.context ctx) kind name declared? value?') := by
  have hdeclare : ∀ ty, C.Rel L Eq
      (Check.declare { name := name.name, kind, ty, span := name.span })
      (Check.declare { name := name.name, kind, ty, span := name.span }) :=
    fun ty => declare (.inl rfl) hn (by nofun)
  cases declared? with
  | some declared =>
    obtain ⟨hty, hspan⟩ | _ := hvalue
    · rw [Check.declareVariable, Check.declareVariable, hspan]
      exact (checkAssignable (.inl rfl) hty _).seq fun _ _ _ => hdeclare _
    · exact hdeclare _
  | none =>
    obtain h | _ := hvalue
    · exact declare (inferred ctx h.1 hkind name) hn (by nofun)
    · exact hdeclare _

end Comparison.Rel

end ClassLang
