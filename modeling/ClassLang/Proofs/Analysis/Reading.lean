import ClassLang.Check.Declare

/-!
# Reading written types

Resolving a written type, a signature or the members of a class looks names up and reports those that
stand for no type. It changes nothing else, so what it gives and reports is decided by the scope tree:
by the types that the bare names in it stand for, and by which names are templates. `Gives` says what
such a step does in one scope tree, and `Alike` that it does the same in two.
-/

namespace ClassLang

/-! ## The global scope -/

namespace ScopeTree

variable {t t' : ScopeTree}

/-- Outside of all bodies: the global scope is there and is the current one. -/
structure AtTop (t : ScopeTree) : Prop where
  current : t.current = 0
  root : (t.get? 0).isSome = true

theorem AtTop.resolve (h : t.AtTop) (name : String) : t.resolve name = t.global? name := by
  obtain ⟨scope, hscope⟩ := Option.isSome_iff_exists.1 h.root
  rw [ScopeTree.resolve, h.current, resolveFrom, global?, lookupIn, hscope, Option.bind_some]
  dsimp only
  cases scope.symbols.find? name with
  | some s => rfl
  | none => cases scope.parent? <;> simp

theorem AtTop.resolveLocal (h : t.AtTop) (name : String) :
    t.resolveLocal name = t.global? name := by
  rw [ScopeTree.resolveLocal, h.current, global?]

theorem AtTop.replace (h : t.AtTop) (s : Symbol) : (t.replace s).AtTop := by
  refine ⟨h.current, ?_⟩
  obtain ⟨scope, hscope⟩ := Option.isSome_iff_exists.1 h.root
  rw [get?] at hscope
  simp [get?, ScopeTree.replace, List.getElem?_modify, hscope]

theorem AtTop.modifyGlobal (h : t.AtTop) (name : String) (f : Symbol → Symbol) :
    (t.modifyGlobal name f).AtTop := by
  refine ⟨h.current, ?_⟩
  obtain ⟨scope, hscope⟩ := Option.isSome_iff_exists.1 h.root
  rw [get?] at hscope
  simp [get?, ScopeTree.modifyGlobal, hscope]

theorem AtTop.global?_replace (h : t.AtTop) (s : Symbol) (name : String) :
    (t.replace s).global? name =
      if name == s.name then some { s with scope := 0 } else t.global? name := by
  obtain ⟨scope, hscope⟩ := Option.isSome_iff_exists.1 h.root
  rw [get?] at hscope
  simp only [global?, lookupIn, get?, ScopeTree.replace, h.current, List.getElem?_modify, hscope,
    if_true, Option.bind_some]
  exact Table.find?_insert ..

end ScopeTree

theorem Table.find?_modify {α : Type} (t : Table α) (name key : String) (f : α → α) :
    (t.modify name f).find? key = if key == name then (t.find? key).map f else t.find? key := by
  cases hname : t.find? name with
  | some a =>
    simp only [modify, hname, find?_insert]
    split
    next hkey => rw [eq_of_beq hkey, hname, Option.map_some]
    next => rfl
  | none =>
    simp only [modify, hname]
    split
    next hkey => rw [eq_of_beq hkey, hname, Option.map_none]
    next => rfl

theorem ScopeTree.global?_modifyGlobal (t : ScopeTree) (m : String) (f : Symbol → Symbol)
    (name : String) : (t.modifyGlobal m f).global? name =
      if name == m then (t.global? name).map f else t.global? name := by
  simp only [global?, lookupIn, get?, modifyGlobal, List.getElem?_modify, if_true]
  cases t.scopes[0]? with
  | none => simp
  | some scope => exact Table.find?_modify ..

/-! ## Names of types -/

/-- The type that a name with this symbol stands for. -/
def Symbol.typeNamed? (s : Symbol) (name : String) : Option Ty :=
  match s.kind with
  | .class_ | .interface | .typeParameter => some s.ty
  | .template => if s.isClassTemplate then some (.class_ name) else none
  | _ => none

namespace ScopeTree

/-- The type that a bare name stands for. -/
def typeNamed? (t : ScopeTree) (name : String) : Option Ty :=
  (t.resolve name).bind (·.typeNamed? name)

/-- Whether a name stands for a template, if it stands for anything. -/
def isTemplate? (t : ScopeTree) (name : String) : Option Bool :=
  (t.resolve name).map (·.kind == .template)

/-- Written types with these bare names stand for the same in two scope trees. -/
structure SameTypes (t t' : ScopeTree) (names : List String) : Prop where
  named : ∀ n ∈ names, t.typeNamed? n = t'.typeNamed? n
  template : ∀ n, t.isTemplate? n = t'.isTemplate? n

theorem SameTypes.mono {t t' : ScopeTree} {names names' : List String} (h : t.SameTypes t' names)
    (hsub : names' ⊆ names) : t.SameTypes t' names' :=
  ⟨fun n hn => h.named n (hsub hn), h.template⟩

end ScopeTree

mutual

/-- The names that stand in a written type without type arguments. -/
def TypeExpr.bareNames : TypeExpr → List String
  | .named n => [n.name]
  | .array element _ => element.bareNames
  | .map key value _ => key.bareNames ++ value.bareNames
  | .pointer inner _ => inner.bareNames
  | .generic _ args _ => TypeExpr.allBareNames args

def TypeExpr.allBareNames : List TypeExpr → List String
  | [] => []
  | t :: ts => t.bareNames ++ TypeExpr.allBareNames ts

end

namespace TypeExpr

def optionalBareNames : Option TypeExpr → List String
  | some e => e.bareNames
  | none => []

def signatureBareNames (params : List Param) (ret? : Option TypeExpr) : List String :=
  params.flatMap (fun p => optionalBareNames p.type?) ++ optionalBareNames ret?

end TypeExpr

def Member.bareNames : Member → List String
  | .field f => TypeExpr.optionalBareNames f.type?
  | .method f => TypeExpr.signatureBareNames f.params f.ret?

def Class.bareNames (c : Class) : List String := c.members.flatMap Member.bareNames

namespace Check

variable {α β : Type} {t t' : ScopeTree} {x x' : Check α} {f f' : α → Check β} {v : α} {w : β}
  {fs gs : List Finding}

/-! ## Steps that read -/

/-- In a scope tree a step gives a value, reports some findings and does nothing else. -/
def Gives (x : Check α) (t : ScopeTree) (v : α) (fs : List Finding) : Prop :=
  ∀ a : Analysis, a.scopes = t → x.run a = (v, { a with findings := a.findings ++ fs })

namespace Gives

theorem pure (v : α) : Gives (Pure.pure v) t v [] := by
  intro a _
  rw [List.append_nil]
  rfl

theorem bind (hx : Gives x t v fs) (hf : Gives (f v) t w gs) : Gives (x >>= f) t w (fs ++ gs) := by
  intro a ha
  have hrun : (x >>= f).run a = (f (x.run a).1).run (x.run a).2 := rfl
  have hw := hf { a with findings := a.findings ++ fs } ha
  rw [List.append_assoc] at hw
  rw [hrun, hx a ha]
  exact hw

theorem report (cause : Finding.Cause) (span : Span) :
    Gives (Check.report cause span) t () [⟨cause, span⟩] := fun _ _ => rfl

theorem undefinedType (n : Ident) :
    Gives (Check.undefinedType n) t .unknown [⟨.undefinedType n.name, n.span⟩] :=
  bind (report _ _) (pure _)

theorem resolve (name : String) : Gives (Check.resolve name) t (t.resolve name) [] := by
  intro a ha
  rw [List.append_nil, ← ha]
  rfl

end Gives

/-- Two steps, each in its scope tree, give the same and report the same. -/
def Alike (x : Check α) (t : ScopeTree) (x' : Check α) (t' : ScopeTree) : Prop :=
  ∃ v fs, Gives x t v fs ∧ Gives x' t' v fs

namespace Alike

theorem pure (v : α) : Alike (Pure.pure v) t (Pure.pure v) t' := ⟨v, [], .pure v, .pure v⟩

theorem bind (hx : Alike x t x' t') (hf : ∀ v, Alike (f v) t (f' v) t') :
    Alike (x >>= f) t (x' >>= f') t' := by
  obtain ⟨v, fs, hv, hv'⟩ := hx
  obtain ⟨w, gs, hw, hw'⟩ := hf v
  exact ⟨w, fs ++ gs, hv.bind hw, hv'.bind hw'⟩

theorem report (cause : Finding.Cause) (span : Span) :
    Alike (Check.report cause span) t (Check.report cause span) t' :=
  ⟨(), _, .report cause span, .report cause span⟩

theorem undefinedType (n : Ident) : Alike (Check.undefinedType n) t (Check.undefinedType n) t' :=
  ⟨.unknown, _, .undefinedType n, .undefinedType n⟩

/-- A name may stand for different symbols in the two trees. -/
theorem bind_resolve {f f' : Option Symbol → Check β} {name : String}
    (hf : Alike (f (t.resolve name)) t (f' (t'.resolve name)) t') :
    Alike (Check.resolve name >>= f) t (Check.resolve name >>= f') t' := by
  obtain ⟨w, gs, hw, hw'⟩ := hf
  exact ⟨w, [] ++ gs, (Gives.resolve name).bind hw, (Gives.resolve name).bind hw'⟩

theorem mapM {f f' : α → Check β} (l : List α) (h : ∀ a ∈ l, Alike (f a) t (f' a) t') :
    Alike (l.mapM f) t (l.mapM f') t' := by
  induction l with
  | nil => exact .pure []
  | cons a l ih =>
    rw [List.mapM_cons, List.mapM_cons]
    refine .bind (h a List.mem_cons_self) fun b => ?_
    exact .bind (ih fun a ha => h a (List.mem_cons_of_mem _ ha)) fun bs => .pure (b :: bs)

end Alike

/-! ## Written types -/

variable {bound : List String}

/-- The type that was found for a name, which is reported if there is none. -/
def orUndefined (n : Ident) : Option Ty → Check Ty
  | some ty => return ty
  | none => undefinedType n

/-- A bare name is a basic type, a type parameter, or what the scope tree says. -/
theorem resolveType_named (n : Ident) : resolveType bound (.named n) =
    match Ty.ofBasicName? n.name with
    | some ty => pure ty
    | none =>
      if bound.contains n.name then pure (.param n.name)
      else resolve n.name >>= fun s? => orUndefined n (s?.bind (·.typeNamed? n.name)) := by
  rw [resolveType]
  cases Ty.ofBasicName? n.name with
  | some ty => rfl
  | none =>
    dsimp only
    split
    · rfl
    · refine congrArg (resolve n.name >>= ·) (funext fun s? => ?_)
      cases s? with
      | none => rfl
      | some s =>
        rw [Option.bind_some, Symbol.typeNamed?]
        dsimp only
        cases s.kind with
        | template => cases s.isClassTemplate <;> rfl
        | _ => rfl

/-- The class that a name with type arguments stands for, if the name is that of a template. -/
def classOfTemplate (n : Ident) : Option Bool → Check Ty
  | some true => return .class_ n.name
  | some false => do
    report (.notATemplate n.name) n.span
    return .unknown
  | none => undefinedType n

theorem resolveType_generic (n : Ident) (args : List TypeExpr) (span : Span) :
    resolveType bound (.generic n args span) = resolveTypes bound args >>= fun _ =>
      resolve n.name >>= fun s? => classOfTemplate n (s?.map (·.kind == .template)) := by
  rw [resolveType]
  refine congrArg (resolveTypes bound args >>= ·) (funext fun _ => ?_)
  refine congrArg (resolve n.name >>= ·) (funext fun s? => ?_)
  cases s? with
  | none => rfl
  | some s =>
    rw [Option.map_some]
    dsimp only
    cases s.kind == .template <;> rfl

variable (bound)

mutual

theorem alike_resolveType : (e : TypeExpr) → t.SameTypes t' e.bareNames →
    Alike (resolveType bound e) t (resolveType bound e) t'
  | .named n, h => by
    rw [resolveType_named]
    split
    · exact .pure _
    · split
      · exact .pure _
      · refine .bind_resolve ?_
        have hnamed : t.typeNamed? n.name = t'.typeNamed? n.name := h.named _ List.mem_cons_self
        rw [ScopeTree.typeNamed?, ScopeTree.typeNamed?] at hnamed
        rw [hnamed]
        cases (t'.resolve n.name).bind (·.typeNamed? n.name) with
        | some ty => exact .pure ty
        | none => exact .undefinedType n
  | .array element _, h => .bind (alike_resolveType element h) fun _ => .pure _
  | .map key value _, h => by
    have hkey := alike_resolveType key (h.mono (List.subset_append_left ..))
    have hvalue := alike_resolveType value (h.mono (List.subset_append_right ..))
    exact .bind hkey fun _ => .bind hvalue fun _ => .pure _
  | .pointer inner _, h => alike_resolveType inner h
  | .generic n args _, h => by
    rw [resolveType_generic]
    refine .bind (alike_resolveTypes args h) fun _ => .bind_resolve ?_
    have htemplate := h.template n.name
    rw [ScopeTree.isTemplate?, ScopeTree.isTemplate?] at htemplate
    rw [htemplate]
    generalize (t'.resolve n.name).map (·.kind == .template) = isTemplate?
    match isTemplate? with
    | some true => exact .pure _
    | some false => exact .bind (.report _ _) fun _ => .pure _
    | none => exact .undefinedType n

theorem alike_resolveTypes : (es : List TypeExpr) → t.SameTypes t' (TypeExpr.allBareNames es) →
    Alike (resolveTypes bound es) t (resolveTypes bound es) t'
  | [], _ => .pure _
  | e :: es, h => by
    have he := alike_resolveType e (h.mono (List.subset_append_left ..))
    have hes := alike_resolveTypes es (h.mono (List.subset_append_right ..))
    exact .bind he fun _ => .bind hes fun _ => .pure _

end

theorem alike_resolveOptional (missing : Ty) (e? : Option TypeExpr)
    (h : t.SameTypes t' (TypeExpr.optionalBareNames e?)) :
    Alike (resolveOptional bound missing e?) t (resolveOptional bound missing e?) t' := by
  cases e? with
  | some e => exact alike_resolveType bound e h
  | none => exact .pure _

theorem alike_resolveSignature (params : List Param) (ret? : Option TypeExpr)
    (h : t.SameTypes t' (TypeExpr.signatureBareNames params ret?)) :
    Alike (resolveSignature bound params ret?) t (resolveSignature bound params ret?) t' := by
  refine .bind (.mapM params fun p hp => alike_resolveOptional bound _ _ ?_) fun _ => ?_
  · exact h.mono fun n hn => List.mem_append_left _ (List.mem_flatMap.2 ⟨p, hp, hn⟩)
  · refine .bind (alike_resolveOptional bound _ _ ?_) fun _ => .pure _
    exact h.mono (List.subset_append_right ..)

theorem alike_classMembers (c : Class) (h : t.SameTypes t' c.bareNames) :
    Alike (classMembers bound c) t (classMembers bound c) t' := by
  refine .bind (.mapM c.members fun m hm => ?_) fun _ => .pure _
  have hm : t.SameTypes t' m.bareNames :=
    h.mono fun n hn => List.mem_flatMap.2 ⟨m, hm, hn⟩
  cases m with
  | field f => exact .bind (alike_resolveOptional bound _ _ hm) fun _ => .pure _
  | method f => exact .bind (alike_resolveSignature bound _ _ hm) fun _ => .pure _

end Check

end ClassLang
