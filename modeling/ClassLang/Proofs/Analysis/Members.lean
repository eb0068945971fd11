import ClassLang.Proofs.Analysis.Signatures
import ClassLang.Proofs.Types.Substitution

/-!
# Types of members

Outside of templates no name stands for a type parameter. So the types that analysis finds for the
fields of a class mention none, and stay what they are when type parameters are replaced.
-/

namespace ClassLang

theorem Ty.freeParams_ofBasicName {name : String} {ty : Ty} (h : ofBasicName? name = some ty) :
    ty.freeParams = [] := by
  obtain ⟨kind, -, rfl⟩ := Option.map_eq_some_iff.1 h
  rfl

theorem Ty.freeParams_ofLiteral (value? : Option Expr) :
    ((value?.bind ofLiteral?).getD .unknown).freeParams = [] := by
  cases value? with
  | none => rfl
  | some e => cases e <;> rfl

namespace Check

variable {α β : Type} {t : ScopeTree} {P : α → Prop} {Q : β → Prop} {x : Check α} {f : α → Check β}

/-- In a scope tree a step gives a value with a property, reports some findings and does nothing
else. -/
def Yields (P : α → Prop) (x : Check α) (t : ScopeTree) : Prop := ∃ v fs, Gives x t v fs ∧ P v

namespace Yields

theorem pure {v : α} (hv : P v) : Yields P (Pure.pure v) t := ⟨v, [], .pure v, hv⟩

theorem bind (hx : Yields P x t) (hf : ∀ v, P v → Yields Q (f v) t) : Yields Q (x >>= f) t := by
  obtain ⟨v, fs, hv, hP⟩ := hx
  obtain ⟨w, gs, hw, hQ⟩ := hf v hP
  exact ⟨w, fs ++ gs, hv.bind hw, hQ⟩

theorem bind_resolve {f : Option Symbol → Check β} {name : String}
    (hf : Yields Q (f (t.resolve name)) t) : Yields Q (Check.resolve name >>= f) t := by
  obtain ⟨w, gs, hw, hQ⟩ := hf
  exact ⟨w, [] ++ gs, (Gives.resolve name).bind hw, hQ⟩

theorem mapM (l : List α) (h : ∀ a ∈ l, Yields Q (f a) t) :
    Yields (fun bs => ∀ b ∈ bs, Q b) (l.mapM f) t := by
  induction l with
  | nil => exact pure nofun
  | cons a l ih =>
    rw [List.mapM_cons]
    refine bind (h a List.mem_cons_self) fun b hb => ?_
    refine bind (ih fun a ha => h a (List.mem_cons_of_mem _ ha)) fun bs hbs => ?_
    exact pure (List.forall_mem_cons.2 ⟨hb, hbs⟩)

theorem undefinedType (n : Ident) : Yields (·.freeParams = []) (Check.undefinedType n) t :=
  ⟨.unknown, _, .undefinedType n, rfl⟩

/-- Where names stand for closed types, written types do so as well. -/
theorem resolveType (ht : ∀ n ty, t.typeNamed? n = some ty → ty.freeParams = []) (e : TypeExpr) :
    Yields (·.freeParams = []) (Check.resolveType [] e) t := by
  cases e with
  | named n =>
    rw [resolveType_named]
    split
    next ty hty => exact pure (Ty.freeParams_ofBasicName hty)
    next =>
      rw [if_neg (by simp)]
      refine bind_resolve ?_
      cases hname : (t.resolve n.name).bind (·.typeNamed? n.name) with
      | some ty => exact pure (ht n.name ty hname)
      | none => exact undefinedType n
  | array element => exact bind (resolveType ht element) fun _ hty => pure hty
  | map key value =>
    refine bind (resolveType ht key) fun k hk => bind (resolveType ht value) fun v hv => pure ?_
    rw [Ty.freeParams, hk, hv]
    rfl
  | pointer inner => exact resolveType ht inner
  | generic n args =>
    obtain ⟨types, fs, htypes, -⟩ := alike_resolveTypes [] args
      (show t.SameTypes t _ from ⟨fun _ _ => rfl, fun _ => rfl⟩)
    rw [resolveType_generic]
    refine bind (P := fun _ => True) ⟨types, fs, htypes, trivial⟩ fun _ _ => bind_resolve ?_
    cases (t.resolve n.name).map (·.kind == .template) with
    | none => exact undefinedType n
    | some isTemplate =>
      cases isTemplate with
      | true => exact pure rfl
      | false => exact bind ⟨(), _, .report _ _, trivial⟩ fun _ (_ : True) => pure rfl

theorem classMembers (ht : ∀ n ty, t.typeNamed? n = some ty → ty.freeParams = []) (c : Class) :
    Yields (fun r => ∀ i ∈ r.1, i.ty.freeParams = []) (Check.classMembers [] c) t := by
  let isClosed : FieldInfo ⊕ MethodInfo → Prop := fun info =>
    ∀ i, info = .inl i → i.ty.freeParams = []
  refine bind (P := fun infos => ∀ info ∈ infos, isClosed info) (mapM c.members fun m _ => ?_)
    fun infos hinfos => pure fun i hi => ?_
  · cases m with
    | field f =>
      have htype : Yields (·.freeParams = [])
          (resolveOptional [] ((f.value?.bind Ty.ofLiteral?).getD .unknown) f.type?) t := by
        cases f.type? with
        | some e => exact resolveType ht e
        | none => exact pure (Ty.freeParams_ofLiteral f.value?)
      exact bind htype fun ty hty => pure fun i hi => by cases hi; exact hty
    | method m =>
      obtain ⟨sig, fs, hsig, -⟩ := alike_resolveSignature [] m.params m.ret?
        (show t.SameTypes t _ from ⟨fun _ _ => rfl, fun _ => rfl⟩)
      exact bind (P := fun _ => True) ⟨sig, fs, hsig, trivial⟩ fun _ _ => pure nofun
  · obtain ⟨info, hinfo, hleft⟩ := List.mem_filterMap.1 hi
    exact hinfos info hinfo i (Sum.getLeft?_eq_some_iff.1 hleft)

end Yields

/-! ## Fields of a class -/

section

variable {fs : List Filling} {s : Symbol}

theorem isSome_class?_fillAll (fs : List Filling) (s : Symbol) :
    (fillAll fs s).class?.isSome = s.class?.isSome := by
  induction fs generalizing s with
  | nil => rfl
  | cons f fs ih =>
    refine (ih _).trans ?_
    cases f with
    | signature sig =>
      simp only [Filling.apply]
      split <;> rfl
    | members | method => exact Option.isSome_map
    | _ => rfl

/-- Methods leave the fields alone. -/
theorem fields_fillAll (h : ∀ f ∈ fs, f.isMethod = true) {info : ClassInfo}
    (hinfo : s.class? = some info) :
    ∃ info', (fillAll fs s).class? = some info' ∧ info'.fields = info.fields := by
  induction fs generalizing s info with
  | nil => exact ⟨info, hinfo, rfl⟩
  | cons f fs ih =>
    have hf := h f List.mem_cons_self
    cases f with
    | method m =>
      let more : ClassInfo := { info with methods := info.methods ++ [m] }
      have happly : ((Filling.method m).apply s).class? = some more := congrArg (Option.map _) hinfo
      obtain ⟨info', hinfo', hfields⟩ := ih (fun f hf => h f (List.mem_cons_of_mem _ hf)) happly
      exact ⟨info', hinfo', hfields⟩
    | _ => cases hf

end

variable {p : Program} {c : Class}

/-- What analysis finds of a class mentions no type parameters. -/
theorem Clean.fields_collected (h : Clean p) (hc : .class_ c ∈ p.stmts) :
    ∃ s info, (collected p).scopes.global? c.name.name = some s ∧ s.classInfo? = some info ∧
      ∀ i ∈ info.fields, i.ty.freeParams = [] := by
  obtain ⟨before, after, hstmts⟩ := List.append_of_mem hc
  have hnames : ∀ n ty, (seen p before).scopes.typeNamed? n = some ty → ty.freeParams = [] := by
    intro n ty hty
    obtain ⟨rfl, -⟩ | ⟨rfl, -⟩ | ⟨rfl, -⟩ := h.typeNamed?_seen before hty <;> rfl
  obtain ⟨⟨fields, methods⟩, gs, hgives, hclosed⟩ := Yields.classMembers hnames c
  have hfills : (Stmt.class_ c).Fills (seen p before).scopes
    (some (c.name.name, .members fields methods)) gs := hgives.fill rfl
  have hfilled := filled_eq hfills
  have hseen := h.fillsIn_seen before
  have htop : (filled (seen p before) (.class_ c)).scopes.AtTop := by
    rw [hfilled]
    exact hseen.top.fill (some (c.name.name, .members fields methods))
  have hafter := fillsIn_foldl_filled after htop
  have hcollected : collected p = after.foldl filled (filled (seen p before) (.class_ c)) := by
    rw [collected_eq, hstmts, List.foldl_append, List.foldl_cons, ← hstmts]
    rfl
  rw [← hcollected, hfilled] at hafter
  -- The symbol as it was declared, with the fillings before, of and after the class.
  have hdeclared := h.declares.mem _ hc _ rfl
  obtain ⟨earlier, hearlier, -⟩ := hseen.symbols c.name.name
  obtain ⟨later, hlater, hwrites⟩ := hafter.symbols c.name.name
  have hnodup := h.declares.nodup
  rw [hstmts, List.filterMap_append, List.filterMap_cons_some (declaredName?_eq rfl)] at hnodup
  have hfresh := (List.nodup_cons.1 (List.nodup_append.1 hnodup).2.1).1
  have hmethods : ∀ x ∈ later, x.isMethod = true := fun x hx =>
    isMethod_of_writes hfresh (hwrites x hx)
  rw [ScopeTree.fill, ScopeTree.global?_modifyGlobal, if_pos (beq_self_eq_true _), hearlier,
    show c.name.name = (classSymbol c).name from rfl, hdeclared] at hlater
  let s := fillAll earlier { classSymbol c with scope := 0 }
  obtain ⟨info, hinfo⟩ : ∃ info, s.class? = some info :=
    Option.isSome_iff_exists.1 (isSome_class?_fillAll earlier _)
  have happly : ((Filling.members fields methods).apply s).class? =
    some { info with fields, methods } := congrArg (Option.map _) hinfo
  obtain ⟨info', hinfo', hfields⟩ := fields_fillAll hmethods happly
  refine ⟨_, info', hlater, ?_, hfields ▸ hclosed⟩
  exact congrArg (· <|> _) hinfo'

/-- In an accepted program the fields of a class have types without type parameters, unless a symbol
without members hides the class. -/
theorem freeParams_of_field {inference : Bool} (hlocated : Located p)
    (haccepted : (analyze p inference).hasErrors = false) (hc : .class_ c ∈ p.stmts)
    {info : ClassInfo} (hinfo : (analyze p inference).scopes.classInfo? c.name.name = some info) :
    ∀ i ∈ info.fields, i.ty.freeParams = [] := by
  have h := clean_of_accepted hlocated haccepted
  obtain hsame | ⟨s, hs, -, hnone⟩ := declared_or_hidden_analyze h inference c.name.name
  · obtain ⟨s, info', hs, hinfo', hclosed⟩ := h.fields_collected hc
    rw [ScopeTree.classInfo?, hsame, hs, Option.bind_some, hinfo'] at hinfo
    cases hinfo
    exact hclosed
  · rw [ScopeTree.classInfo?, hs, Option.bind_some, hnone] at hinfo
    cases hinfo

end Check

end ClassLang
