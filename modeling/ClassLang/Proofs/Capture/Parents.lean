import ClassLang.Proofs.Capture.Resolution

/-!
# Parents of instances

The parent of a class template may have no layout yet when an instance is made. It is then laid out
with its ancestors under the bindings of the instance. As long as their members are written without
the type parameters of the template, the bindings make no difference; so it does not matter for
whose sake a class is laid out.
-/

namespace ClassLang

namespace Catalog

variable {c : Catalog}

/-- What analysis found for the fields of classes mentions no type parameters. -/
def HasClosedFields (c : Catalog) : Prop :=
  ∀ name d, c.classes.find? name = some d → ∀ info, c.scopes.classInfo? d.name.name = some info →
    ∀ i ∈ info.fields, i.ty.freeParams = []

/-- The parent of an ancestor is an ancestor. -/
theorem Descends.extend {ancestor name : String} {path : List Class}
    (h : c.Descends ancestor name path) {d : Class} {p : Ident}
    (hd : c.classes.find? ancestor = some d) (hp : d.extends? = some p) :
    c.Descends p.name name (path ++ [d]) := by
  induction h with
  | refl => exact .step hd hp .refl
  | step hd' hp' _ ih => exact .step hd' hp' ih

end Catalog

namespace Gen

open GenState (Respects)

variable {c : Catalog} {fuel : Nat} {bindings : List (String × Ty)} {name : String} {d : Class}
  {g : GenState}

theorem run_layoutOf (t : Typing) (name : String) (d : Class) (parent? : Option String)
    (g : GenState) : (layoutOf t name d parent?).run g =
      (layoutOver t name d parent? (parent?.bind g.layouts.find?)).run g := by
  rw [layoutOf_eq_bind]
  cases parent? <;> rfl

/-- A class that is said to have a layout has one. -/
theorem contains_of_layoutClass {t : Typing} {depth : Nat} {waiting : List String} :
    ((layoutClass t depth waiting name).run g).1 = true →
      ((layoutClass t depth waiting name).run g).2.layouts.contains name = true := by
  have hown : ∀ (d : Class) (parent? : Option String) (g : GenState),
      ((layoutOf t name d parent? >>= recordLayout).run g).2.layouts.contains name = true := by
    intro d parent? g
    let r := (layoutOf t name d parent?).run g
    show ((recordLayout r.1).run r.2).2.layouts.contains name = true
    rw [GenState.contains_recordLayout, name_layoutOf, beq_self_eq_true, Bool.true_or]
  cases depth with
  | zero =>
    intro h
    cases h
  | succ depth =>
    rw [run_layoutClass]
    split
    next hhas => exact fun _ => hhas
    split
    · intro h
      cases h
    next d _ =>
    split
    · intro h
      cases h
    split
    · exact fun _ => hown d none g
    next parent _ =>
    dsimp only
    split
    · exact fun _ => hown d (some parent.name) _
    split
    · intro h
      cases h
    · exact fun _ => hown d none _

section

variable (h : Instantiates c fuel)
include h

/-- The layout of an instance, or of a class as it is written. -/
theorem respects_record (parent? : Option String)
    (hl : ∀ l g', (layoutOf (typingAt c fuel bindings) name d parent?).run g = (l, g') →
      g.Regular c → g.Grows g' →
        g'.HasSymbol name ∨ c.classes.contains name = true ∧ c.Faithful g' name l) :
    Respects c g ((layoutOf (typingAt c fuel bindings) name d parent? >>= recordLayout).run g).2 := by
  intro hg
  obtain ⟨hgrows, hg'⟩ := Follows.layoutOf name d parent? (.inl (h.follows bindings)) g hg
  have hname := name_layoutOf (typingAt c fuel bindings) name d parent? g
  have hrecord := @GenState.Regular.recordLayout c _ hg'
    ((layoutOf (typingAt c fuel bindings) name d parent?).run g).1
  rw [hname] at hrecord
  exact ⟨⟨hgrows.requests, hgrows.errors⟩, hrecord (hl _ _ rfl hg hgrows)⟩

variable (hc : c.HasClosedFields)
include hc

/-- A class is laid out as it is written when its ancestors are. -/
theorem respects_layoutOwn (hd : c.classes.find? name = some d)
    (hunbound : c.Sheltered name → ∀ parent?, layoutOf (typingAt c fuel bindings) name d parent? =
      layoutOf (typingAt c fuel []) name d parent?) (parent? : Option String)
    (hbase : g.Regular c → c.Sheltered name → c.Apart g name → ∃ lineage,
      c.Lineage name (d :: lineage) ∧
        c.LaysOut g lineage (.derive name parent? (parent?.bind g.layouts.find?))) :
    Respects c g ((layoutOf (typingAt c fuel bindings) name d parent? >>= recordLayout).run g).2 := by
  refine respects_record h parent? fun l g' hrun hg hgrows => .inr ⟨?_, fun hshelter hapart => ?_⟩
  · rw [Table.contains, hd]
    rfl
  · obtain ⟨lineage, hlineage, hbase⟩ := hbase hg hshelter (hapart.before hgrows)
    rw [hunbound hshelter parent?, run_layoutOf] at hrun
    have hl := (reaches_layoutOver h (hc name d hd) name parent? hbase hg).2.2
    rw [hrun] at hl
    exact ⟨d :: lineage, hlineage, hl⟩

/-- It is the same for whatever is laid out on the way, as long as bindings make no difference. -/
theorem respects_layoutClass (above : String → Prop)
    (hparents : ∀ name d p, above name → c.classes.find? name = some d → d.extends? = some p →
      above p.name)
    (hunbound : ∀ name d, above name → c.classes.find? name = some d → c.Sheltered name →
      ∀ parent?, layoutOf (typingAt c fuel bindings) name d parent? =
        layoutOf (typingAt c fuel []) name d parent?)
    (depth : Nat) (waiting : List String) (habove : above name) :
    Follows (Respects c) (layoutClass (typingAt c fuel bindings) depth waiting name) := by
  induction depth generalizing waiting name with
  | zero => exact .pure _
  | succ depth ih =>
    intro g
    rw [run_layoutClass]
    split
    · exact GenState.Ambient.refl g
    split
    · exact GenState.Ambient.refl g
    next d hd =>
    split
    · exact GenState.Ambient.report g _
    -- Without a parent, or with one that is no class, there is nothing above the class.
    have hroot : (∀ p, d.extends? = some p → c.classes.find? p.name = none) → ∀ g,
        Respects c g ((layoutOf (typingAt c fuel bindings) name d none >>= recordLayout).run g).2 :=
      fun hnone g => respects_layoutOwn h hc hd (hunbound name d habove hd) none fun _ _ _ =>
        ⟨[], .root hd hnone, .root name none⟩
    split
    next hextends =>
      refine hroot (fun p hp => ?_) g
      rw [hextends] at hp
      cases hp
    next parent hparent =>
    have hp := ih (name :: waiting) (hparents name d parent habove hd hparent) g
    dsimp only
    split
    next hlaid =>
      refine GenState.Ambient.trans hp (respects_layoutOwn h hc hd (hunbound name d habove hd)
        (some parent.name) ?_)
      intro hg hshelter hapart
      obtain ⟨base, hbase⟩ := Option.isSome_iff_exists.1 (contains_of_layoutClass hlaid)
      have hfaithful := hg.faithful hbase (hapart parent.name [d] (.step hd hparent .refl))
      obtain ⟨lineage, hlineage, hl⟩ :=
        hfaithful.2 (hshelter.parent hd hparent) (hapart.parent hd hparent)
      refine ⟨lineage, .derived hd hparent hlineage, ?_⟩
      rw [Option.bind_some, hbase]
      exact hl.derive name _
    split
    · exact hp
    next hclass =>
      refine GenState.Ambient.trans hp (hroot (fun p hp => ?_) _)
      rw [hparent] at hp
      cases hp
      exact Option.not_isSome_iff_eq_none.1 hclass

/-- A class that is laid out for its own sake. -/
theorem respects_ensureLayout (name : String) :
    Follows (Respects c) (ensureLayout (typingAt c fuel []) name) :=
  respects_layoutClass h hc (fun _ => True) (fun _ _ _ _ _ _ => trivial)
    (fun _ _ _ _ _ _ => rfl) _ _ trivial

/-! ## Instances of class templates -/

/-- The parent of a template is laid out like any class. -/
theorem respects_parent {t : Template} (ht : t ∈ c.templates.values) (hd : t.body = .class_ d)
    (hb : ∀ b ∈ bindings, b.1 ∈ t.params) {parent : Ident} (hparent : d.extends? = some parent) :
    Follows (Respects c) (ensureLayout (typingAt c fuel bindings) parent.name) := by
  refine respects_layoutClass h hc (fun name => ∃ path, c.Descends name parent.name path) ?_ ?_ _ _
    ⟨[], .refl⟩
  · rintro name d p ⟨path, hpath⟩ hd hp
    exact ⟨path ++ [d], hpath.extend hd hp⟩
  · rintro name a ⟨path, hpath⟩ ha hshelter parent?
    refine layoutOf_unbound hb (hc name a ha) ?_ name parent?
    exact hshelter t ht d hd parent hparent name [] path a .refl hpath ha

theorem respects_layoutInstance {t : Template} (ht : t ∈ c.templates.values)
    (hd : t.body = .class_ d) (hb : ∀ b ∈ bindings, b.1 ∈ t.params) {symbol : String}
    (hsymbol : g.HasSymbol symbol) :
    Respects c g ((layoutInstance (typingAt c fuel bindings) symbol d).run g).2 := by
  have hown : ∀ parent? g, g.HasSymbol symbol → Respects c g
      ((layoutOf (typingAt c fuel bindings) symbol d parent? >>= recordLayout).run g).2 :=
    fun parent? g hsymbol => respects_record h parent? fun _ _ _ _ hgrows =>
      .inl (hsymbol.mono hgrows)
  unfold layoutInstance
  cases hparent : d.extends? with
  | none => exact hown none g hsymbol
  | some parent =>
    intro hg
    obtain ⟨hgrows, hg₁⟩ := respects_parent h hc ht hd hb hparent g hg
    obtain ⟨hgrows', hg₂⟩ := hown _ _ (hsymbol.mono hgrows) hg₁
    exact ⟨hgrows.trans hgrows', hg₂⟩

theorem respects_settleInstance {t : Template} (ht : t ∈ c.templates.values)
    (hb : ∀ b ∈ bindings, b.1 ∈ t.params) {symbol : String} (hsymbol : g.HasSymbol symbol) :
    Respects c g ((settleInstance (typingAt c fuel bindings) symbol t.body).run g).2 := by
  unfold settleInstance
  split
  next f hf =>
    refine Follows.bind (.writtenSignature _ _ (.inl (h.follows bindings))) (fun sig g => ?_) g
    exact .of_eq rfl (List.Subset.refl _) rfl rfl
  next d hd => exact respects_layoutInstance h hc ht hd hb hsymbol
  next => exact GenState.Ambient.refl g

end

theorem reported_ne_nil {g : GenState} (e : GenError) : g.errors ++ [e] ≠ [] :=
  List.append_ne_nil_of_right_ne_nil _ (List.cons_ne_nil _ _)

theorem ne_nil_of_exhausted {g : GenState} (h : g.errors.any (·.cause == .unbounded) = true) :
    g.errors ≠ [] := by
  rintro hnil
  rw [hnil] at h
  cases h

/-- Instances can be asked for at any depth. -/
theorem instantiates (hc : c.HasClosedFields) (fuel : Nat) : Instantiates c fuel := by
  induction fuel with
  | zero =>
    intro name args g
    refine .of_follows (.bind .exhaust fun _ => .pure _) fun _ => ?_
    show ((if !(g.errors.any (·.cause == .unbounded)) then modify _ else pure () : Gen Unit).run
      g).2.errors ≠ []
    cases hexhausted : g.errors.any (·.cause == .unbounded) with
    | true => exact ne_nil_of_exhausted hexhausted
    | false => exact reported_ne_nil _
  | succ fuel ih =>
    intro name args g
    cases ht : c.templates.find? name.name with
    | none =>
      rw [instantiate, ht]
      exact .of_follows (.bind (.report _ _) fun _ => .pure _) fun _ => reported_ne_nil _
    | some template =>
    by_cases hlength : template.params.length = args.length
    · intro hg
      rw [run_instantiate ht hlength]
      cases hknown : known? g name.name args with
      | some r =>
        obtain ⟨hr, htemplate, hkey⟩ := of_known? hknown
        have hrequest : r = request name.name args := by
          rw [request, ← hkey, ← htemplate, ← hg.recorded r hr]
        exact ⟨.refl g, hg, congrArg _ hrequest, hrequest ▸ hr⟩
      | none =>
      dsimp only
      split
      next hexhausted => exact ⟨.refl g, hg, ne_nil_of_exhausted hexhausted⟩
      next =>
        let r := request name.name args
        let g₁ : GenState := { g with requests := g.requests ++ [r] }
        have hr : r ∈ g₁.requests := List.mem_append_right _ (List.mem_singleton_self r)
        let i := instanceOf name.name template args
        let g₂ := ((settleInstance (typingAt c fuel i.bindings) i.symbol i.body).run g₁).2
        have hsettle : Respects c g₁ g₂ := respects_settleInstance ih hc
          (Table.mem_values_of_find? ht) (fun b hb => (List.of_mem_zip hb).1) ⟨r, hr, rfl⟩
        have hqueue : Respects c g₂ { g₂ with queue := g₂.queue ++ [i] } :=
          .of_eq rfl (List.Subset.refl _) rfl rfl
        obtain ⟨hgrows, hg₁⟩ := Respects.request name.name args hg
        obtain ⟨hgrows₁, hg₂⟩ := hsettle hg₁
        obtain ⟨hgrows₂, hg₃⟩ := hqueue hg₂
        have hgrows' := hgrows₁.trans hgrows₂
        exact ⟨hgrows.trans hgrows', hg₃, rfl, hgrows'.requests hr⟩
    · rw [instantiate, ht]
      dsimp only
      rw [if_pos (by simpa using hlength)]
      exact .of_follows (.bind (.report _ _) fun _ => .pure _) fun _ => reported_ne_nil _

end Gen

end ClassLang
