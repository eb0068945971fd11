import ClassLang.Proofs.Comparison.Basic
import ClassLang.Proofs.Names.Mention

/-!
# Steps side by side

`Rel` relates a step of the left analysis to one of the right: from related states they come to related
states, with related results. Findings and questions are only ever added on the left, and the names
that are looked up as values are some of the mentions of a list, in their order. The list is that of
the tree at hand; lists of consecutive steps are appended.
-/

namespace ClassLang

def Judgement.name? : Judgement → Option Ident
  | name n => some n
  | _ => none

/-! ## What a step adds -/

/-- Findings and questions are added, and names are looked up that are mentioned as values in `L`. -/
structure Analysis.Step (L : List Mention) (a b : Analysis) : Prop where
  findings : a.findings <+: b.findings
  judgements : ∃ js, b.judgements = a.judgements ++ js ∧
    (js.filterMap Judgement.name?).Sublist (L.filterMap Mention.value?)

namespace Analysis.Step

variable {L L' : List Mention} {a b c : Analysis}

theorem of_eq (hf : a.findings <+: b.findings) (hj : b.judgements = a.judgements) : a.Step L b :=
  ⟨hf, [], by rw [hj, List.append_nil], List.nil_sublist _⟩

theorem refl (a : Analysis) : a.Step L a := .of_eq (List.prefix_refl _) rfl

theorem trans (h : a.Step L b) (h' : b.Step L' c) : a.Step (L ++ L') c := by
  obtain ⟨js, hjs, hsub⟩ := h.judgements
  obtain ⟨js', hjs', hsub'⟩ := h'.judgements
  refine ⟨h.findings.trans h'.findings, js ++ js', by rw [hjs', hjs, List.append_assoc], ?_⟩
  rw [List.filterMap_append, List.filterMap_append]
  exact hsub.append hsub'

theorem mono (h : a.Step L b) (hL : L.Sublist L') : a.Step L' b := by
  obtain ⟨js, hjs, hsub⟩ := h.judgements
  exact ⟨h.findings, js, hjs, hsub.trans (hL.filterMap _)⟩

theorem quiet (h : a.Step L b) (hb : b.record.Quiet) : a.record.Quiet := by
  obtain ⟨js, hjs, _⟩ := h.judgements
  refine ⟨fun f hf => hb.findings f (h.findings.subset hf), fun j hj => hb.judgements j ?_⟩
  change j ∈ b.judgements
  rw [hjs]
  exact List.mem_append_left _ hj

end Analysis.Step

namespace Check

variable {α β : Type} {L L' : List Mention} {x : Check α} {f : α → Check β}

def Steps (L : List Mention) (x : Check α) : Prop := ∀ a : Analysis, a.Step L (x.run a).2

namespace Steps

theorem pure (v : α) : Steps L (Pure.pure v) := fun a => .refl a

theorem bind (hx : Steps L x) (hf : ∀ v, Steps L' (f v)) : Steps (L ++ L') (x >>= f) :=
  fun a => (hx a).trans (hf _ _)

/-- A first step that looks up nothing. -/
theorem seq (hx : Steps [] x) (hf : ∀ v, Steps L (f v)) : Steps L (x >>= f) := hx.bind hf

theorem report (cause : Finding.Cause) (span : Span) : Steps L (Check.report cause span) :=
  fun _ => .of_eq (List.prefix_append _ _) rfl

theorem judge {j : Judgement} (hj : j.name? = none) : Steps L (Check.judge j) :=
  fun _ => ⟨List.prefix_refl _, [j], rfl, by simp [hj]⟩

theorem reading (h : ∀ a : Analysis, (x.run a).2 = a) : Steps L x := fun a => by
  rw [h a]
  exact .refl a

theorem scopes : Steps L Check.scopes := reading fun _ => rfl

theorem resolve (n : String) : Steps L (Check.resolve n) := reading fun _ => rfl

theorem replace (d : Symbol) : Steps L (Check.replace d) :=
  fun _ => .of_eq (List.prefix_refl _) rfl

theorem ite {c : Prop} [Decidable c] {x y : Check α} (hx : Steps L x) (hy : Steps L y) :
    Steps L (if c then x else y) := by
  split
  · exact hx
  · exact hy

theorem forM {f : α → Check Unit} (l : List α) (h : ∀ v, Steps [] (f v)) : Steps L (l.forM f) := by
  induction l with
  | nil => exact pure ()
  | cons v l ih => exact (h v).seq fun _ => ih

end Steps

end Check

/-! ## Related steps -/

namespace Comparison

variable (C : Comparison) {α β : Type}

/-- A step on the left and one on the right. -/
def Rel (L : List Mention) (Q : α → α → Prop) (x y : Check α) : Prop :=
  (∀ n, .name n ∈ L → C.names n) → Check.Steps L x ∧
    ∀ a b, C.States a b → C.Fine (x.run a).2.record →
      Q (x.run a).1 (y.run b).1 ∧ C.States (x.run a).2 (y.run b).2

namespace Rel

open Check (Steps)

variable {C} {L L' : List Mention} {Q : α → α → Prop} {R : β → β → Prop} {x y : Check α}
  {f g : α → Check β}

theorem intro (hs : Steps L x) (h : ∀ a b, C.States a b → C.Fine (x.run a).2.record →
    Q (x.run a).1 (y.run b).1 ∧ C.States (x.run a).2 (y.run b).2) : C.Rel L Q x y :=
  fun _ => ⟨hs, h⟩

/-- The names of the list that are no values are not set apart. -/
theorem assuming (h : (∀ n, .name n ∈ L → C.names n) → C.Rel L Q x y) : C.Rel L Q x y :=
  fun hL => h hL hL

/-- A tree that begins with names that are no values. -/
theorem naming {ns : List String} (h : (∀ n ∈ ns, C.names n) → C.Rel L Q x y) :
    C.Rel (ns.map .name ++ L) Q x y := by
  intro hnames
  have hL : L.Sublist (ns.map Mention.name ++ L) := List.sublist_append_right _ _
  have hns : ∀ n ∈ ns, C.names n := fun n hn =>
    hnames n (List.mem_append_left _ (List.mem_map_of_mem hn))
  obtain ⟨hs, hrel⟩ := h hns fun n hn => hnames n (hL.subset hn)
  exact ⟨fun a => (hs a).mono hL, hrel⟩

theorem mono (h : C.Rel L Q x y) (hL : L.Sublist L') : C.Rel L' Q x y := by
  intro hnames
  obtain ⟨hs, hrel⟩ := h fun n hn => hnames n (hL.subset hn)
  exact ⟨fun a => (hs a).mono hL, hrel⟩

theorem weaken {Q' : α → α → Prop} (h : C.Rel L Q x y) (hQ : ∀ v w, Q v w → Q' v w) :
    C.Rel L Q' x y := by
  intro hnames
  obtain ⟨hs, hrel⟩ := h hnames
  exact ⟨hs, fun a b hab hfine => (hrel a b hab hfine).imp_left (hQ _ _)⟩

theorem pure {v w : α} (h : Q v w) : C.Rel L Q (Pure.pure v) (Pure.pure w) :=
  intro (.pure v) fun _ _ hab _ => ⟨h, hab⟩

/-- What the left step gives always has property `P`. Results are related reflexively, so that what
follows on the left can be looked at on its own. -/
theorem bindOf [Std.Refl Q] {P : α → Prop} (hx : C.Rel L Q x y) (hP : ∀ a, P (x.run a).1)
    (hf : ∀ v w, Q v w → P v → C.Rel L' R (f v) (g w)) :
    C.Rel (L ++ L') R (x >>= f) (y >>= g) := by
  intro hnames
  have hleft := fun n hn => hnames n (List.mem_append_left L' hn)
  have hright := fun n hn => hnames n (List.mem_append_right L hn)
  have hsteps : ∀ v, P v → Steps L' (f v) := fun v hv => (hf v v (Std.Refl.refl v) hv hright).1
  obtain ⟨hs, hrel⟩ := hx hleft
  refine ⟨fun a => (hs a).trans (hsteps _ (hP a) _), fun a b hab hfine => ?_⟩
  obtain ⟨hQ, hstates⟩ := hrel a b hab fun hfades => (hsteps _ (hP a) _).quiet (hfine hfades)
  exact (hf _ _ hQ (hP a) hright).2 _ _ hstates hfine

theorem bind [Std.Refl Q] (hx : C.Rel L Q x y) (hf : ∀ v w, Q v w → C.Rel L' R (f v) (g w)) :
    C.Rel (L ++ L') R (x >>= f) (y >>= g) :=
  hx.bindOf (P := fun _ => True) (fun _ => trivial) fun v w hQ _ => hf v w hQ

/-- A first step that mentions nothing. -/
theorem seq [Std.Refl Q] (hx : C.Rel [] Q x y) (hf : ∀ v w, Q v w → C.Rel L R (f v) (g w)) :
    C.Rel L R (x >>= f) (y >>= g) := hx.bind hf

/-- A last step that mentions nothing. -/
theorem andThen [Std.Refl Q] (hx : C.Rel L Q x y) (hf : ∀ v w, Q v w → C.Rel [] R (f v) (g w)) :
    C.Rel L R (x >>= f) (y >>= g) := by
  have h := hx.bind hf
  rwa [List.append_nil] at h

theorem map {k : α → β} (hx : C.Rel L Q x y) (hk : ∀ {v w}, Q v w → R (k v) (k w)) :
    C.Rel L R (k <$> x) (k <$> y) := by
  intro hnames
  obtain ⟨hs, hrel⟩ := hx hnames
  exact ⟨hs, fun a b hab hfine => (hrel a b hab hfine).imp_left hk⟩

theorem ite {c : Prop} [Decidable c] {x' y' : Check α} (hx : c → C.Rel L Q x y)
    (hy : ¬ c → C.Rel L Q x' y') : C.Rel L Q (if c then x else x') (if c then y else y') := by
  split
  next h => exact hx h
  next h => exact hy h

theorem forM_mem {f g : α → Check Unit} (l : List α) (h : ∀ v ∈ l, C.Rel [] Eq (f v) (g v)) :
    C.Rel L Eq (l.forM f) (l.forM g) := by
  induction l with
  | nil => exact pure rfl
  | cons v l ih =>
    exact (h v List.mem_cons_self).seq fun _ _ _ => ih fun v' hv' => h v' (List.mem_cons_of_mem _ hv')

theorem mapM_mem {f g : α → Check β} (l : List α) (h : ∀ v ∈ l, C.Rel [] Eq (f v) (g v)) :
    C.Rel L Eq (l.mapM f) (l.mapM g) := by
  induction l with
  | nil =>
    rw [List.mapM_nil, List.mapM_nil]
    exact pure rfl
  | cons v l ih =>
    rw [List.mapM_cons, List.mapM_cons]
    refine (h v List.mem_cons_self).seq ?_
    rintro w _ rfl
    refine (ih fun v' hv' => h v' (List.mem_cons_of_mem _ hv')).andThen ?_
    rintro ws _ rfl
    exact pure rfl

/-! ### Reading and noting -/

theorem scopes : C.Rel L C.Similar Check.scopes Check.scopes :=
  intro .scopes fun _ _ hab _ => ⟨hab.trees.similar, hab⟩

/-- The scopes are looked at on the left only. -/
theorem scopes_left {f : ScopeTree → Check α} (h : ∀ s, C.Rel L Q (f s) y) :
    C.Rel L Q (Check.scopes >>= f) y :=
  fun hnames => ⟨Steps.scopes.seq fun s => (h s hnames).1, fun a b => (h a.scopes hnames).2 a b⟩

theorem resolve {n : String} (hn : C.names n) :
    C.Rel L (Option.Rel C.Symbols) (Check.resolve n) (Check.resolve n) :=
  intro (.resolve n) fun _ _ hab _ => ⟨hab.trees.similar.resolve n hn, hab⟩

/-- An error on the left ends the comparison if types have faded. -/
theorem of_error {cause : Finding.Cause} {span : Span} (hfades : C.fades = true)
    (hcause : cause.level = .error) {x : Check α} (hs : Steps L x) :
    C.Rel L Q (Check.report cause span >>= fun _ => x) y := by
  refine intro ((Steps.report cause span).seq fun _ => hs) fun a b _ hfine => ?_
  have hquiet := (hs ((Check.report cause span).run a).2).quiet (hfine hfades)
  have herror := hquiet.findings ⟨cause, span⟩ (List.mem_append_right _ List.mem_cons_self)
  simp [Finding.isError, Finding.level, hcause] at herror

theorem report {cause : Finding.Cause} (hcause : ∀ n, cause = .undefinedIdentifier n → C.names n)
    (span : Span) : C.Rel L Eq (Check.report cause span) (Check.report cause span) := by
  refine intro (.report cause span) fun a b hab hfine => ⟨rfl, hab.trees, hab.imports, ?_⟩
  refine C.report hcause (fun hfades => ?_) hab.records
  exact (hfine hfades).findings _ (List.mem_append_right _ List.mem_cons_self)

/-- A mistake is reported, and an answer given. -/
theorem refuse {cause : Finding.Cause} (hcause : ∀ n, cause = .undefinedIdentifier n → C.names n)
    (span : Span) {v w : α} (h : Q v w) :
    C.Rel L Q (do Check.report cause span; return v) (do Check.report cause span; return w) :=
  (report hcause span).seq fun _ _ _ => pure h

/-- A check that is made on the left only. -/
theorem guard_left {c : Bool} {cause : Finding.Cause} {span : Span} {x y : Check α}
    (hfades : C.fades = true) (hlevel : cause.level = .error) (hxy : C.Rel L Q x y) :
    C.Rel L Q (if c = true then Check.report cause span >>= fun _ => x else x) y := by
  cases c with
  | true => exact fun hnames => of_error hfades hlevel (hxy hnames).1 hnames
  | false => exact hxy

/-- The two sides report a mistake under the same condition; if types have faded, then at least the
left one does where the right one does. -/
theorem guard {c c' : Bool} {cause cause' : Finding.Cause} {span : Span} {x y : Check α}
    (hcause : ∀ n, cause ≠ .undefinedIdentifier n) (hlevel : cause.level = .error)
    (h : c' = c ∧ cause' = cause ∨ C.fades = true ∧ (c = false → c' = false))
    (hxy : C.Rel L Q x y) :
    C.Rel L Q (if c = true then Check.report cause span >>= fun _ => x else x)
      (if c' = true then Check.report cause' span >>= fun _ => y else y) := by
  obtain ⟨rfl, rfl⟩ | ⟨hfades, hc⟩ := h
  · exact ite (fun _ => (report (fun n hn => absurd hn (hcause n)) span).seq fun _ _ _ => hxy)
      fun _ => hxy
  · cases c with
    | true => exact fun hnames => of_error hfades hlevel (hxy hnames).1 hnames
    | false =>
      rw [hc rfl]
      exact hxy

theorem judge {j : Judgement} {x y : Check α} (hj : j.name? = none) (h : C.Rel L Q x y) :
    C.Rel L Q (Check.judge j >>= fun _ => x) (Check.judge j >>= fun _ => y) := by
  have hjudge : C.Rel [] Eq (Check.judge j) (Check.judge j) := by
    refine intro (.judge hj) fun a b hab _ => ⟨rfl, hab.trees, hab.imports, ?_⟩
    exact C.judge (fun n hn => by rw [hn] at hj; cases hj) hab.records
  exact hjudge.seq fun _ _ _ => h

/-- If types have faded, then no question on the left is delicate. -/
theorem judge_left {j : Judgement} {x y : Check α} (hfades : C.fades = true) (hj : j.name? = none)
    (hs : Steps L x) (h : j.isDelicate = false → C.Rel L Q x y) :
    C.Rel L Q (Check.judge j >>= fun _ => x) y := by
  intro hnames
  refine ⟨(Steps.judge hj).seq fun _ => hs, fun a b hab hfine => ?_⟩
  have hstates : C.States ((Check.judge j).run a).2 b :=
    ⟨hab.trees, hab.imports, C.judge_left hfades j hab.records⟩
  have hquiet := (hs ((Check.judge j).run a).2).quiet (hfine hfades)
  have hdelicate := hquiet.judgements j (List.mem_append_right _ List.mem_cons_self)
  exact (h hdelicate hnames).2 _ _ hstates hfine

theorem judge_right {x y : Check α} (hfades : C.fades = true) (j : Judgement) (h : C.Rel L Q x y) :
    C.Rel L Q x (Check.judge j >>= fun _ => y) := by
  intro hnames
  obtain ⟨hs, hrel⟩ := h hnames
  refine ⟨hs, fun a b hab hfine => ?_⟩
  exact hrel a ((Check.judge j).run b).2
    ⟨hab.trees, hab.imports, C.judge_right hfades j hab.records⟩ hfine

end Rel

end Comparison

end ClassLang
