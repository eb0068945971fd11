import ClassLang.Proofs.Analysis.Signatures

/-!
# Declarations that are rejected

Of two declarations of one name the second one is rejected: the symbol of the first one stays. But
declarations are filled in by name, and those that were rejected are no exception. What they fill in
does nothing to a symbol of another kind, and to one of their own kind it leaves what was known when
the name was declared (`Symbol.head`): the name, the position, the parent and the parameters stay,
while a signature and members are those of the declaration that is filled in last.
-/

namespace ClassLang

/-! ## Changes that change nothing -/

theorem Table.insertEntry_of_lookup {α : Type} {name : String} {a : α} {l : List (String × α)}
    (h : l.lookup name = some a) : insertEntry name a l = l := by
  induction l with
  | nil => cases h
  | cons e l ih =>
    obtain ⟨k, b⟩ := e
    rw [List.lookup_cons] at h
    rw [insertEntry]
    split
    next hk =>
      rw [hk] at h
      rw [eq_of_beq hk, Option.some.inj h]
    next hk =>
      rw [Bool.eq_false_iff.2 hk] at h
      rw [ih h]

theorem Table.modify_eq_self {α : Type} {t : Table α} {name : String} {f : α → α}
    (h : ∀ a, t.find? name = some a → f a = a) : t.modify name f = t := by
  rw [modify]
  cases hfind : t.find? name with
  | none => rfl
  | some a =>
    show t.insert name (f a) = t
    rw [h a hfind, insert, insertEntry_of_lookup hfind]

theorem ScopeTree.modifyGlobal_eq_self {t : ScopeTree} {name : String} {f : Symbol → Symbol}
    (h : ∀ s, t.global? name = some s → f s = s) : t.modifyGlobal name f = t := by
  obtain ⟨scopes, current⟩ := t
  cases scopes with
  | nil => rfl
  | cons scope scopes =>
    have hscope : scope.symbols.modify name f = scope.symbols := Table.modify_eq_self h
    simp [modifyGlobal, hscope]

/-! ## Kinds of symbols -/

def Ty.isTemplate : Ty → Bool
  | .template .. => true
  | _ => false

/-- A symbol has only the tables of its kind. -/
structure Symbol.Fits (s : Symbol) : Prop where
  class_ : s.class?.isSome → s.kind = .class_
  interface : s.interface?.isSome → s.kind = .interface
  template : s.template?.isSome → s.kind = .template
  type : s.ty.isTemplate → s.kind = .template

/-- What is known of a symbol before it is filled in. -/
def Symbol.head (s : Symbol) : Symbol :=
  { s with
    ty := match s.kind, s.ty with
      | .function, _ => .unknown
      | _, .template n ps _ => .template n ps none
      | _, ty => ty
    signature? := if s.kind == .function then none else s.signature?
    class? := s.class?.map fun info => { info with fields := [], methods := [] }
    interface? := s.interface?.map fun info => { info with methods := [] }
    template? := s.template?.map fun info => { info with signature? := none, class? := none } }

namespace Filling

variable {s : Symbol}

theorem fits_apply (f : Filling) (h : s.Fits) : (f.apply s).Fits := by
  cases f with
  | signature sig =>
    rw [apply]
    split
    · exact ⟨h.class_, h.interface, h.template, fun hs => absurd hs Bool.false_ne_true⟩
    · exact h
  | members | method =>
    refine ⟨fun hs => h.class_ ?_, h.interface, h.template, h.type⟩
    rwa [apply, Option.isSome_map] at hs
  | interface =>
    refine ⟨h.class_, fun hs => h.interface ?_, h.template, h.type⟩
    rwa [apply, Option.isSome_map] at hs
  | template base signature? class? =>
    refine ⟨h.class_, h.interface, fun hs => h.template ?_, fun hs => h.type ?_⟩
    · rwa [apply, Option.isSome_map] at hs
    · revert hs
      simp only [apply]
      cases s.ty <;> exact id

/-- Symbols of another kind do not change. -/
theorem apply_of_ne (f : Filling) (h : s.Fits) (hne : f.kind ≠ s.kind) : f.apply s = s := by
  have hnone : ∀ {α : Type} {x? : Option α}, (x?.isSome → s.kind = f.kind) → x? = none := by
    intro α x? hx
    exact Option.not_isSome_iff_eq_none.1 fun hsome => hne (hx hsome).symm
  obtain ⟨name, _, ty, span, signature?, class?, interface?, template?, scope⟩ := s
  cases f with
  | signature sig => exact if_neg (by simpa [kind] using hne.symm)
  | members | method =>
    obtain rfl : class? = none := hnone h.class_
    rfl
  | interface =>
    obtain rfl : interface? = none := hnone h.interface
    rfl
  | template =>
    obtain rfl : template? = none := hnone h.template
    cases ty with
    | template => exact absurd (h.type rfl).symm hne
    | _ => rfl

/-- Only filling in a template changes whether it is one of classes. -/
theorem isClassTemplate_apply (f : Filling) (s : Symbol) : (f.apply s).isClassTemplate =
    match f with
    | template _ _ class? => s.template?.isSome && class?.isSome
    | _ => s.isClassTemplate := by
  cases f with
  | signature sig =>
    rw [apply]
    split <;> rfl
  | template base signature? class? =>
    simp only [apply, Symbol.isClassTemplate]
    cases s.template? <;> rfl
  | _ => rfl

theorem head_apply (f : Filling) (s : Symbol) : (f.apply s).head = s.head := by
  cases f with
  | signature sig =>
    rw [apply]
    split
    next hkind => simp [Symbol.head, Symbol.withSignature, eq_of_beq hkind]
    next => rfl
  | members | method | interface => simp [apply, Symbol.head, Function.comp_def]
  | template base signature? class? =>
    obtain ⟨name, kind, ty, span, sig?, class?, interface?, template?, scope⟩ := s
    cases ty <;> cases kind <;> simp [apply, Symbol.head, Function.comp_def]

end Filling

namespace Check

variable {a b : Analysis} {s : Stmt} {d : Symbol} {fs : List Filling} {n : String} {t t' : ScopeTree}

theorem fits_fillAll (fs : List Filling) {s : Symbol} (h : s.Fits) : (fillAll fs s).Fits := by
  induction fs generalizing s with
  | nil => exact h
  | cons f fs ih => exact ih (f.fits_apply h)

theorem head_fillAll (fs : List Filling) (s : Symbol) : (fillAll fs s).head = s.head := by
  induction fs generalizing s with
  | nil => rfl
  | cons f fs ih => exact (ih _).trans (f.head_apply s)

theorem fits_declaredSymbol? (h : declaredSymbol? s = some d) : d.Fits := by
  cases s with
  | class_ =>
    cases h
    exact ⟨fun _ => rfl, nofun, nofun, nofun⟩
  | interface =>
    cases h
    exact ⟨nofun, fun _ => rfl, nofun, nofun⟩
  | function =>
    cases h
    exact ⟨nofun, nofun, nofun, nofun⟩
  | template params body span =>
    obtain ⟨n, _, rfl⟩ := Option.map_eq_some_iff.1 h
    exact ⟨nofun, nofun, fun _ => rfl, fun _ => rfl⟩
  | _ => cases h

/-- All global symbols have only the tables of their kinds. -/
def AllFit (t : ScopeTree) : Prop := ∀ n s, t.global? n = some s → s.Fits

theorem allFit_initial : AllFit Analysis.initial.scopes := by
  have hall : (Analysis.initial.scopes.scopes.all fun scope => scope.symbols.values.all fun s =>
      s.class?.isNone && s.interface?.isNone && s.template?.isNone && !s.ty.isTemplate) = true := by
    decide +kernel
  intro n s h
  rw [ScopeTree.global?, ScopeTree.lookupIn] at h
  obtain ⟨scope, hscope, hs⟩ := Option.bind_eq_some_iff.1 h
  have hscope := List.all_eq_true.1 hall scope (List.mem_of_getElem? hscope)
  have hs := List.all_eq_true.1 hscope s (Table.mem_values_of_find? hs)
  simp only [Bool.and_eq_true, Option.isNone_iff_eq_none, Bool.not_eq_true'] at hs
  obtain ⟨⟨⟨hclass, hinterface⟩, htemplate⟩, htype⟩ := hs
  exact ⟨by simp [hclass], by simp [hinterface], by simp [htemplate], by simp [htype]⟩

theorem allFit_declared (ha : a.scopes.AtTop) (h : AllFit a.scopes) (s : Stmt) :
    AllFit (declared a s).scopes := by
  cases hs : declaredSymbol? s with
  | none => rwa [declared_of_none hs]
  | some d =>
    rw [declared_of_some hs ha]
    cases a.scopes.taken? d.name with
    | some first => exact h
    | none =>
      intro n s' hs'
      replace hs' : (a.scopes.replace d).global? n = some s' := hs'
      rw [ha.global?_replace] at hs'
      split at hs'
      · obtain rfl := Option.some.inj hs'
        have hd := fits_declaredSymbol? hs
        exact ⟨hd.class_, hd.interface, hd.template, hd.type⟩
      · exact h n s' hs'

theorem allFit_foldl_declared (l : List Stmt) (ha : a.scopes.AtTop) (h : AllFit a.scopes) :
    AllFit (l.foldl declared a).scopes := by
  induction l generalizing a with
  | nil => exact h
  | cons s l ih => exact ih (atTop_declared ha s) (allFit_declared ha h s)

/-- All symbols fit while declarations are filled in. -/
theorem allFit_seen (p : Program) (before : List Stmt) : AllFit (Clean.seen p before).scopes := by
  have hdeclared := allFit_foldl_declared p.stmts atTop_initial allFit_initial
  have htop := atTop_foldl_declared p.stmts atTop_initial
  intro n s hs
  obtain ⟨fs, hfs, -⟩ := (fillsIn_foldl_filled before htop).symbols n
  obtain ⟨s', hs', rfl⟩ := Option.map_eq_some_iff.1 (hfs.symm.trans hs)
  exact fits_fillAll fs (hdeclared n s' hs')

/-! ## Only the scope tree counts -/

theorem scopes_declared (ha : a.scopes.AtTop) (h : a.scopes = b.scopes) (s : Stmt) :
    (declared a s).scopes = (declared b s).scopes := by
  cases hs : declaredSymbol? s with
  | none => rwa [declared_of_none hs, declared_of_none hs]
  | some d =>
    rw [declared_of_some hs ha, declared_of_some hs (h ▸ ha), ← h]
    cases a.scopes.taken? d.name <;> rfl

theorem scopes_foldl_declared (l : List Stmt) (ha : a.scopes.AtTop) (h : a.scopes = b.scopes) :
    (l.foldl declared a).scopes = (l.foldl declared b).scopes := by
  induction l generalizing a b with
  | nil => exact h
  | cons s l ih => exact ih (atTop_declared ha s) (scopes_declared ha h s)

theorem scopes_filled (h : a.scopes = b.scopes) (s : Stmt) :
    (filled a s).scopes = (filled b s).scopes := by
  obtain ⟨change?, fs, hfills, -, -⟩ := fills_of_seesSame s (Stmt.SeesSame.refl s a.scopes)
  rw [filled_eq hfills, filled_eq (h ▸ hfills)]
  exact congrArg (ScopeTree.fill · change?) h

theorem scopes_foldl_filled (l : List Stmt) (h : a.scopes = b.scopes) :
    (l.foldl filled a).scopes = (l.foldl filled b).scopes := by
  induction l generalizing a b with
  | nil => exact h
  | cons s l ih => exact ih (scopes_filled h s)

/-! ## What a rejected declaration fills in -/

/-- A statement declares a name behind others that took it, which is reported. -/
def Rejected (before : List Stmt) (s : Stmt) (d : Symbol) : Prop :=
  declaredSymbol? s = some d ∧ ∃ first,
    (declared (before.foldl declared .initial) s).findings =
      (before.foldl declared .initial).findings ++ [⟨.redeclared d.name first, d.span⟩]

theorem rejected_iff {before : List Stmt} : Rejected before s d ↔ declaredSymbol? s = some d ∧
    ∃ first, (before.foldl declared .initial).scopes.taken? d.name = some first := by
  refine and_congr_right fun hs => ?_
  rw [declared_of_some hs (atTop_foldl_declared before atTop_initial)]
  cases (before.foldl declared .initial).scopes.taken? d.name with
  | none => simp
  | some first => exact ⟨fun _ => ⟨first, rfl⟩, fun _ => ⟨first, rfl⟩⟩

/-- What is rejected leaves the scope tree as it is, and its name has a symbol. -/
theorem Rejected.keeps {before : List Stmt} (h : Rejected before s d) :
    (declared (before.foldl declared .initial) s).scopes =
        (before.foldl declared .initial).scopes ∧
      ((before.foldl declared .initial).scopes.global? d.name).isSome := by
  obtain ⟨hs, first, htaken⟩ := rejected_iff.1 h
  rw [declared_of_some hs (atTop_foldl_declared before atTop_initial), htaken]
  obtain ⟨s, hs, -⟩ := Option.bind_eq_some_iff.1 htaken
  exact ⟨rfl, Option.isSome_of_eq_some hs⟩

section

variable {s : Symbol} {f : Filling} {fs fs' : List Filling}

/-- Of a symbol that is filled in only the class of a template counts for its name as a type. -/
theorem typeNamed?_fillAll (h : s.Fits)
    (hclass : (fillAll fs s).isClassTemplate = (fillAll fs' s).isClassTemplate) (name : String) :
    (fillAll fs s).typeNamed? name = (fillAll fs' s).typeNamed? name := by
  have hty : s.kind ≠ .function → s.kind ≠ .template → ∀ fs, (fillAll fs s).ty = s.ty := by
    intro hfunction htemplate fs
    refine ty_fillAll fs hfunction fun n ps b hty => htemplate (h.type ?_)
    rw [hty]
    rfl
  rw [Symbol.typeNamed?, Symbol.typeNamed?, kind_fillAll, kind_fillAll]
  cases hkind : s.kind with
  | class_ | interface | typeParameter =>
    rw [hkind] at hty
    simp only [hty (by decide) (by decide)]
  | template => simp only [hclass]
  | _ => rfl

theorem classInfo?_fillAll
    (hclass : (fillAll fs s).isClassTemplate = (fillAll fs' s).isClassTemplate) :
    (fillAll fs s).classInfo?.isNone = (fillAll fs' s).classInfo?.isNone := by
  have hinfo : ∀ s : Symbol, s.classInfo?.isNone = (s.head.class?.isNone && !s.isClassTemplate) := by
    intro s
    rw [Symbol.classInfo?, Symbol.isClassTemplate, Symbol.head]
    cases s.class? <;> simp
  rw [hinfo, hinfo, head_fillAll, head_fillAll, hclass]

/-- Whether a template is one of classes is settled by the last filling. -/
theorem isClassTemplate_fillAll (f : Filling)
    (hclass : (fillAll fs s).isClassTemplate = (fillAll fs' s).isClassTemplate) :
    (fillAll (fs ++ [f]) s).isClassTemplate = (fillAll (fs' ++ [f]) s).isClassTemplate := by
  have htemplate : ∀ fs, (fillAll fs s).template?.isSome = s.template?.isSome := by
    intro fs
    have hhead := congrArg (fun s => s.template?.isSome) (head_fillAll fs s)
    simpa [Symbol.head] using hhead
  have happend : ∀ fs, fillAll (fs ++ [f]) s = f.apply (fillAll fs s) := fun fs => by
    simp [fillAll]
  rw [happend, happend, f.isClassTemplate_apply, f.isClassTemplate_apply, htemplate, htemplate,
    hclass]

/-- Two scope trees that differ in one name. In the first one a filling was made that is missing in
the second one; statements behind it do not see that. -/
structure Beside (n : String) (s : Symbol) (f : Filling) (t t' : ScopeTree) : Prop where
  top : t.AtTop
  top' : t'.AtTop
  others : ∀ name, name ≠ n → t.global? name = t'.global? name
  own : ∃ fs, t.global? n = some (fillAll (f :: fs) s) ∧ t'.global? n = some (fillAll fs s) ∧
    (fillAll (f :: fs) s).isClassTemplate = (fillAll fs s).isClassTemplate

namespace Beside

theorem seesSame (h : Beside n s f t t') (hs : s.Fits) (u : Stmt) : u.SeesSame t t' := by
  obtain ⟨fs, hn, hn', hclass⟩ := h.own
  refine ⟨⟨fun name _ => ?_, fun name => ?_⟩, fun name _ => ?_⟩
  · rw [ScopeTree.typeNamed?, ScopeTree.typeNamed?, h.top.resolve, h.top'.resolve]
    by_cases hname : name = n
    · subst hname
      rw [hn, hn']
      exact typeNamed?_fillAll hs hclass name
    · rw [h.others name hname]
  · rw [ScopeTree.isTemplate?, ScopeTree.isTemplate?, h.top.resolve, h.top'.resolve]
    by_cases hname : name = n
    · subst hname
      rw [hn, hn', Option.map_some, Option.map_some, kind_fillAll, kind_fillAll]
    · rw [h.others name hname]
  · rw [ScopeTree.classInfo?, ScopeTree.classInfo?]
    by_cases hname : name = n
    · subst hname
      rw [hn, hn']
      exact classInfo?_fillAll hclass
    · rw [h.others name hname]

theorem fill (h : Beside n s f t t') (change? : Option (String × Filling)) :
    Beside n s f (t.fill change?) (t'.fill change?) := by
  refine ⟨h.top.fill change?, h.top'.fill change?, fun name hname => ?_, ?_⟩
  · cases change? with
    | none => exact h.others name hname
    | some c =>
      rw [ScopeTree.fill, ScopeTree.fill, ScopeTree.global?_modifyGlobal,
        ScopeTree.global?_modifyGlobal, h.others name hname]
  · obtain ⟨fs, hn, hn', hclass⟩ := h.own
    cases change? with
    | none => exact ⟨fs, hn, hn', hclass⟩
    | some c =>
      obtain ⟨m, g⟩ := c
      simp only [ScopeTree.fill, ScopeTree.global?_modifyGlobal, hn, hn']
      split
      · refine ⟨fs ++ [g], ?_, ?_, isClassTemplate_fillAll g hclass⟩ <;> simp [fillAll]
      · exact ⟨fs, rfl, rfl, hclass⟩

theorem foldl_filled (hs : s.Fits) (l : List Stmt) {a b : Analysis}
    (h : Beside n s f a.scopes b.scopes) :
    Beside n s f (l.foldl filled a).scopes (l.foldl filled b).scopes := by
  induction l generalizing a b with
  | nil => exact h
  | cons u l ih =>
    obtain ⟨change?, gs, hfills, hfills', -⟩ := fills_of_seesSame u (h.seesSame hs u)
    refine ih ?_
    rw [filled_eq hfills, filled_eq hfills']
    exact h.fill change?

end Beside

end

/-! ## Programs without the rejected declaration -/

theorem atTop_seen (p : Program) (before : List Stmt) : (Clean.seen p before).scopes.AtTop :=
  (fillsIn_foldl_filled before (atTop_foldl_declared p.stmts atTop_initial)).top

theorem heads_collected (p : Program) (n : String) :
    ((collected p).scopes.global? n).map Symbol.head =
      ((p.stmts.foldl declared .initial).scopes.global? n).map Symbol.head := by
  have htop := atTop_foldl_declared p.stmts atTop_initial
  obtain ⟨fs, hfs, -⟩ := (fillsIn_foldl_filled p.stmts htop).symbols n
  rw [collected_eq, hfs, Option.map_map]
  exact congrArg (fun g => Option.map g _) (funext fun s => head_fillAll fs s)

theorem collected_append (before after : List Stmt) (span : Span) :
    collected ⟨before ++ after, span⟩ =
      after.foldl filled (Clean.seen ⟨before ++ after, span⟩ before) := by
  rw [collected_eq, List.foldl_append]
  rfl

theorem isSome_foldl_declared (l : List Stmt) (ha : a.scopes.AtTop)
    (h : (a.scopes.global? n).isSome) : ((l.foldl declared a).scopes.global? n).isSome := by
  induction l generalizing a with
  | nil => exact h
  | cons s l ih =>
    refine ih (atTop_declared ha s) ?_
    cases hs : declaredSymbol? s with
    | none => rwa [declared_of_none hs]
    | some d =>
      rw [declared_of_some hs ha]
      cases a.scopes.taken? d.name with
      | some first => exact h
      | none =>
        show ((a.scopes.replace d).global? n).isSome
        rw [ha.global?_replace]
        split
        · rfl
        · exact h

namespace Rejected

variable {before : List Stmt}

/-- A rejected name leaves no trace in the scope tree in which declarations are filled in. -/
theorem declared (h : Rejected before s d) (after : List Stmt) :
    ((before ++ s :: after).foldl Check.declared .initial).scopes =
      ((before ++ after).foldl Check.declared .initial).scopes := by
  have htop := atTop_foldl_declared before atTop_initial
  rw [List.foldl_append, List.foldl_append]
  exact scopes_foldl_declared after (h.keeps.1 ▸ htop) h.keeps.1

/-- There is a symbol of the name when the turn of the rejected declaration comes. -/
theorem original (h : Rejected before s d) (after : List Stmt) (span : Span) :
    ∃ s, (Clean.seen ⟨before ++ after, span⟩ before).scopes.global? d.name = some s := by
  have htop := atTop_foldl_declared (before ++ after) atTop_initial
  have hsome : (((before ++ after).foldl Check.declared .initial).scopes.global? d.name).isSome := by
    rw [List.foldl_append]
    exact isSome_foldl_declared after (atTop_foldl_declared before atTop_initial) h.keeps.2
  obtain ⟨s, hs⟩ := Option.isSome_iff_exists.1 hsome
  obtain ⟨fs, hfs, -⟩ := (fillsIn_foldl_filled before htop).symbols d.name
  exact ⟨fillAll fs s, hfs.trans (congrArg (Option.map (fillAll fs)) hs)⟩

end Rejected

/-- What comes of the declarations of a program `q` when a declaration of `d`'s name that is rejected
is added to it, which gives `p`. The original symbol is the one that stands in the way when that
declaration's turn to be filled in comes, and `f` is what it fills in. -/
structure Outlives (p q : Program) (d original : Symbol) (f : Filling) : Prop where
  heads : ∀ name, ((collected p).scopes.global? name).map Symbol.head =
    ((collected q).scopes.global? name).map Symbol.head
  /-- A declaration of another kind changes nothing at all. -/
  otherKind : original.kind ≠ d.kind → (collected p).scopes = (collected q).scopes
  /-- No other symbol changes, unless a template of functions is made one of classes, or back. -/
  others : (f.apply original).isClassTemplate = original.isClassTemplate →
    ∀ name, name ≠ d.name → (collected p).scopes.global? name = (collected q).scopes.global? name
  /-- What is filled in for the rejected declaration comes in front of what is filled in later. -/
  own : (f.apply original).isClassTemplate = original.isClassTemplate →
    ∃ fs, (collected p).scopes.global? d.name = some (fillAll (f :: fs) original) ∧
      (collected q).scopes.global? d.name = some (fillAll fs original)

/-- The symbol of a name outlives declarations of it that are rejected. -/
theorem outlives_rejected (before after : List Stmt) (span : Span) {u : Stmt} {d : Symbol}
    (h : Rejected before u d) : ∃ original f found,
      (Clean.seen ⟨before ++ after, span⟩ before).scopes.global? d.name = some original ∧
      u.Fills (Clean.seen ⟨before ++ after, span⟩ before).scopes (some (d.name, f)) found ∧
      Outlives ⟨before ++ u :: after, span⟩ ⟨before ++ after, span⟩ d original f := by
  obtain ⟨original, hn⟩ := h.original after span
  have hfits := allFit_seen ⟨before ++ after, span⟩ before _ _ hn
  have htop := atTop_seen ⟨before ++ after, span⟩ before
  obtain ⟨f, found, hf, -, hkind⟩ := fills_of_declaredSymbol? h.1
    (Stmt.SeesSame.refl u (Clean.seen ⟨before ++ after, span⟩ before).scopes)
  have hseen : (Clean.seen ⟨before ++ u :: after, span⟩ before).scopes =
      (Clean.seen ⟨before ++ after, span⟩ before).scopes :=
    scopes_foldl_filled before (h.declared after)
  have hfilled : (filled (Clean.seen ⟨before ++ u :: after, span⟩ before) u).scopes =
      (Clean.seen ⟨before ++ after, span⟩ before).scopes.fill (some (d.name, f)) := by
    rw [filled_eq (hseen ▸ hf), hseen]
  have hcollected : collected ⟨before ++ u :: after, span⟩ =
      after.foldl filled (filled (Clean.seen ⟨before ++ u :: after, span⟩ before) u) :=
    collected_append before (u :: after) span
  have hbeside : (f.apply original).isClassTemplate = original.isClassTemplate →
      Beside d.name original f (collected ⟨before ++ u :: after, span⟩).scopes
        (collected ⟨before ++ after, span⟩).scopes := by
    intro hclass
    rw [hcollected, collected_append]
    refine Beside.foldl_filled hfits after ⟨?_, htop, fun name hname => ?_, [], ?_, hn, hclass⟩
    · rw [hfilled]
      exact htop.fill _
    · rw [hfilled, ScopeTree.fill, ScopeTree.global?_modifyGlobal, if_neg (by simpa using hname)]
    · rw [hfilled, ScopeTree.fill, ScopeTree.global?_modifyGlobal, hn, if_pos (beq_self_eq_true _)]
      rfl
  refine ⟨original, f, found, hn, hf, ?_, fun hne => ?_, fun hclass => ?_, fun hclass => ?_⟩
  · intro name
    rw [heads_collected, heads_collected, h.declared after]
  · rw [hcollected, collected_append]
    refine scopes_foldl_filled after (hfilled.trans (ScopeTree.modifyGlobal_eq_self fun s hs => ?_))
    obtain rfl := Option.some.inj (hn.symm.trans hs)
    exact f.apply_of_ne hfits (hkind ▸ hne.symm)
  · exact (hbeside hclass).others
  · obtain ⟨fs, hp, hq, -⟩ := (hbeside hclass).own
    exact ⟨fs, hp, hq⟩

/-- A function of one integer. -/
def oneParameter : Stmt :=
  .function ⟨⟨"f", ⟨5, 6, 1, 6⟩⟩, [⟨⟨"a", {}⟩, some (.named ⟨"int", {}⟩), {}⟩],
    some (.named ⟨"int", {}⟩), ⟨[], {}⟩, {}, {}⟩

/-- A class with the name of the function. -/
def namesake : Class := ⟨⟨"f", ⟨6, 7, 2, 7⟩⟩, none, [], [], {}⟩

theorem outlives_rejected_namesake :
    Rejected [oneParameter] (.class_ namesake) (classSymbol namesake) ∧
      (collected ⟨[oneParameter, .class_ namesake], {}⟩).scopes =
        (collected ⟨[oneParameter], {}⟩).scopes := by
  have hrejected : Rejected [oneParameter] (.class_ namesake) (classSymbol namesake) :=
    rejected_iff.2 ⟨rfl, ⟨5, 6, 1, 6⟩, by decide +kernel⟩
  refine ⟨hrejected, ?_⟩
  obtain ⟨original, f, found, hn, -, h⟩ := outlives_rejected [oneParameter] [] {} hrejected
  have hkind : ((Clean.seen ⟨[oneParameter], {}⟩ [oneParameter]).scopes.global? "f").map
      Symbol.kind = some .function := by
    decide +kernel
  replace hkind : original.kind = .function := by
    rw [show (Clean.seen ⟨[oneParameter], {}⟩ [oneParameter]).scopes.global? "f" = some original
      from hn] at hkind
    exact Option.some.inj hkind
  exact h.otherKind fun heq => nomatch hkind.symm.trans heq

/-- Of two functions the second one is rejected, but the symbol gets its parameters. -/
example :
    let arity (p : Program) := ((collected p).scopes.global? "f").bind fun s =>
      s.signature?.map (·.params.length)
    let again : Stmt := .function ⟨⟨"f", ⟨6, 7, 2, 6⟩⟩, [], none, ⟨[], {}⟩, {}, {}⟩
    arity ⟨[oneParameter], {}⟩ = some 1 ∧ arity ⟨[oneParameter, again], {}⟩ = some 0 := by
  decide +kernel

end Check

end ClassLang
