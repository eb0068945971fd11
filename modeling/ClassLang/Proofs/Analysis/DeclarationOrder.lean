import ClassLang.Proofs.Analysis.Declarations
import Mathlib.Data.Multiset.AddSub

/-!
# The order of declarations

Names are declared before any declaration is filled in, so a declaration may refer to one that stands
behind it. There are two exceptions. Filling a class in sets its methods, so a method that is declared
outside of it counts only behind the class; and a class template is known as a type only when it has
been filled in, so its bare name is one only behind it. Orders in which no statement waits for a later
one in this way all lead to the same declarations and the same findings.
-/

namespace ClassLang

/-! ## Reordering -/

/-- Steps that may be taken in either order when each may stand before the other lead to related
states from all lists with the same elements, as long as every element may stand before the later
ones. -/
theorem foldl_perm {σ β : Type} (step : σ → β → σ) (r : σ → σ → Prop) (before : β → β → Prop)
    (hsymm : ∀ {s t}, r s t → r t s) (htrans : ∀ {s t u}, r s t → r t u → r s u)
    (hstep : ∀ x {s t}, r s t → r (step s x) (step t x))
    (hcomm : ∀ {x y s}, before x y → before y x → r s s → r (step (step s x) y) (step (step s y) x))
    {p q : List β} (hperm : p.Perm q) (hp : p.Pairwise before) (hq : q.Pairwise before) {s t : σ}
    (hst : r s t) : r (p.foldl step s) (q.foldl step t) := by
  have hfold : ∀ (l : List β) {s t : σ}, r s t → r (l.foldl step s) (l.foldl step t) := by
    intro l
    induction l with
    | nil => exact fun h => h
    | cons x l ih => exact fun h => ih (hstep x h)
  -- An element can be taken first if it and all that stand before it may change places.
  have hfirst : ∀ (x : β) (l rest : List β), (∀ y ∈ l, before x y ∧ before y x) → ∀ {s : σ}, r s s →
      r ((x :: (l ++ rest)).foldl step s) ((l ++ x :: rest).foldl step s) := by
    intro x l rest
    induction l with
    | nil => exact fun _ _ hs => hfold (x :: rest) hs
    | cons y l ih =>
      intro hl s hs
      have hxy := hl y List.mem_cons_self
      have hswap := hfold (l ++ rest) (hcomm hxy.1 hxy.2 hs)
      exact htrans hswap (ih (fun z hz => hl z (List.mem_cons_of_mem y hz)) (hstep y hs))
  induction p generalizing q s t with
  | nil =>
    rw [List.nil_perm.1 hperm]
    exact hst
  | cons x p ih =>
    obtain ⟨l, rest, rfl⟩ := List.append_of_mem (hperm.subset List.mem_cons_self)
    have hrest : p.Perm (l ++ rest) := (hperm.trans List.perm_middle).cons_inv
    have hlate := List.pairwise_append.1 hq
    have hclear : ∀ y ∈ l, before x y ∧ before y x := by
      intro y hy
      refine ⟨List.rel_of_pairwise_cons hp (hrest.symm.subset (List.mem_append_left _ hy)), ?_⟩
      exact hlate.2.2 y hy x List.mem_cons_self
    have hq' : (l ++ rest).Pairwise before :=
      hq.sublist (List.Sublist.append_left (List.sublist_cons_self x rest) l)
    have htt : r t t := htrans (hsymm hst) hst
    exact htrans (ih hrest hp.of_cons hq' (hstep x hst)) (hfirst x l rest hclear htt)

/-! ## States that agree -/

/-- What there is to know of a class when the order of its methods does not count. -/
def ClassInfo.summary (c : ClassInfo) : ClassInfo × Multiset MethodInfo :=
  ({ c with methods := [] }, c.methods)

/-- What there is to know of a symbol when the order of methods does not count. -/
def Symbol.summary (s : Symbol) : Symbol × Option (ClassInfo × Multiset MethodInfo) :=
  ({ s with class? := none }, s.class?.map ClassInfo.summary)

/-- What there is to know of a name of the global scope. -/
def ScopeTree.summary? (t : ScopeTree) (name : String) :
    Option (Symbol × Option (ClassInfo × Multiset MethodInfo)) :=
  (t.global? name).map Symbol.summary

/-- Outside of all bodies, with the same symbols. -/
structure ScopeTree.Agrees (t t' : ScopeTree) : Prop where
  top : t.AtTop
  top' : t'.AtTop
  summary : ∀ name, t.summary? name = t'.summary? name

/-- The same symbols, and the same findings in any order. -/
structure Analysis.Agrees (a b : Analysis) : Prop where
  scopes : a.scopes.Agrees b.scopes
  findings : a.findings.Perm b.findings

namespace Analysis.Agrees

variable {a b c : Analysis}

theorem symm (h : a.Agrees b) : b.Agrees a :=
  ⟨⟨h.scopes.top', h.scopes.top, fun name => (h.scopes.summary name).symm⟩, h.findings.symm⟩

theorem trans (h : a.Agrees b) (h' : b.Agrees c) : a.Agrees c :=
  ⟨⟨h.scopes.top, h'.scopes.top', fun name => (h.scopes.summary name).trans (h'.scopes.summary name)⟩,
    h.findings.trans h'.findings⟩

end Analysis.Agrees

/-! ## Fillings -/

namespace Filling

/-- The change in terms of summaries. -/
def applySummary : Filling → Symbol × Option (ClassInfo × Multiset MethodInfo) →
    Symbol × Option (ClassInfo × Multiset MethodInfo)
  | members fields methods, (s, c?) => (s, c?.map fun c => ({ c.1 with fields }, methods))
  | method m, (s, c?) => (s, c?.map fun c => (c.1, c.2 + {m}))
  | f, (s, c?) => (f.apply s, c?)

theorem summary_apply (f : Filling) (s : Symbol) :
    (f.apply s).summary = f.applySummary s.summary := by
  cases f with
  | signature sig =>
    cases hkind : s.kind == .function with
    | true => simp [apply, applySummary, Symbol.summary, hkind, Symbol.withSignature]
    | false => simp [apply, applySummary, Symbol.summary, hkind]
  | members fields methods =>
    simp only [apply, Symbol.summary, applySummary]
    cases s.class? <;> rfl
  | method m =>
    simp only [apply, Symbol.summary, applySummary]
    cases s.class? <;> rfl
  | interface methods => rfl
  | template base signature? class? => rfl

/-- Two methods may come in either order. -/
theorem applySummary_comm {f f' : Filling} (h : f.isMethod = true) (h' : f'.isMethod = true)
    (s : Symbol × Option (ClassInfo × Multiset MethodInfo)) :
    f.applySummary (f'.applySummary s) = f'.applySummary (f.applySummary s) := by
  obtain ⟨s, c?⟩ := s
  cases f with
  | method m =>
    cases f' with
    | method m' =>
      cases c? with
      | none => rfl
      | some c =>
        simp only [applySummary, Option.map_some]
        rw [Multiset.add_assoc, Multiset.add_comm {m'}, ← Multiset.add_assoc]
    | _ => cases h'
  | _ => cases h

end Filling

/-! ## Filling in, in either order -/

namespace ScopeTree

variable {t t' : ScopeTree}

/-- What is known of a name when something is filled in. -/
theorem summary?_fill (t : ScopeTree) (m : String) (f : Filling) (name : String) :
    (t.fill (some (m, f))).summary? name =
      if name == m then (t.summary? name).map f.applySummary else t.summary? name := by
  rw [summary?, fill, global?_modifyGlobal]
  split
  · rw [summary?, Option.map_map, Option.map_map]
    refine congrArg (fun g => (t.global? name).map g) (funext fun s => ?_)
    exact f.summary_apply s
  · rfl

theorem Agrees.fill (h : t.Agrees t') (change? : Option (String × Filling)) :
    (t.fill change?).Agrees (t'.fill change?) := by
  refine ⟨h.top.fill _, h.top'.fill _, fun name => ?_⟩
  cases change? with
  | some c => rw [summary?_fill, summary?_fill, h.summary]
  | none => exact h.summary name

theorem Agrees.cases (h : t.Agrees t') (name : String) :
    t.global? name = none ∧ t'.global? name = none ∨
      ∃ s s', t.global? name = some s ∧ t'.global? name = some s' ∧ s.summary = s'.summary := by
  have hname := h.summary name
  rw [summary?, summary?] at hname
  cases hs : t.global? name with
  | none =>
    rw [hs, Option.map_none] at hname
    exact .inl ⟨rfl, Option.map_eq_none_iff.1 hname.symm⟩
  | some s =>
    rw [hs, Option.map_some] at hname
    obtain ⟨s', hs', heq⟩ := Option.map_eq_some_iff.1 hname.symm
    exact .inr ⟨s, s', rfl, hs', heq.symm⟩

/-- Statements see no more of a scope tree than the summaries of its names. -/
theorem Agrees.seesSame (h : t.Agrees t') (s : Stmt) : s.SeesSame t t' := by
  refine ⟨⟨fun n _ => ?_, fun n => ?_⟩, fun cls _ => ?_⟩
  · rw [typeNamed?, typeNamed?, h.top.resolve, h.top'.resolve]
    rcases h.cases n with ⟨hs, hs'⟩ | ⟨s, s', hs, hs', heq⟩
    · rw [hs, hs']
    · rw [hs, hs']
      exact congrArg (fun x => x.1.typeNamed? n) heq
  · rw [isTemplate?, isTemplate?, h.top.resolve, h.top'.resolve]
    rcases h.cases n with ⟨hs, hs'⟩ | ⟨s, s', hs, hs', heq⟩
    · rw [hs, hs']
    · rw [hs, hs']
      exact congrArg (fun x => some (x.1.kind == .template)) heq
  · rw [classInfo?, classInfo?]
    rcases h.cases cls with ⟨hs, hs'⟩ | ⟨s, s', hs, hs', heq⟩
    · rw [hs, hs']
    · have hisNone : ∀ s : Symbol, s.classInfo?.isNone =
          (s.summary.2.isNone && (s.summary.1.template?.bind TemplateInfo.class?).isNone) := by
        intro s
        rw [Symbol.classInfo?, Symbol.summary]
        cases s.class? <;> simp
      rw [hs, hs', Option.bind_some, Option.bind_some, hisNone, hisNone, heq]

end ScopeTree

namespace Stmt

/-- Whether a statement has to stand behind another one: a method behind what its receiver's type
names, and a bare name of a template behind the template. -/
def waitsFor (s t : Stmt) : Bool :=
  match Check.declaredSymbol? t with
  | some d =>
    s.receiverClass? == some d.name || d.kind == .template && s.bareNames.contains d.name
  | none => false

variable {s u : Stmt} {t : ScopeTree}

/-- A statement sees nothing of what another one fills in that it does not wait for. -/
theorem SeesSame.of_writes (ht : t.AtTop) {m : String} {f : Filling} (hw : u.Writes m f)
    (hwaits : s.waitsFor u = false) : s.SeesSame t (t.fill (some (m, f))) := by
  have hglobal := t.global?_modifyGlobal m f.apply
  have ht' := ht.modifyGlobal m f.apply
  have htemplate : f.isTemplate = true → s.receiverClass? ≠ some m ∧ m ∉ s.bareNames := by
    intro hf
    cases hw with
    | method _ hmethod =>
      rw [Filling.isTemplate_of_isMethod hmethod] at hf
      cases hf
    | own d hd hname hkind =>
      subst hname
      obtain hf' | hkind := hkind
      · rw [hf] at hf'
        cases hf'
      · simpa [waitsFor, hd, hkind] using hwaits
  refine ⟨⟨fun n hn => ?_, fun n => ?_⟩, fun cls hcls => ?_⟩
  · rw [ScopeTree.typeNamed?, ScopeTree.typeNamed?, ht.resolve, ScopeTree.fill, ht'.resolve, hglobal]
    split
    next heq =>
      have hf : f.isTemplate = false := by
        rw [← Bool.not_eq_true]
        exact fun hf => (htemplate hf).2 (eq_of_beq heq ▸ hn)
      cases t.global? n with
      | none => rfl
      | some d => exact (f.typeNamed?_apply hf d n).symm
    next => rfl
  · rw [ScopeTree.isTemplate?, ScopeTree.isTemplate?, ht.resolve, ScopeTree.fill, ht'.resolve,
      hglobal]
    split
    · cases t.global? n with
      | none => rfl
      | some d =>
        rw [Option.map_some, Option.map_some, Option.map_some, f.kind_apply]
    · rfl
  · rw [ScopeTree.classInfo?, ScopeTree.classInfo?, ScopeTree.fill, hglobal]
    split
    next heq =>
      have hf : f.isTemplate = false := by
        rw [← Bool.not_eq_true]
        exact fun hf => (htemplate hf).1 (eq_of_beq heq ▸ hcls)
      cases t.global? cls with
      | none => rfl
      | some d => exact (f.classInfo?_apply hf d).symm
    next => rfl

theorem SeesSame.of_fill (ht : t.Agrees t) {change? : Option (String × Filling)}
    (hw : ∀ m f, change? = some (m, f) → u.Writes m f) (hwaits : s.waitsFor u = false) :
    s.SeesSame t (t.fill change?) := by
  cases change? with
  | some c => exact .of_writes ht.top (hw c.1 c.2 rfl) hwaits
  | none => exact ht.seesSame s

end Stmt

namespace Check

variable {a b : Analysis} {s u : Stmt}

theorem agrees_filled (s : Stmt) (h : a.Agrees b) : (filled a s).Agrees (filled b s) := by
  obtain ⟨change?, fs, ha, hb, _⟩ := fills_of_seesSame s (h.scopes.seesSame s)
  rw [filled_eq ha, filled_eq hb]
  exact ⟨h.scopes.fill change?, h.findings.append_right fs⟩

/-- Of two statements neither waits for the other, and they declare different names. -/
structure Clear (s u : Stmt) : Prop where
  waits : s.waitsFor u = false
  names : ∀ d, declaredSymbol? s = some d → ∀ d', declaredSymbol? u = some d' → d.name ≠ d'.name

/-- Fillings of one name by two statements that are clear of each other are methods. -/
theorem Clear.isMethod (h : Clear s u) (h' : Clear u s) {m : String} {f f' : Filling}
    (hw : s.Writes m f) (hw' : u.Writes m f') : f.isMethod = true ∧ f'.isMethod = true := by
  cases hw with
  | method hclass hf =>
    cases hw' with
    | method _ hf' => exact ⟨hf, hf'⟩
    | own d hd hname _ => simpa [Stmt.waitsFor, hd, hclass, hname] using h.waits
  | own d hd hname _ =>
    cases hw' with
    | method hclass _ => simpa [Stmt.waitsFor, hd, hclass, hname] using h'.waits
    | own d' hd' hname' _ => exact absurd (hname.trans hname'.symm) (h.names d hd d' hd')

theorem fill_comm {t : ScopeTree} (ht : t.AtTop) {c? c'? : Option (String × Filling)}
    (h : ∀ m f f', c? = some (m, f) → c'? = some (m, f') → f.isMethod = true ∧ f'.isMethod = true) :
    ((t.fill c?).fill c'?).Agrees ((t.fill c'?).fill c?) := by
  refine ⟨(ht.fill _).fill _, (ht.fill _).fill _, fun name => ?_⟩
  match c?, c'? with
  | none, _ => rfl
  | some _, none => rfl
  | some (m, f), some (m', f') =>
    simp only [ScopeTree.summary?_fill]
    by_cases hm : name = m
    · subst hm
      by_cases hm' : name = m'
      · subst hm'
        obtain ⟨hf, hf'⟩ := h name f f' rfl rfl
        simp only [beq_self_eq_true, if_true, Option.map_map]
        refine congrArg (fun g => (t.summary? name).map g) (funext fun x => ?_)
        exact Filling.applySummary_comm hf' hf x
      · simp [hm']
    · simp [hm]

/-- Each of two statements that are clear of each other does the same before and after the other. -/
theorem agrees_filled_filled (ha : a.Agrees a) (h : Clear s u) (h' : Clear u s) :
    (filled (filled a s) u).Agrees (filled (filled a u) s) := by
  have htop := ha.scopes.top
  obtain ⟨cu?, gs, hu, _, hwu⟩ := fills_of_seesSame u (ha.scopes.seesSame u)
  obtain ⟨cs?, fs, hs, hs', hws⟩ :=
    fills_of_seesSame s (Stmt.SeesSame.of_fill ha.scopes hwu h.waits)
  obtain ⟨cu'?, gs', hu₂, hu', hwu'⟩ :=
    fills_of_seesSame u (Stmt.SeesSame.of_fill ha.scopes hws h'.waits)
  have hfirst : filled (filled a s) u =
      ⟨(a.scopes.fill cs?).fill cu'?, a.findings ++ fs ++ gs', a.imports, a.judgements⟩ := by
    rw [filled_eq hs]
    exact filled_eq hu'
  have hsame : (⟨a.scopes.fill cu?, a.findings ++ gs, a.imports, a.judgements⟩ : Analysis) =
      ⟨a.scopes.fill cu'?, a.findings ++ gs', a.imports, a.judgements⟩ := by
    rw [← filled_eq hu, filled_eq hu₂]
  have hsecond : filled (filled a u) s =
      ⟨(a.scopes.fill cu'?).fill cs?, a.findings ++ gs' ++ fs, a.imports, a.judgements⟩ := by
    rw [filled_eq hu₂]
    injection hsame with hscopes
    rw [hscopes] at hs'
    exact filled_eq hs'
  rw [hfirst, hsecond]
  refine ⟨fill_comm htop fun m f f' hcs hcu => ?_, ?_⟩
  · exact h.isMethod h' (hws m f hcs) (hwu' m f' hcu)
  · rw [List.append_assoc, List.append_assoc]
    exact List.Perm.append_left _ List.perm_append_comm

/-! ## Declaring names, in either order -/

theorem agrees_replace {t t' : ScopeTree} (h : t.Agrees t') (d : Symbol) :
    (t.replace d).Agrees (t'.replace d) := by
  refine ⟨h.top.replace d, h.top'.replace d, fun name => ?_⟩
  have hname := h.summary name
  rw [ScopeTree.summary?, ScopeTree.summary?] at hname ⊢
  rw [h.top.global?_replace, h.top'.global?_replace]
  split
  · rfl
  · exact hname

theorem taken?_of_agrees {t t' : ScopeTree} (h : t.Agrees t') (name : String) :
    t.taken? name = t'.taken? name := by
  rw [ScopeTree.taken?, ScopeTree.taken?]
  rcases h.cases name with ⟨hs, hs'⟩ | ⟨s, s', hs, hs', heq⟩
  · rw [hs, hs']
  · have hspan : s.span = s'.span := congrArg (fun x => x.1.span) heq
    rw [hs, hs', Option.bind_some, Option.bind_some, hspan]

theorem agrees_declared (s : Stmt) (h : a.Agrees b) : (declared a s).Agrees (declared b s) := by
  cases hs : declaredSymbol? s with
  | none =>
    rw [declared_of_none hs, declared_of_none hs]
    exact h
  | some d =>
    rw [declared_of_some hs h.scopes.top, declared_of_some hs h.scopes.top',
      taken?_of_agrees h.scopes]
    cases b.scopes.taken? d.name with
    | some first => exact ⟨h.scopes, h.findings.append_right _⟩
    | none => exact ⟨agrees_replace h.scopes d, h.findings⟩

theorem replace_comm {t : ScopeTree} (ht : t.AtTop) {d d' : Symbol} (hne : d.name ≠ d'.name) :
    ((t.replace d).replace d').Agrees ((t.replace d').replace d) := by
  refine ⟨(ht.replace d).replace d', (ht.replace d').replace d, fun name => ?_⟩
  rw [ScopeTree.summary?, ScopeTree.summary?, (ht.replace d).global?_replace,
    (ht.replace d').global?_replace, ht.global?_replace, ht.global?_replace]
  by_cases hd : name = d.name
  · simp [hd, hne]
  · simp [hd]

theorem agrees_declared_declared (ha : a.Agrees a) (h : Clear s u) :
    (declared (declared a s) u).Agrees (declared (declared a u) s) := by
  have htop := ha.scopes.top
  cases hs : declaredSymbol? s with
  | none =>
    rw [declared_of_none hs, declared_of_none hs]
    exact agrees_declared u ha
  | some d =>
    cases hu : declaredSymbol? u with
    | none =>
      rw [declared_of_none hu, declared_of_none hu]
      exact agrees_declared s ha
    | some d' =>
      have hne := h.names d hs d' hu
      have hus := taken?_replace htop d hne
      have hsu := taken?_replace htop d' hne.symm
      rw [declared_of_some hu (agrees_declared s ha).scopes.top,
        declared_of_some hs (agrees_declared u ha).scopes.top, declared_of_some hs htop,
        declared_of_some hu htop]
      cases hd : a.scopes.taken? d.name with
      | some first =>
        cases hd' : a.scopes.taken? d'.name with
        | some first' =>
          simp only [hd, List.append_assoc]
          exact ⟨ha.scopes, .append_left _ (.swap _ _ [])⟩
        | none =>
          simp only [hd, hsu]
          exact ⟨agrees_replace ha.scopes d', .refl _⟩
      | none =>
        cases hd' : a.scopes.taken? d'.name with
        | some first' =>
          simp only [hd, hd', hus]
          exact ⟨agrees_replace ha.scopes d, .refl _⟩
        | none =>
          simp only [hd, hd', hus, hsu]
          exact ⟨replace_comm htop hne, .refl _⟩

end Check

/-- No order of declarations in which no statement waits for a later one is different from another:
every global name has the same symbol, but for the order of the methods of a class, and the same
findings are made. -/
theorem agrees_collectDeclarations (p q : Program) (hperm : p.stmts.Perm q.stmts)
    (hnames : (p.stmts.filterMap fun s => (Check.declaredSymbol? s).map Symbol.name).Nodup)
    (hp : p.stmts.Pairwise fun s u => s.waitsFor u = false)
    (hq : q.stmts.Pairwise fun s u => s.waitsFor u = false) :
    (∀ name, (((Check.collectDeclarations p).run .initial).2.scopes.global? name).map
        Symbol.summary =
      (((Check.collectDeclarations q).run .initial).2.scopes.global? name).map Symbol.summary) ∧
    ((Check.collectDeclarations p).run .initial).2.findings.Perm
      ((Check.collectDeclarations q).run .initial).2.findings := by
  have hclear : ∀ {l : List Stmt},
      (l.filterMap fun s => (Check.declaredSymbol? s).map Symbol.name).Nodup →
      l.Pairwise (fun s u => s.waitsFor u = false) → l.Pairwise Check.Clear := by
    intro l hnodup hwaits
    refine (hwaits.and (List.pairwise_filterMap.1 hnodup)).imp fun h => ⟨h.1, ?_⟩
    intro d hd d' hd'
    exact h.2 d.name (by rw [hd]; rfl) d'.name (by rw [hd']; rfl)
  have hp := hclear hnames hp
  have hq := hclear ((hperm.filterMap _).nodup_iff.1 hnames) hq
  have hinitial : Analysis.initial.Agrees .initial :=
    ⟨⟨⟨by decide +kernel, by decide +kernel⟩, ⟨by decide +kernel, by decide +kernel⟩, fun _ => rfl⟩, .refl _⟩
  have hdeclared := foldl_perm Check.declared Analysis.Agrees Check.Clear Analysis.Agrees.symm
    Analysis.Agrees.trans (fun s _ _ => Check.agrees_declared s)
    (fun h _ ha => Check.agrees_declared_declared ha h) hperm hp hq hinitial
  have hfilled := foldl_perm Check.filled Analysis.Agrees Check.Clear Analysis.Agrees.symm
    Analysis.Agrees.trans (fun s _ _ => Check.agrees_filled s)
    (fun h h' ha => Check.agrees_filled_filled ha h h') hperm hp hq hdeclared
  rw [Check.run_collectDeclarations, Check.run_collectDeclarations]
  exact ⟨hfilled.scopes.summary, hfilled.findings⟩

/-- A class that refers to a class behind it, a method of the first one, and a class template with a
function that uses its bare name. -/
def forwardReferences : Program :=
  let type (name : String) : Option TypeExpr := some (.named ⟨name, {}⟩)
  let field (name ty : String) : Member := .field ⟨⟨name, {}⟩, type ty, none, false, {}, {}⟩
  let param (name ty : String) : Param := ⟨⟨name, {}⟩, type ty, {}⟩
  ⟨[.class_ ⟨⟨"List", {}⟩, none, [], [field "first" "Node"], {}⟩,
    .method ⟨param "l" "List", ⟨"head", {}⟩, [], type "Node", ⟨[], {}⟩, {}⟩,
    .class_ ⟨⟨"Node", {}⟩, none, [], [field "owner" "List"], {}⟩,
    .template [⟨"T", {}⟩] (.class_ ⟨⟨"Box", {}⟩, none, [], [field "value" "T"], {}⟩) {},
    .function ⟨⟨"open", {}⟩, [param "b" "Box"], type "Missing", ⟨[], {}⟩, {}, {}⟩], {}⟩

/-- The same with the template and the function in front. -/
def backwardReferences : Program :=
  ⟨forwardReferences.stmts.drop 3 ++ forwardReferences.stmts.take 3, {}⟩

theorem agrees_forwardReferences :
    (∀ name, (((Check.collectDeclarations forwardReferences).run .initial).2.scopes.global?
        name).map Symbol.summary =
      (((Check.collectDeclarations backwardReferences).run .initial).2.scopes.global? name).map
        Symbol.summary) ∧
    ((Check.collectDeclarations forwardReferences).run .initial).2.findings.Perm
      ((Check.collectDeclarations backwardReferences).run .initial).2.findings := by
  have hperm : (forwardReferences.stmts.take 3 ++ forwardReferences.stmts.drop 3).Perm
      backwardReferences.stmts := List.perm_append_comm
  rw [List.take_append_drop] at hperm
  exact agrees_collectDeclarations _ _ hperm (by decide) (by decide) (by decide)

end ClassLang
