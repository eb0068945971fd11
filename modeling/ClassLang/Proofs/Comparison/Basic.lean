import ClassLang.Proofs.Analysis.Nesting
import ClassLang.Proofs.Analysis.Reading
import ClassLang.Proofs.Comparison.Blur
import ClassLang.Proofs.Comparison.Chain

/-!
# Two analyses side by side

A comparison says how the states of two analyses of one program, a left and a right one, are related.
Their scope trees have the same shape, and a name stands for the same on both sides, but for two
differences: names that are set apart are undefined on the left and unknown variables of the global
scope on the right, and stored values may have faded on the right, which makes their types unknown.
How the findings on one side determine those on the other is left to the comparison.
-/

namespace ClassLang

namespace ScopeTree

theorem count_push (t : ScopeTree) (k : ScopeKind) : (t.push k).count = t.count + 1 := by
  simp [count, push]

theorem count_replace (t : ScopeTree) (d : Symbol) : (t.replace d).count = t.count := by
  simp [count, replace]

theorem count_modifyGlobal (t : ScopeTree) (n : String) (f : Symbol → Symbol) :
    (t.modifyGlobal n f).count = t.count := by
  simp [count, modifyGlobal]

theorem get?_modifyGlobal (t : ScopeTree) (n : String) (f : Symbol → Symbol) (i : Nat) :
    (t.modifyGlobal n f).get? i = (t.get? i).map fun s =>
      if 0 = i then { s with symbols := s.symbols.modify n f } else s := by
  rw [get?, modifyGlobal, List.getElem?_modify]
  rfl

end ScopeTree

/-! ## What is noted -/

/-- What an analysis has noted: its findings and the questions that it has decided. -/
structure Record where
  findings : List Finding
  judgements : List Judgement

def Analysis.record (a : Analysis) : Record := ⟨a.findings, a.judgements⟩

/-- A question whose answer may depend on more than what wildcards leave open: an integer meets a
floating-point number, an element has a type with types in it, or a function without a result returns
the value of another one. -/
def Judgement.isDelicate : Judgement → Bool
  | name _ => false
  | binary _ l r => l.mixes r
  | compared _ t => t.isCompound
  | returned t => t.isVoid

namespace Record

def report (r : Record) (f : Finding) : Record := { r with findings := r.findings ++ [f] }

def judge (r : Record) (j : Judgement) : Record := { r with judgements := r.judgements ++ [j] }

/-- Nothing is wrong, and no question was delicate. -/
structure Quiet (r : Record) : Prop where
  findings : ∀ f ∈ r.findings, f.isError = false
  judgements : ∀ j ∈ r.judgements, j.isDelicate = false

end Record

/-- How two analyses are related. -/
structure Comparison where
  /-- The names that are not set apart. -/
  names : String → Prop
  /-- Whether the types of stored values may be unknown on the right. -/
  fades : Bool
  /-- What is noted on the left and on the right. -/
  records : Record → Record → Prop
  report {r r' : Record} {f : Finding} (hf : ∀ n, f.cause = .undefinedIdentifier n → names n)
    (hquiet : fades = true → f.isError = false) (h : records r r') :
    records (r.report f) (r'.report f)
  judge {r r' : Record} {j : Judgement} (hj : ∀ n, j = .name n → names n.name)
    (h : records r r') : records (r.judge j) (r'.judge j)
  judge_left {r r' : Record} (hfades : fades = true) (j : Judgement) (h : records r r') :
    records (r.judge j) r'
  judge_right {r r' : Record} (hfades : fades = true) (j : Judgement) (h : records r r') :
    records r (r'.judge j)
  /-- A name that is set apart is looked up. -/
  missing {r r' : Record} {n : Ident} (hn : ¬ names n.name) (h : records r r') :
    records ((r.judge (.name n)).report ⟨.undefinedIdentifier n.name, n.span⟩) (r'.judge (.name n))

/-- A variable of the global scope of which nothing is known. -/
def Symbol.unknown (name : String) : Symbol := { name, kind := .variable_, ty := .unknown }

/-- The names of the fields of the class that a symbol declares are among `N`. -/
def Symbol.FieldsIn (N : String → Prop) (s : Symbol) : Prop :=
  ∀ info, s.classInfo? = some info → ∀ f ∈ info.fields, N f.name

namespace Comparison

variable (C : Comparison)

/-- A left state is compared as long as it is quiet, if types have faded on the right. -/
def Fine (r : Record) : Prop := C.fades = true → r.Quiet

/-- Where types fade, untyped variables do not take the type of their value. -/
def context (ctx : Context) : Context := { ctx with inference := ctx.inference && !C.fades }

/-- The type of an expression. -/
def Types (t u : Ty) : Prop := u = t ∨ C.fades = true ∧ t.Blurs u

/-- Something about an expression that is known if its type is. -/
def Facts {α : Type} (o o' : Option α) : Prop := o' = o ∨ C.fades = true ∧ o' = none

/-- What a name stands for. -/
def Symbols (s s' : Symbol) : Prop :=
  s' = s ∨ C.fades = true ∧ s.isStored = true ∧ s' = { s with ty := .unknown }

/-- Two scopes at position `i`. -/
structure Scopes (i : Nat) (s s' : Scope) : Prop where
  parent : s'.parent? = s.parent?
  outer : i = 0 ∧ s.parent? = none ∨ ∃ p, p < i ∧ s.parent? = some p
  known : ∀ n, C.names n → Option.Rel C.Symbols (s.symbols.find? n) (s'.symbols.find? n)
  fields : ∀ n d, s.symbols.find? n = some d → d.FieldsIn C.names
  missing : ∀ n, ¬ C.names n → s.symbols.find? n = none ∧
    s'.symbols.find? n = if i = 0 then some (.unknown n) else none

structure Trees (t t' : ScopeTree) : Prop where
  current : t'.current = t.current
  count : t'.count = t.count
  inside : t.current < t.count
  scopes : ∀ i, Option.Rel (C.Scopes i) (t.get? i) (t'.get? i)

structure States (a b : Analysis) : Prop where
  trees : C.Trees a.scopes b.scopes
  imports : b.imports = a.imports
  records : C.records a.record b.record

/-- What checking can see of two scope trees is the same, the names apart that are set apart. -/
structure Similar (t t' : ScopeTree) : Prop where
  classes : ∀ n, t'.classInfo? n = t.classInfo? n
  interfaces : ∀ n, t'.interfaceInfo? n = t.interfaceInfo? n
  resolve : ∀ n, C.names n → Option.Rel C.Symbols (t.resolve n) (t'.resolve n)
  resolveLocal : ∀ n, C.names n → Option.Rel C.Symbols (t.resolveLocal n) (t'.resolveLocal n)
  globals : ∀ n, C.names n → Option.Rel C.Symbols (t.global? n) (t'.global? n)

variable {C} {t t' : ScopeTree} {s s' : Symbol}

instance : Std.Refl C.Types := ⟨fun _ => .inl rfl⟩

instance {α : Type} : Std.Refl (C.Facts (α := α)) := ⟨fun _ => .inl rfl⟩

instance : Std.Refl C.Symbols := ⟨fun _ => .inl rfl⟩

instance {α : Type} {R : α → α → Prop} [Std.Refl R] : Std.Refl (Option.Rel R) :=
  ⟨fun | some a => .some (Std.Refl.refl a) | none => .none⟩

instance : Std.Refl C.Similar :=
  ⟨fun _ => ⟨fun _ => rfl, fun _ => rfl, fun _ _ => Std.Refl.refl _, fun _ _ => Std.Refl.refl _,
    fun _ _ => Std.Refl.refl _⟩⟩

theorem rel_cases {α : Type} {R : α → α → Prop} {o o' : Option α} (h : Option.Rel R o o') :
    o = none ∧ o' = none ∨ ∃ a b, o = some a ∧ o' = some b ∧ R a b := by
  cases h with
  | none => exact .inl ⟨rfl, rfl⟩
  | some h => exact .inr ⟨_, _, rfl, rfl, h⟩

theorem rel_map {α : Type} {R S : α → α → Prop} {o o' : Option α} {f g : α → α}
    (h : Option.Rel R o o') (hf : ∀ a b, R a b → S (f a) (g b)) :
    Option.Rel S (o.map f) (o'.map g) := by
  cases h with
  | none => exact .none
  | some h => exact .some (hf _ _ h)

theorem isSome_eq_of_rel {α : Type} {R : α → α → Prop} {o o' : Option α} (h : Option.Rel R o o') :
    o'.isSome = o.isSome := by
  cases h <;> rfl

theorem isNone_eq_of_rel {α : Type} {R : α → α → Prop} {o o' : Option α} (h : Option.Rel R o o') :
    o'.isNone = o.isNone := by
  cases h <;> rfl

/-! ## Symbols -/

theorem Types.unknown (h : C.fades = true) (t : Ty) : C.Types t .unknown :=
  .inr ⟨h, .wildcard rfl⟩

theorem Types.blurs {t u : Ty} (h : C.Types t u) : t.Blurs u := by
  obtain rfl | ⟨_, h⟩ := h
  · exact .refl _
  · exact h

/-- Unless types have faded, two types are the same on both sides. -/
theorem Types.eq_or_fades {t t' u u' : Ty} (ht : C.Types t t') (hu : C.Types u u') :
    t' = t ∧ u' = u ∨ C.fades = true := by
  obtain rfl | ⟨hfades, _⟩ := ht
  · exact hu.imp (⟨rfl, ·⟩) And.left
  · exact .inr hfades

namespace Symbols

/-- All that is recorded with a symbol is the same but the type, and that is the same if nothing is
stored under the name. -/
theorem eq_with (h : C.Symbols s s') : s' = { s with ty := s'.ty } := by
  obtain rfl | ⟨_, _, rfl⟩ := h <;> rfl

theorem ty (h : C.Symbols s s') : C.Types s.ty s'.ty := by
  obtain rfl | ⟨hfades, _, rfl⟩ := h
  · exact .inl rfl
  · exact .unknown hfades _

theorem ty_eq (h : C.Symbols s s') (hs : s.isStored = false) : s'.ty = s.ty := by
  obtain rfl | ⟨_, hstored, rfl⟩ := h
  · rfl
  · rw [hs] at hstored
    cases hstored

theorem name (h : C.Symbols s s') : s'.name = s.name := by rw [h.eq_with]

theorem kind (h : C.Symbols s s') : s'.kind = s.kind := by rw [h.eq_with]

theorem span (h : C.Symbols s s') : s'.span = s.span := by rw [h.eq_with]

theorem signature? (h : C.Symbols s s') : s'.signature? = s.signature? := by rw [h.eq_with]

theorem template? (h : C.Symbols s s') : s'.template? = s.template? := by rw [h.eq_with]

theorem isStored (h : C.Symbols s s') : s'.isStored = s.isStored := by rw [h.eq_with]; rfl

theorem classInfo? (h : C.Symbols s s') : s'.classInfo? = s.classInfo? := by rw [h.eq_with]; rfl

theorem interface? (h : C.Symbols s s') : s'.interface? = s.interface? := by rw [h.eq_with]

theorem isClassTemplate (h : C.Symbols s s') : s'.isClassTemplate = s.isClassTemplate := by
  rw [h.eq_with]; rfl

theorem within (h : C.Symbols s s') (i : Nat) :
    C.Symbols { s with scope := i } { s' with scope := i } := by
  obtain rfl | ⟨hfades, hstored, rfl⟩ := h
  · exact .inl rfl
  · exact .inr ⟨hfades, hstored, rfl⟩

end Symbols

/-! ## Scopes -/

namespace Scopes

variable {i : Nat} {s s' : Scope}

theorem insert (h : C.Scopes i s s') {d d' : Symbol} (hd : C.Symbols d d') (hn : C.names d.name)
    (hfields : d.FieldsIn C.names) : C.Scopes i { s with symbols := s.symbols.insert d.name d }
      { s' with symbols := s'.symbols.insert d'.name d' } where
  parent := h.parent
  outer := h.outer
  known n hname := by
    rw [Table.find?_insert, Table.find?_insert, hd.name]
    split
    · exact .some hd
    · exact h.known n hname
  fields n e he := by
    rw [Table.find?_insert] at he
    split at he
    · obtain rfl := Option.some.inj he
      exact hfields
    · exact h.fields n e he
  missing n hname := by
    have hne : (n == d.name) = false := beq_false_of_ne fun hname' => hname (hname' ▸ hn)
    rw [Table.find?_insert, Table.find?_insert, hd.name, hne]
    exact h.missing n hname

theorem modify (h : C.Scopes i s s') {n : String} (hn : C.names n) {f : Symbol → Symbol}
    (hf : ∀ d d', C.Symbols d d' → C.Symbols (f d) (f d'))
    (hfields : ∀ d, d.FieldsIn C.names → (f d).FieldsIn C.names) :
    C.Scopes i { s with symbols := s.symbols.modify n f }
      { s' with symbols := s'.symbols.modify n f } where
  parent := h.parent
  outer := h.outer
  known m hm := by
    rw [Table.find?_modify, Table.find?_modify]
    split
    · exact rel_map (h.known m hm) hf
    · exact h.known m hm
  fields m e he := by
    rw [Table.find?_modify] at he
    split at he
    · obtain ⟨d, hd, rfl⟩ := Option.map_eq_some_iff.1 he
      exact hfields d (h.fields m d hd)
    · exact h.fields m e he
  missing m hm := by
    have hne : (m == n) = false := beq_false_of_ne fun hname => hm (hname ▸ hn)
    rw [Table.find?_modify, Table.find?_modify, hne]
    exact h.missing m hm

/-- A scope that was just opened. -/
theorem empty {p : Nat} (hp : p < i) (k k' : ScopeKind) (j j' : Nat) :
    C.Scopes i { id := j, kind := k, parent? := some p }
      { id := j', kind := k', parent? := some p } where
  parent := rfl
  outer := .inr ⟨p, hp, rfl⟩
  known _ _ := .none
  fields _ _ h := nomatch h
  missing _ _ := ⟨rfl, (if_neg (Nat.ne_of_gt (Nat.lt_of_le_of_lt (Nat.zero_le p) hp))).symm⟩

end Scopes

/-! ## Scope trees -/

namespace Trees

theorem resolveFrom (h : C.Trees t t') {n : String} (hn : C.names n) (i : Nat) :
    Option.Rel C.Symbols (t.resolveFrom i n) (t'.resolveFrom i n) := by
  induction i using Nat.strongRecOn with
  | ind i ih =>
    rw [ScopeTree.resolveFrom, ScopeTree.resolveFrom]
    obtain ⟨hs, hs'⟩ | ⟨s, s', hs, hs', hscope⟩ := rel_cases (h.scopes i)
    · rw [hs, hs']
      exact .none
    obtain ⟨hd, hd'⟩ | ⟨d, d', hd, hd', hsymbol⟩ := rel_cases (hscope.known n hn)
    · simp only [hs, hs', hd, hd', hscope.parent]
      cases s.parent? with
      | none => exact .none
      | some p =>
        dsimp only
        split
        next hp => exact ih p hp
        · exact .none
    · simp only [hs, hs', hd, hd']
      exact .some hsymbol

/-- A name that is set apart is found on the right only. -/
theorem resolveFrom_missing (h : C.Trees t t') {n : String} (hn : ¬ C.names n) (i : Nat)
    (hi : i < t.count) :
    t.resolveFrom i n = none ∧ t'.resolveFrom i n = some (.unknown n) := by
  induction i using Nat.strongRecOn with
  | ind i ih =>
    rw [ScopeTree.resolveFrom, ScopeTree.resolveFrom]
    obtain ⟨hs, _⟩ | ⟨s, s', hs, hs', hscope⟩ := rel_cases (h.scopes i)
    · exact absurd hi (Nat.not_lt.2 (List.getElem?_eq_none_iff.1 hs))
    obtain ⟨hleft, hright⟩ := hscope.missing n hn
    simp only [hs, hs', hleft, hright, hscope.parent]
    obtain ⟨rfl, hparent⟩ | ⟨p, hp, hparent⟩ := hscope.outer
    · simp [hparent]
    · have hroot : i ≠ 0 := by omega
      simp only [hparent, if_neg hroot, if_pos hp]
      exact ih p hp (Nat.lt_trans hp hi)

theorem lookupIn (h : C.Trees t t') {n : String} (hn : C.names n) (i : Nat) :
    Option.Rel C.Symbols (t.lookupIn i n) (t'.lookupIn i n) := by
  rw [ScopeTree.lookupIn, ScopeTree.lookupIn]
  obtain ⟨hs, hs'⟩ | ⟨s, s', hs, hs', hscope⟩ := rel_cases (h.scopes i)
  · rw [hs, hs']
    exact .none
  · rw [hs, hs']
    exact hscope.known n hn

/-- A symbol of the global scope declares the same on both sides. A name that is set apart declares
nothing on either. -/
theorem global?_bind (h : C.Trees t t') {α : Type} (f : Symbol → Option α)
    (hf : ∀ s s', C.Symbols s s' → f s' = f s) (hunknown : ∀ n, f (.unknown n) = none) (n : String) :
    (t'.global? n).bind f = (t.global? n).bind f := by
  by_cases hn : C.names n
  · obtain ⟨hd, hd'⟩ | ⟨d, d', hd, hd', hsymbol⟩ := rel_cases (h.lookupIn hn 0)
    · rw [ScopeTree.global?, ScopeTree.global?, hd, hd']
    · rw [ScopeTree.global?, ScopeTree.global?, hd, hd']
      exact hf d d' hsymbol
  · rw [ScopeTree.global?, ScopeTree.global?, ScopeTree.lookupIn, ScopeTree.lookupIn]
    obtain ⟨hs, hs'⟩ | ⟨s, s', hs, hs', hscope⟩ := rel_cases (h.scopes 0)
    · rw [hs, hs']
    · obtain ⟨hleft, hright⟩ := hscope.missing n hn
      simp [hs, hs', hleft, hright, hunknown]

theorem similar (h : C.Trees t t') : C.Similar t t' where
  classes := h.global?_bind _ (fun _ _ hs => hs.classInfo?) fun _ => rfl
  interfaces := h.global?_bind _ (fun _ _ hs => hs.interface?) fun _ => rfl
  resolve n hn := by
    rw [ScopeTree.resolve, ScopeTree.resolve, h.current]
    exact h.resolveFrom hn _
  resolveLocal n hn := by
    rw [ScopeTree.resolveLocal, ScopeTree.resolveLocal, h.current]
    exact h.lookupIn hn _
  globals n hn := h.lookupIn hn 0

theorem resolve_missing (h : C.Trees t t') {n : String} (hn : ¬ C.names n) :
    t.resolve n = none ∧ t'.resolve n = some (.unknown n) := by
  rw [ScopeTree.resolve, ScopeTree.resolve, h.current]
  exact h.resolveFrom_missing hn _ h.inside

/-- The fields of all classes have names that are not set apart. -/
theorem fields (h : C.Trees t t') {n : String} {info : ClassInfo}
    (hinfo : info ∈ t.classChain n) : ∀ f ∈ info.fields, C.names f.name := by
  obtain ⟨m, hm⟩ := ScopeTree.classInfo?_of_mem_classChain hinfo
  obtain ⟨d, hd, hclass⟩ := Option.bind_eq_some_iff.1 hm
  obtain ⟨s, hs, hfind⟩ := Option.bind_eq_some_iff.1 hd
  obtain ⟨hnone, _⟩ | ⟨s₁, s', hs₁, _, hscope⟩ := rel_cases (h.scopes 0)
  · rw [hnone] at hs
    cases hs
  · obtain rfl := Option.some.inj (hs₁.symm.trans hs)
    exact hscope.fields m d hfind info hclass

theorem push (h : C.Trees t t') (k : ScopeKind) : C.Trees (t.push k) (t'.push k) where
  current := h.count
  count := by rw [ScopeTree.count_push, ScopeTree.count_push, h.count]
  inside := by
    rw [ScopeTree.count_push]
    exact Nat.lt_succ_self _
  scopes i := by
    obtain hi | rfl | hi := Nat.lt_trichotomy i t.count
    · rw [ScopeTree.get?_push k hi, ScopeTree.get?_push k (h.count ▸ hi), h.current]
      refine rel_map (h.scopes i) fun s s' hs => ?_
      split <;> exact ⟨hs.parent, hs.outer, hs.known, hs.fields, hs.missing⟩
    · have hright := ScopeTree.get?_push_count (t := t') k
      rw [h.count, h.current] at hright
      rw [ScopeTree.get?_push_count, hright]
      exact .some (.empty h.inside ..)
    · have hnone : ∀ t : ScopeTree, t.count < i → (t.push k).get? i = none := fun t hi =>
        List.getElem?_eq_none (Nat.le_trans (Nat.le_of_eq (ScopeTree.count_push t k)) hi)
      rw [hnone t hi, hnone t' (h.count ▸ hi)]
      exact .none

theorem pop (h : C.Trees t t') : C.Trees t.pop t'.pop := by
  unfold ScopeTree.pop
  obtain ⟨hs, hs'⟩ | ⟨s, s', hs, hs', hscope⟩ := rel_cases (h.scopes t.current)
  · rw [h.current, hs, hs']
    exact h
  · rw [h.current, hs, hs', Option.bind_some, Option.bind_some, hscope.parent]
    obtain ⟨_, hparent⟩ | ⟨p, hp, hparent⟩ := hscope.outer
    · rw [hparent]
      exact h
    · rw [hparent]
      exact ⟨rfl, h.count, Nat.lt_trans hp h.inside, h.scopes⟩

theorem replace (h : C.Trees t t') {d d' : Symbol} (hd : C.Symbols d d') (hn : C.names d.name)
    (hfields : d.FieldsIn C.names) : C.Trees (t.replace d) (t'.replace d') where
  current := h.current
  count := by rw [ScopeTree.count_replace, ScopeTree.count_replace, h.count]
  inside := by
    rw [ScopeTree.count_replace]
    exact h.inside
  scopes i := by
    rw [ScopeTree.get?_replace, ScopeTree.get?_replace, h.current]
    refine rel_map (h.scopes i) fun s s' hs => ?_
    split
    · exact hs.insert (hd.within t.current) hn hfields
    · exact hs

theorem modifyGlobal (h : C.Trees t t') {n : String} (hn : C.names n) {f : Symbol → Symbol}
    (hf : ∀ d d', C.Symbols d d' → C.Symbols (f d) (f d'))
    (hfields : ∀ d, d.FieldsIn C.names → (f d).FieldsIn C.names) :
    C.Trees (t.modifyGlobal n f) (t'.modifyGlobal n f) where
  current := h.current
  count := by rw [ScopeTree.count_modifyGlobal, ScopeTree.count_modifyGlobal, h.count]
  inside := by
    rw [ScopeTree.count_modifyGlobal]
    exact h.inside
  scopes i := by
    rw [ScopeTree.get?_modifyGlobal, ScopeTree.get?_modifyGlobal]
    refine rel_map (h.scopes i) fun s s' hs => ?_
    split
    · exact hs.modify hn hf hfields
    · exact hs

end Trees

end Comparison

end ClassLang
