import ClassLang.Proofs.Comparison.Basic

/-!
# The tree of scopes

Scopes are opened and closed and symbols are put into them, in any order. The scopes then always form
a tree with the global scope at its root: a scope knows the one around it, which is older, and the ones
inside of it, in the order in which they were opened. So the way out of a scope ends at the root, and
a name stands for what the first scope on that way says.
-/

namespace ClassLang

namespace Table

variable {α : Type}

/-- The names that have an entry. -/
def keys (t : Table α) : List String := t.entries.map Prod.fst

theorem mem_insertEntry {name : String} {a : α} {l : List (String × α)} {e : String × α}
    (h : e ∈ insertEntry name a l) : e = (name, a) ∨ e ∈ l := by
  induction l with
  | nil => exact .inl (List.mem_singleton.1 h)
  | cons e' l ih =>
    rw [insertEntry] at h
    split at h
    · exact (List.mem_cons.1 h).imp_right (List.mem_cons_of_mem _)
    · obtain rfl | h := List.mem_cons.1 h
      · exact .inr List.mem_cons_self
      · exact (ih h).imp_right (List.mem_cons_of_mem _)

/-- No name gets a second entry. -/
theorem nodup_keys_insert {t : Table α} (h : t.keys.Nodup) (name : String) (a : α) :
    (t.insert name a).keys.Nodup := by
  obtain ⟨l⟩ := t
  change (l.map Prod.fst).Nodup at h
  change ((insertEntry name a l).map Prod.fst).Nodup
  induction l with
  | nil => exact List.nodup_cons.2 ⟨List.not_mem_nil, .nil⟩
  | cons e l ih =>
    obtain ⟨hnew, hrest⟩ := List.nodup_cons.1 h
    rw [insertEntry]
    split
    next heq =>
      obtain rfl : name = e.1 := eq_of_beq heq
      exact h
    next hne =>
      refine List.nodup_cons.2 ⟨fun hmem => ?_, ih hrest⟩
      obtain ⟨e', he', hkey⟩ := List.mem_map.1 hmem
      obtain rfl | he' := mem_insertEntry he'
      · exact hne (beq_of_eq hkey)
      · exact hnew (List.mem_map.2 ⟨e', he', hkey⟩)

end Table

namespace ScopeTree

/-! ## What is done to a tree -/

/-- Something that is done to a tree of scopes. -/
inductive Step where
  | push (kind : ScopeKind)
  | pop
  | define (s : Symbol)
  | replace (s : Symbol)

/-- The tree afterwards. A definition that is refused changes nothing. -/
def perform (t : ScopeTree) : Step → ScopeTree
  | .push kind => t.push kind
  | .pop => t.pop
  | .define s =>
    match t.define s with
    | .ok t' => t'
    | .error _ => t
  | .replace s => t.replace s

/-- The scope around a scope. -/
def parentOf? (t : ScopeTree) (i : Nat) : Option Nat := (t.get? i).bind Scope.parent?

/-- A tree of scopes, each with what is known of it. -/
structure WellFormed (t : ScopeTree) : Prop where
  current : t.current < t.count
  id : ∀ {i s}, t.get? i = some s → s.id = i
  root : ∀ {i}, i < t.count → (t.parentOf? i = none ↔ i = 0)
  parent : ∀ {i p}, t.parentOf? i = some p → p < i
  children : ∀ {i s}, t.get? i = some s → ∀ j, j ∈ s.children ↔ t.parentOf? j = some i
  sorted : ∀ {i s}, t.get? i = some s → s.children.Pairwise (· < ·)
  keys : ∀ {i s}, t.get? i = some s → s.symbols.keys.Nodup
  symbols : ∀ {i s n d}, t.get? i = some s → (n, d) ∈ s.symbols.entries → d.name = n ∧ d.scope = i

variable {t : ScopeTree}

theorem get?_push_cases {k : ScopeKind} {i : Nat} {s : Scope} (h : (t.push k).get? i = some s) :
    (∃ s₀, t.get? i = some s₀ ∧ s = { s₀ with
      children := if t.current = i then s₀.children ++ [t.count] else s₀.children }) ∨
    i = t.count ∧ s = { id := t.count, kind := k, parent? := some t.current } := by
  have hi := lt_count h
  rw [count_push] at hi
  obtain hi | rfl := Nat.lt_succ_iff_lt_or_eq.1 hi
  · rw [get?_push k hi] at h
    obtain ⟨s₀, hs₀, rfl⟩ := Option.map_eq_some_iff.1 h
    exact .inl ⟨s₀, hs₀, by split <;> rfl⟩
  · rw [get?_push_count] at h
    exact .inr ⟨rfl, (Option.some.inj h).symm⟩

theorem parentOf?_push (t : ScopeTree) (k : ScopeKind) (i : Nat) :
    (t.push k).parentOf? i = if i = t.count then some t.current else t.parentOf? i := by
  rw [parentOf?, parentOf?]
  split
  next hi => rw [hi, get?_push_count, Option.bind_some]
  next hi =>
    by_cases hlt : i < t.count
    · rw [get?_push k hlt]
      cases t.get? i with
      | none => rfl
      | some s =>
        rw [Option.map_some, Option.bind_some, Option.bind_some]
        split <;> rfl
    · have hpush : (t.push k).get? i = none :=
        List.getElem?_eq_none (by
          have := count_push t k
          rw [count] at this
          omega)
      rw [hpush, get?, List.getElem?_eq_none (by rw [count] at hlt; omega)]

theorem parentOf?_replace (t : ScopeTree) (d : Symbol) (i : Nat) :
    (t.replace d).parentOf? i = t.parentOf? i := by
  rw [parentOf?, parentOf?, get?_replace]
  cases t.get? i with
  | none => rfl
  | some s =>
    rw [Option.map_some, Option.bind_some, Option.bind_some]
    split <;> rfl

theorem get?_pop (t : ScopeTree) (i : Nat) : t.pop.get? i = t.get? i := by
  rw [pop]
  split <;> rfl

theorem lt_count_of_parentOf? {i p : Nat} (h : t.parentOf? i = some p) : i < t.count := by
  obtain ⟨s, hs, _⟩ := Option.bind_eq_some_iff.1 h
  exact lt_count hs

namespace WellFormed

theorem initial : WellFormed {} := by
  have hscope : ∀ {i s}, ScopeTree.get? {} i = some s → i = 0 ∧ s = { id := 0, kind := .global } := by
    intro i s h
    cases i with
    | zero => exact ⟨rfl, (Option.some.inj h).symm⟩
    | succ i => cases h
  have hparent : ∀ i, parentOf? {} i = none := by
    intro i
    cases i <;> rfl
  refine ⟨Nat.zero_lt_one, fun h => ?_, fun {i} hi => ?_, fun {i p} h => ?_, fun h j => ?_, fun h => ?_,
    fun h => ?_, fun h hd => ?_⟩
  · obtain ⟨rfl, rfl⟩ := hscope h
    rfl
  · exact iff_of_true (hparent i) (Nat.lt_one_iff.1 hi)
  · rw [hparent] at h
    cases h
  · obtain ⟨rfl, rfl⟩ := hscope h
    simp [hparent]
  · obtain ⟨rfl, rfl⟩ := hscope h
    exact .nil
  · obtain ⟨rfl, rfl⟩ := hscope h
    exact .nil
  · obtain ⟨rfl, rfl⟩ := hscope h
    cases hd

theorem push (h : t.WellFormed) (k : ScopeKind) : (t.push k).WellFormed := by
  have hcurrent : (t.push k).current = t.count := rfl
  refine ⟨?_, fun hs => ?_, fun {i} hi => ?_, fun {i p} hp => ?_, fun {i s} hs j => ?_, fun hs => ?_,
    fun hs => ?_, fun hs hd => ?_⟩
  · rw [hcurrent, count_push]
    exact Nat.lt_succ_self _
  · obtain ⟨s₀, hs₀, rfl⟩ | ⟨rfl, rfl⟩ := get?_push_cases hs
    · exact (h.id hs₀ :)
    · rfl
  · rw [parentOf?_push]
    split
    next hi => exact iff_of_false nofun (hi ▸ Nat.ne_of_gt (Nat.zero_lt_of_lt h.current))
    next hne =>
      rw [count_push] at hi
      exact h.root (by omega)
  · rw [parentOf?_push] at hp
    split at hp
    next hi =>
      cases hp
      exact hi ▸ h.current
    · exact h.parent hp
  · -- The new scope is a child of the current one, and of no other.
    have hold : j ≠ t.count → ((t.push k).parentOf? j = some i ↔ t.parentOf? j = some i) := by
      intro hj
      rw [parentOf?_push, if_neg hj]
    have hnew : (t.push k).parentOf? t.count = some i ↔ t.current = i := by
      rw [parentOf?_push, if_pos rfl, Option.some.injEq]
    have hnone : t.parentOf? t.count ≠ some i := fun hp => Nat.lt_irrefl _ (lt_count_of_parentOf? hp)
    obtain ⟨s₀, hs₀, rfl⟩ | ⟨rfl, rfl⟩ := get?_push_cases hs
    · have hchildren := h.children hs₀ j
      by_cases hj : j = t.count
      · subst hj
        rw [hnew]
        split <;> simp_all
      · rw [hold hj, ← hchildren]
        split <;> simp [hj]
    · refine iff_of_false List.not_mem_nil fun hp => ?_
      rw [parentOf?_push] at hp
      split at hp
      · exact absurd h.current (Option.some.inj hp ▸ Nat.lt_irrefl _)
      · exact Nat.lt_asymm (h.parent hp) (lt_count_of_parentOf? hp)
  · obtain ⟨s₀, hs₀, rfl⟩ | ⟨rfl, rfl⟩ := get?_push_cases hs
    · dsimp only
      split
      · refine List.pairwise_append.2 ⟨h.sorted hs₀, List.pairwise_singleton _ _, fun j hj c hc => ?_⟩
        cases List.mem_singleton.1 hc
        exact lt_count_of_parentOf? ((h.children hs₀ j).1 hj)
      · exact h.sorted hs₀
    · exact .nil
  · obtain ⟨s₀, hs₀, rfl⟩ | ⟨rfl, rfl⟩ := get?_push_cases hs
    · exact (h.keys hs₀ :)
    · exact .nil
  · obtain ⟨s₀, hs₀, rfl⟩ | ⟨rfl, rfl⟩ := get?_push_cases hs
    · exact h.symbols hs₀ hd
    · cases hd

theorem pop (h : t.WellFormed) : t.pop.WellFormed := by
  have hcount : t.pop.count = t.count := by
    rw [ScopeTree.pop]
    split <;> rfl
  have hparent : ∀ i, t.pop.parentOf? i = t.parentOf? i := fun i => by
    rw [parentOf?, get?_pop, parentOf?]
  refine ⟨?_, fun hs => ?_, fun hi => ?_, fun hp => ?_, fun hs j => ?_, fun hs => ?_, fun hs => ?_,
    fun hs => ?_⟩
  · rw [hcount, ScopeTree.pop]
    split
    next p hp => exact Nat.lt_trans (h.parent hp) h.current
    · exact h.current
  · rw [get?_pop] at hs
    exact h.id hs
  · rw [hparent]
    exact h.root (hcount ▸ hi)
  · rw [hparent] at hp
    exact h.parent hp
  · rw [hparent]
    rw [get?_pop] at hs
    exact h.children hs j
  · rw [get?_pop] at hs
    exact h.sorted hs
  · rw [get?_pop] at hs
    exact h.keys hs
  · rw [get?_pop] at hs
    exact h.symbols hs

theorem replace (h : t.WellFormed) (d : Symbol) : (t.replace d).WellFormed := by
  have hscope : ∀ {i s}, (t.replace d).get? i = some s → ∃ s₀, t.get? i = some s₀ ∧ s =
      { s₀ with symbols := if t.current = i then
          s₀.symbols.insert d.name { d with scope := t.current } else s₀.symbols } := by
    intro i s hs
    rw [get?_replace] at hs
    obtain ⟨s₀, hs₀, rfl⟩ := Option.map_eq_some_iff.1 hs
    exact ⟨s₀, hs₀, by split <;> rfl⟩
  refine ⟨?_, fun hs => ?_, fun hi => ?_, fun hp => ?_, fun hs j => ?_, fun hs => ?_, fun hs => ?_,
    fun {i s n d'} hs hd => ?_⟩
  · rw [count_replace]
    exact h.current
  · obtain ⟨s₀, hs₀, rfl⟩ := hscope hs
    exact (h.id hs₀ :)
  · rw [parentOf?_replace]
    rw [count_replace] at hi
    exact h.root hi
  · rw [parentOf?_replace] at hp
    exact h.parent hp
  · rw [parentOf?_replace]
    obtain ⟨s₀, hs₀, rfl⟩ := hscope hs
    exact h.children hs₀ j
  · obtain ⟨s₀, hs₀, rfl⟩ := hscope hs
    exact (h.sorted hs₀ :)
  · obtain ⟨s₀, hs₀, rfl⟩ := hscope hs
    dsimp only
    split
    · exact Table.nodup_keys_insert (h.keys hs₀) _ _
    · exact h.keys hs₀
  · obtain ⟨s₀, hs₀, rfl⟩ := hscope hs
    dsimp only at hd
    split at hd
    next hi =>
      obtain heq | hd := Table.mem_insertEntry hd
      · cases heq
        exact ⟨rfl, hi⟩
      · exact h.symbols hs₀ hd
    · exact h.symbols hs₀ hd

theorem perform (h : t.WellFormed) (step : Step) : (t.perform step).WellFormed := by
  cases step with
  | push kind => exact h.push kind
  | pop => exact h.pop
  | define s =>
    rw [ScopeTree.perform, define]
    cases t.resolveLocal s.name with
    | none => exact h.replace s
    | some _ => exact h
  | replace s => exact h.replace s

theorem foldl_perform (h : t.WellFormed) (steps : List Step) :
    (steps.foldl ScopeTree.perform t).WellFormed := by
  induction steps generalizing t with
  | nil => exact h
  | cons step steps ih => exact ih (h.perform step)

end WellFormed

/-! ## The way out -/

/-- The way out of a scope: the scope itself, the one around it and so on, to one that has none around
it. From where there is no scope, the way is empty. -/
inductive Outward (t : ScopeTree) : Nat → List Nat → Prop
  | nowhere {i : Nat} (h : t.get? i = none) : Outward t i []
  | root {i : Nat} {s : Scope} (h : t.get? i = some s) (hp : s.parent? = none) : Outward t i [i]
  | step {i p : Nat} {s : Scope} {is : List Nat} (h : t.get? i = some s) (hp : s.parent? = some p) :
      Outward t p is → Outward t i (i :: is)

/-- The way out ends, and a name stands for what the first scope on it says. -/
theorem WellFormed.outward (h : t.WellFormed) (i : Nat) :
    ∃ is, t.Outward i is ∧ ∀ name, t.resolveFrom i name = is.findSome? (t.lookupIn · name) := by
  induction i using Nat.strongRecOn with
  | ind i ih =>
    cases hs : t.get? i with
    | none =>
      refine ⟨[], .nowhere hs, fun name => ?_⟩
      rw [resolveFrom, hs]
      rfl
    | some s =>
      have hhere : ∀ name, t.lookupIn i name = s.symbols.find? name := fun name => by
        rw [lookupIn, hs, Option.bind_some]
      cases hp : s.parent? with
      | none =>
        refine ⟨[i], .root hs hp, fun name => ?_⟩
        rw [resolveFrom, hs, List.findSome?_cons, hhere]
        cases hd : s.symbols.find? name with
        | none => simp [hp, hd]
        | some d => simp [hd]
      | some p =>
        have hlt : p < i := h.parent (by rw [parentOf?, hs, Option.bind_some, hp])
        obtain ⟨is, his, hfind⟩ := ih p hlt
        refine ⟨i :: is, .step hs hp his, fun name => ?_⟩
        rw [resolveFrom, hs, List.findSome?_cons, hhere]
        cases hd : s.symbols.find? name with
        | none => simp [hp, hd, hlt, hfind]
        | some d => simp [hd]

/-- A definition is refused if and only if its name is taken in the current scope. -/
theorem define_eq_error (t : ScopeTree) (s : Symbol) :
    (∃ d, t.define s = .error d) ↔ ∃ first, t.lookupIn t.current s.name = some first := by
  rw [define, resolveLocal]
  cases t.lookupIn t.current s.name with
  | none => simp
  | some first => simp

/-- Whatever is done, scopes form a tree. From every scope the way out ends, and a name stands for
what the first scope on that way says, if any does. A definition of a name that the current scope has
already changes nothing. -/
theorem nearest_of_steps (steps : List Step) :
    let t := steps.foldl perform {}
    t.WellFormed ∧
    (∀ i, ∃ is, t.Outward i is ∧ ∀ name, t.resolveFrom i name = is.findSome? (t.lookupIn · name)) ∧
    ∀ s : Symbol, ((∃ d, t.define s = .error d) ↔ ∃ first, t.lookupIn t.current s.name = some first) ∧
      ((∃ d, t.define s = .error d) → t.perform (.define s) = t) := by
  intro t
  have h : t.WellFormed := WellFormed.initial.foldl_perform steps
  refine ⟨h, h.outward, fun s => ⟨define_eq_error t s, fun ⟨d, hd⟩ => ?_⟩⟩
  rw [perform, hd]

-- An inner name hides an outer one as long as its scope is open, and a second definition is refused.
example :
    let x (kind : SymbolKind) : Step := .define { name := "x", kind, ty := .int }
    let t := [x .variable_, .push .block, x .constant, x .function].foldl perform {}
    ((t.resolve "x").map (·.kind), (t.pop.resolve "x").map (·.kind)) =
      (some .constant, some .variable_) := by
  decide +kernel

end ScopeTree

end ClassLang
