import ClassLang.Proofs.Analysis.Declarations
import ClassLang.Proofs.Analysis.Placement
import ClassLang.Proofs.Comparison.Program
import ClassLang.Proofs.Scopes.Tree
import ClassLang.Proofs.Stacks.Balance
import Mathlib.Logic.Relation

/-!
# Analyses one after the other

An analyser may be given any number of programs. Between two of them it is where it began: in the
global scope, with nothing on its stacks. Whatever it checks meanwhile touches the scope at hand alone,
so that a scope which was left stays for good as it was.
-/

namespace ClassLang

/-- From one state to another in the same scope: no other scope changes, and no finding is taken
back. -/
structure Analysis.Keeps (a b : Analysis) : Prop where
  current : b.scopes.current = a.scopes.current
  others : ∀ i s, i ≠ a.scopes.current → a.scopes.get? i = some s → b.scopes.get? i = some s
  own : ∀ s, a.scopes.get? a.scopes.current = some s →
    ∃ s', b.scopes.get? a.scopes.current = some s' ∧ s'.parent? = s.parent?
  findings : a.findings <+: b.findings

namespace Analysis

variable {a b c : Analysis}

theorem Nested.keeps {N : String → Prop} (h : a.Nested N b) : a.Keeps b := by
  refine ⟨h.current, h.outer, fun s hs => ?_, h.findings⟩
  obtain ⟨s', hs', hgrows⟩ := h.inner s hs
  exact ⟨s', hs', hgrows.parent⟩

namespace Keeps

theorem refl (a : Analysis) : a.Keeps a :=
  ⟨rfl, fun _ _ _ hs => hs, fun s hs => ⟨s, hs, rfl⟩, List.prefix_refl _⟩

theorem trans (h : a.Keeps b) (h' : b.Keeps c) : a.Keeps c := by
  refine ⟨h'.current.trans h.current, fun i s hi hs => ?_, fun s hs => ?_,
    h.findings.trans h'.findings⟩
  · exact h'.others i s (h.current ▸ hi) (h.others i s hi hs)
  · obtain ⟨s', hs', hparent⟩ := h.own s hs
    rw [← h.current] at hs' ⊢
    obtain ⟨s'', hs'', hparent'⟩ := h'.own s' hs'
    exact ⟨s'', hs'', hparent'.trans hparent⟩

/-- Only the symbols of the scope at hand change. -/
theorem of_symbols (change : Scope → Table Symbol) (hcurrent : b.scopes.current = a.scopes.current)
    (hget : ∀ i, b.scopes.get? i = (a.scopes.get? i).map fun s =>
      if a.scopes.current = i then { s with symbols := change s } else s)
    (hfindings : a.findings <+: b.findings) : a.Keeps b := by
  refine ⟨hcurrent, fun i s hi hs => ?_, fun s hs => ?_, hfindings⟩
  · rw [hget, hs, Option.map_some, if_neg hi.symm]
  · refine ⟨{ s with symbols := change s }, ?_, rfl⟩
    rw [hget, hs, Option.map_some, if_pos rfl]

theorem replace (a : Analysis) (d : Symbol) :
    a.Keeps { a with scopes := a.scopes.replace d } :=
  of_symbols _ rfl (a.scopes.get?_replace d) (List.prefix_refl _)

theorem declare (a : Analysis) (d : Symbol) : a.Keeps ((Check.declare d).run a).2 := by
  have hnoted := (Check.Nests.noteShadowing (N := fun _ => True) d a).keeps
  refine hnoted.trans ?_
  rw [Check.run_declare_eq_define]
  generalize ((Check.noteShadowing d).run a).2 = a
  rw [ScopeTree.define]
  cases a.scopes.resolveLocal d.name with
  | none => exact replace a d
  | some first =>
    dsimp only
    split
    · exact replace a d
    · exact (Check.Nests.report (N := fun _ => True) _ _ a).keeps

theorem redefine (a : Analysis) (d : Symbol) : a.Keeps ((Check.redefine d).run a).2 :=
  (Check.Nests.noteShadowing (N := fun _ => True) d a).keeps.trans (replace _ d)

theorem declared (a : Analysis) (s : Stmt) : a.Keeps (Check.declared a s) := by
  rw [Check.declared]
  cases Check.declaredSymbol? s with
  | some d => exact declare a d
  | none => exact refl a

theorem filled (h : a.scopes.current = 0) (s : Stmt) : a.Keeps (Check.filled a s) := by
  obtain ⟨change?, fs, hfills, -, -⟩ := Check.fills_of_seesSame s (.refl s a.scopes)
  rw [Check.filled_eq hfills]
  cases change? with
  | some change =>
    refine of_symbols (fun s => s.symbols.modify change.1 change.2.apply) rfl (fun i => ?_)
      (List.prefix_append _ _)
    rw [h]
    exact a.scopes.get?_modifyGlobal change.1 change.2.apply i
  | none =>
    have hsame : a.Nested (fun _ => True) { a with findings := a.findings ++ fs } :=
      .of_scopes_eq rfl (List.prefix_append _ _)
    exact hsame.keeps

/-- What each of some steps keeps, all of them keep. -/
theorem foldl {α : Type} {f : Analysis → α → Analysis} {i : Nat} (l : List α)
    (hf : ∀ a : Analysis, a.scopes.current = i → ∀ v, a.Keeps (f a v)) (a : Analysis)
    (ha : a.scopes.current = i) : a.Keeps (l.foldl f a) := by
  induction l generalizing a with
  | nil => exact refl a
  | cons v l ih => exact (hf a ha v).trans (ih _ ((hf a ha v).current.trans ha))

theorem collectDeclarations (h : a.scopes.current = 0) (p : Program) :
    a.Keeps ((Check.collectDeclarations p).run a).2 := by
  rw [Check.run_collectDeclarations]
  have hdeclared := foldl p.stmts (fun a _ => declared a) a h
  exact hdeclared.trans (foldl p.stmts (fun a ha => filled ha) _ (hdeclared.current.trans h))

theorem inferType (a : Analysis) (ctx : Context) (e : Expr) :
    a.Keeps ((Check.inferType ctx e).run a).2 :=
  (Check.Nests.inferType ctx e e.bindsOnly_true a).keeps

theorem checkStmt (a : Analysis) (ctx : Context) (s : Stmt) :
    a.Keeps ((Check.checkStmt ctx s).run a).2 :=
  (Check.Nests.checkStmt ctx s s.bindsOnly_true a).keeps

theorem checkProgram (h : a.scopes.current = 0) (ctx : Context) (p : Program) :
    a.Keeps ((Check.checkProgram ctx p).run a).2 := by
  refine (collectDeclarations h p).trans ?_
  refine (Check.Nests.checkStmts ctx p.stmts _).keeps.trans ?_
  exact (Check.Nests.reportUnusedImports _).keeps

end Keeps

end Analysis

/-! ## Scopes that were left -/

namespace ScopeTree

/-- The way from a scope out to one that has none around it. -/
inductive Way (t : ScopeTree) : Nat → List Nat → Prop
  | root {i : Nat} {s : Scope} (h : t.get? i = some s) (hp : s.parent? = none) : Way t i [i]
  | step {i p : Nat} {s : Scope} {is : List Nat} (h : t.get? i = some s) (hp : s.parent? = some p) :
      Way t p is → Way t i (i :: is)

variable {t t' : ScopeTree} {i j : Nat} {is : List Nat}

theorem Way.lt_count (h : t.Way j is) (hi : i ∈ is) : i < t.count := by
  induction h with
  | root hs _ =>
    obtain rfl := List.mem_singleton.1 hi
    exact ScopeTree.lt_count hs
  | step hs _ _ ih =>
    obtain rfl | hi := List.mem_cons.1 hi
    · exact ScopeTree.lt_count hs
    · exact ih hi

/-- A way stays while the scopes on it stay inside of the same ones. -/
theorem Way.mono (h : t.Way j is) (ht : ∀ i s, t.get? i = some s →
    ∃ s', t'.get? i = some s' ∧ s'.parent? = s.parent?) : t'.Way j is := by
  induction h with
  | root hs hp =>
    obtain ⟨s', hs', hparent⟩ := ht _ _ hs
    exact .root hs' (hparent.trans hp)
  | step hs hp _ ih =>
    obtain ⟨s', hs', hparent⟩ := ht _ _ hs
    exact .step hs' (hparent.trans hp) ih

theorem Way.push (h : t.Way t.current is) (k : ScopeKind) :
    (t.push k).Way (t.push k).current (t.count :: is) := by
  refine .step (get?_push_count k) rfl (h.mono fun i s hs => ?_)
  rw [get?_push k (ScopeTree.lt_count hs), hs]
  refine ⟨_, rfl, ?_⟩
  split <;> rfl

theorem Way.ne_nil (h : t.Way j is) : is ≠ [] := by
  cases h <;> exact List.cons_ne_nil _ _

theorem Way.mem (h : t.Way j is) : j ∈ is := by
  cases h <;> exact List.mem_cons_self

/-- The way from the scope around the one at hand, unless there is none around it. -/
theorem Way.pop (h : t.Way t.current is) : is = [t.current] ∧ t.pop.Way t.pop.current is ∨
    ∃ is', is = t.current :: is' ∧ t.pop.Way t.pop.current is' := by
  have hsame : ∀ i s, t.get? i = some s → ∃ s', t.pop.get? i = some s' ∧ s'.parent? = s.parent? :=
    fun i s hs => ⟨s, (get?_pop t i).trans hs, rfl⟩
  have hcurrent : ∀ s, t.get? t.current = some s → t.pop.current = s.parent?.getD t.current := by
    intro s hs
    rw [ScopeTree.pop, hs, Option.bind_some]
    cases s.parent? <;> rfl
  generalize hj : t.current = j at h hcurrent
  cases h with
  | root hs hp =>
    refine .inl ⟨rfl, ?_⟩
    rw [hcurrent _ hs, hp]
    exact (Way.root hs hp).mono hsame
  | step hs hp hway =>
    refine .inr ⟨_, rfl, ?_⟩
    rw [hcurrent _ hs, hp]
    exact hway.mono hsame

end ScopeTree

namespace Analysis

variable {a b c : Analysis} {is : List Nat}

theorem Keeps.way (h : a.Keeps b) {j : Nat} (hway : a.scopes.Way j is) : b.scopes.Way j is := by
  refine hway.mono fun i s hs => ?_
  by_cases hi : i = a.scopes.current
  · subst hi
    exact h.own s hs
  · exact ⟨s, h.others i s hi hs, rfl⟩

/-- One of the things that are done between two states. -/
inductive Moves : Analysis → Analysis → Prop
  | expr (a : Analysis) (ctx : Context) (e : Expr) : Moves a ((Check.inferType ctx e).run a).2
  | stmt (a : Analysis) (ctx : Context) (s : Stmt) : Moves a ((Check.checkStmt ctx s).run a).2
  | program (a : Analysis) (ctx : Context) (p : Program) (h : a.scopes.current = 0) :
      Moves a ((Check.checkProgram ctx p).run a).2
  | declare (a : Analysis) (d : Symbol) : Moves a ((Check.declare d).run a).2
  | redefine (a : Analysis) (d : Symbol) : Moves a ((Check.redefine d).run a).2
  | enter (a : Analysis) (k : ScopeKind) : Moves a { a with scopes := a.scopes.push k }
  | leave (a : Analysis) : Moves a { a with scopes := a.scopes.pop }

/-- From a state with the way out `is`: no scope off this way changes or comes onto the new way. -/
def Spares (is : List Nat) (a b : Analysis) : Prop :=
  ∃ is', b.scopes.Way b.scopes.current is' ∧
    ∀ i s, i ∉ is → a.scopes.get? i = some s → i ∉ is' ∧ b.scopes.get? i = some s

theorem Keeps.spares (h : a.Keeps b) (hway : a.scopes.Way a.scopes.current is) : Spares is a b := by
  refine ⟨is, h.current ▸ h.way hway, fun i s hi hs => ⟨hi, h.others i s ?_ hs⟩⟩
  rintro rfl
  exact hi hway.mem

theorem Moves.spares (h : a.Moves b) (hway : a.scopes.Way a.scopes.current is) :
    Spares is a b := by
  cases h with
  | expr ctx e => exact (Keeps.inferType a ctx e).spares hway
  | stmt ctx s => exact (Keeps.checkStmt a ctx s).spares hway
  | program ctx p h => exact (Keeps.checkProgram h ctx p).spares hway
  | declare d => exact (Keeps.declare a d).spares hway
  | redefine d => exact (Keeps.redefine a d).spares hway
  | enter k =>
    refine ⟨_, hway.push k, fun i s hi hs => ?_⟩
    have hlt := ScopeTree.lt_count hs
    have hne : a.scopes.current ≠ i := by
      rintro rfl
      exact hi hway.mem
    refine ⟨List.not_mem_cons_of_ne_of_not_mem (Nat.ne_of_lt hlt) hi, ?_⟩
    rw [ScopeTree.get?_push k hlt, hs, Option.map_some, if_neg hne]
  | leave =>
    have hsame : ∀ i s, a.scopes.get? i = some s → a.scopes.pop.get? i = some s :=
      fun i _ hs => (ScopeTree.get?_pop a.scopes i).trans hs
    obtain ⟨-, hway'⟩ | ⟨is', rfl, hway'⟩ := hway.pop
    · exact ⟨is, hway', fun i s hi hs => ⟨hi, hsame i s hs⟩⟩
    · exact ⟨is', hway', fun i s hi hs => ⟨List.not_mem_of_not_mem_cons hi, hsame i s hs⟩⟩

/-- Whatever is done, scopes off the way out stay as they are. -/
theorem spares_of_moves (h : Relation.ReflTransGen Moves a b)
    (hway : a.scopes.Way a.scopes.current is) : Spares is a b := by
  induction h with
  | refl => exact ⟨is, hway, fun i s hi hs => ⟨hi, hs⟩⟩
  | tail _ hmove ih =>
    obtain ⟨is', hway', hspared⟩ := ih
    obtain ⟨is'', hway'', hspared'⟩ := hmove.spares hway'
    refine ⟨is'', hway'', fun i s hi hs => ?_⟩
    obtain ⟨hi', hs'⟩ := hspared i s hi hs
    exact hspared' i s hi' hs'

/-- A scope that was entered and left is final. -/
theorem final_of_left {k : ScopeKind} (hway : a.scopes.Way a.scopes.current is)
    (h : Keeps { a with scopes := a.scopes.push k } b)
    (hlater : Relation.ReflTransGen Moves { b with scopes := b.scopes.pop } c) :
    ∃ s, b.scopes.get? a.scopes.count = some s ∧ c.scopes.get? a.scopes.count = some s := by
  have hinside : b.scopes.Way b.scopes.current (a.scopes.count :: is) := by
    rw [h.current]
    exact h.way (hway.push k)
  obtain ⟨s, hs, -⟩ := h.own _ (ScopeTree.get?_push_count k)
  obtain ⟨hnone, -⟩ | ⟨is', heq, hleft⟩ := hinside.pop
  · exact absurd (List.cons.inj hnone).2 hway.ne_nil
  · obtain ⟨-, rfl⟩ := List.cons.inj heq
    have hoff : a.scopes.count ∉ is := fun hmem => Nat.lt_irrefl _ (hway.lt_count hmem)
    obtain ⟨_, -, hspared⟩ := spares_of_moves hlater hleft
    exact ⟨s, hs, (hspared _ s hoff ((ScopeTree.get?_pop _ _).trans hs)).2⟩

end Analysis

/-! ## Reached states -/

namespace Stacked

variable {α : Type}

/-- The surroundings and the state of an analyser between two programs. -/
inductive Reached : Surroundings → Analysis → Prop
  | initial (inference : Bool) : Reached { inference } .initial
  | inference {s : Surroundings} {a : Analysis} (inference : Bool) :
      Reached s a → Reached { s with inference } a
  | program {s s' : Surroundings} {a b : Analysis} (p : Program) :
      Reached s a → ((checkProgram p).run s).run.run a = (some ((), s'), b) → Reached s' b

/-- A step has a result in the given surroundings, and ends in them. Result and state are those of the
step to which the surroundings are passed down, and only the scope at hand is touched. -/
structure Balanced (x : Stacked α) (y : Context → Check α) (s : Surroundings) (a : Analysis) :
    Prop where
  run : (x.run s).run.run a = (some (((y s.context).run a).1, s), ((y s.context).run a).2)
  keeps : a.Keeps ((y s.context).run a).2

/-- Between two programs an analyser is at the top level. -/
structure AtRest (s : Surroundings) (a : Analysis) : Prop where
  bound : s.bound = []
  current : a.scopes.current = 0
  way : ∃ is, a.scopes.Way a.scopes.current is

theorem Follows.balanced {x : Stacked α} {y : Context → Check α} (h : Follows x y) {s : Surroundings}
    (hs : s.bound = []) {a : Analysis} (hkeeps : a.Keeps ((y s.context).run a).2) :
    Balanced x y s a :=
  ⟨congrFun (h s hs) a, hkeeps⟩

theorem AtRest.checkProgram {s : Surroundings} {a : Analysis} (h : AtRest s a) (p : Program) :
    Balanced (checkProgram p) (Check.checkProgram · p) s a :=
  (Follows.checkProgram p).balanced h.bound (.checkProgram h.current _ p)

theorem Reached.atRest {s : Surroundings} {a : Analysis} (h : Reached s a) : AtRest s a := by
  induction h with
  | initial inference =>
    obtain ⟨scope, heq, hparent, -⟩ := Analysis.scopes_initial
    refine ⟨rfl, by rw [heq], [0], ?_⟩
    rw [heq]
    exact .root rfl hparent
  | inference _ _ ih => exact ⟨ih.bound, ih.current, ih.way⟩
  | program p _ hrun ih =>
    obtain ⟨hrun', hkeeps⟩ := ih.checkProgram p
    obtain ⟨is, hway⟩ := ih.way
    rw [hrun'] at hrun
    cases hrun
    refine ⟨ih.bound, hkeeps.current.trans ih.current, is, ?_⟩
    rw [hkeeps.current]
    exact hkeeps.way hway

/-- An analyser that was given one program has found in it what analysis finds. -/
theorem Reached.analyze (p : Program) (inference : Bool) :
    Reached { inference } (analyze p inference) :=
  .program p (.initial inference) ((Reached.initial inference).atRest.checkProgram p).run

/-- Analysis is balanced. After any number of programs, another one is checked to its end: it leaves
the scope at hand, the stacks and the counters as they were and type parameters unbound, and takes no
finding back. So does each expression and each statement, and it changes no scope but the one at hand;
a scope that was entered and left is final, whatever is checked after it. -/
theorem balanced_of_reached {s : Surroundings} {a : Analysis} (h : Reached s a) :
    s.bound = [] ∧ (∀ p, Balanced (checkProgram p) (Check.checkProgram · p) s a) ∧
    (∀ s' : Surroundings, s'.bound = [] → ∀ a',
      (∀ e, Balanced (inferType e) (Check.inferType · e) s' a') ∧
      ∀ st, Balanced (checkStmt st) (Check.checkStmt · st) s' a') ∧
    ∀ a' b c k, Relation.ReflTransGen Analysis.Moves a a' →
      Analysis.Keeps { a' with scopes := a'.scopes.push k } b →
      Relation.ReflTransGen Analysis.Moves { b with scopes := b.scopes.pop } c →
      ∃ scope, b.scopes.get? a'.scopes.count = some scope ∧
        c.scopes.get? a'.scopes.count = some scope := by
  have hrest := h.atRest
  refine ⟨hrest.bound, hrest.checkProgram, fun s' hs' a' => ⟨fun e => ?_, fun st => ?_⟩, ?_⟩
  · exact (Follows.inferType e).balanced hs' (.inferType a' _ e)
  · exact (Follows.checkStmt st).balanced hs' (.checkStmt a' _ st)
  · intro a' b c k hbefore hinside hlater
    obtain ⟨is, hway⟩ := hrest.way
    obtain ⟨is', hway', -⟩ := Analysis.spares_of_moves hbefore hway
    exact Analysis.final_of_left hway' hinside hlater

/-- A class template and a method that holds a function in a loop in a switch, with jumps. -/
def enclosures : Program :=
  let body : Block := ⟨[.whileLoop (.bool true {}) ⟨[.continue_ {}], {}⟩ {}, .ret none {}], {}⟩
  let loop : Stmt := .forLoop none none none ⟨[.expr (.lambda [] none body {}), .break_ {}], {}⟩ {}
  let switch : Stmt := .switch none [⟨[.bool true {}], ⟨[loop], {}⟩, {}⟩] (some ⟨[.break_ {}], {}⟩) {}
  let class_ : Class := ⟨⟨"C", {}⟩, none, [],
    [.method ⟨⟨"m", {}⟩, [], none, ⟨[switch], {}⟩, {}, {}⟩], {}⟩
  let box : Class := ⟨⟨"Box", {}⟩, none, [],
    [.field ⟨⟨"v", {}⟩, some (.named ⟨"T", {}⟩), none, false, {}, {}⟩], {}⟩
  ⟨[.class_ class_, .template [⟨"T", {}⟩] (.class_ box) {}], {}⟩

/-- It is checked a second time, on top of what the first time has left. -/
theorem balanced_enclosures :
    let a := analyze enclosures true
    Reached {} a ∧ a.scopes.count = 11 ∧ a.hasErrors = false ∧
      Balanced (checkProgram enclosures) (Check.checkProgram · enclosures) {} a := by
  intro a
  have hreached : Reached {} a := .analyze enclosures true
  exact ⟨hreached, by decide +kernel, by decide +kernel,
    (balanced_of_reached hreached).2.1 enclosures⟩

end Stacked

end ClassLang
