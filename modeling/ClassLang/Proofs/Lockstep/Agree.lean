import ClassLang.Proofs.Lockstep.Demand
import ClassLang.Proofs.Code.Plain

/-!
# Runs that agree

Two runs of the generator go in lockstep: they give the same values, and their states and their
functions under construction are the same but for comments. On the way they keep to a `Discipline`:
an invariant of the states, with the demands of trees and the types that it can do with.
-/

namespace ClassLang

/-- What runs of the generator keep to. -/
structure Discipline where
  /-- The demands that trees may make. -/
  allows : Demand → Prop
  /-- The names that type parameters may have. -/
  binds : String → Prop
  /-- The types that templates may get as arguments. -/
  admits : Ty → Prop
  /-- An invariant of the state. -/
  keeps : GenState → Prop

namespace Discipline

/-- All of these demands may be made. -/
def Allows (d : Discipline) (L : List Demand) : Prop := ∀ m ∈ L, d.allows m

@[simp] theorem allows_nil (d : Discipline) : d.Allows [] := fun _ hm => nomatch hm

@[simp] theorem allows_cons (d : Discipline) (m : Demand) (L : List Demand) :
    d.Allows (m :: L) ↔ d.allows m ∧ d.Allows L := List.forall_mem_cons

@[simp] theorem allows_append (d : Discipline) (L M : List Demand) :
    d.Allows (L ++ M) ↔ d.Allows L ∧ d.Allows M := List.forall_mem_append

theorem allows_flatMap {α : Type} (d : Discipline) (f : α → List Demand) (l : List α) :
    d.Allows (l.flatMap f) ↔ ∀ a ∈ l, d.Allows (f a) := by
  simp only [Allows, List.mem_flatMap]
  grind

/-- The invariant is about errors, layouts, instances and statements, and is kept when routine errors
are reported. -/
class Ambient (d : Discipline) : Prop where
  same : ∀ {g g' : GenState}, g'.errors = g.errors → g'.layouts = g.layouts →
    g'.requests = g.requests → g'.queue = g.queue → g'.visits = g.visits → d.keeps g → d.keeps g'
  report : ∀ {g : GenState} (e : GenError), e.cause.isRoutine = true → d.keeps g →
    d.keeps { g with errors := g.errors ++ [e] }

/-- The invariant is kept when the limit on nesting is met. -/
def Tolerant (d : Discipline) : Prop := ∀ {g : GenState}, d.keeps g →
  d.keeps { g with errors := g.errors ++ [⟨.unbounded, none⟩] }

end Discipline

variable {α β : Type} {d : Discipline}

namespace Gen

/-- Two steps go in lockstep. -/
def Agree (d : Discipline) (x y : Gen α) : Prop :=
  ∀ g g' : GenState, g.bare = g'.bare → d.keeps g →
    (x.run g).1 = (y.run g').1 ∧ (x.run g).2.bare = (y.run g').2.bare ∧ d.keeps (x.run g).2

/-- A step goes in lockstep with itself. -/
abbrev Agrees (d : Discipline) (x : Gen α) : Prop := Agree d x x

namespace Agree

variable {x y : Gen α} {f f' : α → Gen β}

/-- The result of the first step is of some kind. -/
theorem bindOf {P : α → Prop} (hx : Agree d x y) (hP : ∀ g, d.keeps g → P (x.run g).1)
    (hf : ∀ a, P a → Agree d (f a) (f' a)) : Agree d (x >>= f) (y >>= f') := by
  intro g g' hg hkeeps
  obtain ⟨hv, hg₁, hkeeps₁⟩ := hx g g' hg hkeeps
  have hrest := hf (x.run g).1 (hP g hkeeps) _ _ hg₁ hkeeps₁
  rw [StateT.run_bind, StateT.run_bind]
  show ((f (x.run g).1).run (x.run g).2).1 = ((f' (y.run g').1).run (y.run g').2).1 ∧
    ((f (x.run g).1).run (x.run g).2).2.bare = ((f' (y.run g').1).run (y.run g').2).2.bare ∧
    d.keeps ((f (x.run g).1).run (x.run g).2).2
  rwa [← hv]

theorem bind (hx : Agree d x y) (hf : ∀ a, Agree d (f a) (f' a)) :
    Agree d (x >>= f) (y >>= f') :=
  hx.bindOf (P := fun _ => True) (fun _ _ => trivial) fun a _ => hf a

theorem pure (a : α) : Agree d (Pure.pure a) (Pure.pure a) := fun _ _ hg h => ⟨rfl, hg, h⟩

/-- A step that only looks at the state. -/
theorem reading (f : GenState → α) (h : ∀ g, x.run g = (f g.bare, g)) : Agree d x x := by
  intro g g' hg hkeeps
  rw [h g, h g', hg]
  exact ⟨rfl, rfl, hkeeps⟩

/-- What comes next depends on the state. -/
theorem bindState {f f' : GenState → Gen β}
    (hf : ∀ g g', g.bare = g'.bare → Agree d (f g) (f' g')) : Agree d (get >>= f) (get >>= f') :=
  fun g g' hg hkeeps => hf g g' hg g g' hg hkeeps

/-- A step that only changes the state. -/
theorem changing {h : GenState → GenState} (hbare : ∀ g, (h g).bare = h g.bare)
    (hkeeps : ∀ g, d.keeps g → d.keeps (h g)) : Agrees d (modify h : Gen Unit) := by
  intro g g' hg hg'
  refine ⟨rfl, ?_, hkeeps g hg'⟩
  show (h g).bare = (h g').bare
  rw [hbare, hbare, hg]

theorem ite {c : Prop} [Decidable c] {x' y' : Gen α} (hx : Agree d x x') (hy : Agree d y y') :
    Agree d (if c then x else y) (if c then x' else y') := by
  split <;> assumption

theorem mapM (l : List α) (h : ∀ a ∈ l, Agree d (f a) (f' a)) :
    Agree d (l.mapM f) (l.mapM f') := by
  induction l with
  | nil => exact pure []
  | cons a l ih =>
    rw [List.mapM_cons, List.mapM_cons]
    have hl := ih fun b hb => h b (List.mem_cons_of_mem a hb)
    exact (h a List.mem_cons_self).bind fun b => hl.bind fun bs => pure (b :: bs)

theorem forM {f f' : α → Gen Unit} (l : List α) (h : ∀ a ∈ l, Agree d (f a) (f' a)) :
    Agree d (l.forM f) (l.forM f') := by
  induction l with
  | nil => exact pure ()
  | cons a l ih =>
    have hl := ih fun b hb => h b (List.mem_cons_of_mem a hb)
    exact (h a List.mem_cons_self).bind fun _ => hl

variable [d.Ambient]

/-- A step that changes nothing that the invariant is about. -/
theorem changingRest {h : GenState → GenState} (hbare : ∀ g, (h g).bare = h g.bare)
    (hrest : ∀ g, (h g).errors = g.errors ∧ (h g).layouts = g.layouts ∧
      (h g).requests = g.requests ∧ (h g).queue = g.queue ∧ (h g).visits = g.visits) :
    Agrees d (modify h : Gen Unit) := by
  refine changing hbare fun g => ?_
  obtain ⟨herrors, hlayouts, hrequests, hqueue, hvisits⟩ := hrest g
  exact Discipline.Ambient.same herrors hlayouts hrequests hqueue hvisits

theorem report {cause : GenError.Cause} (hcause : cause.isRoutine = true) (span : Span) :
    Agrees d (Gen.report cause span) :=
  changing (fun _ => rfl) fun _ => Discipline.Ambient.report _ hcause

theorem internal (problem : String) : Agrees d (Gen.internal problem) :=
  changing (fun _ => rfl) fun _ => Discipline.Ambient.report _ rfl

omit [d.Ambient] in
theorem exhausted : Agrees d Gen.exhausted :=
  reading (fun g => g.errors.any (·.cause == .unbounded)) fun _ => rfl

omit [d.Ambient] in
theorem exhaust (hd : d.Tolerant) : Agrees d Gen.exhaust :=
  exhausted.bind fun _ => .ite (changing (fun _ => rfl) fun _ => hd) (pure ())

theorem addString (bytes : List UInt8) : Agrees d (Gen.addString bytes) := by
  intro g g' hg hkeeps
  have hmodule : g.module.bare = g'.module.bare := congrArg GenState.module hg
  have hglobals : g.module.globals = g'.module.globals := (congrArg Ir.Module.globals hmodule :)
  refine ⟨?_, ?_, Discipline.Ambient.same (by rfl) (by rfl) (by rfl) (by rfl) (by rfl) hkeeps⟩
  · show (g.module.addString bytes).1 = (g'.module.addString bytes).1
    rw [Ir.Module.addString, Ir.Module.addString, Ir.Module.stringCount, Ir.Module.stringCount,
      hglobals]
    cases g'.module.globals.find? fun g => g.bytes? == some bytes <;> rfl
  · show ({ g.bare with module := (g.module.addString bytes).2.bare } : GenState) =
      { g'.bare with module := (g'.module.addString bytes).2.bare }
    rw [Ir.Module.bare_addString, Ir.Module.bare_addString, hg, hmodule]

theorem declare (name : String) (ret : Ir.Ty) (params : List Ir.Ty) (variadic : Bool) :
    Agrees d (Gen.declare name ret params variadic) := by
  refine changingRest (fun g => ?_) fun _ => ⟨rfl, rfl, rfl, rfl, rfl⟩
  show ({ g.bare with module := (g.module.declare _).bare } : GenState) = _
  rw [Ir.Module.bare_declare]
  rfl

theorem recordCopy (k : Copy) : Agrees d (Gen.recordCopy k) :=
  changingRest (fun _ => rfl) fun _ => ⟨rfl, rfl, rfl, rfl, rfl⟩

theorem setFunction (symbol : String) (sig : Signature) : Agrees d (Gen.setFunction symbol sig) :=
  changingRest (fun _ => rfl) fun _ => ⟨rfl, rfl, rfl, rfl, rfl⟩

omit [d.Ambient] in
theorem function? (symbol : String) : Agrees d (Gen.function? symbol) :=
  reading (·.functions.find? symbol) fun _ => rfl

omit [d.Ambient] in
theorem layout? (cls : String) : Agrees d (Gen.layout? cls) :=
  reading (·.layouts.find? cls) fun _ => rfl

omit [d.Ambient] in
theorem hasLayout (cls : String) : Agrees d (Gen.hasLayout cls) :=
  reading (·.layouts.contains cls) fun _ => rfl

end Agree

end Gen

namespace Lower

/-- Two pieces of code go in lockstep. -/
def Agree (d : Discipline) (x y : Lower α) : Prop :=
  ∀ (c c' : Cursor) (g g' : GenState), c.bare = c'.bare → g.bare = g'.bare → d.keeps g →
    ((x.run c).run g).1.1 = ((y.run c').run g').1.1 ∧
    ((x.run c).run g).1.2.bare = ((y.run c').run g').1.2.bare ∧
    ((x.run c).run g).2.bare = ((y.run c').run g').2.bare ∧
    d.keeps ((x.run c).run g).2

/-- A piece of code goes in lockstep with itself. -/
abbrev Agrees (d : Discipline) (x : Lower α) : Prop := Agree d x x

namespace Agree

variable {x y : Lower α} {f f' : α → Lower β}

/-- The result of the first piece is of some kind. -/
theorem bindOf {P : α → Prop} (hx : Agree d x y)
    (hP : ∀ c g, d.keeps g → P ((x.run c).run g).1.1) (hf : ∀ a, P a → Agree d (f a) (f' a)) :
    Agree d (x >>= f) (y >>= f') := by
  intro c c' g g' hc hg hkeeps
  obtain ⟨hv, hc₁, hg₁, hkeeps₁⟩ := hx c c' g g' hc hg hkeeps
  have hrest := hf ((x.run c).run g).1.1 (hP c g hkeeps) _ _ _ _ hc₁ hg₁ hkeeps₁
  let next (f : α → Lower β) (r : (α × Cursor) × GenState) : (β × Cursor) × GenState :=
    ((f r.1.1).run r.1.2).run r.2
  show (next f ((x.run c).run g)).1.1 = (next f' ((y.run c').run g')).1.1 ∧
    (next f ((x.run c).run g)).1.2.bare = (next f' ((y.run c').run g')).1.2.bare ∧
    (next f ((x.run c).run g)).2.bare = (next f' ((y.run c').run g')).2.bare ∧
    d.keeps (next f ((x.run c).run g)).2
  simp only [next, ← hv]
  exact hrest

theorem bind (hx : Agree d x y) (hf : ∀ a, Agree d (f a) (f' a)) :
    Agree d (x >>= f) (y >>= f') :=
  hx.bindOf (P := fun _ => True) (fun _ _ _ => trivial) fun a _ => hf a

theorem map {h : α → β} (hx : Agree d x y) : Agree d (h <$> x) (h <$> y) := by
  intro c c' g g' hc hg hkeeps
  obtain ⟨hv, hrest⟩ := hx c c' g g' hc hg hkeeps
  exact ⟨congrArg h hv, hrest⟩

theorem pure (a : α) : Agree d (Pure.pure a) (Pure.pure a) :=
  fun _ _ _ _ hc hg hkeeps => ⟨rfl, hc, hg, hkeeps⟩

theorem lift {y y' : Gen α} (hy : Gen.Agree d y y') : Agree d (liftM y) (liftM y') := by
  intro c c' g g' hc hg hkeeps
  obtain ⟨hv, hrest⟩ := hy g g' hg hkeeps
  exact ⟨hv, hc, hrest⟩

theorem changing {h : Cursor → Cursor}
    (hh : ∀ c c' : Cursor, c.bare = c'.bare → (h c).bare = (h c').bare) :
    Agrees d (modify h : Lower Unit) :=
  fun c c' _ _ hc hg hkeeps => ⟨rfl, hh c c' hc, hg, hkeeps⟩

theorem ite {c : Prop} [Decidable c] {x' y' : Lower α} (hx : Agree d x x') (hy : Agree d y y') :
    Agree d (if c then x else y) (if c then x' else y') := by
  split <;> assumption

theorem freshRegister (ty : Ir.Ty) : Agrees d (Lower.freshRegister ty) := by
  intro c c' g g' hc hg hkeeps
  have hnext : c.nextRegister = c'.nextRegister := (congrArg Cursor.nextRegister hc :)
  refine ⟨congrArg (Ir.Register.mk · ty) hnext, ?_, hg, hkeeps⟩
  exact congrArg (fun c : Cursor => { c with nextRegister := c.nextRegister + 1 }) hc

theorem freshBlock : Agrees d Lower.freshBlock := by
  intro c c' g g' hc hg hkeeps
  have hnext : c.nextBlock = c'.nextBlock := (congrArg Cursor.nextBlock hc :)
  refine ⟨hnext, ?_, hg, hkeeps⟩
  exact congrArg (fun c : Cursor => { c with nextBlock := c.nextBlock + 1 }) hc

theorem startBlock (id : Nat) (label : String) : Agrees d (Lower.startBlock id label) :=
  changing fun _ _ hc => by rw [Cursor.bare_start, Cursor.bare_start, hc]

theorem emit (i : Ir.Instr) : Agrees d (Lower.emit i) :=
  changing fun _ _ hc => by rw [Cursor.bare_push, Cursor.bare_push, hc]

theorem terminate (t : Ir.Terminator) : Agrees d (Lower.terminate t) :=
  changing fun _ _ hc => by rw [Cursor.bare_terminate, Cursor.bare_terminate, hc]

theorem isTerminated : Agrees d Lower.isTerminated := fun _ _ _ _ hc hg hkeeps =>
  ⟨Cursor.isTerminated_eq hc, hc, hg, hkeeps⟩

theorem currentBlock : Agrees d Lower.currentBlock := fun _ _ _ _ hc hg hkeeps =>
  ⟨(congrArg (fun c : Cursor => c.current.id) hc :), hc, hg, hkeeps⟩

theorem site (env : Env) : Agrees d (Lower.site env) := fun _ _ _ _ hc hg hkeeps =>
  ⟨(congrArg (fun c : Cursor => (⟨c.scopes, env.loops⟩ : Site)) hc :), hc, hg, hkeeps⟩

theorem lookup (name : String) : Agrees d (Lower.lookup name) := fun c c' g g' hc hg hkeeps => by
  have hlocal : c.local? name = c'.local? name := (congrArg (Cursor.local? · name) hc :)
  have hglobals : g.globals = g'.globals := (congrArg GenState.globals hg :)
  refine ⟨?_, hc, hg, hkeeps⟩
  show (c.local? name <|> g.globals.find? name) = (c'.local? name <|> g'.globals.find? name)
  rw [hlocal, hglobals]

/-- Plain code goes in lockstep. -/
theorem plain [d.Ambient] {α : Type} {x y : Lower α} (h : Alike Lower Lower x y) : Agree d x y := by
  induction h with
  | pure a => exact pure a
  | bind _ _ ihx ihf => exact ihx.bind ihf
  | looking f h => exact lift (.reading f h)
  | freshRegister ty => exact freshRegister ty
  | freshBlock => exact freshBlock
  | restart _ label =>
    exact (terminate _).bind fun _ => freshBlock.bind fun id => startBlock id label
  | emit i => exact emit i
  | terminate t => exact terminate t
  | isTerminated => exact isTerminated
  | currentBlock => exact currentBlock
  | lookup name => exact lookup name
  | slot i =>
    exact changing fun _ _ => congrArg fun c : Cursor => { c with slots := c.slots ++ [i] }
  | bindName name l =>
    rw [bind_eq_modify]
    exact changing fun _ _ => congrArg fun c : Cursor =>
      { c with scopes := c.scopes.modifyHead (·.insert name l) }
  | personality name =>
    exact changing fun _ _ => congrArg fun c : Cursor => { c with
      header := { c.header with personality? := some name } }
  | report h span => exact lift (.report h span)
  | declare name ret params variadic => exact lift (.declare name ret params variadic)
  | addString bytes => exact lift (.addString bytes)

end Agree

end Lower

end ClassLang
