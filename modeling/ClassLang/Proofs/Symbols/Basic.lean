import Mathlib.Data.List.Flatten
import ClassLang.Proofs.Dispatch.Hierarchy
import ClassLang.Proofs.Evolution.Body

/-!
# Symbols of a module

Functions and globals share their names. A name is *taken* once the module defines it, or once an
instance waits that will define it. The names of lambdas and of strings are numbered, and an instance
has its names when it is asked for; these names are *given* out. `GenState.Defines` says how what is
taken may grow: by what is given out meanwhile, by the names of a list, and by the tables of the
classes that are laid out.
-/

namespace ClassLang

/-! ## The names of a declaration -/

/-- The names of functions and globals. -/
def Ir.Module.symbols (m : Ir.Module) : List String :=
  m.functions.map Ir.Function.name ++ m.globals.map Ir.Global.name

/-- The name of a string. -/
def Ir.Module.stringName (number : Nat) : String := s!".str.{number}"

/-- A string is added, unless there is an equal one. -/
theorem Ir.Module.addString_cases (m : Ir.Module) (bytes : List UInt8) :
    (m.addString bytes).2 = m ∨
      (m.addString bytes).2 = m.addGlobal (.string (stringName m.stringCount) bytes) := by
  unfold addString
  split
  · exact .inl rfl
  · exact .inr rfl

namespace Catalog

/-- The functions that are generated for a declaration under a symbol, with those that are declared
inside of them. -/
def functionsOf (c : Catalog) (symbol : String) : Stmt → List String
  | .function f => symbol :: f.body.inner
  | .class_ d =>
    d.methods.flatMap (fun m => Layout.methodSymbol symbol m.name.name :: m.body.inner) ++
      (c.methodsOf d.name.name).flatMap fun m =>
        Layout.methodSymbol symbol m.name.name :: m.body.inner
  | _ => []

/-- The table of a class under a symbol. -/
def tableOf (symbol : String) : Stmt → List String
  | .class_ _ => [Layout.vtableName symbol]
  | _ => []

/-- The names that an instance has. -/
def instanceSymbols (c : Catalog) (r : Request) : List String :=
  match c.templates.find? r.template with
  | some t => tableOf r.symbol t.body ++ c.functionsOf r.symbol t.body
  | none => []

theorem instanceSymbols_eq {c : Catalog} {r : Request} {body : Stmt}
    (h : (c.templates.find? r.template).map Template.body = some body) :
    c.instanceSymbols r = tableOf r.symbol body ++ c.functionsOf r.symbol body := by
  obtain ⟨t, ht, rfl⟩ := Option.map_eq_some_iff.1 h
  rw [instanceSymbols, ht]

end Catalog

namespace GenState

/-- An instance with a symbol was asked for, and this is its body. -/
def Requested (g : GenState) (c : Catalog) (symbol : String) (body : Stmt) : Prop :=
  ∃ r ∈ g.requests, r.symbol = symbol ∧ (c.templates.find? r.template).map Template.body = some body

/-- A layout under the name of a class or of an instance. The methods that the class declares are
functions under this name, and nothing is declared in the first values of the fields. -/
structure Lays (g : GenState) (c : Catalog) (name : String) (d : Class) (l : Layout) : Prop where
  source : c.classes.find? name = some d ∨ g.Requested c name (.class_ d)
  symbols : ∀ m, c.declares m d = true → ∀ e, l.methods.find? m = some e →
    e.symbol = Layout.methodSymbol name m
  fields : ∀ f ∈ l.fields, ∀ e, f.default? = some e → e.inner = []

/-- What holds of layouts, instances and tables at every point. -/
structure Tidy (g : GenState) (c : Catalog) : Prop where
  layouts : ∀ name l, g.layouts.find? name = some l → ∃ d, g.Lays c name d l
  queue : ∀ i ∈ g.queue, g.Requested c i.symbol i.body
  /-- Each struct has a table. -/
  tables : (g.module.structs.map fun s => Layout.vtableName s.name).Sublist
    (g.module.globals.map Ir.Global.name)

/-- The names that are taken: those that the module defines, and those of the functions of instances
that wait. -/
def taken (g : GenState) (c : Catalog) : List String :=
  g.module.symbols ++ (g.queue.drop g.lowered).flatMap fun i => c.functionsOf i.symbol i.body

/-- The names of lambdas and strings. -/
def numbered (g : GenState) : List String :=
  (List.range g.lambdas).map Lower.lambdaName ++
    (List.range g.module.stringCount).map Ir.Module.stringName

/-- The names that were given out: the numbered ones, and those of the instances that were asked
for. -/
def given (g : GenState) (c : Catalog) : List String :=
  g.numbered ++ g.requests.flatMap c.instanceSymbols

/-- What has been defined between two states. A class is laid out at most once; the names of those
that are laid out satisfy `P`. -/
structure Defined (c : Catalog) (P : String → Prop) (L : List String) (g g' : GenState) : Prop where
  tidy : g'.Tidy c
  keeps : ∀ name, g.layouts.contains name = true → g'.layouts.contains name = true
  counts : ∃ cs : List String, cs.Nodup ∧
    (∀ name ∈ cs, P name ∧ c.classes.contains name = true ∧
      g.layouts.contains name = false ∧ g'.layouts.contains name = true) ∧
    ∀ n, (g'.taken c).count n + (g.given c).count n ≤
      (g.taken c).count n + (g'.given c).count n + L.count n +
        (cs.map Layout.vtableName).count n

/-- Between two states no other names are defined than those of `L` and those that are given out, and
each of them no more often than that. -/
def Defines (c : Catalog) (P : String → Prop) (L : List String) (g g' : GenState) : Prop :=
  g.Tidy c → g.Defined c P L g'

variable {c : Catalog} {P Q : String → Prop} {L M : List String} {g g' g'' : GenState}

theorem Defined.append (h : g.Defined c P L g') (h' : g'.Defined c P M g'') :
    g.Defined c P (L ++ M) g'' := by
  obtain ⟨cs, hnodup, hcs, hcount⟩ := h.counts
  obtain ⟨cs', hnodup', hcs', hcount'⟩ := h'.counts
  refine ⟨h'.tidy, fun n hn => h'.keeps n (h.keeps n hn), cs ++ cs', ?_, ?_, fun n => ?_⟩
  · -- A class of the second part has no layout at the beginning of that part.
    refine List.nodup_append.2 ⟨hnodup, hnodup', ?_⟩
    rintro name hname _ hname' rfl
    have hlaid := (hcs name hname).2.2.2
    have hnew := (hcs' name hname').2.2.1
    rw [hlaid] at hnew
    cases hnew
  · intro name hname
    rcases List.mem_append.1 hname with hname | hname
    · obtain ⟨hP, hclass, hnew, hlaid⟩ := hcs name hname
      exact ⟨hP, hclass, hnew, h'.keeps name hlaid⟩
    · obtain ⟨hP, hclass, hnew, hlaid⟩ := hcs' name hname
      refine ⟨hP, hclass, ?_, hlaid⟩
      exact Bool.eq_false_iff.2 fun hold => by simp [h.keeps name hold] at hnew
  · have := hcount n
    have := hcount' n
    rw [List.map_append, List.count_append, List.count_append]
    omega

theorem Defined.mono (h : g.Defined c P L g') (hP : ∀ name, P name → Q name)
    (hL : ∀ n, L.count n ≤ M.count n) : g.Defined c Q M g' := by
  obtain ⟨cs, hnodup, hcs, hcount⟩ := h.counts
  refine ⟨h.tidy, h.keeps, cs, hnodup, fun name hname => ?_, fun n => ?_⟩
  · exact ⟨hP name (hcs name hname).1, (hcs name hname).2⟩
  · have := hcount n
    have := hL n
    omega

/-! ## Steps -/

theorem Requested.mono {symbol : String} {body : Stmt} (h : g.Requested c symbol body)
    (hrequests : g.requests ⊆ g'.requests) : g'.Requested c symbol body := by
  obtain ⟨r, hr, hsymbol⟩ := h
  exact ⟨r, hrequests hr, hsymbol⟩

theorem Lays.mono {name : String} {d : Class} {l : Layout} (h : g.Lays c name d l)
    (hrequests : g.requests ⊆ g'.requests) : g'.Lays c name d l :=
  ⟨h.source.imp_right (·.mono hrequests), h.symbols, h.fields⟩

/-- Layouts and the queue are as before, and there may be more requests and more globals. -/
theorem Tidy.of_eq (h : g.Tidy c) (hlayouts : g'.layouts = g.layouts) (hqueue : g'.queue = g.queue)
    (hrequests : g.requests ⊆ g'.requests) (hstructs : g'.module.structs = g.module.structs)
    (hglobals : g.module.globals.Sublist g'.module.globals) : g'.Tidy c := by
  refine ⟨fun name l hl => ?_, fun i hi => ?_, ?_⟩
  · rw [hlayouts] at hl
    obtain ⟨d, hd⟩ := h.layouts name l hl
    exact ⟨d, hd.mono hrequests⟩
  · rw [hqueue] at hi
    exact (h.queue i hi).mono hrequests
  · rw [hstructs]
    exact h.tables.trans (hglobals.map _)

/-- No class is laid out, and what is taken and given is as the counts say. -/
theorem Defined.of_tidy (htidy : g'.Tidy c) (hlayouts : g'.layouts = g.layouts)
    (hcount : ∀ n, (g'.taken c).count n + (g.given c).count n ≤
      (g.taken c).count n + (g'.given c).count n + L.count n) : g.Defined c P L g' := by
  refine ⟨htidy, fun _ hn => hlayouts ▸ hn, [], List.nodup_nil, fun _ hn => (nomatch hn), fun n => ?_⟩
  exact hcount n

/-- All that matters for names. -/
def footprint (g : GenState) :=
  (g.layouts, g.queue, g.lowered, g.requests, g.lambdas, g.module.functions, g.module.globals,
    g.module.structs)

/-- Nothing that matters for names has changed. -/
theorem Defines.of_eq (h : g'.footprint = g.footprint) : Defines c P [] g g' := by
  intro htidy
  simp only [footprint, Prod.mk.injEq] at h
  obtain ⟨hlayouts, hqueue, hlowered, hrequests, hlambdas, hfunctions, hglobals, hstructs⟩ := h
  have htaken : g'.taken c = g.taken c := by
    simp only [taken, Ir.Module.symbols, hqueue, hlowered, hfunctions, hglobals]
  have hgiven : g'.given c = g.given c := by
    simp only [given, numbered, Ir.Module.stringCount, hrequests, hlambdas, hglobals]
  refine .of_tidy ?_ hlayouts fun n => ?_
  · exact htidy.of_eq hlayouts hqueue (hrequests ▸ List.Subset.refl _) hstructs
      (hglobals ▸ List.Sublist.refl _)
  · rw [htaken, hgiven]
    omega

theorem count_taken_addGlobal (x : Ir.Global) (n : String) :
    ({ g with module := g.module.addGlobal x }.taken c).count n =
      (g.taken c).count n + [x.name].count n := by
  simp only [taken, Ir.Module.symbols, Ir.Module.addGlobal, List.map_append, List.map_cons,
    List.map_nil, List.count_append]
  omega

theorem tidy_addGlobal (h : g.Tidy c) (x : Ir.Global) :
    { g with module := g.module.addGlobal x }.Tidy c :=
  h.of_eq rfl rfl (List.Subset.refl _) rfl (List.sublist_append_left _ _)

/-- A variable is added. -/
theorem Defines.addVariable {x : Ir.Global} (hx : x.bytes? = none) :
    Defines c P [x.name] g { g with module := g.module.addGlobal x } := by
  intro h
  refine .of_tidy (tidy_addGlobal h x) rfl fun n => ?_
  have hgiven : { g with module := g.module.addGlobal x }.given c = g.given c := by
    simp [given, numbered, Ir.Module.stringCount, Ir.Module.addGlobal, hx]
  rw [count_taken_addGlobal, hgiven]
  omega

theorem Defines.addString (bytes : List UInt8) :
    Defines c P [] g { g with module := (g.module.addString bytes).2 } := by
  intro h
  rcases g.module.addString_cases bytes with hsame | hadded
  · rw [hsame]
    exact Defines.of_eq rfl h
  · rw [hadded]
    have hcount : (g.module.addGlobal (.string (Ir.Module.stringName g.module.stringCount)
        bytes)).stringCount = g.module.stringCount + 1 := by
      simp [Ir.Module.stringCount, Ir.Module.addGlobal, Ir.Global.bytes?]
    refine .of_tidy (tidy_addGlobal h _) rfl fun n => ?_
    rw [count_taken_addGlobal]
    simp only [given, numbered, hcount, List.range_succ, List.map_append, List.map_cons, List.map_nil,
      List.count_append, Ir.Global.name]
    omega

/-- A function is added. -/
theorem Defined.addFunction (h : g.Defined c P L g') (f : Ir.Function) (edits : List Edit) :
    g.Defined c P (f.name :: L) { g' with
      module := g'.module.addFunction f, edits := g'.edits ++ [edits] } := by
  obtain ⟨cs, hnodup, hcs, hcount⟩ := h.counts
  refine ⟨?_, h.keeps, cs, hnodup, hcs, fun n => ?_⟩
  · exact h.tidy.of_eq rfl rfl (List.Subset.refl _) rfl (List.Sublist.refl _)
  · have := hcount n
    have htaken : ({ g' with
        module := g'.module.addFunction f, edits := g'.edits ++ [edits] }.taken c).count n =
        (g'.taken c).count n + [f.name].count n := by
      simp only [taken, Ir.Module.symbols, Ir.Module.addFunction, List.map_append, List.map_cons,
        List.map_nil, List.count_append]
      omega
    have hL : ([f.name] ++ L).count n = [f.name].count n + L.count n := List.count_append
    rw [List.singleton_append] at hL
    rw [htaken, hL]
    show _ + (g.given c).count n ≤ (g.taken c).count n + (g'.given c).count n + _ + _
    omega

/-- What is given out at the beginning may be taken afterwards. -/
theorem Defined.of_given {g₁ : GenState} (h : g₁.Defined c P (M ++ L) g')
    (hlayouts : g₁.layouts = g.layouts)
    (hcount : ∀ n, (g₁.taken c).count n + (g.given c).count n + M.count n =
      (g.taken c).count n + (g₁.given c).count n) : g.Defined c P L g' := by
  obtain ⟨cs, hnodup, hcs, hcount'⟩ := h.counts
  refine ⟨h.tidy, hlayouts ▸ h.keeps, cs, hnodup, hlayouts ▸ hcs, fun n => ?_⟩
  have := hcount n
  have := hcount' n
  rw [List.count_append] at this
  omega

/-- The next number for a lambda. -/
theorem Defines.lambda
    (h : Defines c P (Lower.lambdaName g.lambdas :: L) { g with lambdas := g.lambdas + 1 } g') :
    Defines c P L g g' := by
  intro htidy
  let g₁ : GenState := { g with lambdas := g.lambdas + 1 }
  have htidy₁ : g₁.Tidy c := htidy.of_eq rfl rfl (List.Subset.refl _) rfl (List.Sublist.refl _)
  refine Defined.of_given (M := [Lower.lambdaName g.lambdas]) (h htidy₁) rfl fun n => ?_
  have htaken : g₁.taken c = g.taken c := rfl
  rw [htaken]
  simp only [given, numbered, List.range_succ, List.map_append, List.map_cons, List.map_nil,
    List.count_append]
  omega

/-- An instance is asked for. -/
theorem Defines.request (r : Request) (h : Defines c P (c.instanceSymbols r ++ L)
    { g with requests := g.requests ++ [r] } g') : Defines c P L g g' := by
  intro htidy
  let g₁ : GenState := { g with requests := g.requests ++ [r] }
  have htidy₁ : g₁.Tidy c :=
    htidy.of_eq rfl rfl (List.subset_append_left _ _) rfl (List.Sublist.refl _)
  refine Defined.of_given (h htidy₁) rfl fun n => ?_
  have htaken : g₁.taken c = g.taken c := rfl
  rw [htaken]
  simp only [given, numbered, List.flatMap_append, List.flatMap_cons, List.flatMap_nil,
    List.append_nil, List.count_append]
  omega

/-- The next instance is taken from the queue. -/
theorem Defines.take {i : TemplateInstance} (hi : g.queue[g.lowered]? = some i)
    (h : Defines c P (c.functionsOf i.symbol i.body ++ L) { g with lowered := g.lowered + 1 } g') :
    Defines c P L g g' := by
  intro htidy
  let g₁ : GenState := { g with lowered := g.lowered + 1 }
  have htidy₁ : g₁.Tidy c := htidy.of_eq rfl rfl (List.Subset.refl _) rfl (List.Sublist.refl _)
  refine Defined.of_given (h htidy₁) rfl fun n => ?_
  obtain ⟨hlt, hi⟩ := List.getElem?_eq_some_iff.1 hi
  have hdrop : g.queue.drop g.lowered = i :: g.queue.drop (g.lowered + 1) := by
    rw [List.drop_eq_getElem_cons hlt, hi]
  have hgiven : g₁.given c = g.given c := rfl
  rw [hgiven]
  simp only [taken, hdrop, List.flatMap_cons, List.count_append]
  omega

/-- An instance waits. -/
theorem Defines.queue (i : TemplateInstance) (hi : g.Requested c i.symbol i.body) :
    Defines c P (c.functionsOf i.symbol i.body) g { g with queue := g.queue ++ [i] } := by
  intro h
  refine .of_tidy ⟨fun name l hl => ?_, fun j hj => ?_, h.tables⟩ rfl fun n => ?_
  · obtain ⟨d, hd⟩ := h.layouts name l hl
    exact ⟨d, hd.mono (List.Subset.refl _)⟩
  · rcases List.mem_append.1 hj with hj | hj
    · exact (h.queue j hj).mono (List.Subset.refl _)
    · rw [List.mem_singleton.1 hj]
      exact hi.mono (List.Subset.refl _)
  · have hlast : ([i].drop (g.lowered - g.queue.length)).Sublist [i] := List.drop_sublist _ _
    have hcount := (hlast.flatMap fun i => c.functionsOf i.symbol i.body).count_le n
    simp only [taken, List.drop_append, List.flatMap_append, List.flatMap_cons, List.flatMap_nil,
      List.append_nil, List.count_append] at hcount ⊢
    show _ + (g.given c).count n ≤ _ + (g.given c).count n + _
    omega

/-! ## Layouts -/

section

variable {d : Class} {l : Layout}

theorem find?_recordLayout (l : Layout) (g : GenState) (name : String) :
    ((Gen.recordLayout l).run g).2.layouts.find? name =
      if name == l.name then some l else g.layouts.find? name :=
  Table.find?_insert ..

theorem contains_recordLayout (l : Layout) (g : GenState) (name : String) :
    ((Gen.recordLayout l).run g).2.layouts.contains name =
      (name == l.name || g.layouts.contains name) := by
  rw [Table.contains, find?_recordLayout]
  cases name == l.name <;> rfl

theorem count_taken_recordLayout (l : Layout) (g : GenState) (n : String) :
    (((Gen.recordLayout l).run g).2.taken c).count n =
      (g.taken c).count n + [Layout.vtableName l.name].count n :=
  count_taken_addGlobal (.vtable (Layout.vtableName l.name) l.vtable) n

theorem given_recordLayout (l : Layout) (g : GenState) :
    ((Gen.recordLayout l).run g).2.given c = g.given c := by
  have hcount : ((Gen.recordLayout l).run g).2.module.stringCount = g.module.stringCount := by
    show List.countP _ (g.module.globals ++ [.vtable (Layout.vtableName l.name) l.vtable]) = _
    rw [List.countP_append]
    rfl
  rw [given, numbered, hcount]
  rfl

theorem Tidy.recordLayout (h : g.Tidy c) (hl : g.Lays c l.name d l) :
    ((Gen.recordLayout l).run g).2.Tidy c := by
  refine ⟨fun name l' hl' => ?_, fun i hi => (h.queue i hi).mono (List.Subset.refl _), ?_⟩
  · rw [find?_recordLayout] at hl'
    split at hl'
    next hname =>
      cases hl'
      rw [eq_of_beq hname]
      exact ⟨d, hl.mono (List.Subset.refl _)⟩
    next =>
      obtain ⟨d', hd'⟩ := h.layouts name l' hl'
      exact ⟨d', hd'.mono (List.Subset.refl _)⟩
  · let s : Ir.Struct := ⟨l.name, l.members⟩
    let x : Ir.Global := .vtable (Layout.vtableName l.name) l.vtable
    show ((g.module.structs ++ [s]).map fun s => Layout.vtableName s.name).Sublist
      ((g.module.globals ++ [x]).map Ir.Global.name)
    rw [List.map_append, List.map_append]
    exact h.tables.append (List.Sublist.refl _)

/-- The layout of an instance. Its table is one of the names of the instance. -/
theorem Defines.recordInstance (hl : g.Lays c l.name d l) :
    Defines c P [Layout.vtableName l.name] g ((Gen.recordLayout l).run g).2 := by
  intro h
  refine ⟨h.recordLayout hl, fun name hname => ?_, [], List.nodup_nil, fun _ hn => (nomatch hn),
    fun n => ?_⟩
  · rw [contains_recordLayout, hname, Bool.or_true]
  · rw [count_taken_recordLayout, given_recordLayout]
    show _ ≤ _ + (0 : Nat)
    omega

/-- The layout of a class that had none when it was begun, and got none meanwhile. -/
theorem Defined.recordClass (h : g.Defined c P L g') (hl : g'.Lays c l.name d l)
    (hclass : c.classes.contains l.name = true) (hnew : g.layouts.contains l.name = false)
    (hP : ∀ name, P name → name ≠ l.name ∧ Q name) (hQ : Q l.name) :
    g.Defined c Q L ((Gen.recordLayout l).run g').2 := by
  obtain ⟨cs, hnodup, hcs, hcount⟩ := h.counts
  refine ⟨h.tidy.recordLayout hl, fun name hname => ?_, l.name :: cs, ?_, fun name hname => ?_,
    fun n => ?_⟩
  · rw [contains_recordLayout, h.keeps name hname, Bool.or_true]
  · exact List.nodup_cons.2 ⟨fun hmem => (hP _ (hcs _ hmem).1).1 rfl, hnodup⟩
  · rw [contains_recordLayout]
    rcases List.mem_cons.1 hname with rfl | hname
    · exact ⟨hQ, hclass, hnew, by simp⟩
    · obtain ⟨hname, hclass, hnew, hlaid⟩ := hcs name hname
      exact ⟨(hP name hname).2, hclass, hnew, by simp [hlaid]⟩
  · have := hcount n
    have hcons : ([Layout.vtableName l.name] ++ cs.map Layout.vtableName).count n =
        [Layout.vtableName l.name].count n + (cs.map Layout.vtableName).count n := List.count_append
    rw [List.singleton_append, ← List.map_cons] at hcons
    rw [count_taken_recordLayout, given_recordLayout, hcons]
    omega

end

end GenState

instance (c : Catalog) (P : String → Prop) : GenState.Ambient (GenState.Defines c P []) where
  refl _ := .of_eq rfl
  trans h h' := fun htidy => (h htidy).append (h' (h htidy).tidy)
  report _ _ := .of_eq rfl
  declare g d := by
    unfold Ir.Module.declare
    split
    all_goals exact .of_eq rfl
  string _ bytes := .addString bytes
  copy _ _ := .of_eq rfl
  visit _ _ := .of_eq rfl

instance (c : Catalog) (P : String → Prop) : GenState.Graded (GenState.Defines c P) where
  ambient := inferInstance
  append h h' := fun htidy => (h htidy).append (h' (h htidy).tidy)
  mono hL h := fun htidy => (h htidy).mono (fun _ hname => hname) hL

end ClassLang
