import ClassLang.Proofs.Analysis.Members
import ClassLang.Proofs.Capture.Parents
import ClassLang.Proofs.Evolution.Program
import ClassLang.Proofs.Locations.Labels

/-!
# Layouts of the classes of a program

While a program is generated, layouts are made for classes and for instances of templates, in whatever
order they are needed. In an accepted program a class that is sheltered from type parameters has one
layout for all of this: the fields and methods of its ancestors and its own, with the types that are
written with them. A class that is not sheltered may be laid out with the type argument of an instance
in place of a type of its own.
-/

namespace ClassLang

instance (c : Catalog) : GenState.Graded fun _ => GenState.Respects c where
  ambient := inferInstanceAs (GenState.Ambient (GenState.Respects c))
  append h h' := GenState.Ambient.trans h h'
  mono _ h := h

namespace GenState

variable {c : Catalog} {g : GenState}

theorem Respects.walk (hc : c.HasClosedFields) :
    Lower.Walk c (fun _ => Respects c) (fun _ => True) (fun _ => True) where
  typing := (Gen.instantiates hc c.limit).follows
  lambda {_ g _} h := by
    have hnext : Respects c g { g with lambdas := g.lambdas + 1 } :=
      .of_eq rfl (List.Subset.refl _) rfl rfl
    exact Ambient.trans hnext h
  inner {_ g _ f} sig _ h := by
    have hset : Respects c g { g with functions := g.functions.insert f.name sig } :=
      .of_eq rfl (List.Subset.refl _) rfl rfl
    exact Ambient.trans (Ambient.trans hset h) (.of_eq rfl (List.Subset.refl _) rfl rfl)
  function _ _ h := Ambient.trans h (.of_eq rfl (List.Subset.refl _) rfl rfl)
  fields h := h fun _ _ _ _ _ _ _ => trivial
  sublist _ _ := trivial
  once _ := trivial
  twice _ := trivial
  nothing _ h := h

theorem Respects.steady (hc : c.HasClosedFields) : Steady c (Respects c) :=
  ⟨walk hc, fun _ => .of_eq rfl (List.Subset.refl _) rfl rfl,
    fun _ => .of_eq rfl (List.Subset.refl _) rfl rfl⟩

end GenState

namespace Gen

open GenState (Respects)

variable {c : Catalog} (hc : c.HasClosedFields)
include hc

theorem respects_declareGlobal (name : String) (type? : Option TypeExpr) (value? : Option Expr) :
    Follows (Respects c) (declareGlobal { catalog := c } name type? value?) := by
  have hrest : ∀ (ty : Ty) (ir : Ir.Ty) (init : Ir.Value), Follows (Respects c) (do
      modifyModule (·.addGlobal (.variable_ name ir init))
      modify fun s => { s with globals := s.globals.insert name ⟨.global name, ty, ir⟩ }) :=
    fun _ _ _ _ => .of_eq rfl (List.Subset.refl _) rfl rfl
  refine .bind (.globalType ((instantiates hc c.limit).follows []) name type? value?) fun ty => ?_
  split
  · exact .bind (.pure _) fun _ => hrest ty _ _
  · refine .bind (.constantValue _ _) fun v? => ?_
    split
    · exact .bind (.pure _) fun _ => hrest ty _ _
    · refine .bind (fun _ => .of_eq rfl (List.Subset.refl _) rfl rfl) fun _ => ?_
      exact .bind (.pure _) fun _ => hrest ty _ _

theorem respects_declareStmt (s : Stmt) :
    Follows (Respects c) (declareStmt { catalog := c } s) := by
  have hset : ∀ name sig, Follows (Respects c) (setFunction name sig) :=
    fun _ _ _ => .of_eq rfl (List.Subset.refl _) rfl rfl
  unfold declareStmt
  split
  · split
    · exact .bind (.pure _) fun _ => hset _ _
    · refine .bind (.writtenSignature _ _ (.inl ?_)) fun _ => hset _ _
      exact (instantiates hc c.limit).follows []
  · exact respects_declareGlobal hc _ _ _
  · exact respects_declareGlobal hc _ _ _
  · exact .pure _

theorem respects_program (p : Program) : Follows (Respects c) (program c p) := by
  have h := GenState.Respects.steady hc
  have hdetour : (Lower.detourAt c.limit).Fits c (Respects c) fun _ => True :=
    .detourAt h.walk c.limit
  rw [program_eq_closing]
  refine .bind (.bind ?_ fun _ => ?_) fun _ => ?_
  · refine .bind (.forM _ fun s => respects_declareStmt hc s) fun _ => .forM _ fun name => ?_
    exact .bind (respects_ensureLayout (instantiates hc c.limit) hc name) fun _ => .pure _
  · refine .bind (.generateStart h rfl hdetour p) fun _ => ?_
    exact .forM _ fun s => .generateStmt h rfl hdetour s
  · exact .bind (.generateInstances h rfl hdetour _) fun _ => .closing h

end Gen

/-! ## Accepted programs -/

/-- In a program that was read from a source, declarations have lines. -/
theorem Check.located_parse (source : String) : Check.Located (parse source).1 := by
  intro s hs d hd
  obtain ⟨front, text, -, hlabel⟩ :=
    (Locates.declaredSymbol? (sound_of_contains (.stmt hs)) hd).label
  have hline : 1 + front.count '\n' = d.span.line :=
    (Place.line_after _ _).symm.trans (congrArg Place.line hlabel)
  omega

/-- The classes of a catalog are declared in its program. -/
theorem Catalog.mem_of_find?_ofProgram {p : Program} {scopes : ScopeTree} {file? : Option String}
    {limit : Nat} {name : String} {d : Class} (h : (ofProgram scopes file? p limit).classes.find? name = some d) :
    .class_ d ∈ p.stmts := by
  have hfold : ∀ (stmts : List Stmt) (c : Catalog),
      (stmts.foldl add c).classes.find? name = some d →
        c.classes.find? name = some d ∨ .class_ d ∈ stmts := by
    intro stmts
    induction stmts with
    | nil => exact fun _ h => .inl h
    | cons s stmts ih =>
      intro c h
      rcases ih _ h with h | h
      · cases s with
        | class_ d' =>
          rw [add, Table.find?_insert] at h
          split at h
          · cases h
            exact .inr List.mem_cons_self
          · exact .inl h
        | template params body span =>
          rw [add] at h
          left
          cases hbody : body.templateName? <;> rw [hbody] at h <;> exact h
        | _ => exact .inl h
      · exact .inr (List.mem_cons_of_mem _ h)
  refine (hfold p.stmts _ h).resolve_left fun h => ?_
  cases h

theorem Catalog.hasClosedFields_of_accepted {p : Program} {inference : Bool} (file? : Option String)
    (limit : Nat) (hlocated : Check.Located p) (haccepted : (analyze p inference).hasErrors = false) :
    (ofProgram (analyze p inference).scopes file? p limit).HasClosedFields := by
  intro name d hd info hinfo
  rw [scopes_ofProgram] at hinfo
  exact Check.freeParams_of_field hlocated haccepted (mem_of_find?_ofProgram hd) hinfo

/-- The layout of a class, and every struct of its name, is what is written: the table and then the
fields of the ancestors and of the class, and for each method the signature in the nearest class that
declares it. -/
structure Catalog.AsWritten (c : Catalog) (g : GenState) (name : String) : Prop where
  layout : ∀ l, g.layouts.find? name = some l → ⟨name, l.members⟩ ∈ g.module.structs ∧
    ∃ lineage, c.Lineage name lineage ∧ c.LaysOut g lineage l
  struct : ∀ s ∈ g.module.structs, s.name = name → ∃ lineage slots, c.Lineage name lineage ∧
    List.Forall₂ (fun x s => c.Stores g x.1 x.2 s) (storedFields lineage) slots ∧
    s.fields = .ptr :: slots.map FieldSlot.ir

/-- In an accepted program a class is laid out as it is written, whatever it is laid out for, if its
members and those of its ancestors are written without the type parameters of the templates that
extend them, and if no instance has the name of one of these classes. -/
theorem asWritten_generate {p : Program} {inference : Bool} (file? : Option String) (limit : Nat)
    (hlocated : Check.Located p) (haccepted : (analyze p inference).hasErrors = false)
    (name : String) :
    let c := Catalog.ofProgram (analyze p inference).scopes file? p limit
    let g := generate p (analyze p inference).scopes file? limit
    c.Sheltered name → c.Apart g name → c.AsWritten g name := by
  intro c g hshelter hapart
  have hc : c.HasClosedFields := Catalog.hasClosedFields_of_accepted file? limit hlocated haccepted
  have hg : g.Regular c := (Gen.respects_program hc p _ (.initial file?)).2
  have hname : ¬g.HasSymbol name := hapart name [] .refl
  refine ⟨fun l hl => ?_, fun s hs hsname => ?_⟩
  · obtain ⟨-, hstruct, hfaithful⟩ := (hg.layouts name l hl).resolve_left hname
    exact ⟨hstruct, hfaithful hshelter hapart⟩
  · subst hsname
    obtain ⟨l, hmembers, hfaithful⟩ := (hg.structs s hs).resolve_left hname
    obtain ⟨lineage, hlineage, hl⟩ := hfaithful hshelter hapart
    exact ⟨lineage, l.fields, hlineage, hl.fields, hmembers.symm⟩

/-- A class with a field of type `string`, a template with one type parameter that extends it, and a
global of an instance for `int`. The instance is made before the class is laid out. -/
def boxesOf (param : String) : Program :=
  let located (name : String) : Ident := ⟨name, { line := 1 }⟩
  let type (name : String) : TypeExpr := .named ⟨name, {}⟩
  let shape : Class := ⟨located "Shape", none, [],
    [.field ⟨located "name", some (type "string"), none, false, {}, {}⟩,
      .method ⟨located "scaled", [⟨located "factor", some (type "int"), {}⟩], some (type "int"),
        ⟨[.ret (some (.ident ⟨"factor", {}⟩)) {}], {}⟩, {}, {}⟩], {}⟩
  let box : Class := ⟨located "Box", some ⟨"Shape", {}⟩, [],
    [.field ⟨located "value", some (type param), none, false, {}, {}⟩], {}⟩
  ⟨[.class_ shape, .template [located param] (.class_ box) {},
    .var (located "b") (some (.generic ⟨"Box", {}⟩ [type "int"] {})) none {},
    .function ⟨located "main", [], none, ⟨[], {}⟩, {}, {}⟩], {}⟩

/-- The class has its table and a string, as it is written. -/
theorem asWritten_boxesOf :
    let p := boxesOf "T"
    let c := Catalog.ofProgram (analyze p true).scopes none p
    let g := generate p (analyze p true).scopes none
    Check.Located p ∧ (analyze p true).hasErrors = false ∧ c.Sheltered "Shape" ∧ c.Apart g "Shape" ∧
      ⟨"Shape", [.ptr, .ptr]⟩ ∈ g.module.structs ∧ c.AsWritten g "Shape" := by
  intro p c g
  have hlocated : Check.Located p := by
    intro s hs d hd
    simp only [p, boxesOf, List.mem_cons, List.not_mem_nil, or_false] at hs
    rcases hs with rfl | rfl | rfl | rfl <;> cases hd <;> decide
  have haccepted : (analyze p true).hasErrors = false := by decide +kernel
  have hshelter : c.Sheltered "Shape" := Catalog.sheltered_of_avoids (by decide +kernel) _
  have hapart : c.Apart g "Shape" := Catalog.apart_of_ne (by decide +kernel)
  exact ⟨hlocated, haccepted, hshelter, hapart, by decide +kernel,
    asWritten_generate none 1000 hlocated haccepted "Shape" hshelter hapart⟩

-- If the type parameter is itself named `string`, the class gets an integer instead of the string.
example : (analyze (boxesOf "string") true).hasErrors = false ∧ ⟨"Shape", [.ptr, .i32]⟩ ∈
    (generate (boxesOf "string") (analyze (boxesOf "string") true).scopes none).module.structs := by
  decide +kernel

end ClassLang
