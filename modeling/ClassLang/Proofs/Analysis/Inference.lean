import ClassLang.Proofs.Comparison.Program

/-!
# Analysis without inference

Without inference, a variable that is declared without a type is unknown, and what is unknown may
stand for everything. So a program that is accepted with inference is accepted without, unless a
delicate question comes up: a sum of an integer and an unknown number is taken for an integer,
elements are only compared as wholes, and no unknown value may be returned from a function without
a result.
-/

namespace ClassLang

/-- Types may have faded on the right. Nothing is wrong there. -/
def Comparison.fading : Comparison where
  names _ := True
  fades := true
  records _ r' := ∀ f ∈ r'.findings, f.isError = false
  report _ hquiet h := List.forall_mem_append.2 ⟨h, List.forall_mem_singleton.2 (hquiet rfl)⟩
  judge _ h := h
  judge_left _ _ h := h
  judge_right _ _ h := h
  missing hn _ := absurd trivial hn

theorem Comparison.states_initial : fading.States .initial .initial := by
  obtain ⟨s, hs, hparent, hclass⟩ := Analysis.scopes_initial
  refine ⟨?_, rfl, nofun⟩
  rw [hs]
  exact Trees.single ⟨rfl, .inl ⟨rfl, hparent⟩, fun _ _ => Std.Refl.refl _,
    fun _ _ _ _ _ _ _ => trivial, fun _ hn => absurd trivial hn⟩

theorem Analysis.hasErrors_eq_false {a : Analysis} :
    a.hasErrors = false ↔ ∀ f ∈ a.findings, f.isError = false := by
  simp [hasErrors]

/-- If nothing is wrong with a program when types are inferred, and no question was delicate, then
nothing is wrong when they are not: every name stands for the same as before, but that the type of a
stored value may have become unknown. -/
theorem accepted_without_inference (p : Program) (haccepted : (analyze p true).hasErrors = false)
    (hplain : ∀ j ∈ (analyze p true).judgements, j.isDelicate = false) :
    (analyze p false).hasErrors = false ∧
    ∀ i n, Option.Rel Comparison.fading.Symbols ((analyze p true).scopes.lookupIn i n)
      ((analyze p false).scopes.lookupIn i n) := by
  have hquiet : (analyze p true).record.Quiet :=
    ⟨Analysis.hasErrors_eq_false.1 haccepted, hplain⟩
  have hrel := Comparison.Rel.checkProgram (C := .fading) {} p fun _ _ => trivial
  have hstates := (hrel.2 _ _ Comparison.states_initial fun _ => hquiet).2
  exact ⟨Analysis.hasErrors_eq_false.2 hstates.records, fun i n => hstates.trees.lookupIn trivial i⟩

/-- A program of one function without parameters and result. -/
def inMain (stmts : List Stmt) : Program :=
  ⟨[.function ⟨⟨"main", {}⟩, [], none, ⟨stmts, {}⟩, {}, {}⟩], {}⟩

/-- An untyped variable is put into an untyped array next to a sum, the array is indexed by it and
changed in a loop, and one of its elements is stored in a typed variable. -/
def untypedRow : Program :=
  let x : Expr := .ident ⟨"x", {}⟩
  let row : Expr := .ident ⟨"row", {}⟩
  let sum : Expr := .binary .add x (.int 1 {}) {}
  inMain [
    .expr (.assign .define x (.int 1 {}) {}),
    .var ⟨"row", {}⟩ none (some (.array [x, sum] {})) {},
    .whileLoop (.binary .less (.index row x {}) (.int 5 {}) {})
      ⟨[.expr (.assign (.compound .add) (.index row x {}) x {})], {}⟩ {},
    .var ⟨"y", {}⟩ (some (.named ⟨"int", {}⟩)) (some (.index row x {})) {}]

theorem untypedRow_without_inference :
    (analyze untypedRow true).hasErrors = false ∧
    (∀ j ∈ (analyze untypedRow true).judgements, j.isDelicate = false) ∧
    ((analyze untypedRow false).scopes.lookupIn 1 "row").map (·.ty.isUnknown) = some true ∧
    (analyze untypedRow false).hasErrors = false ∧
    ∀ i n, Option.Rel Comparison.fading.Symbols ((analyze untypedRow true).scopes.lookupIn i n)
      ((analyze untypedRow false).scopes.lookupIn i n) := by
  have haccepted : (analyze untypedRow true).hasErrors = false := by decide +kernel
  have hplain : ∀ j ∈ (analyze untypedRow true).judgements, j.isDelicate = false := by
    decide +kernel
  exact ⟨haccepted, hplain, by decide +kernel,
    accepted_without_inference untypedRow haccepted hplain⟩

/-- A delicate question of each kind: whether the sum of an integer and an untyped variable is a
floating-point number, whether a row with an untyped variable in it agrees with another one, and
whether the value of a function without a result may be returned. -/
def delicateUses : List Program :=
  let x : Expr := .ident ⟨"x", {}⟩
  let define (value : Expr) : Stmt := .expr (.assign .define x value {})
  [inMain [define (.float .zero {}),
    .var ⟨"y", {}⟩ (some (.named ⟨"float", {}⟩)) (some (.binary .add (.int 1 {}) x {})) {}],
   inMain [define (.int 1 {}), .expr (.array [.array [x] {}, .array [.int 1 {}] {}] {})],
   inMain [define (.lambda [] none ⟨[], {}⟩ {}), .ret (some (.call x [] {})) {}]]

-- All of these are accepted with inference only.
example : delicateUses.map (fun p => (analyze p true).hasErrors) = [false, false, false] ∧
    delicateUses.map (fun p => (analyze p false).hasErrors) = [true, true, true] := by
  decide +kernel

end ClassLang
