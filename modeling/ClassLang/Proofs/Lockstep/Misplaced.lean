import ClassLang.Proofs.Analysis.Placement
import ClassLang.Proofs.Lockstep.Program

/-!
# Jumps and assignments that can be generated

Where all demands for jumps and assignments make sense, code generation never reports one of them.
Analysis vouches for the demands of the program, and an invariant of the state for what is generated
later: the first values of fields, and the bodies of instances.
-/

namespace ClassLang

/-- Whether an error says that a jump or an assignment stands where it makes no sense. -/
def GenError.Cause.isMisplaced : GenError.Cause → Bool
  | .outsideLoop _ | .invalidAssignTarget _ => true
  | _ => false

theorem GenError.Cause.isMisplaced_of_isRoutine {cause : GenError.Cause}
    (h : cause.isRoutine = true) : cause.isMisplaced = false := by
  cases cause <;> first | rfl | cases h

/-- The state of a run in which jumps and assignments make sense where they stand. -/
structure GenState.Placed (g : GenState) : Prop where
  errors : ∀ e ∈ g.errors, e.cause.isMisplaced = false
  layouts : ∀ {name : String} {l : Layout}, g.layouts.find? name = some l →
    ∀ f ∈ l.fields, Demand.Placed (Expr.demandsIf f.default?)
  queue : ∀ i ∈ g.queue, Demand.Placed i.body.templateDemands

theorem GenState.Placed.report {g : GenState} (h : g.Placed) {e : GenError}
    (he : e.cause.isMisplaced = false) : GenState.Placed { g with errors := g.errors ++ [e] } :=
  { h with errors := List.forall_mem_append.2 ⟨h.errors, List.forall_mem_singleton.2 he⟩ }

/-- Jumps and assignments make sense where they stand, and are not reported. -/
def Discipline.placed : Discipline :=
  ⟨fun m => m.isPlaced = true, fun _ => True, fun _ => True, GenState.Placed⟩

instance : Discipline.placed.Ambient where
  same herrors hlayouts _ hqueue _ h :=
    ⟨herrors ▸ h.errors, hlayouts ▸ h.layouts, hqueue ▸ h.queue⟩
  report _ hcause h := h.report (GenError.Cause.isMisplaced_of_isRoutine hcause)

theorem Discipline.lawful_placed {c : Catalog} (hc : c.Allowed .placed) :
    Discipline.placed.Lawful c where
  misplaced hallows hmisplaced _ _ := absurd (hmisplaced.symm.trans hallows) nofun
  visit _ h := ⟨h.errors, h.layouts, h.queue⟩
  addLayout hl h := { h with layouts := Table.of_find?_insert h.layouts hl }
  layout h hfind := h.layouts hfind
  queued h hi := ⟨fun _ _ => ⟨trivial, trivial⟩, h.queue _ hi⟩
  argument _ _ _ _ := trivial
  call _ _ _ := trivial
  params _ _ _ := trivial
  declared := hc

theorem Discipline.makes_placed (c : Catalog) (name : String) (args : List Ty) :
    Discipline.placed.Makes c name args .placed where
  allows := rfl
  binds := rfl
  admits := rfl
  begins _ _ _ _ h := ⟨h.errors, h.layouts, h.queue⟩
  ends _ _ _ hbody h := { h with
    queue := List.forall_mem_append.2 ⟨h.queue, List.forall_mem_singleton.2 hbody⟩ }

/-- Code generation has no complaint about jumps and assignments that make sense. -/
theorem placed_generate {p : Program} (hp : Demand.Placed p.demands) (scopes : ScopeTree)
    (file? : Option String) (limit : Nat) : (generate p scopes file? limit).Placed := by
  have hallows : Discipline.placed.Allows p.demands := hp
  have hlawful := Discipline.lawful_placed (Catalog.allowed_ofProgram hallows scopes file? limit)
  have htolerant : Discipline.placed.Tolerant := fun h => h.report rfl
  have hgoverns : Discipline.placed.Governs _ :=
    ⟨hlawful, htolerant, .of_makes hlawful htolerant (Discipline.makes_placed _) _⟩
  exact hgoverns.keeps_program hallows ⟨nofun, nofun, nofun⟩

/-- Where analysis finds no error, code generation finds no jump outside of a loop and no target that
nothing can be assigned to. -/
theorem jumps_and_assigns (p : Program) (inference : Bool) (file? : Option String) (limit : Nat)
    (h : (analyze p inference).hasErrors = false) :
    ∀ e ∈ (generate p (analyze p inference).scopes file? limit).errors,
      (∀ keyword, e.cause ≠ .outsideLoop keyword) ∧ ∀ target, e.cause ≠ .invalidAssignTarget target := by
  intro e he
  have hp := Check.placed_of_checkProgram { inference } rfl rfl p .initial h
  have hcause := (placed_generate hp (analyze p inference).scopes file? limit).errors e he
  constructor
  all_goals
    rintro _ heq
    rw [heq] at hcause
    exact absurd hcause nofun

/-- A template with a loop that is left and gone on with inside of a try statement, for a type that has
no such field as is incremented there. -/
def counting : Program :=
  let x : Expr := .ident ⟨"x", {}⟩
  let increment : Stmt := .expr (.postfixed .increment (.member x ⟨"count", {}⟩ false {}) {})
  let catch_ : Catch := ⟨none, none, ⟨[.continue_ {}], {}⟩, {}⟩
  let try_ : Stmt := .tryCatch ⟨[increment, .break_ {}], {}⟩ [catch_]
    (some ⟨[.expr (.assign .assign x x {})], {}⟩) {}
  let count : Function := ⟨⟨"count", {}⟩, [⟨⟨"x", {}⟩, some (.named ⟨"T", {}⟩), {}⟩], none,
    ⟨[.whileLoop (.bool true {}) ⟨[try_], {}⟩ {}], {}⟩, {}, {}⟩
  let call : Expr := .call (.templateInstance ⟨"count", {}⟩ [.named ⟨"int", {}⟩] {}) [.int 1 {}] {}
  ⟨[.template [⟨"T", {}⟩] (.function count) {},
    .function ⟨⟨"main", {}⟩, [], none, ⟨[.expr call], {}⟩, {}, {}⟩], {}⟩

/-- Analysis accepts the program, and only the field is reported later. -/
theorem counting_jumps_and_assigns :
    (analyze counting true).hasErrors = false ∧
      (generate counting (analyze counting true).scopes none).errors.map GenError.cause =
        [.unknownMember "int" "count"] ∧
      ∀ e ∈ (generate counting (analyze counting true).scopes none).errors,
        (∀ keyword, e.cause ≠ .outsideLoop keyword) ∧
          ∀ target, e.cause ≠ .invalidAssignTarget target := by
  have h : (analyze counting true).hasErrors = false := by decide +kernel
  exact ⟨h, by decide +kernel, jumps_and_assigns counting true none 1000 h⟩

end ClassLang
