import ClassLang.Proofs.Frames.Balance
import ClassLang.Proofs.Frames.Program
import ClassLang.Proofs.Lockstep.Program

/-!
# Try statements around a point

Code for a statement is generated with a stack of the try statements around it. They are those of the
source: the try statements of the same function whose body or catch clause the statement belongs to,
also where the statement is part of a final block that is generated once more. So what runs before a
function is left are the final blocks of these statements, from the inside to the outside.
-/

namespace ClassLang

/-! ## Statements where they stand -/

/-- The statement that code is to be generated for. -/
def Demand.visit? : Demand → Option Visit
  | visit v => some v
  | _ => none

/-- The statements of a program where they stand: each with the final blocks of the try statements of
the same function whose body or catch clause it belongs to, the innermost first. -/
def Program.places (p : Program) : List Visit := p.demands.filterMap Demand.visit?

/-- The statements that code was generated for, or will be, stand like this in the program. -/
structure GenState.Standing (p : Program) (g : GenState) : Prop where
  visits : ∀ v ∈ g.visits, .visit v ∈ p.demands
  layouts : ∀ {name : String} {l : Layout}, g.layouts.find? name = some l →
    ∀ f ∈ l.fields, ∀ m ∈ Expr.demandsIf f.default?, m ∈ p.demands
  queue : ∀ i ∈ g.queue, ∀ m ∈ i.body.templateDemands, m ∈ p.demands

/-- Nothing is generated but what the program asks for. -/
def Discipline.standing (p : Program) : Discipline :=
  ⟨fun m => m ∈ p.demands, fun _ => True, fun _ => True, GenState.Standing p⟩

namespace Discipline

variable {p : Program} {c : Catalog}

instance : (standing p).Ambient where
  same _ hlayouts _ hqueue hvisits h :=
    ⟨hvisits ▸ h.visits, hlayouts ▸ h.layouts, hqueue ▸ h.queue⟩
  report _ _ h := ⟨h.visits, h.layouts, h.queue⟩

theorem lawful_standing (hc : c.Allowed (standing p)) : (standing p).Lawful c where
  misplaced _ _ _ h := ⟨h.visits, h.layouts, h.queue⟩
  visit hv h := { h with
    visits := List.forall_mem_append.2 ⟨h.visits, List.forall_mem_singleton.2 hv⟩ }
  addLayout hl h := { h with layouts := Table.of_find?_insert h.layouts hl }
  layout h hfind := h.layouts hfind
  queued h hi := ⟨fun _ _ => ⟨trivial, trivial⟩, h.queue _ hi⟩
  argument _ _ _ _ := trivial
  call _ _ _ := trivial
  params _ _ _ := trivial
  declared := hc

theorem tolerant_standing : (standing p).Tolerant := fun h => ⟨h.visits, h.layouts, h.queue⟩

theorem makes_standing (name : String) (args : List Ty) :
    (standing p).Makes c name args (standing p) where
  allows := rfl
  binds := rfl
  admits := rfl
  begins _ _ _ _ h := ⟨h.visits, h.layouts, h.queue⟩
  ends _ _ _ hbody h := { h with
    queue := List.forall_mem_append.2 ⟨h.queue, List.forall_mem_singleton.2 hbody⟩ }

end Discipline

theorem standing_generate (p : Program) (scopes : ScopeTree) (file? : Option String) (limit : Nat) :
    (generate p scopes file? limit).Standing p := by
  have hallows : (Discipline.standing p).Allows p.demands := fun _ hm => hm
  have hlawful := Discipline.lawful_standing (Catalog.allowed_ofProgram hallows scopes file? limit)
  have hgoverns : (Discipline.standing p).Governs _ :=
    ⟨hlawful, Discipline.tolerant_standing,
      .of_makes hlawful Discipline.tolerant_standing Discipline.makes_standing _⟩
  exact hgoverns.keeps_program hallows ⟨nofun, nofun, nofun⟩

/-- Code is generated with a stack of try statements, one of loops and one of scopes, and it is the code that
a walk without stacks gives. Whenever a statement is generated, the try statements on the stack are those
of the source that are around it. A statement or an expression leaves the stacks as they were, whatever
they were, and as many scopes as there were. And before a return statement ends a function, the final
blocks of the try statements on the stack run, from the inside to the outside and each once, up to the
first one that ends the block of code. -/
theorem try_nesting (p : Program) (scopes : ScopeTree) (file? : Option String) (limit : Nat) :
    Framed.generate p scopes file? limit = generate p scopes file? limit ∧
      (∀ (fuel : Nat) (env : Env),
        (∀ s, Framed.Simulates ⟨env, false⟩ ⟨env, false⟩ (Framed.stmt (Framed.detourAt fuel) s)
          (Lower.stmt (Lower.detourAt fuel) env s)) ∧
        ∀ e, Framed.Simulates ⟨env, false⟩ ⟨env, false⟩ (Framed.expr (Framed.detourAt fuel) e)
          (Lower.expr (Lower.detourAt fuel) env e)) ∧
      (∀ v ∈ (Framed.generate p scopes file? limit).visits, v ∈ p.places) ∧
      (∀ (fuel : Nat) (f : Frame) (g : GenState),
        (∀ s, f.Balanced (((Framed.stmt (Framed.detourAt fuel) s).run f).run g).1.2) ∧
        ∀ e, f.Balanced (((Framed.expr (Framed.detourAt fuel) e).run f).run g).1.2) ∧
      ∀ (fuel : Nat) (value? : Option Expr) (span : Span) (f : Frame) (g : GenState),
        let detour := Framed.detourAt fuel
        ∃ result? s bs s',
          ((do
            Lower.mark (← Framed.env) span
            let value? ← Framed.exprIf detour value?
            Lower.returnValue (← Framed.env) value? : Framed (Option Ir.Value)).run f).run g =
            ((result?, s.1), s.2) ∧
          Framed.Unwinds detour f.exceptions.reverse bs s s' ∧
          bs <+: f.exceptions.reverse.filterMap Try.finally? ∧
          (bs = f.exceptions.reverse.filterMap Try.finally? ∨ s'.1.ended = true) ∧
          ((Framed.stmt detour (.ret value? span)).run f).run g =
            ((Lower.terminate (.ret result?) : Framed Unit).run s'.1).run s'.2 := by
  have hgenerate := Framed.generate_eq p scopes file? limit
  refine ⟨hgenerate, fun fuel env => ⟨Framed.simulates_stmt fuel env, Framed.simulates_expr fuel env⟩,
    fun v hv => ?_, fun fuel f g => ⟨fun s => ?_, fun e => ?_⟩, ?_⟩
  · rw [hgenerate] at hv
    have hdemand := (standing_generate p scopes file? limit).visits v hv
    exact List.mem_filterMap.2 ⟨_, hdemand, rfl⟩
  · exact (Framed.keeps_stmt fuel s).balanced f g
  · exact (Framed.keeps_expr fuel e).balanced f g
  · intro fuel value? span f g detour
    obtain ⟨result?, s, bs, s', hvalue, hunwinds, hrun⟩ :=
      Framed.Unwinds.ret fuel value? span f g
    exact ⟨result?, s, bs, s', hvalue, hunwinds, hunwinds.isPrefix, hunwinds.all_or_ended, hrun⟩

/-- A return statement in two try statements with final blocks. -/
def twoTries : Program :=
  let call (name : String) : Stmt := .expr (.call (.ident ⟨name, {}⟩) [] {})
  let inner : Stmt := .tryCatch ⟨[.ret none {}], {}⟩ [] (some ⟨[call "a"], {}⟩) {}
  let outer : Stmt := .tryCatch ⟨[inner], {}⟩ [] (some ⟨[call "b"], {}⟩) {}
  ⟨[.function ⟨⟨"f", {}⟩, [], none, ⟨[outer], {}⟩, {}, {}⟩], {}⟩

-- The return statement stands in both; both final blocks follow it, and come again at the end.
example : (Framed.generate twoTries {} none).visits.map (fun v => v.tries.length) = [0, 1, 2, 1, 0, 1, 0] := by
  decide +kernel

end ClassLang
