import ClassLang.Proofs.Evolution.Ambient

/-!
# What code generation adds to the state

Code is generated in small steps, and `GenState.Evolves` has one case for each of them. Nothing is
taken away: functions, requests and errors are added at the end, and a function that stands inside of
another one gets its signature before its body and comes to the module after it. Everything that
works inside of functions goes by these steps, whatever the state is.
-/

namespace ClassLang

/-- What the state of code generation may become when code is generated. -/
inductive GenState.Evolves : GenState → GenState → Prop
  | refl (g : GenState) : Evolves g g
  | trans {g g' g'' : GenState} : Evolves g g' → Evolves g' g'' → Evolves g g''
  | report (g : GenState) (e : GenError) : Evolves g { g with errors := g.errors ++ [e] }
  /-- A string, a declaration of an outside function, or a struct. -/
  | module (g : GenState) (m : Ir.Module) (h : m.functions = g.module.functions) :
    Evolves g { g with module := m }
  | copy (g : GenState) (k : Copy) : Evolves g { g with copies := g.copies ++ [k] }
  | visit (g : GenState) (v : Visit) : Evolves g { g with visits := g.visits ++ [v] }
  | lambda (g : GenState) : Evolves g { g with lambdas := g.lambdas + 1 }
  | layout (g : GenState) (l : Layout) : Evolves g { g with layouts := g.layouts.insert l.name l }
  | request (g : GenState) (r : Request) : Evolves g { g with requests := g.requests ++ [r] }
  /-- The signature of an instance that was asked for. -/
  | instance_ (g : GenState) {r : Request} (h : r ∈ g.requests) (sig : Signature) :
    Evolves g { g with functions := g.functions.insert r.symbol sig }
  | queue (g : GenState) (i : TemplateInstance) : Evolves g { g with queue := g.queue ++ [i] }
  /-- A function that is declared on the spot: what its body adds comes before it. -/
  | inner {g g' : GenState} {f : Ir.Function} (sig : Signature) (edits : List Edit) :
    Evolves { g with functions := g.functions.insert f.name sig } g' →
      Evolves g { g' with module := g'.module.addFunction f, edits := g'.edits ++ [edits] }
  /-- A function that was declared before. -/
  | function (g : GenState) (f : Ir.Function) (edits : List Edit) :
    Evolves g { g with module := g.module.addFunction f, edits := g.edits ++ [edits] }
  /-- The function that computes globals is there. -/
  | start (g : GenState) : Evolves g { g with hasInit := true }
  /-- The next instance is taken from the queue. -/
  | take (g : GenState) : Evolves g { g with lowered := g.lowered + 1 }

instance : GenState.Ambient GenState.Evolves where
  refl := .refl
  trans := .trans
  report := .report
  declare g d := .module g _ (by
    unfold Ir.Module.declare
    split <;> rfl)
  string g bytes := .module g _ (by
    unfold Ir.Module.addString
    split <;> rfl)
  copy := .copy
  visit := .visit

namespace Gen

/-- A step adds to the state what code generation may add. -/
abbrev Evolves {α : Type} (x : Gen α) : Prop := Follows GenState.Evolves x

/-- Making instances adds to the state what code generation may add. -/
abbrev Typing.Evolves (t : Typing) : Prop := t.Follows GenState.Evolves

namespace Evolves

variable {t : Typing}

theorem recordLayout (l : Layout) : Evolves (Gen.recordLayout l) :=
  .bind (fun g => .module g _ rfl) fun _ g => .layout g l

theorem layoutClass (ht : t.Evolves) (fuel : Nat) (waiting : List String) (name : String) :
    Evolves (Gen.layoutClass t fuel waiting name) := by
  induction fuel generalizing waiting name with
  | zero => exact .pure _
  | succ fuel ih =>
    have hrecord : ∀ c parent?, Evolves (do
        Gen.recordLayout (← Gen.layoutOf t name c parent?)
        return true) := fun c parent? =>
      (Follows.layoutOf name c parent? (.inl ht)).bind fun l => (recordLayout l).bind fun _ => .pure _
    rw [Gen.layoutClass]
    refine .bind (.hasLayout name) fun _ => .ite (.pure _) ?_
    split
    · exact .pure _
    · refine .ite (.bind (.report _ _) fun _ => .pure _) ?_
      split
      · exact hrecord _ _
      · exact (ih _ _).bind fun _ => .ite (hrecord _ _) (.ite (.pure _) (hrecord _ _))

theorem ensureLayout (ht : t.Evolves) (name : String) : Evolves (Gen.ensureLayout t name) :=
  layoutClass ht _ _ _

theorem layoutInstance (ht : t.Evolves) (symbol : String) (c : Class) :
    Evolves (Gen.layoutInstance t symbol c) := by
  have hrecord : ∀ parent?, Evolves (Gen.layoutOf t symbol c parent? >>= Gen.recordLayout) :=
    fun parent? => (Follows.layoutOf symbol c parent? (.inl ht)).bind fun l => recordLayout l
  unfold Gen.layoutInstance
  split
  · exact hrecord none
  · exact (ensureLayout ht _).bind fun _ => hrecord _

end Evolves

end Gen

namespace GenState.Evolves

variable {g g' : GenState}

/-- What was asked for stays. -/
theorem requests (h : g.Evolves g') : g.requests <+: g'.requests := by
  induction h with
  | trans _ _ ih ih' => exact ih.trans ih'
  | request => exact List.prefix_append _ _
  | inner _ _ _ ih => exact ih
  | _ => exact List.prefix_refl _

/-- What was queued stays. -/
theorem queued (h : g.Evolves g') : g.queue <+: g'.queue := by
  induction h with
  | trans _ _ ih ih' => exact ih.trans ih'
  | queue => exact List.prefix_append _ _
  | inner _ _ _ ih => exact ih
  | _ => exact List.prefix_refl _

/-- Functions that have been generated stay. -/
theorem functions (h : g.Evolves g') : g.module.functions <+: g'.module.functions := by
  induction h with
  | trans _ _ ih ih' => exact ih.trans ih'
  | module _ m hm => exact ⟨[], (List.append_nil _).trans hm.symm⟩
  | inner _ _ _ ih => exact ih.trans (List.prefix_append _ _)
  | function => exact List.prefix_append _ _
  | _ => exact List.prefix_refl _

/-- Instances that have been generated are not generated again. -/
theorem lowered (h : g.Evolves g') : g.lowered ≤ g'.lowered := by
  induction h with
  | trans _ _ ih ih' => exact Nat.le_trans ih ih'
  | inner _ _ _ ih => exact ih
  | take => exact Nat.le_succ _
  | _ => exact Nat.le_refl _

/-- Where globals are stored is settled before code is generated. -/
theorem globals (h : g.Evolves g') : g'.globals = g.globals := by
  induction h with
  | trans _ _ ih ih' => exact ih'.trans ih
  | inner _ _ _ ih => exact ih
  | _ => rfl

end GenState.Evolves

/-- A name is that of an instance or of a function of the module. -/
def GenState.Takes (g : GenState) (n : String) : Prop :=
  (∃ r ∈ g.requests, r.symbol = n) ∨ ∃ f ∈ g.module.functions, f.name = n

namespace GenState.Evolves

variable {g g' : GenState} {n : String}

theorem takes (h : g.Evolves g') (hn : g.Takes n) : g'.Takes n := by
  rcases hn with ⟨r, hr, hn⟩ | ⟨f, hf, hn⟩
  · exact .inl ⟨r, h.requests.subset hr, hn⟩
  · exact .inr ⟨f, h.functions.subset hf, hn⟩

/-- A name keeps its signature until an instance or a function takes it. -/
theorem signature (h : g.Evolves g') (n : String) :
    g'.functions.find? n = g.functions.find? n ∨ g'.Takes n := by
  induction h with
  | trans _ h' ih ih' =>
    rcases ih' with hsame' | hn
    · exact ih.imp hsame'.trans h'.takes
    · exact .inr hn
  | @instance_ g r hr sig =>
    by_cases hn : n = r.symbol
    · exact .inr (.inl ⟨r, hr, hn.symm⟩)
    · left
      rw [Table.find?_insert, if_neg (by simpa using hn)]
  | @inner g g' f sig edits h ih =>
    by_cases hn : n = f.name
    · exact .inr (.inr ⟨f, List.mem_append_right _ (List.mem_singleton_self f), hn.symm⟩)
    · rw [Table.find?_insert, if_neg (by simpa using hn)] at ih
      refine ih.imp_right ?_
      exact takes (.function g' f edits)
  | _ => exact .inl rfl

end GenState.Evolves

namespace Gen.Evolves

/-- An instance of a template of functions has its signature after it was asked for. -/
theorem instance_ {x : Gen Signature} (r : Request) (i : TemplateInstance) (symbol : String)
    (hx : Evolves x) : Evolves (do
      modify fun s => { s with requests := s.requests ++ [r] }
      Gen.setFunction r.symbol (← x)
      modify fun s => { s with queue := s.queue ++ [i] }
      return some symbol) := by
  intro g
  let g₁ : GenState := { g with requests := g.requests ++ [r] }
  have hr : r ∈ g₁.requests := List.mem_append_right _ (List.mem_singleton_self r)
  have hx₁ := hx g₁
  have hset := GenState.Evolves.instance_ (x.run g₁).2 (hx₁.requests.subset hr) (x.run g₁).1
  exact .trans (.request g r) (.trans hx₁ (.trans hset (.queue _ i)))

theorem instantiate (catalog : Catalog) (fuel : Nat) (name : Ident) (args : List Ty) :
    Evolves (Gen.instantiate catalog fuel name args) := by
  induction fuel generalizing name args with
  | zero => exact .bind .exhaust fun _ => .pure _
  | succ fuel ih =>
    have ht : ∀ bindings, Typing.Evolves ⟨catalog, bindings, Gen.instantiate catalog fuel⟩ :=
      fun _ => ih
    rw [Gen.instantiate]
    split
    · exact .bind (.report _ _) fun _ => .pure _
    · refine .ite (.bind (.report _ _) fun _ => .pure _) (.bind (.reading fun _ => rfl) fun s => ?_)
      dsimp only
      split
      · exact .pure _
      · refine .bind .exhausted fun _ => .ite (.pure _) ?_
        split
        · exact instance_ _ _ _ (.writtenSignature _ _ (.inl (ht _)))
        · refine .bind (fun g => .request g _) fun _ => (layoutInstance (ht _) _ _).bind fun _ => ?_
          exact .bind (fun g => .queue g _) fun _ => .pure _
        · exact .bind (fun g => .request g _) fun _ => .bind (fun g => .queue g _) fun _ => .pure _

theorem typing (catalog : Catalog) (bindings : List (String × Ty)) :
    (Gen.typing catalog bindings).Evolves :=
  instantiate catalog catalog.limit

end Gen.Evolves

end ClassLang
