import ClassLang.Proofs.Evolution.Basic

/-!
# Requests for instances

An instance that is asked for is either known, and then its symbol is the one that was recorded, or it
is recorded and made.
-/

namespace ClassLang.Gen

/-- Resolution of types where instances may nest `fuel` deep. -/
def typingAt (c : Catalog) (fuel : Nat) (bindings : List (String × Ty)) : Typing :=
  { catalog := c, bindings, instantiate := instantiate c fuel }

/-- The request for an instance. -/
def request (template : String) (args : List Ty) : Request :=
  ⟨template, instanceKey template args, mangle (instanceKey template args)⟩

/-- The request for an instance that is recorded already. -/
def known? (g : GenState) (template : String) (args : List Ty) : Option Request :=
  g.requests.find? fun r => r.template == template && r.key == instanceKey template args

theorem of_known? {g : GenState} {template : String} {args : List Ty} {r : Request}
    (h : known? g template args = some r) :
    r ∈ g.requests ∧ r.template = template ∧ r.key = instanceKey template args := by
  unfold known? at h
  have hr := List.find?_some h
  simp only [Bool.and_eq_true, beq_iff_eq] at hr
  exact ⟨List.mem_of_find?_eq_some h, hr⟩

/-- Resolves what the template of an instance is written with. -/
def settleInstance (t : Typing) (symbol : String) : Stmt → Gen Unit
  | .function f => do setFunction symbol (← writtenSignature t f.params f.ret?)
  | .class_ cls => layoutInstance t symbol cls
  | _ => return

/-- The instance of a template for type arguments. -/
def instanceOf (name : String) (template : Template) (args : List Ty) : TemplateInstance :=
  ⟨mangle (instanceKey name args), template.params.zip args, template.body⟩

/-- Makes an instance that was just recorded, and queues its body. -/
def makeInstance (c : Catalog) (fuel : Nat) (name : String) (template : Template) (args : List Ty) :
    Gen (Option String) := do
  let i := instanceOf name template args
  settleInstance (typingAt c fuel i.bindings) i.symbol i.body
  modify fun s => { s with queue := s.queue ++ [i] }
  return some i.symbol

theorem symbol_makeInstance (c : Catalog) (fuel : Nat) (name : String) (template : Template)
    (args : List Ty) (g : GenState) :
    ((makeInstance c fuel name template args).run g).1 = some (mangle (instanceKey name args)) := rfl

/-- An instance is made by `x` if it is not known. -/
theorem run_ifUnknown (template : String) (args : List Ty) (x : Gen (Option String)) (g : GenState) :
    (do
      let known? := (← get).requests.find? fun r =>
        r.template == template && r.key == instanceKey template args
      if let some r := known? then return some r.symbol
      if ← exhausted then return none
      modify fun s => { s with requests := s.requests ++ [request template args] }
      x : Gen (Option String)).run g =
      match known? g template args with
      | some r => (some r.symbol, g)
      | none =>
        if g.errors.any (·.cause == .unbounded) then (none, g)
        else x.run { g with requests := g.requests ++ [request template args] } := by
  rw [StateT.run_bind, StateT.run_get]
  show StateT.run (match known? g template args with
    | some r => pure (some r.symbol)
    | _ => _) g = _
  cases known? g template args with
  | some r => rfl
  | none =>
    dsimp only
    show StateT.run (if g.errors.any (·.cause == .unbounded) then pure none else _) g = _
    split <;> rfl

theorem run_instantiate {c : Catalog} {name : Ident} {template : Template} {args : List Ty}
    (ht : c.templates.find? name.name = some template)
    (hlength : template.params.length = args.length) (fuel : Nat) (g : GenState) :
    (instantiate c (fuel + 1) name args).run g =
      match known? g name.name args with
      | some r => (some r.symbol, g)
      | none =>
        if g.errors.any (·.cause == .unbounded) then (none, g)
        else (makeInstance c fuel name.name template args).run
          { g with requests := g.requests ++ [request name.name args] } := by
  rw [← run_ifUnknown, instantiate, ht]
  dsimp only
  rw [if_neg (by simpa using hlength)]
  obtain ⟨params, body⟩ := template
  cases body <;> rfl

end ClassLang.Gen
