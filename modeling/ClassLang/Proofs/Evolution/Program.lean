import ClassLang.Proofs.Evolution.Basic
import ClassLang.Proofs.Evolution.Body

/-!
# Evolution through programs

All that is generated after the declarations lets the state evolve. Inside of functions the walk over
bodies shows this; what is declared there is of no concern.
-/

namespace ClassLang

/-- What is asked of a relation so that all that is generated after the declarations goes by it: that
the walk over bodies does, and that the program may start and the instances have their turns. -/
structure GenState.Steady (c : Catalog) (R : GenState → GenState → Prop) : Prop where
  walk : Lower.Walk c (fun _ => R) (fun _ => True) (fun _ => True)
  start : ∀ g : GenState, R g { g with hasInit := true }
  take : ∀ g : GenState, R g { g with lowered := g.lowered + 1 }

/-- What is done when all instances are generated. -/
def Gen.closing (env : Env) : Gen Unit := do
  if ← succeeded then ensureEntry env
  if ← succeeded then (← get).module.flaws.forM fun f => internal (Ir.flawText f)

theorem GenState.Steady.setting {c : Catalog} {R : GenState → GenState → Prop} {env : Env}
    {detour : Lower.Detour} (h : Steady c R) (henv : env.catalog = c)
    (hdetour : detour.Fits c R fun _ => True) :
    Lower.Setting c (fun _ => R) (fun _ => True) (fun _ => True) detour env :=
  ⟨h.walk, hdetour, henv, fun _ _ _ _ => trivial⟩

namespace Gen.Follows

variable {c : Catalog} {R : GenState → GenState → Prop} [GenState.Ambient R]
  [GenState.Graded fun _ => R] {env : Env} {detour : Lower.Detour}

section

variable (h : GenState.Steady c R)
include h

theorem ensureEntry : Follows R (Gen.ensureEntry env) := by
  refine .bind (.reading fun _ => rfl) fun g => .ite ?_ (.pure _)
  refine function (R := fun _ => R) (L := []) h.walk ?_
  exact .bind (.plain .callInit) fun _ => .plain (.terminate _)

theorem closing : Follows R (Gen.closing env) := by
  have hflaws : Follows R (do
      if ← succeeded then (← get).module.flaws.forM fun f => Gen.internal (Ir.flawText f)) := by
    refine .bind (.reading fun _ => rfl) fun _ => .ite ?_ (.pure _)
    exact .bind (.reading fun _ => rfl) fun _ => .forM _ fun _ => .internal _
  refine .bind (.reading fun _ => rfl) fun _ => .ite ?_ hflaws
  exact (ensureEntry h).bind fun _ => hflaws

variable (henv : env.catalog = c) (hdetour : detour.Fits c R fun _ => True)
include henv hdetour

theorem generateStart (p : Program) : Follows R (Gen.generateStart detour env p) := by
  refine .bind (.reading fun _ => rfl) fun g => ?_
  dsimp only
  split
  · exact .pure _
  · refine .bind (function (R := fun _ => R) (L := []) h.walk ?_) fun _ g => h.start g
    exact Lower.Follows.startStmts ((h.setting henv hdetour).head _) _ trivial

omit [GenState.Ambient R] in
theorem generateFunction (symbol : String) (params : List Param) (sig : Signature) (body : Block)
    (span : Span) (class? receiver? : Option String) :
    Follows R (Gen.generateFunction detour env symbol params sig body span class? receiver?) :=
  function (R := fun _ => R) (L := []) h.walk
    (Lower.Follows.entry ((h.setting henv hdetour).head _) receiver? body trivial)

theorem generateClass (name : String) (d : Class) :
    Follows R (Gen.generateClass detour env name d) := by
  refine .bind (.layout? name) fun l? => ?_
  split
  · exact .pure _
  · refine .bind (.forM _ fun m => ?_) fun _ => .forM _ fun m => ?_
    · split
      · exact .pure _
      · exact generateFunction h henv hdetour _ _ _ _ _ _ _
    · split
      · exact .pure _
      · exact generateFunction h henv hdetour _ _ _ _ _ _ _

theorem generateDetached (m : Method) : Follows R (Gen.generateDetached detour env m) := by
  have ht := (h.setting henv hdetour).typing
  unfold Gen.generateDetached
  split
  · exact .pure _
  next cls _ =>
    refine .ite (.pure _) (.bind (.writtenSignature _ _ (.inl ht)) fun sig g => ?_)
    let head : Lower.Head :=
      .ofSignature (Layout.methodSymbol cls m.name.name) m.params sig m.span (some cls)
    let g₀ : GenState := { g with functions := g.functions.insert head.symbol sig }
    let body := fun inner => Lower.entry detour inner (some m.receiver.name.name) m.body
    let r := ((Lower.whole env head body).run (head.cursor env.catalog.file?)).run g₀
    -- The signature is set just before, so the function is one that is declared on the spot.
    have hwhole : Lower.Follows R (Lower.whole env head body) :=
      Lower.Follows.whole (R := fun _ => R) (L := [])
        (Lower.Follows.entry ((h.setting henv hdetour).head _) _ m.body trivial)
    obtain ⟨hr, hstays⟩ := hwhole (head.cursor env.catalog.file?) g₀
    have hname : r.1.2.finish.name = head.symbol := hstays.name
    have hinner := @Lower.Walk.inner _ _ _ _ h.walk [] g r.2 r.1.2.finish sig r.1.2.edits
    rw [hname] at hinner
    exact hinner hr

theorem generateStmt (s : Stmt) : Follows R (Gen.generateStmt detour env s) := by
  have ht := (h.setting henv hdetour).typing
  unfold Gen.generateStmt
  split
  · refine .bind (.function? _) fun sig? => ?_
    split
    · exact .bind (.pure _) fun _ => generateFunction h henv hdetour _ _ _ _ _ _ _
    · exact .bind (.writtenSignature _ _ (.inl ht)) fun _ =>
        generateFunction h henv hdetour _ _ _ _ _ _ _
  · exact generateClass h henv hdetour _ _
  · exact generateDetached h henv hdetour _
  · exact .pure _

theorem generateInstance (i : TemplateInstance) :
    Follows R (Gen.generateInstance detour env i) := by
  let inner : Env := { env with bindings := i.bindings }
  have hinner : inner.catalog = c := henv
  unfold Gen.generateInstance
  dsimp only
  split
  · refine .bind (.function? _) fun sig? => ?_
    split
    · exact generateFunction h hinner hdetour _ _ _ _ _ _ _
    · exact .internal _
  · exact generateClass h hinner hdetour _ _
  · exact .pure _

theorem generateInstances (fuel : Nat) : Follows R (Gen.generateInstances detour env fuel) := by
  induction fuel with
  | zero =>
    refine .bind (.reading fun _ => rfl) fun _ => .bind (.reading fun _ => rfl) fun _ => ?_
    exact .ite .exhaust (.pure _)
  | succ fuel ih =>
    intro g
    rw [run_generateInstances_succ]
    cases g.queue[g.lowered]? with
    | none => exact GenState.Ambient.refl g
    | some i =>
      have hrest : Follows R (do
          Gen.generateInstance detour env i
          Gen.generateInstances detour env fuel) :=
        (generateInstance h henv hdetour i).bind fun _ => ih
      exact GenState.Ambient.trans (h.take g) (hrest _)

end

end Gen.Follows

instance : GenState.Graded fun _ => GenState.Evolves where
  ambient := inferInstanceAs (GenState.Ambient GenState.Evolves)
  append h h' := h.trans h'
  mono _ h := h

namespace Lower

/-- Code is added to a function: the state evolves, and the function and its scopes stay. -/
abbrev Evolves {α : Type} (x : Lower α) : Prop := Follows GenState.Evolves x

namespace Evolves

variable {detour : Detour}

theorem walk (c : Catalog) :
    Walk c (fun _ => GenState.Evolves) (fun _ => True) (fun _ => True) where
  typing := Gen.Evolves.typing c
  lambda h := .trans (.lambda _) h
  inner := .inner
  function f edits h := .trans h (.function _ f edits)
  fields h := h fun _ _ _ _ _ _ _ => trivial
  sublist _ _ := trivial
  once _ := trivial
  twice _ := trivial
  nothing _ h := h

theorem steady (c : Catalog) : GenState.Steady c GenState.Evolves := ⟨walk c, .start, .take⟩

/-- The ways to code from elsewhere let the state evolve. -/
def Detours (detour : Detour) : Prop := ∀ c, detour.Fits c GenState.Evolves fun _ => True

theorem detourAt (fuel : Nat) : Detours (Lower.detourAt fuel) := fun c => .detourAt (walk c) fuel

theorem setting (hdetour : Detours detour) (env : Env) :
    Setting env.catalog (fun _ => GenState.Evolves) (fun _ => True) (fun _ => True) detour env :=
  ⟨walk _, hdetour _, rfl, fun _ _ _ _ => trivial⟩

theorem entry (hdetour : Detours detour) (env : Env) (receiver? : Option String) (b : Block) :
    Evolves (Lower.entry detour env receiver? b) :=
  Follows.entry (setting hdetour env) receiver? b trivial

theorem whole {outer : Env} {h : Head} {body : Env → Lower Unit}
    (hbody : ∀ env, Evolves (body env)) : Evolves (Lower.whole outer h body) :=
  Follows.whole (R := fun _ => GenState.Evolves) (L := []) (hbody _)

end Evolves

end Lower

namespace Gen.Evolves

open Lower.Evolves (Detours steady)

variable {detour : Lower.Detour} {env : Env}

/-- A function, with what its body adds before it. -/
theorem function {outer : Env} {h : Lower.Head} {body : Env → Lower Unit}
    (hbody : ∀ env, Lower.Evolves (body env)) : Evolves (Lower.function outer h body) :=
  Follows.function (R := fun _ => GenState.Evolves) (L := []) (Lower.Evolves.walk outer.catalog)
    (hbody _)

theorem generateStart (hdetour : Detours detour) (p : Program) :
    Evolves (Gen.generateStart detour env p) :=
  Follows.generateStart (steady _) rfl (hdetour _) p

theorem generateFunction (hdetour : Detours detour) (symbol : String) (params : List Param)
    (sig : Signature) (body : Block) (span : Span) (class? receiver? : Option String) :
    Evolves (Gen.generateFunction detour env symbol params sig body span class? receiver?) :=
  Follows.generateFunction (steady _) rfl (hdetour _) _ _ _ _ _ _ _

theorem generateClass (hdetour : Detours detour) (name : String) (c : Class) :
    Evolves (Gen.generateClass detour env name c) :=
  Follows.generateClass (steady _) rfl (hdetour _) name c

theorem generateStmt (hdetour : Detours detour) (s : Stmt) :
    Evolves (Gen.generateStmt detour env s) :=
  Follows.generateStmt (steady _) rfl (hdetour _) s

theorem generateInstance (hdetour : Detours detour) (i : TemplateInstance) :
    Evolves (Gen.generateInstance detour env i) :=
  Follows.generateInstance (steady _) rfl (hdetour _) i

theorem generateInstances (hdetour : Detours detour) (fuel : Nat) :
    Evolves (Gen.generateInstances detour env fuel) :=
  Follows.generateInstances (steady _) rfl (hdetour _) fuel

theorem ensureEntry : Evolves (Gen.ensureEntry env) := Follows.ensureEntry (steady env.catalog)

theorem closing : Evolves (Gen.closing env) := Follows.closing (steady env.catalog)

end Gen.Evolves

namespace Gen

variable {env : Env} {detour : Lower.Detour}

/-- A function comes to the module after all that is there already. -/
theorem functions_generateFunction (env : Env) (hdetour : Lower.Evolves.Detours detour)
    (symbol : String) (params : List Param) (sig : Signature) (body : Block) (span : Span) (g : GenState) :
    ∃ fs F, ((generateFunction detour env symbol params sig body span none none).run
      g).2.module.functions = fs ++ [F] ∧ g.module.functions <+: fs ∧ F.name = symbol := by
  let h : Lower.Head := .ofSignature symbol params sig span none
  have hwhole : Lower.Evolves (Lower.whole env h fun inner => Lower.entry detour inner none body) :=
    .whole fun inner => .entry hdetour inner none body
  obtain ⟨hevolves, hstays⟩ := hwhole (h.cursor env.catalog.file?) g
  exact ⟨_, _, rfl, hevolves.functions, hstays.name⟩

theorem functions_generateStmt (hdetour : Lower.Evolves.Detours detour) (f : Function)
    (g : GenState) : ∃ fs F, ((generateStmt detour env (.function f)).run g).2.module.functions =
      fs ++ [F] ∧ g.module.functions <+: fs ∧ F.name = f.name.name := by
  cases hsig : g.functions.find? f.name.name with
  | some sig =>
    have hrun : (function? f.name.name).run g = (some sig, g) := congrArg (·, g) hsig
    rw [generateStmt, StateT.run_bind, hrun]
    exact functions_generateFunction env hdetour _ _ _ _ _ g
  | none =>
    have hrun : (function? f.name.name).run g = (none, g) := congrArg (·, g) hsig
    rw [generateStmt, StateT.run_bind, hrun]
    let x := writtenSignature env.typing f.params f.ret?
    have hx : g.Evolves (x.run g).2 := Follows.writtenSignature _ _ (.inl (Evolves.typing _ _)) g
    obtain ⟨fs, F, hfs, hprefix, hname⟩ := functions_generateFunction env hdetour
      f.name.name f.params (x.run g).1 f.body f.span (x.run g).2
    exact ⟨fs, F, hfs, hx.functions.trans hprefix, hname⟩

end Gen

end ClassLang
