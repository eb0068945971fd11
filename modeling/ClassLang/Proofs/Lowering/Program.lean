import ClassLang.Proofs.Lowering.Body

/-!
# Whole programs

Every stage of generating a program keeps the state sound, so the state is sound in the end. The last
stage looks for flaws in the functions and finds none.
-/

namespace ClassLang

namespace Gen

open Draft

variable {env : Env} {detour : Lower.Detour}

/-! ## Declarations -/

theorem keeps_constantValue (ir : Ir.Ty) : (e : Expr) → Keeps (constantValue ir e)
  | .string .. =>
    .ite (fun _ => .bind (keeps_addString _) fun _ => .pure _) (fun _ => .pure _)
  | .prefixed .negate right _ => by
    refine .bind (keeps_constantValue ir right) fun v? => ?_
    split <;> exact .pure _
  | .int .. | .float .. | .bool .. | .char .. | .null .. | .prefixed .not .. | .prefixed .bitNot ..
  | .ident .. | .binary .. | .postfixed .. | .assign .. | .call .. | .index .. | .member ..
  | .array .. | .hash .. | .lambda .. | .new .. | .this .. | .super .. | .templateInstance .. =>
    .pure _

theorem keeps_globalType (name : String) (type? : Option TypeExpr) (value? : Option Expr) :
    Keeps (globalType env name type? value?) := by
  unfold globalType
  split
  · exact keeps_resolveType (sound_typing _ _) _
  · exact .pure _

theorem keeps_declareGlobal (name : String) (type? : Option TypeExpr) (value? : Option Expr) :
    Keeps (declareGlobal env name type? value?) := by
  have hrest : ∀ (ty : Ty) (ir : Ir.Ty) (init : Ir.Value), Keeps (do
      modifyModule (·.addGlobal (.variable_ name ir init))
      modify fun s => { s with globals := s.globals.insert name ⟨.global name, ty, ir⟩ }) := by
    intro ty ir init
    refine .bind (.of_modify fun g hg => hg.withModule rfl) fun _ => ?_
    refine .of_modify fun g hg => ⟨hg.functions, fun key l hl => ?_, hg.errors, hg.queue, hg.copies⟩
    rw [Table.find?_insert] at hl
    split at hl
    · cases hl
      rfl
    · exact hg.globals key l hl
  refine .bind (keeps_globalType name type? value?) fun ty => ?_
  dsimp only
  split
  · exact hrest ty _ _
  · refine .bind (keeps_constantValue _ _) fun v? => ?_
    split
    · exact hrest ty _ _
    · refine .bind (.of_modify fun g hg => ?_) fun _ => hrest ty _ _
      exact ⟨hg.functions, hg.globals, hg.errors, hg.queue, hg.copies⟩

theorem keeps_declareStmt (s : Stmt) : Keeps (declareStmt env s) := by
  unfold declareStmt
  split
  · split
    · exact keeps_setFunction _ _
    · exact .bind (keeps_writtenSignature (sound_typing _ _) _ _) fun _ => keeps_setFunction _ _
  · exact keeps_declareGlobal _ _ _
  · exact keeps_declareGlobal _ _ _
  · exact .pure _

/-! ## The start of the program -/

theorem performs_storeGlobal (hdetour : SoundDetour detour) (name : Ident) (value : Expr)
    (span : Span) : Performs env (storeGlobal detour env name value span) := by
  intro d ho henv
  refine (yields_mark span).bind_goes ho fun _ d₁ hf₁ ho₁ _ => ?_
  refine (evaluates_expr hdetour env value d₁ (henv.follows hf₁).this).bind_goes ho₁
    fun o d₂ _ ho₂ hv => .bind_state fun g hg => ?_
  split
  next l hl =>
    refine (Yields.assign (carries_of_reads_eq_nil (hg.globals _ l hl)) hv).bind_goes ho₂ ?_
    exact fun _ _ _ _ _ => .pure trivial
  · exact .pure trivial

theorem performs_startStmt (hdetour : SoundDetour detour) (s : Stmt) :
    Performs env (startStmt detour env s) := by
  unfold startStmt
  split
  · exact performs_storeGlobal hdetour _ _ _
  · exact fun d _ _ => .pure trivial
  · exact performs_storeGlobal hdetour _ _ _
  · exact performs_stmt hdetour env s

theorem performs_startStmts (hdetour : SoundDetour detour) (ss : List Stmt) :
    Performs env (startStmts detour env ss) := by
  induction ss with
  | nil => exact fun d _ _ => .pure trivial
  | cons s ss ih =>
    intro d ho henv
    refine .bind_visit ((performs_startStmt hdetour s d ho henv).bind fun _ d₁ hf₁ _ => ?_)
    refine .bind_isTerminated ?_
    split
    next h => exact ih d₁ (by simpa [Draft.IsOpen] using h) (henv.follows hf₁)
    · exact .pure trivial

theorem keeps_generateStart (hdetour : SoundDetour detour) (p : Program) :
    Keeps (generateStart detour env p) := by
  refine .bind (.of_snd_eq fun _ => rfl) fun g => ?_
  dsimp only
  split
  · exact .pure _
  · refine .bind (keeps_function (performs_startStmts hdetour _)) fun _ => ?_
    exact .of_modify fun g hg => ⟨hg.functions, hg.globals, hg.errors, hg.queue, hg.copies⟩

/-! ## Functions and methods -/

theorem keeps_generateFunction (hdetour : SoundDetour detour) {symbol : String}
    {params : List Param} {sig : Signature} {body : Block} {span : Span}
    {class? receiver? : Option String} :
    Keeps (generateFunction detour env symbol params sig body span class? receiver?) :=
  keeps_function (performs_entry hdetour _ receiver? body)

theorem keeps_generateClass (hdetour : SoundDetour detour) (name : String) (c : Class) :
    Keeps (generateClass detour env name c) := by
  refine .bind (keeps_layout? name) fun l? => ?_
  split
  · exact .pure _
  · refine .bind (.forM _ fun m _ => ?_) fun _ => .forM _ fun m _ => ?_
    · split
      · exact .pure _
      · exact keeps_generateFunction hdetour
    · split
      · exact .pure _
      · exact keeps_generateFunction hdetour

theorem keeps_generateDetached (hdetour : SoundDetour detour) (m : Method) :
    Keeps (generateDetached detour env m) := by
  unfold generateDetached
  split
  · exact .pure _
  · refine .ite (fun _ => .pure _) fun _ => ?_
    refine .bind (keeps_writtenSignature (sound_typing _ _) _ _) fun sig => ?_
    exact .bind (keeps_setFunction _ _) fun _ => keeps_generateFunction hdetour

theorem keeps_generateStmt (hdetour : SoundDetour detour) (s : Stmt) :
    Keeps (generateStmt detour env s) := by
  unfold generateStmt
  split
  · refine .bind (keeps_function? _) fun sig? => ?_
    split
    · exact keeps_generateFunction hdetour
    · exact .bind (keeps_writtenSignature (sound_typing _ _) _ _) fun _ =>
        keeps_generateFunction hdetour
  · exact keeps_generateClass hdetour _ _
  · exact keeps_generateDetached hdetour _
  · exact .pure _

/-! ## Instances -/

/-- A queued instance of a template of functions has its signature by the time it is generated. -/
theorem sound_generateInstance (hdetour : SoundDetour detour) {i : TemplateInstance} {g : GenState}
    (hg : g.Sound) (hi : ∀ f, i.body = .function f → (g.functions.find? i.symbol).isSome = true) :
    ((generateInstance detour env i).run g).2.Sound := by
  unfold generateInstance
  dsimp only
  split
  next f hf =>
    obtain ⟨sig, hsig⟩ := Option.isSome_iff_exists.1 (hi f hf)
    have hrun : (function? i.symbol).run g = (some sig, g) := congrArg (·, g) hsig
    rw [StateT.run_bind, hrun]
    exact keeps_generateFunction hdetour g hg
  · exact keeps_generateClass hdetour _ _ g hg
  · exact hg

theorem keeps_generateInstances (hdetour : SoundDetour detour) (fuel : Nat) :
    Keeps (generateInstances detour env fuel) := by
  induction fuel with
  | zero =>
    refine .bind (.of_snd_eq fun _ => rfl) fun _ => .bind (.of_snd_eq fun _ => rfl) fun _ => ?_
    exact .ite (fun _ => keeps_exhaust) (fun _ => .pure _)
  | succ fuel ih =>
    intro g hg
    show ((generateInstances detour env (fuel + 1)).run g).2.Sound
    rw [run_generateInstances_succ]
    cases hi : g.queue[g.lowered]? with
    | none => exact hg
    | some i =>
      have hnext : GenState.Sound { g with lowered := g.lowered + 1 } :=
        ⟨hg.functions, hg.globals, hg.errors, hg.queue, hg.copies⟩
      have hbody := hg.queue i (List.mem_of_getElem? hi)
      exact ih _ (sound_generateInstance hdetour hnext hbody)

/-! ## The entry -/

theorem performs_entryCode : Performs env (do
    Lower.callInit
    Lower.terminate (.ret (some (.i32 0)))) := by
  intro d ho _
  refine yields_callInit.bind_goes ho fun _ d₁ _ _ _ => ?_
  refine (Goes.terminate (by simp) (fun _ _ hr => ?_) fun _ hb => ?_).mono fun _ _ _ _ => trivial
  · cases hr
  · cases hb

theorem keeps_ensureEntry : Keeps (ensureEntry env) := by
  refine .bind (.of_snd_eq fun _ => rfl) fun g => ?_
  exact .ite (fun _ => keeps_function performs_entryCode) fun _ => .pure _

end Gen

namespace GenState.Sound

variable {g : GenState}

/-- Every function of a sound state comes from a complete draft. -/
theorem finishes (hg : g.Sound) {f : Ir.Function} (hf : f ∈ g.module.functions) :
    ∃ edits, Draft.Finishes f edits := by
  obtain ⟨hlength, hget⟩ := List.forall₂_iff_get.1 hg.functions
  obtain ⟨i, rfl⟩ := List.mem_iff_get.1 hf
  exact ⟨_, hget i i.2 (hlength ▸ i.2)⟩

theorem flaws_eq_nil (hg : g.Sound) : g.module.flaws = [] := by
  refine List.filterMap_eq_nil_iff.2 fun f hf => ?_
  obtain ⟨edits, hfinishes⟩ := hg.finishes hf
  rw [hfinishes.disciplined.flaw?_eq_none]
  rfl

end GenState.Sound

namespace Gen

theorem keeps_prepare (catalog : Catalog) (p : Program) : Keeps (prepare catalog p) := by
  refine .bind (.forM _ fun s _ => keeps_declareStmt s) fun _ => ?_
  refine .forM _ fun name _ => ?_
  exact .bind (keeps_ensureLayout (sound_typing _ _) name) fun _ => .pure _

theorem keeps_program (catalog : Catalog) (p : Program) : Keeps (program catalog p) := by
  have hdetour := Draft.soundDetour_detourAt catalog.limit
  refine .bind (keeps_prepare catalog p) fun _ => ?_
  refine .bind (keeps_generateStart hdetour p) fun _ => ?_
  refine .bind (.forM _ fun s _ => keeps_generateStmt hdetour s) fun _ => ?_
  refine .bind (keeps_generateInstances hdetour _) fun _ => ?_
  have hflaws : Keeps (do
      if ← succeeded then (← get).module.flaws.forM fun f => internal (Ir.flawText f)) := by
    refine .bind (.of_snd_eq fun _ => rfl) fun _ => .ite (fun _ g hg => ?_) fun _ => .pure _
    show ((g.module.flaws.forM fun f => internal (Ir.flawText f)).run g).2.Sound
    rw [hg.flaws_eq_nil]
    exact hg
  refine .bind (.of_snd_eq fun _ => rfl) fun _ => ?_
  exact .ite (fun _ => .bind keeps_ensureEntry fun _ => hflaws) fun _ => hflaws

end Gen

theorem GenState.Sound.initial (file? : Option String) : (GenState.initial file?).Sound := by
  refine ⟨.nil, fun _ _ h => ?_, fun _ h => ?_, fun _ h => ?_, fun _ h => ?_⟩
  all_goals cases h

/-- Whatever the program, the state is sound when it has been generated. -/
theorem sound_generate (p : Program) (scopes : ScopeTree) (file? : Option String) (limit : Nat) :
    (generate p scopes file? limit).Sound :=
  Gen.keeps_program _ p _ (.initial file?)

end ClassLang
