import ClassLang.Proofs.Lowering.Body
import ClassLang.Proofs.Refinement.Statement

/-!
# Functions

When a function is called, the slots get their addresses, and the arguments are stored in slots of
their own under the names of the parameters. Then the body runs. Where it does not end with `return`,
the function returns a zero, or nothing if it is to give nothing.
-/

namespace ClassLang

open ClassLang.Core (Action Outcome)

/-! ## The beginning of a run -/

/-- A parameter is found by its register, which no other one has. -/
theorem find?_zip_of_nodup {params : List Ir.Register} {args : List Ir.Word} {r : Ir.Register}
    {w : Ir.Word} (hnodup : (params.map Ir.Register.id).Nodup) (h : (r, w) ∈ params.zip args) :
    (params.zip args).find? (·.1.id == r.id) = some (r, w) := by
  induction params generalizing args with
  | nil => cases h
  | cons p params ih =>
    obtain ⟨hp, hparams⟩ := List.nodup_cons.1 hnodup
    cases args with
    | nil => cases h
    | cons a args =>
      rcases List.mem_cons.1 h with heq | h
      · cases heq
        simp
      · have hne : p.id ≠ r.id := fun heq => hp (heq ▸ List.mem_map_of_mem (List.of_mem_zip h).1)
        rw [List.zip_cons_cons, List.find?_cons_of_neg (by simpa using hne)]
        exact ih hparams h

theorem forall₂_of_map_eq {α β γ : Type} {f : α → γ} {f' : β → γ} {as : List α} {bs : List β}
    (h : as.map f = bs.map f') : List.Forall₂ (fun a b => f a = f' b) as bs := by
  rw [← List.forall₂_map_left_iff (R := fun c b => c = f' b),
    ← List.forall₂_map_right_iff (R := fun c c' => c = c'), h]
  exact List.forall₂_same.2 fun _ _ => rfl

/-- Two lists that go with a third one. -/
theorem forall₂_zip {α β γ : Type} {R : α → γ → Prop} {S : β → γ → Prop} {as : List α}
    {bs : List β} {cs : List γ} (h : List.Forall₂ R as cs) (h' : List.Forall₂ S bs cs) :
    List.Forall₂ (fun p c => R p.1 c ∧ S p.2 c) (as.zip bs) cs := by
  induction h generalizing bs with
  | nil =>
    cases h'
    exact .nil
  | cons hac _ ih =>
    cases h' with
    | cons hbc h' => exact .cons ⟨hac, hbc⟩ (ih h')

namespace Draft

variable {W : Draft} {c : Cursor} {args : List Ir.Word}

/-- The parameters hold the arguments when the code of the body begins. -/
theorem begins (hW : W.Final) (hg : c.Grows W.cursor)
    (hcurrent : c.current = { id := 0, label? := some "entry" })
    (hids : W.code.params.map Ir.Register.id = List.range' 0 c.nextRegister)
    (hargs : args.map Ir.Word.ty = W.code.params.map Ir.Register.ty) :
    ∃ k₀ k, W.code.start? args = some k₀ ∧ W.code.Steps k₀ k ∧ W.At c k ∧
      k.state.mem = (fun _ => none) ∧
      List.Forall₂ (fun r w => c.Carries k.state (.reg r) w) W.code.params args := by
  obtain ⟨b, hb, hgb⟩ := hg.blocks c.current (List.mem_append_right _ List.mem_cons_self)
  have hid : b.id = 0 := by
    rw [hgb.id, hcurrent]
  have hentry : W.code.entry = b.id := hW.valid.linked.entry.trans hid.symm
  let k₀ : Ir.Config :=
    ⟨none, b.id, (W.placed b).instrs, b.terminator, W.code.arguments args⟩
  have hstart : W.code.start? args = some k₀ := by
    rw [Ir.Function.start?, if_pos hargs, Ir.Function.enter, hentry, block?_code hW hb]
    rfl
  obtain ⟨s, hsteps, hmem, hslots, hregs⟩ :=
    W.code.steps_slots (fun i (hi : i ∈ W.top b) => isAlloca_of_mem_top hW.valid hi) k₀
      (rfl : (W.placed b).instrs = W.top b ++ b.instrs)
  have htop : (W.top b).filterMap Ir.Instr.dest? = W.slotRegisters := by
    rw [top, if_pos hid]
    rfl
  rw [htop] at hslots hregs
  have hinstrs : b.instrs = c.current.instrs ++ b.instrs := by
    rw [hcurrent]
    rfl
  refine ⟨k₀, _, hstart, hsteps, ⟨hslots, b, hb, hgb, rfl, hinstrs, rfl⟩, hmem, ?_⟩
  -- Neither a slot nor another parameter has the register of a parameter.
  have hnodup := hW.valid.supplied.nodup
  rw [definitions, always, List.map_append, List.map_append] at hnodup
  have hparams := List.nodup_append.1 (List.nodup_append.1 hnodup).1
  have hlength : W.code.params.length = args.length := by
    simpa using (congrArg List.length hargs).symm
  refine List.forall₂_iff_zip.2 ⟨hlength, fun {r w} hrw => ?_⟩
  have hr : r ∈ W.code.params := (List.of_mem_zip hrw).1
  have hword : (W.code.arguments args).regs r.id = some w := by
    have hfind : (W.code.params.zip args).find? (·.1.id == r.id) = some (r, w) :=
      find?_zip_of_nodup hparams.1 hrw
    simp only [Ir.Function.arguments, hfind, Option.map_some]
  have htypes := forall₂_of_map_eq hargs.symm
  refine ⟨?_, (List.forall₂_iff_zip.1 htypes).2 hrw, fun r' hr' => ?_⟩
  · have hslot : ∀ r' ∈ W.slotRegisters, r.id ≠ r'.id := fun r' hr' =>
      hparams.2.2 r.id (List.mem_map_of_mem hr) r'.id (List.mem_map_of_mem hr')
    exact (hregs r.id hslot).trans hword
  · rw [List.mem_singleton.1 hr']
    have hmem := List.mem_map_of_mem (f := Ir.Register.id) hr
    rw [hids, List.mem_range'_1, Nat.zero_add] at hmem
    exact hmem.2

end Draft

namespace Core

/-- A table with more locals in it. -/
def bindAll (t : Table Val) (names : List String) (vs : List Val) : Table Val :=
  (names.zip vs).foldl (fun t nv => t.insert nv.1 nv.2) t

theorem of_bindArgs {params : List Param} {args : List Val} {t table : Table Val}
    (h : bindArgs params args t = some table) :
    args.length = params.length ∧ params.mapM paramKind? = some (args.map Val.kind) ∧
      bindAll t (params.map (·.name.name)) args = table := by
  induction params generalizing args t with
  | nil =>
    cases args with
    | nil =>
      cases h
      exact ⟨rfl, rfl, rfl⟩
    | cons v vs => cases h
  | cons p ps ih =>
    cases args with
    | nil => cases h
    | cons v vs =>
      obtain ⟨hkind, h⟩ := Option.ite_none_right_eq_some.1 h
      obtain ⟨hlength, hkinds, htable⟩ := ih h
      exact ⟨congrArg (· + 1) hlength, by simp [hkind, hkinds], htable⟩

/-- The signature of a function of the core. -/
def signature? (params : List Param) (ret? : Option TypeExpr) : Option Signature := do
  let kinds ← params.mapM paramKind?
  let κ? ← resultKind? ret?
  return ⟨kinds.map Kind.ty, (κ?.map Kind.ty).getD .void, false⟩

end Core

namespace Lower

/-! ## Parameters -/

/-- Each parameter is stored in a slot of its own. -/
theorem ensures_bindAll {ps : List ((String × Ty) × Ir.Register)} {vs : List Val}
    (h : List.Forall₂ (fun p v => p.2.ty = v.kind.ir ∧ p.1.2.isString = false) ps vs) {c : Cursor}
    (ho : c.IsOpen) :
    Ensures (ps.forM fun p => do
      let _ ← Lower.bindValue p.1.1 p.1.2 p.2.ty (.reg p.2)) c fun _ c' => c.Proceeds c' ∧
        ∀ t m, c.Agrees [t] m → c.Through c'
          (fun s => s.mem = m ∧ List.Forall₂ (fun p v => c.Carries s (.reg p.2) v.word) ps vs)
          fun s => c'.Agrees [Core.bindAll t (ps.map (·.1.1)) vs] s.mem := by
  induction h generalizing c with
  | nil =>
    refine .pure ⟨⟨.refl c, ho, rfl⟩, fun t m hρ => .refl ?_⟩
    rintro s ⟨rfl, -⟩
    exact hρ
  | @cons p v ps vs hp _ ih =>
    have hfirst : Ensures (do
        let _ ← Lower.bindValue p.1.1 p.1.2 p.2.ty (.reg p.2)) c fun _ c' => c.Proceeds c' ∧
          ∀ t m, c.Agrees [t] m → c.Through c'
            (fun s => s.mem = m ∧ c.Carries s (.reg p.2) v.word)
            fun s => c'.Agrees [t.insert p.1.1 v] s.mem := by
      refine fun g => ⟨Advances.bindValue p.1.1 p.1.2 p.2.ty (.reg p.2) c ho g, fun t m hρ => ?_⟩
      exact (Goes.bindValue ho hρ hp.1 hp.2 g).2.mono (fun _ hs => hs) fun _ hs => hs.1
    refine Ensures.bind (hfirst.mono fun _ c₁ ⟨hpro₁, hrun₁⟩ => ?_)
    refine (ih hpro₁.isOpen).mono fun _ c₂ ⟨hpro₂, hrun₂⟩ => ⟨hpro₁.trans hpro₂, fun t m hρ => ?_⟩
    intro W hW hg k hat ⟨hm, hcarries⟩
    obtain ⟨hcarry, hrest⟩ := List.forall₂_cons.1 hcarries
    obtain ⟨k₁, hpass₁, hρ₁⟩ := hrun₁ t m hρ W hW (hpro₂.toGrows.trans hg) k hat ⟨hm, hcarry⟩
    have hrest₁ := hrest.imp fun _ _ h => Cursor.Carries.keep h hpro₁.toGrows hpass₁.regs
    obtain ⟨k₂, hpass₂, hρ₂⟩ := hrun₂ (t.insert p.1.1 v) _ hρ₁ W hW hg k₁ hpass₁.point ⟨rfl, hrest₁⟩
    exact ⟨k₂, hpass₁.trans hpro₁.toGrows hpass₂, hρ₂⟩

namespace Head

variable {symbol : String} {params : List Param} {sig : Signature} {span : Span}
  {class? : Option String}

theorem map_fst_ofSignature :
    (ofSignature symbol params sig span class?).params.map Prod.fst = params.map (·.name.name) := by
  conv_rhs => rw [← List.zipIdx_map_fst 0 params, List.map_map]
  rw [ofSignature, List.map_map]
  rfl

/-- Each parameter has its type in the signature. -/
theorem map_snd_ofSignature (h : sig.params.length = params.length) :
    (ofSignature symbol params sig span class?).params.map Prod.snd = sig.params := by
  refine List.ext_getElem (by simp [ofSignature, h]) fun i hi hi' => ?_
  simp [ofSignature, hi']

theorem map_fst_zip_registers (h : Head) :
    (h.params.zip h.registers).map (·.1.1) = h.params.map Prod.fst := by
  show (h.params.zip h.registers).map (Prod.fst ∘ Prod.fst) = _
  rw [← List.map_map, List.map_fst_zip]
  simp [registers]

theorem map_ty_registers (h : Head) :
    h.registers.map Ir.Register.ty = (h.params.map Prod.snd).map storageOf := by
  conv_rhs => rw [← List.zipIdx_map_fst 0 h.params, List.map_map, List.map_map]
  rw [registers, List.map_map]
  rfl

end Head

/-- A function takes arguments under names, one for each parameter. -/
structure Head.Takes (h : Head) (names : List String) (args : List Val) : Prop where
  names : h.params.map Prod.fst = names
  types : h.params.map Prod.snd = args.map (·.kind.ty)

theorem storageOf_ty (κ : Kind) : storageOf κ.ty = κ.ir := by
  cases κ <;> rfl

theorem Head.Takes.registers {h : Head} {names : List String} {args : List Val}
    (ht : h.Takes names args) :
    h.registers.map Ir.Register.ty = args.map (·.kind.ir) := by
  rw [map_ty_registers, ht.types, List.map_map]
  exact List.map_congr_left fun v _ => storageOf_ty v.kind

/-- The parameters are stored under their names. -/
theorem ensures_bindParams {h : Head} {names : List String} {args : List Val}
    (ht : h.Takes names args) {c : Cursor} (ho : c.IsOpen) :
    Ensures (bindParams h) c fun _ c' => c.Proceeds c' ∧
      ∀ t m, c.Agrees [t] m → c.Through c'
        (fun s => s.mem = m ∧ List.Forall₂ (fun r v => c.Carries s (.reg r) v.word) h.registers args)
        fun s => c'.Agrees [Core.bindAll t names args] s.mem := by
  have hstrings : List.Forall₂ (fun (p : String × Ty) (_ : Val) => p.2.isString = false) h.params args := by
    refine (forall₂_of_map_eq ht.types).imp fun p v hp => ?_
    rw [hp]
    cases v <;> rfl
  have hps := (forall₂_zip hstrings (forall₂_of_map_eq ht.registers)).imp fun _ _ hp => And.symm hp
  refine (ensures_bindAll hps ho).mono fun _ c' ⟨hpro, hrun⟩ => ⟨hpro, fun t m hρ => ?_⟩
  rw [← ht.names, ← h.map_fst_zip_registers]
  refine (hrun t m hρ).mono (fun s ⟨hm, hcarries⟩ => ⟨hm, ?_⟩) fun _ hs => hs
  exact (forall₂_zip hstrings hcarries).imp fun _ _ hp => hp.2

/-! ## Bodies -/

variable {detour : Detour} {κ? : Option Kind}

theorem entry_eq_block {env : Env} (henv : env.isMain = false) (body : Block) :
    entry detour env none body = block detour env body := by
  obtain ⟨ss, _⟩ := body
  rw [entry, block, henv]
  rfl

theorem defaultReturn_resultIr (κ? : Option Kind) :
    Cursor.defaultReturn (resultIr κ?) = .ret (κ?.map fun κ => .zero κ.ir) := by
  cases κ? with
  | none => rfl
  | some κ => cases κ <;> rfl

/-- A function that is left by its end gives a zero, or nothing. -/
theorem step_defaultReturn {W : Draft} {k : Ir.Config} {u? : Option Val}
    (hret : W.code.ret = resultIr κ?) (hcode : k.code = [])
    (hexit : k.exit = .ret (κ?.map fun κ => .zero κ.ir))
    (hu : Core.answer? κ? .normal = some u?) :
    W.code.step k = some (.done (u?.map Val.word)) := by
  rw [Ir.Function.step, hcode, hexit]
  cases κ? with
  | none =>
    cases hu
    exact if_pos hret
  | some κ =>
    cases hu
    have hzero : (Ir.Value.zero κ.ir).word? k.state = some κ.zero.word := by
      cases κ <;> rfl
    have hty : κ.zero.word.ty = W.code.ret := by
      rw [hret]
      cases κ <;> rfl
    simp [hzero, hty]

/-- The code of a function of the core gives what the function gives. -/
theorem ensures_whole (detour : Detour) {outer : Env} {h : Head} {names : List String} {args : List Val} {body : Block}
    (file? : Option String) (ht : h.Takes names args) (hclass : h.class? = none)
    (henv : (h.env outer).Plain κ?) (hbody : Core.isCoreBlock body = true) :
    Ensures (whole outer h fun inner => entry detour inner none body) (h.cursor file?) fun _ c' =>
      ∀ W : Draft, W.Final → W.cursor = c' → W.code.params = h.registers → W.code.ret = h.ret →
        ∀ fuel out ρ v?, Core.execBlock fuel body [Core.bindAll {} names args] = some (out, ρ) →
          Core.answer? κ? out = some v? →
            W.code.Returns (args.map Val.word) (v?.map Val.word) := by
  let c₀ := h.cursor file?
  have hret : h.ret = resultIr κ? := henv.ret
  rw [whole, entry_eq_block henv.isMain, hret, defaultReturn_resultIr]
  refine .bind ((ensures_bindParams ht (rfl : c₀.IsOpen)).mono fun _ c₁ ⟨hpro₁, hrun₁⟩ => ?_)
  have hblock : Ensures (block detour (h.env outer) body) c₁ fun _ c₂ => c₁.Keeps c₂ ∧
      ∀ fuel, c₁.Performs c₂ (h.env outer) κ? (Core.execBlock fuel body) c₁.Agrees c₁.Agrees :=
    fun g => ⟨(does_block detour 0 henv body hbody c₁ hpro₁.isOpen g).1, fun fuel =>
      (does_block detour fuel henv body hbody c₁ hpro₁.isOpen g).2⟩
  refine .bind (hblock.mono fun _ c₂ ⟨hk₂, hrun₂⟩ _ => ?_)
  intro W hW hcursor hparams hcode fuel out ρ v? hexec hanswer
  let t : Ir.Terminator := .ret (κ?.map fun κ => .zero κ.ir)
  have hg₂ : (c₂.terminate t).Grows W.cursor := by
    rw [hcursor]
    exact .refl _
  have hg₁ : c₂.Grows W.cursor := (Cursor.Grows.terminate c₂ _).trans hg₂
  have hids : W.code.params.map Ir.Register.id = List.range' 0 c₀.nextRegister := by
    have hids := Draft.map_id_params h file?
    simp only [Head.cursor, hclass] at hids
    rw [hparams]
    simpa [c₀, Head.cursor, hclass] using hids
  have hargs : (args.map Val.word).map Ir.Word.ty = W.code.params.map Ir.Register.ty := by
    rw [hparams, ht.registers, List.map_map]
    exact List.map_congr_left fun v _ => v.ty_word
  obtain ⟨k₀, k, hstart, hsteps, hat, hmem, hcarries⟩ :=
    Draft.begins hW ((hpro₁.toGrows.trans hk₂.toGrows).trans hg₁) rfl hids hargs
  rw [hparams, List.forall₂_map_right_iff] at hcarries
  have hρ : c₀.Agrees [{}] fun _ => none := Agrees.push ⟨.nil, .nil, by simp⟩
  obtain ⟨k₁, hpass₁, hρ₁⟩ :=
    hrun₁ {} _ hρ W hW (hk₂.toGrows.trans hg₁) k hat ⟨hmem, hcarries⟩
  obtain ⟨k₂, hsteps₂, hlands⟩ := hrun₂ fuel W hW hg₁ _ out ρ k₁ hexec hpass₁.point hρ₁
  refine ⟨k₀, k₂, hstart, (hsteps.trans hpass₁.steps).trans hsteps₂, ?_⟩
  cases out with
  | normal =>
    obtain ⟨hcode₂, hexit₂⟩ :=
      hlands.1.point.terminate hW hlands.1.isOpen (t := t) Ir.Terminator.noConfusion hg₂
    exact step_defaultReturn hcode hcode₂ hexit₂ hanswer
  | ret u? => exact hlands v? hanswer hcode
  | break_ | continue_ => cases κ? <;> cases hanswer

theorem plain_env {outer : Env} {h : Head} (hkinds : outer.KnowsKinds) (hmain : h.isMain = false)
    (hret : h.ret = resultIr κ?) : (h.env outer).Plain κ? :=
  ⟨hkinds, rfl, hmain, hret⟩

variable {symbol : String} {params : List Param} {ret? : Option TypeExpr} {sig : Signature}
  {span : Span}

/-- The head of a function of the core takes what the function takes, and gives what it gives. -/
theorem Head.takes_ofSignature (hsig : Core.signature? params ret? = some sig)
    (hsymbol : symbol ≠ "main") {args : List Val} {table : Table Val} {κ? : Option Kind}
    (hargs : Core.bindArgs params args {} = some table) (hκ : Core.resultKind? ret? = some κ?) :
    (ofSignature symbol params sig span none).Takes (params.map (·.name.name)) args ∧
      (ofSignature symbol params sig span none).ret = resultIr κ? := by
  obtain ⟨hlength, hkinds, -⟩ := Core.of_bindArgs hargs
  simp only [Core.signature?, hkinds, hκ, Option.bind_eq_bind, Option.bind_some, Option.pure_def,
    Option.some.injEq] at hsig
  subst hsig
  refine ⟨⟨map_fst_ofSignature, ?_⟩, ?_⟩
  · rw [map_snd_ofSignature (by simpa using hlength), List.map_map]
    rfl
  · have hmain : (symbol == "main") = false := by simpa using hsymbol
    rw [ofSignature, hmain]
    rcases κ? with _ | κ
    · rfl
    · cases κ <;> rfl

end Lower

/-- A function of the core is generated such that it gives what the source says. -/
theorem Gen.returns_generateFunction {detour : Lower.Detour} {env : Env} {g : GenState}
    {symbol : String} {params : List Param} {ret? : Option TypeExpr} {sig : Signature}
    {body : Block} (hdetour : Draft.SoundDetour detour) (hg : g.Sound) (hkinds : env.KnowsKinds)
    (hsymbol : symbol ≠ "main") (hsig : Core.signature? params ret? = some sig)
    (hbody : Core.isCoreBlock body = true) (span : Span) :
    ∃ fs F, ((generateFunction detour env symbol params sig body span none none).run
        g).2.module.functions = fs ++ [F] ∧ F.name = symbol ∧
      ∀ args v?, Core.Results params ret? body args v? →
        F.Returns (args.map Val.word) (v?.map Val.word) := by
  let h : Lower.Head := .ofSignature symbol params sig span none
  let code : Env → Lower Unit := fun inner => Lower.entry detour inner none body
  have hperforms : Draft.Performs (h.env env) (code (h.env env)) :=
    Draft.performs_entry hdetour (h.env env) none body
  obtain ⟨_, W, g', hrun, -, hvalid, hcomplete, hheader⟩ :=
    Draft.leads_whole env.catalog.file? hperforms g hg
  have hrun' : ((Lower.whole env h code).run (h.cursor env.catalog.file?)).run g =
      ((_, W.cursor), g') := hrun
  refine ⟨g'.module.functions, W.code, ?_, ?_, fun args v? ⟨fuel, happly⟩ => ?_⟩
  · rw [generateFunction, Lower.function, StateT.run_bind, hrun']
    rfl
  · exact congrArg Ir.Function.name hheader
  · simp only [Core.apply, Option.bind_eq_bind, Option.bind_eq_some_iff] at happly
    obtain ⟨table, htable, κ?, hκ, ⟨out, ρ⟩, hexec, hanswer⟩ := happly
    obtain ⟨htakes, hret⟩ := Lower.Head.takes_ofSignature hsig hsymbol htable hκ
    have hmain : h.isMain = false := by simp [h, Lower.Head.isMain, Lower.Head.ofSignature, hsymbol]
    have hwhole := Lower.ensures_whole detour env.catalog.file? htakes rfl
      (Lower.plain_env hkinds hmain hret) hbody g
    rw [hrun'] at hwhole
    rw [← (Core.of_bindArgs htable).2.2] at hexec
    have hparams : W.code.params = h.registers := congrArg Ir.Function.params hheader
    have hcode : W.code.ret = h.ret := congrArg Ir.Function.ret hheader
    exact hwhole W ⟨hvalid, hcomplete⟩ rfl hparams hcode fuel out ρ v? hexec hanswer

end ClassLang
