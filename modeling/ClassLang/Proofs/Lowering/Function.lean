import ClassLang.Proofs.Lowering.Flow
import Mathlib.Data.List.Forall2

/-!
# Whole functions

A function begins as a draft with an entry block and its parameters. If the code of its body performs,
the draft is complete in the end, and adding the function to the module keeps the state sound.
-/

namespace ClassLang

namespace Draft

/-- A function before any code was added to it. Nothing is promised to its blocks. -/
def ofHead (h : Lower.Head) (file? : Option String) : Draft := ⟨h.cursor file?, fun _ _ => False⟩

variable {h : Lower.Head} {file? : Option String}

theorem map_id_registers (h : Lower.Head) : h.registers.map Ir.Register.id =
    List.range' (if h.class?.isSome then 1 else 0) h.params.length := by
  rw [Lower.Head.registers, List.map_map]
  conv => rhs; rw [← Nat.add_zero (if h.class?.isSome then 1 else 0), ← List.map_add_range']
  rw [← List.zipIdx_map_snd 0 h.params, List.map_map]
  rfl

/-- The parameters have the first registers. -/
theorem map_id_params (h : Lower.Head) (file? : Option String) :
    (h.cursor file?).header.params.map Ir.Register.id =
      List.range' 0 (h.cursor file?).nextRegister := by
  have hlength : h.registers.length = h.params.length := by simp [Lower.Head.registers]
  have hregisters := map_id_registers h
  unfold Lower.Head.cursor
  cases hclass : h.class?.isSome with
  | true =>
    simp only [hclass, if_true, List.map_append, List.length_append, hlength] at hregisters ⊢
    rw [hregisters, List.map_singleton, List.length_singleton, Nat.add_comm, List.range'_succ]
    rfl
  | false =>
    simp only [hclass, Bool.false_eq_true, if_false, List.nil_append, hlength] at hregisters ⊢
    exact hregisters

theorem blocks_ofHead :
    (ofHead h file?).blocks = [({ id := 0, label? := some "entry" } : Ir.Block)] := rfl

theorem definitions_ofHead : (ofHead h file?).definitions = (h.cursor file?).header.params := by
  rw [definitions, blocks_ofHead]
  simp [always, ofHead, Lower.Head.cursor, Ir.Block.writes]

theorem linked_ofHead : (ofHead h file?).Linked where
  nodup := List.nodup_singleton 0
  bound b hb := by
    rw [List.mem_singleton.1 hb]
    exact Nat.one_pos
  first := ⟨[], rfl⟩
  entry := rfl
  ended _ hb := nomatch hb
  targets := by simp [blocks_ofHead, Ir.Terminator.targets]
  known _ he := nomatch he
  pushed b hb := by
    rw [List.mem_singleton.1 hb]
    rfl
  closed b hb := by
    rw [List.mem_singleton.1 hb]
    rfl
  history := .nil

theorem supplied_ofHead : (ofHead h file?).Supplied where
  nodup := by
    rw [definitions_ofHead, map_id_params]
    exact List.nodup_range'
  bound r hr := by
    rw [definitions_ofHead] at hr
    have hmem := List.mem_map_of_mem (f := Ir.Register.id) hr
    rw [map_id_params, List.mem_range'_1, Nat.zero_add] at hmem
    exact hmem.2
  slots _ hi := nomatch hi
  code := by simp [blocks_ofHead]
  reads := by simp [blocks_ofHead]
  ends := by simp [blocks_ofHead, Ir.Terminator.reads]
  edges := by simp [blocks_ofHead, Ir.Terminator.targets]
  promised _ _ hp := hp.elim
  entry _ hp := hp
  locals s hs name l hl := by
    rw [List.mem_singleton.1 hs] at hl
    cases hl
  apart := List.pairwise_singleton _ _

theorem valid_ofHead : (ofHead h file?).Valid where
  linked := linked_ofHead
  supplied := supplied_ofHead
  joined := by constructor <;> simp [blocks_ofHead]
  built := .bare rfl rfl rfl rfl

theorem isOpen_ofHead : (ofHead h file?).IsOpen := rfl

theorem has_param {r : Ir.Register} (hr : r ∈ (h.cursor file?).header.params) :
    (ofHead h file?).Has r :=
  always_has (List.mem_append_left _ hr)

/-! ## The body -/

variable {d : Draft} {outer : Env}

theorem yields_bindParams (hparams : ∀ r ∈ h.registers, d.Has r) :
    Yields (Lower.bindParams h) d fun _ _ => True := by
  refine .forM (P := fun p d => d.Has p.2) _ ?_ ?_ fun p hp => ?_
  · exact fun p d d' hle hr => hle.1 p.2 hr
  · rintro ⟨⟨name, ty⟩, r⟩ _ d' hr
    exact (Yields.bindValue (carries_reg hr) name ty r.ty).bind fun _ _ _ _ => .pure trivial
  · exact hparams p.2 (List.of_mem_zip hp).2

/-- The environment of a function's body refers to nothing but its object. -/
theorem fits_env (hthis : h.class?.isSome → d.Has Lower.Head.thisRegister) :
    d.Fits (h.env outer) := by
  refine ⟨⟨fun v cls hv => ?_, fun b ⟨l, hl, _⟩ => (nomatch hl), .nil, ?_⟩, ?_⟩
  case refine_2 | refine_3 => exact fun _ ht => nomatch ht
  obtain ⟨c, hc, hpair⟩ := Option.map_eq_some_iff.1 hv
  cases hpair
  exact carries_reg (hthis (by rw [hc]; rfl))

theorem reads_defaultReturn (ret : Ir.Ty) : (Cursor.defaultReturn ret).reads = [] := by
  unfold Cursor.defaultReturn
  split
  · rfl
  · cases ret <;> rfl

/-- The code of a function from a body that performs. Name, parameters and result are those of its
head. -/
theorem leads_whole (file? : Option String) {body : Env → Lower Unit}
    (hbody : Performs (h.env outer) (body (h.env outer))) :
    Leads (Lower.whole outer h body) (ofHead h file?) fun _ d' => d'.Valid ∧ d'.Complete ∧
      { d'.cursor.header with personality? := none } =
        { (h.cursor file?).header with personality? := none } := by
  have hparam : ∀ r ∈ (h.cursor file?).header.params, (ofHead h file?).Has r := fun _ => has_param
  have hgoes : Goes (h.env outer).IsTarget (Lower.whole outer h body) (ofHead h file?)
      fun _ d' => ¬ d'.IsOpen := by
    refine (yields_bindParams fun r hr => hparam r (List.mem_append_right _ hr)).bind_goes
      isOpen_ofHead fun _ d₁ hf₁ ho₁ _ => ?_
    have hthis : h.class?.isSome → d₁.Has Lower.Head.thisRegister := fun hc => by
      refine hf₁.le.1 _ (hparam _ (List.mem_append_left _ ?_))
      rw [if_pos hc]
      exact List.mem_singleton_self _
    refine (hbody d₁ ho₁ (fits_env hthis)).bind fun _ d₂ _ _ => ?_
    refine .terminate ?_ (fun _ r hr => ?_) fun b hb => ?_
    · unfold Cursor.defaultReturn
      split <;> exact fun h => nomatch h
    · rw [reads_defaultReturn] at hr
      cases hr
    · unfold Cursor.defaultReturn at hb
      split at hb <;> cases hb
  refine (hgoes valid_ofHead).mono fun _ d' ⟨hf, hended⟩ => ?_
  refine ⟨hf.run.valid valid_ofHead, ⟨hended, fun b hb => ?_, fun p hp => ?_⟩, hf.run.header⟩
  · rcases Nat.lt_or_ge b 1 with hlt | hge
    · rw [Nat.lt_one_iff.1 hlt]
      exact hf.run.mem_ids List.mem_cons_self
    · exact hf.started b hge hb
  · have hnone : ¬ (h.env outer).IsTarget 0 := fun ⟨_, hl, _⟩ => nomatch hl
    obtain ⟨b, hb, -, ht⟩ := hf.run.precedes_of_lt Nat.one_pos hnone hp
    rw [List.mem_singleton.1 hb] at ht
    cases ht

end Draft

open Draft in
theorem Gen.keeps_function {outer : Env} {h : Lower.Head} {body : Env → Lower Unit}
    (hbody : Performs (h.env outer) (body (h.env outer))) :
    (Lower.function outer h body).Keeps := by
  intro g hg
  obtain ⟨_, d', g', hrun, hg', hvalid, hcomplete, -⟩ :=
    leads_whole outer.catalog.file? hbody g hg
  have hfinishes : Finishes d'.cursor.finish d'.cursor.edits := ⟨d', hvalid, hcomplete, rfl, rfl⟩
  have hrun' : ((Lower.whole outer h body).run (h.cursor outer.catalog.file?)).run g =
      ((_, d'.cursor), g') := hrun
  rw [Lower.function, StateT.run_bind, hrun']
  exact ⟨List.rel_append hg'.functions (.cons hfinishes .nil), hg'.globals, hg'.errors, hg'.queue, hg'.copies⟩

end ClassLang
