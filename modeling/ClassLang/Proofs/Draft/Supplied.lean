import ClassLang.Proofs.Draft.Linked

/-!
# The registers of a draft

Every register is written once, and what is read was written before: the parameters and the stack
slots are there from the start, what is promised to a block holds wherever control comes from, and
the rest stands further up in the block. This is `Draft.Supplied`. A phi is different, since its
values are read where control comes from; `Draft.Joined` says that it has one value for each block
that leads to it. Every step keeps both.
-/

namespace ClassLang.Draft

variable {d d' : Draft} {n : Nat} {L : Nat → Prop} {r : Ir.Register}

/-! ## What is written -/

theorem mem_definitions :
    r ∈ d.definitions ↔ r ∈ d.always ∨ ∃ b ∈ d.blocks, r ∈ b.writes := by
  simp [definitions]

theorem hasAt_mem_definitions (hp : ∀ b r, d.promise b r → r ∈ d.definitions) {b : Ir.Block}
    (hb : b ∈ d.blocks) (h : d.HasAt b r) : r ∈ d.definitions := by
  rcases h with h | h | h
  · exact mem_definitions.2 (.inl h)
  · exact hp _ r h
  · exact mem_definitions.2 (.inr ⟨b, hb, h⟩)

theorem definitions_push {i : Ir.Instr} (hi : i.dest? = none) :
    (d.push i).definitions = d.definitions := by
  have hwrites : (d.cursor.current.push i).writes = d.cursor.current.writes := by
    simp [Ir.Block.writes, Ir.Block.push, hi]
  rw [definitions, definitions, blocks_push, blocks_eq, List.flatMap_append, List.flatMap_append,
    List.flatMap_singleton, List.flatMap_singleton, hwrites]
  rfl

theorem definitions_assign {i : Ir.Instr} (hi : i.dest? = some r) :
    (d.assign i).definitions = d.definitions ++ [r] := by
  have hwrites : (d.cursor.current.push i).writes = d.cursor.current.writes ++ [r] := by
    simp [Ir.Block.writes, Ir.Block.push, hi]
  rw [definitions, definitions, blocks_assign, blocks_eq, List.flatMap_append,
    List.flatMap_append, List.flatMap_singleton, List.flatMap_singleton, hwrites,
    ← List.append_assoc, ← List.append_assoc, ← List.append_assoc]
  rfl

theorem definitions_close (t : Ir.Terminator) : (d.close t).definitions = d.definitions := by
  rw [definitions, definitions, blocks_close, blocks_eq, List.flatMap_append, List.flatMap_append]
  rfl

theorem definitions_start (id : Nat) (label : String) :
    (d.start id label).definitions = d.definitions := by
  rw [definitions, definitions, blocks_start, List.flatMap_append, ← List.append_assoc]
  exact List.append_nil _

theorem always_addSlot (ty : Ir.Ty) :
    (d.addSlot ty).always = d.always ++ [⟨d.nextRegister, .ptr⟩] := by
  simp [always, addSlot, Ir.Instr.dest?]

theorem definitions_addSlot (ty : Ir.Ty) :
    (d.addSlot ty).definitions.Perm (d.definitions ++ [⟨d.nextRegister, .ptr⟩]) := by
  simp only [definitions, always_addSlot, blocks_addSlot, List.append_assoc]
  exact List.perm_append_comm.append_left d.always

namespace Step

theorem always (h : Step n L d d') (hr : r ∈ d.always) : r ∈ d'.always := by
  cases h with
  | slot ty =>
    rw [always_addSlot]
    exact List.mem_append_left _ hr
  | _ => exact hr

theorem definitions (h : Step n L d d') (hr : r ∈ d.definitions) : r ∈ d'.definitions := by
  rcases mem_definitions.1 hr with hr | ⟨b, hb, hr⟩
  · exact mem_definitions.2 (.inl (h.always hr))
  · obtain ⟨b', hb', hg⟩ := h.grows hb
    exact mem_definitions.2 (.inr ⟨b', hb', hg.writes hr⟩)

theorem hasAt (h : Step n L d d') {b b' : Ir.Block} (hb : b.id < d.nextBlock) (hg : b.Grows b')
    (hr : d.HasAt b r) : d'.HasAt b' r := by
  rcases hr with hr | hr | hr
  · exact .inl (h.always hr)
  · refine .inr (.inl ?_)
    rw [hg.id, h.promise hb]
    exact hr
  · exact .inr (.inr (hg.writes hr))

end Step

/-! ## Registers -/

/-- Registers are written once, and before they are read. -/
structure Supplied (d : Draft) : Prop where
  nodup : (d.definitions.map Ir.Register.id).Nodup
  bound : ∀ r ∈ d.definitions, r.id < d.nextRegister
  slots : ∀ i ∈ d.cursor.slots, i.isAlloca = true
  code : ∀ b ∈ d.blocks, ∀ i ∈ b.instrs, i.isAlloca = false
  reads : ∀ b ∈ d.blocks, ∀ pre i post, b.instrs = pre ++ i :: post → ∀ r ∈ i.reads,
    r ∈ d.always ∨ d.promise b.id r ∨ r ∈ pre.filterMap Ir.Instr.dest?
  ends : ∀ b ∈ d.blocks, ∀ r ∈ b.terminator.reads, d.HasAt b r
  edges : ∀ b ∈ d.blocks, ∀ t ∈ b.terminator.targets, ∀ r, d.promise t r → d.HasAt b r
  promised : ∀ b r, d.promise b r → r ∈ d.definitions
  entry : ∀ r, ¬ d.promise 0 r
  locals : ∀ s ∈ d.cursor.scopes, ∀ name l, s.find? name = some l →
    ∃ r ∈ d.cursor.slots.filterMap Ir.Instr.dest?, l.ptr = .reg r
  apart : d.cursor.scopes.Pairwise Table.Apart

namespace Supplied

theorem has_mem_definitions (h : d.Supplied) (hr : d.Has r) : r ∈ d.definitions :=
  hasAt_mem_definitions h.promised d.current_mem hr

/-- The next register is not written yet. -/
theorem next_not_mem (h : d.Supplied) : d.nextRegister ∉ d.definitions.map Ir.Register.id := by
  intro hmem
  obtain ⟨r, hr, heq⟩ := List.mem_map.1 hmem
  exact Nat.ne_of_lt (h.bound r hr) heq

theorem nodup_next (h : d.Supplied) (ty : Ir.Ty) :
    ((d.definitions ++ [(⟨d.nextRegister, ty⟩ : Ir.Register)]).map Ir.Register.id).Nodup := by
  rw [List.map_append, List.map_singleton, ← List.concat_eq_append]
  exact h.nodup.concat h.next_not_mem

theorem bound_next (h : d.Supplied) (ty : Ir.Ty) :
    ∀ r ∈ d.definitions ++ [(⟨d.nextRegister, ty⟩ : Ir.Register)], r.id < d.nextRegister + 1 := by
  intro r hr
  rcases List.mem_append.1 hr with hr | hr
  · exact Nat.lt_succ_of_lt (h.bound r hr)
  · rw [List.mem_singleton.1 hr]
    exact Nat.lt_succ_self _

end Supplied

theorem precedes_assign {i : Ir.Instr} {p t : Nat} :
    (d.assign i).Precedes p t ↔ d.Precedes p t := by
  simp only [Precedes, blocks_eq, List.mem_append, List.mem_singleton, or_and_right, exists_or,
    exists_eq_left]
  rfl

/-- The last element of a list is the one at hand, or comes after it. -/
private theorem eq_or_eq_of_concat_eq {α : Type} {l pre post : List α} {a x : α}
    (h : l ++ [a] = pre ++ x :: post) : (pre = l ∧ x = a) ∨ ∃ post', l = pre ++ x :: post' := by
  rcases List.eq_nil_or_concat post with rfl | ⟨post', y, rfl⟩
  · obtain ⟨hl, ha⟩ := List.append_inj' h rfl
    exact .inl ⟨hl.symm, (List.cons.inj ha).1.symm⟩
  · rw [List.concat_eq_append, ← List.cons_append, ← List.append_assoc] at h
    exact .inr ⟨post', (List.append_inj' h rfl).1⟩

namespace Step

/-! What a step does to each field of `Supplied`. -/

theorem supplied_nodup (h : Step n L d d') (hd : d.Supplied) :
    (d'.definitions.map Ir.Register.id).Nodup := by
  cases h with
  | push i _ _ hdest =>
    rw [definitions_push hdest]
    exact hd.nodup
  | assign i ty _ _ hdest =>
    rw [definitions_assign hdest]
    exact hd.nodup_next ty
  | merge ty incoming =>
    rw [definitions_assign rfl]
    exact hd.nodup_next ty
  | slot ty => exact ((definitions_addSlot ty).map _).nodup_iff.2 (hd.nodup_next _)
  | start id label =>
    rw [definitions_start]
    exact hd.nodup
  | close t =>
    rw [definitions_close]
    exact hd.nodup
  | _ => exact hd.nodup

theorem supplied_bound (h : Step n L d d') (hd : d.Supplied) :
    ∀ r ∈ d'.definitions, r.id < d'.nextRegister := by
  cases h with
  | push i _ _ hdest =>
    rw [definitions_push hdest]
    exact hd.bound
  | assign i ty _ _ hdest =>
    rw [definitions_assign hdest]
    exact hd.bound_next ty
  | merge ty incoming =>
    rw [definitions_assign rfl]
    exact hd.bound_next ty
  | slot ty => exact fun r hr => hd.bound_next .ptr r ((definitions_addSlot ty).mem_iff.1 hr)
  | start id label =>
    rw [definitions_start]
    exact hd.bound
  | close t =>
    rw [definitions_close]
    exact hd.bound
  | _ => exact hd.bound

theorem supplied_slots (h : Step n L d d') (hd : d.Supplied) :
    ∀ i ∈ d'.cursor.slots, i.isAlloca = true := by
  cases h with
  | slot ty =>
    intro i hi
    rcases List.mem_append.1 hi with hi | hi
    · exact hd.slots i hi
    · rw [List.mem_singleton.1 hi]
      rfl
  | _ => exact hd.slots

/-- An instruction of a later draft was there before, or has just been added at the end of the block
at hand. -/
theorem instr_cases (h : Step n L d d') {b' : Ir.Block} (hb' : b' ∈ d'.blocks)
    {pre post : List Ir.Instr} {i : Ir.Instr} (hi : b'.instrs = pre ++ i :: post) :
    (∃ b ∈ d.blocks, b.Grows b' ∧ ∃ post', b.instrs = pre ++ i :: post') ∨
      b'.id = d.cursor.current.id ∧ pre = d.cursor.current.instrs ∧ i.isAlloca = false ∧
        (∀ r ∈ i.reads, d.Has r) ∧
        (i.isPhi = true → (i.incoming.map (·.2)).Nodup ∧
          (∀ p, p ∈ i.incoming.map (·.2) ↔ d.Precedes p b'.id) ∧
          (∀ p, d'.Precedes p b'.id → d.Precedes p b'.id) ∧
          ∀ e ∈ i.incoming, ∀ b ∈ d.blocks, b.id = e.2 → ∀ r ∈ e.1.reads, d.HasAt b r) := by
  cases h with
  | push j hopen hplain _ hreads | assign j ty hopen hplain _ hreads =>
    rcases List.mem_append.1 hb' with hb' | hb'
    · exact .inl ⟨b', mem_blocks.2 (.inl hb'), .refl b', post, hi⟩
    · rw [List.mem_singleton.1 hb'] at hi ⊢
      rcases eq_or_eq_of_concat_eq hi with ⟨hpre, hij⟩ | ⟨post', hpost'⟩
      · subst hij
        simp only [Ir.Instr.isPlain, Bool.and_eq_true, Bool.not_eq_true'] at hplain
        refine .inr ⟨rfl, hpre, hplain.1, hreads, fun hphi => ?_⟩
        rw [hplain.2] at hphi
        cases hphi
      · exact .inl ⟨_, d.current_mem, .push hopen, post', hpost'⟩
  | merge ty incoming hopen _ hnodup hiff hreads =>
    rcases List.mem_append.1 hb' with hb' | hb'
    · exact .inl ⟨b', mem_blocks.2 (.inl hb'), .refl b', post, hi⟩
    · rw [List.mem_singleton.1 hb'] at hi ⊢
      rcases eq_or_eq_of_concat_eq hi with ⟨hpre, hij⟩ | ⟨post', hpost'⟩
      · subst hij
        refine .inr ⟨rfl, hpre, rfl, ?_, fun _ =>
          ⟨hnodup, hiff, fun _ => precedes_assign.1, hreads⟩⟩
        intro r hr
        cases hr
      · exact .inl ⟨_, d.current_mem, .push hopen, post', hpost'⟩
  | start id label =>
    rcases List.mem_append.1 hb' with hb' | hb'
    · exact .inl ⟨b', hb', .refl b', post, hi⟩
    · rw [List.mem_singleton.1 hb'] at hi
      exact absurd hi.symm (List.append_ne_nil_of_right_ne_nil _ (List.cons_ne_nil _ _))
  | close t hopen =>
    rcases List.mem_append.1 hb' with hb' | hb'
    · exact .inl ⟨b', mem_blocks.2 (.inl hb'), .refl b', post, hi⟩
    · rw [List.mem_singleton.1 hb'] at hi ⊢
      exact .inl ⟨_, d.current_mem, .close hopen, post, hi⟩
  | _ => exact .inl ⟨b', hb', .refl b', post, hi⟩

theorem supplied_code (h : Step n L d d') (hd : d.Supplied) :
    ∀ b ∈ d'.blocks, ∀ i ∈ b.instrs, i.isAlloca = false := by
  intro b' hb' i hi
  obtain ⟨pre, post, hi⟩ := List.append_of_mem hi
  rcases h.instr_cases hb' hi with ⟨b, hb, _, post', hpost'⟩ | ⟨_, _, halloca, _⟩
  · exact hd.code b hb i (by simp [hpost'])
  · exact halloca

theorem supplied_reads (h : Step n L d d') (hl : d.Linked) (hd : d.Supplied) :
    ∀ b ∈ d'.blocks, ∀ pre i post, b.instrs = pre ++ i :: post → ∀ r ∈ i.reads,
      r ∈ d'.always ∨ d'.promise b.id r ∨ r ∈ pre.filterMap Ir.Instr.dest? := by
  intro b' hb' pre i post hi r hr
  rcases h.instr_cases hb' hi with ⟨b, hb, hg, post', hpost'⟩ | ⟨hid, hpre, _, hreads, _⟩
  · have hlt := hl.bound b.id (Draft.mem_ids.2 ⟨b, hb, rfl⟩)
    rw [hg.id, h.promise hlt]
    exact (hd.reads b hb pre i post' hpost' r hr).imp_left h.always
  · rw [hid, h.promise (hl.bound _ d.current_id_mem), hpre]
    exact (hreads r hr).imp_left h.always

/-- How a block of a later draft ends was settled before, or has just been settled for the block at
hand, or is still open. -/
theorem terminator_cases (h : Step n L d d') {b' : Ir.Block} (hb' : b' ∈ d'.blocks) :
    (∃ b ∈ d.blocks, b.Grows b' ∧ b'.terminator = b.terminator) ∨
      (d.cursor.current.Grows b' ∧ (∀ r ∈ b'.terminator.reads, d.Has r) ∧
        ∀ t ∈ b'.terminator.targets, t < d.nextBlock ∧ ¬ d.Merges t ∧
          ∀ r, d.promise t r → d.Has r) ∨
      b'.id ∉ d.ids ∧ b'.terminator = .open_ := by
  cases h with
  | push j hopen | assign j ty hopen | merge ty incoming hopen =>
    rcases List.mem_append.1 hb' with hb' | hb'
    · exact .inl ⟨b', mem_blocks.2 (.inl hb'), .refl b', rfl⟩
    · rw [List.mem_singleton.1 hb']
      exact .inl ⟨_, d.current_mem, .push hopen, rfl⟩
  | start id label _ _ _ hnew =>
    rcases List.mem_append.1 hb' with hb' | hb'
    · exact .inl ⟨b', hb', .refl b', rfl⟩
    · rw [List.mem_singleton.1 hb']
      exact .inr (.inr ⟨hnew, rfl⟩)
  | close t hopen _ hreads htargets =>
    rcases List.mem_append.1 hb' with hb' | hb'
    · exact .inl ⟨b', mem_blocks.2 (.inl hb'), .refl b', rfl⟩
    · rw [List.mem_singleton.1 hb']
      exact .inr (.inl ⟨.close hopen, hreads, fun t ht => (htargets t ht).2⟩)
  | _ => exact .inl ⟨b', hb', .refl b', rfl⟩

theorem supplied_ends (h : Step n L d d') (hl : d.Linked) (hd : d.Supplied) :
    ∀ b ∈ d'.blocks, ∀ r ∈ b.terminator.reads, d'.HasAt b r := by
  intro b' hb' r hr
  rcases h.terminator_cases hb' with ⟨b, hb, hg, ht⟩ | ⟨hg, hreads, _⟩ | ⟨_, ht⟩
  · rw [ht] at hr
    exact h.hasAt (hl.bound _ (Draft.mem_ids.2 ⟨b, hb, rfl⟩)) hg (hd.ends b hb r hr)
  · exact h.hasAt (hl.bound _ d.current_id_mem) hg (hreads r hr)
  · rw [ht] at hr
    cases hr

theorem supplied_edges (h : Step n L d d') (hl : d.Linked) (hd : d.Supplied) :
    ∀ b ∈ d'.blocks, ∀ t ∈ b.terminator.targets, ∀ r, d'.promise t r → d'.HasAt b r := by
  intro b' hb' t ht r hr
  rcases h.terminator_cases hb' with ⟨b, hb, hg, heq⟩ | ⟨hg, _, htargets⟩ | ⟨_, heq⟩
  · rw [heq] at ht
    rw [h.promise (hl.targets b hb t ht)] at hr
    exact h.hasAt (hl.bound _ (Draft.mem_ids.2 ⟨b, hb, rfl⟩)) hg (hd.edges b hb t ht r hr)
  · obtain ⟨hlt, -, hpromise⟩ := htargets t ht
    rw [h.promise hlt] at hr
    exact h.hasAt (hl.bound _ d.current_id_mem) hg (hpromise r hr)
  · rw [heq] at ht
    cases ht

theorem supplied_promised (h : Step n L d d') (hd : d.Supplied) :
    ∀ b r, d'.promise b r → r ∈ d'.definitions := by
  intro b r hr
  refine h.definitions ?_
  cases h with
  | alloc =>
    by_cases hb : b = d.nextBlock
    · exact hd.has_mem_definitions (by simpa [Draft.alloc, hb] using hr)
    · exact hd.promised b r (by simpa [Draft.alloc, hb] using hr)
  | _ => exact hd.promised b r hr

theorem supplied_locals (h : Step n L d d') (hd : d.Supplied) :
    ∀ s ∈ d'.cursor.scopes, ∀ name l, s.find? name = some l →
      ∃ r ∈ d'.cursor.slots.filterMap Ir.Instr.dest?, l.ptr = .reg r := by
  cases h with
  | slot ty =>
    intro s hs name l hl
    obtain ⟨r, hr, hptr⟩ := hd.locals s hs name l hl
    refine ⟨r, ?_, hptr⟩
    rw [Draft.addSlot, List.filterMap_append]
    exact List.mem_append_left _ hr
  | scopes ss hss => exact hss
  | _ => exact hd.locals

theorem supplied (h : Step n L d d') (hl : d.Linked) (hd : d.Supplied) : d'.Supplied where
  nodup := h.supplied_nodup hd
  bound := h.supplied_bound hd
  slots := h.supplied_slots hd
  code := h.supplied_code hd
  reads := h.supplied_reads hl hd
  ends := h.supplied_ends hl hd
  edges := h.supplied_edges hl hd
  promised := h.supplied_promised hd
  entry := by
    obtain ⟨rest, hrest⟩ := hl.first
    rw [h.promise (hl.bound 0 (hrest ▸ List.mem_cons_self))]
    exact hd.entry
  locals := h.supplied_locals hd
  apart := by
    cases h with
    | scopes ss _ hapart => exact hapart
    | _ => exact hd.apart

end Step

/-! ## Phis -/

/-- A phi has one value for each block that leads to it, which can be read there. -/
structure Joined (d : Draft) : Prop where
  nodup : ∀ b ∈ d.blocks, ∀ i ∈ b.instrs, i.isPhi = true → (i.incoming.map (·.2)).Nodup
  sources : ∀ b ∈ d.blocks, ∀ i ∈ b.instrs, i.isPhi = true →
    ∀ p, p ∈ i.incoming.map (·.2) ↔ d.Precedes p b.id
  values : ∀ b ∈ d.blocks, ∀ i ∈ b.instrs, i.isPhi = true → ∀ e ∈ i.incoming,
    ∀ b' ∈ d.blocks, b'.id = e.2 → ∀ r ∈ e.1.reads, d.HasAt b' r

namespace Step

/-- No way comes to lead to a block that merges control. -/
theorem precedes_iff (h : Step n L d d') {p t : Nat} (hm : d.Merges t) :
    d'.Precedes p t ↔ d.Precedes p t := by
  refine ⟨fun hp => ?_, h.precedes⟩
  rcases h.precedes_cases hp with hp | ⟨_, _, hnot⟩
  · exact hp
  · exact absurd hm hnot

/-- What can be read at the end of a block that leads somewhere can be read there later. -/
theorem hasAt_of_precedes (h : Step n L d d') (hl : d.Linked) {p t : Nat} (hp : d.Precedes p t)
    (hr : ∀ b ∈ d.blocks, b.id = p → d.HasAt b r) :
    ∀ b' ∈ d'.blocks, b'.id = p → d'.HasAt b' r := by
  intro b' hb' hid
  obtain ⟨b, hb, hbp, _⟩ := hp
  rcases h.grew hb' with ⟨b₀, hb₀, hg⟩ | ⟨_, hnew, _⟩
  · exact h.hasAt (hl.bound _ (Draft.mem_ids.2 ⟨b₀, hb₀, rfl⟩)) hg (hr b₀ hb₀ (hg.id ▸ hid))
  · exact absurd (Draft.mem_ids.2 ⟨b, hb, hbp.trans hid.symm⟩) hnew

/-- A phi of a later draft has the values that it needs, by what held when it was added. -/
theorem joined_at (h : Step n L d d') (hl : d.Linked) (hd : d.Joined) {b' : Ir.Block}
    (hb' : b' ∈ d'.blocks) {i : Ir.Instr} (hi : i ∈ b'.instrs) (hphi : i.isPhi = true) :
    (i.incoming.map (·.2)).Nodup ∧ (∀ p, p ∈ i.incoming.map (·.2) ↔ d'.Precedes p b'.id) ∧
      ∀ e ∈ i.incoming, ∀ b ∈ d'.blocks, b.id = e.2 → ∀ r ∈ e.1.reads, d'.HasAt b r := by
  obtain ⟨pre, post, hi⟩ := List.append_of_mem hi
  rcases h.instr_cases hb' hi with ⟨b, hb, hg, post', hpost'⟩ | ⟨_, _, _, _, hnew⟩
  · have hib : i ∈ b.instrs := by simp [hpost']
    have hmerges : d.Merges b.id := ⟨b, hb, rfl, i, hib, hphi⟩
    rw [hg.id]
    refine ⟨hd.nodup b hb i hib hphi, fun p => ?_, fun e he b₁ hb₁ hid r hr => ?_⟩
    · rw [h.precedes_iff hmerges]
      exact hd.sources b hb i hib hphi p
    · have hp := (hd.sources b hb i hib hphi e.2).1 (List.mem_map_of_mem he)
      exact h.hasAt_of_precedes hl hp (fun b₂ hb₂ hid₂ =>
        hd.values b hb i hib hphi e he b₂ hb₂ hid₂ r hr) b₁ hb₁ hid
  · obtain ⟨hnodup, hiff, hback, hvalues⟩ := hnew hphi
    refine ⟨hnodup, fun p => (hiff p).trans ⟨h.precedes, hback p⟩, fun e he b₁ hb₁ hid r hr => ?_⟩
    have hp := (hiff e.2).1 (List.mem_map_of_mem he)
    exact h.hasAt_of_precedes hl hp (fun b₂ hb₂ hid₂ => hvalues e he b₂ hb₂ hid₂ r hr) b₁ hb₁ hid

theorem joined (h : Step n L d d') (hl : d.Linked) (hd : d.Joined) : d'.Joined where
  nodup _ hb _ hi hphi := (h.joined_at hl hd hb hi hphi).1
  sources _ hb _ hi hphi := (h.joined_at hl hd hb hi hphi).2.1
  values _ hb _ hi hphi := (h.joined_at hl hd hb hi hphi).2.2

end Step

end ClassLang.Draft
