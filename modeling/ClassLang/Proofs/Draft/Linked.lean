import ClassLang.Proofs.Draft.Basic

/-!
# The blocks of a draft

The blocks of a draft have different numbers, the entry comes first, and only the block at hand may
still be open. What was done to the blocks is recorded in the edits, and the blocks hold what the
edits say: no edit concerns a block that was ended before. All of this is `Draft.Linked`, which every
step keeps.
-/

namespace ClassLang

namespace Edit

/-- The instruction that was added, if it was added to block `b`. -/
def pushed? (b : Nat) : Edit → Option Ir.Instr
  | push b' i => if b' = b then some i else none
  | close .. => none

/-- The terminator that was set, if it was set for block `b`. -/
def closed? (b : Nat) : Edit → Option Ir.Terminator
  | push .. => none
  | close b' t => if b' = b then some t else none

/-- The first edit does not come after the end of its block. -/
def Allowed (later earlier : Edit) : Prop := earlier.isClose = true → later.block ≠ earlier.block

@[simp] theorem pushed?_push (b : Nat) (i : Ir.Instr) : (push b i).pushed? b = some i := if_pos rfl

@[simp] theorem closed?_push (b b' : Nat) (i : Ir.Instr) : (push b' i).closed? b = none := rfl

@[simp] theorem pushed?_close (b b' : Nat) (t : Ir.Terminator) : (close b' t).pushed? b = none := rfl

@[simp] theorem closed?_close (b : Nat) (t : Ir.Terminator) : (close b t).closed? b = some t :=
  if_pos rfl

theorem pushed?_of_ne {e : Edit} {b : Nat} (h : e.block ≠ b) : e.pushed? b = none := by
  cases e with
  | push => exact if_neg h
  | close => rfl

theorem closed?_of_ne {e : Edit} {b : Nat} (h : e.block ≠ b) : e.closed? b = none := by
  cases e with
  | push => rfl
  | close => exact if_neg h

theorem filterMap_pushed?_eq_nil {es : List Edit} {b : Nat} (h : ∀ e ∈ es, e.block ≠ b) :
    es.filterMap (·.pushed? b) = [] :=
  List.filterMap_eq_nil_iff.2 fun e he => pushed?_of_ne (h e he)

theorem filterMap_closed?_eq_nil {es : List Edit} {b : Nat} (h : ∀ e ∈ es, e.block ≠ b) :
    es.filterMap (·.closed? b) = [] :=
  List.filterMap_eq_nil_iff.2 fun e he => closed?_of_ne (h e he)

end Edit

namespace Draft

/-- The blocks are well numbered, well connected, and as their edits say. -/
structure Linked (d : Draft) : Prop where
  nodup : d.ids.Nodup
  bound : ∀ b ∈ d.ids, b < d.nextBlock
  first : ∃ rest, d.ids = 0 :: rest
  entry : d.cursor.header.entry = 0
  ended : ∀ b ∈ d.cursor.before, b.isTerminated = true
  targets : ∀ b ∈ d.blocks, ∀ t ∈ b.terminator.targets, t < d.nextBlock
  known : ∀ e ∈ d.cursor.edits, e.block ∈ d.ids
  pushed : ∀ b ∈ d.blocks, (d.cursor.edits.filterMap (·.pushed? b.id)).reverse = b.instrs
  closed : ∀ b ∈ d.blocks,
    d.cursor.edits.filterMap (·.closed? b.id) = if b.isTerminated then [b.terminator] else []
  history : d.cursor.edits.Pairwise Edit.Allowed

variable {d d' : Draft} {n : Nat} {L : Nat → Prop}

namespace Linked

theorem eq_of_id_eq (h : d.Linked) {b b' : Ir.Block} (hb : b ∈ d.blocks) (hb' : b' ∈ d.blocks)
    (hid : b.id = b'.id) : b = b' :=
  List.inj_on_of_nodup_map h.nodup hb hb' hid

/-- No block before the one at hand has its number. -/
theorem id_ne_current (h : d.Linked) {b : Ir.Block} (hb : b ∈ d.cursor.before) :
    b.id ≠ d.cursor.current.id := by
  have hnodup := h.nodup
  rw [ids_eq, List.nodup_append] at hnodup
  exact hnodup.2.2 b.id (List.mem_map.2 ⟨b, hb, rfl⟩) _ (List.mem_singleton_self _)

/-- An open block was never ended. -/
theorem not_isClose (h : d.Linked) (hopen : d.IsOpen) {e : Edit} (he : e ∈ d.cursor.edits)
    (hid : e.block = d.cursor.current.id) : e.isClose = false := by
  have hclosed := h.closed _ d.current_mem
  have hopen' : d.cursor.current.isTerminated = false := hopen
  rw [hopen', if_neg Bool.false_ne_true, List.filterMap_eq_nil_iff] at hclosed
  cases e with
  | push => rfl
  | close b t =>
    have hid' : b = d.cursor.current.id := hid
    have hnone := hclosed _ he
    rw [Edit.closed?, if_pos hid'] at hnone
    cases hnone

/-- An edit of an open block may come after all others. -/
theorem allowed (h : d.Linked) (hopen : d.IsOpen) {e : Edit}
    (he : e.block = d.cursor.current.id) : ∀ e' ∈ d.cursor.edits, Edit.Allowed e e' := by
  intro e' he' hclose heq
  have hnot := h.not_isClose hopen he' (heq.symm.trans he)
  rw [hnot] at hclose
  cases hclose

/-- Of a draft that differs only in what this invariant does not read. -/
theorem of_eq (h : d.Linked) (hheader : d'.cursor.header.entry = d.cursor.header.entry)
    (hblocks : d'.cursor.blocks = d.cursor.blocks) (hbefore : d'.cursor.before = d.cursor.before)
    (hedits : d'.cursor.edits = d.cursor.edits) (hnext : d.nextBlock ≤ d'.nextBlock) :
    d'.Linked := by
  have hids : d'.ids = d.ids := congrArg (List.map Ir.Block.id) hblocks
  have hblocks' : d'.blocks = d.blocks := hblocks
  constructor
  · rw [hids]
    exact h.nodup
  · rw [hids]
    exact fun b hb => Nat.lt_of_lt_of_le (h.bound b hb) hnext
  · rw [hids]
    exact h.first
  · exact hheader.trans h.entry
  · rw [hbefore]
    exact h.ended
  · rw [hblocks']
    exact fun b hb t ht => Nat.lt_of_lt_of_le (h.targets b hb t ht) hnext
  · rw [hids, hedits]
    exact h.known
  · rw [hblocks', hedits]
    exact h.pushed
  · rw [hblocks', hedits]
    exact h.closed
  · rw [hedits]
    exact h.history

theorem push (h : d.Linked) (hopen : d.IsOpen) (i : Ir.Instr) : (d.push i).Linked := by
  have hids : (d.push i).ids = d.ids := by rw [ids_eq, ids_eq]; rfl
  constructor
  · rw [hids]
    exact h.nodup
  · rw [hids]
    exact h.bound
  · rw [hids]
    exact h.first
  · exact h.entry
  · exact h.ended
  · intro b hb
    rcases mem_blocks.1 hb with hb | rfl
    · exact h.targets b (mem_blocks.2 (.inl hb))
    · exact h.targets d.cursor.current d.current_mem
  · rw [hids]
    intro e he
    rcases List.mem_cons.1 he with rfl | he
    · exact d.current_id_mem
    · exact h.known e he
  · intro b hb
    rcases mem_blocks.1 hb with hb | rfl
    · have hne := Edit.pushed?_of_ne (e := .push d.cursor.current.id i) (h.id_ne_current hb).symm
      simpa [Draft.push, Cursor.push, hne] using h.pushed b (mem_blocks.2 (.inl hb))
    · simp [Draft.push, Cursor.push, Ir.Block.push, h.pushed _ d.current_mem]
  · intro b hb
    rcases mem_blocks.1 hb with hb | rfl
    · exact h.closed b (mem_blocks.2 (.inl hb))
    · exact h.closed d.cursor.current d.current_mem
  · exact List.pairwise_cons.2 ⟨h.allowed hopen rfl, h.history⟩

theorem close (h : d.Linked) (hopen : d.IsOpen) {t : Ir.Terminator} (hne : t ≠ .open_)
    (htargets : ∀ b ∈ t.targets, b < d.nextBlock) : (d.close t).Linked := by
  have hopen' : d.cursor.current.isTerminated = false := hopen
  have hids : (d.close t).ids = d.ids := by rw [ids_eq, ids_eq]; rfl
  constructor
  · rw [hids]
    exact h.nodup
  · rw [hids]
    exact h.bound
  · rw [hids]
    exact h.first
  · exact h.entry
  · exact h.ended
  · intro b hb
    rcases mem_blocks.1 hb with hb | rfl
    · exact h.targets b (mem_blocks.2 (.inl hb))
    · exact htargets
  · rw [hids]
    intro e he
    rcases List.mem_cons.1 he with rfl | he
    · exact d.current_id_mem
    · exact h.known e he
  · intro b hb
    rcases mem_blocks.1 hb with hb | rfl
    · exact h.pushed b (mem_blocks.2 (.inl hb))
    · exact h.pushed d.cursor.current d.current_mem
  · intro b hb
    rcases mem_blocks.1 hb with hb | rfl
    · have hne := Edit.closed?_of_ne (e := .close d.cursor.current.id t) (h.id_ne_current hb).symm
      simpa [Draft.close, hne] using h.closed b (mem_blocks.2 (.inl hb))
    · have hcurrent := h.closed _ d.current_mem
      rw [hopen', if_neg Bool.false_ne_true] at hcurrent
      have hended : ({ d.cursor.current with terminator := t } : Ir.Block).isTerminated = true :=
        bne_iff_ne.2 hne
      simp [Draft.close, hcurrent, hended]
  · exact List.pairwise_cons.2 ⟨h.allowed hopen rfl, h.history⟩

theorem start (h : d.Linked) (hopen : ¬ d.IsOpen) {id : Nat} (label : String)
    (hlt : id < d.nextBlock) (hnew : id ∉ d.ids) : (d.start id label).Linked := by
  have hids : (d.start id label).ids = d.ids ++ [id] := by simp [ids]
  have hedits : ∀ e ∈ d.cursor.edits, e.block ≠ id := by
    intro e he heq
    exact hnew (heq ▸ h.known e he)
  constructor
  · rw [hids, ← List.concat_eq_append]
    exact h.nodup.concat hnew
  · rw [hids]
    intro b hb
    rcases List.mem_append.1 hb with hb | hb
    · exact h.bound b hb
    · rw [List.mem_singleton.1 hb]
      exact hlt
  · obtain ⟨rest, hrest⟩ := h.first
    exact ⟨rest ++ [id], by rw [hids, hrest, List.cons_append]⟩
  · exact h.entry
  · intro b hb
    rcases List.mem_append.1 hb with hb | hb
    · exact h.ended b hb
    · rw [List.mem_singleton.1 hb]
      simpa [IsOpen] using hopen
  · intro b hb
    rcases List.mem_append.1 hb with hb | hb
    · exact h.targets b hb
    · rw [List.mem_singleton.1 hb]
      intro _ ht
      cases ht
  · rw [hids]
    exact fun e he => List.mem_append_left _ (h.known e he)
  · intro b hb
    rcases List.mem_append.1 hb with hb | hb
    · exact h.pushed b hb
    · rw [List.mem_singleton.1 hb]
      exact congrArg List.reverse (Edit.filterMap_pushed?_eq_nil hedits)
  · intro b hb
    rcases List.mem_append.1 hb with hb | hb
    · exact h.closed b hb
    · rw [List.mem_singleton.1 hb]
      exact Edit.filterMap_closed?_eq_nil hedits
  · exact h.history

end Linked

theorem Step.linked (h : Step n L d d') (hd : d.Linked) : d'.Linked := by
  cases h with
  | push i hopen => exact hd.push hopen i
  | assign i ty hopen => exact (hd.push hopen i).of_eq rfl rfl rfl rfl (Nat.le_refl _)
  | merge ty incoming hopen => exact (hd.push hopen _).of_eq rfl rfl rfl rfl (Nat.le_refl _)
  | alloc => exact hd.of_eq rfl rfl rfl rfl (Nat.le_succ _)
  | start id label hopen _ hlt hnew => exact hd.start hopen label hlt hnew
  | close t hopen hne _ htargets => exact hd.close hopen hne fun b hb => (htargets b hb).2.1
  | slot | scopes | personality => exact hd.of_eq rfl rfl rfl rfl (Nat.le_refl _)

theorem Run.linked (h : Run n L d d') (hd : d.Linked) : d'.Linked := by
  induction h with
  | refl => exact hd
  | tail _ hs ih => exact hs.linked ih

end Draft

end ClassLang
