import ClassLang.Proofs.Draft.Hoisted

/-!
# Finished functions

What a complete draft gives: the stack slots go to the top of the entry block, and nothing else
changes, since every block is ended by then. The blocks of such a function are `Disciplined`, and so
nothing is wrong with it.
-/

namespace ClassLang

namespace Ir.Function

/-- The numbers of the blocks. -/
def ids (f : Function) : List Nat := f.blocks.map Block.id

/-- The blocks of a function have different numbers, each ends, and control stays inside of the
function. They were built by edits, given with the latest first, none of which concerns a block that
was ended before; but for stack slots, each block holds what was added to it, in this order, and has
the terminator that it was given once. -/
structure Disciplined (f : Function) (edits : List Edit) : Prop where
  nodup : f.ids.Nodup
  entry : f.entry ∈ f.ids
  ended : ∀ b ∈ f.blocks, b.terminator ≠ .open_
  targets : ∀ b ∈ f.blocks, ∀ t ∈ b.terminator.targets, t ∈ f.ids
  history : edits.Pairwise Edit.Allowed
  pushed : ∀ b ∈ f.blocks,
    (edits.filterMap (·.pushed? b.id)).reverse = b.instrs.filter (!·.isAlloca)
  closed : ∀ b ∈ f.blocks, edits.filterMap (·.closed? b.id) = [b.terminator]

theorem isSome_block?_iff {f : Function} {id : Nat} : (f.block? id).isSome = true ↔ id ∈ f.ids := by
  simp [block?, ids]

/-- Nothing is wrong with a disciplined function. -/
theorem Disciplined.flaw?_eq_none {f : Function} {edits : List Edit} (h : f.Disciplined edits) :
    f.flaw? = none := by
  have hsome : ∀ {id}, id ∈ f.ids → (f.block? id).isNone = false := fun hid => by
    rw [← Option.not_isSome, isSome_block?_iff.2 hid]
    rfl
  rw [flaw?, hsome h.entry, if_neg Bool.false_ne_true, List.findSome?_eq_none_iff]
  intro b hb
  have hended : b.isTerminated = true := bne_iff_ne.2 (h.ended b hb)
  rw [blockFlaw?, hended, Bool.not_true, if_neg Bool.false_ne_true, Option.map_eq_none_iff,
    List.find?_eq_none]
  intro t ht
  rw [hsome (h.targets b hb t ht)]
  exact Bool.false_ne_true

end Ir.Function

namespace Cursor

theorem map_id_withSlots (slots : List Ir.Instr) (bs : List Ir.Block) :
    (withSlots slots bs).map Ir.Block.id = bs.map Ir.Block.id := by
  cases bs <;> rfl

end Cursor

namespace Draft

/-- All blocks that were asked for are there, and all are ended. Control does not come back to the entry
block. -/
structure Complete (d : Draft) : Prop where
  ended : ¬ d.IsOpen
  started : ∀ b < d.nextBlock, b ∈ d.ids
  entered : ∀ p, ¬ d.Precedes p 0

/-- A function is what a draft came to, and its edits are those of the draft. -/
def Finishes (f : Ir.Function) (edits : List Edit) : Prop :=
  ∃ d : Draft, d.Valid ∧ d.Complete ∧ d.cursor.finish = f ∧ d.cursor.edits = edits

variable {d : Draft}

theorem Complete.isTerminated (hc : d.Complete) (hd : d.Valid) {b : Ir.Block} (hb : b ∈ d.blocks) :
    b.isTerminated = true := by
  rcases mem_blocks.1 hb with hb | rfl
  · exact hd.linked.ended b hb
  · simpa [IsOpen] using hc.ended

/-- Finishing a complete draft only puts the stack slots in their place. -/
theorem Complete.blocks_finish (hc : d.Complete) (hd : d.Valid) :
    d.cursor.finish.blocks = Cursor.withSlots d.cursor.slots d.blocks := by
  have hmap : d.cursor.blocks.map (·.terminate .unreachable) = d.blocks := by
    refine (List.map_congr_left fun b hb => ?_).trans (List.map_id _)
    rw [Ir.Block.terminate, hc.isTerminated hd hb]
    rfl
  rw [Cursor.finish, hmap]

/-- The finished function is what the draft was at its last point. -/
theorem Complete.finish_eq_assembled (hc : d.Complete) (hd : d.Valid) :
    d.cursor.finish = d.cursor.assembled :=
  congrArg (fun bs => ({ d.cursor.assembled with blocks := bs } : Ir.Function)) (hc.blocks_finish hd)

theorem Complete.ids_finish (hc : d.Complete) (hd : d.Valid) : d.cursor.finish.ids = d.ids := by
  rw [Ir.Function.ids, hc.blocks_finish hd, Cursor.map_id_withSlots]
  rfl

theorem Finishes.disciplined {f : Ir.Function} {edits : List Edit} (h : Finishes f edits) :
    f.Disciplined edits := by
  obtain ⟨d, hd, hc, rfl, rfl⟩ := h
  have hids := hc.ids_finish hd
  have hblock : ∀ b' ∈ d.cursor.finish.blocks, ∃ b ∈ d.blocks, b'.id = b.id ∧
      b'.terminator = b.terminator ∧ b'.instrs.filter (!·.isAlloca) = b.instrs := by
    intro b' hb'
    rw [hc.blocks_finish hd] at hb'
    obtain ⟨b, hb, pre, hpre, rfl⟩ := Cursor.mem_withSlots hb'
    refine ⟨b, hb, rfl, rfl, ?_⟩
    have hslots : pre.filter (!·.isAlloca) = [] := by
      rcases hpre with rfl | rfl
      · rfl
      · exact List.filter_eq_nil_iff.2 fun i hi => by simp [hd.supplied.slots i hi]
    have hcode : b.instrs.filter (!·.isAlloca) = b.instrs :=
      List.filter_eq_self.2 fun i hi => by simp [hd.supplied.code b hb i hi]
    rw [List.filter_append, hslots, hcode, List.nil_append]
  constructor
  · rw [hids]
    exact hd.linked.nodup
  · obtain ⟨rest, hrest⟩ := hd.linked.first
    have hentry : d.cursor.finish.entry = 0 := hd.linked.entry
    rw [hids, hentry, hrest]
    exact List.mem_cons_self
  · intro b' hb'
    obtain ⟨b, hb, _, hterm, _⟩ := hblock b' hb'
    rw [hterm]
    exact bne_iff_ne.1 (hc.isTerminated hd hb)
  · intro b' hb' t ht
    obtain ⟨b, hb, _, hterm, _⟩ := hblock b' hb'
    rw [hterm] at ht
    rw [hids]
    exact hc.started t (hd.linked.targets b hb t ht)
  · exact hd.linked.history
  · intro b' hb'
    obtain ⟨b, hb, hid, _, hinstrs⟩ := hblock b' hb'
    rw [hid, hinstrs]
    exact hd.linked.pushed b hb
  · intro b' hb'
    obtain ⟨b, hb, hid, hterm, _⟩ := hblock b' hb'
    rw [hid, hterm, hd.linked.closed b hb, hc.isTerminated hd hb]
    rfl

theorem Finishes.built {f : Ir.Function} {edits : List Edit} (h : Finishes f edits) : f.Built := by
  obtain ⟨d, hd, hc, rfl, -⟩ := h
  rw [hc.finish_eq_assembled hd]
  exact hd.built

/-- The entry block of a finished function is entered once, and so each stack slot is made once. -/
theorem Finishes.entry_not_mem_targets {f : Ir.Function} {edits : List Edit} (h : Finishes f edits) :
    ∀ b ∈ f.blocks, f.entry ∉ b.terminator.targets := by
  obtain ⟨d, hd, hc, rfl, -⟩ := h
  intro b' hb' ht
  rw [hc.blocks_finish hd] at hb'
  obtain ⟨b, hb, pre, -, rfl⟩ := Cursor.mem_withSlots hb'
  have hentry : d.cursor.finish.entry = 0 := hd.linked.entry
  exact hc.entered b.id ⟨b, hb, rfl, hentry ▸ ht⟩

end Draft

end ClassLang
