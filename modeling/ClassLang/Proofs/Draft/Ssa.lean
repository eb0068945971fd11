import ClassLang.Proofs.Draft.Finished

/-!
# Static single assignment

In a function in SSA form every register is written in one place, and control cannot get to where it
is read without passing there. A phi reads each of its values where control comes from, and it has
one value for each block that control can come from. The functions that complete drafts come to are
in SSA form: what is promised to a block is written on every path to it, by induction on the path.
-/

namespace ClassLang

namespace Ir

namespace Function

/-- All registers that are written, the parameters first. -/
def definitions (f : Function) : List Register := f.params ++ f.blocks.flatMap Block.writes

/-- Control can get to a block from the entry through the blocks of a path, which is given with the
latest first. -/
inductive Reaches (f : Function) : List Block → Block → Prop
  | entry {b : Block} : b ∈ f.blocks → b.id = f.entry → Reaches f [] b
  | next {path : List Block} {b b' : Block} : Reaches f path b → b' ∈ f.blocks →
    b'.id ∈ b.terminator.targets → Reaches f (b :: path) b'

/-- Whether a register is a parameter, or written on the path to a block or by instructions at the
top of it. -/
def Written (f : Function) (path : List Block) (instrs : List Instr) (r : Register) : Prop :=
  r ∈ f.params ∨ (∃ b ∈ path, r ∈ b.writes) ∨ r ∈ instrs.filterMap Instr.dest?

variable {f : Function} {path : List Block} {instrs : List Instr} {r : Register}

theorem Written.append (h : f.Written path instrs r) (rest : List Instr) :
    f.Written path (instrs ++ rest) r := by
  refine h.imp_right (.imp_right fun hr => ?_)
  rw [List.filterMap_append]
  exact List.mem_append_left _ hr

end Function

end Ir

namespace Draft

variable {d : Draft} {b : Ir.Block} {path : List Ir.Block} {r : Ir.Register}

/-! ## Blocks of the finished function -/

/-- What is put on top of a block when the function is finished. -/
def top (d : Draft) (b : Ir.Block) : List Ir.Instr := if b.id = 0 then d.cursor.slots else []

/-- What becomes of a block when the function is finished. -/
def placed (d : Draft) (b : Ir.Block) : Ir.Block := { b with instrs := d.top b ++ b.instrs }

theorem Complete.finish_eq_map (hc : d.Complete) (hd : d.Valid) :
    d.cursor.finish.blocks = d.blocks.map d.placed := by
  obtain ⟨rest, hrest⟩ := hd.linked.first
  have hnodup := hd.linked.nodup
  rw [hc.blocks_finish hd]
  rw [ids] at hrest hnodup
  cases hblocks : d.blocks with
  | nil => rfl
  | cons b bs =>
    rw [hblocks, List.map_cons] at hrest hnodup
    have hfirst : b.id = 0 := (List.cons.inj hrest).1
    have hothers : bs.map d.placed = bs := by
      refine (List.map_congr_left fun b' hb' => ?_).trans (List.map_id _)
      have hne : b'.id ≠ 0 := fun h =>
        (List.nodup_cons.1 hnodup).1 (List.mem_map.2 ⟨b', hb', h.trans hfirst.symm⟩)
      rw [placed, top, if_neg hne]
      rfl
    rw [List.map_cons, hothers, placed, top, if_pos hfirst]
    rfl

theorem isAlloca_of_mem_top (hd : d.Valid) {i : Ir.Instr} (hi : i ∈ d.top b) :
    i.isAlloca = true := by
  unfold top at hi
  split at hi
  · exact hd.supplied.slots i hi
  · cases hi

section

variable (hc : d.Complete) (hd : d.Valid)
include hc hd

theorem Complete.of_mem_finish {b' : Ir.Block} (h : b' ∈ d.cursor.finish.blocks) :
    ∃ b ∈ d.blocks, b' = d.placed b := by
  rw [hc.finish_eq_map hd] at h
  obtain ⟨b, hb, rfl⟩ := List.mem_map.1 h
  exact ⟨b, hb, rfl⟩

theorem Complete.placed_mem (h : b ∈ d.blocks) : d.placed b ∈ d.cursor.finish.blocks := by
  rw [hc.finish_eq_map hd]
  exact List.mem_map_of_mem h

end

end Draft

end ClassLang
