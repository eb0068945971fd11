import ClassLang.Proofs.Draft.Supplied

/-!
# The stack slots of a draft

A function is put together by changes (`Ir.Function.Change`). A stack slot goes into the entry block
behind as many instructions as slots were counted before. Other code is added to that block in the
meantime, but only at its end, so the count is always that of the slots at the top of the block, and
`Ir.Function.Hoisted` is kept: the slots stand there one after the other, and nowhere else.

A draft keeps its slots apart from its blocks. With the slots in their place (`Cursor.assembled`) it is a
function that every step of the draft changes in this way.
-/

namespace ClassLang

namespace Ir

namespace Function

variable {f f' : Function} {b entry : Block} {bs others : List Block} {slots code : List Instr}
  {i : Instr} {id : Nat} {g : Block → Block}

/-- The stack slots, wherever they stand. -/
def allocas (f : Function) : List Instr := f.instrs.filter Instr.isAlloca

/-- A change to a function under construction. A stack slot has a register that comes after those that are
written already, and only the entry block has the number of the entry. -/
inductive Change : Function → Function → Prop
  | slot {f : Function} (dest : Register) (ty : Ty) :
    (∀ i ∈ f.instrs, ∀ r ∈ i.dest?, r.id < dest.id) → Change f (f.insertSlot (.alloca dest ty))
  | push {f : Function} (id : Nat) (i : Instr) : i.isAlloca = false →
    Change f (f.modifyBlock id (·.push i))
  | close {f : Function} (id : Nat) (t : Terminator) : Change f (f.modifyBlock id (·.terminate t))
  | start {f : Function} (id : Nat) (label : String) : id ≠ f.entry →
    Change f (f.addBlock { id, label? := some label })
  | personality {f : Function} (name : String) : Change f { f with personality? := some name }

/-- What changes make of a function that has nothing but an empty entry block. -/
inductive Built : Function → Prop
  | bare {f : Function} {b : Block} : f.blocks = [b] → b.id = f.entry → b.instrs = [] →
    f.slots = 0 → Built f
  | change {f f' : Function} : Built f → Change f f' → Built f'

/-- The entry block begins with all stack slots, in the order of their registers, as many as the function
has counted. No other block is an entry block or holds a slot. -/
structure Hoisted (f : Function) : Prop where
  entry : ∃ entry others code, f.blocks = entry :: others ∧ entry.id = f.entry ∧
    entry.instrs = f.allocas ++ code ∧ (∀ i ∈ code, i.isAlloca = false) ∧
    ∀ b ∈ others, b.id ≠ f.entry ∧ ∀ i ∈ b.instrs, i.isAlloca = false
  ordered : (f.allocas.filterMap Instr.dest?).Pairwise fun r r' => r.id < r'.id
  slots : f.slots = f.allocas.length

/-! ## Changing a block -/

theorem modifyFirst_append_of_mem (hb : b ∈ bs) (hid : b.id = id) (g : Block → Block)
    (others : List Block) : modifyFirst id g (bs ++ others) = modifyFirst id g bs ++ others := by
  induction bs with
  | nil => cases hb
  | cons b' bs ih =>
    rw [List.cons_append, modifyFirst, modifyFirst]
    split
    · rfl
    next hne =>
      obtain rfl | hb := List.mem_cons.1 hb
      · exact absurd (beq_iff_eq.2 hid) hne
      · rw [ih hb, List.cons_append]

theorem modifyFirst_append_of_ne (h : ∀ b ∈ bs, b.id ≠ id) (g : Block → Block)
    (others : List Block) : modifyFirst id g (bs ++ others) = bs ++ modifyFirst id g others := by
  induction bs with
  | nil => rfl
  | cons b bs ih =>
    obtain ⟨hb, hbs⟩ := List.forall_mem_cons.1 h
    rw [List.cons_append, modifyFirst, if_neg (by simpa using hb), ih hbs, List.cons_append]

theorem mem_modifyFirst (hb : b ∈ modifyFirst id g bs) : b ∈ bs ∨ ∃ b₀ ∈ bs, b = g b₀ := by
  induction bs with
  | nil => cases hb
  | cons b' bs ih =>
    rw [modifyFirst] at hb
    split at hb
    · obtain rfl | hb := List.mem_cons.1 hb
      · exact .inr ⟨b', List.mem_cons_self, rfl⟩
      · exact .inl (List.mem_cons_of_mem _ hb)
    · obtain rfl | hb := List.mem_cons.1 hb
      · exact .inl List.mem_cons_self
      · obtain hb | ⟨b₀, hb₀, h⟩ := ih hb
        · exact .inl (List.mem_cons_of_mem _ hb)
        · exact .inr ⟨b₀, List.mem_cons_of_mem _ hb₀, h⟩

/-- The newest block is the first to be looked at. -/
theorem modifyBlock_last (hblocks : f.blocks = bs ++ [b]) (g : Block → Block) :
    f.modifyBlock b.id g = { f with blocks := bs ++ [g b] } := by
  rw [modifyBlock, hblocks, List.reverse_append, List.reverse_singleton, List.singleton_append,
    modifyFirst, beq_self_eq_true, if_pos rfl, List.reverse_cons, List.reverse_reverse]

/-- The oldest block is changed if no other one has its number. -/
theorem modifyBlock_first (hblocks : f.blocks = b :: bs) (hne : ∀ b' ∈ bs, b'.id ≠ b.id)
    (g : Block → Block) : f.modifyBlock b.id g = { f with blocks := g b :: bs } := by
  have hne' : ∀ b' ∈ bs.reverse, b'.id ≠ b.id := fun b' hb' => hne b' (List.mem_reverse.1 hb')
  rw [modifyBlock, hblocks, List.reverse_cons, modifyFirst_append_of_ne hne', modifyFirst,
    beq_self_eq_true, if_pos rfl, List.reverse_append, List.reverse_reverse]
  rfl

/-- Whatever block is changed, the oldest one is the first afterwards. -/
theorem blocks_modifyBlock (hblocks : f.blocks = b :: bs) (id : Nat) (g : Block → Block) :
    (f.modifyBlock id g).blocks = g b :: bs ∨
      ∃ bs', (f.modifyBlock id g).blocks = b :: bs' ∧
        ∀ b' ∈ bs', b' ∈ bs ∨ ∃ b₀ ∈ bs, b' = g b₀ := by
  by_cases hlater : ∃ b' ∈ bs.reverse, b'.id = id
  · obtain ⟨b', hb', hid⟩ := hlater
    refine .inr ⟨(modifyFirst id g bs.reverse).reverse, ?_, fun b₁ hb₁ => ?_⟩
    · rw [modifyBlock, hblocks, List.reverse_cons, modifyFirst_append_of_mem hb' hid,
        List.reverse_append]
      rfl
    · simpa using mem_modifyFirst (List.mem_reverse.1 hb₁)
  · have hne : ∀ b' ∈ bs.reverse, b'.id ≠ id := fun b' hb' hid => hlater ⟨b', hb', hid⟩
    have hrest : (f.modifyBlock id g).blocks = (modifyFirst id g [b]).reverse ++ bs := by
      rw [modifyBlock, hblocks, List.reverse_cons, modifyFirst_append_of_ne hne, List.reverse_append,
        List.reverse_reverse]
    rw [modifyFirst] at hrest
    split at hrest
    · exact .inl hrest
    · exact .inr ⟨bs, hrest, fun _ => .inl⟩

theorem insertIdx_append (slots code : List Instr) (i : Instr) :
    (slots ++ code).insertIdx slots.length i = slots ++ i :: code := by
  induction slots with
  | nil => exact List.insertIdx_zero
  | cons j slots ih => exact congrArg (j :: ·) ih

/-- Where the count is that of the slots at the top of the entry block, a slot goes behind them. -/
theorem insertSlot_eq (hblocks : f.blocks = entry :: others) (hentry : entry.id = f.entry)
    (hothers : ∀ b ∈ others, b.id ≠ f.entry) (hinstrs : entry.instrs = slots ++ code)
    (hslots : f.slots = slots.length) (i : Instr) : f.insertSlot i =
      { f with
        blocks := { entry with instrs := slots ++ i :: code } :: others
        slots := f.slots + 1 } := by
  have hsome : (f.block? f.entry).isSome = true := by simp [block?, hblocks, hentry]
  have hnone : (f.block? f.entry).isNone = false := by
    rw [← Option.not_isSome, hsome]
    rfl
  have hmin : min f.slots entry.instrs.length = slots.length := by
    rw [hslots, hinstrs, List.length_append]
    exact Nat.min_eq_left (Nat.le_add_right _ _)
  have hmodify := modifyBlock_first hblocks fun b hb => hentry ▸ hothers b hb
  rw [hentry] at hmodify
  rw [insertSlot, hnone, if_neg Bool.false_ne_true, hmodify, hmin, hinstrs, insertIdx_append]

/-! ## Hoisted slots -/

theorem isAlloca_of_mem_allocas (hi : i ∈ f.allocas) : i.isAlloca = true := (List.mem_filter.1 hi).2

namespace Hoisted

/-- The slots at the top of the entry block are all if there are none elsewhere. -/
theorem of_blocks (hblocks : f.blocks = entry :: others) (hentry : entry.id = f.entry)
    (hinstrs : entry.instrs = slots ++ code) (hall : ∀ i ∈ slots, i.isAlloca = true)
    (hcode : ∀ i ∈ code, i.isAlloca = false)
    (hothers : ∀ b ∈ others, b.id ≠ f.entry ∧ ∀ i ∈ b.instrs, i.isAlloca = false)
    (hordered : (slots.filterMap Instr.dest?).Pairwise fun r r' => r.id < r'.id)
    (hslots : f.slots = slots.length) : f.Hoisted := by
  have hrest : ∀ i ∈ code ++ others.flatMap Block.instrs, ¬ i.isAlloca = true := by
    intro i hi
    rw [Bool.not_eq_true]
    rcases List.mem_append.1 hi with hi | hi
    · exact hcode i hi
    · obtain ⟨b, hb, hi⟩ := List.mem_flatMap.1 hi
      exact (hothers b hb).2 i hi
  have hallocas : f.allocas = slots := by
    rw [allocas, instrs, hblocks, List.flatMap_cons, hinstrs, List.append_assoc, List.filter_append,
      List.filter_eq_self.2 hall, List.filter_eq_nil_iff.2 hrest, List.append_nil]
  subst hallocas
  exact ⟨⟨entry, others, code, hblocks, hentry, hinstrs, hcode, hothers⟩, hordered, hslots⟩

/-- A change to one block that adds code to it leaves the slots where they are. -/
theorem modifyBlock (h : f.Hoisted) (id : Nat) (hid : ∀ b, (g b).id = b.id)
    (hinstrs : ∀ b, ∃ code, (g b).instrs = b.instrs ++ code ∧ ∀ i ∈ code, i.isAlloca = false) :
    (f.modifyBlock id g).Hoisted := by
  obtain ⟨⟨entry, others, code, hblocks, hentry, hentryCode, hcode, hothers⟩, hordered, hslots⟩ := h
  obtain hnew | ⟨others', hnew, hothers'⟩ := blocks_modifyBlock hblocks id g
  · obtain ⟨more, hmore, hmoreCode⟩ := hinstrs entry
    have hnewCode : ∀ i ∈ code ++ more, i.isAlloca = false := fun i hi =>
      (List.mem_append.1 hi).elim (hcode i) (hmoreCode i)
    refine of_blocks hnew ((hid entry).trans hentry) ?_ (fun _ => isAlloca_of_mem_allocas) hnewCode
      hothers hordered hslots
    rw [hmore, hentryCode, List.append_assoc]
  · refine of_blocks hnew hentry hentryCode (fun _ => isAlloca_of_mem_allocas) hcode (fun b hb => ?_)
      hordered hslots
    obtain hb | ⟨b₀, hb₀, rfl⟩ := hothers' b hb
    · exact hothers b hb
    · obtain ⟨more, hmore, hmoreCode⟩ := hinstrs b₀
      obtain ⟨hne, hb₀Code⟩ := hothers b₀ hb₀
      rw [hid, hmore]
      exact ⟨hne, fun i hi => (List.mem_append.1 hi).elim (hb₀Code i) (hmoreCode i)⟩

/-- A new slot goes behind the others, in front of the code of the entry block. -/
theorem insertSlot (h : f.Hoisted) {dest : Register}
    (hdest : ∀ i ∈ f.instrs, ∀ r ∈ i.dest?, r.id < dest.id) (ty : Ty) :
    (f.insertSlot (.alloca dest ty)).Hoisted := by
  obtain ⟨⟨entry, others, code, hblocks, hentry, hinstrs, hcode, hothers⟩, hordered, hslots⟩ := h
  rw [insertSlot_eq hblocks hentry (fun b hb => (hothers b hb).1) hinstrs hslots]
  refine of_blocks rfl hentry (List.append_cons f.allocas _ code) (fun i hi => ?_) hcode hothers ?_ ?_
  · rcases List.mem_append.1 hi with hi | hi
    · exact isAlloca_of_mem_allocas hi
    · rw [List.mem_singleton.1 hi]
      rfl
  · rw [List.filterMap_append, List.pairwise_append]
    refine ⟨hordered, List.pairwise_singleton _ _, fun r hr r' hr' => ?_⟩
    obtain rfl : r' = dest := List.mem_singleton.1 hr'
    obtain ⟨i, hi, hir⟩ := List.mem_filterMap.1 hr
    exact hdest i (List.mem_of_mem_filter hi) r hir
  · rw [List.length_append, ← hslots]
    rfl

theorem addBlock (h : f.Hoisted) (hid : id ≠ f.entry) (label : String) :
    (f.addBlock { id, label? := some label }).Hoisted := by
  obtain ⟨⟨entry, others, code, hblocks, hentry, hinstrs, hcode, hothers⟩, hordered, hslots⟩ := h
  have hnew : (f.addBlock { id, label? := some label }).blocks =
      entry :: (others ++ [{ id, label? := some label }]) := by
    rw [Function.addBlock, hblocks]
    rfl
  refine of_blocks hnew hentry hinstrs (fun _ => isAlloca_of_mem_allocas) hcode (fun b hb => ?_)
    hordered hslots
  rcases List.mem_append.1 hb with hb | hb
  · exact hothers b hb
  · rw [List.mem_singleton.1 hb]
    exact ⟨hid, List.forall_mem_nil _⟩

end Hoisted

/-- The count stays in step with the slots, whatever else is added to the blocks. -/
theorem Change.hoisted (h : Change f f') (hf : f.Hoisted) : f'.Hoisted := by
  cases h with
  | slot dest ty hdest => exact hf.insertSlot hdest ty
  | push id i hi => exact hf.modifyBlock id (fun _ => rfl) fun b => ⟨[i], rfl, by simpa using hi⟩
  | close id t =>
    refine hf.modifyBlock id (fun b => ?_) fun b => ⟨[], ?_, List.forall_mem_nil _⟩
    · rw [Block.terminate]
      split <;> rfl
    · rw [Block.terminate, List.append_nil]
      split <;> rfl
  | start id label hid => exact hf.addBlock hid label
  | personality name => exact ⟨hf.entry, hf.ordered, hf.slots⟩

theorem Built.hoisted (h : f.Built) : f.Hoisted := by
  induction h with
  | bare hblocks hentry hinstrs hslots =>
    exact .of_blocks hblocks hentry hinstrs (List.forall_mem_nil _) (List.forall_mem_nil _)
      (List.forall_mem_nil _) .nil hslots
  | change _ hchange ih => exact hchange.hoisted ih

end Function

end Ir

/-! ## Drafts -/

namespace Ir.Block

theorem push_top (i : Instr) (b : Block) (top : List Instr) :
    { b with instrs := top ++ b.instrs }.push i =
      { b.push i with instrs := top ++ (b.push i).instrs } := by
  simp only [push, List.append_assoc]

theorem terminate_top (t : Terminator) (b : Block) (top : List Instr) :
    { b with instrs := top ++ b.instrs }.terminate t =
      { b.terminate t with instrs := top ++ (b.terminate t).instrs } := by
  cases h : b.terminator != .open_ <;> simp [terminate, isTerminated, h]

end Ir.Block

namespace Cursor

/-- The function as it is at this point, with the stack slots in their place. -/
def assembled (c : Cursor) : Ir.Function :=
  { c.header with blocks := withSlots c.slots c.blocks, slots := c.slots.length }

/-- A block with stack slots on top of it is one of the blocks, with slots before the rest. -/
theorem mem_withSlots {slots : List Ir.Instr} {bs : List Ir.Block} {b' : Ir.Block}
    (h : b' ∈ withSlots slots bs) :
    ∃ b ∈ bs, ∃ pre, (pre = [] ∨ pre = slots) ∧ b' = { b with instrs := pre ++ b.instrs } := by
  cases bs with
  | nil => cases h
  | cons b bs =>
    rcases List.mem_cons.1 h with rfl | h
    · exact ⟨b, List.mem_cons_self, slots, .inr rfl, rfl⟩
    · exact ⟨b', List.mem_cons_of_mem _ h, [], .inl rfl, rfl⟩

/-- The block at hand comes last, with the slots on top of it if it is the only one. -/
theorem withSlots_concat (slots : List Ir.Instr) (before : List Ir.Block) :
    ∃ bs top, ∀ b : Ir.Block,
      withSlots slots (before ++ [b]) = bs ++ [{ b with instrs := top ++ b.instrs }] := by
  cases before with
  | nil => exact ⟨[], slots, fun _ => rfl⟩
  | cons b bs => exact ⟨{ b with instrs := slots ++ b.instrs } :: bs, [], fun _ => rfl⟩

/-- To change the block at hand is to change the newest block of the function, if what is done to a block
does not depend on slots on top of it. -/
theorem assembled_modify (c : Cursor) (g : Ir.Block → Ir.Block)
    (hg : ∀ (b : Ir.Block) top,
      g { b with instrs := top ++ b.instrs } = { g b with instrs := top ++ (g b).instrs }) :
    { c with current := g c.current }.assembled = c.assembled.modifyBlock c.current.id g := by
  obtain ⟨bs, top, hconcat⟩ := withSlots_concat c.slots c.before
  have hblocks : c.assembled.blocks = bs ++ [{ c.current with instrs := top ++ c.current.instrs }] :=
    hconcat c.current
  rw [Ir.Function.modifyBlock_last hblocks, hg, ← hconcat]
  rfl

theorem assembled_push (c : Cursor) (i : Ir.Instr) :
    (c.push i).assembled = c.assembled.modifyBlock c.current.id (·.push i) :=
  assembled_modify c (·.push i) (Ir.Block.push_top i)

theorem assembled_terminate (c : Cursor) (t : Ir.Terminator) :
    { c with current := c.current.terminate t }.assembled =
      c.assembled.modifyBlock c.current.id (·.terminate t) :=
  assembled_modify c (·.terminate t) (Ir.Block.terminate_top t)

theorem assembled_start (c : Cursor) (b : Ir.Block) :
    { c with before := c.before ++ [c.current], current := b }.assembled =
      c.assembled.addBlock b := by
  have hblocks : withSlots c.slots (c.before ++ [c.current] ++ [b]) =
      withSlots c.slots c.blocks ++ [b] := by
    rw [blocks]
    cases c.before <;> rfl
  exact congrArg (fun bs => ({ c.assembled with blocks := bs } : Ir.Function)) hblocks

/-- A slot that is kept apart goes to where it is inserted, behind as many slots as were counted. -/
theorem assembled_addSlot {c : Cursor} {b : Ir.Block} {bs : List Ir.Block} (hblocks : c.blocks = b :: bs)
    (hentry : b.id = c.header.entry) (hothers : ∀ b' ∈ bs, b'.id ≠ c.header.entry) (i : Ir.Instr) :
    { c with slots := c.slots ++ [i] }.assembled = c.assembled.insertSlot i := by
  have hassembled : c.assembled.blocks = { b with instrs := c.slots ++ b.instrs } :: bs :=
    congrArg (withSlots _) hblocks
  have hslots : { c with slots := c.slots ++ [i] }.assembled.blocks =
      { b with instrs := c.slots ++ i :: b.instrs } :: bs := by
    rw [List.append_cons c.slots i b.instrs]
    exact congrArg (withSlots _) hblocks
  rw [Ir.Function.insertSlot_eq hassembled hentry hothers rfl rfl, ← hslots]
  exact congrArg
    (fun k => ({ { c with slots := c.slots ++ [i] }.assembled with slots := k } : Ir.Function))
    List.length_append

end Cursor

namespace Draft

variable {d d' : Draft} {n : Nat} {L : Nat → Prop}

theorem assembled_start (d : Draft) (id : Nat) (label : String) :
    (d.start id label).cursor.assembled =
      d.cursor.assembled.addBlock { id, label? := some label } :=
  d.cursor.assembled_start _

theorem assembled_addSlot (hd : d.Linked) (ty : Ir.Ty) : (d.addSlot ty).cursor.assembled =
    d.cursor.assembled.insertSlot (.alloca ⟨d.nextRegister, .ptr⟩ ty) := by
  obtain ⟨rest, hrest⟩ := hd.first
  have hnodup := hd.nodup
  rw [hrest, List.nodup_cons] at hnodup
  obtain ⟨b, bs, hblocks, hb, rfl⟩ := List.map_eq_cons_iff.1 hrest
  refine Cursor.assembled_addSlot hblocks (hb.trans hd.entry.symm) (fun b' hb' hid => ?_) _
  exact hnodup.1 (List.mem_map.2 ⟨b', hb', hid.trans hd.entry⟩)

/-- The registers that the function writes so far were handed out before the next one. -/
theorem id_lt_nextRegister (hd : d.Supplied) {i : Ir.Instr} (hi : i ∈ d.cursor.assembled.instrs)
    {r : Ir.Register} (hr : r ∈ i.dest?) : r.id < d.nextRegister := by
  refine hd.bound r (mem_definitions.2 ?_)
  obtain ⟨b', hb', hi⟩ := List.mem_flatMap.1 hi
  obtain ⟨b, hb, pre, hpre, rfl⟩ := Cursor.mem_withSlots hb'
  rcases List.mem_append.1 hi with hi | hi
  · obtain rfl | rfl := hpre
    · cases hi
    · exact .inl (List.mem_append_right _ (List.mem_filterMap.2 ⟨i, hi, hr⟩))
  · exact .inr ⟨b, hb, List.mem_filterMap.2 ⟨i, hi, hr⟩⟩

/-- With the slots in their place, a step changes the function once or not at all. -/
theorem Step.changes (h : Step n L d d') (hl : d.Linked) (hd : d.Supplied) :
    Relation.ReflGen Ir.Function.Change d.cursor.assembled d'.cursor.assembled := by
  have hpush : ∀ i : Ir.Instr, i.isAlloca = false →
      Ir.Function.Change d.cursor.assembled (d.cursor.push i).assembled := by
    intro i hi
    rw [Cursor.assembled_push]
    exact .push _ i hi
  cases h with
  | push i _ hplain | assign i ty _ hplain =>
    simp only [Ir.Instr.isPlain, Bool.and_eq_true, Bool.not_eq_true'] at hplain
    exact .single (hpush i hplain.1)
  | merge ty incoming => exact .single (hpush _ rfl)
  | slot ty =>
    rw [assembled_addSlot hl]
    exact .single (.slot _ ty fun i hi r hr => id_lt_nextRegister hd hi hr)
  | start id label _ _ _ hnew =>
    rw [assembled_start]
    refine .single (.start id label fun hid => hnew ?_)
    obtain ⟨rest, hrest⟩ := hl.first
    rw [hrest, hid]
    exact List.mem_cons.2 (.inl hl.entry)
  | close t hopen =>
    rw [← terminate_cursor hopen, Cursor.terminate, if_neg (by rw [hopen]; exact Bool.false_ne_true)]
    exact .single (Cursor.assembled_terminate d.cursor t ▸ .close _ t)
  | alloc | scopes => exact .refl
  | personality name => exact .single (.personality name)

theorem Step.built (h : Step n L d d') (hl : d.Linked) (hd : d.Supplied)
    (hb : d.cursor.assembled.Built) : d'.cursor.assembled.Built := by
  obtain heq | hchange := (Relation.reflGen_iff ..).1 (h.changes hl hd)
  · exact heq ▸ hb
  · exact hb.change hchange

/-! ## All of it -/

/-- What holds of a function at every point of its construction. -/
structure Valid (d : Draft) : Prop where
  linked : d.Linked
  supplied : d.Supplied
  joined : d.Joined
  built : d.cursor.assembled.Built

theorem Step.valid (h : Step n L d d') (hd : d.Valid) : d'.Valid where
  linked := h.linked hd.linked
  supplied := h.supplied hd.linked hd.supplied
  joined := h.joined hd.linked hd.joined
  built := h.built hd.linked hd.supplied hd.built

theorem Run.valid (h : Run n L d d') (hd : d.Valid) : d'.Valid := by
  induction h with
  | refl => exact hd
  | tail _ hs ih => exact hs.valid ih

end Draft

end ClassLang
