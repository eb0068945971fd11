import ClassLang.Proofs.Lowering.Calls
import Mathlib.Data.Set.Insert

/-!
# Statements that consist of several blocks

The blocks of such a statement are asked for where it begins, and started one after the other. Between
its beginning and its end, `Progress` tells which of them are still to be started. When none is left
and what was at hand at the beginning is at hand again, the statement as a whole follows.
-/

namespace ClassLang.Draft

variable {α : Type} {d₀ d d' : Draft} {L L' : Nat → Prop} {ours owed : Set Nat} {b : Nat}

/-- The construction of a statement began at `d₀` and has got to `d`. The blocks of `ours` are its
own; those of `owed` are still to be started. -/
structure Progress (L : Nat → Prop) (d₀ : Draft) (ours owed : Set Nat) (d : Draft) : Prop where
  run : Run d₀.nextBlock L d₀ d
  ours_le : ∀ b ∈ ours, d₀.nextBlock ≤ b
  ours_lt : ∀ b ∈ ours, b < d.nextBlock
  plain : ∀ b ∈ ours, ¬ d.Merges b
  promise : ∀ b ∈ ours, ∀ r, d.promise b r ↔ d₀.Has r
  owed_ours : ∀ b ∈ owed, b ∈ ours
  owed_new : ∀ b ∈ owed, b ∉ d.ids
  started : ∀ b, d₀.nextBlock ≤ b → b < d.nextBlock → b ∉ owed → b ∈ d.ids
  outer : d.cursor.scopes.tail = d₀.cursor.scopes.tail

/-! ## Asking for blocks -/

/-- Nothing has been done since `d₀` but to ask for the blocks `bs`. -/
structure Asked (d₀ : Draft) (bs : List Nat) (d : Draft) : Prop where
  bs_eq : bs = List.range' d₀.nextBlock bs.length
  next_eq : d.nextBlock = d₀.nextBlock + bs.length
  cursor_eq : { d.cursor with nextBlock := d₀.nextBlock } = d₀.cursor
  run : ∀ n L, Run n L d₀ d
  promise : ∀ b ∈ bs, ∀ r, d.promise b r ↔ d₀.Has r
  has : ∀ r, d.Has r ↔ d₀.Has r

namespace Asked

variable {bs : List Nat}

theorem refl (d : Draft) : Asked d [] d where
  bs_eq := rfl
  next_eq := rfl
  cursor_eq := rfl
  run _ _ := .refl
  promise _ h := nomatch h
  has _ := .rfl

theorem nodup (h : Asked d₀ bs d) : bs.Nodup := by
  rw [h.bs_eq]
  exact List.nodup_range'

theorem mem_iff (h : Asked d₀ bs d) : b ∈ bs ↔ d₀.nextBlock ≤ b ∧ b < d.nextBlock := by
  rw [h.next_eq, h.bs_eq, List.mem_range'_1, List.length_range']

theorem blocks_eq (h : Asked d₀ bs d) : d.blocks = d₀.blocks := by
  have hblocks := congrArg Cursor.blocks h.cursor_eq
  exact hblocks

theorem current_eq (h : Asked d₀ bs d) : d.cursor.current = d₀.cursor.current := by
  have hcurrent := congrArg Cursor.current h.cursor_eq
  exact hcurrent

theorem scopes_eq (h : Asked d₀ bs d) : d.cursor.scopes = d₀.cursor.scopes := by
  have hscopes := congrArg Cursor.scopes h.cursor_eq
  exact hscopes

theorem isOpen_iff (h : Asked d₀ bs d) : d.IsOpen ↔ d₀.IsOpen := by
  rw [IsOpen, IsOpen, h.current_eq]

theorem alloc (h : Asked d₀ bs d) (hd : d.Valid) : Asked d₀ (bs ++ [d.nextBlock]) d.alloc where
  bs_eq := by
    conv => lhs; rw [h.bs_eq]
    rw [List.length_append, List.length_singleton, List.range'_concat, h.next_eq, Nat.one_mul]
  next_eq := by
    rw [List.length_append, List.length_singleton, ← Nat.add_assoc, ← h.next_eq]
    rfl
  cursor_eq := h.cursor_eq
  run n L := (h.run n L).tail .alloc
  promise b hb r := by
    rcases List.mem_append.1 hb with hb | hb
    · have hne : b ≠ d.nextBlock := Nat.ne_of_lt (h.mem_iff.1 hb).2
      simpa [Draft.alloc, hne] using h.promise b hb r
    · rw [List.mem_singleton.1 hb]
      simpa [Draft.alloc] using h.has r
  has r := (has_alloc hd).trans (h.has r)

/-- Where a statement stands when its blocks have been asked for. -/
theorem progress (h : Asked d₀ bs d) (L : Nat → Prop) (hd₀ : d₀.Valid) :
    Progress L d₀ { b | b ∈ bs } { b | b ∈ bs } d where
  run := h.run _ L
  ours_le b hb := (h.mem_iff.1 hb).1
  ours_lt b hb := (h.mem_iff.1 hb).2
  plain b hb hm := by
    obtain ⟨block, hblock, hid, _⟩ := hm
    rw [h.blocks_eq] at hblock
    have hlt := hd₀.linked.bound b (mem_ids.2 ⟨block, hblock, hid⟩)
    exact Nat.not_le.2 hlt (h.mem_iff.1 hb).1
  promise := h.promise
  owed_ours _ hb := hb
  owed_new b hb hid := by
    rw [ids, h.blocks_eq] at hid
    exact Nat.not_le.2 (hd₀.linked.bound b hid) (h.mem_iff.1 hb).1
  started b hb hb' hnot := absurd (h.mem_iff.2 ⟨hb, hb'⟩) hnot
  outer := by rw [h.scopes_eq]

end Asked

/-! ## Rules -/

namespace Progress

theorem valid (h : Progress L d₀ ours owed d) (hd₀ : d₀.Valid) : d.Valid := h.run.valid hd₀

/-- A block of the statement can be gone to where everything from the beginning is at hand. -/
theorem target (h : Progress L d₀ ours owed d) (hb : b ∈ ours) (hle : ∀ r, d₀.Has r → d.Has r) :
    d.Target b :=
  ⟨h.ours_lt b hb, h.plain b hb, fun r hr => hle r ((h.promise b hb r).1 hr)⟩

/-- So can a block that could be gone to at the beginning. -/
theorem target_of_target (h : Progress L d₀ ours owed d) (hb : d₀.Target b)
    (hle : ∀ r, d₀.Has r → d.Has r) : d.Target b where
  lt := Nat.lt_of_lt_of_le hb.lt h.run.nextBlock_le
  plain hm := hb.plain (h.run.merges hb.lt hm)
  promise r hr := by
    rw [h.run.promise hb.lt] at hr
    exact hle r (hb.promise r hr)

/-- Code that follows by itself. -/
theorem follows (h : Progress L d₀ ours owed d) (hf : Follows L' d d')
    (hL : ∀ b, L' b → L b ∨ b ∈ ours) : Progress L d₀ ours owed d' where
  run := by
    refine h.run.trans (hf.run.mono h.run.nextBlock_le fun b hb => ?_)
    rcases hL b hb with hb | hb
    · exact .inr hb
    · exact .inl (h.ours_le b hb)
  ours_le := h.ours_le
  ours_lt b hb := Nat.lt_of_lt_of_le (h.ours_lt b hb) hf.run.nextBlock_le
  plain b hb hm := h.plain b hb (hf.run.merges (h.ours_lt b hb) hm)
  promise b hb r := by
    rw [hf.run.promise (h.ours_lt b hb)]
    exact h.promise b hb r
  owed_ours := h.owed_ours
  owed_new b hb hid :=
    h.owed_new b hb (hf.run.of_mem_ids hid (h.ours_lt b (h.owed_ours b hb)))
  started b hb hb' hnot := by
    rcases Nat.lt_or_ge b d.nextBlock with hlt | hge
    · exact hf.run.mem_ids (h.started b hb hlt hnot)
    · exact hf.started b hge hb'
  outer := hf.le.2.2.trans h.outer

/-- Ending a block. -/
theorem close (h : Progress L d₀ ours owed d) (ho : d.IsOpen) {t : Ir.Terminator}
    (ht : t ≠ .open_) (hreads : ∀ r ∈ t.reads, d.Has r)
    (htargets : ∀ b ∈ t.targets, (L b ∨ b ∈ ours) ∧ d.Target b) :
    Progress L d₀ ours owed (d.close t) := by
  have hstep : Step d.nextBlock (fun b => L b ∨ b ∈ ours) d (d.close t) := by
    refine .close t ho ht hreads fun b hb => ?_
    obtain ⟨hL, hb⟩ := htargets b hb
    exact ⟨.inr hL, hb.lt, hb.plain, hb.promise⟩
  exact h.follows (.of_step hstep (le_refl d) rfl) fun _ hb => hb

/-- Starting a block of the statement. -/
theorem start (h : Progress L d₀ ours owed d) (ho : ¬ d.IsOpen) (hb : b ∈ owed) (label : String) :
    Progress L d₀ ours (owed \ {b}) (d.start b label) := by
  have hours := h.owed_ours b hb
  have hstep : Step d₀.nextBlock L d (d.start b label) :=
    .start b label ho (h.ours_le b hours) (h.ours_lt b hours) (h.owed_new b hb)
  refine ⟨h.run.tail hstep, h.ours_le, h.ours_lt, fun c hc hm => ?_, h.promise,
    fun c hc => h.owed_ours c hc.1, fun c hc hid => ?_, fun c hc hc' hnot => ?_, h.outer⟩
  · obtain ⟨block, hblock, hid, i, hi, hphi⟩ := hm
    rcases List.mem_append.1 hblock with hblock | hblock
    · exact h.plain c hc ⟨block, hblock, hid, i, hi, hphi⟩
    · rw [List.mem_singleton.1 hblock] at hi
      cases hi
  · obtain ⟨block, hblock, hid⟩ := mem_ids.1 hid
    rcases List.mem_append.1 hblock with hblock | hblock
    · exact h.owed_new c hc.1 (mem_ids.2 ⟨block, hblock, hid⟩)
    · rw [List.mem_singleton.1 hblock] at hid
      exact hc.2 hid.symm
  · by_cases hcb : c = b
    · rw [hcb]
      exact current_id_mem _
    · exact hstep.mem_ids (h.started c hc hc' fun hmem => hnot ⟨hmem, hcb⟩)

theorem le_start (h : Progress L d₀ ours owed d) (hb : b ∈ ours) (label : String) :
    ∀ r, d₀.Has r → (d.start b label).Has r :=
  fun r hr => has_start.2 (.inr ((h.promise b hb r).2 hr))

/-- What is at hand from the beginning on, as an order on drafts. -/
theorem le (h : Progress L d₀ ours owed d) (hle : ∀ r, d₀.Has r → d.Has r) : d₀ ≤ d := by
  refine ⟨hle, fun r hr => ?_, h.outer⟩
  obtain ⟨new, hnew⟩ := h.run.slots
  rw [slotRegisters, hnew, List.filterMap_append]
  exact List.mem_append_left _ hr

/-- A statement all of whose blocks are started. -/
theorem done (h : Progress L d₀ ours owed d) (howed : ∀ b, b ∉ owed)
    (hle : ∀ r, d₀.Has r → d.Has r) : Follows L d₀ d :=
  ⟨h.run, h.le hle, fun b hb hb' => h.started b hb hb' (howed b)⟩

end Progress

end ClassLang.Draft
