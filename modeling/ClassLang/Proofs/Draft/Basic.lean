import ClassLang.Gen.Program
import Mathlib.Data.List.Nodup
import Mathlib.Logic.Relation

/-!
# Drafts

A draft is a function under construction together with a *promise*: for each block that was asked
for, the registers that are written on every way to it. The promise is made when the block is asked
for, and consists of what is written at that point. `Step` says what one primitive of code generation
may do to a draft, with the conditions under which it does so; everything that holds of generated
functions is an invariant of `Step`.
-/

namespace ClassLang

namespace Ir

/-- The register that a value is read from. -/
def Value.reads : Value → List Register
  | reg r => [r]
  | _ => []

def Callee.reads : Callee → List Register
  | function _ => []
  | pointer v => v.reads

namespace Instr

/-- The registers that an instruction reads where it stands. A phi reads its values at the ends of
the blocks that control comes from, see `incoming`. -/
def reads : Instr → List Register
  | load _ ptr => ptr.reads
  | store v ptr => v.reads ++ ptr.reads
  | binary _ _ l r | compare _ _ l r => l.reads ++ r.reads
  | cast _ _ v => v.reads
  | element _ _ ptr indices => ptr.reads ++ indices.flatMap Value.reads
  | call _ _ callee args _ => callee.reads ++ args.flatMap Value.reads
  | alloca .. | phi .. | comment _ => []

/-- The values that a phi chooses from, each with the block that it belongs to. -/
def incoming : Instr → List (Value × Nat)
  | phi _ values => values
  | _ => []

def isPhi : Instr → Bool
  | phi .. => true
  | _ => false

/-- Neither a stack slot nor a phi. -/
def isPlain (i : Instr) : Bool := !i.isAlloca && !i.isPhi

end Instr

def Terminator.reads : Terminator → List Register
  | branch c _ _ => c.reads
  | ret (some v) => v.reads
  | _ => []

/-- The registers that a block writes. -/
def Block.writes (b : Block) : List Register := b.instrs.filterMap Instr.dest?

/-- A block under construction and what has become of it. -/
structure Block.Grows (b b' : Block) : Prop where
  id : b'.id = b.id
  instrs : b.instrs <+: b'.instrs
  ended : b.isTerminated = true → b' = b

namespace Block.Grows

variable {b b' : Block}

theorem refl (b : Block) : b.Grows b := ⟨rfl, List.prefix_refl _, fun _ => rfl⟩

theorem trans {b'' : Block} (h : b.Grows b') (h' : b'.Grows b'') : b.Grows b'' := by
  refine ⟨h'.id.trans h.id, h.instrs.trans h'.instrs, fun hb => ?_⟩
  have hb' := h.ended hb
  subst hb'
  exact h'.ended hb

theorem push {i : Instr} (h : b.isTerminated = false) : b.Grows (b.push i) :=
  ⟨rfl, List.prefix_append _ _, fun hb => by rw [h] at hb; cases hb⟩

theorem close {t : Terminator} (h : b.isTerminated = false) : b.Grows { b with terminator := t } :=
  ⟨rfl, List.prefix_refl _, fun hb => by rw [h] at hb; cases hb⟩

theorem targets (h : b.Grows b') {t : Nat} (ht : t ∈ b.terminator.targets) :
    t ∈ b'.terminator.targets := by
  have hb : b.isTerminated = true := by
    rw [Block.isTerminated, bne_iff_ne]
    intro hopen
    rw [hopen] at ht
    cases ht
  rw [h.ended hb]
  exact ht

theorem writes (h : b.Grows b') {r : Register} (hr : r ∈ b.writes) : r ∈ b'.writes :=
  (h.instrs.filterMap _).subset hr

end Block.Grows

end Ir

/-- No two locals of different scopes share a slot. -/
def Table.Apart (s s' : Table Location) : Prop :=
  ∀ x y l l', s.find? x = some l → s'.find? y = some l' → l.ptr ≠ l'.ptr

/-- A function under construction, with the registers that are promised to each block. -/
structure Draft where
  cursor : Cursor
  promise : Nat → Ir.Register → Prop

namespace Draft

def blocks (d : Draft) : List Ir.Block := d.cursor.blocks

def ids (d : Draft) : List Nat := d.blocks.map Ir.Block.id

abbrev nextBlock (d : Draft) : Nat := d.cursor.nextBlock

abbrev nextRegister (d : Draft) : Nat := d.cursor.nextRegister

def IsOpen (d : Draft) : Prop := d.cursor.current.isTerminated = false

/-- The registers that are written before the code of the entry block: parameters and stack
slots. -/
def always (d : Draft) : List Ir.Register :=
  d.cursor.header.params ++ d.cursor.slots.filterMap Ir.Instr.dest?

/-- All registers that are written. -/
def definitions (d : Draft) : List Ir.Register := d.always ++ d.blocks.flatMap Ir.Block.writes

/-- The registers that are written on every way to the end of a block. -/
def HasAt (d : Draft) (b : Ir.Block) (r : Ir.Register) : Prop :=
  r ∈ d.always ∨ d.promise b.id r ∨ r ∈ b.writes

/-- The registers that are written on every way to the point at hand. -/
def Has (d : Draft) (r : Ir.Register) : Prop := d.HasAt d.cursor.current r

/-- Whether a value can be read at the point at hand. -/
def Carries (d : Draft) (v : Ir.Value) : Prop := ∀ r ∈ v.reads, d.Has r

/-- Whether control may go from one block to another. -/
def Precedes (d : Draft) (source target : Nat) : Prop :=
  ∃ b ∈ d.blocks, b.id = source ∧ target ∈ b.terminator.targets

/-- Whether a block holds a phi. -/
def Merges (d : Draft) (id : Nat) : Prop :=
  ∃ b ∈ d.blocks, b.id = id ∧ ∃ i ∈ b.instrs, i.isPhi = true

/-! ## Operations -/

def push (d : Draft) (i : Ir.Instr) : Draft := { d with cursor := d.cursor.push i }

/-- Adds an instruction that writes the next register. -/
def assign (d : Draft) (i : Ir.Instr) : Draft :=
  { d with cursor := { d.cursor with nextRegister := d.nextRegister + 1 }.push i }

def addSlot (d : Draft) (ty : Ir.Ty) : Draft :=
  { d with
    cursor :=
      { d.cursor with
        nextRegister := d.nextRegister + 1
        slots := d.cursor.slots ++ [.alloca ⟨d.nextRegister, .ptr⟩ ty] } }

/-- Asks for a block. What is written here is promised to it. -/
def alloc (d : Draft) : Draft where
  cursor := { d.cursor with nextBlock := d.nextBlock + 1 }
  promise b r := if b = d.nextBlock then d.Has r else d.promise b r

def start (d : Draft) (id : Nat) (label : String) : Draft :=
  { d with
    cursor :=
      { d.cursor with
        before := d.cursor.before ++ [d.cursor.current]
        current := { id, label? := some label } } }

def close (d : Draft) (t : Ir.Terminator) : Draft :=
  { d with
    cursor :=
      { d.cursor with
        current := { d.cursor.current with terminator := t }
        edits := .close d.cursor.current.id t :: d.cursor.edits } }

def withScopes (d : Draft) (scopes : List (Table Location)) : Draft :=
  { d with cursor := { d.cursor with scopes } }

def withPersonality (d : Draft) (name : String) : Draft :=
  { d with
    cursor := { d.cursor with header := { d.cursor.header with personality? := some name } } }

/-- What a primitive of code generation may do. Control may go to a block from `n` on or to one of
`L`, and only blocks from `n` on are started or merge control. -/
inductive Step (n : Nat) (L : Nat → Prop) : Draft → Draft → Prop
  | push {d : Draft} (i : Ir.Instr) : d.IsOpen → i.isPlain = true → i.dest? = none →
    (∀ r ∈ i.reads, d.Has r) → Step n L d (d.push i)
  | assign {d : Draft} (i : Ir.Instr) (ty : Ir.Ty) : d.IsOpen → i.isPlain = true →
    i.dest? = some ⟨d.nextRegister, ty⟩ → (∀ r ∈ i.reads, d.Has r) → Step n L d (d.assign i)
  | merge {d : Draft} (ty : Ir.Ty) (incoming : List (Ir.Value × Nat)) : d.IsOpen →
    n ≤ d.cursor.current.id → (incoming.map (·.2)).Nodup →
    (∀ p, p ∈ incoming.map (·.2) ↔ d.Precedes p d.cursor.current.id) →
    (∀ e ∈ incoming, ∀ b ∈ d.blocks, b.id = e.2 → ∀ r ∈ e.1.reads, d.HasAt b r) →
    Step n L d (d.assign (.phi ⟨d.nextRegister, ty⟩ incoming))
  | slot {d : Draft} (ty : Ir.Ty) : Step n L d (d.addSlot ty)
  | alloc {d : Draft} : Step n L d d.alloc
  | start {d : Draft} (id : Nat) (label : String) : ¬ d.IsOpen → n ≤ id → id < d.nextBlock →
    id ∉ d.ids → Step n L d (d.start id label)
  | close {d : Draft} (t : Ir.Terminator) : d.IsOpen → t ≠ .open_ → (∀ r ∈ t.reads, d.Has r) →
    (∀ b ∈ t.targets, (n ≤ b ∨ L b) ∧ b < d.nextBlock ∧ ¬ d.Merges b ∧
      ∀ r, d.promise b r → d.Has r) → Step n L d (d.close t)
  | scopes {d : Draft} (ss : List (Table Location)) :
    (∀ s ∈ ss, ∀ name l, s.find? name = some l →
      ∃ r ∈ d.cursor.slots.filterMap Ir.Instr.dest?, l.ptr = .reg r) → ss.Pairwise Table.Apart →
    Step n L d (d.withScopes ss)
  | personality {d : Draft} (name : String) : Step n L d (d.withPersonality name)

/-- Any number of steps. -/
abbrev Run (n : Nat) (L : Nat → Prop) : Draft → Draft → Prop := Relation.ReflTransGen (Step n L)

/-! ## Blocks after each operation -/

variable {d d' : Draft} {n : Nat} {L : Nat → Prop}

theorem blocks_eq (d : Draft) : d.blocks = d.cursor.before ++ [d.cursor.current] := rfl

@[simp] theorem blocks_push (d : Draft) (i : Ir.Instr) :
    (d.push i).blocks = d.cursor.before ++ [d.cursor.current.push i] := rfl

@[simp] theorem blocks_assign (d : Draft) (i : Ir.Instr) :
    (d.assign i).blocks = d.cursor.before ++ [d.cursor.current.push i] := rfl

@[simp] theorem blocks_addSlot (d : Draft) (ty : Ir.Ty) : (d.addSlot ty).blocks = d.blocks := rfl

@[simp] theorem blocks_alloc (d : Draft) : d.alloc.blocks = d.blocks := rfl

@[simp] theorem blocks_start (d : Draft) (id : Nat) (label : String) :
    (d.start id label).blocks = d.blocks ++ [{ id, label? := some label }] := rfl

@[simp] theorem blocks_withScopes (d : Draft) (ss : List (Table Location)) :
    (d.withScopes ss).blocks = d.blocks := rfl

@[simp] theorem blocks_withPersonality (d : Draft) (name : String) :
    (d.withPersonality name).blocks = d.blocks := rfl

@[simp] theorem blocks_close (d : Draft) (t : Ir.Terminator) :
    (d.close t).blocks = d.cursor.before ++ [{ d.cursor.current with terminator := t }] := rfl

/-- Ending an open block. -/
theorem terminate_cursor (h : d.IsOpen) (t : Ir.Terminator) :
    d.cursor.terminate t = (d.close t).cursor := by
  have h' : d.cursor.current.isTerminated = false := h
  simp [close, Cursor.terminate, Ir.Block.terminate, h']

/-- Ending a block that is ended does nothing. -/
theorem terminate_of_not_isOpen (h : ¬ d.IsOpen) (t : Ir.Terminator) :
    d.cursor.terminate t = d.cursor := by
  have h' : d.cursor.current.isTerminated = true := by simpa [IsOpen] using h
  simp [Cursor.terminate, h']

theorem mem_blocks {b : Ir.Block} :
    b ∈ d.blocks ↔ b ∈ d.cursor.before ∨ b = d.cursor.current := by
  simp [blocks, Cursor.blocks]

theorem current_mem (d : Draft) : d.cursor.current ∈ d.blocks := mem_blocks.2 (.inr rfl)

theorem current_id_mem (d : Draft) : d.cursor.current.id ∈ d.ids :=
  List.mem_map.2 ⟨_, d.current_mem, rfl⟩

theorem ids_eq (d : Draft) : d.ids = d.cursor.before.map Ir.Block.id ++ [d.cursor.current.id] := by
  simp [ids, blocks, Cursor.blocks]

theorem mem_ids {b : Nat} : b ∈ d.ids ↔ ∃ block ∈ d.blocks, block.id = b := List.mem_map

/-! ## What a step leaves as it is -/

namespace Step

theorem nextBlock_le (h : Step n L d d') : d.nextBlock ≤ d'.nextBlock := by
  cases h with
  | alloc => exact Nat.le_succ _
  | _ => exact Nat.le_refl _

/-- Only the routine that unwinds the stack may change. -/
theorem header (h : Step n L d d') :
    { d'.cursor.header with personality? := none } =
      { d.cursor.header with personality? := none } := by
  cases h <;> rfl

theorem slots (h : Step n L d d') : ∃ new, d'.cursor.slots = d.cursor.slots ++ new := by
  cases h with
  | slot ty => exact ⟨_, rfl⟩
  | _ => exact ⟨[], (List.append_nil _).symm⟩

theorem promise (h : Step n L d d') {b : Nat} (hb : b < d.nextBlock) :
    d'.promise b = d.promise b := by
  cases h with
  | alloc =>
    funext r
    exact if_neg (Nat.ne_of_lt hb)
  | _ => rfl

/-- A started block stays, and is as it was once it is ended. -/
theorem grows (h : Step n L d d') {b : Ir.Block} (hb : b ∈ d.blocks) :
    ∃ b' ∈ d'.blocks, b.Grows b' := by
  cases h with
  | push i hopen | assign i ty hopen | merge ty incoming hopen =>
    rcases mem_blocks.1 hb with hb | rfl
    · exact ⟨b, List.mem_append_left _ hb, .refl b⟩
    · exact ⟨_, List.mem_append_right _ (List.mem_singleton_self _), .push hopen⟩
  | close t hopen =>
    rcases mem_blocks.1 hb with hb | rfl
    · exact ⟨b, List.mem_append_left _ hb, .refl b⟩
    · exact ⟨_, List.mem_append_right _ (List.mem_singleton_self _), .close hopen⟩
  | start id label => exact ⟨b, List.mem_append_left _ hb, .refl b⟩
  | _ => exact ⟨b, hb, .refl b⟩

/-- Every block was there before, in part or in whole, or it is a new one. -/
theorem grew (h : Step n L d d') {b' : Ir.Block} (hb' : b' ∈ d'.blocks) :
    (∃ b ∈ d.blocks, b.Grows b') ∨
      n ≤ b'.id ∧ b'.id ∉ d.ids ∧ b'.instrs = [] ∧ b'.terminator = .open_ := by
  cases h with
  | push i hopen | assign i ty hopen | merge ty incoming hopen =>
    rcases List.mem_append.1 hb' with hb' | hb'
    · exact .inl ⟨b', mem_blocks.2 (.inl hb'), .refl b'⟩
    · rw [List.mem_singleton.1 hb']
      exact .inl ⟨_, d.current_mem, .push hopen⟩
  | close t hopen =>
    rcases List.mem_append.1 hb' with hb' | hb'
    · exact .inl ⟨b', mem_blocks.2 (.inl hb'), .refl b'⟩
    · rw [List.mem_singleton.1 hb']
      exact .inl ⟨_, d.current_mem, .close hopen⟩
  | start id label _ hn _ hid =>
    rcases List.mem_append.1 hb' with hb' | hb'
    · exact .inl ⟨b', hb', .refl b'⟩
    · rw [List.mem_singleton.1 hb']
      exact .inr ⟨hn, hid, rfl, rfl⟩
  | _ => exact .inl ⟨b', hb', .refl b'⟩

theorem mem_ids (h : Step n L d d') {b : Nat} (hb : b ∈ d.ids) : b ∈ d'.ids := by
  obtain ⟨block, hblock, rfl⟩ := Draft.mem_ids.1 hb
  obtain ⟨block', hblock', hg⟩ := h.grows hblock
  exact Draft.mem_ids.2 ⟨block', hblock', hg.id⟩

/-- Only blocks from `n` on are started. -/
theorem of_mem_ids (h : Step n L d d') {b : Nat} (hb : b ∈ d'.ids) (hn : b < n) : b ∈ d.ids := by
  obtain ⟨block, hblock, rfl⟩ := Draft.mem_ids.1 hb
  rcases h.grew hblock with ⟨block', hblock', hg⟩ | ⟨hn', _⟩
  · exact Draft.mem_ids.2 ⟨block', hblock', hg.id.symm⟩
  · omega

theorem current (h : Step n L d d') :
    d'.cursor.current.id = d.cursor.current.id ∨ n ≤ d'.cursor.current.id := by
  cases h with
  | start id label _ hn => exact .inr hn
  | _ => exact .inl rfl

/-- A block below `n` does not come to merge control. -/
theorem merges (h : Step n L d d') {b : Nat} (hb : b < n) (hm : d'.Merges b) : d.Merges b := by
  obtain ⟨block, hblock, rfl, i, hi, hphi⟩ := hm
  cases h with
  | push j _ hplain | assign j ty _ hplain =>
    rcases List.mem_append.1 hblock with hblock | hblock
    · exact ⟨block, mem_blocks.2 (.inl hblock), rfl, i, hi, hphi⟩
    · rw [List.mem_singleton.1 hblock] at hi ⊢
      rcases List.mem_append.1 hi with hi | hi
      · exact ⟨_, d.current_mem, rfl, i, hi, hphi⟩
      · rw [List.mem_singleton.1 hi] at hphi
        simp [Ir.Instr.isPlain, hphi] at hplain
  | merge ty incoming _ hn =>
    rcases List.mem_append.1 hblock with hblock | hblock
    · exact ⟨block, mem_blocks.2 (.inl hblock), rfl, i, hi, hphi⟩
    · rw [List.mem_singleton.1 hblock] at hb
      exact absurd hn (Nat.not_le.2 hb)
  | start id label =>
    rcases List.mem_append.1 hblock with hblock | hblock
    · exact ⟨block, hblock, rfl, i, hi, hphi⟩
    · rw [List.mem_singleton.1 hblock] at hi
      cases hi
  | close t =>
    rcases List.mem_append.1 hblock with hblock | hblock
    · exact ⟨block, mem_blocks.2 (.inl hblock), rfl, i, hi, hphi⟩
    · rw [List.mem_singleton.1 hblock] at hi ⊢
      exact ⟨_, d.current_mem, rfl, i, hi, hphi⟩
  | _ => exact ⟨block, hblock, rfl, i, hi, hphi⟩

theorem precedes (h : Step n L d d') {p t : Nat} (hp : d.Precedes p t) : d'.Precedes p t := by
  obtain ⟨b, hb, rfl, ht⟩ := hp
  obtain ⟨b', hb', hg⟩ := h.grows hb
  exact ⟨b', hb', hg.id, hg.targets ht⟩

/-- A way to a block that is new comes from the block at hand, and leads to a block from `n` on or
to one of `L`. -/
theorem precedes_cases (h : Step n L d d') {p t : Nat} (hp : d'.Precedes p t) :
    d.Precedes p t ∨ p = d.cursor.current.id ∧ (n ≤ t ∨ L t) ∧ ¬ d.Merges t := by
  obtain ⟨b, hb, rfl, ht⟩ := hp
  cases h with
  | push | assign | merge =>
    rcases List.mem_append.1 hb with hb | hb
    · exact .inl ⟨b, mem_blocks.2 (.inl hb), rfl, ht⟩
    · rw [List.mem_singleton.1 hb] at ht ⊢
      exact .inl ⟨_, d.current_mem, rfl, ht⟩
  | start id label =>
    rcases List.mem_append.1 hb with hb | hb
    · exact .inl ⟨b, hb, rfl, ht⟩
    · rw [List.mem_singleton.1 hb] at ht
      cases ht
  | close s _ _ _ htargets =>
    rcases List.mem_append.1 hb with hb | hb
    · exact .inl ⟨b, mem_blocks.2 (.inl hb), rfl, ht⟩
    · rw [List.mem_singleton.1 hb] at ht ⊢
      obtain ⟨hn, -, hm, -⟩ := htargets t ht
      exact .inr ⟨rfl, hn, hm⟩
  | _ => exact .inl ⟨b, hb, rfl, ht⟩

/-- Steps from a larger bound on, and to fewer blocks, are steps. -/
theorem mono {n' : Nat} {L' : Nat → Prop} (h : Step n' L' d d') (hn : n ≤ n')
    (hL : ∀ b, L' b → n ≤ b ∨ L b) : Step n L d d' := by
  cases h with
  | push i hopen hplain hdest hreads => exact .push i hopen hplain hdest hreads
  | assign i ty hopen hplain hdest hreads => exact .assign i ty hopen hplain hdest hreads
  | merge ty incoming hopen hid hnodup hiff hreads =>
    exact .merge ty incoming hopen (Nat.le_trans hn hid) hnodup hiff hreads
  | slot ty => exact .slot ty
  | alloc => exact .alloc
  | start id label hopen hid hlt hnew => exact .start id label hopen (Nat.le_trans hn hid) hlt hnew
  | close t hopen hne hreads htargets =>
    refine .close t hopen hne hreads fun b hb => ?_
    obtain ⟨hb, hrest⟩ := htargets b hb
    exact ⟨hb.elim (fun hb => .inl (Nat.le_trans hn hb)) (hL b), hrest⟩
  | scopes ss hss hapart => exact .scopes ss hss hapart
  | personality name => exact .personality name

end Step

/-! ## Runs -/

namespace Run

theorem nextBlock_le (h : Run n L d d') : d.nextBlock ≤ d'.nextBlock := by
  induction h with
  | refl => exact Nat.le_refl _
  | tail _ hs ih => exact Nat.le_trans ih hs.nextBlock_le

theorem header (h : Run n L d d') :
    { d'.cursor.header with personality? := none } =
      { d.cursor.header with personality? := none } := by
  induction h with
  | refl => rfl
  | tail _ hs ih => exact hs.header.trans ih

theorem slots (h : Run n L d d') : ∃ new, d'.cursor.slots = d.cursor.slots ++ new := by
  induction h with
  | refl => exact ⟨[], (List.append_nil _).symm⟩
  | tail _ hs ih =>
    obtain ⟨new, ih⟩ := ih
    obtain ⟨more, hmore⟩ := hs.slots
    exact ⟨new ++ more, by rw [hmore, ih, List.append_assoc]⟩

/-- What is promised to a block that was asked for does not change. -/
theorem promise (h : Run n L d d') {b : Nat} (hb : b < d.nextBlock) :
    d'.promise b = d.promise b := by
  induction h with
  | refl => rfl
  | tail hr hs ih => exact (hs.promise (Nat.lt_of_lt_of_le hb (nextBlock_le hr))).trans ih

theorem grows (h : Run n L d d') {b : Ir.Block} (hb : b ∈ d.blocks) :
    ∃ b' ∈ d'.blocks, b.Grows b' := by
  induction h with
  | refl => exact ⟨b, hb, .refl b⟩
  | tail _ hs ih =>
    obtain ⟨b', hb', hg⟩ := ih
    obtain ⟨b'', hb'', hg'⟩ := hs.grows hb'
    exact ⟨b'', hb'', hg.trans hg'⟩

theorem mem_ids (h : Run n L d d') {b : Nat} (hb : b ∈ d.ids) : b ∈ d'.ids := by
  induction h with
  | refl => exact hb
  | tail _ hs ih => exact hs.mem_ids ih

theorem of_mem_ids (h : Run n L d d') {b : Nat} (hb : b ∈ d'.ids) (hn : b < n) : b ∈ d.ids := by
  induction h with
  | refl => exact hb
  | tail _ hs ih => exact ih (hs.of_mem_ids hb hn)

theorem current (h : Run n L d d') :
    d'.cursor.current.id = d.cursor.current.id ∨ n ≤ d'.cursor.current.id := by
  induction h with
  | refl => exact .inl rfl
  | tail _ hs ih =>
    rcases hs.current with h | h
    · rw [h]
      exact ih
    · exact .inr h

theorem merges (h : Run n L d d') {b : Nat} (hb : b < n) (hm : d'.Merges b) : d.Merges b := by
  induction h with
  | refl => exact hm
  | tail _ hs ih => exact ih (hs.merges hb hm)

theorem precedes (h : Run n L d d') {p t : Nat} (hp : d.Precedes p t) : d'.Precedes p t := by
  induction h with
  | refl => exact hp
  | tail _ hs ih => exact hs.precedes ih

/-- No way comes to lead to a block below `n`, unless it is one of `L`. -/
theorem precedes_of_lt (h : Run n L d d') {p t : Nat} (ht : t < n) (hL : ¬ L t)
    (hp : d'.Precedes p t) : d.Precedes p t := by
  induction h with
  | refl => exact hp
  | tail _ hs ih =>
    rcases hs.precedes_cases hp with hp | ⟨_, hn | hl, _⟩
    · exact ih hp
    · omega
    · exact absurd hl hL

theorem mono {n' : Nat} {L' : Nat → Prop} (h : Run n' L' d d') (hn : n ≤ n')
    (hL : ∀ b, L' b → n ≤ b ∨ L b) : Run n L d d' := by
  induction h with
  | refl => exact .refl
  | tail _ hs ih => exact ih.tail (hs.mono hn hL)

end Run

end Draft

end ClassLang
