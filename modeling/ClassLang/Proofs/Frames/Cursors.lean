import ClassLang.Proofs.Draft.Hoisted
import ClassLang.Proofs.Frames.Trees

/-!
# Frames of cursors

A cursor in its surroundings can be read as a frame in which nothing is missing: the function is the one that
the cursor stands for, with its slots in place. Whatever tracks code at a cursor does the same to that
frame, so that none of the steps finds a function, a block or a scope missing. What a cursor cannot tell
apart is kept in step by an invariant: the entry block is the first and the only one of its number, and the
blocks before the one at hand are ended.
-/

namespace ClassLang

namespace Ir.Block

theorem id_terminate (b : Block) (t : Terminator) : (b.terminate t).id = b.id := by
  rw [terminate]
  split <;> rfl

theorem isTerminated_terminate (b : Block) {t : Terminator} (ht : t ≠ .open_) :
    (b.terminate t).isTerminated = true := by
  rw [terminate]
  split
  · assumption
  · exact bne_iff_ne.2 ht

theorem terminate_of_ended {b : Block} (h : b.isTerminated = true) (t : Terminator) :
    b.terminate t = b := if_pos h

end Ir.Block

namespace Cursor

theorem defaultReturn_ne_open (ret : Ir.Ty) : defaultReturn ret ≠ .open_ := by
  rw [defaultReturn]
  split <;> nofun

theorem blocks_terminate (c : Cursor) (t : Ir.Terminator) :
    (c.terminate t).blocks = c.before ++ [c.current.terminate t] := by
  rw [terminate]
  split
  · rw [Ir.Block.terminate_of_ended ‹_›]
    rfl
  · rfl

theorem map_withSlots {g : Ir.Block → Ir.Block} (hg : ∀ (b : Ir.Block) top,
      g { b with instrs := top ++ b.instrs } = { g b with instrs := top ++ (g b).instrs })
    (slots : List Ir.Instr) (bs : List Ir.Block) :
    (withSlots slots bs).map g = withSlots slots (bs.map g) := by
  cases bs with
  | nil => rfl
  | cons b bs => exact congrArg (· :: _) (hg b slots)

/-- Slots do not matter for what is said of some of the blocks. -/
theorem map_filter_withSlots {α : Type} (keep : Ir.Block → Bool) (f : Ir.Block → α)
    (hkeep : ∀ (b : Ir.Block) top, keep { b with instrs := top ++ b.instrs } = keep b)
    (hf : ∀ (b : Ir.Block) top, f { b with instrs := top ++ b.instrs } = f b)
    (slots : List Ir.Instr) (bs : List Ir.Block) :
    ((withSlots slots bs).filter keep).map f = (bs.filter keep).map f := by
  cases bs with
  | nil => rfl
  | cons b bs =>
    rw [withSlots, List.filter_cons, List.filter_cons, hkeep]
    split
    · exact congrArg (· :: _) (hf b slots)
    · rfl

/-- The blocks apart, all stays when the current block is ended. -/
theorem terminate_same (c : Cursor) (t : Ir.Terminator) :
    (c.terminate t).header = c.header ∧ (c.terminate t).slots = c.slots := by
  rw [terminate]
  split <;> exact ⟨rfl, rfl⟩

end Cursor

/-- What makes a cursor a frame: the block at hand is the one of its number, slots go to the first block,
and a name can be bound. -/
structure Cursor.Sturdy (ret : Ir.Ty) (c : Cursor) : Prop where
  ret : c.header.ret = ret
  entry : c.header.entry = 0
  first : ∃ ids, c.blocks.map Ir.Block.id = 0 :: ids ∧ 0 ∉ ids
  ended : ∀ b ∈ c.before, b.isTerminated = true
  nextBlock : c.nextBlock ≠ 0
  scopes : c.scopes ≠ []

namespace Cursor.Sturdy

variable {ret : Ir.Ty} {c : Cursor}

theorem withCurrent (h : c.Sturdy ret) {b : Ir.Block} (hb : b.id = c.current.id) (edits : List Edit) :
    { c with current := b, edits }.Sturdy ret := by
  refine ⟨h.ret, h.entry, ?_, h.ended, h.nextBlock, h.scopes⟩
  obtain ⟨ids, hids, hzero⟩ := h.first
  refine ⟨ids, ?_, hzero⟩
  rw [blocks, List.map_append] at hids ⊢
  rw [← hids]
  exact congrArg (fun id => c.before.map Ir.Block.id ++ [id]) hb

theorem push (h : c.Sturdy ret) (i : Ir.Instr) : (c.push i).Sturdy ret :=
  h.withCurrent (b := c.current.push i) rfl _

theorem terminate (h : c.Sturdy ret) (t : Ir.Terminator) : (c.terminate t).Sturdy ret := by
  rw [Cursor.terminate]
  split
  · exact h
  · exact h.withCurrent (Ir.Block.id_terminate _ t) _

theorem start (h : c.Sturdy ret) (hended : c.current.isTerminated = true) {b : Ir.Block}
    (hb : b.id ≠ 0) : { c with before := c.before ++ [c.current], current := b }.Sturdy ret := by
  refine ⟨h.ret, h.entry, ?_, ?_, h.nextBlock, h.scopes⟩
  · obtain ⟨ids, hids, hzero⟩ := h.first
    refine ⟨ids ++ [b.id], ?_, fun hmem => ?_⟩
    · rw [blocks, List.map_append]
      exact congrArg (· ++ [b.id]) hids
    · obtain hmem | hmem := List.mem_append.1 hmem
      · exact hzero hmem
      · exact hb (List.mem_singleton.1 hmem).symm
  · exact List.forall_mem_append.2 ⟨h.ended, List.forall_mem_singleton.2 hended⟩

theorem assembled_addSlot (h : c.Sturdy ret) (i : Ir.Instr) :
    { c with slots := c.slots ++ [i] }.assembled = c.assembled.insertSlot i := by
  obtain ⟨ids, hids, hzero⟩ := h.first
  obtain ⟨b, bs, hblocks, hb, rfl⟩ := List.map_eq_cons_iff.1 hids
  refine Cursor.assembled_addSlot hblocks (hb.trans h.entry.symm) (fun b' hb' hid => hzero ?_) i
  exact List.mem_map.2 ⟨b', hb', hid.trans h.entry⟩

theorem same (h : c.Sturdy ret) (header : Ir.Function) (hret : header.ret = c.header.ret)
    (hentry : header.entry = c.header.entry) (slots : List Ir.Instr) (nextRegister : Nat) :
    { c with header, slots, nextRegister }.Sturdy ret :=
  ⟨hret.trans h.ret, hentry.trans h.entry, h.first, h.ended, h.nextBlock, h.scopes⟩

theorem withNextBlock (h : c.Sturdy ret) {nextBlock : Nat} (hnext : nextBlock ≠ 0) :
    { c with nextBlock }.Sturdy ret :=
  ⟨h.ret, h.entry, h.first, h.ended, hnext, h.scopes⟩

theorem withScopes (h : c.Sturdy ret) {scopes : List (Table Location)} (hscopes : scopes ≠ []) :
    { c with scopes }.Sturdy ret :=
  ⟨h.ret, h.entry, h.first, h.ended, h.nextBlock, hscopes⟩

end Cursor.Sturdy

/-! ## The frame of a cursor -/

namespace Frame

/-- What a cursor knows, with what surrounds it. -/
def of (env : Env) (c : Cursor) : Frame where
  catalog := env.catalog
  bindings := env.bindings
  function? := some c.assembled
  block := c.current.id
  nextRegister := c.nextRegister
  nextBlock := c.nextBlock
  scopes := c.scopes
  loops := env.loops
  exceptions := env.tries.reverse
  ret := env.ret
  this? := env.this?
  isMain := env.isMain
  edits := c.edits

variable {env : Env} {c : Cursor}

theorem env_of : (of env c).env = env := by
  show { env with tries := env.tries.reverse.reverse } = env
  rw [List.reverse_reverse]

/-- The block at hand is found by its number, with the slots on top of it if it is the only one. -/
theorem current?_of : ∃ top, (of env c).current? =
    some { c.current with instrs := top ++ c.current.instrs } := by
  obtain ⟨bs, top, hconcat⟩ := Cursor.withSlots_concat c.slots c.before
  refine ⟨top, ?_⟩
  show (Cursor.withSlots c.slots (c.before ++ [c.current])).reverse.find? (·.id == c.current.id) = _
  rw [hconcat, List.reverse_concat, List.find?_cons_of_pos (by exact beq_self_eq_true _)]

theorem ended_of : (of env c).ended = c.current.isTerminated := by
  obtain ⟨top, htop⟩ : ∃ top, (of env c).current? = _ := current?_of
  rw [ended, htop]
  rfl

/-- To change the block at hand is to change it at the cursor, if what is done to a block does not depend on
slots on top of it. -/
theorem edit_of (g : Ir.Block → Ir.Block) (e : Edit) (hid : (g c.current).id = c.current.id)
    (hg : ∀ (b : Ir.Block) top,
      g { b with instrs := top ++ b.instrs } = { g b with instrs := top ++ (g b).instrs }) :
    (of env c).edit g e = of env { c with current := g c.current, edits := e :: c.edits } := by
  have hassembled := c.assembled_modify g hg
  simp only [edit, of, hid, Option.map_some, ← hassembled]
  rfl

/-! ### Ends -/

/-- The block at hand returns. -/
theorem ending_current (ret : Ir.Ty) :
    (of env c).ending ret c.current = Cursor.defaultReturn ret :=
  if_pos (beq_self_eq_true _)

/-- When a function is done, only the block at hand can be open. -/
theorem map_blocks_sealed (h : c.Sturdy env.ret) :
    (c.blocks.map fun b => b.terminate ((of env c).ending env.ret b)) =
      (c.terminate (Cursor.defaultReturn env.ret)).blocks.map (·.terminate .unreachable) := by
  have hlast : (c.current.terminate (Cursor.defaultReturn env.ret)).terminate .unreachable =
      c.current.terminate ((of env c).ending env.ret c.current) := by
    rw [ending_current]
    exact Ir.Block.terminate_of_ended
      (Ir.Block.isTerminated_terminate _ (Cursor.defaultReturn_ne_open _)) _
  rw [Cursor.blocks_terminate, Cursor.blocks, List.map_append, List.map_append, List.map_singleton,
    List.map_singleton, hlast]
  refine congrArg (· ++ _) (List.map_congr_left fun b hb => ?_)
  rw [Ir.Block.terminate_of_ended (h.ended b hb), Ir.Block.terminate_of_ended (h.ended b hb)]

theorem sealed_of (h : c.Sturdy env.ret) : (of env c).sealed c.assembled =
    (c.terminate (Cursor.defaultReturn env.ret)).finish := by
  have hmap := Cursor.map_withSlots (g := fun b => b.terminate ((of env c).ending env.ret b))
    (fun b top => Ir.Block.terminate_top _ b top) c.slots c.blocks
  obtain ⟨hheader, hslots⟩ := c.terminate_same (Cursor.defaultReturn env.ret)
  rw [Cursor.finish, hheader, hslots, ← map_blocks_sealed h, ← hmap]
  exact congrArg (fun ret => ({ c.assembled with
    blocks := c.assembled.blocks.map fun b => b.terminate ((of env c).ending ret b) } : Ir.Function))
    h.ret

theorem sealing_of (h : c.Sturdy env.ret) : (of env c).sealing c.assembled ++ c.edits =
    (c.terminate (Cursor.defaultReturn env.ret)).edits := by
  have hret : c.assembled.ret = env.ret := h.ret
  have hbefore : c.before.filter (!·.isTerminated) = [] :=
    List.filter_eq_nil_iff.2 fun b hb => by simp [h.ended b hb]
  rw [sealing, hret, Cursor.assembled, Cursor.map_filter_withSlots _ _ (fun _ _ => rfl) fun _ _ => rfl,
    Cursor.blocks, List.filter_append, hbefore, Cursor.terminate]
  cases hended : c.current.isTerminated with
  | true => simp [hended]
  | false =>
    simp [hended, of, ending]

end Frame

/-! ## Steps -/

namespace Framed

open Lower (Alike Head)

/-- The cursor makes a frame at a point. -/
structure Point.Fits (p : Point) (c : Cursor) : Prop where
  sturdy : c.Sturdy p.env.ret
  ended : p.ended = true → c.current.isTerminated = true

/-- From the frame of a cursor, `y` gets to that of the cursor that `x` gets to, with the same value and
to the same state. -/
def Simulates {α : Type} (p q : Point) (y : Framed α) (x : Lower α) : Prop :=
  ∀ c g, p.Fits c →
    (y.run (.of p.env c)).run g =
      ((((x.run c).run g).1.1, .of q.env ((x.run c).run g).1.2), ((x.run c).run g).2) ∧
    q.Fits ((x.run c).run g).1.2 ∧ ((x.run c).run g).1.2.scopes.length = c.scopes.length

variable {α β : Type} {p q r : Point} {env : Env} {ended : Bool}

theorem Point.Fits.forget {c : Cursor} (h : p.Fits c) : Point.Fits ⟨p.env, false⟩ c := ⟨h.sturdy, nofun⟩

namespace Simulates

theorem bind {y : Framed α} {x : Lower α} {k : α → Framed β} {l : α → Lower β}
    (h : Simulates p q y x) (hk : ∀ a, Simulates q r (k a) (l a)) :
    Simulates p r (y >>= k) (x >>= l) := by
  intro c g hc
  obtain ⟨hrun, hfits, hscopes⟩ := h c g hc
  obtain ⟨hrun', hfits', hscopes'⟩ := hk ((x.run c).run g).1.1 _ ((x.run c).run g).2 hfits
  refine ⟨?_, hfits', hscopes'.trans hscopes⟩
  rw [StateT.run_bind, StateT.run_bind, hrun]
  exact hrun'

theorem pure (a : α) : Simulates p p (Pure.pure a) (Pure.pure a) := fun _ _ hc => ⟨rfl, hc, rfl⟩

theorem lift (x : Gen α) : Simulates p p (liftM x) (liftM x) := fun _ _ hc => ⟨rfl, hc, rfl⟩

theorem forget {y : Framed α} {x : Lower α} (h : Simulates p ⟨env, ended⟩ y x) :
    Simulates p ⟨env, false⟩ y x := by
  intro c g hc
  obtain ⟨hrun, hfits, hscopes⟩ := h c g hc
  exact ⟨hrun, hfits.forget, hscopes⟩

/-- A step that only looks at the cursor. -/
theorem looking (y : Framed α) (x : Lower α) (a : Cursor → GenState → α)
    (hx : ∀ c g, (x.run c).run g = ((a c g, c), g))
    (hy : ∀ c g, (y.run (.of p.env c)).run g = ((a c g, .of p.env c), g)) : Simulates p p y x := by
  intro c g hc
  rw [hx, hy]
  exact ⟨rfl, hc, rfl⟩

theorem emit (i : Ir.Instr) : Simulates p p (Lower.emit i) (Lower.emit i) := by
  intro c g hc
  obtain ⟨top, htop⟩ : ∃ top, (Frame.of p.env c).current? = _ := Frame.current?_of
  refine ⟨?_, ⟨hc.sturdy.push i, hc.ended⟩, rfl⟩
  refine (run_onBlock _ _ _).trans ?_
  rw [htop]
  exact congrArg (fun f => (((), f), g)) (Frame.edit_of (·.push i) _ rfl (Ir.Block.push_top i))

/-- A block that is ended stays as it is. -/
theorem terminate (t : Ir.Terminator) :
    Simulates ⟨env, ended⟩ ⟨env, t != .open_⟩ (Lower.terminate t) (Lower.terminate t) := by
  intro c g hc
  obtain ⟨top, htop⟩ : ∃ top, (Frame.of env c).current? = _ := Frame.current?_of
  refine ⟨(run_onBlock _ _ _).trans ?_, ⟨hc.sturdy.terminate t, fun ht => ?_⟩, ?_⟩
  · rw [htop]
    show (((), if c.current.isTerminated then _ else _), g) = (((), Frame.of env (c.terminate t)), g)
    rw [Cursor.terminate]
    split
    · rfl
    · exact congrArg (fun f => (((), f), g)) (Frame.edit_of (·.terminate t) _
        (Ir.Block.id_terminate _ t) (Ir.Block.terminate_top t))
  · show (c.terminate t).current.isTerminated = true
    rw [Cursor.terminate]
    split
    · assumption
    · exact Ir.Block.isTerminated_terminate _ (bne_iff_ne.1 ht)
  · show (c.terminate t).scopes.length = c.scopes.length
    rw [Cursor.terminate]
    split <;> rfl

theorem startBlock {id : Nat} (label : String) (hid : id ≠ 0) :
    Simulates ⟨env, true⟩ ⟨env, false⟩ (Lower.startBlock id label) (Lower.startBlock id label) := by
  intro c g hc
  refine ⟨?_, ⟨hc.sturdy.start (hc.ended rfl) hid, nofun⟩, rfl⟩
  exact congrArg (fun fn => (((), { Frame.of env c with function? := some fn, block := id }), g))
    (c.assembled_start _).symm

theorem addSlot (i : Ir.Instr) : Simulates p p (Lower.addSlot i) (Lower.addSlot i) := by
  intro c g hc
  refine ⟨?_, ⟨hc.sturdy.same _ rfl rfl _ _, hc.ended⟩, rfl⟩
  exact congrArg (fun fn => (((), { Frame.of p.env c with function? := some fn }), g))
    (hc.sturdy.assembled_addSlot i).symm

theorem bindName (name : String) (l : Location) :
    Simulates p p (Lower.bind name l) (Lower.bind name l) := by
  intro c g hc
  obtain ⟨_, _, _, _, _, _, _ | ⟨scope, outer⟩, _⟩ := c
  · exact absurd rfl hc.sturdy.scopes
  · exact ⟨rfl, ⟨hc.sturdy.withScopes (List.cons_ne_nil _ _), hc.ended⟩, rfl⟩

theorem freshBlock {k : Nat → Framed α} {l : Nat → Lower α}
    (hk : ∀ b, b ≠ 0 → Simulates p q (k b) (l b)) :
    Simulates p q (Lower.freshBlock >>= k) (Lower.freshBlock >>= l) := fun c g hc =>
  hk c.nextBlock hc.sturdy.nextBlock { c with nextBlock := c.nextBlock + 1 } g
    ⟨hc.sturdy.withNextBlock (Nat.succ_ne_zero _), hc.ended⟩

/-- Code that does not go down a tree takes the same basic steps. -/
theorem alike {y : Framed α} {x : Lower α} (h : Alike Framed Lower y x) :
    Simulates ⟨env, ended⟩ ⟨env, false⟩ y x := by
  induction h generalizing ended with
  | pure a => exact (pure a).forget
  | bind _ _ ih ihk => exact ih.bind fun a => ihk a
  | looking | report | declare | addString => exact (lift _).forget
  | freshRegister => exact fun c g hc => ⟨rfl, ⟨hc.sturdy.same _ rfl rfl _ _, nofun⟩, rfl⟩
  | freshBlock => simpa only [bind_pure] using forget (freshBlock fun b _ => pure b)
  | restart ht label =>
    refine (terminate _).bind fun _ => freshBlock fun b hb => ?_
    rw [bne_iff_ne.2 ht]
    exact startBlock label hb
  | emit i => exact (emit i).forget
  | terminate t => exact (terminate t).forget
  | isTerminated =>
    refine forget (looking _ _ (fun c _ => c.current.isTerminated) (fun _ _ => rfl) fun c g => ?_)
    exact congrArg (fun b => ((b, Frame.of env c), g)) Frame.ended_of
  | currentBlock => exact forget (looking _ _ (fun c _ => c.current.id) (fun _ _ => rfl) fun _ _ => rfl)
  | slot i => exact (addSlot i).forget
  | personality name =>
    exact fun c g hc => ⟨rfl, ⟨hc.sturdy.same { c.header with personality? := some name } rfl rfl _ _,
      nofun⟩, rfl⟩
  | bindName name l => exact (bindName name l).forget
  | lookup name => exact forget (looking _ _ _ (fun _ _ => rfl) fun _ _ => rfl)

/-! ## Surroundings -/

/-- The surroundings change before other code, and nothing else. -/
theorem surround {env' : Env} {y : Framed α} {k : α → Framed β} {x : Lower β} (a : α)
    (hy : ∀ c g, (y.run (.of env c)).run g = ((a, .of env' c), g))
    (h : Simulates ⟨env', ended⟩ q (k a) x) (hret : env'.ret = env.ret) :
    Simulates ⟨env, ended⟩ q (y >>= k) x := by
  intro c g hc
  rw [StateT.run_bind, StateT.run_bind, hy]
  exact h c g ⟨hret ▸ hc.sturdy, hc.ended⟩

/-- What there is on the stack of try statements changes before other code. -/
theorem surroundTries {tries : List Try} {y : Framed α} {k : α → Framed β} {x : Lower β}
    (stack : List Try) (a : α) (hstack : stack = tries.reverse)
    (hy : ∀ c g, (y.run (.of env c)).run g = ((a, { Frame.of env c with exceptions := stack }), g))
    (h : Simulates ⟨{ env with tries }, ended⟩ q (k a) x) : Simulates ⟨env, ended⟩ q (y >>= k) x := by
  subst hstack
  have hframe : ∀ c g, (y.run (.of env c)).run g = ((a, .of { env with tries } c), g) := hy
  exact surround a hframe h rfl

theorem inScope {y : Framed Unit} {x : Lower Unit} (h : Simulates ⟨env, ended⟩ q y x) :
    Simulates ⟨env, ended⟩ q (Lower.inScope y) (Lower.inScope x) := by
  intro c g hc
  obtain ⟨hrun, hfits, hscopes⟩ := h { c with scopes := {} :: c.scopes } g
    ⟨hc.sturdy.withScopes (List.cons_ne_nil _ _), hc.ended⟩
  have hlength : ((x.run { c with scopes := {} :: c.scopes }).run g).1.2.scopes.tail.length =
      c.scopes.length := List.length_tail.trans (congrArg (· - 1) hscopes)
  let leave (r : (Unit × Frame) × GenState) : (Unit × Frame) × GenState :=
    (((), { r.1.2 with scopes := r.1.2.scopes.tail }), r.2)
  refine ⟨congrArg leave hrun, ⟨hfits.sturdy.withScopes fun hnil => ?_, hfits.ended⟩, hlength⟩
  exact hc.sturdy.scopes (List.length_eq_zero_iff.1 (hlength.symm.trans (congrArg List.length hnil)))

end Simulates

/-! ## Whole functions -/

/-- Ending a function ends the block at hand. There is no other open block. -/
theorem run_finish {c : Cursor} (hc : c.Sturdy env.ret) (g : GenState) :
    (finish.run (.of env c)).run g =
      let ended := c.terminate (Cursor.defaultReturn env.ret)
      (((), .idle env.catalog env.bindings),
        { g with
          module := g.module.addFunction ended.finish
          edits := g.edits ++ [ended.edits] }) := by
  dsimp only
  rw [← Frame.sealed_of hc, ← Frame.sealing_of hc]
  rfl

/-- A function is begun with the frame of the cursor at its beginning. -/
theorem run_function {h : Head} {y : Framed Unit} {x : Env → Lower Unit}
    (hbody : Simulates ⟨h.env env, false⟩ ⟨h.env env, false⟩ y (x (h.env env))) (g : GenState) :
    ((function h y).run (.idle env.catalog env.bindings)).run g =
      (((), .idle env.catalog env.bindings), ((Lower.function env h x).run g).2) := by
  let c := h.cursor env.catalog.file?
  have hc : c.Sturdy h.ret :=
    ⟨rfl, rfl, ⟨[], rfl, List.not_mem_nil⟩, fun _ => nofun, Nat.one_ne_zero, List.cons_ne_nil _ _⟩
  have hcode : Simulates ⟨h.env env, false⟩ ⟨h.env env, false⟩ (do
      Lower.bindParams h
      y) (do
      Lower.bindParams h
      x (h.env env)) := .bind (.alike (.bindParams h)) fun _ => hbody
  obtain ⟨hrun, hfits, -⟩ := hcode c g ⟨hc, nofun⟩
  have hfinish := run_finish hfits.sturdy
  show (((do
    (do
      Lower.bindParams h
      y)
    finish : Framed Unit).run (.of (h.env env) c)).run g) = _
  rw [StateT.run_bind, StateT.run_bind, hrun]
  exact hfinish _

/-! ## Whole walks -/

/-- What tracks code in an environment simulates it, where no block but the entry block has its number. -/
theorem Tracks.simulates {y : Framed α} {x : Lower α} (h : Tracks (· ≠ 0) p q y x) :
    Simulates p q y x := by
  induction h with
  | pure a => exact .pure a
  | bind _ _ ih ihk => exact ih.bind ihk
  | forget _ ih => exact ih.forget
  | alike h => exact .alike h
  | lift x => exact .lift x
  | reads v h _ ih => exact .surround v (fun _ g => h _ g Frame.env_of) ih rfl
  | site => exact .looking _ _ _ (fun _ _ => rfl) fun _ _ => rfl
  | terminate ht => exact bne_iff_ne.2 ht ▸ Simulates.terminate _
  | freshBlock _ ih => exact .freshBlock ih
  | startBlock label hid => exact .startBlock label hid
  | inScope _ ih => exact ih.inScope
  | pushLoop _ ih | popLoop _ ih => exact .surround () (fun _ _ => rfl) ih rfl
  | pushTry _ ih => exact .surroundTries _ () List.reverse_cons.symm (fun _ _ => rfl) ih
  | popTry _ ih => exact .surroundTries _ () List.dropLast_reverse (fun _ _ => rfl) ih
  | @splitOff _ env _ _ inner outer _ _ htries _ ih =>
    refine .surroundTries outer.reverse inner.reverse rfl (fun c g => ?_) ih
    have hstack : (Frame.of env c).exceptions = outer.reverse ++ inner.reverse := by
      rw [← List.reverse_append, ← htries]
      rfl
    rw [← List.length_reverse]
    exact run_splitOff hstack g
  | @extend _ env _ _ inner outer _ _ htries _ ih =>
    have hstack : outer.reverse ++ inner.reverse = env.tries.reverse := by
      rw [htries, List.reverse_append]
    refine .surroundTries (outer.reverse ++ inner.reverse) () hstack (fun _ _ => rfl) ?_
    exact ih
  | nested _ ih =>
    intro c g hc
    refine ⟨?_, hc, rfl⟩
    exact congrArg (fun r => (((), Frame.of _ c), r.2)) (run_function ih g)

theorem simulates_expr (fuel : Nat) (env : Env) (e : Expr) : Simulates ⟨env, false⟩ ⟨env, false⟩
    (expr (detourAt fuel) e) (Lower.expr (Lower.detourAt fuel) env e) :=
  (Mirrors.expr (Mirrors.detourAt fuel) e false).simulates

theorem simulates_stmt (fuel : Nat) (env : Env) (s : Stmt) : Simulates ⟨env, false⟩ ⟨env, false⟩
    (stmt (detourAt fuel) s) (Lower.stmt (Lower.detourAt fuel) env s) :=
  (Mirrors.stmt (Mirrors.detourAt fuel) s false).simulates

end Framed

end ClassLang
