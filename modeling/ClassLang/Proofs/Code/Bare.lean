import ClassLang.Gen.Cursor

/-!
# Code without comments

Positions are recorded as comments in the code, and as the file and the span of each function. `bare`
takes all of this away from modules, and from the functions that are under construction. What code
generation does to a state or to a cursor can be told from what they are without it.
-/

namespace ClassLang

namespace Ir

/-- The block without its comments. -/
def Block.bare (b : Block) : Block := { b with instrs := b.instrs.filter fun i => !i.isComment }

/-- The function without comments, file and span. -/
def Function.bare (f : Function) : Function :=
  { f with blocks := f.blocks.map Block.bare, file? := none, span := {} }

/-- The module without comments, files and spans. -/
def Module.bare (m : Module) : Module :=
  { m with file? := none, functions := m.functions.map Function.bare }

theorem Block.bare_push (b : Block) (i : Instr) :
    (b.push i).bare = if i.isComment then b.bare else b.bare.push i := by
  unfold bare push
  cases hi : i.isComment <;> simp [hi]

theorem Block.bare_terminate (b : Block) (t : Terminator) :
    (b.terminate t).bare = b.bare.terminate t := by
  show (if b.isTerminated then b else { b with terminator := t }).bare =
    if b.isTerminated then b.bare else { b.bare with terminator := t }
  split <;> rfl

theorem Module.bare_addString (m : Module) (bytes : List UInt8) :
    (m.addString bytes).2.bare = (m.bare.addString bytes).2 := by
  rw [addString, addString, show m.bare.globals = m.globals from rfl]
  cases m.globals.find? fun g => g.bytes? == some bytes <;> rfl

theorem Module.bare_declare (m : Module) (d : Declaration) :
    (m.declare d).bare = m.bare.declare d := by
  show (if m.declarations.any (·.name == d.name) then m
      else { m with declarations := m.declarations ++ [d] }).bare =
    if m.declarations.any (·.name == d.name) then m.bare
      else { m.bare with declarations := m.declarations ++ [d] }
  split <;> rfl

theorem Module.bare_addFunction (m : Module) (f : Function) :
    (m.addFunction f).bare = m.bare.addFunction f.bare := by
  simp only [bare, addFunction, List.map_append, List.map_cons, List.map_nil]

theorem Module.hasFunction_bare (m : Module) (name : String) :
    m.bare.hasFunction name = m.hasFunction name := by
  simp only [bare, hasFunction, List.any_map]
  rfl

end Ir

/-- The state with bare code, and without the record of what was done to blocks. -/
def GenState.bare (g : GenState) : GenState := { g with module := g.module.bare, edits := [] }

namespace Cursor

/-- The function under construction, without comments. -/
def bare (c : Cursor) : Cursor :=
  { c with
    header := c.header.bare
    before := c.before.map Ir.Block.bare
    current := c.current.bare
    edits := [] }

variable {c c' : Cursor}

theorem bare_push (c : Cursor) (i : Ir.Instr) :
    (c.push i).bare = { c.bare with
      current := if i.isComment then c.bare.current else c.bare.current.push i } := by
  simp only [push, bare, Ir.Block.bare_push]

/-- A comment leaves no trace. -/
theorem bare_push_comment (c : Cursor) (text : String) : (c.push (.comment text)).bare = c.bare :=
  bare_push c _

theorem bare_terminate (c : Cursor) (t : Ir.Terminator) :
    (c.terminate t).bare = { c.bare with current := c.bare.current.terminate t } := by
  unfold terminate
  rw [← show c.current.bare = c.bare.current from rfl, ← Ir.Block.bare_terminate,
    Ir.Block.terminate]
  split <;> rfl

theorem bare_start (c : Cursor) (b : Ir.Block) :
    ({ c with before := c.before ++ [c.current], current := b } : Cursor).bare =
      { c.bare with before := c.bare.before ++ [c.bare.current], current := b.bare } := by
  simp only [bare, List.map_append, List.map_cons, List.map_nil]

theorem isTerminated_eq (h : c.bare = c'.bare) :
    c.current.isTerminated = c'.current.isTerminated :=
  (congrArg (fun c : Cursor => c.current.isTerminated) h :)

theorem map_bare_withSlots (slots : List Ir.Instr) (blocks : List Ir.Block) :
    (withSlots slots blocks).map Ir.Block.bare =
      withSlots (slots.filter fun i => !i.isComment) (blocks.map Ir.Block.bare) := by
  cases blocks with
  | nil => rfl
  | cons b blocks => simp only [withSlots, List.map_cons, Ir.Block.bare, List.filter_append]

theorem bare_finish (c : Cursor) : c.finish.bare = { c.bare.finish with
    blocks := withSlots (c.slots.filter fun i => !i.isComment)
      (c.bare.blocks.map (·.terminate .unreachable)) } := by
  have hblocks : (c.blocks.map (·.terminate .unreachable)).map Ir.Block.bare =
      c.bare.blocks.map (·.terminate .unreachable) := by
    simp only [blocks, bare, List.map_append, List.map_cons, List.map_nil, List.map_map,
      Function.comp_def, Ir.Block.bare_terminate]
  rw [finish, Ir.Function.bare, map_bare_withSlots, hblocks]
  rfl

/-- Functions that are alike under construction are alike when they are finished. -/
theorem bare_finish_eq (h : c.bare = c'.bare) : c.finish.bare = c'.finish.bare := by
  have hslots : c.slots = c'.slots := (congrArg Cursor.slots h :)
  rw [bare_finish, bare_finish, h, hslots]

end Cursor

theorem Lower.Head.bare_cursor (h : Head) (file? file'? : Option String) :
    (h.cursor file?).bare = (h.cursor file'?).bare := rfl

/-! ## Flaws -/

namespace Ir

theorem Function.block?_bare (f : Function) (id : Nat) :
    f.bare.block? id = (f.block? id).map Block.bare := by
  rw [block?, block?, bare, ← List.map_reverse, List.find?_map]
  rfl

theorem Function.blockFlaw?_bare (f : Function) (b : Block) :
    f.bare.blockFlaw? b.bare = f.blockFlaw? b := by
  simp only [blockFlaw?, block?_bare, Option.isNone_map]
  rfl

theorem Function.flaw?_bare (f : Function) : f.bare.flaw? = f.flaw? := by
  have hblocks : f.bare.blocks.findSome? f.bare.blockFlaw? = f.blocks.findSome? f.blockFlaw? := by
    simp only [bare, List.findSome?_map]
    exact congrArg (f.blocks.findSome? ·) (funext f.blockFlaw?_bare)
  rw [flaw?, flaw?, hblocks, block?_bare, Option.isNone_map]
  rfl

/-- Comments are no flaws and hide none. -/
theorem Module.flaws_bare (m : Module) : m.bare.flaws = m.flaws := by
  simp only [flaws, bare, List.filterMap_map]
  refine congrArg (m.functions.filterMap ·) (funext fun f => ?_)
  rw [Function.comp_apply, Function.flaw?_bare]
  rfl

end Ir

end ClassLang
