import ClassLang.Ir.Instr

/-!
# Functions

A function is a list of blocks in the order in which they were added. A block is known by its
number; of two with one number the later is meant. Stack slots are put at the top of the entry
block, one after the other, wherever the need for them arises.
-/

namespace ClassLang.Ir

structure Function where
  name : String
  params : List Register
  ret : Ty
  blocks : List Block := []
  entry : Nat := 0
  /-- The routine that unwinds the stack, for functions that catch exceptions. -/
  personality? : Option String := none
  /-- The source file, if positions are recorded. -/
  file? : Option String := none
  span : Span := {}
  /-- The number of slots put at the top of the entry block. -/
  slots : Nat := 0
deriving DecidableEq, Repr, Inhabited

/-- What is wrong with a function. -/
inductive Flaw where
  | missingEntry (entry : Nat)
  | openBlock (block : Nat)
  | unknownTarget (block target : Nat)
deriving DecidableEq, Repr, Inhabited

def Flaw.message : Flaw → String
  | missingEntry entry => s!"missing entry block {blockName entry}"
  | openBlock block => s!"{blockName block} has no terminator"
  | unknownTarget block target => s!"{blockName block} branches to unknown {blockName target}"

namespace Function

def addBlock (f : Function) (b : Block) : Function := { f with blocks := f.blocks ++ [b] }

/-- The block of a number. -/
def block? (f : Function) (id : Nat) : Option Block := f.blocks.reverse.find? (·.id == id)

/-- Changes the first block of a number in a list. -/
def modifyFirst (id : Nat) (g : Block → Block) : List Block → List Block
  | [] => []
  | b :: bs => if b.id == id then g b :: bs else b :: modifyFirst id g bs

/-- Changes the block of a number. -/
def modifyBlock (f : Function) (id : Nat) (g : Block → Block) : Function :=
  { f with blocks := (modifyFirst id g f.blocks.reverse).reverse }

/-- Puts a stack slot after those at the top of the entry block. -/
def insertSlot (f : Function) (i : Instr) : Function :=
  if (f.block? f.entry).isNone then f
  else
    { f.modifyBlock f.entry fun b =>
        { b with instrs := b.instrs.insertIdx (min f.slots b.instrs.length) i }
      with slots := f.slots + 1 }

/-- The instructions, block after block. -/
def instrs (f : Function) : List Instr := f.blocks.flatMap Block.instrs

def instrCount (f : Function) : Nat := f.instrs.length

/-- The first flaw of one block. -/
def blockFlaw? (f : Function) (b : Block) : Option Flaw :=
  if !b.isTerminated then some (.openBlock b.id)
  else (b.terminator.targets.find? fun t => (f.block? t).isNone).map (.unknownTarget b.id)

/-- The first flaw: the entry block must exist, every block must end, and control must go to blocks
that exist. -/
def flaw? (f : Function) : Option Flaw :=
  if (f.block? f.entry).isNone then some (.missingEntry f.entry)
  else f.blocks.findSome? f.blockFlaw?

/-- The lines of a function. -/
def lines (f : Function) : List String :=
  let source := match f.file? with
    | some file => [s!"; {f.name} defined at {file}:{f.span.line}:{f.span.column}"]
    | none => []
  let params := listed (f.params.map fun p => p.ty.text ++ " " ++ p.text)
  let personality := match f.personality? with
    | some name => s!" personality ptr @{name}"
    | none => ""
  source ++ [s!"define {f.ret.text} @{f.name}({params}){personality} \x7b"] ++
    f.blocks.flatMap Block.lines ++ ["\x7d"]

end Function

end ClassLang.Ir
