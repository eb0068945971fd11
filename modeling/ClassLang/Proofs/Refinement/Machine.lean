import ClassLang.Ir.Function
import Mathlib.Logic.Function.Basic
import Mathlib.Logic.Relation

/-!
# Running functions of the intermediate representation

A machine for the part of the instruction set that works on truth values, numbers of 32 bits, and
stack slots. A slot is addressed by the register that its `alloca` writes. Whatever the machine does
not know, or finds to be of the wrong type, makes it stop without a result.
-/

namespace ClassLang.Ir

/-- What a register or a slot holds. -/
inductive Word where
  | i1 (b : Bool)
  | i32 (n : BitVec 32)
  /-- The address of a slot. -/
  | ptr (slot : Nat)
deriving DecidableEq, Repr, Inhabited

def Word.ty : Word → Ty
  | i1 _ => .i1
  | i32 _ => .i32
  | ptr _ => .ptr

/-- Registers and slots, by number. -/
structure State where
  regs : Nat → Option Word
  mem : Nat → Option Word

namespace State

def write (s : State) (r : Register) (w : Word) : State :=
  { s with regs := Function.update s.regs r.id (some w) }

def store (s : State) (slot : Nat) (w : Word) : State :=
  { s with mem := Function.update s.mem slot (some w) }

variable (s : State) (r : Register) (w : Word) (slot : Nat)

@[simp] theorem write_mem : (s.write r w).mem = s.mem := rfl

@[simp] theorem write_regs_self : (s.write r w).regs r.id = some w := Function.update_self ..

theorem write_regs_of_ne {n : Nat} (h : n ≠ r.id) : (s.write r w).regs n = s.regs n :=
  Function.update_of_ne h _ _

@[simp] theorem store_regs : (s.store slot w).regs = s.regs := rfl

@[simp] theorem store_mem_self : (s.store slot w).mem slot = some w := Function.update_self ..

theorem store_mem_of_ne {n : Nat} (h : n ≠ slot) : (s.store slot w).mem n = s.mem n :=
  Function.update_of_ne h _ _

end State

/-! ## Instructions -/

/-- The word that a value stands for. -/
def Value.word? (s : State) : Value → Option Word
  | reg r => s.regs r.id
  | int n .i32 => some (.i32 (.ofInt 32 n))
  | bool b => some (.i1 b)
  | _ => none

/-- The result of an operation on words. -/
def BinaryOp.apply : BinaryOp → Word → Word → Option Word
  | add, .i32 a, .i32 b => some (.i32 (a + b))
  | sub, .i32 a, .i32 b => some (.i32 (a - b))
  | mul, .i32 a, .i32 b => some (.i32 (a * b))
  | and, .i32 a, .i32 b => some (.i32 (a &&& b))
  | or, .i32 a, .i32 b => some (.i32 (a ||| b))
  | xor, .i32 a, .i32 b => some (.i32 (a ^^^ b))
  | and, .i1 a, .i1 b => some (.i1 (a && b))
  | or, .i1 a, .i1 b => some (.i1 (a || b))
  | xor, .i1 a, .i1 b => some (.i1 (a ^^ b))
  | _, _, _ => none

/-- The result of a comparison of words. Numbers have signs. -/
def CompareOp.apply : CompareOp → Word → Word → Option Bool
  | eq, .i32 a, .i32 b => some (a == b)
  | ne, .i32 a, .i32 b => some (a != b)
  | lt, .i32 a, .i32 b => some (a.slt b)
  | gt, .i32 a, .i32 b => some (b.slt a)
  | le, .i32 a, .i32 b => some (a.sle b)
  | ge, .i32 a, .i32 b => some (b.sle a)
  | eq, .i1 a, .i1 b => some (a == b)
  | ne, .i1 a, .i1 b => some (a != b)
  | _, _, _ => none

/-- Where a pointer points to. -/
def Value.slot? (s : State) (v : Value) : Option Nat :=
  match v.word? s with
  | some (.ptr slot) => some slot
  | _ => none

/-- The effect of an instruction after control came from the block `source?`. -/
def Instr.exec (source? : Option Nat) (s : State) : Instr → Option State
  | alloca d _ => some (s.write d (.ptr d.id))
  | load d ptr => do
    let w ← s.mem (← ptr.slot? s)
    if w.ty = d.ty then return s.write d w else none
  | store v ptr => do return s.store (← ptr.slot? s) (← v.word? s)
  | binary d op l r => do return s.write d (← op.apply (← l.word? s) (← r.word? s))
  | compare d op l r => do return s.write d (.i1 (← op.apply (← l.word? s) (← r.word? s)))
  | phi d incoming => do
    let (v, _) ← incoming.find? fun (_, block) => source? = some block
    return s.write d (← v.word? s)
  | comment _ => some s
  | _ => none

/-! ## Functions -/

/-- A point of a run: the block that control came from, and what is left of the block at hand. -/
structure Config where
  source? : Option Nat := none
  block : Nat
  code : List Instr
  exit : Terminator
  state : State

/-- What comes after a point of a run. -/
inductive Next where
  | run (k : Config)
  | done (w? : Option Word)

namespace Function

/-- The beginning of a block. -/
def enter (f : Function) (source? : Option Nat) (target : Nat) (s : State) : Option Config :=
  (f.block? target).map fun b => ⟨source?, target, b.instrs, b.terminator, s⟩

/-- One step of a run. A function returns only what it is declared to return. -/
def step (f : Function) (k : Config) : Option Next :=
  match k.code with
  | i :: code => (i.exec k.source? k.state).map fun s => .run { k with code, state := s }
  | [] =>
    match k.exit with
    | .jump target => (f.enter (some k.block) target k.state).map .run
    | .branch c ifTrue ifFalse =>
      match c.word? k.state with
      | some (.i1 b) =>
        (f.enter (some k.block) (if b then ifTrue else ifFalse) k.state).map .run
      | _ => none
    | .ret none => if f.ret = .void then some (.done none) else none
    | .ret (some v) => do
      let w ← v.word? k.state
      if w.ty = f.ret then return .done (some w) else none
    | _ => none

/-- Any number of steps. -/
abbrev Steps (f : Function) : Config → Config → Prop :=
  Relation.ReflTransGen fun k k' => f.step k = some (.run k')

/-- The registers when a function is called. -/
def arguments (f : Function) (args : List Word) : State where
  regs n := ((f.params.zip args).find? (·.1.id == n)).map (·.2)
  mem _ := none

/-- The first point of a run, if the arguments are of the types of the parameters. -/
def start? (f : Function) (args : List Word) : Option Config :=
  if args.map Word.ty = f.params.map Register.ty then f.enter none f.entry (f.arguments args)
  else none

/-- Called with arguments, the function gets to a `ret` with a value, or without one. -/
def Returns (f : Function) (args : List Word) (w? : Option Word) : Prop :=
  ∃ k k', f.start? args = some k ∧ f.Steps k k' ∧ f.step k' = some (.done w?)

theorem Returns.types {f : Function} {args : List Word} {w? : Option Word}
    (h : f.Returns args w?) : args.map Word.ty = f.params.map Register.ty := by
  obtain ⟨k, _, hstart, _⟩ := h
  unfold start? at hstart
  split at hstart
  · assumption
  · cases hstart

/-- A run ends at a `ret`, with what the function is declared to return. -/
theorem ret_of_step_eq_done {f : Function} {k : Config} {w? : Option Word}
    (h : f.step k = some (.done w?)) : f.ret = (w?.map Word.ty).getD .void := by
  have hrun : ∀ {k? : Option Config}, k?.map Next.run ≠ some (.done w?) := by
    intro k? h
    obtain ⟨_, _, h⟩ := Option.map_eq_some_iff.1 h
    cases h
  unfold step at h
  split at h
  · obtain ⟨_, _, h⟩ := Option.map_eq_some_iff.1 h
    cases h
  · split at h
    · exact absurd h hrun
    · split at h
      · exact absurd h hrun
      · cases h
    · split at h
      · cases h
        assumption
      · cases h
    · obtain ⟨w, _, h⟩ := Option.bind_eq_some_iff.1 h
      split at h
      · cases h
        exact Eq.symm (by assumption)
      · cases h
    · cases h

theorem Returns.ret {f : Function} {args : List Word} {w? : Option Word} (h : f.Returns args w?) :
    f.ret = (w?.map Word.ty).getD .void := by
  obtain ⟨_, _, _, _, hstep⟩ := h
  exact ret_of_step_eq_done hstep

end Function

end ClassLang.Ir
