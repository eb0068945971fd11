import ClassLang.Ir.Value

/-!
# Instructions and blocks

A block is a list of instructions with a terminator, which says where control goes next. A block
under construction has the terminator `open_`.
-/

namespace ClassLang.Ir

inductive BinaryOp where
  | add | sub | mul | div | rem | and | or | xor | shl | shr
deriving DecidableEq, Repr, Inhabited

/-- The operation on operands of a type; only arithmetic has a floating-point form. -/
def BinaryOp.opcode (op : BinaryOp) (t : Ty) : String :=
  match op, t.isFloat with
  | add, true => "fadd"
  | sub, true => "fsub"
  | mul, true => "fmul"
  | div, true => "fdiv"
  | rem, true => "frem"
  | add, false => "add"
  | sub, false => "sub"
  | mul, false => "mul"
  | div, false => "sdiv"
  | rem, false => "srem"
  | and, _ => "and"
  | or, _ => "or"
  | xor, _ => "xor"
  | shl, _ => "shl"
  | shr, _ => "ashr"

inductive CompareOp where
  | eq | ne | lt | gt | le | ge
deriving DecidableEq, Repr, Inhabited

/-- The comparison of operands of a type: ordered for floating point, signed for the rest. -/
def CompareOp.opcode (op : CompareOp) (t : Ty) : String :=
  match op, t.isFloat with
  | eq, true => "fcmp oeq"
  | ne, true => "fcmp one"
  | lt, true => "fcmp olt"
  | gt, true => "fcmp ogt"
  | le, true => "fcmp ole"
  | ge, true => "fcmp oge"
  | eq, false => "icmp eq"
  | ne, false => "icmp ne"
  | lt, false => "icmp slt"
  | gt, false => "icmp sgt"
  | le, false => "icmp sle"
  | ge, false => "icmp sge"

inductive CastOp where
  | signExtend | zeroExtend | truncate | intToFloat | floatToInt | floatExtend | floatTruncate
  | pointerToInt
deriving DecidableEq, Repr, Inhabited

def CastOp.opcode : CastOp → String
  | signExtend => "sext"
  | zeroExtend => "zext"
  | truncate => "trunc"
  | intToFloat => "sitofp"
  | floatToInt => "fptosi"
  | floatExtend => "fpext"
  | floatTruncate => "fptrunc"
  | pointerToInt => "ptrtoint"

/-- What a call calls. -/
inductive Callee where
  | function (name : String)
  | pointer (value : Value)
deriving DecidableEq, Repr, Inhabited

def Callee.text : Callee → String
  | function name => "@" ++ name
  | pointer value => value.text

inductive Instr where
  | alloca (dest : Register) (ty : Ty)
  | load (dest : Register) (ptr : Value)
  | store (value ptr : Value)
  | binary (dest : Register) (op : BinaryOp) (left right : Value)
  | compare (dest : Register) (op : CompareOp) (left right : Value)
  | cast (dest : Register) (op : CastOp) (value : Value)
  /-- The address of an element: the pointer is seen as pointing at `base`. -/
  | element (dest : Register) (base : Ty) (ptr : Value) (indices : List Value)
  /-- A call; for a variadic function with the types of its fixed parameters. -/
  | call (dest? : Option Register) (ret : Ty) (callee : Callee) (args : List Value)
      (fixed? : Option (List Ty))
  /-- The value that belongs to the block control came from. -/
  | phi (dest : Register) (incoming : List (Value × Nat))
  | comment (text : String)
deriving DecidableEq, Repr, Inhabited

/-- How a block is called. -/
def blockName (id : Nat) : String := s!"bb{id}"

/-- Pieces of text with a comma and a blank between them. -/
def listed (pieces : List String) : String := String.intercalate ", " pieces

namespace Instr

/-- The register that an instruction writes. -/
def dest? : Instr → Option Register
  | alloca d _ | load d _ | binary d _ _ _ | compare d _ _ _ | cast d _ _ => some d
  | element d _ _ _ | phi d _ => some d
  | call d? _ _ _ _ => d?
  | store .. | comment _ => none

def isAlloca : Instr → Bool
  | alloca .. => true
  | _ => false

def isComment : Instr → Bool
  | comment _ => true
  | _ => false

def text : Instr → String
  | alloca d t => s!"{d.text} = alloca {t.text}"
  | load d ptr => s!"{d.text} = load {d.ty.text}, {ptr.typed}"
  | store v ptr => s!"store {v.typed}, {ptr.typed}"
  | binary d op l r => s!"{d.text} = {op.opcode l.ty} {l.ty.text} {l.text}, {r.text}"
  | compare d op l r => s!"{d.text} = {op.opcode l.ty} {l.ty.text} {l.text}, {r.text}"
  | cast d op v => s!"{d.text} = {op.opcode} {v.typed} to {d.ty.text}"
  | element d base ptr indices =>
    s!"{d.text} = getelementptr " ++ listed (base.text :: ptr.typed :: indices.map Value.typed)
  | call d? ret callee args fixed? =>
    let dest := match d? with
      | some d => d.text ++ " = "
      | none => ""
    let fixed := match fixed? with
      | some types => " (" ++ listed (types.map Ty.text ++ ["..."]) ++ ")"
      | none => ""
    let args := listed (args.map Value.typed)
    s!"{dest}call {ret.text}{fixed} {callee.text}({args})"
  | phi d incoming =>
    let arms := incoming.map fun (v, block) => s!"[ {v.text}, %{blockName block} ]"
    s!"{d.text} = phi {d.ty.text} " ++ listed arms
  | comment t => "; " ++ t

end Instr

/-- How a block ends. -/
inductive Terminator where
  | open_
  | jump (target : Nat)
  | branch (condition : Value) (ifTrue ifFalse : Nat)
  | ret (value? : Option Value)
  | unreachable
deriving DecidableEq, Repr, Inhabited

namespace Terminator

/-- The blocks that control may go to. -/
def targets : Terminator → List Nat
  | jump target => [target]
  | branch _ ifTrue ifFalse => [ifTrue, ifFalse]
  | _ => []

def text : Terminator → String
  | open_ => "; open"
  | jump target => s!"br label %{blockName target}"
  | branch c ifTrue ifFalse =>
    s!"br {c.typed}, label %{blockName ifTrue}, label %{blockName ifFalse}"
  | ret none => "ret void"
  | ret (some v) => "ret " ++ v.typed
  | unreachable => "unreachable"

end Terminator

/-- A block of instructions. -/
structure Block where
  id : Nat
  label? : Option String := none
  instrs : List Instr := []
  terminator : Terminator := .open_
deriving DecidableEq, Repr, Inhabited

namespace Block

def push (b : Block) (i : Instr) : Block := { b with instrs := b.instrs ++ [i] }

def isTerminated (b : Block) : Bool := b.terminator != .open_

/-- Ends a block that is still open. -/
def terminate (b : Block) (t : Terminator) : Block :=
  if b.isTerminated then b else { b with terminator := t }

/-- The lines of a block. -/
def lines (b : Block) : List String :=
  let head := match b.label? with
    | some label => s!"{blockName b.id}:  ; {label}"
    | none => s!"{blockName b.id}:"
  head :: (b.instrs.map Instr.text ++ [b.terminator.text]).map ("  " ++ ·)

end Block

end ClassLang.Ir
