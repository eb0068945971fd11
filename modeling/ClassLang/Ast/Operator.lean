import ClassLang.Token

/-!
# Operators

The operators of expressions, the mark that writes each of them, and how tightly each binds.
-/

namespace ClassLang

/-- Operators before their operand. -/
inductive PrefixOp where
  | not | negate | bitNot
deriving DecidableEq, Repr, Inhabited

namespace PrefixOp

def ofKind? : TokenKind → Option PrefixOp
  | .mark .bang => some not
  | .mark .minus => some negate
  | .mark .tilde => some bitNot
  | _ => none

def text : PrefixOp → String
  | not => "!"
  | negate => "-"
  | bitNot => "~"

end PrefixOp

/-- Operators between two operands. -/
inductive InfixOp where
  | add | subtract | multiply | divide | modulo
  | equal | notEqual | less | greater | lessEqual | greaterEqual
  | and | or
  | bitAnd | bitOr | bitXor | leftShift | rightShift
deriving DecidableEq, Repr, Inhabited

namespace InfixOp

def ofKind? : TokenKind → Option InfixOp
  | .mark .plus => some add
  | .mark .minus => some subtract
  | .mark .star => some multiply
  | .mark .slash => some divide
  | .mark .percent => some modulo
  | .mark .eqEq => some equal
  | .mark .notEq => some notEqual
  | .mark .lt => some less
  | .mark .gt => some greater
  | .mark .ltEq => some lessEqual
  | .mark .gtEq => some greaterEqual
  | .mark .andAnd => some and
  | .mark .orOr => some or
  | .mark .amp => some bitAnd
  | .mark .pipe => some bitOr
  | .mark .caret => some bitXor
  | .mark .shiftLeft => some leftShift
  | .mark .shiftRight => some rightShift
  | _ => none

/-- The mark that writes the operator. -/
def mark : InfixOp → Mark
  | add => .plus
  | subtract => .minus
  | multiply => .star
  | divide => .slash
  | modulo => .percent
  | equal => .eqEq
  | notEqual => .notEq
  | less => .lt
  | greater => .gt
  | lessEqual => .ltEq
  | greaterEqual => .gtEq
  | and => .andAnd
  | or => .orOr
  | bitAnd => .amp
  | bitOr => .pipe
  | bitXor => .caret
  | leftShift => .shiftLeft
  | rightShift => .shiftRight

def text (op : InfixOp) : String := op.mark.spelling

@[simp] theorem ofKind?_mark (op : InfixOp) : ofKind? op.mark = some op := by
  cases op <;> rfl

def isComparison : InfixOp → Bool
  | equal | notEqual | less | greater | lessEqual | greaterEqual => true
  | _ => false

def isLogical : InfixOp → Bool
  | and | or => true
  | _ => false

def isBitwise : InfixOp → Bool
  | bitAnd | bitOr | bitXor | leftShift | rightShift => true
  | _ => false

end InfixOp

/-- Operators after their operand. -/
inductive PostfixOp where
  | increment | decrement
deriving DecidableEq, Repr, Inhabited

namespace PostfixOp

def ofKind? : TokenKind → Option PostfixOp
  | .mark .increment => some increment
  | .mark .decrement => some decrement
  | _ => none

def text : PostfixOp → String
  | increment => "++"
  | decrement => "--"

end PostfixOp

/-- The assignment forms: plain, defining, and updating by a binary operator. -/
inductive AssignOp where
  | assign
  | define
  | compound (op : InfixOp)
deriving DecidableEq, Repr, Inhabited

namespace AssignOp

def ofKind? : TokenKind → Option AssignOp
  | .mark .assign => some assign
  | .mark .define => some define
  | .mark .plusAssign => some (compound .add)
  | .mark .minusAssign => some (compound .subtract)
  | .mark .starAssign => some (compound .multiply)
  | .mark .slashAssign => some (compound .divide)
  | .mark .percentAssign => some (compound .modulo)
  | .mark .ampAssign => some (compound .bitAnd)
  | .mark .pipeAssign => some (compound .bitOr)
  | .mark .caretAssign => some (compound .bitXor)
  | .mark .shiftLeftAssign => some (compound .leftShift)
  | .mark .shiftRightAssign => some (compound .rightShift)
  | _ => none

def text : AssignOp → String
  | assign => "="
  | define => ":="
  | compound op => op.text ++ "="

end AssignOp

/-- How tightly an operator binds, loosest first. -/
inductive Precedence where
  | lowest | assign | logicalOr | logicalAnd | equals | lessGreater | sum | product | unary | call
  | index | member
deriving DecidableEq, Repr, Inhabited

namespace Precedence

/-- The position in the order, from zero. -/
def rank : Precedence → Nat
  | lowest => 0
  | assign => 1
  | logicalOr => 2
  | logicalAnd => 3
  | equals => 4
  | lessGreater => 5
  | sum => 6
  | product => 7
  | unary => 8
  | call => 9
  | index => 10
  | member => 11

/-- The precedences in order. -/
def all : List Precedence :=
  [lowest, assign, logicalOr, logicalAnd, equals, lessGreater, sum, product, unary, call, index,
   member]

/-- The precedence of a token that stands after an operand. -/
def ofKind : TokenKind → Precedence
  | .mark m => match m with
    | .assign | .define | .plusAssign | .minusAssign | .starAssign | .slashAssign
    | .percentAssign | .ampAssign | .pipeAssign | .caretAssign | .shiftLeftAssign
    | .shiftRightAssign => assign
    | .orOr => logicalOr
    | .andAnd => logicalAnd
    | .eqEq | .notEq => equals
    | .lt | .gt | .ltEq | .gtEq => lessGreater
    | .plus | .minus | .pipe | .caret => sum
    | .star | .slash | .percent | .amp | .shiftLeft | .shiftRight => product
    | .lParen | .increment | .decrement => call
    | .lBracket => index
    | .dot | .arrow => member
    | _ => lowest
  | _ => lowest

end Precedence

/-- Assignments group to the right. -/
def TokenKind.isRightAssociative (k : TokenKind) : Bool := Precedence.ofKind k == .assign

end ClassLang
