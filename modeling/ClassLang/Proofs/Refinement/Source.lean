import ClassLang.Gen.Layout

/-!
# The meaning of the core language

The core has numbers of 32 bits that wrap around, truth values, and the statements that work on local
variables. Meaning is given to trees directly. An expression has a value in a store, or none if it
goes wrong; `&&` and `||` look at their right side only if the left one does not decide. A statement
takes a store to an outcome and another store, and `fuel` bounds the rounds of each loop, so a body
ends if it does so with enough fuel. A store has one table for each block around the point at hand,
and tables go away with their blocks.
-/

namespace ClassLang

/-- The types of the core. -/
inductive Kind where
  | int | bool
deriving DecidableEq, Repr, Inhabited

namespace Kind

def name : Kind → String
  | int => "int"
  | bool => "bool"

/-- The type of the values of a kind in the intermediate representation. -/
def ir : Kind → Ir.Ty
  | int => .i32
  | bool => .i1

/-- The kind that a written type names. -/
def ofType? : TypeExpr → Option Kind
  | .named n =>
    if n.name = name int then some int else if n.name = name bool then some bool else none
  | _ => none

end Kind

/-- A value of the core. -/
inductive Val where
  | int (n : BitVec 32)
  | bool (b : Bool)
deriving DecidableEq, Repr, Inhabited

namespace Val

def kind : Val → Kind
  | int _ => .int
  | bool _ => .bool

def bool? : Val → Option Bool
  | bool b => some b
  | int _ => none

def int? : Val → Option (BitVec 32)
  | int n => some n
  | bool _ => none

end Val

/-- The value of a variable without a first value. -/
def Kind.zero : Kind → Val
  | int => .int 0
  | bool => .bool false

/-- The values of the locals, the innermost scope first. -/
abbrev Store := List (Table Val)

namespace Store

/-- The value of a name: that of the innermost local. -/
def find? (ρ : Store) (name : String) : Option Val := ρ.findSome? (·.find? name)

/-- Adds a local to the innermost scope. -/
def declare (name : String) (v : Val) : Store → Store
  | [] => []
  | t :: ρ => t.insert name v :: ρ

/-- Gives a new value to the innermost local of a name, which must be of the same kind. -/
def assign (name : String) (v : Val) : Store → Option Store
  | [] => none
  | t :: ρ =>
    match t.find? name with
    | some old => if old.kind = v.kind then some (t.insert name v :: ρ) else none
    | none => (assign name v ρ).map (t :: ·)

end Store

namespace Core

/-! ## Expressions -/

def prefixed : PrefixOp → Val → Option Val
  | .negate, .int n => some (.int (-n))
  | .not, .bool b => some (.bool !b)
  | _, _ => none

/-- The result of an operator that always takes both operands. -/
def infix_ : InfixOp → Val → Val → Option Val
  | .add, .int a, .int b => some (.int (a + b))
  | .subtract, .int a, .int b => some (.int (a - b))
  | .multiply, .int a, .int b => some (.int (a * b))
  | .equal, .int a, .int b => some (.bool (a == b))
  | .notEqual, .int a, .int b => some (.bool (a != b))
  | .less, .int a, .int b => some (.bool (a.slt b))
  | .greater, .int a, .int b => some (.bool (b.slt a))
  | .lessEqual, .int a, .int b => some (.bool (a.sle b))
  | .greaterEqual, .int a, .int b => some (.bool (b.sle a))
  | .equal, .bool a, .bool b => some (.bool (a == b))
  | .notEqual, .bool a, .bool b => some (.bool (a != b))
  | _, _, _ => none

/-- The operator that `++` or `--` applies. -/
def stepOp : PostfixOp → InfixOp
  | .increment => .add
  | .decrement => .subtract

/-- The result of `&&` or `||`. The right side counts if the left one is what `&&` needs, or is not
what `||` needs. -/
def logical (isAnd : Bool) (left right : Option Val) : Option Val := do
  let l ← left.bind Val.bool?
  if l = isAnd then
    let r ← right.bind Val.bool?
    return .bool r
  else return .bool l

/-- The value of an expression. -/
def eval (ρ : Store) : Expr → Option Val
  | .ident n => ρ.find? n.name
  | .int n _ => if n < Nat.pow 2 31 then some (.int (.ofNat 32 n)) else none
  | .bool b _ => some (.bool b)
  | .prefixed op e _ => (eval ρ e).bind (prefixed op)
  | .binary op l r _ =>
    if op.isLogical then logical (op = .and) (eval ρ l) (eval ρ r)
    else do infix_ op (← eval ρ l) (← eval ρ r)
  | _ => none

/-- The value of a condition. A condition that is left out is true. -/
def test (ρ : Store) : Option Expr → Option Bool
  | some e => (eval ρ e).bind Val.bool?
  | none => some true

/-- The first value of a variable, which must be of the written type if there is one. -/
def initial (ρ : Store) (type? : Option TypeExpr) (value? : Option Expr) : Option Val :=
  match type?, value? with
  | none, some e => eval ρ e
  | some t, none => (Kind.ofType? t).map Kind.zero
  | some t, some e => (eval ρ e).filter fun v => Kind.ofType? t = some v.kind
  | none, none => none

/-! ## Simple statements -/

/-- What a statement does to the store that changes one local. -/
inductive Update where
  | declare (name : String) (v : Val)
  | assign (name : String) (v : Val)

def Update.apply : Update → Store → Option Store
  | declare name v, ρ => some (ρ.declare name v)
  | assign name v, ρ => ρ.assign name v

/-- The change that a simple statement makes. -/
def update? (ρ : Store) : Stmt → Option Update
  | .var n type? value? _ => (initial ρ type? value?).map (.declare n.name)
  | .const n type? e _ => (initial ρ type? (some e)).map (.declare n.name)
  | .expr (.assign .define (.ident n) e _) => (eval ρ e).map (.declare n.name)
  | .expr (.assign .assign (.ident n) e _) => (eval ρ e).map (.assign n.name)
  | .expr (.assign (.compound op) (.ident n) e _) => do
    return .assign n.name (← infix_ op (← ρ.find? n.name) (← eval ρ e))
  | .expr (.postfixed op (.ident n) _) => do
    return .assign n.name (← infix_ (stepOp op) (← ρ.find? n.name) (.int 1))
  | _ => none

/-! ## Statements -/

/-- How control leaves a statement. -/
inductive Outcome where
  | normal | break_ | continue_
  | ret (value? : Option Val)
deriving DecidableEq, Repr, Inhabited

/-- What a statement does. -/
abbrev Action := Store → Option (Outcome × Store)

/-- Does nothing and goes on. -/
def Action.skip : Action := fun ρ => some (.normal, ρ)

/-- A simple statement. -/
def Action.simple (s : Stmt) : Action := fun ρ => do
  let u ← update? ρ s
  return (.normal, ← u.apply ρ)

/-- An action in a scope of its own. -/
def Action.inScope (act : Action) : Action := fun ρ => do
  let (out, ρ') ← act ({} :: ρ)
  return (out, ρ'.tail)

/-- Goes on with the second action if the first one ends normally. -/
def Action.andThen (first second : Action) : Action := fun ρ => do
  match ← first ρ with
  | (.normal, ρ') => second ρ'
  | result => return result

/-- A loop of at most `fuel` rounds. -/
def Action.loop (test : Store → Option Bool) (body post : Action) : (fuel : Nat) → Action
  | 0, _ => none
  | fuel + 1, ρ => do
    if ← test ρ then
      match ← body ρ with
      | (.break_, ρ') => return (.normal, ρ')
      | (.ret v?, ρ') => return (.ret v?, ρ')
      | (_, ρ') =>
        let (_, ρ'') ← post ρ'
        loop test body post fuel ρ''
    else return (.normal, ρ)

/-- A switch, which is where `break` leads to. -/
def Action.inSwitch (act : Action) : Action := fun ρ => do
  match ← act ρ with
  | (.break_, ρ') => return (.normal, ρ')
  | result => return result

/-- Whether one of the values of a case is the tag. They are tried in order, up to the first that
is. -/
def isCase (ρ : Store) (tag : BitVec 32) : List Expr → Option Bool
  | [] => some false
  | e :: es => do
    if (← (eval ρ e).bind Val.int?) = tag then return true else isCase ρ tag es

mutual

/-- What a statement does, with at most `fuel` rounds of each loop. -/
def exec (fuel : Nat) : Stmt → Action
  | .var name type? value? span => .simple (.var name type? value? span)
  | .const name type? e span => .simple (.const name type? e span)
  | .ret value? _ => fun ρ =>
    match value? with
    | none => some (.ret none, ρ)
    | some e => do return (.ret (some (← eval ρ e)), ρ)
  | .expr e => .simple (.expr e)
  | .block b => execBlock fuel b
  | .ifElse condition consequence alternative? _ => fun ρ => do
    if ← test ρ (some condition) then execBlock fuel consequence ρ
    else execIf fuel alternative? ρ
  | .whileLoop condition body _ =>
    .loop (test · (some condition)) (execBlock fuel body) .skip fuel
  | .forLoop init? condition? post? body _ =>
    .inScope <| .andThen (execIf fuel init?) <|
      .loop (test · condition?) (execBlock fuel body) (.inScope (execIf fuel post?)) fuel
  | .switch (some tag) cases default? _ => fun ρ => do
    let t ← (eval ρ tag).bind Val.int?
    Action.inSwitch (execCases fuel t cases (execDefault fuel default?)) ρ
  | .break_ _ => fun ρ => some (.break_, ρ)
  | .continue_ _ => fun ρ => some (.continue_, ρ)
  | _ => fun _ => none

/-- A statement that may be left out. -/
def execIf (fuel : Nat) : Option Stmt → Action
  | some s => exec fuel s
  | none => .skip

def execBlock (fuel : Nat) : Block → Action
  | ⟨ss, _⟩ => .inScope (execs fuel ss)

def execs (fuel : Nat) : List Stmt → Action
  | [] => .skip
  | s :: ss => .andThen (exec fuel s) (execs fuel ss)

/-- The body of the first case that has the tag among its values. Control does not go on to the next
body. -/
def execCases (fuel : Nat) (tag : BitVec 32) : List Case → (other : Action) → Action
  | [], other => other
  | ⟨values, body, _⟩ :: cs, other => fun ρ => do
    if ← isCase ρ tag values then execBlock fuel body ρ else execCases fuel tag cs other ρ

def execDefault (fuel : Nat) : Option Block → Action
  | some b => execBlock fuel b
  | none => .skip

end

/-! ## Functions -/

/-- The kind of a parameter. -/
def paramKind? (p : Param) : Option Kind := p.type?.bind Kind.ofType?

/-- The kind of the result, if there is to be one. -/
def resultKind? : Option TypeExpr → Option (Option Kind)
  | none => some none
  | some t => (Kind.ofType? t).map some

/-- Gives each parameter its argument, which must be of its kind. -/
def bindArgs : List Param → List Val → Table Val → Option (Table Val)
  | [], [], t => some t
  | p :: ps, v :: vs, t =>
    if paramKind? p = some v.kind then bindArgs ps vs (t.insert p.name.name v) else none
  | _, _, _ => none

/-- What a function gives when control leaves its body. Without a value it gives a zero, if it is to
give anything. -/
def answer? : Option Kind → Outcome → Option (Option Val)
  | none, .normal => some none
  | none, .ret none => some none
  | some κ, .normal => some (some κ.zero)
  | some κ, .ret none => some (some κ.zero)
  | some κ, .ret (some v) => if v.kind = κ then some (some v) else none
  | _, _ => none

/-- What a function gives for arguments. -/
def apply (fuel : Nat) (params : List Param) (ret? : Option TypeExpr) (body : Block)
    (args : List Val) : Option (Option Val) := do
  let table ← bindArgs params args {}
  let κ? ← resultKind? ret?
  let (out, _) ← execBlock fuel body [table]
  answer? κ? out

/-- A function ends for arguments, with a value if it is to give one. -/
def Results (params : List Param) (ret? : Option TypeExpr) (body : Block) (args : List Val)
    (v? : Option Val) : Prop :=
  ∃ fuel, apply fuel params ret? body args = some v?

/-! ## The trees of the core -/

/-- Whether an expression is made of names, numbers, truth values and operators. -/
def isPure : Expr → Bool
  | .ident _ | .int .. | .bool .. => true
  | .prefixed _ e _ => isPure e
  | .binary _ l r _ => isPure l && isPure r
  | _ => false

/-- Whether a statement changes one local. -/
def isSimple : Stmt → Bool
  | .var _ _ value? _ => value?.all isPure
  | .const _ _ e _ => isPure e
  | .expr (.assign _ (.ident _) e _) => isPure e
  | .expr (.postfixed _ (.ident _) _) => true
  | _ => false

/-- Whether a statement can stand behind `else`. -/
def isBranch : Stmt → Bool
  | .block _ | .ifElse .. => true
  | _ => false

mutual

/-- Whether a statement is one of the core. -/
def isCore : Stmt → Bool
  | .var name type? value? span => isSimple (.var name type? value? span)
  | .const name type? e span => isSimple (.const name type? e span)
  | .expr e => isSimple (.expr e)
  | .ret value? _ => value?.all isPure
  | .block b => isCoreBlock b
  | .ifElse condition consequence alternative? _ =>
    isPure condition && isCoreBlock consequence && alternative?.all isBranch &&
      isCoreIf alternative?
  | .whileLoop condition body _ => isPure condition && isCoreBlock body
  | .forLoop init? condition? post? body _ =>
    init?.all isSimple && condition?.all isPure && post?.all isSimple && isCoreBlock body
  | .switch (some tag) cases default? _ =>
    isPure tag && isCoreCases cases && isCoreDefault default?
  | .break_ _ | .continue_ _ => true
  | _ => false

def isCoreIf : Option Stmt → Bool
  | some s => isCore s
  | none => true

def isCoreBlock : Block → Bool
  | ⟨ss, _⟩ => areCore ss

def areCore : List Stmt → Bool
  | [] => true
  | s :: ss => isCore s && areCore ss

def isCoreCases : List Case → Bool
  | [] => true
  | ⟨values, body, _⟩ :: cs => values.all isPure && isCoreBlock body && isCoreCases cs

def isCoreDefault : Option Block → Bool
  | some b => isCoreBlock b
  | none => true

end

end Core

end ClassLang
