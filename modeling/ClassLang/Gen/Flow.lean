import ClassLang.Gen.Call

/-!
# Control flow

How blocks are put together for operators that decide, for branches, loops, switches and try
statements. The parts of a statement are given as the code that they stand for, so that nothing here
goes down a tree. Leaving a try statement runs the block that is to run finally, and making an object
computes the first values of its fields. Both take up a tree from elsewhere, so they go through
`Detour`.
-/

namespace ClassLang.Lower

open Ir (Value)

variable {m : Type → Type} [Monad m] [MonadLiftT Gen m] [Emitter m]

/-- The ways to code that does not stand below the point at hand. -/
structure Detour where
  expr : Env → Expr → Lower Operand
  block : Env → Block → Lower Unit

/-! ## Leaving -/

/-- Runs the final blocks of the innermost `count` try statements, each outside of its own
statement, until one of them ends the block. -/
def runFinally (detour : Detour) (env : Env) : (count : Nat) → List Try → Lower Unit
  | 0, _ => return
  | _, [] => return
  | count + 1, t :: outer => do
    match t.finally? with
    | none => runFinally detour env count outer
    | some body =>
      Gen.recordCopy ⟨t, ← site env, true⟩
      detour.block { env with tries := outer } body
      if !(← isTerminated) then runFinally detour env count outer

/-- Leaves the try statements inside of the outermost `depth`. -/
def leaveTries (detour : Detour) (env : Env) (depth : Nat) : Lower Unit :=
  runFinally detour env (env.tries.length - depth) env.tries

/-- What a function returns for a value, if it returns any. -/
def returnValue (env : Env) (value? : Option Operand) : m (Option Value) := do
  if env.isMain then return some (.i32 0)
  else if env.ret.isVoid then return none
  else
    match value? with
    | some o => return some (← convert o.value env.ret)
    | none => return some (.zero env.ret)

def leaveFunction (detour : Detour) (env : Env) (value? : Option Operand) : Lower Unit := do
  let result ← returnValue env value?
  leaveTries detour env 0
  terminate (.ret result)

def leaveLoop (detour : Detour) (env : Env) (span : Span) : Lower Unit := do
  match env.loops with
  | [] => Gen.report (.outsideLoop "break") span
  | l :: _ =>
    leaveTries detour env l.tryDepth
    jump l.breakTo

def continueLoop (detour : Detour) (env : Env) (span : Span) : Lower Unit := do
  match env.continueTarget? with
  | none => Gen.report (.outsideLoop "continue") span
  | some (block, depth) =>
    leaveTries detour env depth
    jump block

/-! ## Branches -/

/-- Code in a block of its own, which goes on to `exit`. -/
def arm (id : Nat) (label : String) (exit : Nat) (act : m Unit) : m Unit := do
  startBlock id label
  act
  jump exit

/-- Code in a block of its own, if there is any. -/
def arm? (id : Nat) (label : String) (exit : Nat) : Option (m Unit) → m Unit
  | some act => arm id label exit act
  | none => return

/-- A block for code that there may be; without the code, another block stands in for it. -/
def freshBlockIf (wanted : Bool) (other : Nat) : m Nat :=
  if wanted then freshBlock else return other

/-- The value of a condition. -/
def condition (value : m Operand) : m Value := do truth (← value).value

/-- `&&` and `||`: the right side runs only if the left one does not decide. -/
def logical (isAnd : Bool) (left right : m Operand) : m Operand := do
  let l ← condition left
  let leftEnd ← currentBlock
  let rest ← freshBlock
  let merge ← freshBlock
  branch l (if isAnd then rest else merge) (if isAnd then merge else rest)
  startBlock rest (if isAnd then "and.rhs" else "or.rhs")
  let r ← condition right
  let rightEnd ← currentBlock
  jump merge
  startBlock merge "logic.merge"
  return ⟨← phi .i1 [(.bool (!isAnd), leftEnd), (r, rightEnd)], .bool⟩

def ifElse (test : m Operand) (consequence : m Unit) (alternative? : Option (m Unit)) :
    m Unit := do
  let c ← condition test
  let thenBlock ← freshBlock
  let merge ← freshBlock
  let elseBlock ← freshBlockIf alternative?.isSome merge
  branch c thenBlock elseBlock
  arm thenBlock "if.then" merge consequence
  arm? elseBlock "if.else" merge alternative?
  startBlock merge "if.merge"

/-! ## Loops -/

def whileLoop (env : Env) (test : Lower Operand) (body : Env → Lower Unit) : Lower Unit := do
  let header ← freshBlock
  let bodyBlock ← freshBlock
  let exit ← freshBlock
  jump header
  startBlock header "while.header"
  let c ← condition test
  branch c bodyBlock exit
  arm bodyBlock "while.body" header (body (env.inLoop exit header))
  startBlock exit "while.exit"

/-- Code that may be left out. -/
def perhaps : Option (m Unit) → m Unit
  | some act => act
  | none => return

/-- Goes into a loop or past it; without a condition always into it. -/
def loopTest (body exit : Nat) : Option (m Operand) → m Unit
  | some test => do branch (← condition test) body exit
  | none => jump body

def forLoop (env : Env) (init? : Option (Lower Unit)) (test? : Option (Lower Operand))
    (post? : Option (Lower Unit)) (body : Env → Lower Unit) : Lower Unit :=
  inScope do
    perhaps init?
    let test ← freshBlock
    let bodyBlock ← freshBlock
    let post ← freshBlock
    let exit ← freshBlock
    jump test
    startBlock test "for.cond"
    loopTest bodyBlock exit test?
    arm bodyBlock "for.body" post (body (env.inLoop exit post))
    arm post "for.post" test (perhaps post?)
    startBlock exit "for.exit"

/-! ## Switches -/

/-- Goes to `target` if a value is the tag, or is true where there is no tag, and else goes on. -/
def caseTest (tag? : Option Operand) (target : Nat) (value : m Operand) : m Unit := do
  let o ← value
  let c ← match tag? with
    | some tag => comparison .equal tag o
    | none => truth o.value
  let next ← freshBlock
  branch c target next
  startBlock next "switch.test"

/-- A switch of `count` cases. The tests come first and then the bodies, each of which has a block of
its own. -/
def switch (env : Env) (tag? : Lower (Option Operand)) (count : Nat)
    (tests : Option Operand → List Nat → Lower Unit) (bodies : Env → Nat → List Nat → Lower Unit)
    (default? : Option (Env → Lower Unit)) : Lower Unit := do
  let tag? ← tag?
  let exit ← freshBlock
  let blocks ← freshBlocks count
  let other ← freshBlockIf default?.isSome exit
  tests tag? blocks
  jump other
  bodies (env.inSwitch exit) exit blocks
  arm? other "switch.default" exit (default?.map fun body => body (env.inSwitch exit))
  startBlock exit "switch.exit"

/-! ## Exceptions -/

/-- Binds the variable of a catch clause, which holds a zero. -/
def bindCaught (env : Env) (param? : Option Ident) (type? : Option TypeExpr) : m Unit := do
  match param? with
  | none => return
  | some p =>
    let ty ← Gen.resolveOptional env.typing .unknown type?
    let ir := if (Ir.Ty.ofTy ty).isVoid then .ptr else .ofTy ty
    let _ ← bindValue p.name ty ir (.zero ir)

/-- The body of a catch clause, with its variable in a scope around it. -/
def clause (env : Env) (param? : Option Ident) (type? : Option TypeExpr) (body : m Unit) :
    m Unit :=
  inScope do
    bindCaught env param? type?
    body

/-- The routine that unwinds the stack. -/
def personality : String := "__gxx_personality_v0"

def usePersonality : m Unit := do
  Gen.declare personality .i32 [] true
  setPersonality personality

/-- The final block of a try statement, where control gets out of the statement without leaving it
for good. -/
def fallThrough (env : Env) (t : Try) (final : Lower Unit) : Lower Unit := do
  Gen.recordCopy ⟨t, ← site env, false⟩
  final

/-- A try statement of `count` catch clauses. What comes after the body and the clauses is the final
block, if there is one. -/
def tryCatch (env : Env) (finally? : Option Block) (body : Env → Lower Unit) (count : Nat)
    (clauses : Env → Nat → List Nat → Lower Unit) (final? : Option (Lower Unit)) :
    Lower Unit := do
  usePersonality
  let t : Try := ⟨finally?, ← site env⟩
  let bodyBlock ← freshBlock
  let landing ← freshBlock
  let handlers ← freshBlocks count
  let finalBlock? ← if final?.isSome then some <$> freshBlock else pure none
  let resume ← freshBlock
  let done ← freshBlock
  let exit := finalBlock?.getD done
  jump bodyBlock
  arm bodyBlock "try.body" exit (body (env.inTry t))
  startBlock landing "try.landing"
  emit (.comment "exception type dispatch not implemented")
  jump (handlers.head?.getD resume)
  clauses (env.inTry t) exit handlers
  arm? exit "try.finally" done (final?.map (fallThrough env t))
  startBlock resume "try.resume"
  terminate .unreachable
  startBlock done "try.end"

end ClassLang.Lower
