import ClassLang.Gen.Flow
import ClassLang.Proofs.Code.Bare

/-!
# Plain code

Whatever adds code to a function without going down a tree is put together from a few basic steps, and
looks at nothing that has to do with comments. It can be read as code for one way to keep the function and
for another one, and the two are `Alike`: they take the same basic steps, one after the other. What can be
said of the basic steps can be said of all such code then, by induction.
-/

namespace ClassLang

/-- Whether an error may be reported all over the place. Those that may not say that a jump or an
assignment stands where it makes no sense, or that the limit on nesting is met. -/
def GenError.Cause.isRoutine : GenError.Cause → Bool
  | .outsideLoop _ | .invalidAssignTarget _ | .unbounded => false
  | _ => true

namespace Lower

/-- Code that takes the same basic steps for two ways to keep the function. A block is started with a
number that was just handed out, and when the one before is ended. -/
inductive Alike (m n : Type → Type) [Monad m] [Monad n] [MonadLiftT Gen m] [MonadLiftT Gen n]
    [Emitter m] [Emitter n] : {α : Type} → m α → n α → Prop
  | pure {α : Type} (a : α) : Alike m n (Pure.pure a) (Pure.pure a)
  | bind {α β : Type} {x : m α} {y : n α} {f : α → m β} {h : α → n β} :
    Alike m n x y → (∀ a, Alike m n (f a) (h a)) → Alike m n (x >>= f) (y >>= h)
  /-- A step that only looks at the state. -/
  | looking {α : Type} {x : Gen α} (f : GenState → α) : (∀ g, x.run g = (f g.bare, g)) →
    Alike m n (liftM x) (liftM x)
  | freshRegister (ty : Ir.Ty) : Alike m n (Lower.freshRegister ty) (Lower.freshRegister ty)
  | freshBlock : Alike m n Lower.freshBlock Lower.freshBlock
  | restart {t : Ir.Terminator} (ht : t ≠ .open_) (label : String) :
    Alike m n
      (do
        Lower.terminate t
        Lower.startBlock (← Lower.freshBlock) label)
      (do
        Lower.terminate t
        Lower.startBlock (← Lower.freshBlock) label)
  | emit (i : Ir.Instr) : Alike m n (Lower.emit i) (Lower.emit i)
  | terminate (t : Ir.Terminator) : Alike m n (Lower.terminate t) (Lower.terminate t)
  | isTerminated : Alike m n Lower.isTerminated Lower.isTerminated
  | currentBlock : Alike m n Lower.currentBlock Lower.currentBlock
  | slot (i : Ir.Instr) : Alike m n (Lower.addSlot i) (Lower.addSlot i)
  | personality (name : String) :
    Alike m n (Lower.setPersonality name) (Lower.setPersonality name)
  | bindName (name : String) (l : Location) : Alike m n (Lower.bind name l) (Lower.bind name l)
  | lookup (name : String) : Alike m n (Lower.lookup name) (Lower.lookup name)
  | report {cause : GenError.Cause} (h : cause.isRoutine = true) (span : Span) :
    Alike m n (Gen.report cause span : m Unit) (Gen.report cause span : n Unit)
  | declare (name : String) (ret : Ir.Ty) (params : List Ir.Ty) (variadic : Bool) :
    Alike m n (Gen.declare name ret params variadic : m Unit)
      (Gen.declare name ret params variadic : n Unit)
  | addString (bytes : List UInt8) :
    Alike m n (Gen.addString bytes : m String) (Gen.addString bytes : n String)

/-- Code that is put together from basic steps. -/
abbrev Plain {α : Type} (x : Lower α) : Prop := Alike Lower Lower x x

namespace Alike

variable {α β : Type} {m n : Type → Type} [Monad m] [Monad n] [MonadLiftT Gen m]
  [MonadLiftT Gen n] [Emitter m] [Emitter n]

theorem ite {c : Prop} [Decidable c] {x x' : m α} {y y' : n α} (hx : Alike m n x y)
    (hx' : Alike m n x' y') : Alike m n (if c then x else x') (if c then y else y') := by
  split <;> assumption

theorem mapM [LawfulMonad m] [LawfulMonad n] {f : α → m β} {h : α → n β} (l : List α)
    (hf : ∀ a, Alike m n (f a) (h a)) : Alike m n (l.mapM f) (l.mapM h) := by
  induction l with
  | nil => exact pure []
  | cons a l ih =>
    rw [List.mapM_cons, List.mapM_cons]
    exact (hf a).bind fun b => ih.bind fun bs => pure (b :: bs)

theorem forM {f : α → m Unit} {h : α → n Unit} (l : List α) (hf : ∀ a, Alike m n (f a) (h a)) :
    Alike m n (l.forM f) (l.forM h) := by
  induction l with
  | nil => exact pure ()
  | cons a l ih => exact (hf a).bind fun _ => ih

/-! ## Instructions and names -/

theorem freshBlocks : (count : Nat) → Alike m n (Lower.freshBlocks count) (Lower.freshBlocks count)
  | 0 => pure []
  | count + 1 => freshBlock.bind fun _ => (freshBlocks count).bind fun _ => pure _

theorem jump (target : Nat) : Alike m n (Lower.jump target) (Lower.jump target) := terminate _

theorem branch (condition : Ir.Value) (ifTrue ifFalse : Nat) :
    Alike m n (Lower.branch condition ifTrue ifFalse) (Lower.branch condition ifTrue ifFalse) :=
  terminate _

/-- An instruction that writes a new register. -/
theorem assignNew (ty : Ir.Ty) (i : Ir.Register → Ir.Instr) : Alike m n (do
    let dest ← Lower.freshRegister ty
    Lower.emit (i dest)
    return Ir.Value.reg dest) (do
    let dest ← Lower.freshRegister ty
    Lower.emit (i dest)
    return Ir.Value.reg dest) :=
  (freshRegister ty).bind fun _ => (emit _).bind fun _ => pure _

theorem alloca (ty : Ir.Ty) : Alike m n (Lower.alloca ty) (Lower.alloca ty) :=
  (freshRegister _).bind fun _ => (slot _).bind fun _ => pure _

theorem load (ptr : Ir.Value) (ty : Ir.Ty) :
    Alike m n (Lower.load ptr ty) (Lower.load ptr ty) := assignNew _ _

theorem store (value ptr : Ir.Value) :
    Alike m n (Lower.store value ptr) (Lower.store value ptr) := emit _

theorem binary (op : Ir.BinaryOp) (l r : Ir.Value) :
    Alike m n (Lower.binary op l r) (Lower.binary op l r) := assignNew _ _

theorem compare (op : Ir.CompareOp) (l r : Ir.Value) :
    Alike m n (Lower.compare op l r) (Lower.compare op l r) :=
  assignNew _ _

theorem cast (op : Ir.CastOp) (v : Ir.Value) (ty : Ir.Ty) :
    Alike m n (Lower.cast op v ty) (Lower.cast op v ty) :=
  assignNew _ _

theorem element (base : Ir.Ty) (ptr : Ir.Value) (indices : List Ir.Value) :
    Alike m n (Lower.element base ptr indices) (Lower.element base ptr indices) := assignNew _ _

theorem phi (ty : Ir.Ty) (incoming : List (Ir.Value × Nat)) :
    Alike m n (Lower.phi ty incoming) (Lower.phi ty incoming) :=
  assignNew _ _

theorem call (ret : Ir.Ty) (callee : Ir.Callee) (args : List Ir.Value)
    (fixed? : Option (List Ir.Ty)) :
    Alike m n (Lower.call ret callee args fixed?) (Lower.call ret callee args fixed?) :=
  .ite ((emit _).bind fun _ => pure _) (assignNew _ _)

theorem callOutside (name : String) (ret : Ir.Ty) (params : List Ir.Ty) (args : List Ir.Value) :
    Alike m n (Lower.callOutside name ret params args) (Lower.callOutside name ret params args) :=
  (declare _ _ _ _).bind fun _ => call _ _ _ _

theorem bindValue (name : String) (ty : Ty) (ir : Ir.Ty) (value : Ir.Value) :
    Alike m n (Lower.bindValue name ty ir value) (Lower.bindValue name ty ir value) :=
  (alloca ir).bind fun _ => (store _ _).bind fun _ => (bindName _ _).bind fun _ => pure _

theorem loadFrom (l : Location) :
    Alike m n (Lower.loadFrom l) (Lower.loadFrom l) := (load _ _).bind fun _ => pure _

theorem callInit : Alike m n Lower.callInit Lower.callInit :=
  (looking (·.hasInit) fun _ => rfl).bind fun _ =>
    .ite ((call _ _ _ _).bind fun _ => pure _) (pure _)

theorem bindParams (h : Head) : Alike m n (Lower.bindParams h) (Lower.bindParams h) :=
  forM _ fun _ => (bindValue _ _ _ _).bind fun _ => pure _

theorem bindReceiver (env : Env) (receiver? : Option String) :
    Alike m n (Lower.bindReceiver env receiver?) (Lower.bindReceiver env receiver?) := by
  unfold Lower.bindReceiver
  split
  · exact (bindValue _ _ _ _).bind fun _ => pure _
  · exact pure _

/-! ## Conversions and operators -/

theorem truth (v : Ir.Value) : Alike m n (Lower.truth v) (Lower.truth v) := by
  unfold Lower.truth
  split
  · exact pure _
  · exact compare _ _ _

theorem convert (v : Ir.Value) (target : Ir.Ty) :
    Alike m n (Lower.convert v target) (Lower.convert v target) := by
  refine .ite (pure _) (.ite (truth v) ?_)
  split
  · exact pure _
  · split
    · exact cast _ _ _
    · exact pure _

theorem promote (o : Operand) : Alike m n (Lower.promote o) (Lower.promote o) := by
  unfold Lower.promote
  split
  · exact convert _ _
  · exact convert _ _
  · exact convert _ _
  · exact convert _ _
  · exact pure _

theorem unify (left right : Operand) :
    Alike m n (Lower.unify left right) (Lower.unify left right) :=
  .ite (pure _) ((convert _ _).bind fun _ => (convert _ _).bind fun _ => pure _)

theorem comparison (op : InfixOp) (left right : Operand) :
    Alike m n (Lower.comparison op left right) (Lower.comparison op left right) :=
  .ite ((callOutside _ _ _ _).bind fun _ => compare _ _ _)
    ((unify left right).bind fun _ => compare _ _ _)

theorem infix_ (op : InfixOp) (left right : Operand) :
    Alike m n (Lower.infix_ op left right) (Lower.infix_ op left right) := by
  refine .ite ((comparison _ _ _).bind fun _ => pure _) (.ite ?_ (.ite ?_ ?_))
  · exact (truth _).bind fun _ => (truth _).bind fun _ => (binary _ _ _).bind fun _ => pure _
  · exact (callOutside _ _ _ _).bind fun _ => pure _
  · exact (unify left right).bind fun _ => (binary _ _ _).bind fun _ => pure _

theorem prefixed (op : PrefixOp) (operand : Operand) :
    Alike m n (Lower.prefixed op operand) (Lower.prefixed op operand) := by
  unfold Lower.prefixed
  split
  · refine (truth _).bind fun _ => ?_
    split
    · exact pure _
    · exact (binary _ _ _).bind fun _ => pure _
  · split
    · exact pure _
    · exact pure _
    · exact (binary _ _ _).bind fun _ => pure _
  · exact (binary _ _ _).bind fun _ => pure _

theorem step (op : PostfixOp) (l : Location) : Alike m n (Lower.step op l) (Lower.step op l) :=
  (load _ _).bind fun _ => (binary _ _ _).bind fun _ => (store _ _).bind fun _ => pure _

theorem assign (l : Location) (v : Ir.Value) : Alike m n (Lower.assign l v) (Lower.assign l v) :=
  (convert _ _).bind fun _ => (store _ _).bind fun _ => pure _

theorem define (name : String) (declared? : Option Ty) (value? : Option Operand) :
    Alike m n (Lower.define name declared? value?) (Lower.define name declared? value?) := by
  cases value? with
  | some o =>
    cases declared? <;>
      exact (alloca _).bind fun _ => (convert _ _).bind fun _ => (store _ _).bind fun _ =>
        (bindName _ _).bind fun _ => pure _
  | none =>
    cases declared? <;>
      exact (alloca _).bind fun _ => (pure _).bind fun _ => (store _ _).bind fun _ =>
        (bindName _ _).bind fun _ => pure _

/-! ## Objects, arrays and maps -/

theorem malloc (size : Ir.Value) :
    Alike m n (Lower.malloc size) (Lower.malloc size) := callOutside _ _ _ _

theorem arrayElement (array : Ir.Value) (ir : Ir.Ty) (index : Ir.Value) :
    Alike m n (Lower.arrayElement array ir index) (Lower.arrayElement array ir index) :=
  (element _ _ _).bind fun _ => element _ _ _

theorem arrayLength (array : Ir.Value) :
    Alike m n (Lower.arrayLength array) (Lower.arrayLength array) :=
  (load _ _).bind fun _ => cast _ _ _

theorem elementLocation (object key : Operand) :
    Alike m n (Lower.elementLocation object key) (Lower.elementLocation object key) := by
  unfold Lower.elementLocation
  split
  · exact (convert _ _).bind fun _ => (alloca _).bind fun _ => (store _ _).bind fun _ =>
      (callOutside _ _ _ _).bind fun _ => pure _
  · exact (arrayElement _ _ _).bind fun _ => pure _
  · exact .ite ((element _ _ _).bind fun _ => pure _) ((arrayElement _ _ _).bind fun _ => pure _)

theorem fillArray (array : Ir.Value) (ir : Ir.Ty) (index : Nat) (es : List Operand) :
    Alike m n (Lower.fillArray array ir index es) (Lower.fillArray array ir index es) := by
  induction es generalizing index with
  | nil => exact pure _
  | cons e es ih =>
    exact (convert _ _).bind fun _ => (arrayElement _ _ _).bind fun _ => (store _ _).bind fun _ => ih _

theorem newArray (elements : List Operand) :
    Alike m n (Lower.newArray elements) (Lower.newArray elements) :=
  (malloc _).bind fun _ => (store _ _).bind fun _ => (fillArray _ _ _ _).bind fun _ => pure _

theorem newMap (entries : List (Operand × Operand)) :
    Alike m n (Lower.newMap entries) (Lower.newMap entries) := by
  refine (callOutside _ _ _ _).bind fun _ => .bind (forM _ fun _ => ?_) fun _ => pure _
  exact (elementLocation _ _).bind fun _ => (assign _ _).bind fun _ => pure _

theorem structMember (cls : String) (object : Ir.Value) (index : Nat) :
    Alike m n (Lower.structMember cls object index) (Lower.structMember cls object index) :=
  element _ _ _

theorem fieldLocation (cls : String) (object : Ir.Value) (field : Nat × FieldSlot) :
    Alike m n (Lower.fieldLocation cls object field) (Lower.fieldLocation cls object field) :=
  (structMember _ _ _).bind fun _ => pure _

theorem classField? (cls name : String) :
    Alike m n (Lower.classField? cls name : m (Option (Nat × FieldSlot)))
      (Lower.classField? cls name : n (Option (Nat × FieldSlot))) :=
  looking (fun g => (g.layouts.find? cls).bind (·.field? name)) fun _ => rfl

theorem memberLocation (object : Operand) (field : Ident) :
    Alike m n (Lower.memberLocation object field) (Lower.memberLocation object field) := by
  unfold Lower.memberLocation
  split
  · refine (classField? _ _).bind fun f? => ?_
    split
    all_goals
      refine (pure _).bind fun found? => ?_
      cases found? with
      | some f => exact (fieldLocation _ _ _).bind fun _ => pure _
      | none => exact (report rfl _).bind fun _ => pure _
  · refine (pure _).bind fun found? => ?_
    cases found? with
    | some f => exact (fieldLocation _ _ _).bind fun _ => pure _
    | none => exact (report rfl _).bind fun _ => pure _

theorem ownField? (env : Env) (name : String) :
    Alike m n (Lower.ownField? env name : m (Option (Ir.Value × String × Nat × FieldSlot)))
      (Lower.ownField? env name : n (Option (Ir.Value × String × Nat × FieldSlot))) := by
  unfold Lower.ownField?
  split
  · exact looking (fun _ => none) fun _ => rfl
  next this cls _ =>
    exact looking (fun g => ((g.layouts.find? cls).bind (·.field? name)).map fun f =>
      (this, cls, f)) fun _ => rfl

theorem nameLocation (env : Env) (name : String) :
    Alike m n (Lower.nameLocation env name) (Lower.nameLocation env name) := by
  refine (lookup name).bind fun l? => ?_
  split
  · exact pure _
  · refine (ownField? env name).bind fun f? => ?_
    split
    · exact pure _
    · exact (fieldLocation _ _ _).bind fun _ => pure _

theorem function? (symbol : String) : Alike m n (Gen.function? symbol : m (Option Signature))
      (Gen.function? symbol : n (Option Signature)) :=
  looking (fun g => g.functions.find? symbol) fun _ => rfl

theorem layout? (cls : String) : Alike m n (Gen.layout? cls : m (Option Layout))
      (Gen.layout? cls : n (Option Layout)) :=
  looking (fun g => g.layouts.find? cls) fun _ => rfl

theorem hasLayout (cls : String) : Alike m n (Gen.hasLayout cls : m Bool)
      (Gen.hasLayout cls : n Bool) :=
  looking (fun g => g.layouts.contains cls) fun _ => rfl

theorem method? (cls method : String) :
    Alike m n (Gen.method? cls method : m (Option MethodEntry))
      (Gen.method? cls method : n (Option MethodEntry)) :=
  looking (fun g => (g.layouts.find? cls).bind (·.methods.find? method)) fun _ => rfl

theorem nameValue (env : Env) (name : Ident) :
    Alike m n (Lower.nameValue env name) (Lower.nameValue env name) := by
  refine (nameLocation env name.name).bind fun l? => ?_
  split
  · exact loadFrom _
  · refine (function? _).bind fun sig? => ?_
    split
    · exact pure _
    · exact (report rfl _).bind fun _ => pure _

theorem isPackage (env : Env) (name : String) :
    Alike m n (Lower.isPackage env name) (Lower.isPackage env name) := by
  refine (lookup name).bind fun _ => (function? _).bind fun _ => (hasLayout _).bind fun _ => ?_
  exact (ownField? env name).bind fun _ => pure _

theorem thisValue (env : Env) (span : Span) :
    Alike m n (Lower.thisValue env span) (Lower.thisValue env span) := by
  unfold Lower.thisValue
  split
  · exact pure _
  · exact (report rfl _).bind fun _ => pure _

theorem superValue (env : Env) (span : Span) :
    Alike m n (Lower.superValue env span) (Lower.superValue env span) := by
  refine (thisValue env span).bind fun _ => ?_
  split
  · refine (layout? _).bind fun _ => ?_
    split <;> exact pure _
  · exact pure _

theorem allocate (cls : String) : Alike m n (Lower.allocate cls) (Lower.allocate cls) :=
  (element _ _ _).bind fun _ => (cast _ _ _).bind fun _ => (malloc _).bind fun _ =>
    (structMember _ _ _).bind fun _ => (store _ _).bind fun _ => pure _

theorem vtableEntry (cls : String) (object : Ir.Value) (slot : Nat) :
    Alike m n (Lower.vtableEntry cls object slot) (Lower.vtableEntry cls object slot) :=
  (structMember _ _ _).bind fun _ => (load _ _).bind fun _ => (element _ _ _).bind fun _ => load _ _

/-! ## Calls -/

theorem convertArgs (types : List Ty) (args : List Operand) :
    Alike m n (Lower.convertArgs types args) (Lower.convertArgs types args) := by
  induction args generalizing types with
  | nil =>
    rw [Lower.convertArgs, Lower.convertArgs]
    exact pure _
  | cons o os ih =>
    cases types with
    | nil => exact (ih []).bind fun _ => pure _
    | cons t ts =>
      rw [Lower.convertArgs, Lower.convertArgs]
      split
      · exact (pure _).bind fun _ => (ih ts).bind fun _ => pure _
      · exact (convert _ _).bind fun _ => (ih ts).bind fun _ => pure _

theorem callWith (sig : Signature) (callee : Ir.Callee) (args : List Ir.Value) :
    Alike m n (Lower.callWith sig callee args) (Lower.callWith sig callee args) :=
  (call _ _ _ _).bind fun _ => pure _

theorem callMethod (receiver : Ir.Value) (cls method : String) (args : List Operand)
    (dynamic : Bool) (span : Span) :
    Alike m n (Lower.callMethod receiver cls method args dynamic span)
      (Lower.callMethod receiver cls method args dynamic span) := by
  refine (method? _ _).bind fun entry? => ?_
  split
  · exact (report rfl _).bind fun _ => pure _
  · refine (convertArgs _ _).bind fun _ => .ite (callWith _ _ _) ?_
    split
    · exact .ite ((vtableEntry _ _ _).bind fun _ => callWith _ _ _) (callWith _ _ _)
    · exact callWith _ _ _

theorem callSuper (env : Env) (method : String) (args : List Operand) (span : Span) :
    Alike m n (Lower.callSuper env method args span) (Lower.callSuper env method args span) := by
  unfold Lower.callSuper
  split
  · exact (report rfl _).bind fun _ => pure _
  · refine (layout? _).bind fun _ => ?_
    split
    · exact (report rfl _).bind fun _ => pure _
    · exact callMethod _ _ _ _ _ _

theorem callSymbol (symbol : String) (args : List Operand) (span : Span) :
    Alike m n (Lower.callSymbol symbol args span) (Lower.callSymbol symbol args span) := by
  refine (function? _).bind fun sig? => ?_
  split
  · exact (report rfl _).bind fun _ => pure _
  · exact (convertArgs _ _).bind fun _ => callWith _ _ _

theorem callPointer (callee : Operand) (args : List Operand) (span : Span) :
    Alike m n (Lower.callPointer callee args span) (Lower.callPointer callee args span) := by
  unfold Lower.callPointer
  dsimp only
  split
  · exact (convertArgs _ _).bind fun _ => callWith _ _ _
  · exact (report rfl _).bind fun _ => pure _

theorem callPrintf (args : List Ir.Value) :
    Alike m n (Lower.callPrintf args) (Lower.callPrintf args) :=
  (declare _ _ _ _).bind fun _ => (call _ _ _ _).bind fun _ => pure _

theorem callLength (args : List Operand) :
    Alike m n (Lower.callLength args) (Lower.callLength args) := by
  unfold Lower.callLength
  split
  · exact pure _
  · split
    · exact (arrayLength _).bind fun _ => pure _
    · exact (callOutside _ _ _ _).bind fun _ => pure _
    · exact .ite ((callOutside _ _ _ _).bind fun _ => (convert _ _).bind fun _ => pure _) (pure _)

theorem throwValue (o : Operand) : Alike m n (Lower.throwValue o) (Lower.throwValue o) :=
  (alloca _).bind fun _ => (store _ _).bind fun _ => (callOutside _ _ _ _).bind fun _ => terminate _

theorem callExit (args : List Operand) : Alike m n (Lower.callExit args) (Lower.callExit args) := by
  refine (declare _ _ _ _).bind fun _ => ?_
  split
  · exact (pure _).bind fun _ => (call _ _ _ _).bind fun _ => pure _
  · exact (convert _ _).bind fun _ => (call _ _ _ _).bind fun _ => pure _

theorem namedCallee (env : Env) (name : String) :
    Alike m n (Lower.namedCallee env name) (Lower.namedCallee env name) := by
  refine (lookup name).bind fun l? => ?_
  split
  · exact (loadFrom _).bind fun _ => pure _
  · refine (function? _).bind fun _ => .ite (pure _) ?_
    split
    · exact pure _
    · split
      · exact pure _
      · exact (method? _ _).bind fun _ => pure _

theorem qualifier (env : Env) (e : Expr) :
    Alike m n (Lower.qualifier env e) (Lower.qualifier env e) := by
  unfold Lower.qualifier
  split
  · refine (lookup _).bind fun _ => .ite (pure _) ((hasLayout _).bind fun _ => .ite (pure _) ?_)
    exact (isPackage env _).bind fun _ => .ite (pure _) (pure _)
  · exact pure _

section

variable [LawfulMonad m] [LawfulMonad n]

theorem callExternal (name : String) (ret : Ty) (args : List Operand) :
    Alike m n (Lower.callExternal name ret args) (Lower.callExternal name ret args) :=
  (mapM _ promote).bind fun _ => (declare _ _ _ _).bind fun _ => (call _ _ _ _).bind fun _ => pure _

theorem callPrint (args : List Operand) (line : Bool) :
    Alike m n (Lower.callPrint args line) (Lower.callPrint args line) :=
  (mapM _ promote).bind fun _ => (addString _).bind fun _ => callPrintf _

theorem callFormat (args : List Operand) :
    Alike m n (Lower.callFormat args) (Lower.callFormat args) := by
  unfold Lower.callFormat
  split
  · exact (addString _).bind fun _ => callPrintf _
  · exact (mapM _ promote).bind fun _ => callPrintf _

/-- A value is thrown, and the block after that is a new one. -/
theorem callPanic (args : List Operand) :
    Alike m n (Lower.callPanic args) (Lower.callPanic args) := by
  have hstart := (restart (m := m) (n := n) (t := .unreachable) nofun "panic.cont").bind fun _ =>
    pure Operand.void
  unfold Lower.callPanic Lower.throwValue
  simp only [bind_assoc] at hstart ⊢
  exact (alloca _).bind fun _ => (store _ _).bind fun _ => (callOutside _ _ _ _).bind fun _ => hstart

theorem callBuiltin (name : String) (args : List Operand) :
    Alike m n (Lower.callBuiltin name args) (Lower.callBuiltin name args) := by
  unfold Lower.callBuiltin
  split
  · exact callPrint _ _
  · exact callPrint _ _
  · exact callLength _
  · exact callLength _
  · exact callPanic _
  · exact pure _
  · exact callExternal _ _ _

theorem callPackage (package member : String) (args : List Operand) :
    Alike m n (Lower.callPackage package member args) (Lower.callPackage package member args) := by
  unfold Lower.callPackage
  split
  · exact callPrint _ _
  · exact callPrint _ _
  · exact callFormat _
  · exact callExit _
  · exact callExternal _ _ _

theorem callMember (object : Expr) (property : Ident) (receiver : Operand) (args : List Operand) :
    Alike m n (Lower.callMember object property receiver args)
      (Lower.callMember object property receiver args) := by
  unfold Lower.callMember
  split
  · refine (method? _ _).bind fun _ => (pure _).bind fun cls? => ?_
    cases cls? with
    | some cls => exact callMethod _ _ _ _ _ _
    | none => exact callExternal _ _ _
  · refine (pure _).bind fun cls? => ?_
    cases cls? with
    | some cls => exact callMethod _ _ _ _ _ _
    | none => exact callExternal _ _ _

end

/-! ## Parts of control flow -/

theorem returnValue (env : Env) (value? : Option Operand) :
    Alike m n (Lower.returnValue env value?) (Lower.returnValue env value?) := by
  refine .ite (pure _) (.ite (pure _) ?_)
  split
  · exact (convert _ _).bind fun _ => pure _
  · exact pure _

theorem freshBlockIf (wanted : Bool) (other : Nat) :
    Alike m n (Lower.freshBlockIf wanted other) (Lower.freshBlockIf wanted other) :=
  .ite freshBlock (pure _)

theorem usePersonality :
    Alike m n Lower.usePersonality Lower.usePersonality :=
  (declare _ _ _ _).bind fun _ => personality _

end Alike

end Lower

end ClassLang
