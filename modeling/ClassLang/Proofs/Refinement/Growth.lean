import ClassLang.Proofs.Draft.Basic

/-!
# What code generation leaves in place

Code that has been generated stays: blocks only grow until they are ended, and slots and registers
are only added. `Lower.Ensures` speaks of the cursor alone, whatever the state outside of the
function. `Lower.Adds` holds of everything that computes a value: it goes on from an open block,
leaves one open, and does not touch the scopes.
-/

namespace ClassLang

namespace Cursor

variable {c c' c'' : Cursor}

def IsOpen (c : Cursor) : Prop := c.current.isTerminated = false

/-- The cursor at the beginning of a new block. -/
def start (c : Cursor) (id : Nat) (label : String) : Cursor :=
  { c with before := c.before ++ [c.current], current := { id, label? := some label } }

@[simp] theorem scopes_terminate (c : Cursor) (t : Ir.Terminator) :
    (c.terminate t).scopes = c.scopes := by
  unfold terminate
  split <;> rfl

/-- A cursor and what has become of it. -/
structure Grows (c c' : Cursor) : Prop where
  blocks : ∀ b ∈ c.blocks, ∃ b' ∈ c'.blocks, b.Grows b'
  slots : c.slots <+: c'.slots
  nextRegister : c.nextRegister ≤ c'.nextRegister

namespace Grows

theorem refl (c : Cursor) : c.Grows c :=
  ⟨fun b hb => ⟨b, hb, .refl b⟩, List.prefix_refl _, Nat.le_refl _⟩

theorem trans (h : c.Grows c') (h' : c'.Grows c'') : c.Grows c'' := by
  refine ⟨fun b hb => ?_, h.slots.trans h'.slots, Nat.le_trans h.nextRegister h'.nextRegister⟩
  obtain ⟨b', hb', hg⟩ := h.blocks b hb
  obtain ⟨b'', hb'', hg'⟩ := h'.blocks b' hb'
  exact ⟨b'', hb'', hg.trans hg'⟩

/-- Only the block at hand has changed. -/
theorem of_current (hbefore : c'.before = c.before) (hcurrent : c.current.Grows c'.current)
    (hslots : c.slots <+: c'.slots) (hnext : c.nextRegister ≤ c'.nextRegister) : c.Grows c' := by
  refine ⟨fun b hb => ?_, hslots, hnext⟩
  rw [Cursor.blocks, hbefore]
  rcases List.mem_append.1 hb with hb | hb
  · exact ⟨b, List.mem_append_left _ hb, .refl b⟩
  · rw [List.mem_singleton.1 hb]
    exact ⟨_, List.mem_append_right _ (List.mem_singleton_self _), hcurrent⟩

theorem push (h : c.IsOpen) (i : Ir.Instr) : c.Grows (c.push i) :=
  of_current rfl (.push h) (List.prefix_refl _) (Nat.le_refl _)

theorem terminate (c : Cursor) (t : Ir.Terminator) : c.Grows (c.terminate t) := by
  unfold Cursor.terminate
  split
  · exact refl c
  next h =>
    have h : c.current.isTerminated = false := by simpa using h
    refine of_current rfl ?_ (List.prefix_refl _) (Nat.le_refl _)
    show c.current.Grows (c.current.terminate t)
    rw [Ir.Block.terminate, h]
    exact .close h

theorem start (c : Cursor) (id : Nat) (label : String) : c.Grows (c.start id label) :=
  ⟨fun b hb => ⟨b, List.mem_append_left _ hb, .refl b⟩, List.prefix_refl _, Nat.le_refl _⟩

theorem freshBlock (c : Cursor) {n : Nat} : c.Grows { c with nextBlock := n } :=
  of_current rfl (.refl _) (List.prefix_refl _) (Nat.le_refl _)

theorem withScopes (c : Cursor) (ss : List (Table Location)) : c.Grows { c with scopes := ss } :=
  of_current rfl (.refl _) (List.prefix_refl _) (Nat.le_refl _)

end Grows

/-- What has become of a cursor, and the scopes are as they were. -/
structure Keeps (c c' : Cursor) : Prop extends c.Grows c' where
  scopes : c'.scopes = c.scopes

namespace Keeps

theorem refl (c : Cursor) : c.Keeps c := ⟨.refl c, rfl⟩

theorem trans (h : c.Keeps c') (h' : c'.Keeps c'') : c.Keeps c'' :=
  ⟨h.toGrows.trans h'.toGrows, h'.scopes.trans h.scopes⟩

theorem terminate (c : Cursor) (t : Ir.Terminator) : c.Keeps (c.terminate t) :=
  ⟨.terminate c t, c.scopes_terminate t⟩

theorem start (c : Cursor) (id : Nat) (label : String) : c.Keeps (c.start id label) :=
  ⟨.start c id label, rfl⟩

theorem freshBlock (c : Cursor) {n : Nat} : c.Keeps { c with nextBlock := n } :=
  ⟨.freshBlock c, rfl⟩

end Keeps

/-- Code has been added at the end of a block, and the scopes are as they were. -/
structure Extends (c c' : Cursor) : Prop extends c.Keeps c' where
  isOpen : c'.IsOpen

theorem Extends.trans (h : c.Extends c') (h' : c'.Extends c'') : c.Extends c'' :=
  ⟨h.toKeeps.trans h'.toKeeps, h'.isOpen⟩

theorem Extends.refl (h : c.IsOpen) : c.Extends c := ⟨.refl c, h⟩

/-- Code has been added at the end of a block, and the scopes around the innermost one are as they
were. -/
structure Proceeds (c c' : Cursor) : Prop extends c.Grows c' where
  isOpen : c'.IsOpen
  outer : c'.scopes.tail = c.scopes.tail

theorem Proceeds.trans (h : c.Proceeds c') (h' : c'.Proceeds c'') : c.Proceeds c'' :=
  ⟨h.toGrows.trans h'.toGrows, h'.isOpen, h'.outer.trans h.outer⟩

theorem Extends.proceeds (h : c.Extends c') : c.Proceeds c' :=
  ⟨h.toGrows, h.isOpen, by rw [h.scopes]⟩

end Cursor

namespace Lower

variable {α β : Type} {x : Lower α} {f : α → Lower β} {c : Cursor} {Q R : α → Cursor → Prop}

/-- Run at a cursor, `x` gives a result and gets to a cursor such that `Q`. -/
def Ensures (x : Lower α) (c : Cursor) (Q : α → Cursor → Prop) : Prop :=
  ∀ g : GenState, Q ((x.run c).run g).1.1 ((x.run c).run g).1.2

namespace Ensures

theorem mono (h : Ensures x c Q) (hQ : ∀ a c', Q a c' → R a c') : Ensures x c R :=
  fun g => hQ _ _ (h g)

theorem and (h : Ensures x c Q) (h' : Ensures x c R) : Ensures x c fun a c' => Q a c' ∧ R a c' :=
  fun g => ⟨h g, h' g⟩

theorem pure {a : α} (h : Q a c) : Ensures (Pure.pure a) c Q := fun _ => h

theorem bind {S : β → Cursor → Prop} (h : Ensures x c fun a c' => Ensures (f a) c' S) :
    Ensures (x >>= f) c S :=
  fun g => h g _

theorem lift {y : Gen α} (h : ∀ a, Q a c) : Ensures (liftM y) c Q := fun _ => h _

variable {S : β → Cursor → Prop}

theorem bind_currentBlock {f : Nat → Lower β} (h : Ensures (f c.current.id) c S) :
    Ensures (currentBlock >>= f) c S := h

theorem bind_isTerminated {f : Bool → Lower β} (h : Ensures (f c.current.isTerminated) c S) :
    Ensures (isTerminated >>= f) c S := h

theorem bind_visit {rest : Lower β} (h : Ensures rest c S) (env : Env) (s : Stmt) : Ensures (do
    visit env s
    rest) c S := fun _ => h _

theorem bind_freshBlock {f : Nat → Lower β}
    (h : Ensures (f c.nextBlock) { c with nextBlock := c.nextBlock + 1 } S) :
    Ensures (freshBlock >>= f) c S := h

/-- A block that may be wanted. -/
theorem bind_freshBlockIf {f : Nat → Lower β} {wanted : Bool} {other : Nat}
    (h : ∀ id n, (wanted = false → id = other) → Ensures (f id) { c with nextBlock := n } S) :
    Ensures (freshBlockIf wanted other >>= f) c S := by
  cases wanted with
  | true => exact bind_freshBlock (h _ _ fun h => nomatch h)
  | false => exact h other c.nextBlock fun _ => rfl

theorem bind_terminate {f : Unit → Lower β} {t : Ir.Terminator}
    (h : Ensures (f ()) (c.terminate t) S) : Ensures (terminate t >>= f) c S := h

theorem bind_startBlock {f : Unit → Lower β} {id : Nat} {label : String}
    (h : Ensures (f ()) (c.start id label) S) : Ensures (startBlock id label >>= f) c S := h

end Ensures

/-- The code of `x` extends an open block. -/
def Adds (x : Lower α) : Prop := ∀ c, c.IsOpen → Ensures x c fun _ c' => c.Extends c'

namespace Adds

theorem pure (a : α) : Adds (Pure.pure a : Lower α) := fun _ hc => .pure (.refl hc)

theorem bind (hx : Adds x) (hf : ∀ a, Adds (f a)) : Adds (x >>= f) := by
  refine fun c hc => .bind ((hx c hc).mono fun a c' h => ?_)
  exact (hf a c' h.isOpen).mono fun _ _ h' => h.trans h'

theorem map {h : α → β} (hx : Adds x) : Adds (h <$> x) := by
  rw [map_eq_pure_bind]
  exact hx.bind fun a => pure (h a)

theorem lift (y : Gen α) : Adds (liftM y) := fun _ hc => .lift fun _ => .refl hc

/-- Code that reads something and goes on. -/
theorem bind_read {γ : Type} {y : Lower γ} {f : γ → Lower α}
    (hy : ∀ c, Ensures y c fun _ c' => c' = c) (hf : ∀ a, Adds (f a)) : Adds (y >>= f) := by
  refine fun c hc => .bind ((hy c).mono ?_)
  rintro a _ rfl
  exact hf a _ hc

/-! ## Instructions -/

theorem emit (i : Ir.Instr) : Adds (Lower.emit i) := fun _ hc _ => ⟨⟨.push hc i, rfl⟩, hc⟩

theorem freshRegister (ty : Ir.Ty) : Adds (Lower.freshRegister ty) :=
  fun _ hc _ => ⟨⟨.of_current rfl (.refl _) (List.prefix_refl _) (Nat.le_succ _), rfl⟩, hc⟩

theorem alloca (ty : Ir.Ty) : Adds (Lower.alloca ty) :=
  fun _ hc _ => ⟨⟨.of_current rfl (.refl _) (List.prefix_append _ _) (Nat.le_succ _), rfl⟩, hc⟩

/-- An instruction that writes a new register. -/
theorem assign (ty : Ir.Ty) (i : Ir.Register → Ir.Instr) :
    Adds (do
      let dest ← Lower.freshRegister ty
      Lower.emit (i dest)
      return Ir.Value.reg dest) :=
  (freshRegister ty).bind fun dest => (emit (i dest)).bind fun _ => pure _

variable (v w : Ir.Value)

theorem load (ty : Ir.Ty) : Adds (Lower.load v ty) := assign ty fun d => .load d v

theorem store : Adds (Lower.store v w) := emit _

theorem binary (op : Ir.BinaryOp) : Adds (Lower.binary op v w) :=
  assign v.ty fun d => .binary d op v w

theorem compare (op : Ir.CompareOp) : Adds (Lower.compare op v w) :=
  assign .i1 fun d => .compare d op v w

theorem cast (op : Ir.CastOp) (target : Ir.Ty) : Adds (Lower.cast op v target) :=
  assign target fun d => .cast d op v

theorem element (base : Ir.Ty) (indices : List Ir.Value) : Adds (Lower.element base v indices) :=
  assign .ptr fun d => .element d base v indices

theorem call (ret : Ir.Ty) (callee : Ir.Callee) (args : List Ir.Value)
    (fixed? : Option (List Ir.Ty)) : Adds (Lower.call ret callee args fixed?) := by
  unfold Lower.call
  split
  · exact (emit _).bind fun _ => pure _
  · exact assign ret fun d => .call (some d) ret callee args fixed?

theorem callOutside (name : String) (ret : Ir.Ty) (params : List Ir.Ty) (args : List Ir.Value) :
    Adds (Lower.callOutside name ret params args) :=
  (lift _).bind fun _ => call ret (.function name) args none

theorem mark (env : Env) (span : Span) : Adds (Lower.mark env span) := by
  unfold Lower.mark
  split
  · exact emit _
  · exact pure ()

/-! ## Operators -/

theorem truth : Adds (Lower.truth v) := by
  unfold Lower.truth
  split
  · exact pure _
  · exact compare v _ .ne

theorem convert (target : Ir.Ty) : Adds (Lower.convert v target) := by
  unfold Lower.convert
  split
  · exact pure _
  · split
    · exact truth v
    · split
      · exact pure _
      · split
        · exact cast v _ target
        · exact pure _

variable (left right : Operand)

theorem unify : Adds (Lower.unify left right) := by
  unfold Lower.unify
  split
  · exact pure _
  · exact (convert _ _).bind fun _ => (convert _ _).bind fun _ => pure _

theorem comparison (op : InfixOp) : Adds (Lower.comparison op left right) := by
  unfold Lower.comparison
  split
  · exact (callOutside _ _ _ _).bind fun _ => compare _ _ _
  · exact (unify left right).bind fun _ => compare _ _ _

theorem infix_ (op : InfixOp) : Adds (Lower.infix_ op left right) := by
  unfold Lower.infix_
  split
  · exact (comparison left right op).bind fun _ => pure _
  · split
    · exact (truth _).bind fun _ => (truth _).bind fun _ => (binary _ _ _).bind fun _ => pure _
    · split
      · exact (callOutside _ _ _ _).bind fun _ => pure _
      · exact (unify left right).bind fun _ => (binary _ _ _).bind fun _ => pure _

theorem prefixed (op : PrefixOp) (o : Operand) : Adds (Lower.prefixed op o) := by
  unfold Lower.prefixed
  split
  · refine (truth _).bind fun _ => ?_
    split
    · exact pure _
    · exact (binary _ _ _).bind fun _ => pure _
  · split
    · exact pure _
    · exact pure _
    · exact (binary _ _ _).bind fun _ => pure _
  · exact (binary _ _ _).bind fun _ => pure _

theorem step (op : PostfixOp) (l : Location) : Adds (Lower.step op l) :=
  (load _ _).bind fun _ => (binary _ _ _).bind fun _ => (store _ _).bind fun _ => pure _

theorem assignTo (l : Location) : Adds (Lower.assign l v) :=
  (convert v l.ir).bind fun _ => (store _ _).bind fun _ => pure _

theorem loadFrom (l : Location) : Adds (Lower.loadFrom l) := (load l.ptr l.ir).bind fun _ => pure _

/-! ## Names -/

theorem lookup (name : String) : Adds (Lower.lookup name) := fun _ hc _ => .refl hc

theorem ownLocation (env : Env) (name : String) : Adds (Lower.ownLocation env name) := by
  refine (lift (Lower.ownField? env name)).bind fun f? => ?_
  split
  · exact pure _
  · exact ((element _ _ _).bind fun _ => pure _).bind fun _ => pure _

theorem nameLocation (env : Env) (name : String) : Adds (Lower.nameLocation env name) := by
  refine (lookup name).bind fun l? => ?_
  split
  · exact pure _
  · exact ownLocation env name

theorem nameValue (env : Env) (n : Ident) : Adds (Lower.nameValue env n) := by
  refine (nameLocation env n.name).bind fun l? => ?_
  split
  · exact loadFrom _
  · refine (lift (Gen.function? n.name)).bind fun sig? => ?_
    split
    · exact pure _
    · exact (lift (Gen.report _ _)).bind fun _ => pure _

/-! ## Branches -/

theorem condition {value : Lower Operand} (h : Adds value) : Adds (Lower.condition value) :=
  h.bind fun o => truth o.value

theorem freshBlock : Adds Lower.freshBlock := fun c hc _ => ⟨.freshBlock c, hc⟩

/-- Code that goes on in a new block after the one at hand is ended. -/
theorem endBlock (t : Ir.Terminator) (id : Nat) (label : String) (hx : Adds x) :
    Adds (do
      Lower.terminate t
      Lower.startBlock id label
      x) := by
  have hend : Adds (do
      Lower.terminate t
      Lower.startBlock id label) := by
    exact fun c _ _ => ⟨.trans (.terminate c t) (.start _ id label), rfl⟩
  exact hend.bind fun _ => hx

theorem logical (isAnd : Bool) {left right : Lower Operand} (hl : Adds left) (hr : Adds right) :
    Adds (Lower.logical isAnd left right) := by
  refine hl.condition.bind fun l => bind_read (fun _ _ => rfl) fun leftEnd => ?_
  refine freshBlock.bind fun rest => freshBlock.bind fun merge => endBlock _ rest _ ?_
  refine hr.condition.bind fun r => bind_read (fun _ _ => rfl) fun rightEnd => endBlock _ merge _ ?_
  exact (assign .i1 fun d => .phi d _).bind fun _ => pure _

end Adds

end Lower

end ClassLang
