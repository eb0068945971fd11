import ClassLang.Proofs.Code.Plain
import ClassLang.Proofs.Evolution.Ambient

/-!
# Code that goes by a relation

Whatever adds code to a function keeps to a relation between states that is ambient, and leaves the
name of the function and the scopes as they are, except that names are bound in the innermost scope.
For plain code this is so since it is so for the basic steps. Control
flow is put together from parts, and functions may be declared in these, so the relation has a grade
then: the names of such functions.
-/

namespace ClassLang

/-- What stays when code is added at a cursor: the name of the function, and the scopes apart from what
is bound in the innermost one. -/
structure Cursor.Stays (c c' : Cursor) : Prop where
  name : c'.header.name = c.header.name
  depth : c'.scopes.length = c.scopes.length
  outer : c'.scopes.tail = c.scopes.tail

namespace Cursor.Stays

theorem refl (c : Cursor) : c.Stays c := ⟨rfl, rfl, rfl⟩

theorem trans {c c' c'' : Cursor} (h : c.Stays c') (h' : c'.Stays c'') : c.Stays c'' :=
  ⟨h'.name.trans h.name, h'.depth.trans h.depth, h'.outer.trans h.outer⟩

end Cursor.Stays

namespace Lower

/-- Code is added to a function: what happens to the state is in a relation, and the name of the
function and its scopes stay. -/
def Follows {α : Type} (R : GenState → GenState → Prop) (x : Lower α) : Prop :=
  ∀ (c : Cursor) (g : GenState), R g ((x.run c).run g).2 ∧ c.Stays ((x.run c).run g).1.2

namespace Follows

section

variable {α β : Type} {R : GenState → GenState → Prop} [GenState.Ambient R] {x : Lower α}
  {f : α → Lower β}

theorem pure (a : α) : Follows R (Pure.pure a) := fun c g => ⟨GenState.Ambient.refl g, .refl c⟩

theorem bind (hx : Follows R x) (hf : ∀ a, Follows R (f a)) : Follows R (x >>= f) := by
  intro c g
  have h := hx c g
  have h' := hf ((x.run c).run g).1.1 ((x.run c).run g).1.2 ((x.run c).run g).2
  exact ⟨GenState.Ambient.trans h.1 h'.1, h.2.trans h'.2⟩

omit [GenState.Ambient R] in
theorem map {h : α → β} (hx : Follows R x) : Follows R (h <$> x) := fun c g => hx c g

omit [GenState.Ambient R] in
theorem lift {y : Gen α} (hy : y.Follows R) : Follows R (liftM y) := fun c g => ⟨hy g, .refl c⟩

omit [GenState.Ambient R] in
/-- A step that only looks at the state. -/
theorem bind_state {f : GenState → Lower β} (hf : ∀ g, Follows R (f g)) :
    Follows R (getThe GenState >>= f) := fun c g => hf g c g

theorem of_modify {h : Cursor → Cursor} (hh : ∀ c : Cursor, c.Stays (h c)) :
    Follows R (modify h : Lower Unit) := fun c g => ⟨GenState.Ambient.refl g, hh c⟩

omit [GenState.Ambient R] in
theorem ite {c : Prop} [Decidable c] {y : Lower α} (hx : Follows R x) (hy : Follows R y) :
    Follows R (if c then x else y) := by
  split <;> assumption

theorem startBlock (id : Nat) (label : String) : Follows R (Lower.startBlock id label) :=
  of_modify fun _ => ⟨rfl, rfl, rfl⟩

theorem terminate (t : Ir.Terminator) : Follows R (Lower.terminate t) := by
  refine of_modify fun c => ?_
  unfold Cursor.terminate
  split
  · exact .refl c
  · exact ⟨rfl, rfl, rfl⟩

theorem site (env : Env) : Follows R (Lower.site env) :=
  fun c g => ⟨GenState.Ambient.refl g, .refl c⟩

/-- Plain code goes by any ambient relation. -/
theorem plain {α : Type} {x y : Lower α} (h : Alike Lower Lower x y) : Follows R x := by
  induction h with
  | pure a => exact pure a
  | bind _ _ ihx ihf => exact ihx.bind ihf
  | looking f h =>
    refine lift fun g => ?_
    rw [h g]
    exact GenState.Ambient.refl g
  | freshRegister | freshBlock => exact fun _ g => ⟨GenState.Ambient.refl g, rfl, rfl, rfl⟩
  | isTerminated | currentBlock | lookup => exact fun c g => ⟨GenState.Ambient.refl g, .refl c⟩
  | restart _ label =>
    refine (terminate _).bind fun _ => .bind ?_ fun id => startBlock id label
    exact fun _ g => ⟨GenState.Ambient.refl g, rfl, rfl, rfl⟩
  | emit | slot | personality => exact of_modify fun _ => ⟨rfl, rfl, rfl⟩
  | bindName name l =>
    rw [bind_eq_modify]
    refine of_modify fun c => ⟨rfl, List.length_modifyHead, ?_⟩
    cases c.scopes <;> rfl
  | terminate t => exact terminate t
  | report _ span => exact lift (.report _ span)
  | declare name ret params variadic => exact lift (.declare name ret params variadic)
  | addString bytes => exact lift (.addString bytes)

theorem report (cause : GenError.Cause) (span : Span) :
    Follows R (Gen.report cause span : Lower Unit) :=
  lift (Gen.Follows.report cause span)

theorem mark (env : Env) (span : Span) : Follows R (Lower.mark env span) := by
  unfold Lower.mark
  split
  · exact plain (.emit _)
  · exact pure _

theorem writtenInstance {env : Env} (ht : env.typing.Follows R) (name : Ident)
    (typeArgs : List TypeExpr) :
    Follows R (Lower.writtenInstance env name typeArgs : Lower (Option String)) :=
  lift ((Gen.Follows.resolveTypes _ ht).bind fun _ => ht _ _)

theorem instanceValue {env : Env} (ht : env.typing.Follows R) (name : Ident)
    (typeArgs : List TypeExpr) : Follows R (Lower.instanceValue env name typeArgs) := by
  refine (writtenInstance ht name typeArgs).bind fun symbol? => ?_
  split
  · exact pure _
  · exact (plain (.function? _)).bind fun _ => pure _

theorem callNamed {env : Env} (ht : env.typing.Follows R) (n : Ident) (callee : NamedCallee)
    (args : List Operand) : Follows R (Lower.callNamed env n callee args) := by
  unfold Lower.callNamed
  split
  · exact plain (.callPointer _ _ _)
  · exact plain (.callSymbol _ _ _)
  · refine .bind (lift (ht n _)) fun symbol? => ?_
    split
    · exact pure _
    · exact plain (.callSymbol _ _ _)
  · exact plain (.callMethod _ _ _ _ _ _)
  · exact plain (.callBuiltin _ _)

theorem recordCopy (k : Copy) : Follows R (Gen.recordCopy k : Lower Unit) :=
  lift (Gen.Follows.recordCopy k)

theorem visit (env : Env) (s : Stmt) : Follows R (Lower.visit env s) :=
  lift (Gen.Follows.recordVisit _)

theorem bindCaught {env : Env} (ht : env.typing.Follows R) (param? : Option Ident)
    (type? : Option TypeExpr) : Follows R (Lower.bindCaught env param? type?) := by
  unfold Lower.bindCaught
  split
  · exact pure _
  · refine .bind (lift (Gen.Follows.resolveOptional _ _ (.inl ht))) fun _ => ?_
    exact (plain (.bindValue _ _ _ _)).bind fun _ => pure _

end

end Follows

end Lower

/-! ## Control flow -/

/-- Relations between states that are graded by lists of names. They go on from one state to the
next, and what is in the relation for some names is in it for more of them. -/
class GenState.Graded (R : List String → GenState → GenState → Prop) : Prop where
  ambient : GenState.Ambient (R [])
  append : ∀ {L M : List String} {g g' g'' : GenState},
    R L g g' → R M g' g'' → R (L ++ M) g g''
  mono : ∀ {L M : List String} {g g' : GenState},
    (∀ n, L.count n ≤ M.count n) → R L g g' → R M g g'

attribute [instance] GenState.Graded.ambient

namespace Gen.Follows

variable {α β : Type} {R : List String → GenState → GenState → Prop} [GenState.Graded R]
  {L M : List String} {x : Gen α} {f : α → Gen β}

theorem append (hx : Follows (R L) x) (hf : ∀ a, Follows (R M) (f a)) :
    Follows (R (L ++ M)) (x >>= f) := fun g => GenState.Graded.append (hx g) (hf _ _)

theorem mono (hx : Follows (R L) x) (h : ∀ n, L.count n ≤ M.count n) : Follows (R M) x :=
  fun g => GenState.Graded.mono h (hx g)

theorem any (hx : Follows (R []) x) : Follows (R L) x := hx.mono fun _ => Nat.zero_le _

theorem andThen (hx : Follows (R []) x) (hf : ∀ a, Follows (R L) (f a)) :
    Follows (R L) (x >>= f) := hx.append hf

theorem after (hx : Follows (R L) x) (hf : ∀ a, Follows (R []) (f a)) :
    Follows (R L) (x >>= f) := by
  rw [← List.append_nil L]
  exact hx.append hf

/-- Each element has its own names. -/
theorem flatMap {f : α → Gen Unit} {names : α → List String} (l : List α)
    (h : ∀ a ∈ l, Follows (R (names a)) (f a)) : Follows (R (l.flatMap names)) (l.forM f) := by
  induction l with
  | nil => exact any (pure ())
  | cons a l ih =>
    rw [List.flatMap_cons]
    have hl := ih fun b hb => h b (List.mem_cons_of_mem a hb)
    exact (h a List.mem_cons_self).append fun _ => hl

end Gen.Follows

namespace Lower.Follows

variable {α β : Type} {R : List String → GenState → GenState → Prop} [GenState.Graded R]
  {L M N K : List String} {x : Lower α} {f : α → Lower β}

theorem append (hx : Follows (R L) x) (hf : ∀ a, Follows (R M) (f a)) :
    Follows (R (L ++ M)) (x >>= f) := by
  intro c g
  have h := hx c g
  have h' := hf ((x.run c).run g).1.1 ((x.run c).run g).1.2 ((x.run c).run g).2
  exact ⟨GenState.Graded.append h.1 h'.1, h.2.trans h'.2⟩

theorem mono (hx : Follows (R L) x) (h : ∀ n, L.count n ≤ M.count n) : Follows (R M) x :=
  fun c g => ⟨GenState.Graded.mono h (hx c g).1, (hx c g).2⟩

/-- Where no function is declared, any names may stand. -/
theorem any (hx : Follows (R []) x) : Follows (R L) x := hx.mono fun _ => Nat.zero_le _

theorem onLeft (hx : Follows (R L) x) : Follows (R (L ++ M)) x := by
  refine hx.mono fun n => ?_
  rw [List.count_append]
  exact Nat.le_add_right _ _

theorem onRight (hx : Follows (R M) x) : Follows (R (L ++ M)) x := by
  refine hx.mono fun n => ?_
  rw [List.count_append]
  exact Nat.le_add_left _ _

theorem swap (hx : Follows (R (L ++ M)) x) : Follows (R (M ++ L)) x :=
  hx.mono fun n => Nat.le_of_eq (List.perm_append_comm.count_eq n)

/-- No function is declared at first. -/
theorem andThen (hx : Follows (R []) x) (hf : ∀ a, Follows (R L) (f a)) :
    Follows (R L) (x >>= f) := hx.append hf

/-- Plain code comes first. -/
theorem first (hx : Plain x) (hf : ∀ a, Follows (R L) (f a)) : Follows (R L) (x >>= f) :=
  andThen (plain hx) hf

/-- No function is declared any more. -/
theorem after (hx : Follows (R L) x) (hf : ∀ a, Follows (R []) (f a)) :
    Follows (R L) (x >>= f) := by
  rw [← List.append_nil L]
  exact hx.append hf

/-- What is said of code that may be left out. -/
def All (R : GenState → GenState → Prop) (act? : Option (Lower α)) : Prop :=
  ∀ act, act? = some act → Follows R act

omit [GenState.Graded R] in
/-- A scope of its own is gone afterwards, with all that is bound in it. -/
theorem inScope {act : Lower Unit} (h : Follows (R L) act) : Follows (R L) (Lower.inScope act) := by
  intro c g
  obtain ⟨hr, hname, -, houter⟩ := h { c with scopes := {} :: c.scopes } g
  exact ⟨hr, hname, congrArg List.length houter, congrArg List.tail houter⟩

theorem arm {act : Lower Unit} (h : Follows (R L) act) (id : Nat) (label : String) (exit : Nat) :
    Follows (R L) (Lower.arm id label exit act) :=
  .andThen (startBlock _ _) fun _ => h.after fun _ => plain (.jump _)

theorem arm? {act? : Option (Lower Unit)} (h : All (R L) act?) (id : Nat) (label : String)
    (exit : Nat) : Follows (R L) (Lower.arm? id label exit act?) := by
  cases act? with
  | some act => exact arm (h act rfl) _ _ _
  | none => exact .any (pure _)

theorem condition {value : Lower Operand} (h : Follows (R L) value) :
    Follows (R L) (Lower.condition value) :=
  h.after fun _ => plain (.truth _)

theorem logical (isAnd : Bool) {left right : Lower Operand} (hl : Follows (R L) left)
    (hr : Follows (R M) right) : Follows (R (L ++ M)) (Lower.logical isAnd left right) := by
  refine (condition hl).append fun _ => .first .currentBlock fun _ => .first .freshBlock fun _ => ?_
  refine .first .freshBlock fun _ => .first (.branch _ _ _) fun _ => ?_
  refine .andThen (startBlock _ _) fun _ => (condition hr).after fun _ => ?_
  refine .first .currentBlock fun _ => .first (.jump _) fun _ => ?_
  exact .andThen (startBlock _ _) fun _ => .first (.phi _ _) fun _ => pure _

theorem ifElse {test : Lower Operand} {consequence : Lower Unit} {alternative? : Option (Lower Unit)}
    (ht : Follows (R L) test) (hc : Follows (R M) consequence) (ha : All (R N) alternative?) :
    Follows (R (L ++ (M ++ N))) (Lower.ifElse test consequence alternative?) := by
  refine (condition ht).append fun _ => .first .freshBlock fun _ => .first .freshBlock fun _ => ?_
  refine .first (.freshBlockIf _ _) fun _ => .first (.branch _ _ _) fun _ => ?_
  exact (arm hc _ _ _).append fun _ => (arm? ha _ _ _).after fun _ => startBlock _ _

theorem whileLoop (env : Env) {test : Lower Operand} {body : Env → Lower Unit}
    (ht : Follows (R L) test)
    (hb : ∀ exit header, Follows (R M) (body (env.inLoop exit header))) :
    Follows (R (L ++ M)) (Lower.whileLoop env test body) := by
  refine .first .freshBlock fun _ => .first .freshBlock fun _ => .first .freshBlock fun _ => ?_
  refine .first (.jump _) fun _ => .andThen (startBlock _ _) fun _ => (condition ht).append fun _ => ?_
  exact .first (.branch _ _ _) fun _ => (arm (hb _ _) _ _ _).after fun _ => startBlock _ _

theorem perhaps {act? : Option (Lower Unit)} (h : All (R L) act?) :
    Follows (R L) (Lower.perhaps act?) := by
  cases act? with
  | some act => exact h act rfl
  | none => exact .any (pure _)

theorem loopTest (body exit : Nat) {test? : Option (Lower Operand)} (h : All (R L) test?) :
    Follows (R L) (Lower.loopTest body exit test?) := by
  cases test? with
  | some test => exact (condition (h test rfl)).after fun _ => plain (.branch _ _ _)
  | none => exact .any (plain (.jump _))

theorem forLoop (env : Env) {init? post? : Option (Lower Unit)} {test? : Option (Lower Operand)}
    {body : Env → Lower Unit} (hinit : All (R L) init?) (htest : All (R M) test?)
    (hpost : All (R K) post?) (hbody : ∀ exit post, Follows (R N) (body (env.inLoop exit post))) :
    Follows (R (L ++ (M ++ (N ++ K)))) (Lower.forLoop env init? test? post? body) := by
  refine inScope ((perhaps hinit).append fun _ => .first .freshBlock fun _ => ?_)
  refine .first .freshBlock fun _ => .first .freshBlock fun _ => .first .freshBlock fun _ => ?_
  refine .first (.jump _) fun _ => .andThen (startBlock _ _) fun _ => ?_
  refine (loopTest _ _ htest).append fun _ => (arm (hbody _ _) _ _ _).append fun _ => ?_
  exact (arm (perhaps hpost) _ _ _).after fun _ => startBlock _ _

theorem caseTest (tag? : Option Operand) (target : Nat) {value : Lower Operand}
    (h : Follows (R L) value) : Follows (R L) (Lower.caseTest tag? target value) := by
  have hrest : ∀ c : Ir.Value, Follows (R []) (do
      let next ← Lower.freshBlock
      Lower.branch c target next
      Lower.startBlock next "switch.test") := fun _ =>
    .first .freshBlock fun _ => .first (.branch _ _ _) fun _ => startBlock _ _
  refine h.after fun _ => ?_
  split
  · exact .first (.comparison _ _ _) hrest
  · exact .first (.truth _) hrest

theorem switch (env : Env) {tag? : Lower (Option Operand)} (count : Nat)
    {tests : Option Operand → List Nat → Lower Unit} {bodies : Env → Nat → List Nat → Lower Unit}
    {default? : Option (Env → Lower Unit)} (htag : Follows (R L) tag?)
    (htests : ∀ tag? blocks, Follows (R M) (tests tag? blocks))
    (hbodies : ∀ exit blocks, Follows (R N) (bodies (env.inSwitch exit) exit blocks))
    (hdefault : ∀ body, default? = some body → ∀ exit, Follows (R K) (body (env.inSwitch exit))) :
    Follows (R (L ++ (M ++ (N ++ K)))) (Lower.switch env tag? count tests bodies default?) := by
  refine htag.append fun _ => .first .freshBlock fun _ => .first (.freshBlocks _) fun _ => ?_
  refine .first (.freshBlockIf _ _) fun _ => (htests _ _).append fun _ => .first (.jump _) fun _ => ?_
  refine (hbodies _ _).append fun _ => ?_
  refine (arm? (fun act hact => ?_) _ _ _).after fun _ => startBlock _ _
  obtain ⟨body, hbody, rfl⟩ := Option.map_eq_some_iff.1 hact
  exact hdefault body hbody _

theorem clause {env : Env} (ht : env.typing.Follows (R [])) (param? : Option Ident)
    (type? : Option TypeExpr) {body : Lower Unit} (h : Follows (R L) body) :
    Follows (R L) (Lower.clause env param? type? body) :=
  inScope (.andThen (bindCaught ht param? type?) fun _ => h)

theorem tryCatch (env : Env) (finally? : Option Block) {body : Env → Lower Unit} (count : Nat)
    {clauses : Env → Nat → List Nat → Lower Unit} {final? : Option (Lower Unit)}
    (hbody : ∀ site, Follows (R L) (body (env.inTry ⟨finally?, site⟩)))
    (hclauses : ∀ site exit handlers,
      Follows (R M) (clauses (env.inTry ⟨finally?, site⟩) exit handlers))
    (hfinal : All (R N) final?) :
    Follows (R (L ++ (M ++ N))) (Lower.tryCatch env finally? body count clauses final?) := by
  have hafter : ∀ exit done t, Follows (R N) (Lower.arm? exit "try.finally" done
      (final?.map (fallThrough env t))) := by
    refine fun exit done t => arm? (fun act hact => ?_) _ _ _
    obtain ⟨final, hfinal', rfl⟩ := Option.map_eq_some_iff.1 hact
    exact .andThen (site env) fun _ => .andThen (recordCopy _) fun _ => hfinal final hfinal'
  refine .first .usePersonality fun _ => .andThen (site env) fun _ => .first .freshBlock fun _ => ?_
  refine .first .freshBlock fun _ => .first (.freshBlocks _) fun _ => ?_
  refine .ite (.andThen (.map (plain .freshBlock)) ?rest) (.andThen (pure none) ?rest)
  refine fun _ => .first .freshBlock fun _ => .first .freshBlock fun _ => .first (.jump _) fun _ => ?_
  refine (arm (hbody _) _ _ _).append fun _ => .andThen (startBlock _ _) fun _ => ?_
  refine .first (.emit _) fun _ => .first (.jump _) fun _ => (hclauses _ _ _).append fun _ => ?_
  refine (hafter _ _ _).after fun _ => .andThen (startBlock _ _) fun _ => ?_
  exact .first (.terminate _) fun _ => startBlock _ _

end Lower.Follows

end ClassLang
