import ClassLang.Gen.Program
import ClassLang.Proofs.Evolution.Code
import ClassLang.Proofs.Names.Inner

/-!
# The walk over bodies

By induction on trees, generating code for them goes by a graded relation, with the names of the
functions that are declared in the tree as the grade. `Lower.Walk` says what is asked of the relation.
Code from elsewhere, which is taken up in detours, may be generated any number of times; so nothing
that counts is declared in it. The depth to which detours are nested is the measure of another
induction.
-/

namespace ClassLang

/-- The environment belongs to a catalog, and the final blocks of the try statements around it are
such that they may be generated again. -/
structure Env.Fits (env : Env) (c : Catalog) (idle : List String → Prop) : Prop where
  catalog : env.catalog = c
  tries : ∀ t ∈ env.tries, ∀ b, t.finally? = some b → idle b.inner

/-- The first values of the fields are such that they may be generated again and again. -/
def GenState.IdleFields (g : GenState) (idle : List String → Prop) : Prop :=
  ∀ name l, g.layouts.find? name = some l → ∀ f ∈ l.fields, ∀ e, f.default? = some e → idle e.inner

namespace Lower

/-- The name of a lambda. -/
def lambdaName (number : Nat) : String := s!"__lambda_{number}"

/-- What is asked of a graded relation so that code generation goes by it. The names in a tree have to
be `good`, and those in code that is taken up in detours `idle`. -/
structure Walk (c : Catalog) (R : List String → GenState → GenState → Prop)
    (good idle : List String → Prop) : Prop where
  typing : ∀ bindings, (Gen.typing c bindings).Follows (R [])
  /-- The name of a lambda is not among those that are declared. -/
  lambda : ∀ {L : List String} {g g' : GenState},
    R (lambdaName g.lambdas :: L) { g with lambdas := g.lambdas + 1 } g' → R L g g'
  /-- A function gets its signature before its body is generated. -/
  inner : ∀ {L : List String} {g g' : GenState} {f : Ir.Function} (sig : Signature)
    (edits : List Edit), R L { g with functions := g.functions.insert f.name sig } g' →
      R (f.name :: L) g { g' with
        module := g'.module.addFunction f, edits := g'.edits ++ [edits] }
  /-- A function that was declared before. -/
  function : ∀ {L : List String} {g g' : GenState} (f : Ir.Function) (edits : List Edit),
    R L g g' → R (f.name :: L) g { g' with
      module := g'.module.addFunction f, edits := g'.edits ++ [edits] }
  fields : ∀ {L : List String} {g g' : GenState}, (g.IdleFields idle → R L g g') → R L g g'
  sublist : ∀ {L M : List String}, M.Sublist L → good L → good M
  once : ∀ {L : List String}, idle L → good L
  twice : ∀ {L : List String}, good (L ++ L) → idle L
  nothing : ∀ {L : List String} {g g' : GenState}, idle L → R L g g' → R [] g g'

/-- The ways to code from elsewhere. They leave the function and its scopes alone in any case. -/
structure Detour.Fits (detour : Detour) (c : Catalog) (R : GenState → GenState → Prop)
    (idle : List String → Prop) : Prop where
  expr : ∀ env e, env.Fits c idle → idle e.inner → Follows R (detour.expr env e)
  block : ∀ env b, env.Fits c idle → idle b.inner → Follows R (detour.block env b)
  stays : ∀ env e, Follows (fun _ _ => True) (detour.expr env e)

/-- All that the walk over a tree depends on. -/
structure Setting (c : Catalog) (R : List String → GenState → GenState → Prop)
    (good idle : List String → Prop) (detour : Detour) (env : Env) : Prop where
  walk : Walk c R good idle
  detours : detour.Fits c (R []) idle
  fits : env.Fits c idle

namespace Setting

variable {c : Catalog} {R : List String → GenState → GenState → Prop}
  {good idle : List String → Prop} {detour : Detour} {env : Env} {L M : List String}

theorem left (h : Setting c R good idle detour env) (hL : good (L ++ M)) : good L :=
  h.walk.sublist (List.sublist_append_left L M) hL

theorem right (h : Setting c R good idle detour env) (hM : good (L ++ M)) : good M :=
  h.walk.sublist (List.sublist_append_right L M) hM

theorem inLoop (h : Setting c R good idle detour env) (breakTo continueTo : Nat) :
    Setting c R good idle detour (env.inLoop breakTo continueTo) :=
  ⟨h.walk, h.detours, h.fits.catalog, h.fits.tries⟩

theorem inSwitch (h : Setting c R good idle detour env) (breakTo : Nat) :
    Setting c R good idle detour (env.inSwitch breakTo) :=
  ⟨h.walk, h.detours, h.fits.catalog, h.fits.tries⟩

theorem inTry (h : Setting c R good idle detour env) {finally? : Option Block}
    (hfinal : ∀ b, finally? = some b → idle b.inner) (site : Site) :
    Setting c R good idle detour (env.inTry ⟨finally?, site⟩) :=
  ⟨h.walk, h.detours, h.fits.catalog, List.forall_mem_cons.2 ⟨hfinal, h.fits.tries⟩⟩

/-- The environment of a function's body. -/
theorem head (h : Setting c R good idle detour env) (head : Head) :
    Setting c R good idle detour (head.env env) :=
  ⟨h.walk, h.detours, h.fits.catalog, fun _ ht => nomatch ht⟩

theorem typing (h : Setting c R good idle detour env) : env.typing.Follows (R []) := by
  rw [Env.typing, h.fits.catalog]
  exact h.walk.typing env.bindings

end Setting

end Lower

/-- Any relation that always holds is ambient. -/
instance : GenState.Ambient fun _ _ => True := by
  constructor <;> intros <;> trivial

namespace Lower.Follows

open Ir (Value)

section

variable {R : GenState → GenState → Prop} [GenState.Ambient R] {env : Env} {detour : Detour}

theorem newClass (ht : env.typing.Follows R) (type : TypeExpr) :
    Follows R (Lower.newClass env type) := by
  have hrest : ∀ cls? : Option String, Follows R (do
      if cls?.isNone then Gen.report (.notAClass type.text) type.span
      return cls?) := fun cls? =>
    .ite ((report _ _).bind fun _ => pure _) ((pure _).bind fun _ => pure _)
  refine .bind (lift (Gen.Follows.resolveType type (.inl ht))) fun ty => ?_
  split
  · exact (plain (.hasLayout _)).bind fun _ => (pure _).bind hrest
  · exact (pure _).bind hrest

theorem initFields (cls : String) (object : Value) (index : Nat) (fs : List FieldSlot)
    (hfs : ∀ f ∈ fs, ∀ e, f.default? = some e → Follows R (detour.expr env e)) :
    Follows R (Lower.initFields detour env cls object index fs) := by
  induction fs generalizing index with
  | nil => exact pure _
  | cons f fs ih =>
    have hrest : ∀ v : Value, Follows R (do
        let ptr ← Lower.structMember cls object index
        Lower.store v ptr
        Lower.initFields detour env cls object (index + 1) fs) := fun _ =>
      (plain (.structMember _ _ _)).bind fun _ => (plain (.store _ _)).bind fun _ =>
        ih _ fun f hf => hfs f (List.mem_cons_of_mem _ hf)
    rw [Lower.initFields]
    split
    next e he => exact (hfs f List.mem_cons_self e he).bind fun _ => (plain (.convert _ _)).bind hrest
    next => exact (pure _).bind hrest

theorem badTarget (e : Expr) : Follows R (Lower.badTarget e : Lower Unit) := report _ _

theorem declaredType (ht : env.typing.Follows R) (type? : Option TypeExpr) :
    Follows R (Lower.declaredType env type? : Lower (Option Ty)) := by
  cases type? with
  | some t => exact (lift (Gen.Follows.resolveType t (.inl ht))).map
  | none => exact pure _

end

variable {c : Catalog} {R : List String → GenState → GenState → Prop} [GenState.Graded R]
  {good idle : List String → Prop} {detour : Detour} {env : Env} {L : List String}

/-- Making an object looks up the fields at the point where it is made. -/
theorem newObject (h : Setting c R good idle detour env) (cls : String) (args : List Operand)
    (span : Span) : Follows (R []) (Lower.newObject detour env cls args span) := by
  have hrest : ∀ {S : GenState → GenState → Prop} [GenState.Ambient S] (object : Value)
      (fields : List FieldSlot),
      (∀ f ∈ fields, ∀ e, f.default? = some e → Follows S (detour.expr env e)) → Follows S (do
        Lower.initFields detour env cls object 1 fields
        if (← Gen.method? cls "constructor").isSome then
          let _ ← Lower.callMethod object cls "constructor" args false span
        return (⟨object, .class_ cls⟩ : Operand)) := by
    intro S _ object fields hfields
    refine (initFields _ _ _ _ hfields).bind fun _ => (plain (.method? _ _)).bind fun _ => .ite ?_ ?_
    · exact (plain (.callMethod _ _ _ _ _ _)).bind fun _ => pure _
    · exact pure _
  refine .bind (plain (.allocate cls)) fun object cursor g => ⟨h.walk.fields fun hg => ?_, ?_⟩
  · have hcode := hrest (S := R []) object (((g.layouts.find? cls).map Layout.fields).getD []) ?_
    · exact (hcode cursor g).1
    · intro f hf e he
      cases hl : g.layouts.find? cls with
      | none =>
        rw [hl] at hf
        cases hf
      | some l =>
        rw [hl] at hf
        exact h.detours.expr env e h.fits (hg cls l hl f hf e he)
  · have hcode := hrest (S := fun _ _ => True) object
      (((g.layouts.find? cls).map Layout.fields).getD []) fun f _ e _ => h.detours.stays env e
    exact (hcode cursor g).2

theorem whole {outer : Env} {h : Head} {body : Env → Lower Unit}
    (hbody : Follows (R L) (body (h.env outer))) : Follows (R L) (Lower.whole outer h body) :=
  .first (.bindParams h) fun _ => hbody.after fun _ => plain (.terminate _)

/-- A function inside of another one: it is declared, and generated at once. -/
theorem inner {α : Type} (h : Setting c R good idle detour env) (symbol : String)
    (params : List Param) (ret? : Option TypeExpr) (span : Span) {body : Env → Lower Unit}
    (hbody : ∀ env, Setting c R good idle detour env → Follows (R L) (body env))
    {f : Signature → Lower α} (hf : ∀ sig, Follows (R []) (f sig)) : Follows (R (symbol :: L)) (do
      let sig ← Lower.declareInner env symbol params ret?
      Lower.function env (.ofSignature symbol params sig span none) body
      f sig) := by
  intro cursor g
  let x := Gen.writtenSignature env.typing params ret?
  let sig := (x.run g).1
  let head : Head := .ofSignature symbol params sig span none
  let g₁ := (x.run g).2
  let g₂ : GenState := { g₁ with functions := g₁.functions.insert symbol sig }
  let r := ((Lower.whole env head body).run (head.cursor env.catalog.file?)).run g₂
  have h₁ : R [] g g₁ := Gen.Follows.writtenSignature params ret? (.inl h.typing) g
  obtain ⟨h₂, hstays⟩ := whole (hbody _ (h.head head)) (head.cursor env.catalog.file?) g₂
  have hname : r.1.2.finish.name = symbol := hstays.name
  have h₃ := @Walk.inner c R good idle h.walk L g₁ r.2 r.1.2.finish sig r.1.2.edits
  rw [hname] at h₃
  have h₄ := hf sig cursor { r.2 with
    module := r.2.module.addFunction r.1.2.finish, edits := r.2.edits ++ [r.1.2.edits] }
  refine ⟨?_, h₄.2⟩
  have hall := GenState.Graded.append h₁ (GenState.Graded.append (h₃ h₂) h₄.1)
  rwa [List.nil_append, List.append_nil] at hall

theorem lambda (h : Setting c R good idle detour env) (params : List Param)
    (ret? : Option TypeExpr) (span : Span) {body : Env → Lower Unit}
    (hbody : ∀ env, Setting c R good idle detour env → Follows (R L) (body env)) : Follows (R L) (do
      let symbol ← (Lower.freshLambda : Lower String)
      let sig ← Lower.declareInner env symbol params ret?
      Lower.function env (.ofSignature symbol params sig span none) body
      return (⟨.global symbol, sig.toTy⟩ : Operand)) := by
  intro cursor g
  let value (sig : Signature) : Operand := ⟨.global (lambdaName g.lambdas), sig.toTy⟩
  have hinner := inner h (lambdaName g.lambdas) params ret? span hbody
    (f := fun sig => Pure.pure (value sig)) (fun _ => pure _) cursor
    { g with lambdas := g.lambdas + 1 }
  exact ⟨h.walk.lambda hinner.1, hinner.2⟩

/-! ## Leaving try statements -/

theorem runFinally (h : Setting c R good idle detour env) (count : Nat) (tries : List Try)
    (htries : ∀ t ∈ tries, ∀ b, t.finally? = some b → idle b.inner) :
    Follows (R []) (Lower.runFinally detour env count tries) := by
  induction tries generalizing count with
  | nil => cases count <;> exact pure _
  | cons t outer ih =>
    obtain ⟨ht, houter⟩ := List.forall_mem_cons.1 htries
    cases count with
    | zero => exact pure _
    | succ count =>
      rw [Lower.runFinally]
      split
      next => exact ih count houter
      next b hb =>
        refine .bind (site env) fun _ => .bind (recordCopy _) fun _ => ?_
        refine .bind (h.detours.block _ b ⟨h.fits.catalog, houter⟩ (ht b hb)) fun _ => ?_
        exact .bind (plain .isTerminated) fun _ => .ite (ih count houter) (pure _)

theorem leaveTries (h : Setting c R good idle detour env) (depth : Nat) :
    Follows (R []) (Lower.leaveTries detour env depth) :=
  runFinally h _ _ h.fits.tries

theorem leaveFunction (h : Setting c R good idle detour env) (value? : Option Operand) :
    Follows (R []) (Lower.leaveFunction detour env value?) :=
  .bind (plain (.returnValue _ _)) fun _ => .bind (leaveTries h _) fun _ => plain (.terminate _)

theorem leaveLoop (h : Setting c R good idle detour env) (span : Span) :
    Follows (R []) (Lower.leaveLoop detour env span) := by
  unfold Lower.leaveLoop
  split
  · exact report _ _
  · exact .bind (leaveTries h _) fun _ => plain (.jump _)

theorem continueLoop (h : Setting c R good idle detour env) (span : Span) :
    Follows (R []) (Lower.continueLoop detour env span) := by
  unfold Lower.continueLoop
  split
  · exact report _ _
  · exact .bind (leaveTries h _) fun _ => plain (.jump _)

/-! ## Trees -/

set_option linter.unusedSectionVars false in
mutual

theorem expr {env : Env} (h : Setting c R good idle detour env) :
    (e : Expr) → good e.inner → Follows (R e.inner) (Lower.expr detour env e)
  | .ident n, _ => by
    rw [Lower.expr, Expr.inner]
    exact plain (.nameValue env n)
  | .int .., _ | .float .., _ | .char .., _ | .bool .., _ | .null .., _ => by
    rw [Lower.expr, Expr.inner]
    exact pure _
  | .string .., _ => by
    rw [Lower.expr, Expr.inner]
    exact .bind (plain (.addString _)) fun _ => pure _
  | .prefixed op right _, he => by
    rw [Expr.inner] at he ⊢
    rw [Lower.expr]
    exact (expr h right he).after fun _ => plain (.prefixed op _)
  | .binary op left right _, he => by
    rw [Expr.inner] at he ⊢
    have hl := expr h left (h.left he)
    have hr := expr h right (h.right he)
    rw [Lower.expr]
    exact .ite (logical _ hl hr) (hl.append fun _ => hr.after fun _ => plain (.infix_ _ _ _))
  | .postfixed op operand _, he => by
    rw [Expr.inner] at he ⊢
    rw [Lower.expr]
    refine (location h operand he).after fun l? => ?_
    split
    · exact plain (.step _ _)
    · exact pure _
  | .assign .define target value _, he => by
    rw [Expr.inner] at he ⊢
    have hvalue := expr h value (h.right he)
    refine onRight ?_
    by_cases hname : ∃ n, target = .ident n
    · obtain ⟨n, rfl⟩ := hname
      rw [Lower.expr]
      exact hvalue.after fun _ => .bind (plain (.define _ _ _)) fun _ => plain (.loadFrom _)
    · rw [Lower.expr]
      · exact hvalue.after fun _ => .bind (badTarget _) fun _ => pure _
      · exact fun n hn => hname ⟨n, hn⟩
  | .assign .assign target value _, he => by
    rw [Expr.inner] at he ⊢
    refine swap ?_
    rw [Lower.expr]
    refine (expr h value (h.right he)).append fun _ => ?_
    refine (location h target (h.left he)).after fun l? => ?_
    split
    · exact plain (.assign _ _)
    · exact pure _
  | .assign (.compound op) target value _, he => by
    rw [Expr.inner] at he ⊢
    rw [Lower.expr]
    refine (location h target (h.left he)).append fun l? => ?_
    split
    · exact .any (pure _)
    · refine .first (.loadFrom _) fun _ => (expr h value (h.right he)).after fun _ => ?_
      exact .bind (plain (.infix_ _ _ _)) fun _ => plain (.assign _ _)
  | .call function args span, he => by
    rw [Expr.inner] at he ⊢
    have hargs := exprs h args (h.right he)
    have hfunction := expr h function (h.left he)
    cases function with
    | ident n =>
      rw [Lower.expr, Expr.inner]
      exact .first (.namedCallee env n.name) fun _ =>
        hargs.after fun _ => callNamed h.typing _ _ _
    | member object property arrow _ =>
      rw [Expr.inner] at he ⊢
      have hobject := expr h object (h.left he)
      by_cases hsuper : ∃ s, object = .super s
      · obtain ⟨s, rfl⟩ := hsuper
        rw [Lower.expr, Expr.inner]
        exact hargs.after fun _ => plain (.callSuper _ _ _ _)
      · rw [Lower.expr]
        · refine .first (.qualifier env object) fun _ => ?_
          split
          · exact onRight (hargs.after fun _ => plain (.callMethod _ _ _ _ _ _))
          · exact onRight (hargs.after fun _ => plain (.callPackage _ _ _))
          · exact hobject.append fun _ => hargs.after fun _ => plain (.callMember _ _ _ _)
        · exact fun s hs => hsuper ⟨s, hs⟩
    | super s =>
      rw [Lower.expr, Expr.inner]
      exact hargs.after fun _ => plain (.callSuper _ _ _ _)
    | templateInstance n typeArgs _ =>
      rw [Lower.expr, Expr.inner]
      refine .andThen (writtenInstance h.typing n typeArgs) fun symbol? => ?_
      split
      · exact .any (pure _)
      · exact hargs.after fun _ => plain (.callSymbol _ _ _)
    | _ =>
      rw [Lower.expr]
      · exact hfunction.append fun _ => hargs.after fun _ => plain (.callPointer _ _ _)
      all_goals simp
  | .index object key _, he => by
    rw [Expr.inner] at he ⊢
    rw [Lower.expr]
    refine (expr h object (h.left he)).append fun _ => ?_
    refine (expr h key (h.right he)).after fun _ => ?_
    exact .bind (plain (.elementLocation _ _)) fun _ => plain (.loadFrom _)
  | .member object property _ _, he => by
    rw [Expr.inner] at he ⊢
    rw [Lower.expr]
    refine .first (.qualifier env object) fun _ => ?_
    split
    · exact .any (.bind (report _ _) fun _ => pure _)
    · refine (expr h object he).after fun _ => .bind (plain (.memberLocation _ _)) fun l? => ?_
      split
      · exact plain (.loadFrom _)
      · exact pure _
  | .array elements _, he => by
    rw [Expr.inner] at he ⊢
    rw [Lower.expr]
    exact (exprs h elements he).after fun _ => plain (.newArray _)
  | .hash pairs _, he => by
    rw [Expr.inner] at he ⊢
    rw [Lower.expr]
    exact (entries h pairs he).after fun _ => plain (.newMap _)
  | .lambda params ret? body span, he => by
    rw [Expr.inner] at he ⊢
    rw [Lower.expr]
    exact lambda h params ret? span fun env h => entry h none body he
  | .new type args span, he => by
    rw [Expr.inner] at he ⊢
    rw [Lower.expr]
    refine .andThen (newClass h.typing type) fun cls? => ?_
    split
    · exact .any (pure _)
    · exact (exprs h args he).after fun _ => newObject h _ _ _
  | .this span, _ => by
    rw [Lower.expr, Expr.inner]
    exact plain (.thisValue env span)
  | .super span, _ => by
    rw [Lower.expr, Expr.inner]
    exact plain (.superValue env span)
  | .templateInstance n typeArgs _, _ => by
    rw [Lower.expr, Expr.inner]
    exact instanceValue h.typing n typeArgs

theorem exprs {env : Env} (h : Setting c R good idle detour env) :
    (es : List Expr) → good (Expr.innerAll es) →
      Follows (R (Expr.innerAll es)) (Lower.exprs detour env es)
  | [], _ => by
    rw [Lower.exprs, Expr.innerAll]
    exact pure _
  | e :: es, hes => by
    rw [Expr.innerAll] at hes ⊢
    rw [Lower.exprs]
    refine (expr h e (h.left hes)).append fun _ => ?_
    exact (exprs h es (h.right hes)).after fun _ => pure _

theorem entries {env : Env} (h : Setting c R good idle detour env) :
    (es : List Entry) → good (Entry.innerAll es) →
      Follows (R (Entry.innerAll es)) (Lower.entries detour env es)
  | [], _ => by
    rw [Lower.entries, Entry.innerAll]
    exact pure _
  | ⟨key, value⟩ :: es, hes => by
    rw [Entry.innerAll] at hes ⊢
    rw [List.append_assoc, Lower.entries]
    refine (expr h key (h.left (h.left hes))).append fun _ => ?_
    refine (expr h value (h.right (h.left hes))).append fun _ => ?_
    exact (entries h es (h.right hes)).after fun _ => pure _

theorem location {env : Env} (h : Setting c R good idle detour env) :
    (e : Expr) → good e.inner → Follows (R e.inner) (Lower.location detour env e)
  | .ident n, _ => by
    rw [Lower.location, Expr.inner]
    refine .bind (plain (.nameLocation env n.name)) fun l? => ?_
    split
    · exact pure _
    · exact .bind (report _ _) fun _ => pure _
  | .member object property _ _, he => by
    rw [Expr.inner] at he ⊢
    rw [Lower.location]
    exact (expr h object he).after fun _ => plain (.memberLocation _ _)
  | .index object key _, he => by
    rw [Expr.inner] at he ⊢
    rw [Lower.location]
    refine (expr h object (h.left he)).append fun _ => ?_
    refine (expr h key (h.right he)).after fun _ => ?_
    exact .bind (plain (.elementLocation _ _)) fun _ => pure _
  | .int .., _ | .float .., _ | .string .., _ | .char .., _ | .bool .., _ | .null _, _
  | .prefixed .., _ | .binary .., _ | .postfixed .., _ | .assign .., _ | .call .., _ | .array .., _
  | .hash .., _ | .lambda .., _ | .new .., _ | .this _, _ | .super _, _ | .templateInstance .., _ => by
    rw [Lower.location]
    · exact .any (.bind (badTarget _) fun _ => pure _)
    all_goals simp

theorem entry {env : Env} (h : Setting c R good idle detour env) (receiver? : Option String) :
    (b : Block) → good b.inner → Follows (R b.inner) (Lower.entry detour env receiver? b)
  | ⟨body, _⟩, hb => by
    rw [Block.inner] at hb ⊢
    have hbody := inScope (stmts h body hb)
    rw [Lower.entry]
    exact .first (.bindReceiver env receiver?) fun _ =>
      .ite (.first .callInit fun _ => hbody) hbody

theorem block {env : Env} (h : Setting c R good idle detour env) :
    (b : Block) → good b.inner → Follows (R b.inner) (Lower.block detour env b)
  | ⟨body, _⟩, hb => by
    rw [Block.inner] at hb ⊢
    rw [Lower.block]
    exact inScope (stmts h body hb)

theorem stmts {env : Env} (h : Setting c R good idle detour env) :
    (ss : List Stmt) → good (Stmt.innerAll ss) →
      Follows (R (Stmt.innerAll ss)) (Lower.stmts detour env ss)
  | [], _ => by
    rw [Lower.stmts, Stmt.innerAll]
    exact pure _
  | s :: ss, hss => by
    rw [Stmt.innerAll] at hss ⊢
    have hs := stmt h s (h.left hss)
    have hrest := stmts h ss (h.right hss)
    rw [Lower.stmts]
    refine .first .isTerminated fun _ => .ite ?_ (.any (pure _))
    exact .andThen (visit env s) fun _ => hs.append fun _ => hrest

theorem stmt {env : Env} (h : Setting c R good idle detour env) :
    (s : Stmt) → good s.inner → Follows (R s.inner) (Lower.stmt detour env s)
  | .package _ span, _ | .imports _ span, _ | .interface _ _ span, _ | .template _ _ span, _ => by
    rw [Lower.stmt, Stmt.inner]
    exact mark env span
  | .class_ d, _ => by
    rw [Lower.stmt, Stmt.inner]
    exact mark env d.span
  | .method m, _ => by
    rw [Lower.stmt, Stmt.inner]
    exact mark env m.span
  | .var name type? value? span, hs => by
    rw [Stmt.inner] at hs ⊢
    rw [Lower.stmt]
    refine .andThen (mark env span) fun _ => .andThen (declaredType h.typing type?) fun _ => ?_
    exact (exprIf h value? hs).after fun _ => .bind (plain (.define _ _ _)) fun _ => pure _
  | .const name type? value span, hs => by
    rw [Stmt.inner] at hs ⊢
    rw [Lower.stmt]
    refine .andThen (mark env span) fun _ => .andThen (declaredType h.typing type?) fun _ => ?_
    exact (expr h value hs).after fun _ => .bind (plain (.define _ _ _)) fun _ => pure _
  | .ret value? span, hs => by
    rw [Stmt.inner] at hs ⊢
    rw [Lower.stmt]
    refine .andThen (mark env span) fun _ => (exprIf h value? hs).after fun _ => ?_
    exact leaveFunction h _
  | .expr e, hs => by
    rw [Stmt.inner] at hs ⊢
    rw [Lower.stmt]
    exact .andThen (mark env e.span) fun _ => (expr h e hs).after fun _ => pure _
  | .block b, hs => by
    rw [Stmt.inner] at hs ⊢
    rw [Lower.stmt]
    exact .andThen (mark env b.span) fun _ => block h b hs
  | .ifElse condition consequence alternative? span, hs => by
    rw [Stmt.inner] at hs ⊢
    rw [Lower.stmt]
    exact .andThen (mark env span) fun _ => ifElse (expr h condition (h.left hs))
      (block h consequence (h.left (h.right hs)))
      (stmtIf h alternative? (h.right (h.right hs)))
  | .whileLoop condition body span, hs => by
    rw [Stmt.inner] at hs ⊢
    rw [Lower.stmt]
    exact .andThen (mark env span) fun _ => whileLoop env (expr h condition (h.left hs))
      fun _ _ => block (h.inLoop _ _) body (h.right hs)
  | .forLoop init? condition? post? body span, hs => by
    rw [Stmt.inner] at hs ⊢
    have hrest := h.right (h.right hs)
    rw [Lower.stmt]
    exact .andThen (mark env span) fun _ => forLoop env (stmtIf h init? (h.left hs))
      (testIf h condition? (h.left (h.right hs))) (stmtIf h post? (h.right hrest))
      fun _ _ => block (h.inLoop _ _) body (h.left hrest)
  | .switch tag? cases default? span, hs => by
    rw [Stmt.inner] at hs ⊢
    have hrest := h.right (h.right hs)
    rw [Lower.stmt]
    exact .andThen (mark env span) fun _ => switch env cases.length
      (exprIf h tag? (h.left hs))
      (fun tag? blocks => tests h tag? cases (h.left (h.right hs)) blocks)
      (fun exit blocks => caseBodies (h.inSwitch exit) exit cases (h.left hrest) blocks)
      (fun body hbody exit => blockIf (h.inSwitch exit) default? (h.right hrest) body hbody)
  | .break_ span, _ => by
    rw [Lower.stmt, Stmt.inner]
    exact .bind (mark env span) fun _ => leaveLoop h span
  | .continue_ span, _ => by
    rw [Lower.stmt, Stmt.inner]
    exact .bind (mark env span) fun _ => continueLoop h span
  | .function ⟨name, params, ret?, body, _, span⟩, hs => by
    rw [Stmt.inner] at hs ⊢
    have hbody : ∀ env, Setting c R good idle detour env →
        Follows (R body.inner) (Lower.entry detour env none body) :=
      fun env h => entry h none body (h.right (L := [name.name]) hs)
    have hinner := inner h name.name params ret? span hbody (f := fun _ => Pure.pure ())
      fun _ => pure ()
    rw [Lower.stmt]
    exact .andThen (mark env span) fun _ => hinner
  | .tryCatch body catches finally? span, hs => by
    rw [Stmt.inner] at hs ⊢
    have hparts := h.left hs
    have hfinal : ∀ b, finally? = some b → idle b.inner := by
      rintro b rfl
      rw [Block.innerIf] at hs
      refine h.walk.twice (h.walk.sublist (.append_right ?_ b.inner) hs)
      exact (List.sublist_append_right _ _).trans (List.sublist_append_right _ _)
    rw [Lower.stmt]
    refine onLeft (.andThen (mark env span) fun _ => tryCatch env finally? catches.length
      (fun site => block (h.inTry hfinal site) body (h.left hparts))
      (fun site exit handlers => clauses (h.inTry hfinal site) exit catches
        (h.left (h.right hparts)) handlers) fun act hact => ?_)
    obtain ⟨final, hfinal', rfl⟩ := Option.map_eq_some_iff.1 hact
    exact blockIf h finally? (h.right (h.right hparts)) final hfinal'
  | .throw value span, hs => by
    rw [Stmt.inner] at hs ⊢
    rw [Lower.stmt]
    exact .andThen (mark env span) fun _ => (expr h value hs).after fun _ => plain (.throwValue _)
  | .scope body span, hs => by
    rw [Stmt.inner] at hs ⊢
    rw [Lower.stmt]
    exact .andThen (mark env span) fun _ => block h body hs

theorem exprIf {env : Env} (h : Setting c R good idle detour env) :
    (e? : Option Expr) → good (Expr.innerIf e?) →
      Follows (R (Expr.innerIf e?)) (Lower.exprIf detour env e?)
  | some e, he => by
    rw [Expr.innerIf] at he ⊢
    rw [Lower.exprIf]
    exact (expr h e he).map
  | none, _ => by
    rw [Lower.exprIf, Expr.innerIf]
    exact pure _

theorem testIf {env : Env} (h : Setting c R good idle detour env) :
    (e? : Option Expr) → good (Expr.innerIf e?) →
      All (R (Expr.innerIf e?)) (Lower.testIf detour env e?)
  | some e, he => fun test htest => by
    rw [Expr.innerIf] at he ⊢
    rw [Lower.testIf] at htest
    cases htest
    exact expr h e he
  | none, _ => fun test htest => by
    rw [Lower.testIf] at htest
    cases htest

theorem stmtIf {env : Env} (h : Setting c R good idle detour env) :
    (s? : Option Stmt) → good (Stmt.innerIf s?) →
      All (R (Stmt.innerIf s?)) (Lower.stmtIf detour env s?)
  | some s, hs => fun act hact => by
    rw [Stmt.innerIf] at hs ⊢
    rw [Lower.stmtIf] at hact
    cases hact
    exact .andThen (visit env s) fun _ => stmt h s hs
  | none, _ => fun act hact => by
    rw [Lower.stmtIf] at hact
    cases hact

theorem blockIf {env : Env} (h : Setting c R good idle detour env) :
    (b? : Option Block) → good (Block.innerIf b?) → ∀ body, Lower.blockIf detour b? = some body →
      Follows (R (Block.innerIf b?)) (body env)
  | some b, hb => fun body hbody => by
    rw [Block.innerIf] at hb ⊢
    rw [Lower.blockIf] at hbody
    cases hbody
    exact block h b hb
  | none, _ => fun body hbody => by
    rw [Lower.blockIf] at hbody
    cases hbody

theorem caseTests {env : Env} (h : Setting c R good idle detour env) (tag? : Option Operand)
    (target : Nat) :
    (es : List Expr) → good (Expr.innerAll es) →
      Follows (R (Expr.innerAll es)) (Lower.caseTests detour env tag? target es)
  | [], _ => by
    rw [Lower.caseTests, Expr.innerAll]
    exact pure _
  | e :: es, hes => by
    rw [Expr.innerAll] at hes ⊢
    rw [Lower.caseTests]
    exact (caseTest _ _ (expr h e (h.left hes))).append fun _ =>
      caseTests h tag? target es (h.right hes)

theorem tests {env : Env} (h : Setting c R good idle detour env) (tag? : Option Operand) :
    (cs : List Case) → good (Case.innerValues cs) → ∀ targets,
      Follows (R (Case.innerValues cs)) (Lower.tests detour env tag? targets cs)
  | [], _ => fun targets => by
    rw [Lower.tests]
    · exact .any (pure _)
    · simp
  | ⟨values, _, _⟩ :: cs, hcs => fun targets => by
    cases targets with
    | nil =>
      rw [Lower.tests]
      · exact .any (pure _)
      · simp
    | cons target targets =>
      rw [Case.innerValues] at hcs ⊢
      rw [Lower.tests]
      exact (caseTests h tag? target values (h.left hcs)).append fun _ =>
        tests h tag? cs (h.right hcs) targets

theorem caseBodies {env : Env} (h : Setting c R good idle detour env) (exit : Nat) :
    (cs : List Case) → good (Case.innerBodies cs) → ∀ targets,
      Follows (R (Case.innerBodies cs)) (Lower.caseBodies detour env exit targets cs)
  | [], _ => fun targets => by
    rw [Lower.caseBodies]
    · exact .any (pure _)
    · simp
  | ⟨_, body, _⟩ :: cs, hcs => fun targets => by
    cases targets with
    | nil =>
      rw [Lower.caseBodies]
      · exact .any (pure _)
      · simp
    | cons target targets =>
      rw [Case.innerBodies] at hcs ⊢
      rw [Lower.caseBodies]
      exact (arm (block h body (h.left hcs)) _ _ _).append fun _ =>
        caseBodies h exit cs (h.right hcs) targets

theorem clauses {env : Env} (h : Setting c R good idle detour env) (exit : Nat) :
    (cs : List Catch) → good (Catch.innerAll cs) → ∀ handlers,
      Follows (R (Catch.innerAll cs)) (Lower.clauses detour env exit handlers cs)
  | [], _ => fun handlers => by
    rw [Lower.clauses]
    · exact .any (pure _)
    · simp
  | ⟨param?, type?, body, _⟩ :: cs, hcs => fun handlers => by
    cases handlers with
    | nil =>
      rw [Lower.clauses]
      · exact .any (pure _)
      · simp
    | cons handler handlers =>
      rw [Catch.innerAll] at hcs ⊢
      have hbody := block h body (h.left hcs)
      rw [Lower.clauses]
      exact (arm (clause h.typing param? type? hbody) _ _ _).append fun _ =>
        clauses h exit cs (h.right hcs) handlers

end

end Lower.Follows

/-! ## Globals of the program -/

namespace Gen.Follows

variable {R : GenState → GenState → Prop} [GenState.Ambient R]

theorem constantValue (ir : Ir.Ty) : (e : Expr) → Follows R (Gen.constantValue ir e)
  | .string .. => .ite (.bind (.addString _) fun _ => .pure _) (.pure _)
  | .prefixed .negate right _ => by
    refine .bind (constantValue ir right) fun v? => ?_
    split <;> exact .pure _
  | .int .. | .float .. | .bool .. | .char .. | .null .. | .prefixed .not .. | .prefixed .bitNot ..
  | .ident .. | .binary .. | .postfixed .. | .assign .. | .call .. | .index .. | .member ..
  | .array .. | .hash .. | .lambda .. | .new .. | .this .. | .super .. | .templateInstance .. =>
    .pure _

theorem globalType {env : Env} (ht : env.typing.Follows R) (name : String) (type? : Option TypeExpr)
    (value? : Option Expr) : Follows R (Gen.globalType env name type? value?) := by
  unfold Gen.globalType
  split
  · exact .resolveType _ (.inl ht)
  · exact .pure _

end Gen.Follows

/-! ## Functions of the program -/

section

variable {c : Catalog} {R : List String → GenState → GenState → Prop} [GenState.Graded R]
  {good idle : List String → Prop} {detour : Lower.Detour} {env : Env} {L : List String}

/-- A function, with what its body adds before it. -/
theorem Gen.Follows.function (w : Lower.Walk c R good idle) {h : Lower.Head}
    {body : Env → Lower Unit} (hbody : Lower.Follows (R L) (body (h.env env))) :
    Follows (R (h.symbol :: L)) (Lower.function env h body) := by
  intro g
  let r := ((Lower.whole env h body).run (h.cursor env.catalog.file?)).run g
  obtain ⟨hr, hstays⟩ := Lower.Follows.whole hbody (h.cursor env.catalog.file?) g
  have hname : r.1.2.finish.name = h.symbol := hstays.name
  have hfunction := w.function r.1.2.finish r.1.2.edits hr
  rw [hname] at hfunction
  exact hfunction

namespace Lower.Follows

theorem storeGlobal (h : Setting c R good idle detour env) (name : Ident) (value : Expr)
    (span : Span) (hvalue : good value.inner) :
    Follows (R value.inner) (Gen.storeGlobal detour env name value span) := by
  refine .andThen (mark env span) fun _ => (expr h value hvalue).after fun _ => ?_
  refine .bind_state fun g => ?_
  split
  · exact .bind (plain (.assign _ _)) fun _ => pure _
  · exact pure _

theorem startStmt (h : Setting c R good idle detour env) (s : Stmt) (hs : good s.inner) :
    Follows (R s.inner) (Gen.startStmt detour env s) := by
  unfold Gen.startStmt
  split
  next name _ value span =>
    rw [Stmt.inner, Expr.innerIf] at hs ⊢
    exact storeGlobal h name value span hs
  next => exact .any (pure _)
  next name _ value span =>
    rw [Stmt.inner] at hs ⊢
    exact storeGlobal h name value span hs
  next => exact stmt h s hs

theorem startStmts (h : Setting c R good idle detour env) (ss : List Stmt)
    (hss : good (Stmt.innerAll ss)) :
    Follows (R (Stmt.innerAll ss)) (Gen.startStmts detour env ss) := by
  induction ss with
  | nil => exact .any (pure _)
  | cons s ss ih =>
    rw [Stmt.innerAll] at hss ⊢
    refine .andThen (visit env s) fun _ => (startStmt h s (h.left hss)).append fun _ => ?_
    refine .first .isTerminated fun _ => ?_
    exact .ite (ih (h.right hss)) (.any (pure _))

end Lower.Follows

end

/-! ## Detours -/

instance : GenState.Graded fun _ _ _ => True := by
  constructor
  · infer_instance
  all_goals
    intros
    trivial

namespace Lower

variable {c : Catalog} {R : List String → GenState → GenState → Prop} [GenState.Graded R]
  {good idle : List String → Prop}

section

variable {fuel : Nat} {env : Env} (w : Walk c R good idle)
  (hfuel : (detourAt fuel).Fits c (R []) idle) (henv : env.Fits c idle)
include w hfuel henv

/-- One more level of detours. -/
theorem Follows.detourExpr (e : Expr) (he : idle e.inner) :
    Follows (R []) ((detourAt (fuel + 1)).expr env e) := by
  have hcode := Follows.expr ⟨w, hfuel, henv⟩ e (w.once he)
  refine .bind (.lift Gen.Follows.exhausted) fun _ => .ite (.pure _) fun cursor g => ?_
  exact ⟨w.nothing he (hcode cursor g).1, (hcode cursor g).2⟩

theorem Follows.detourBlock (b : Block) (hb : idle b.inner) :
    Follows (R []) ((detourAt (fuel + 1)).block env b) := by
  have hcode := Follows.block ⟨w, hfuel, henv⟩ b (w.once hb)
  refine .bind (.lift Gen.Follows.exhausted) fun _ => .ite (fun cursor g => ?_) (.pure _)
  exact ⟨w.nothing hb (hcode cursor g).1, (hcode cursor g).2⟩

end

/-- Detours that may not be nested. -/
theorem Detour.Fits.zero : (Lower.detourAt 0).Fits c (R []) idle := by
  have hexhaust : ∀ {S : GenState → GenState → Prop} [GenState.Ambient S],
      Follows S (Gen.exhaust : Lower Unit) := Follows.lift Gen.Follows.exhaust
  exact ⟨fun _ _ _ _ => hexhaust.bind fun _ => .pure _, fun _ _ _ _ => hexhaust,
    fun _ _ => hexhaust.bind fun _ => .pure _⟩

/-- The relation that always holds. What is left of the walk is that functions and scopes stay. -/
theorem Walk.always (c : Catalog) : Walk c (fun _ _ _ => True) (fun _ => True) (fun _ => True) where
  typing _ _ _ _ := trivial
  lambda _ := trivial
  inner _ _ _ := trivial
  function _ _ _ := trivial
  fields _ := trivial
  sublist _ _ := trivial
  once _ := trivial
  twice _ := trivial
  nothing _ _ := trivial

theorem Detour.Fits.always (c : Catalog) (fuel : Nat) :
    (Lower.detourAt fuel).Fits c (fun _ _ => True) (fun _ => True) := by
  induction fuel generalizing c with
  | zero => exact .zero (R := fun _ _ _ => True)
  | succ fuel ih =>
    refine ⟨fun env e henv he => ?_, fun env b henv hb => ?_, fun env e => ?_⟩
    · exact Follows.detourExpr (.always c) (ih c) henv e he
    · exact Follows.detourBlock (.always c) (ih c) henv b hb
    · exact Follows.detourExpr (.always env.catalog) (ih env.catalog)
        ⟨rfl, fun _ _ _ _ => trivial⟩ e trivial

theorem Detour.Fits.detourAt (w : Walk c R good idle) (fuel : Nat) :
    (Lower.detourAt fuel).Fits c (R []) idle := by
  induction fuel with
  | zero => exact .zero
  | succ fuel ih =>
    exact ⟨fun env e henv he => Follows.detourExpr w ih henv e he,
      fun env b henv hb => Follows.detourBlock w ih henv b hb, (always c (fuel + 1)).stays⟩

end Lower

end ClassLang
