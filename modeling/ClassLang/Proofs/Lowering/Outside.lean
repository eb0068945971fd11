import ClassLang.Proofs.Draft.Finished

/-!
# Steps outside of functions

`GenState.Sound` is what holds of the state of code generation at every point: the functions of the
module come from complete drafts, globals are not kept in registers, and the generator itself was
never at fault. A step that works on types, layouts, instances or declarations keeps it.
-/

namespace ClassLang

/-- No two loops lead to the same block. -/
structure Loop.Apart (l l' : Loop) : Prop where
  breakTo : l.breakTo ≠ l'.breakTo
  continueTo : ∀ b, l.continueTo? = some b → l'.continueTo? ≠ some b

/-- A copy of a final block stands inside of all that surrounds the try statement and, if it comes
after the statement, of nothing else. -/
structure Copy.Nested (k : Copy) : Prop where
  scopes : k.source.site.scopes <:+ k.site.scopes
  loops : k.source.site.loops <:+ k.site.loops
  fallThrough : k.inlined = false → k.site = k.source.site
  scopesApart : k.site.scopes.Pairwise Table.Apart
  loopsApart : k.site.loops.Pairwise Loop.Apart

/-- What holds of the state of code generation at every point. -/
structure GenState.Sound (g : GenState) : Prop where
  functions : List.Forall₂ Draft.Finishes g.module.functions g.edits
  globals : ∀ name l, g.globals.find? name = some l → l.ptr.reads = []
  errors : ∀ e ∈ g.errors, ∀ problem, e.cause ≠ .internal problem
  queue : ∀ i ∈ g.queue, ∀ f, i.body = .function f → (g.functions.find? i.symbol).isSome = true
  copies : ∀ k ∈ g.copies, k.Nested

theorem Table.isSome_find?_insert {α : Type} {t : Table α} {key : String}
    (h : (t.find? key).isSome = true) (name : String) (a : α) :
    ((t.insert name a).find? key).isSome = true := by
  rw [find?_insert]
  split
  · rfl
  · exact h

namespace GenState.Sound

variable {g : GenState}

theorem report (h : g.Sound) {e : GenError} (he : ∀ problem, e.cause ≠ .internal problem) :
    GenState.Sound { g with errors := g.errors ++ [e] } := by
  refine ⟨h.functions, h.globals, fun e' he' => ?_, h.queue, h.copies⟩
  rcases List.mem_append.1 he' with he' | he'
  · exact h.errors e' he'
  · rw [List.mem_singleton.1 he']
    exact he

theorem withModule (h : g.Sound) {m : Ir.Module} (hm : m.functions = g.module.functions) :
    GenState.Sound { g with module := m } :=
  ⟨by rw [hm]; exact h.functions, h.globals, h.errors, h.queue, h.copies⟩

theorem setFunction (h : g.Sound) (symbol : String) (sig : Signature) :
    GenState.Sound { g with functions := g.functions.insert symbol sig } :=
  ⟨h.functions, h.globals, h.errors, fun i hi f hf =>
    Table.isSome_find?_insert (h.queue i hi f hf) symbol sig, h.copies⟩

theorem enqueue (h : g.Sound) {i : TemplateInstance}
    (hi : ∀ f, i.body = .function f → (g.functions.find? i.symbol).isSome = true) :
    GenState.Sound { g with queue := g.queue ++ [i] } := by
  refine ⟨h.functions, h.globals, h.errors, fun i' hi' => ?_, h.copies⟩
  rcases List.mem_append.1 hi' with hi' | hi'
  · exact h.queue i' hi'
  · rw [List.mem_singleton.1 hi']
    exact hi

theorem recordCopy (h : g.Sound) {k : Copy} (hk : k.Nested) :
    GenState.Sound { g with copies := g.copies ++ [k] } := by
  refine ⟨h.functions, h.globals, h.errors, h.queue, fun k' hk' => ?_⟩
  rcases List.mem_append.1 hk' with hk' | hk'
  · exact h.copies k' hk'
  · rw [List.mem_singleton.1 hk']
    exact hk

end GenState.Sound

namespace Gen

/-- A step keeps the state sound. -/
def Keeps {α : Type} (x : Gen α) : Prop := ∀ g : GenState, g.Sound → (x.run g).2.Sound

namespace Keeps

variable {α β : Type} {x : Gen α} {f : α → Gen β}

theorem pure (a : α) : Keeps (Pure.pure a) := fun _ hg => hg

theorem bind (hx : Keeps x) (hf : ∀ a, Keeps (f a)) : Keeps (x >>= f) :=
  fun g hg => hf _ _ (hx g hg)

theorem map {h : α → β} (hx : Keeps x) : Keeps (h <$> x) := fun g hg => hx g hg

theorem of_modify {f : GenState → GenState} (h : ∀ g, g.Sound → (f g).Sound) :
    Keeps (modify f : Gen Unit) := h

/-- A step that only looks. -/
theorem of_snd_eq (h : ∀ g, (x.run g).2 = g) : Keeps x := fun g hg => (h g).symm ▸ hg

theorem mapM (l : List α) (h : ∀ a ∈ l, Keeps (f a)) : Keeps (l.mapM f) := by
  induction l with
  | nil => exact pure []
  | cons a l ih =>
    rw [List.mapM_cons]
    refine bind (h a List.mem_cons_self) fun b => ?_
    exact bind (ih fun a' ha' => h a' (List.mem_cons_of_mem _ ha')) fun bs => pure (b :: bs)

theorem forM {f : α → Gen Unit} (l : List α) (h : ∀ a ∈ l, Keeps (f a)) : Keeps (l.forM f) := by
  induction l with
  | nil => exact pure ()
  | cons a l ih =>
    exact bind (h a List.mem_cons_self) fun _ => ih fun a' ha' => h a' (List.mem_cons_of_mem _ ha')

theorem ite {c : Prop} [Decidable c] {y : Gen α} (hx : c → Keeps x) (hy : ¬ c → Keeps y) :
    Keeps (if c then x else y) := by
  split
  · exact hx ‹_›
  · exact hy ‹_›

end Keeps

theorem keeps_report (cause : GenError.Cause) (span : Span)
    (h : ∀ problem, cause ≠ .internal problem) : Keeps (report cause span) :=
  .of_modify fun _ hg => hg.report h

theorem keeps_exhausted : Keeps exhausted := .of_snd_eq fun _ => rfl

theorem keeps_exhaust : Keeps exhaust := by
  refine .bind keeps_exhausted fun b => ?_
  refine .ite (fun _ => ?_) (fun _ => .pure ())
  exact .of_modify fun g hg => hg.report fun problem h => nomatch h

theorem keeps_addString (bytes : List UInt8) : Keeps (addString bytes) := by
  intro g hg
  refine hg.withModule ?_
  show (g.module.addString bytes).2.functions = g.module.functions
  unfold Ir.Module.addString
  split <;> rfl

theorem keeps_declare (name : String) (ret : Ir.Ty) (params : List Ir.Ty) (variadic : Bool) :
    Keeps (declare name ret params variadic) := by
  intro g hg
  refine hg.withModule ?_
  show (g.module.declare _).functions = g.module.functions
  unfold Ir.Module.declare
  split <;> rfl

theorem keeps_setFunction (symbol : String) (sig : Signature) : Keeps (setFunction symbol sig) :=
  .of_modify fun _ hg => hg.setFunction symbol sig

theorem keeps_recordVisit (v : Visit) : Keeps (recordVisit v) :=
  .of_modify fun _ hg => ⟨hg.functions, hg.globals, hg.errors, hg.queue, hg.copies⟩

theorem keeps_function? (symbol : String) : Keeps (function? symbol) := .of_snd_eq fun _ => rfl

theorem keeps_layout? (cls : String) : Keeps (layout? cls) := .of_snd_eq fun _ => rfl

theorem keeps_hasLayout (cls : String) : Keeps (hasLayout cls) := .of_snd_eq fun _ => rfl

theorem keeps_method? (cls method : String) : Keeps (method? cls method) := .of_snd_eq fun _ => rfl

/-! ## Types -/

/-- Making instances keeps the state sound. -/
def Typing.Sound (t : Typing) : Prop := ∀ name args, Keeps (t.instantiate name args)

theorem keeps_namedType (t : Typing) (name : String) : Keeps (namedType t name) := by
  unfold namedType
  split
  · exact .pure _
  · refine .bind (keeps_hasLayout name) fun _ => ?_
    repeat' refine .ite (fun _ => ?_) (fun _ => ?_)
    all_goals exact .pure _

theorem keeps_instanceType (t : Typing) (name : Ident) (symbol? : Option String) :
    Keeps (instanceType t name symbol?) := by
  unfold instanceType
  split
  · exact .pure _
  · refine .bind (keeps_hasLayout _) fun _ => .ite (fun _ => .pure _) (fun _ => ?_)
    refine .bind (keeps_report _ _ ?_) fun _ => .pure _
    intro _ h
    cases h

variable {t : Typing}

mutual

theorem keeps_resolveType (ht : t.Sound) : (e : TypeExpr) → Keeps (resolveType t e)
  | .named n => keeps_namedType t n.name
  | .array element _ => .bind (keeps_resolveType ht element) fun _ => .pure _
  | .map key value _ =>
    .bind (keeps_resolveType ht key) fun _ => .bind (keeps_resolveType ht value) fun _ => .pure _
  | .pointer inner _ => keeps_resolveType ht inner
  | .generic n args _ =>
    .bind (keeps_resolveTypes ht args) fun types =>
      .bind (ht n types) fun symbol? => keeps_instanceType t n symbol?

theorem keeps_resolveTypes (ht : t.Sound) : (es : List TypeExpr) → Keeps (resolveTypes t es)
  | [] => .pure _
  | e :: es =>
    .bind (keeps_resolveType ht e) fun _ => .bind (keeps_resolveTypes ht es) fun _ => .pure _

end

theorem keeps_resolveOptional (ht : t.Sound) (missing : Ty) :
    (e? : Option TypeExpr) → Keeps (resolveOptional t missing e?)
  | some e => keeps_resolveType ht e
  | none => .pure _

theorem keeps_writtenSignature (ht : t.Sound) (params : List Param) (ret? : Option TypeExpr) :
    Keeps (writtenSignature t params ret?) := by
  refine .bind (.mapM params fun p _ => keeps_resolveOptional ht _ _) fun _ => ?_
  exact .bind (keeps_resolveOptional ht _ _) fun _ => .pure _

theorem keeps_fieldType (ht : t.Sound) (info? : Option ClassInfo) (f : Field) :
    Keeps (fieldType t info? f) := by
  unfold fieldType
  split
  · exact keeps_resolveType ht _
  · exact .pure _

/-! ## Layouts and instances -/

theorem keeps_layoutOf (ht : t.Sound) (name : String) (c : Class) (parent? : Option String) :
    Keeps (layoutOf t name c parent?) := by
  unfold layoutOf
  split
  on_goal 1 => refine .bind (keeps_layout? _) fun _ => ?_
  on_goal 2 => refine .bind (.pure _) fun _ => ?_
  all_goals
    refine .bind (.mapM _ fun f _ => .bind (keeps_fieldType ht _ f) fun _ => .pure _) fun _ => ?_
    refine .bind (.mapM _ fun m _ => .bind (keeps_writtenSignature ht _ _) fun _ => .pure _)
      fun _ => ?_
    exact .bind (.mapM _ fun m _ => .bind (keeps_writtenSignature ht _ _) fun _ => .pure _)
      fun _ => .pure _

theorem keeps_recordLayout (l : Layout) : Keeps (recordLayout l) := by
  refine .bind (.of_modify fun g hg => hg.withModule rfl) fun _ => ?_
  exact .of_modify fun g hg => ⟨hg.functions, hg.globals, hg.errors, hg.queue, hg.copies⟩

theorem keeps_layoutClass (ht : t.Sound) (fuel : Nat) (waiting : List String) (name : String) :
    Keeps (layoutClass t fuel waiting name) := by
  induction fuel generalizing waiting name with
  | zero => exact .pure _
  | succ fuel ih =>
    rw [layoutClass]
    refine .bind (keeps_hasLayout name) fun _ => .ite (fun _ => .pure _) (fun _ => ?_)
    have hrecord : ∀ c parent?, Keeps (do
        recordLayout (← layoutOf t name c parent?)
        return true) := fun c parent? =>
      .bind (keeps_layoutOf ht name c parent?) fun l =>
        .bind (keeps_recordLayout l) fun _ => .pure _
    split
    · exact .pure _
    · refine .ite (fun _ => ?_) (fun _ => ?_)
      · exact .bind (keeps_report _ _ fun _ h => nomatch h) fun _ => .pure _
      · split
        · exact hrecord _ _
        · refine .bind (ih _ _) fun _ => .ite (fun _ => hrecord _ _) (fun _ => ?_)
          exact .ite (fun _ => .pure _) (fun _ => hrecord _ _)

theorem keeps_ensureLayout (ht : t.Sound) (name : String) : Keeps (ensureLayout t name) :=
  keeps_layoutClass ht _ _ _

theorem keeps_layoutInstance (ht : t.Sound) (symbol : String) (c : Class) :
    Keeps (layoutInstance t symbol c) := by
  unfold layoutInstance
  have hrecord : ∀ parent?, Keeps (layoutOf t symbol c parent? >>= recordLayout) := fun parent? =>
    .bind (keeps_layoutOf ht symbol c parent?) fun l => keeps_recordLayout l
  split
  · exact hrecord none
  · exact .bind (keeps_ensureLayout ht _) fun _ => hrecord _

theorem keeps_instantiate (catalog : Catalog) (fuel : Nat) (name : Ident) (args : List Ty) :
    Keeps (instantiate catalog fuel name args) := by
  induction fuel generalizing name args with
  | zero => exact .bind keeps_exhaust fun _ => .pure _
  | succ fuel ih =>
    have ht : ∀ bindings, Typing.Sound ⟨catalog, bindings, instantiate catalog fuel⟩ := fun _ => ih
    rw [instantiate]
    split
    · exact .bind (keeps_report _ _ fun _ h => nomatch h) fun _ => .pure _
    · refine .ite (fun _ => ?_) (fun _ => ?_)
      · exact .bind (keeps_report _ _ fun _ h => nomatch h) fun _ => .pure _
      · refine .bind (.of_snd_eq fun _ => rfl) fun s => ?_
        dsimp only
        split
        · exact .pure _
        · refine .bind keeps_exhausted fun _ => .ite (fun _ => .pure _) fun _ => ?_
          refine .bind (.of_modify fun g hg => ⟨hg.functions, hg.globals, hg.errors, hg.queue, hg.copies⟩)
            fun _ => ?_
          -- a queued function has its signature by then
          split
          case h_1 f hbody =>
            refine .bind (keeps_writtenSignature (ht _) _ _) fun sig g hg => ?_
            refine (hg.setFunction (mangle (instanceKey name.name args)) sig).enqueue ?_
            intro _ _
            simp
          case h_2 c hbody =>
            refine .bind (keeps_layoutInstance (ht _) _ _) fun _ g hg => hg.enqueue ?_
            intro f hf
            cases hbody.symm.trans hf
          case h_3 _ hbody _ =>
            exact fun g hg => hg.enqueue fun f hf => absurd hf (hbody f)

theorem sound_typing (catalog : Catalog) (bindings : List (String × Ty)) :
    (typing catalog bindings).Sound :=
  keeps_instantiate catalog catalog.limit

end Gen

end ClassLang
