import ClassLang.Proofs.Analysis.Parts
import ClassLang.Proofs.Names.Binding
import Mathlib.Data.List.Basic

/-!
# Scopes are nested

Checking a part of a program ends in the scope where it began. It has added symbols to that scope and
findings to those that were there, and has left all other scopes as they were. No function, class,
interface or template is added, since only the declarations of the top level are such symbols. The
names of the symbols are those that the part binds in place.
-/

namespace ClassLang

/-- Neither a function nor a type nor a template. -/
def Symbol.isPlain (s : Symbol) : Bool :=
  match s.kind with
  | .function | .class_ | .interface | .template => false
  | _ => true

/-- What was in a scope is there still, or hidden by a plain symbol of a name of `N`. Such a symbol has
no members. -/
structure Scope.Grows (N : String → Prop) (s s' : Scope) : Prop where
  parent : s'.parent? = s.parent?
  symbols : ∀ name, s'.symbols.find? name = s.symbols.find? name ∨
    N name ∧ ∃ d, s'.symbols.find? name = some d ∧ d.isPlain = true ∧ d.classInfo? = none

section

variable {N M : String → Prop} {s s' s'' : Scope}

theorem Scope.Grows.refl (s : Scope) : s.Grows N s := ⟨rfl, fun _ => .inl rfl⟩

theorem Scope.Grows.mono (h : s.Grows M s') (hN : ∀ name, M name → N name) : s.Grows N s' :=
  ⟨h.parent, fun name => (h.symbols name).imp_right (.imp_left (hN name))⟩

theorem Scope.Grows.trans (h : s.Grows N s') (h' : s'.Grows N s'') : s.Grows N s'' := by
  refine ⟨h'.parent.trans h.parent, fun name => ?_⟩
  obtain hsame | hplain := h'.symbols name
  · rw [hsame]
    exact h.symbols name
  · exact .inr hplain

end

namespace ScopeTree

variable (t : ScopeTree)

theorem get?_replace (d : Symbol) (i : Nat) : (t.replace d).get? i = (t.get? i).map fun s =>
    if t.current = i then { s with symbols := s.symbols.insert d.name { d with scope := t.current } }
    else s := by
  rw [get?, replace, List.getElem?_modify]
  rfl

variable {t}

theorem lt_count {i : Nat} {s : Scope} (h : t.get? i = some s) : i < t.count := by
  obtain ⟨hi, _⟩ := List.getElem?_eq_some_iff.1 h
  exact hi

theorem get?_push (k : ScopeKind) {i : Nat} (hi : i < t.count) :
    (t.push k).get? i = (t.get? i).map fun s =>
      if t.current = i then { s with children := s.children ++ [t.count] } else s := by
  rw [get?, push]
  simp only
  rw [List.getElem?_append_left (by rwa [List.length_modify]), List.getElem?_modify]
  rfl

theorem get?_push_count (k : ScopeKind) : (t.push k).get? t.count =
    some { id := t.count, kind := k, parent? := some t.current } := by
  rw [get?, push]
  simp only
  rw [List.getElem?_append_right (by rw [List.length_modify]; exact Nat.le_refl _)]
  simp [count]

end ScopeTree

namespace Analysis

/-- From one state to another in the same scope, to which names of `N` may be added. -/
structure Nested (N : String → Prop) (a b : Analysis) : Prop where
  current : b.scopes.current = a.scopes.current
  outer : ∀ i s, i ≠ a.scopes.current → a.scopes.get? i = some s → b.scopes.get? i = some s
  inner : ∀ s, a.scopes.get? a.scopes.current = some s →
    ∃ s', b.scopes.get? a.scopes.current = some s' ∧ s.Grows N s'
  findings : a.findings <+: b.findings

variable {N M : String → Prop} {a b c : Analysis}

theorem Nested.of_scopes_eq (h : b.scopes = a.scopes) (hf : a.findings <+: b.findings) :
    a.Nested N b :=
  ⟨by rw [h], fun _ _ _ hs => by rw [h, hs], fun s hs => ⟨s, by rw [h, hs], .refl s⟩, hf⟩

theorem Nested.refl (a : Analysis) : a.Nested N a := .of_scopes_eq rfl (List.prefix_refl _)

theorem Nested.mono (h : a.Nested M b) (hN : ∀ name, M name → N name) : a.Nested N b := by
  refine ⟨h.current, h.outer, fun s hs => ?_, h.findings⟩
  obtain ⟨s', hs', hgrows⟩ := h.inner s hs
  exact ⟨s', hs', hgrows.mono hN⟩

theorem Nested.trans (h : a.Nested N b) (h' : b.Nested N c) : a.Nested N c := by
  refine ⟨h'.current.trans h.current, fun i s hi hs => ?_, fun s hs => ?_,
    h.findings.trans h'.findings⟩
  · exact h'.outer i s (h.current ▸ hi) (h.outer i s hi hs)
  · obtain ⟨s', hs', hgrows⟩ := h.inner s hs
    rw [← h.current] at hs' ⊢
    obtain ⟨s'', hs'', hgrows'⟩ := h'.inner s' hs'
    exact ⟨s'', hs'', hgrows.trans hgrows'⟩

theorem Nested.replace (a : Analysis) {d : Symbol} (hd : d.isPlain = true)
    (hinfo : d.classInfo? = none) (hN : N d.name) :
    a.Nested N { a with scopes := a.scopes.replace d } := by
  refine ⟨rfl, fun i s hi hs => ?_, fun s hs => ?_, List.prefix_refl _⟩
  · simp [ScopeTree.get?_replace, hs, hi.symm]
  · let symbols := s.symbols.insert d.name { d with scope := a.scopes.current }
    refine ⟨{ s with symbols }, ?_, rfl, fun name => ?_⟩
    · rw [ScopeTree.get?_replace, hs, Option.map_some, if_pos rfl]
    · rw [Table.find?_insert]
      split
      next hname => exact .inr ⟨by rwa [eq_of_beq hname], _, rfl, hd, hinfo⟩
      · exact .inl rfl

/-- A scope that was opened is closed, and nothing of what was done in it is left outside. -/
theorem Nested.pop {k : ScopeKind} (h : Nested M { a with scopes := a.scopes.push k } b) :
    a.Nested N { b with scopes := b.scopes.pop } := by
  have hold : ∀ i s, a.scopes.get? i = some s → b.scopes.get? i =
      some (if a.scopes.current = i then { s with children := s.children ++ [a.scopes.count] }
        else s) := by
    intro i s hs
    have hi := ScopeTree.lt_count hs
    refine h.outer i _ (Nat.ne_of_lt hi) ?_
    rw [ScopeTree.get?_push k hi, hs, Option.map_some]
  obtain ⟨s', hs', hgrows⟩ := h.inner _ (ScopeTree.get?_push_count k)
  have hcurrent : b.scopes.pop.current = a.scopes.current := by
    rw [ScopeTree.pop, h.current, hs', Option.bind_some, hgrows.parent]
  have hget : ∀ i, b.scopes.pop.get? i = b.scopes.get? i := by
    intro i
    rw [ScopeTree.pop]
    split <;> rfl
  refine ⟨hcurrent, fun i s hi hs => ?_, fun s hs => ?_, h.findings⟩
  · exact (hget i).trans ((hold i s hs).trans (by rw [if_neg hi.symm]))
  · exact ⟨_, (hget _).trans (hold _ s hs), by rw [if_pos rfl]; exact ⟨rfl, fun _ => .inl rfl⟩⟩

end Analysis

/-- `n` scopes are closed, in which any names may have been added, and names of `N` are added to the
one around them. -/
def Analysis.Closed (N : String → Prop) : (n : Nat) → Analysis → Analysis → Prop
  | 0, a, b => a.Nested N b
  | n + 1, a, b => ∃ c, a.Nested (fun _ => True) c ∧ Closed N n { c with scopes := c.scopes.pop } b

theorem Analysis.Closed.of_nested {N M : String → Prop} {n : Nat} {a b c : Analysis}
    (h : a.Nested M b) (h' : Closed N (n + 1) b c) : Closed N (n + 1) a c := by
  obtain ⟨d, hd, hc⟩ := h'
  exact ⟨d, (h.mono fun _ _ => trivial).trans hd, hc⟩

/-! ## Steps -/

namespace Check

variable {α β : Type} {N M : String → Prop} {n : Nat} {x : Check α} {f : α → Check β}

/-- A step closes `n` scopes around the point where it begins. -/
def Closes (N : String → Prop) (n : Nat) (x : Check α) : Prop :=
  ∀ a : Analysis, Analysis.Closed N n a (x.run a).2

/-- A step ends in the scope where it begins. -/
abbrev Nests (N : String → Prop) (x : Check α) : Prop := Closes N 0 x

/-- A step opens a scope and ends in it. -/
def Opens (N : String → Prop) (x : Check α) : Prop := ∀ a : Analysis, ∃ b k, a.Nested N b ∧
  Analysis.Nested (fun _ => True) { b with scopes := b.scopes.push k } (x.run a).2

namespace Nests

theorem pure (v : α) : Nests N (Pure.pure v) := fun a => .refl a

theorem bind (hx : Nests N x) (hf : ∀ v, Nests N (f v)) : Nests N (x >>= f) :=
  fun a => Analysis.Nested.trans (hx a) (hf _ _)

/-- A step inside of scopes that are closed later. -/
theorem inside (hx : Nests M x) (hf : ∀ v, Closes N (n + 1) (f v)) : Closes N (n + 1) (x >>= f) :=
  fun a => .of_nested (hx a) (hf _ _)

theorem opens_bind (hx : Nests N x) (hf : ∀ v, Opens N (f v)) : Opens N (x >>= f) := by
  intro a
  obtain ⟨b, k, hb, hrest⟩ := hf (x.run a).1 (x.run a).2
  exact ⟨b, k, Analysis.Nested.trans (hx a) hb, hrest⟩

end Nests

theorem Opens.bind_nests (hx : Opens N x) (hf : ∀ v, Nests (fun _ => True) (f v)) :
    Opens N (x >>= f) := by
  intro a
  obtain ⟨b, k, hb, hrest⟩ := hx a
  exact ⟨b, k, hb, hrest.trans (hf _ _)⟩

theorem Opens.bind (hx : Opens N x) (hf : ∀ v, Closes N (n + 1) (f v)) : Closes N n (x >>= f) := by
  intro a
  obtain ⟨b, k, hb, hinside⟩ := hx a
  obtain ⟨c, hc, hrest⟩ := hf (x.run a).1 (x.run a).2
  have hclosed := hb.trans (hinside.trans hc).pop
  cases n with
  | zero => exact hclosed.trans hrest
  | succ n => exact hrest.of_nested hclosed

theorem opens_pushScope (k : ScopeKind) : Opens N (pushScope k) :=
  fun a => ⟨a, k, .refl a, .refl _⟩

theorem closes_popScope : Closes N 1 popScope := fun a => ⟨a, .refl a, .refl _⟩

theorem closes_popScope_bind {f : Unit → Check β} (hf : Closes N n (f ())) :
    Closes N (n + 1) (popScope >>= f) := fun a => ⟨a, .refl a, hf _⟩

namespace Nests

theorem of_scopes_eq (h : ∀ a : Analysis, (x.run a).2.scopes = a.scopes ∧
    a.findings <+: (x.run a).2.findings) : Nests N x :=
  fun a => .of_scopes_eq (h a).1 (h a).2

theorem reading (h : ∀ a : Analysis, (x.run a).2 = a) : Nests N x :=
  of_scopes_eq fun a => by rw [h a]; exact ⟨rfl, List.prefix_refl _⟩

theorem mapM (l : List α) (h : ∀ a, Nests N (f a)) : Nests N (l.mapM f) := by
  induction l with
  | nil => exact pure []
  | cons a l ih =>
    rw [List.mapM_cons]
    exact bind (h a) fun b => bind ih fun bs => pure (b :: bs)

theorem forM_mem {f : α → Check Unit} (l : List α) (h : ∀ a ∈ l, Nests N (f a)) :
    Nests N (l.forM f) := by
  induction l with
  | nil => exact pure ()
  | cons a l ih =>
    exact bind (h a List.mem_cons_self) fun _ => ih fun a' ha' => h a' (List.mem_cons_of_mem _ ha')

theorem forM {f : α → Check Unit} (l : List α) (h : ∀ a, Nests N (f a)) : Nests N (l.forM f) :=
  forM_mem l fun a _ => h a

theorem onlyIf {c : Bool} {x : Check Unit} (hx : Nests N x) :
    Nests N (if c = true then x else Pure.pure ()) := by
  split
  · exact hx
  · exact pure ()

theorem scopes : Nests N Check.scopes := reading fun _ => rfl

theorem resolve (name : String) : Nests N (Check.resolve name) := reading fun _ => rfl

theorem assignable (target value : Ty) : Nests N (Check.assignable target value) :=
  reading fun _ => rfl

theorem report (cause : Finding.Cause) (span : Span) : Nests N (Check.report cause span) :=
  of_scopes_eq fun _ => ⟨rfl, List.prefix_append _ _⟩

theorem judge (j : Judgement) : Nests N (Check.judge j) :=
  of_scopes_eq fun _ => ⟨rfl, List.prefix_refl _⟩

theorem usePackage (name : String) : Nests N (Check.usePackage name) :=
  of_scopes_eq fun _ => ⟨rfl, List.prefix_refl _⟩

theorem replace {d : Symbol} (hd : d.isPlain = true) (hinfo : d.classInfo? = none) (hN : N d.name) :
    Nests N (Check.replace d) :=
  fun a => .replace a hd hinfo hN

theorem noteShadowing (d : Symbol) : Nests N (Check.noteShadowing d) := by
  refine bind scopes fun t => ?_
  split
  · exact report _ _
  · exact pure ()

theorem declare {d : Symbol} (hd : d.isPlain = true) (hinfo : d.classInfo? = none) (hN : N d.name) :
    Nests N (Check.declare d) := by
  intro a
  refine (noteShadowing d a).trans ?_
  rw [run_declare_eq_define]
  generalize ((Check.noteShadowing d).run a).2 = a
  rw [ScopeTree.define]
  cases a.scopes.resolveLocal d.name with
  | none => exact .replace a hd hinfo hN
  | some first =>
    dsimp only
    split
    · exact .replace a hd hinfo hN
    · exact report _ _ a

theorem redefine {d : Symbol} (hd : d.isPlain = true) (hinfo : d.classInfo? = none) (hN : N d.name) :
    Nests N (Check.redefine d) :=
  bind (noteShadowing d) fun _ => replace hd hinfo hN

theorem undefinedType (n : Ident) : Nests N (Check.undefinedType n) :=
  bind (report _ _) fun _ => pure _

mutual

theorem resolveType (bound : List String) : (e : TypeExpr) → Nests N (Check.resolveType bound e)
  | .named n => by
    rw [Check.resolveType]
    split
    · exact pure _
    · split
      · exact pure _
      · refine bind (resolve _) fun s? => ?_
        split
        · exact undefinedType n
        · split
          · exact pure _
          · exact pure _
          · exact pure _
          · split
            · exact pure _
            · exact undefinedType n
          · exact undefinedType n
  | .array element _ => bind (resolveType bound element) fun _ => pure _
  | .map key value _ =>
    bind (resolveType bound key) fun _ => bind (resolveType bound value) fun _ => pure _
  | .pointer inner _ => resolveType bound inner
  | .generic n args _ => by
    refine bind (resolveTypes bound args) fun _ => bind (resolve _) fun s? => ?_
    split
    · exact undefinedType n
    · split
      · exact pure _
      · exact bind (report _ _) fun _ => pure _

theorem resolveTypes (bound : List String) :
    (es : List TypeExpr) → Nests N (Check.resolveTypes bound es)
  | [] => pure _
  | e :: es => bind (resolveType bound e) fun _ => bind (resolveTypes bound es) fun _ => pure _

end

theorem resolveOptional (bound : List String) (missing : Ty) (e? : Option TypeExpr) :
    Nests N (Check.resolveOptional bound missing e?) := by
  cases e? with
  | some e => exact resolveType bound e
  | none => exact pure _

theorem resolveSignature (bound : List String) (params : List Param) (ret? : Option TypeExpr) :
    Nests N (Check.resolveSignature bound params ret?) := by
  refine bind (mapM params fun p => resolveOptional bound _ _) fun _ => ?_
  exact bind (resolveOptional bound _ _) fun _ => pure _

/-! ### Parts that look at no subexpression -/

theorem declaredType (type? : Option TypeExpr) : Nests N (type?.mapM (Check.resolveType [])) := by
  cases type? with
  | some e => exact bind (resolveType [] e) fun _ => pure _
  | none => exact pure _

theorem binaryResult (op : InfixOp) (left right : Ty) (span : Span) :
    Nests N (Check.binaryResult op left right span) := by
  refine bind (judge _) fun _ => bind scopes fun t => ?_
  split
  · exact pure _
  · exact bind (report _ _) fun _ => pure _

theorem storedType (op : AssignOp) (target value : Ty) (span : Span) :
    Nests N (Check.storedType op target value span) := by
  cases op with
  | compound op => exact binaryResult op target value span
  | define | assign => exact pure _

theorem identifierType (name : Ident) : Nests N (Check.identifierType name) := by
  refine bind (judge _) fun _ => bind (resolve _) fun s? => ?_
  split
  · exact bind (report _ _) fun _ => pure _
  · split
    · exact bind (usePackage _) fun _ => pure _
    · exact pure _

theorem checkTarget (e : Expr) : Nests N (Check.checkTarget e) := by
  unfold Check.checkTarget
  split
  · refine bind (resolve _) fun s? => ?_
    split
    · exact bind (report _ _) fun _ => pure _
    · exact pure _
  · exact pure _
  · exact pure _
  · exact bind (report _ _) fun _ => pure _

theorem packageOf? (e : Expr) : Nests N (Check.packageOf? e) := by
  unfold Check.packageOf?
  split
  · refine bind (resolve _) fun s? => ?_
    split
    · exact bind (usePackage _) fun _ => pure _
    · exact pure _
  · exact pure _

theorem packageMember (package : String) (member : Ident) :
    Nests N (Check.packageMember package member) := by
  unfold Check.packageMember
  dsimp only
  split
  · exact bind (report _ _) fun _ => pure _
  · exact pure _

theorem memberType (object : Ty) (property : Ident) : Nests N (Check.memberType object property) := by
  unfold Check.memberType
  split
  · exact pure _
  · refine bind scopes fun t => ?_
    dsimp only
    split
    · exact bind (report _ _) fun _ => pure _
    · exact pure _

theorem signatureOf (callee : Expr) (ty : Ty) : Nests N (Check.signatureOf callee ty) := by
  unfold Check.signatureOf
  split
  · exact pure _
  · split
    · exact bind (report _ _) fun _ => pure _
    · exact pure _

theorem instantiate (name : Ident) (typeArgs : List TypeExpr) (span : Span) :
    Nests N (Check.instantiate name typeArgs span) := by
  refine bind (resolveTypes [] typeArgs) fun args => bind (resolve _) fun s? => ?_
  split
  · exact bind (report _ _) fun _ => pure _
  · split
    · exact bind (report _ _) fun _ => pure _
    · split
      · exact bind (report _ _) fun _ => pure _
      · split <;> exact pure _

theorem newClass (type : TypeExpr) : Nests N (Check.newClass type) := by
  unfold Check.newClass
  split
  · exact bind (resolveTypes _ _) fun _ => pure _
  · split
    · exact pure _
    · exact bind (report _ _) fun _ => pure _

theorem checkCount? (callee : String) (sig? : Option Signature) (count : Nat) (span : Span) :
    Nests N (Check.checkCount? callee sig? count span) := by
  cases sig? with
  | some sig => exact onlyIf (report _ _)
  | none => exact pure _

theorem checkAssignable (expected actual : Ty) (span : Span) :
    Nests N (Check.checkAssignable expected actual span) :=
  bind (assignable _ _) fun _ => onlyIf (report _ _)

theorem usedAsValue (e : Expr) (ty : Ty) : Nests N (Check.usedAsValue e ty) := by
  unfold Check.usedAsValue
  split
  · exact bind (report _ _) fun _ => pure _
  · exact pure _

theorem checkBool (ty : Ty) (span : Span) : Nests N (Check.checkBool ty span) := onlyIf (report _ _)

theorem commonType (common? : Option Ty) (ty : Ty) (span : Span) :
    Nests N (Check.commonType common? ty span) := by
  unfold Check.commonType
  split
  · exact pure _
  · split
    · exact pure _
    · refine bind (judge _) fun _ => ?_
      dsimp only
      split
      · exact bind (report _ _) fun _ => pure _
      · exact pure _

theorem bindFields (cls : String) (span : Span) :
    Nests (fun _ => True) (Check.bindFields cls span) := by
  refine bind scopes fun t => forM _ fun f => replace ?_ rfl trivial
  cases f.isConst <;> rfl

theorem checkImports {paths : List String} (hN : ∀ path ∈ paths, N (lastSegment path)) (span : Span) :
    Nests N (Check.checkImports paths span) := by
  refine forM_mem paths fun path hpath => bind scopes fun t => ?_
  have himport : Nests N (modify fun a : Analysis => { a with
      imports := a.imports ++ [{ name := lastSegment path, path, span }] }) :=
    of_scopes_eq fun _ => ⟨rfl, List.prefix_refl _⟩
  split
  · exact bind (replace rfl rfl (hN path hpath)) fun _ => himport
  · exact himport

theorem checkInterfaces (name : Ident) (implements : List Ident) :
    Nests N (implements.forM fun i => do
      let t ← Check.scopes
      match t.interfaceInfo? i.name with
      | some info =>
        info.methods.forM fun m => do
          if (t.findMethod name.name m.1).isNone then
            Check.report (.missingInterfaceMethod name.name i.name m.1) name.span
      | none =>
        if (t.resolve i.name).isSome then Check.report (.notAnInterface i.name) i.span
        else let _ ← Check.undefinedType i) := by
  refine forM implements fun i => bind scopes fun t => ?_
  split
  · exact forM _ fun m => onlyIf (report _ _)
  · split
    · exact report _ _
    · exact bind (undefinedType i) fun _ => pure _

theorem checkHeader (name : Ident) (extends? : Option Ident) (implements : List Ident) :
    Nests N (Check.checkHeader name extends? implements) := by
  have hinterfaces := checkInterfaces (N := N) name implements
  unfold Check.checkHeader
  split
  · refine bind (resolve _) fun s? => ?_
    split
    · split
      · exact bind (report _ _) fun _ => hinterfaces
      · exact hinterfaces
    · exact bind (bind (undefinedType _) fun _ => pure _) fun _ => hinterfaces
  · exact hinterfaces

theorem declareParams (params : List Param) (sig : Signature) :
    Nests (fun _ => True) (Check.declareParams params sig) := forM _ fun _ => declare rfl rfl trivial

theorem thisType (ctx : Context) (span : Span) : Nests N (Check.thisType ctx span) := by
  unfold Check.thisType
  split
  · exact pure _
  · exact bind (report _ _) fun _ => pure _

theorem superType (ctx : Context) (span : Span) : Nests N (Check.superType ctx span) := by
  refine bind scopes fun t => ?_
  split
  · exact pure _
  · exact bind (report _ _) fun _ => pure _

theorem namedSignature (callee : Expr) (name : Ident) :
    Nests N (Check.namedSignature callee name) := by
  refine bind (judge _) fun _ => bind (resolve _) fun s? => ?_
  split
  · exact bind (report _ _) fun _ => pure _
  · split
    · exact pure _
    · exact signatureOf _ _

theorem defineByAssignment (ctx : Context) {name : Ident} (hN : N name.name) (value : Ty) :
    Nests N (Check.defineByAssignment ctx name value) := bind (redefine rfl rfl hN) fun _ => pure _

theorem declareVariable (ctx : Context) {kind : SymbolKind}
    (hkind : kind = .variable_ ∨ kind = .constant) {name : Ident} (hN : N name.name)
    (declared? : Option Ty) (value? : Option (Ty × Span)) :
    Nests N (Check.declareVariable ctx kind name declared? value?) := by
  have hdeclare : ∀ ty, Nests N (Check.declare { name := name.name, kind, ty, span := name.span }) := by
    intro ty
    obtain rfl | rfl := hkind <;> exact declare rfl rfl hN
  unfold Check.declareVariable
  split
  · exact bind (checkAssignable _ _ _) fun _ => hdeclare _
  · exact hdeclare _
  · exact hdeclare _
  · exact hdeclare _

theorem checkReturned (ctx : Context) (actual : Ty) (span : Span) :
    Nests N (Check.checkReturned ctx actual span) := by
  unfold Check.checkReturned
  split
  · exact report _ _
  · exact bind scopes fun t => onlyIf (report _ _)

theorem functionSignature (f : Function) : Nests N (Check.functionSignature f) := by
  refine bind (resolve _) fun s? => ?_
  dsimp only
  split
  · exact pure _
  · exact resolveSignature _ _ _

theorem templateSignature (f : Function) : Nests N (Check.templateSignature f) := by
  refine bind scopes fun t => ?_
  dsimp only
  split
  · exact pure _
  · exact resolveSignature _ _ _

theorem methodSignature (m : Method) : Nests N (Check.methodSignature m) := by
  refine bind scopes fun t => ?_
  dsimp only
  split
  · exact pure _
  · exact bind (resolveOptional _ _ _) fun _ => bind (resolveSignature _ _ _) fun _ => pure _

theorem memberSignature (info? : Option ClassInfo) (f : Function) :
    Nests N (Check.memberSignature info? f) := by
  unfold Check.memberSignature
  split
  · exact pure _
  · exact resolveSignature _ _ _

end Nests

theorem opens_openMethod (receiver : Param) (receiverType : Ty) :
    Opens N (openMethod receiver receiverType) := by
  refine (opens_pushScope _).bind_nests fun _ => ?_
  cases receiver.type?.bind TypeExpr.className? with
  | some c => exact Nests.bind (.bindFields c _) fun _ => Nests.redefine rfl rfl trivial
  | none => exact Nests.redefine rfl rfl trivial

theorem opens_openCatch (c : Catch) : Opens N (openCatch c) := by
  refine (opens_pushScope _).bind_nests fun _ => ?_
  split
  · exact Nests.bind (.resolveOptional _ _ _) fun _ => Nests.declare rfl rfl trivial
  · exact Nests.pure _

theorem opens_openClass (name : Ident) (extends? : Option Ident) (implements : List Ident) :
    Opens N (openClass name extends? implements) := by
  refine (Nests.checkHeader name extends? implements).opens_bind fun _ => ?_
  refine Nests.scopes.opens_bind fun t => ?_
  exact (opens_pushScope _).bind_nests fun _ => Nests.bind (.bindFields _ _) fun _ => Nests.pure _

theorem opens_openTemplate (params : List Ident) : Opens N (openTemplate params) :=
  (opens_pushScope _).bind_nests fun _ => Nests.forM _ fun _ => Nests.declare rfl rfl trivial

/-! ### Expressions and statements -/

namespace Nests

/-- What is said of the parts of a template's body. -/
def TemplateParts (ctx : Context) : Stmt → Prop
  | .function f => ∀ sig, Nests (fun _ => True) (Check.checkFunction ctx f.params sig f.body)
  | .class_ c => ∀ ctx info?, Nests (fun _ => True) (Check.checkMembers ctx info? c.members)
  | _ => True

theorem assignPlace {ctx : Context} (op : AssignOp) {target value : Expr} (span : Span)
    (htarget : Nests N (Check.inferType ctx target)) (hvalue : Nests N (Check.inferType ctx value)) :
    Nests N (Check.assignPlace ctx op target value span) := by
  refine bind (checkTarget target) fun place => ?_
  split
  · exact bind htarget fun t => bind hvalue fun v => bind (usedAsValue value v) fun v =>
      bind (storedType op t v span) fun v => bind (checkAssignable t v _) fun _ => pure _
  · exact bind hvalue fun _ => pure _

theorem defineOther {ctx : Context} {target value : Expr}
    (hvalue : Nests N (Check.inferType ctx value)) : Nests N (Check.defineOther ctx target value) :=
  bind hvalue fun ty => bind (usedAsValue value ty) fun _ => bind (report _ _) fun _ => pure _

theorem finishCall {ctx : Context} (callee : String) {args : List Expr} (span : Span)
    (hargs : ∀ params, Nests N (checkArguments ctx callee 1 params args)) (sig? : Option Signature) :
    Nests N (Check.finishCall ctx callee args span sig?) :=
  bind (checkCount? _ _ _ _) fun _ => bind (hargs _) fun _ => pure _

theorem checkCondition {ctx : Context} {e : Expr} (he : Nests N (Check.inferType ctx e)) :
    Nests N (Check.checkCondition ctx e) := bind he fun ty => checkBool ty _

theorem checkCaseValue {ctx : Context} (tag? : Option Ty) {e : Expr}
    (he : Nests N (Check.inferType ctx e)) : Nests N (Check.checkCaseValue ctx tag? e) := by
  refine bind he fun ty => ?_
  cases tag? with
  | some tag => exact checkAssignable tag ty _
  | none => exact checkBool ty _

mutual

theorem inferType {N : String → Prop} (ctx : Context) :
    (e : Expr) → e.BindsOnly N → Nests N (Check.inferType ctx e)
  | .ident n, _ => identifierType n
  | .int .., _ | .float .., _ | .string .., _ | .char .., _ | .bool .., _ | .null _, _ => pure _
  | .prefixed op right span, h => by
    refine bind (inferType ctx right h) fun operand => ?_
    cases op
    all_goals
      dsimp only
      split
      · exact bind (report _ _) fun _ => pure _
      · exact pure _
  | .binary op left right span, h =>
    bind (inferType ctx left h.1) fun l => bind (inferType ctx right h.2) fun r =>
      binaryResult op l r span
  | .postfixed op operand span, h => by
    refine bind (inferType ctx operand h) fun ty => bind (checkTarget operand) fun _ => ?_
    dsimp only
    split
    · exact bind (report _ _) fun _ => pure _
    · exact pure _
  | .assign op target value span, h => by
    have htarget := inferType (N := N) ctx target
    have hvalue := inferType (N := N) ctx value
    cases op with
    | define =>
      cases target with
      | ident n =>
        exact bind (hvalue h.2) fun ty => bind (usedAsValue value ty) fun ty =>
          defineByAssignment ctx h.1 ty
      | _ =>
        rw [Check.inferType_define ctx (by simp)]
        exact defineOther (hvalue h.2)
    | assign | compound op =>
      rw [Check.inferType_assign ctx (by simp)]
      exact assignPlace _ span (htarget h.1) (hvalue h.2)
  | .call function args span, h => by
    have hend := fun callee => finishCall callee span fun params =>
      checkArguments (N := N) ctx callee 1 params args h.2
    cases function with
    | ident n => exact bind (namedSignature _ n) (hend _)
    | member object property arrow memberSpan =>
      refine bind (packageOf? object) fun package? => ?_
      cases package? with
      | some package => exact bind (packageMember package property) (hend _)
      | none =>
        refine bind (inferType ctx object h.1) fun o => bind (memberType o property) fun ty? => ?_
        cases ty? with
        | some ty => exact bind (signatureOf _ ty) (hend _)
        | none => exact hend _ none
    | templateInstance n typeArgs instanceSpan =>
      refine bind (instantiate n typeArgs instanceSpan) fun i? => ?_
      match i? with
      | some (.function sig) => exact hend _ (some sig)
      | some (.class_ name) => exact bind (report _ _) fun _ => hend _ none
      | none => exact hend _ none
    | _ => exact bind (inferType ctx _ h.1) fun ty => bind (signatureOf _ ty) (hend _)
  | .index object key _, h => by
    refine bind (inferType ctx object h.1) fun o => bind (inferType ctx key h.2) fun k => ?_
    have hindexed : ∀ expected result : Ty, Nests N (do
        if !(← Check.assignable expected k) then
          Check.report (.invalidIndex expected k) key.span
        return result) := by
      intro expected result
      refine bind (assignable _ _) fun fits => ?_
      dsimp only
      split
      · exact bind (report _ _) fun _ => pure _
      · exact pure _
    dsimp only
    split
    · exact hindexed _ _
    · exact hindexed _ _
    · split
      · exact hindexed _ _
      · split
        · exact bind (report _ _) fun _ => pure _
        · exact pure _
  | .member object property _ _, h => by
    refine bind (packageOf? object) fun package? => ?_
    cases package? with
    | some package => exact bind (packageMember package property) fun _ => pure _
    | none =>
      exact bind (inferType ctx object h) fun o => bind (memberType o property) fun _ => pure _
  | .array elements _, h => bind (inferElements ctx none elements h) fun _ => pure _
  | .hash entries _, h =>
    bind (inferKeys ctx none entries h) fun _ => bind (inferValues ctx none entries h) fun _ => pure _
  | .lambda params ret? body _, _ =>
    bind (resolveSignature [] params ret?) fun sig =>
      bind (checkFunction ctx params sig body) fun _ => pure _
  | .new type args span, h => by
    refine bind (newClass type) fun n? => ?_
    cases n? with
    | none => exact pure _
    | some n =>
      refine bind (resolve _) fun s? => ?_
      cases s? with
      | none =>
        exact bind (report _ _) fun _ => bind (checkArguments ctx n.name 1 [] args h) fun _ => pure _
      | some s =>
        dsimp only
        split
        · exact bind scopes fun t => bind (checkCount? _ _ _ _) fun _ =>
            bind (checkArguments ctx _ 1 _ args h) fun _ => pure _
        · exact bind (report _ _) fun _ => pure _
  | .this span, _ => thisType ctx span
  | .super span, _ => superType ctx span
  | .templateInstance n typeArgs span, _ => by
    refine bind (instantiate n typeArgs span) fun i => ?_
    split <;> exact pure _

theorem checkArguments {N : String → Prop} (ctx : Context) (callee : String) (index : Nat)
    (params : List Ty) : (args : List Expr) → Expr.AllBindOnly N args →
      Nests N (Check.checkArguments ctx callee index params args)
  | [], _ => pure _
  | e :: es, h => by
    refine bind (inferType ctx e h.1) fun ty => bind (usedAsValue e ty) fun actual => ?_
    have hrest := fun params => checkArguments ctx callee (index + 1) params es h.2
    cases params with
    | nil => exact hrest _
    | cons param params =>
      refine bind (assignable _ _) fun fits => ?_
      split
      · exact bind (report _ _) fun _ => hrest _
      · exact hrest _

theorem inferElements {N : String → Prop} (ctx : Context) (common? : Option Ty) :
    (es : List Expr) → Expr.AllBindOnly N es → Nests N (Check.inferElements ctx common? es)
  | [], _ => pure _
  | e :: es, h =>
    bind (inferType ctx e h.1) fun ty => bind (commonType common? ty e.span) fun common =>
      inferElements ctx (some common) es h.2

theorem inferKeys {N : String → Prop} (ctx : Context) (common? : Option Ty) :
    (es : List Entry) → Entry.AllBindOnly N es → Nests N (Check.inferKeys ctx common? es)
  | [], _ => pure _
  | ⟨key, _⟩ :: es, h =>
    bind (inferType ctx key h.1.1) fun ty => bind (commonType common? ty key.span) fun common =>
      inferKeys ctx (some common) es h.2

theorem inferValues {N : String → Prop} (ctx : Context) (common? : Option Ty) :
    (es : List Entry) → Entry.AllBindOnly N es → Nests N (Check.inferValues ctx common? es)
  | [], _ => pure _
  | ⟨_, value⟩ :: es, h =>
    bind (inferType ctx value h.1.2) fun ty => bind (commonType common? ty value.span) fun common =>
      inferValues ctx (some common) es h.2

theorem checkFunction {N : String → Prop} (ctx : Context) (params : List Param) (sig : Signature) :
    (body : Block) → Nests N (Check.checkFunction ctx params sig body)
  | ⟨stmts, _⟩ =>
    (opens_pushScope _).bind fun _ => inside (declareParams params sig) fun _ =>
      inside (checkStmts _ stmts) fun _ => closes_popScope

theorem checkStmts (ctx : Context) :
    (ss : List Stmt) → Nests (fun _ => True) (Check.checkStmts ctx ss)
  | [] => pure _
  | s :: ss => bind (checkStmt ctx s s.bindsOnly_true) fun _ => checkStmts ctx ss

theorem checkStmt {N : String → Prop} (ctx : Context) :
    (s : Stmt) → s.BindsOnly N → Nests N (Check.checkStmt ctx s)
  | .package .., _ | .interface .., _ => pure _
  | .imports paths span, h => checkImports h span
  | .var name type? value? _, h => by
    have hvalue := inferTypeIf ctx value? h.2
    rw [Check.checkStmt]
    refine bind (declaredType type?) fun declared? => ?_
    cases value? with
    | some value =>
      exact bind hvalue fun ty => bind (usedAsValue value ty) fun _ =>
        declareVariable ctx (.inl rfl) h.1 _ _
    | none => exact declareVariable ctx (.inl rfl) h.1 _ _
  | .const name type? value _, h =>
    bind (declaredType type?) fun _ => bind (inferType ctx value h.2) fun ty =>
      bind (usedAsValue value ty) fun _ => declareVariable ctx (.inr rfl) h.1 _ _
  | .ret value? span, h => by
    have hvalue := inferTypeIf ctx value? h
    cases value? with
    | some value => exact bind hvalue fun ty => bind (judge _) fun _ => checkReturned ctx ty span
    | none => exact checkReturned ctx _ span
  | .expr e, h => bind (inferType ctx e h) fun _ => pure _
  | .block b, _ => checkBlock ctx .block b
  | .ifElse condition consequence alternative? _, h => by
    rw [Check.checkStmt_ifElse]
    exact bind (checkCondition (inferType ctx condition h.1)) fun _ =>
      bind (checkBlock ctx .block consequence) fun _ => checkStmtIf ctx alternative? h.2
  | .forLoop init? condition? post? body _, _ => by
    have hinit := checkStmtIf ctx init? (Stmt.ifBindsOnly_true init?)
    have hcondition := checkConditionIf ctx condition? (Expr.ifBindsOnly_true condition?)
    have hpost := checkStmtIf ctx post? (Stmt.ifBindsOnly_true post?)
    have hbody := checkBlock (N := N) { ctx with inLoop := true } .block body
    rw [Check.checkStmt_forLoop]
    exact (opens_pushScope _).bind fun _ => inside hinit fun _ => inside hcondition fun _ =>
      inside hpost fun _ => inside hbody fun _ => closes_popScope
  | .whileLoop condition body _, h =>
    bind (inferType ctx condition h) fun ty => bind (checkBool ty _) fun _ => checkBlock _ .loop body
  | .switch tag? cases_ default? _, h => by
    rw [Check.checkStmt_switch]
    exact bind (tagType ctx tag? h.1) fun ty? => bind (checkCaseValues ctx ty? cases_ h.2) fun _ =>
      bind (checkCaseBodies _ cases_) fun _ => checkBlockIf _ default?
  | .break_ span, _ => onlyIf (report _ _)
  | .continue_ span, _ => onlyIf (report _ _)
  | .function ⟨name, params, ret?, body, modifiers, span⟩, _ => by
    rw [Check.checkStmt_function]
    exact bind (functionSignature ⟨name, params, ret?, body, modifiers, span⟩) fun sig =>
      checkFunction ctx params sig body
  | .method ⟨receiver, name, params, ret?, body, span⟩, _ => by
    have hbody := fun sig => checkFunction (N := N) (methodContext ctx receiver) params sig body
    rw [Check.checkStmt_method]
    refine bind (methodSignature ⟨receiver, name, params, ret?, body, span⟩) fun k => ?_
    exact (opens_openMethod receiver _).bind fun _ => inside (hbody _) fun _ => closes_popScope
  | .class_ ⟨name, extends?, implements, members, _⟩, _ =>
    (opens_openClass _ _ _).bind fun info? => inside (checkMembers _ info? members) fun _ =>
      closes_popScope
  | .template typeParams body _, _ => by
    have hstmt := checkStmt ctx body body.bindsOnly_true
    have hparts := templateParts ctx body
    cases body with
    | function f =>
      rw [Check.checkStmt_templateFunction]
      exact (opens_openTemplate typeParams).bind fun _ =>
        inside (templateSignature (N := N) f) fun sig => inside (hparts sig) fun _ => closes_popScope
    | class_ c =>
      obtain ⟨name, extends?, implements, members, span⟩ := c
      exact (opens_openTemplate typeParams).bind fun _ => (opens_openClass _ _ _).bind fun info? =>
        inside (hparts _ info?) fun _ => closes_popScope_bind closes_popScope
    | _ => exact (opens_openTemplate typeParams).bind fun _ => inside hstmt fun _ => closes_popScope
  | .tryCatch body catches finally? _, _ => by
    rw [Check.checkStmt_tryCatch]
    exact bind (checkBlock ctx .block body) fun _ => bind (checkCatches ctx catches) fun _ =>
      checkBlockIf ctx finally?
  | .throw value _, h => bind (inferType ctx value h) fun _ => pure _
  | .scope body _, _ => checkBlock ctx .block body

theorem inferTypeIf {N : String → Prop} (ctx : Context) : (e? : Option Expr) →
    IfAny (Expr.BindsOnly N) e? → IfAny (fun e => Nests N (Check.inferType ctx e)) e?
  | some e, h => inferType ctx e h
  | none, _ => trivial

theorem checkConditionIf {N : String → Prop} (ctx : Context) : (e? : Option Expr) →
    IfAny (Expr.BindsOnly N) e? → Nests N (Check.checkConditionIf ctx e?)
  | some e, h => checkCondition (inferType ctx e h)
  | none, _ => pure _

theorem tagType {N : String → Prop} (ctx : Context) : (tag? : Option Expr) →
    IfAny (Expr.BindsOnly N) tag? → Nests N (Check.tagType ctx tag?)
  | some tag, h => bind (inferType ctx tag h) fun _ => pure _
  | none, _ => pure _

theorem checkStmtIf {N : String → Prop} (ctx : Context) : (s? : Option Stmt) →
    Stmt.IfBindsOnly N s? → Nests N (Check.checkStmtIf ctx s?)
  | some s, h => checkStmt ctx s h
  | none, _ => pure _

theorem checkBlockIf {N : String → Prop} (ctx : Context) :
    (b? : Option Block) → Nests N (Check.checkBlockIf ctx b?)
  | some b => checkBlock ctx .block b
  | none => pure _

theorem templateParts (ctx : Context) : (s : Stmt) → TemplateParts ctx s
  | .function ⟨_, params, _, body, _, _⟩ => fun sig => checkFunction ctx params sig body
  | .class_ ⟨_, _, _, members, _⟩ => fun ctx info? => checkMembers ctx info? members
  | .package .. | .imports .. | .var .. | .const .. | .ret .. | .expr .. | .block .. | .ifElse ..
  | .forLoop .. | .whileLoop .. | .switch .. | .break_ .. | .continue_ .. | .method .. => trivial
  | .interface .. | .template .. | .tryCatch .. | .throw .. | .scope .. => trivial

theorem checkBlock {N : String → Prop} (ctx : Context) (kind : ScopeKind) :
    (b : Block) → Nests N (Check.checkBlock ctx kind b)
  | ⟨stmts, _⟩ =>
    (opens_pushScope kind).bind fun _ => inside (checkStmts ctx stmts) fun _ => closes_popScope

theorem checkTagged {N : String → Prop} (ctx : Context) (tag? : Option Ty) :
    (es : List Expr) → Expr.AllBindOnly N es → Nests N (Check.checkTagged ctx tag? es)
  | [], _ => pure _
  | e :: es, h => by
    rw [Check.checkTagged_cons]
    exact bind (checkCaseValue tag? (inferType ctx e h.1)) fun _ => checkTagged ctx tag? es h.2

theorem checkCaseValues {N : String → Prop} (ctx : Context) (tag? : Option Ty) :
    (cs : List Case) → (∀ c ∈ cs, Expr.AllBindOnly N c.values) →
      Nests N (Check.checkCaseValues ctx tag? cs)
  | [], _ => pure _
  | ⟨values, _, _⟩ :: cs, h =>
    bind (checkTagged ctx tag? values (h _ List.mem_cons_self)) fun _ =>
      checkCaseValues ctx tag? cs fun c hc => h c (List.mem_cons_of_mem _ hc)

theorem checkCaseBodies {N : String → Prop} (ctx : Context) :
    (cs : List Case) → Nests N (Check.checkCaseBodies ctx cs)
  | [] => pure _
  | ⟨_, body, _⟩ :: cs => bind (checkBlock ctx .block body) fun _ => checkCaseBodies ctx cs

theorem checkCatches {N : String → Prop} (ctx : Context) :
    (cs : List Catch) → Nests N (Check.checkCatches ctx cs)
  | [] => pure _
  | ⟨param?, type?, ⟨stmts, span⟩, span'⟩ :: cs => by
    rw [Check.checkCatches_cons]
    refine (opens_openCatch ⟨param?, type?, ⟨stmts, span⟩, span'⟩).bind fun _ => ?_
    exact inside (checkStmts ctx stmts) fun _ => closes_popScope_bind (checkCatches ctx cs)

theorem checkMembers (ctx : Context) (info? : Option ClassInfo) :
    (ms : List Member) → Nests (fun _ => True) (Check.checkMembers ctx info? ms)
  | [] => pure _
  | .field ⟨name, _, value?, _, _, _⟩ :: ms => by
    have hvalue := inferTypeIf ctx value? (Expr.ifBindsOnly_true value?)
    have hrest := checkMembers ctx info? ms
    cases value? with
    | some value =>
      exact bind hvalue fun ty => bind (usedAsValue value ty) fun _ =>
        bind (checkAssignable _ _ _) fun _ => hrest
    | none => exact hrest
  | .method ⟨name, params, ret?, body, modifiers, span⟩ :: ms => by
    rw [Check.checkMembers_method]
    exact bind (memberSignature info? ⟨name, params, ret?, body, modifiers, span⟩) fun sig =>
      bind (checkFunction ctx params sig body) fun _ => checkMembers ctx info? ms

end

end Nests

end Check

end ClassLang
