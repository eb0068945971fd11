import ClassLang.Proofs.Analysis.Points

/-!
# Calls without a value

A call of a function without a result has the type `void`. Most roles ask for a value: there such a call
is reported. A few take whatever type they get, or compare two types with each other; they let it pass.
-/

namespace ClassLang

open Check (Vouches Nests)

/-- Whether a role takes a call that has no value. -/
def Role.admitsVoid : Role → Bool
  | .statement | .element | .entry | .tag | .thrown => true
  | .operand op other => other.isWildcard || op.isComparison && other.isVoid
  | .returned expected? => expected?.any Ty.isVoid
  | .key o => o.isWildcard ||
      match o with
      | .map k _ => k.isVoid || k.isWildcard
      | _ => false
  | .caseValue tag? => tag?.any fun tag => tag.isVoid || tag.isWildcard
  | _ => false

/-! ## Types -/

namespace Ty

variable {t u l r : Ty} {s : ScopeTree} {op : InfixOp}

theorem exists_of_isVoid (h : t.isVoid = true) : ∃ n, t = basic n .void :=
  kind?_eq_some.1 (isKind_eq_true.1 h)

/-- Only where there is no value either, what has none can be stored. -/
theorem of_assignable_void (hu : u.isVoid = true) (h : s.assignable t u = true) :
    t.isVoid = true ∨ t.isWildcard = true := by
  obtain ⟨n, rfl⟩ := exists_of_isVoid hu
  cases t with
  | basic m k =>
    obtain rfl | rfl : k = .unknown ∨ k = .void := by
      simpa [ScopeTree.assignable, accepts, same, isWildcard, isKind, kind?] using h
    · exact .inr rfl
    · exact .inl rfl
  | _ => simp_all [ScopeTree.assignable, accepts, same, isWildcard, isKind, kind?]

theorem of_void_assignable (ht : t.isVoid = true) (h : s.assignable t u = true) :
    u.isVoid = true ∨ u.isWildcard = true := by
  obtain ⟨n, rfl⟩ := exists_of_isVoid ht
  cases u with
  | basic m k =>
    obtain rfl | rfl : k = .unknown ∨ .void = k := by
      simpa [ScopeTree.assignable, accepts, same, isWildcard, isKind, kind?, isReference, isString]
        using h
    · exact .inr rfl
    · exact .inl rfl
  | _ => simp_all [ScopeTree.assignable, accepts, same, isWildcard, isKind, kind?]

/-- But for comparisons, an operator takes an operand without a value beside a wildcard only. -/
theorem resultOf_void (hop : op.isComparison = false) (h : l.isVoid = true ∧ r.isWildcard = false ∨
    r.isVoid = true ∧ l.isWildcard = false) : Check.resultOf s op l r = none := by
  obtain ⟨hv, hw⟩ | ⟨hv, hw⟩ := h
  all_goals
    obtain ⟨n, rfl⟩ := exists_of_isVoid hv
    have hvoid : (basic n .void).isWildcard = false := rfl
    simp [Check.resultOf, hop, hw, hvoid, isBool, isString, isInt, isFloat, isNumeric, isKind, kind?]

theorem of_comparison_void (hop : op.isComparison = true)
    (h : (Check.resultOf s op l r).isSome = true) :
    (l.isVoid = true → r.isVoid = true ∨ r.isWildcard = true) ∧
      (r.isVoid = true → l.isVoid = true ∨ l.isWildcard = true) := by
  have hlogical : op.isLogical = false := by cases op <;> first | rfl | cases hop
  have hfits : s.assignable l r = true ∨ s.assignable r l = true := by
    rw [Check.resultOf, hlogical, hop] at h
    by_contra hno
    simp_all
  exact ⟨fun hl => hfits.elim (of_void_assignable hl) (of_assignable_void hl),
    fun hr => hfits.elim (of_assignable_void hr) (of_void_assignable hr)⟩

end Ty

/-! ## What is checked of a type -/

namespace Check.Vouches

/-- A test that is reported when it holds. -/
theorem test {c : Prop} [Decidable c] {cause : Finding.Cause} {span : Span}
    (h : cause.level = .error) :
    Vouches (if c then Check.report cause span else Pure.pure ()) fun _ => ¬ c := by
  split
  · exact (report h).mono fun _ => False.elim
  next hc => exact pure hc

/-- Before what follows, a type without a value is reported. -/
theorem refuse {c : Prop} [Decidable c] {cause : Finding.Cause} {span : Span} {β : Type}
    {f : Unit → Check β} {ty : Ty} (h : cause.level = .error) (hf : Nests (fun _ => True) (f ()))
    (hc : ∀ n, ty = .basic n .void → c) :
    Vouches (if c then Check.report cause span >>= f else f ()) fun _ => ty.isVoid = false := by
  split
  · exact error h hf
  next hno =>
    refine nests hf fun _ => Bool.eq_false_iff.2 fun hvoid => hno ?_
    obtain ⟨n, hn⟩ := Ty.exists_of_isVoid hvoid
    exact hc n hn

theorem usedAsValue (e : Expr) (ty : Ty) :
    Vouches (Check.usedAsValue e ty) fun _ => ty.isVoid = false := by
  unfold Check.usedAsValue
  split
  · exact error rfl (.pure _)
  next h => exact pure (Bool.eq_false_iff.2 h)

theorem checkBool (ty : Ty) (span : Span) :
    Vouches (Check.checkBool ty span) fun _ => ty.isVoid = false := by
  refine (test rfl).mono fun _ h => Bool.eq_false_iff.2 fun hvoid => h ?_
  obtain ⟨n, rfl⟩ := Ty.exists_of_isVoid hvoid
  rfl

theorem memberType (object : Ty) (property : Ident) :
    Vouches (Check.memberType object property) fun _ => object.isVoid = false := by
  unfold Check.memberType
  split
  next h => exact pure (Ty.isKind_of_isWildcard h nofun)
  · refine skip .scopes fun t => ?_
    dsimp only
    split
    · exact error rfl (.pure _)
    next h =>
      refine pure (Bool.eq_false_iff.2 fun hvoid => h ?_)
      obtain ⟨n, rfl⟩ := Ty.exists_of_isVoid hvoid
      rfl

theorem signatureOf (callee : Expr) (ty : Ty) :
    Vouches (Check.signatureOf callee ty) fun _ => ty.isVoid = false := by
  by_cases hvoid : ty.isVoid = true
  · obtain ⟨n, rfl⟩ := Ty.exists_of_isVoid hvoid
    exact error rfl (.pure _)
  · exact nests (.signatureOf callee ty) fun _ => Bool.eq_false_iff.2 hvoid

theorem binaryResult (op : InfixOp) (l r : Ty) (span : Span) :
    Vouches (Check.binaryResult op l r span) fun _ =>
      (l.isVoid = true → (Role.operand op r).admitsVoid = true) ∧
        (r.isVoid = true → (Role.operand op l).admitsVoid = true) := by
  refine skip (.judge _) fun _ => skip .scopes fun t => ?_
  cases hresult : resultOf t op l r with
  | none => exact error rfl (.pure _)
  | some v =>
    refine pure ?_
    cases hop : op.isComparison with
    | true =>
      have hvoid := Ty.of_comparison_void hop (Option.isSome_of_eq_some hresult)
      simpa [Role.admitsVoid, hop, or_comm] using hvoid
    | false =>
      simp only [Role.admitsVoid, hop, Bool.false_and, Bool.or_false]
      constructor
      all_goals
        intro hvoid
        by_contra hwildcard
        rw [Bool.not_eq_true] at hwildcard
      · rw [Ty.resultOf_void hop (.inl ⟨hvoid, hwildcard⟩)] at hresult
        cases hresult
      · rw [Ty.resultOf_void hop (.inr ⟨hvoid, hwildcard⟩)] at hresult
        cases hresult

theorem assignable (target value : Ty) :
    Vouches (Check.assignable target value) fun fits =>
      fits = true → value.isVoid = true → target.isVoid = true ∨ target.isWildcard = true :=
  fun _ ha => ⟨ha, fun hfits hvoid => Ty.of_assignable_void hvoid hfits⟩

theorem checkAssignable (expected actual : Ty) (span : Span) :
    Vouches (Check.checkAssignable expected actual span) fun _ =>
      actual.isVoid = true → expected.isVoid = true ∨ expected.isWildcard = true := by
  refine bind (assignable expected actual) fun fits => (test rfl).mono fun _ h hfits => ?_
  exact hfits (by simpa using h)

/-- An index must fit what the object is indexed by. -/
theorem indexed (expected k result : Ty) (span : Span) :
    Vouches (do
      if !(← Check.assignable expected k) then Check.report (.invalidIndex expected k) span
      return result) fun _ =>
      k.isVoid = true → expected.isVoid = true ∨ expected.isWildcard = true := by
  refine bind (assignable expected k) fun fits => ?_
  cases fits with
  | true => exact pure fun hfits => hfits rfl
  | false => exact error rfl (.pure _)

theorem elementType (o k : Ty) (span span' : Span) :
    Vouches (Check.elementType o k span span') fun _ =>
      o.isVoid = false ∧ (k.isVoid = true → (Role.key o).admitsVoid = true) := by
  have hint : ¬ (Ty.int.isVoid = true ∨ Ty.int.isWildcard = true) := by decide
  cases o with
  | array element => exact (indexed _ _ _ _).mono fun _ h => ⟨rfl, fun hk => absurd (h hk) hint⟩
  | map keyType value =>
    refine (indexed _ _ _ _).mono fun _ h => ⟨rfl, fun hk => ?_⟩
    simpa [Role.admitsVoid, Ty.isWildcard] using h hk
  | basic n kind =>
    cases kind with
    | string => exact (indexed _ _ _ _).mono fun _ h => ⟨rfl, fun hk => absurd (h hk) hint⟩
    | unknown => exact pure ⟨rfl, fun _ => rfl⟩
    | _ => exact error rfl (.pure _)
  | template name params base? =>
    cases base? with
    | some base => exact error rfl (.pure _)
    | none => exact pure ⟨rfl, fun _ => rfl⟩
  | _ => exact error rfl (.pure _)

theorem checkReturned (ctx : Context) (actual : Ty) (span : Span) :
    Vouches (Check.checkReturned ctx actual span) fun _ =>
      actual.isVoid = true → (Role.returned ctx.returns?).admitsVoid = true := by
  unfold Check.checkReturned
  cases ctx.returns? with
  | none => exact (report rfl).mono fun _ => False.elim
  | some expected =>
    refine skip .scopes fun t => (test rfl).mono fun _ h hvoid => ?_
    simp only [hvoid, Bool.or_true, if_true] at h
    simpa [Role.admitsVoid] using h

end Check.Vouches

/-! ## What is checked at a point -/

/-- An expression stands where its role admits it, and there are no errors after it. -/
structure Suits (c : Role × Point) : Prop where
  clean : c.2.stop.hasErrors = false
  admitted : ∀ function args span, c.2.part = .expr (.call function args span) →
    (c.2.start.answer (Check.inferType c.2.ctx (.call function args span))).isVoid = true →
      c.1.admitsVoid = true

def AllSuit (cs : List (Role × Point)) : Prop := ∀ c ∈ cs, Suits c

theorem allSuit_nil : AllSuit [] := List.forall_mem_nil _

theorem allSuit_cons {c : Role × Point} {cs : List (Role × Point)} :
    AllSuit (c :: cs) ↔ Suits c ∧ AllSuit cs := List.forall_mem_cons

theorem allSuit_append {cs ds : List (Role × Point)} :
    AllSuit (cs ++ ds) ↔ AllSuit cs ∧ AllSuit ds := List.forall_mem_append

theorem AllSuit.single {c : Role × Point} (h : Suits c) : AllSuit [c] := allSuit_cons.2 ⟨h, allSuit_nil⟩

theorem AllSuit.pair {c d : Role × Point} (h : Suits c) (h' : Suits d) : AllSuit [c, d] :=
  allSuit_cons.2 ⟨h, .single h'⟩

theorem Suits.expr {ctx : Context} {a : Analysis} {e : Expr} {role : Role}
    (hclean : (a.after (Check.inferType ctx e)).hasErrors = false)
    (h : (a.answer (Check.inferType ctx e)).isVoid = true → role.admitsVoid = true) :
    Suits (role, ⟨ctx, .expr e, a⟩) := by
  refine ⟨hclean, fun function args span hpart hvoid => h ?_⟩
  obtain rfl : e = .call function args span := by simpa using hpart
  exact hvoid

/-- A role that asks for a value has got one. -/
theorem Suits.value {ctx : Context} {a : Analysis} {e : Expr} {role : Role}
    (hclean : (a.after (Check.inferType ctx e)).hasErrors = false)
    (h : (a.answer (Check.inferType ctx e)).isVoid = false) :
    Suits (role, ⟨ctx, .expr e, a⟩) :=
  .expr hclean fun hvoid => absurd (h.symm.trans hvoid) Bool.false_ne_true

theorem Suits.part {role : Role} {q : Point} (hclean : q.stop.hasErrors = false)
    (h : ∀ e, q.part ≠ .expr e) : Suits (role, q) :=
  ⟨hclean, fun _ _ _ hpart => absurd hpart (h _)⟩

namespace Check

variable {α β : Type} {x : Check α} {f : α → Check β} {Q : α → Prop} {P R : Prop} {a : Analysis}

/-- If there is no error after a step from this state on, there was none before, and `R` holds. -/
def Grants (a : Analysis) (x : Check α) (R : Prop) : Prop :=
  (a.after x).hasErrors = false → a.hasErrors = false ∧ R

namespace Grants

theorem of_vouches (h : Vouches x Q) : Grants a x (Q (a.answer x)) := h a

theorem bind (hx : Grants a x P) (hf : Grants (a.after x) (f (a.answer x)) (P → R)) :
    Grants a (x >>= f) R := by
  intro ha
  obtain ⟨hclean, hR⟩ := hf ha
  obtain ⟨hclean, hP⟩ := hx hclean
  exact ⟨hclean, hR hP⟩

/-- The check of a part, after which there are no errors. -/
theorem child (hx : Nests (fun _ => True) x)
    (hf : Grants (a.after x) (f (a.answer x)) ((a.after x).hasErrors = false → R)) :
    Grants a (x >>= f) R :=
  bind (fun ha => ⟨(Vouches.nests hx (fun _ => trivial) a ha).1, ha⟩) hf

theorem check (hx : Vouches x Q) (hf : Grants (a.after x) (f (a.answer x)) (Q (a.answer x) → R)) :
    Grants a (x >>= f) R :=
  bind (of_vouches hx) hf

theorem skip (hx : Vouches x fun _ => True) (hf : Grants (a.after x) (f (a.answer x)) R) :
    Grants a (x >>= f) R :=
  check hx fun ha => ⟨(hf ha).1, fun _ => (hf ha).2⟩

theorem last (hx : Vouches x Q) (hR : Q (a.answer x) → R) : Grants a x R :=
  fun ha => (of_vouches hx ha).imp_right hR

/-- A last step that checks a part. -/
theorem final (hx : Nests (fun _ => True) x) (hR : (a.after x).hasErrors = false → R) :
    Grants a x R :=
  fun ha => ⟨(Vouches.nests hx (fun _ => trivial) a ha).1, hR ha⟩

/-- A last step of no interest. -/
theorem done (hx : Nests (fun _ => True) x) (hR : R) : Grants a x R :=
  last (.nests hx fun _ => trivial) fun _ => hR

theorem mono (hx : Grants a x P) (h : P → R) : Grants a x R := fun ha => (hx ha).imp_right h

/-- Where there is an error, whatever may be said. -/
theorem error {cause : Finding.Cause} {span : Span} {f : Unit → Check β} (h : cause.level = .error)
    (hf : Nests (fun _ => True) (f ())) : Grants a (Check.report cause span >>= f) R :=
  last (Q := fun _ => False) (.error h hf) False.elim

/-! ### Expressions -/

variable {ctx : Context}

theorem infers (ctx : Context) (e : Expr) : Nests (fun _ => True) (Check.inferType ctx e) :=
  .inferType ctx e e.bindsOnly_true

/-- The object of a member comes first. -/
theorem object {object : Expr} {property : Ident} {g : String → Check β} {k : Option Ty → Check β}
    (hg : ∀ package, Nests (fun _ => True) (g package)) (hk : ∀ ty?, Nests (fun _ => True) (k ty?)) :
    Grants a (Check.packageOf? object >>= fun package? =>
      match package? with
      | some package => g package
      | none => Check.inferType ctx object >>= fun o => Check.memberType o property >>= k)
      (AllSuit (object.objectChildren ctx a)) := by
  refine skip (.nests (.packageOf? object) fun _ => trivial) ?_
  unfold Expr.objectChildren
  cases a.answer (Check.packageOf? object) with
  | some package => exact done (hg package) allSuit_nil
  | none =>
    refine child (infers ctx object) (check (Vouches.memberType _ property) ?_)
    exact done (hk _) fun hvalue hclean => .single (.value hclean hvalue)

theorem calleeSignature (ctx : Context) (a : Analysis) (function : Expr) :
    Grants a (Check.calleeSignature ctx function) (AllSuit (function.calleeChildren ctx a)) := by
  have hother : Grants a (Check.inferType ctx function >>= Check.signatureOf function)
      (AllSuit [(.callee, ⟨ctx, .expr function, a⟩)]) :=
    child (infers ctx function) (last (.signatureOf function _)
      fun hvalue hclean => .single (.value hclean hvalue))
  cases function with
  | ident n => exact done (.namedSignature _ n) allSuit_nil
  | templateInstance n typeArgs span =>
    refine done (.bind (.instantiate n typeArgs span) fun i? => ?_) allSuit_nil
    rcases i? with _ | sig | name
    · exact .pure _
    · exact .pure _
    · exact .bind (.report _ _) fun _ => .pure _
  | member callee property arrow span =>
    refine object (.packageMember · property) fun ty? => ?_
    cases ty? with
    | some ty => exact .signatureOf _ ty
    | none => exact .pure _
  | _ => exact hother

theorem binary (op : InfixOp) (left right : Expr) (span : Span) :
    Grants a (Check.inferType ctx (.binary op left right span))
      (AllSuit (Expr.children ctx a (.binary op left right span))) := by
  refine child (infers ctx left) (child (infers ctx right) (last (.binaryResult op _ _ span) ?_))
  exact fun hvoid hright hleft => .pair (.expr hleft hvoid.1) (.expr hright hvoid.2)

theorem prefixed (op : PrefixOp) (right : Expr) (span : Span) :
    Grants a (Check.inferType ctx (.prefixed op right span))
      (AllSuit (Expr.children ctx a (.prefixed op right span))) := by
  refine child (infers ctx right) ?_
  cases op
  all_goals
    refine last (Vouches.refuse rfl (.pure _) ?_) fun hvalue hclean => .single (.value hclean hvalue)
    intro n hn
    rw [hn]
    rfl

theorem postfixed (op : PostfixOp) (operand : Expr) (span : Span) :
    Grants a (Check.inferType ctx (.postfixed op operand span))
      (AllSuit (Expr.children ctx a (.postfixed op operand span))) := by
  refine child (infers ctx operand) (skip (.nests (.checkTarget operand) fun _ => trivial) ?_)
  refine last (Vouches.refuse rfl (.pure _) ?_) fun hvalue hclean => .single (.value hclean hvalue)
  intro n hn
  rw [hn]
  rfl

/-- An assignment to a place. Nothing that is called is one. -/
theorem assignPlace (op : AssignOp) (target value : Expr) (span : Span) :
    Grants a (Check.assignPlace ctx op target value span)
      (AllSuit [(.target, ⟨ctx, .expr target, a.after (Check.checkTarget target)⟩),
        (.assigned, ⟨ctx, .expr value,
          (a.after (Check.checkTarget target)).after (Check.inferType ctx target)⟩)]) := by
  refine check (Vouches.checkTarget target) ?_
  cases a.answer (Check.checkTarget target) with
  | false =>
    exact done (.bind (infers ctx value) fun _ => .pure _) fun h => absurd h.1 Bool.false_ne_true
  | true =>
    refine child (infers ctx target) (child (infers ctx value) (check (.usedAsValue value _) ?_))
    refine done (.bind (.storedType op _ _ span) fun _ => .bind (.checkAssignable _ _ _) fun _ =>
      .pure _) ?_
    intro hvalue hclean htarget hplace
    refine .pair ⟨htarget, fun function args span hpart => ?_⟩ (.value hclean hvalue)
    obtain rfl : target = .call function args span := by simpa using hpart
    exact absurd hplace.2 Bool.false_ne_true

/-- The definition of what is no name is an error, whatever is asked of its parts. -/
theorem defineOther (target value : Expr) (R : Prop) :
    Grants a (Check.defineOther ctx target value) R :=
  skip (.nests (infers ctx value) fun _ => trivial)
    (skip (.nests (.usedAsValue value _) fun _ => trivial) (error rfl (.pure _)))

theorem assign (op : AssignOp) (target value : Expr) (span : Span) :
    Grants a (Check.inferType ctx (.assign op target value span))
      (AllSuit (Expr.children ctx a (.assign op target value span))) := by
  cases op with
  | define =>
    cases target with
    | ident n =>
      refine child (infers ctx value) (check (.usedAsValue value _) ?_)
      exact done (.defineByAssignment ctx trivial _) fun hvalue hclean => .single (.value hclean hvalue)
    | _ =>
      rw [inferType_define ctx (by simp)]
      exact defineOther _ value _
  | assign | compound op =>
    rw [inferType_assign ctx (by simp)]
    exact assignPlace _ target value span

theorem call (function : Expr) (args : List Expr) (span : Span) :
    Grants a (Check.inferType ctx (.call function args span))
      (AllSuit (Expr.children ctx a (.call function args span))) := by
  rw [inferType_call]
  refine bind (calleeSignature ctx a function) (skip (.nests (.checkCount? _ _ _ _) fun _ => trivial) ?_)
  refine child (.checkArguments ctx _ _ _ args (Expr.allBindOnly_true args)) ?_
  refine done (.pure _) fun hclean hcallee => ?_
  exact allSuit_append.2 ⟨hcallee, .single (.part hclean nofun)⟩

theorem new (type : TypeExpr) (args : List Expr) (span : Span) :
    Grants a (Check.inferType ctx (.new type args span))
      (AllSuit (Expr.children ctx a (.new type args span))) := by
  refine check (Vouches.newClass type) ?_
  rw [Expr.children]
  cases a.answer (Check.newClass type) with
  | none => exact done (.pure _) nofun
  | some n =>
    refine skip (.nests (.resolve _) fun _ => trivial) ?_
    cases (a.after (Check.newClass type)).answer (Check.resolve n.name) with
    | none =>
      refine error rfl (.bind (.checkArguments ctx _ _ _ args ?_) fun _ => .pure _)
      exact Expr.allBindOnly_true args
    | some s =>
      dsimp only
      split
      · refine skip (.nests .scopes fun _ => trivial) ?_
        refine skip (.nests (.checkCount? _ _ _ _) fun _ => trivial) ?_
        refine child (.checkArguments ctx _ _ _ args (Expr.allBindOnly_true args)) ?_
        refine done (.pure _) fun hclean _ => ?_
        exact .single (.part hclean nofun)
      · exact error rfl (.pure _)

/-- In an expression that is not reported, every part suits its role. -/
theorem inferType (ctx : Context) (a : Analysis) (e : Expr) :
    Grants a (Check.inferType ctx e) (AllSuit (e.children ctx a)) := by
  cases e with
  | prefixed op right span => exact prefixed op right span
  | binary op left right span => exact binary op left right span
  | postfixed op operand span => exact postfixed op operand span
  | assign op target value span => exact assign op target value span
  | call function args span => exact call function args span
  | index object key span =>
    refine child (infers ctx object) (child (infers ctx key) (last (.elementType _ _ _ _) ?_))
    exact fun h hkey hobject => .pair (.value hobject h.1) (.expr hkey h.2)
  | member e property arrow span =>
    refine object (fun package => ?_) fun ty? => .pure _
    exact .bind (.packageMember package property) fun _ => .pure _
  | array elements span =>
    refine child (.inferElements ctx none elements (Expr.allBindOnly_true elements)) ?_
    exact done (.pure _) fun hclean => .single (.part hclean nofun)
  | hash entries span =>
    refine child (.inferKeys ctx none entries (Entry.allBindOnly_true entries)) ?_
    refine child (.inferValues ctx none entries (Entry.allBindOnly_true entries)) ?_
    exact done (.pure _) fun hvalues hkeys => .pair (.part hkeys nofun) (.part hvalues nofun)
  | lambda params ret? body span =>
    refine skip (.nests (.resolveSignature [] params ret?) fun _ => trivial) ?_
    refine child (.checkFunction ctx params _ body) (done (.pure _) fun hclean => ?_)
    exact .single (.part hclean nofun)
  | new type args span => exact new type args span
  | _ => exact done (infers ctx _) allSuit_nil

/-! ### Statements -/

theorem condition (ctx : Context) (a : Analysis) (e : Expr) :
    Grants a (Check.checkCondition ctx e) (Suits (.condition, ⟨ctx, .expr e, a⟩)) :=
  child (infers ctx e) (last (.checkBool _ _) fun hvalue hclean => .value hclean hvalue)

theorem conditionIf (ctx : Context) (a : Analysis) (e? : Option Expr) :
    Grants a (Check.checkConditionIf ctx e?) (AllSuit (Expr.childIf ctx a .condition e?)) := by
  cases e? with
  | some e => exact (condition ctx a e).mono .single
  | none => exact done (.pure _) allSuit_nil

theorem tagType (ctx : Context) (a : Analysis) (tag? : Option Expr) :
    Grants a (Check.tagType ctx tag?) (AllSuit (Expr.childIf ctx a .tag tag?)) := by
  cases tag? with
  | some tag =>
    exact child (infers ctx tag) (done (.pure _) fun hclean => .single (.expr hclean fun _ => rfl))
  | none => exact done (.pure _) allSuit_nil

theorem stmtIf (ctx : Context) (a : Analysis) (s? : Option Stmt) :
    Grants a (Check.checkStmtIf ctx s?) (AllSuit (Stmt.childIf ctx a s?)) := by
  cases s? with
  | some s => exact final (.checkStmt ctx s s.bindsOnly_true) fun hclean => .single (.part hclean nofun)
  | none => exact done (.pure _) allSuit_nil

theorem blockIf (ctx : Context) (a : Analysis) (b? : Option Block) :
    Grants a (Check.checkBlockIf ctx b?) (AllSuit (Block.childIf ctx a b?)) := by
  cases b? with
  | some b => exact final (.checkBlock ctx .block b) fun hclean => .single (.part hclean nofun)
  | none => exact done (.pure _) allSuit_nil

theorem class_ (ctx : Context) (a : Analysis) (c : Class) {x : Check Unit}
    (hx : Vouches x fun _ => True) : Grants a (do
      let info? ← openClass c.name c.extends? c.implements
      checkMembers { ctx with class? := some c.name.name } info? c.members
      x) (AllSuit (c.children ctx a)) := by
  refine skip (.openClass _ _ _) (child (.checkMembers _ _ c.members) ?_)
  exact last hx fun _ hclean => .single (.part hclean nofun)

theorem forLoop (init? : Option Stmt) (condition? : Option Expr) (post? : Option Stmt) (body : Block)
    (span : Span) : Grants a (Check.checkStmt ctx (.forLoop init? condition? post? body span))
      (AllSuit (Stmt.children ctx a (.forLoop init? condition? post? body span))) := by
  rw [checkStmt_forLoop]
  refine skip (.pushScope _ trivial) (bind (stmtIf ctx _ init?) ?_)
  refine bind (conditionIf ctx _ condition?) (bind (stmtIf ctx _ post?) ?_)
  refine child (.checkBlock _ .block body) (last (.popScope trivial) ?_)
  intro _ hbody hpost hcondition hinit
  exact allSuit_append.2 ⟨allSuit_append.2 ⟨allSuit_append.2 ⟨hinit, hcondition⟩, hpost⟩,
    .single (.part hbody nofun)⟩

theorem switch (tag? : Option Expr) (cases_ : List Case) (default? : Option Block) (span : Span) :
    Grants a (Check.checkStmt ctx (.switch tag? cases_ default? span))
      (AllSuit (Stmt.children ctx a (.switch tag? cases_ default? span))) := by
  rw [checkStmt_switch]
  refine bind (tagType ctx a tag?) ?_
  refine child (.checkCaseValues ctx _ cases_ fun c _ => Expr.allBindOnly_true c.values) ?_
  refine child (.checkCaseBodies _ cases_) ((blockIf _ _ default?).mono ?_)
  intro hdefault hbodies hvalues htag
  exact allSuit_append.2 ⟨allSuit_append.2 ⟨htag, .pair (.part hvalues nofun) (.part hbodies nofun)⟩,
    hdefault⟩

theorem functionSignature (f : Function) :
    Vouches (Check.functionSignature f) fun _ => True := by
  refine .nests (.bind (.resolve _) fun s? => ?_) fun _ => trivial
  dsimp only
  split
  · exact .pure _
  · exact .resolveSignature [] f.params f.ret?

theorem templateSignature (f : Function) :
    Vouches (Check.templateSignature f) fun _ => True := by
  refine .nests (.bind .scopes fun t => ?_) fun _ => trivial
  dsimp only
  split
  · exact .pure _
  · exact .resolveSignature [] f.params f.ret?

theorem methodSignature (m : Method) :
    Vouches (Check.methodSignature m) fun _ => True := by
  refine .nests (.bind .scopes fun t => ?_) fun _ => trivial
  dsimp only
  split
  · exact .pure _
  · exact .bind (.resolveOptional [] _ _) fun _ => .bind (.resolveSignature [] _ _) fun _ => .pure _

theorem openMethod (receiver : Param) (receiverType : Ty) :
    Vouches (Check.openMethod receiver receiverType) fun _ => True := by
  refine .bind (.pushScope .class_ trivial) fun _ => ?_
  cases receiver.type?.bind TypeExpr.className? with
  | some c =>
    exact .nests (.bind (.bindFields c _) fun _ => .redefine rfl rfl trivial) fun _ _ => trivial
  | none => exact .nests (.redefine rfl rfl trivial) fun _ _ => trivial

theorem template (params : List Ident) (body : Stmt) (span : Span) :
    Grants a (Check.checkStmt ctx (.template params body span))
      (AllSuit (Stmt.children ctx a (.template params body span))) := by
  have hother : Grants a (do
      Check.openTemplate params
      Check.checkStmt ctx body
      Check.popScope) (AllSuit [(.part, ⟨ctx, .stmt body, a.after (Check.openTemplate params)⟩)]) := by
    refine skip (.openTemplate params) (child (.checkStmt ctx body body.bindsOnly_true) ?_)
    exact last (.popScope trivial) fun _ hclean => .single (.part hclean nofun)
  cases body with
  | function f =>
    rw [checkStmt_templateFunction]
    refine skip (.openTemplate params) (skip (templateSignature f) ?_)
    refine child (.checkFunction ctx f.params _ f.body) (last (.popScope trivial) fun _ hclean => ?_)
    exact .single (.part hclean nofun)
  | class_ c =>
    obtain ⟨name, extends?, implements, members, classSpan⟩ := c
    refine skip (.openTemplate params) ?_
    exact class_ ctx _ ⟨name, extends?, implements, members, classSpan⟩
      (.bind (.popScope trivial) fun _ => .popScope fun _ => trivial)
  | _ => exact hother

/-- In a statement that is not reported, every part suits its role. -/
theorem checkStmt (ctx : Context) (a : Analysis) (s : Stmt) :
    Grants a (Check.checkStmt ctx s) (AllSuit (s.children ctx a)) := by
  cases s with
  | package | interface | imports | break_ | continue_ =>
    exact done (.checkStmt ctx _ (Stmt.bindsOnly_true _)) allSuit_nil
  | var name type? value? span =>
    cases value? with
    | none => exact done (.checkStmt ctx _ (Stmt.bindsOnly_true _)) allSuit_nil
    | some value =>
      refine skip (.nests (.declaredType type?) fun _ => trivial) (child (infers ctx value) ?_)
      refine check (.usedAsValue value _) (done (.declareVariable ctx (.inl rfl) trivial _ _) ?_)
      exact fun hvalue hclean => .single (.value hclean hvalue)
  | const name type? value span =>
    refine skip (.nests (.declaredType type?) fun _ => trivial) (child (infers ctx value) ?_)
    refine check (.usedAsValue value _) (done (.declareVariable ctx (.inr rfl) trivial _ _) ?_)
    exact fun hvalue hclean => .single (.value hclean hvalue)
  | ret value? span =>
    cases value? with
    | none => exact done (.checkStmt ctx _ (Stmt.bindsOnly_true _)) allSuit_nil
    | some value =>
      refine child (infers ctx value) (skip (.nests (.judge _) fun _ => trivial) ?_)
      exact last (.checkReturned ctx _ span) fun hvoid hclean => .single (.expr hclean hvoid)
  | expr e =>
    exact child (infers ctx e) (done (.pure _) fun hclean => .single (.expr hclean fun _ => rfl))
  | block b => exact final (.checkBlock ctx .block b) fun hclean => .single (.part hclean nofun)
  | ifElse condition_ consequence alternative? span =>
    rw [checkStmt_ifElse]
    refine bind (condition ctx a condition_) (child (.checkBlock ctx .block consequence) ?_)
    refine (stmtIf ctx _ alternative?).mono fun halternative hconsequence hcondition => ?_
    exact allSuit_append.2 ⟨.pair hcondition (.part hconsequence nofun), halternative⟩
  | forLoop init? condition? post? body span => exact forLoop init? condition? post? body span
  | whileLoop condition_ body span =>
    refine child (infers ctx condition_) (check (.checkBool _ _) (final (.checkBlock _ .loop body) ?_))
    exact fun hbody hvalue hclean => .pair (.value hclean hvalue) (.part hbody nofun)
  | switch tag? cases_ default? span => exact switch tag? cases_ default? span
  | function f =>
    rw [checkStmt_function]
    refine skip (functionSignature f) (final (.checkFunction ctx f.params _ f.body) ?_)
    exact fun hclean => .single (.part hclean nofun)
  | method m =>
    rw [checkStmt_method]
    refine skip (methodSignature m) (skip (openMethod m.receiver _) ?_)
    refine child (.checkFunction _ m.params _ m.body) (last (.popScope trivial) fun _ hclean => ?_)
    exact .single (.part hclean nofun)
  | class_ c =>
    obtain ⟨name, extends?, implements, members, span⟩ := c
    exact class_ ctx a ⟨name, extends?, implements, members, span⟩ (.popScope trivial)
  | template params body span => exact template params body span
  | tryCatch body catches finally? span =>
    rw [checkStmt_tryCatch]
    refine child (.checkBlock ctx .block body) (child (.checkCatches ctx catches) ?_)
    refine (blockIf ctx _ finally?).mono fun hfinally hcatches hbody => ?_
    exact allSuit_append.2 ⟨.pair (.part hbody nofun) (.part hcatches nofun), hfinally⟩
  | throw value span =>
    exact child (infers ctx value) (done (.pure _) fun hclean => .single (.expr hclean fun _ => rfl))
  | scope b span => exact final (.checkBlock ctx .block b) fun hclean => .single (.part hclean nofun)

/-! ### Lists -/

theorem arguments (ctx : Context) (a : Analysis) (callee : String) (index : Nat) (params : List Ty)
    (es : List Expr) : Grants a (Check.checkArguments ctx callee index params es)
      (AllSuit (Point.children ⟨ctx, .arguments callee index params es, a⟩)) := by
  cases es with
  | nil => exact done (.pure _) allSuit_nil
  | cons e es =>
    have hargument : Grants a (Check.checkArgument ctx callee index params e)
        (Suits (.argument, ⟨ctx, .expr e, a⟩)) := by
      refine child (infers ctx e) (check (.usedAsValue e _) (done ?_ ?_))
      · cases params with
        | nil => exact .pure _
        | cons param params => exact .bind (.assignable _ _) fun _ => .onlyIf (.report _ _)
      · exact fun hvalue hclean => .value hclean hvalue
    rw [checkArguments_cons]
    refine bind hargument (final (.checkArguments ctx _ _ _ es (Expr.allBindOnly_true es)) ?_)
    exact fun hclean he => .pair he (.part hclean nofun)

theorem elements (ctx : Context) (a : Analysis) (common? : Option Ty) (es : List Expr) :
    Grants a (Check.inferElements ctx common? es)
      (AllSuit (Point.children ⟨ctx, .elements common? es, a⟩)) := by
  cases es with
  | nil => exact done (.pure _) allSuit_nil
  | cons e es =>
    refine child (infers ctx e) (skip (.nests (.commonType _ _ _) fun _ => trivial) ?_)
    refine final (.inferElements ctx _ es (Expr.allBindOnly_true es)) fun hclean he => ?_
    exact .pair (.expr he fun _ => rfl) (.part hclean nofun)

theorem keys (ctx : Context) (a : Analysis) (common? : Option Ty) (es : List Entry) :
    Grants a (Check.inferKeys ctx common? es)
      (AllSuit (Point.children ⟨ctx, .keys common? es, a⟩)) := by
  cases es with
  | nil => exact done (.pure _) allSuit_nil
  | cons entry es =>
    obtain ⟨key, value⟩ := entry
    refine child (infers ctx key) (skip (.nests (.commonType _ _ _) fun _ => trivial) ?_)
    refine final (.inferKeys ctx _ es (Entry.allBindOnly_true es)) fun hclean he => ?_
    exact .pair (.expr he fun _ => rfl) (.part hclean nofun)

theorem values (ctx : Context) (a : Analysis) (common? : Option Ty) (es : List Entry) :
    Grants a (Check.inferValues ctx common? es)
      (AllSuit (Point.children ⟨ctx, .values common? es, a⟩)) := by
  cases es with
  | nil => exact done (.pure _) allSuit_nil
  | cons entry es =>
    obtain ⟨key, value⟩ := entry
    refine child (infers ctx value) (skip (.nests (.commonType _ _ _) fun _ => trivial) ?_)
    refine final (.inferValues ctx _ es (Entry.allBindOnly_true es)) fun hclean he => ?_
    exact .pair (.expr he fun _ => rfl) (.part hclean nofun)

theorem tagged (ctx : Context) (a : Analysis) (tag? : Option Ty) (es : List Expr) :
    Grants a (Check.checkTagged ctx tag? es)
      (AllSuit (Point.children ⟨ctx, .tagged tag? es, a⟩)) := by
  cases es with
  | nil => exact done (.pure _) allSuit_nil
  | cons e es =>
    have hvalue : Grants a (Check.checkCaseValue ctx tag? e)
        (Suits (.caseValue tag?, ⟨ctx, .expr e, a⟩)) := by
      refine child (infers ctx e) ?_
      cases tag? with
      | some tag =>
        refine last (.checkAssignable tag _ _) fun h hclean => .expr hclean fun hvoid => ?_
        simpa [Role.admitsVoid] using h hvoid
      | none => exact last (.checkBool _ _) fun hvalue hclean => .value hclean hvalue
    rw [checkTagged_cons]
    refine bind hvalue (final (.checkTagged ctx tag? es (Expr.allBindOnly_true es)) ?_)
    exact fun hclean he => .pair he (.part hclean nofun)

theorem catches (ctx : Context) (a : Analysis) (cs : List Catch) :
    Grants a (Check.checkCatches ctx cs) (AllSuit (Point.children ⟨ctx, .catches cs, a⟩)) := by
  cases cs with
  | nil => exact done (.pure _) allSuit_nil
  | cons c cs =>
    have hopen : Vouches (openCatch c) fun _ => True := by
      refine .bind (.pushScope .block trivial) fun _ => ?_
      cases c.param? with
      | some p =>
        exact .nests (.bind (.resolveOptional [] _ _) fun _ => .declare rfl rfl trivial)
          fun _ _ => trivial
      | none => exact .pure fun _ => trivial
    rw [checkCatches_cons]
    refine skip hopen (child (.checkStmts ctx c.body.stmts) (skip (.popScope trivial) ?_))
    exact final (.checkCatches ctx cs) fun hclean hstmts =>
      .pair (.part hstmts nofun) (.part hclean nofun)

theorem members (ctx : Context) (a : Analysis) (info? : Option ClassInfo) (ms : List Member) :
    Grants a (Check.checkMembers ctx info? ms)
      (AllSuit (Point.children ⟨ctx, .members info? ms, a⟩)) := by
  cases ms with
  | nil => exact done (.pure _) allSuit_nil
  | cons m ms =>
    have hrest := Nests.checkMembers ctx info? ms
    cases m with
    | field f =>
      have hfield : Grants a (checkField ctx info? f)
          (AllSuit (Expr.childIf ctx a .initial f.value?)) := by
        rw [checkField]
        cases f.value? with
        | some value =>
          refine child (infers ctx value) (check (.usedAsValue value _) ?_)
          exact done (.checkAssignable _ _ _) fun hvalue hclean => .single (.value hclean hvalue)
        | none => exact done (.pure _) allSuit_nil
      rw [checkMembers_field]
      refine bind hfield (final hrest fun hclean hvalue => ?_)
      exact allSuit_append.2 ⟨hvalue, .single (.part hclean (by simp))⟩
    | method f =>
      have hsignature : Vouches (memberSignature info? f) fun _ => True := by
        rw [memberSignature]
        cases info?.bind (·.method? f.name.name) with
        | some m => exact .pure trivial
        | none => exact .nests (.resolveSignature [] _ _) fun _ => trivial
      rw [checkMembers_method]
      refine skip hsignature (child (.checkFunction ctx f.params _ f.body) (final hrest ?_))
      exact fun hclean hbody => .pair (.part hbody (by simp)) (.part hclean (by simp))

theorem function (ctx : Context) (a : Analysis) (params : List Param) (sig : Signature)
    (body : Block) : Grants a (Check.checkFunction ctx params sig body)
      (AllSuit (Point.children ⟨ctx, .function params sig body, a⟩)) := by
  obtain ⟨stmts, span⟩ := body
  refine skip (.pushScope .function trivial) ?_
  refine skip (.nests (.declareParams params sig) fun _ => trivial) (child (.checkStmts _ stmts) ?_)
  exact last (.popScope trivial) fun _ hclean => .single (.part hclean nofun)

theorem stmts (ctx : Context) (a : Analysis) (ss : List Stmt) :
    Grants a (Check.checkStmts ctx ss) (AllSuit (Point.children ⟨ctx, .stmts ss, a⟩)) := by
  cases ss with
  | nil => exact done (.pure _) allSuit_nil
  | cons s ss =>
    refine child (.checkStmt ctx s s.bindsOnly_true) (final (.checkStmts ctx ss) ?_)
    exact fun hclean hs => .pair (.part hs nofun) (.part hclean nofun)

theorem block (ctx : Context) (a : Analysis) (kind : ScopeKind) (b : Block) :
    Grants a (Check.checkBlock ctx kind b) (AllSuit (Point.children ⟨ctx, .block kind b, a⟩)) := by
  obtain ⟨stmts, span⟩ := b
  refine skip (.pushScope kind trivial) (child (.checkStmts ctx stmts) ?_)
  exact last (.popScope trivial) fun _ hclean => .single (.part hclean nofun)

theorem caseValues (ctx : Context) (a : Analysis) (tag? : Option Ty) (cs : List Case) :
    Grants a (Check.checkCaseValues ctx tag? cs)
      (AllSuit (Point.children ⟨ctx, .caseValues tag? cs, a⟩)) := by
  cases cs with
  | nil => exact done (.pure _) allSuit_nil
  | cons c cs =>
    obtain ⟨values, body, span⟩ := c
    refine child (.checkTagged ctx tag? values (Expr.allBindOnly_true values)) ?_
    refine final (.checkCaseValues ctx tag? cs fun c _ => Expr.allBindOnly_true c.values) ?_
    exact fun hclean hvalues => .pair (.part hvalues nofun) (.part hclean nofun)

theorem caseBodies (ctx : Context) (a : Analysis) (cs : List Case) :
    Grants a (Check.checkCaseBodies ctx cs)
      (AllSuit (Point.children ⟨ctx, .caseBodies cs, a⟩)) := by
  cases cs with
  | nil => exact done (.pure _) allSuit_nil
  | cons c cs =>
    obtain ⟨values, body, span⟩ := c
    refine child (.checkBlock ctx .block body) (final (.checkCaseBodies ctx cs) ?_)
    exact fun hclean hbody => .pair (.part hbody nofun) (.part hclean nofun)

end Grants

end Check

/-- At a point without errors, every part suits its role. -/
theorem Point.allSuit (q : Point) (h : q.stop.hasErrors = false) : AllSuit q.children := by
  obtain ⟨ctx, part, a⟩ := q
  cases part with
  | expr e => exact (Check.Grants.inferType ctx a e h).2
  | stmt s => exact (Check.Grants.checkStmt ctx a s h).2
  | arguments callee index params es => exact (Check.Grants.arguments ctx a callee index params es h).2
  | elements common? es => exact (Check.Grants.elements ctx a common? es h).2
  | keys common? es => exact (Check.Grants.keys ctx a common? es h).2
  | values common? es => exact (Check.Grants.values ctx a common? es h).2
  | function params sig body => exact (Check.Grants.function ctx a params sig body h).2
  | stmts ss => exact (Check.Grants.stmts ctx a ss h).2
  | block kind b => exact (Check.Grants.block ctx a kind b h).2
  | tagged tag? es => exact (Check.Grants.tagged ctx a tag? es h).2
  | caseValues tag? cs => exact (Check.Grants.caseValues ctx a tag? cs h).2
  | caseBodies cs => exact (Check.Grants.caseBodies ctx a cs h).2
  | catches cs => exact (Check.Grants.catches ctx a cs h).2
  | members info? ms => exact (Check.Grants.members ctx a info? ms h).2

/-- In a program without errors, there are none at any point. -/
theorem Point.Visited.clean {p : Program} {inference : Bool} {q : Point}
    (hq : q.Visited p inference) (h : (analyze p inference).hasErrors = false) :
    q.stop.hasErrors = false := by
  induction hq with
  | refl => exact (Check.Vouches.nests Check.Nests.reportUnusedImports (fun _ => trivial) _ h).1
  | tail _ hinside ih =>
    obtain ⟨role, hr⟩ := hinside
    exact (Point.allSuit _ ih _ hr).clean

end ClassLang
