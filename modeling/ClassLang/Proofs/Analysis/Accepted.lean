import ClassLang.Proofs.Analysis.Occurrences

/-!
# What accepted programs leave undone

In a program in which analysis finds no error, no name of a constant is assigned to, and a call without
a value stands where none is asked for. Every assignment and every call is among those for which this
is said.
-/

namespace ClassLang

/-- What an expression assigns to. `:=` makes a new variable instead. -/
def Expr.assigned? : Expr → Option Expr
  | .assign .define .. => none
  | .assign _ target _ _ => some target
  | .postfixed _ operand _ => some operand
  | _ => none

theorem Expr.isAction_of_assigned? {e target : Expr} (h : e.assigned? = some target) :
    e.isAction = true := by
  cases e with
  | assign | postfixed => rfl
  | _ => cases h

/-! ## Targets -/

namespace Check

variable {a : Analysis} {ctx : Context}

theorem scopes_checkTarget (a : Analysis) (e : Expr) :
    (a.after (checkTarget e)).scopes = a.scopes := by
  unfold checkTarget
  cases e with
  | ident n =>
    show ((if _ then _ else _ : Check Bool).run a).2.scopes = _
    split <;> rfl
  | _ => rfl

theorem scopes_identifierType (a : Analysis) (n : Ident) :
    (a.after (identifierType n)).scopes = a.scopes := by
  rw [identifierType, Analysis.after_bind, Analysis.after_bind]
  cases (a.after (judge (.name n))).answer (resolve n.name) with
  | none => rfl
  | some s =>
    dsimp only
    split <;> rfl

/-- A name that is not reported is known. -/
theorem resolves_of_clean {n : Ident} (h : (a.after (inferType ctx (.ident n))).hasErrors = false) :
    ∃ s, a.scopes.resolve n.name = some s := by
  have hname : Grants a (identifierType n) (∃ s, a.scopes.resolve n.name = some s) := by
    refine .skip (.nests (.judge _) fun _ => trivial) (.skip (.nests (.resolve _) fun _ => trivial) ?_)
    cases hs : (a.after (judge (.name n))).answer (resolve n.name) with
    | none => exact .error rfl (.pure _)
    | some s =>
      refine .done ?_ ⟨s, hs⟩
      dsimp only
      split
      · exact .bind (.usePackage _) fun _ => .pure _
      · exact .pure _
  exact (hname h).2

/-- A target that is not reported is a place, and no constant. -/
theorem target_of_clean {e : Expr} (h : (a.after (checkTarget e)).hasErrors = false) :
    e.isTarget false = true ∧ ∀ n s, e = .ident n → a.scopes.resolve n.name = some s →
      s.isConst = false := by
  refine ⟨(Vouches.checkTarget e a h).2.2, ?_⟩
  rintro n s rfl hs
  have htarget : Grants a (checkTarget (.ident n)) (s.isConst = false) := by
    refine .skip (.nests (.resolve _) fun _ => trivial) ?_
    have hanswer : a.answer (resolve n.name) = some s := hs
    rw [hanswer, Option.map_some, Option.getD_some]
    dsimp only
    split
    · exact .error rfl (.pure _)
    next hconst => exact .done (.pure _) (Bool.eq_false_iff.2 hconst)
  exact (htarget h).2

/-- What is assigned to in an expression that is not reported. -/
theorem assigned_of_clean {e target : Expr} (htarget : e.assigned? = some target)
    (h : (a.after (inferType ctx e)).hasErrors = false) : target.isTarget false = true ∧
      ∀ n, target = .ident n → ∃ s, a.scopes.resolve n.name = some s ∧ s.isConst = false := by
  cases e with
  | assign op place value span =>
    have hplaces := (Grants.inferType ctx a _ h).2
    have hclean : ((a.after (checkTarget target)).after (inferType ctx target)).hasErrors = false := by
      cases op with
      | define => cases htarget
      | _ =>
        cases htarget
        exact (hplaces _ List.mem_cons_self).clean
    have hstart := (Vouches.nests (Grants.infers ctx target) (fun _ => trivial) _ hclean).1
    refine ⟨(target_of_clean hstart).1, fun n hn => ?_⟩
    subst hn
    obtain ⟨s, hs⟩ := resolves_of_clean hclean
    rw [scopes_checkTarget] at hs
    exact ⟨s, hs, (target_of_clean hstart).2 n s rfl hs⟩
  | postfixed op operand span =>
    cases htarget
    have hclean := ((Grants.inferType ctx a _ h).2 _ List.mem_cons_self).clean
    have hrest : Grants a (inferType ctx (.postfixed op target span))
        (((a.after (inferType ctx target)).after (checkTarget target)).hasErrors = false) := by
      refine .skip (.nests (Grants.infers ctx target) fun _ => trivial) (.child (.checkTarget target) ?_)
      refine .done ?_ id
      dsimp only
      split
      · exact .bind (.report _ _) fun _ => .pure _
      · exact .pure _
    obtain ⟨hplace, hconst⟩ := target_of_clean (hrest h).2
    refine ⟨hplace, fun n hn => ?_⟩
    subst hn
    obtain ⟨s, hs⟩ := resolves_of_clean hclean
    refine ⟨s, hs, hconst n s rfl ?_⟩
    exact (congrArg (·.resolve n.name) (scopes_identifierType a n)).trans hs
  | _ => cases htarget

end Check

variable {p : Program} {inference : Bool}

/-- Every assignment of a program without errors is visited, and wherever one is, what it assigns to is
a place; a name there stands for something that is no constant. -/
theorem constants_unassigned (h : (analyze p inference).hasErrors = false) :
    (∀ e ∈ p.exprs, ∀ target, e.assigned? = some target →
      ∃ q : Point, q.Visited p inference ∧ q.part = .expr e) ∧
    ∀ q : Point, q.Visited p inference → ∀ e target, q.part = .expr e →
      e.assigned? = some target → target.isTarget false = true ∧
        ∀ n, target = .ident n → ∃ s, q.start.scopes.resolve n.name = some s ∧ s.isConst = false := by
  refine ⟨fun e he target htarget => p.visited h he (Expr.isAction_of_assigned? htarget), ?_⟩
  rintro ⟨ctx, part, a⟩ hq e target rfl htarget
  exact Check.assigned_of_clean htarget (hq.clean h)

/-- A variable in a function is increased by a global constant, and in a loop. -/
def limited : Program :=
  let i : Expr := .ident ⟨"i", {}⟩
  let limit : Expr := .ident ⟨"limit", {}⟩
  let round : Stmt := .forLoop none (some (.binary .less i limit {}))
    (some (.expr (.postfixed .increment i {}))) ⟨[], {}⟩ {}
  ⟨[.const ⟨"limit", {}⟩ none (.int 3 {}) {},
    .function ⟨⟨"main", {}⟩, [], none, ⟨[.var ⟨"i", {}⟩ none (some (.int 0 {})) {},
      .expr (.assign (.compound .add) i limit {}), round], {}⟩, {}, {}⟩], {}⟩

theorem limited_unassigned :
    let i : Ident := ⟨"i", {}⟩
    let sum : Expr := .assign (.compound .add) (.ident i) (.ident ⟨"limit", {}⟩) {}
    (analyze limited true).hasErrors = false ∧ sum ∈ limited.exprs ∧
      ∃ q : Point, q.Visited limited true ∧ q.part = .expr sum ∧
        ∃ s, q.start.scopes.resolve i.name = some s ∧ s.isConst = false := by
  intro i sum
  have h : (analyze limited true).hasErrors = false := by decide +kernel
  have hmem : sum ∈ limited.exprs := .tail _ (.tail _ (.head _))
  obtain ⟨hvisited, hunassigned⟩ := constants_unassigned h
  obtain ⟨q, hq, hpart⟩ := hvisited sum hmem _ rfl
  exact ⟨h, hmem, q, hq, hpart, (hunassigned q hq sum _ hpart rfl).2 i rfl⟩

-- Only names are asked for here: a constant field that is reached through an object is assigned to.
example :
    let k : Ident := ⟨"k", {}⟩
    let c : Ident := ⟨"C", {}⟩
    let store : Expr := .assign .assign (.member (.ident ⟨"c", {}⟩) k false {}) (.int 2 {}) {}
    (analyze ⟨[.class_ ⟨c, none, [], [.field ⟨k, none, some (.int 1 {}), true, {}, {}⟩], {}⟩,
      .function ⟨⟨"f", {}⟩, [⟨⟨"c", {}⟩, some (.named c), {}⟩], none, ⟨[.expr store], {}⟩, {}, {}⟩], {}⟩
      true).hasErrors = false := by
  decide +kernel

/-- Every call of a program without errors is visited in some role, and one without a value only in a
role that asks for none: as a statement, or as what a function without a result returns, but also as an
element of an array, a key or a value of a hash, what a switch is over, and what is thrown; where types
are compared with each other, beside another one without a value; and beside what has no known type. -/
theorem calls_without_value (h : (analyze p inference).hasErrors = false) :
    (∀ function args span, .call function args span ∈ p.exprs → ∃ (q : Point) (role : Role) (r : Point),
      q.Visited p inference ∧ (role, r) ∈ q.children ∧ r.part = .expr (.call function args span)) ∧
    ∀ (q : Point) (role : Role) (r : Point) function args span,
      q.Visited p inference → (role, r) ∈ q.children → r.part = .expr (.call function args span) →
        (r.start.answer (Check.inferType r.ctx (.call function args span))).isVoid = true →
          role.admitsVoid = true := by
  refine ⟨fun function args span hcall => ?_, fun q role r function args span hq hr => ?_⟩
  · obtain ⟨r, hr, hpart⟩ := p.visited h hcall rfl
    cases hr with
    | refl => cases hpart
    | tail hq hr =>
      obtain ⟨role, hr⟩ := hr
      exact ⟨_, role, r, hq, hr, hpart⟩
  · exact (q.allSuit (hq.clean h) _ hr).admitted function args span

/-- A function without a result calls another one and then returns its value. -/
def forwarding : Program :=
  let run : Expr := .call (.ident ⟨"run", {}⟩) [] {}
  ⟨[.function ⟨⟨"main", {}⟩, [], none, ⟨[.expr run, .ret (some run) {}], {}⟩, {}, {}⟩,
    .function ⟨⟨"run", {}⟩, [], none, ⟨[], {}⟩, {}, {}⟩], {}⟩

theorem forwarding_without_value :
    let run : Expr := .call (.ident ⟨"run", {}⟩) [] {}
    (analyze forwarding true).hasErrors = false ∧
      ∃ (q : Point) (role : Role) (r : Point), q.Visited forwarding true ∧ (role, r) ∈ q.children ∧
        r.part = .expr run ∧ (r.start.answer (Check.inferType r.ctx run)).isVoid = true ∧
        role.admitsVoid = true := by
  intro run
  have h : (analyze forwarding true).hasErrors = false := by decide +kernel
  have hpoint : ∃ (q : Point) (role : Role) (r : Point), q.Visited forwarding true ∧
      (role, r) ∈ q.children ∧ r.part = .expr run ∧
      (r.start.answer (Check.inferType r.ctx run)).isVoid = true := by
    refine ⟨_, _, _, .tail (.tail (.tail (.tail (.tail .refl ⟨_, .head _⟩) ⟨_, .head _⟩) ⟨_, .head _⟩)
      ⟨_, .tail _ (.head _)⟩) ⟨_, .head _⟩, .head _, rfl, ?_⟩
    decide +kernel
  obtain ⟨q, role, r, hq, hr, hpart, hvoid⟩ := hpoint
  exact ⟨h, q, role, r, hq, hr, hpart, hvoid,
    (calls_without_value h).2 q role r _ _ _ hq hr hpart hvoid⟩

-- What has no value is thrown and compared.
example :
    let run : Expr := .call (.ident ⟨"run", {}⟩) [] {}
    let body : Block := ⟨[.expr (.binary .equal run run {}), .throw run {}], {}⟩
    (analyze ⟨[.function ⟨⟨"run", {}⟩, [], none, ⟨[], {}⟩, {}, {}⟩,
      .function ⟨⟨"main", {}⟩, [], none, body, {}, {}⟩], {}⟩ true).hasErrors = false := by
  decide +kernel

end ClassLang
