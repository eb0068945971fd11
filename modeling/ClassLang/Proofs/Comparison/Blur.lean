import ClassLang.Check.Body

/-!
# Types that say less

A type is blurred when it, or the element types in it, give way to a wildcard, or when a basic type
gives way to another of its kind. Whatever is said of a type only by way of its kind, and whatever can
be stored in it or from it, is kept. Operators keep their results, too, unless an integer meets a
floating-point number: there the result is known by the operand that may be blurred.
-/

namespace ClassLang

namespace Ty

/-- A type says no more than another one. -/
inductive Blurs : Ty → Ty → Prop where
  | refl (t : Ty) : Blurs t t
  | wildcard {t u : Ty} (h : u.isWildcard = true) : Blurs t u
  | basic (n m : String) (k : BasicKind) : Blurs (basic n k) (basic m k)
  | array {a b : Ty} (h : Blurs a b) : Blurs (array a) (array b)
  | map {k l v w : Ty} (hk : Blurs k l) (hv : Blurs v w) : Blurs (map k v) (map l w)

/-- One of the types is an integer and the other one a floating-point number. -/
def mixes (l r : Ty) : Bool := l.isInt && r.isFloat || l.isFloat && r.isInt

/-- Classes and interfaces. -/
def isNamed : Ty → Bool
  | class_ _ | interface _ => true
  | _ => false

/-- Types that are made of other types. -/
def isCompound : Ty → Bool
  | array _ | map .. | func .. | template _ _ (some _) => true
  | _ => false

variable {t u v w p q l r : Ty} {k : BasicKind}

theorem kind?_eq_some : t.kind? = some k ↔ ∃ n, t = basic n k := by
  cases t <;> simp [kind?]

theorem isKind_eq_true : t.isKind k = true ↔ t.kind? = some k := by
  rw [isKind, beq_iff_eq]

theorem Blurs.of_kind (ht : t.isKind k = true) (hu : u.isKind k = true) : Blurs t u := by
  obtain ⟨n, rfl⟩ := kind?_eq_some.1 (isKind_eq_true.1 ht)
  obtain ⟨m, rfl⟩ := kind?_eq_some.1 (isKind_eq_true.1 hu)
  exact .basic n m k

/-- Unless it is a wildcard, a blurred type is of the same kind. -/
theorem Blurs.kind?_eq (h : Blurs t u) (hu : u.isWildcard = false) : u.kind? = t.kind? := by
  cases h with
  | wildcard h => rw [h] at hu; cases hu
  | _ => rfl

theorem Blurs.isKind_eq (h : Blurs t u) (hu : u.isWildcard = false) (k : BasicKind) :
    u.isKind k = t.isKind k := by
  rw [isKind, isKind, h.kind?_eq hu]

theorem Blurs.isNumeric_eq (h : Blurs t u) (hu : u.isWildcard = false) :
    u.isNumeric = t.isNumeric := by
  rw [isNumeric, isNumeric, isInt, isInt, isFloat, isFloat, h.isKind_eq hu, h.isKind_eq hu]

theorem Blurs.isWildcard (h : Blurs t u) (ht : t.isWildcard = true) : u.isWildcard = true := by
  cases h with
  | refl => exact ht
  | wildcard h => exact h
  | basic n m k => exact ht
  | array | map => cases ht

theorem Blurs.isWildcard_eq_false (h : Blurs t u) (hu : u.isWildcard = false) :
    t.isWildcard = false := by
  cases ht : t.isWildcard with
  | false => rfl
  | true => rw [h.isWildcard ht] at hu; cases hu

/-- A wildcard is of no kind but the unknown one. -/
theorem isKind_of_isWildcard (h : t.isWildcard = true) (hk : k ≠ .unknown) : t.isKind k = false := by
  match t with
  | basic n l =>
    obtain rfl : l = .unknown := by simpa [Ty.isWildcard] using h
    simpa [isKind, kind?] using hk.symm
  | template .. | Ty.array _ | Ty.map .. | func .. | class_ _ | interface _ => rfl

/-- What is not blurred to a type of some kind is not of that kind, either. -/
theorem Blurs.isKind_eq_false (h : Blurs t u) (hk : k ≠ .unknown) (ht : t.isKind k = false) :
    u.isKind k = false := by
  cases hu : u.isWildcard with
  | true => exact isKind_of_isWildcard hu hk
  | false => rw [h.isKind_eq hu, ht]

/-- Only wildcards take the place of a named type. -/
theorem Blurs.eq_of_isNamed (h : Blurs t u) (ht : t.isNamed = true) (hu : u.isWildcard = false) :
    u = t := by
  cases h with
  | refl => rfl
  | wildcard h => rw [h] at hu; cases hu
  | basic | array | map => cases ht

theorem Blurs.trans (h : Blurs t u) (h' : Blurs u v) : Blurs t v := by
  induction h generalizing v with
  | refl => exact h'
  | wildcard h => exact .wildcard (h'.isWildcard h)
  | basic n m k =>
    cases h' with
    | refl => exact .basic n m k
    | wildcard h => exact .wildcard h
    | basic _ m' => exact .basic n m' k
  | array h ih =>
    cases h' with
    | refl => exact .array h
    | wildcard h => exact .wildcard h
    | array h' => exact .array (ih h')
  | map hk hv ihk ihv =>
    cases h' with
    | refl => exact .map hk hv
    | wildcard h => exact .wildcard h
    | map hk' hv' => exact .map (ihk hk') (ihv hv')

/-! ## Storing -/

theorem accepts_wildcard (h : u.isWildcard = true) (t : Ty) : t.accepts u = true := by
  match u with
  | basic .. | template .. => cases t <;> simp [accepts, h]
  | Ty.array _ | Ty.map .. | func .. | class_ _ | interface _ => cases h

theorem wildcard_accepts (h : t.isWildcard = true) (u : Ty) : t.accepts u = true := by
  match t with
  | basic .. | template .. => simp [accepts, h]
  | Ty.array _ | Ty.map .. | func .. | class_ _ | interface _ => cases h

theorem Blurs.accepts_value (hu : Blurs u q) (h : t.accepts u = true) : t.accepts q = true := by
  induction hu generalizing t with
  | refl => exact h
  | wildcard hq => exact accepts_wildcard hq t
  | basic => cases t <;> exact h
  | array _ ih =>
    cases t with
    | array a => exact ih h
    | _ => exact h
  | map _ _ ihk ihv =>
    cases t with
    | map k v =>
      rw [accepts, Bool.and_eq_true] at h ⊢
      exact ⟨ihk h.1, ihv h.2⟩
    | _ => exact h

theorem Blurs.accepts_target (ht : Blurs t p) (h : t.accepts u = true) : p.accepts u = true := by
  induction ht generalizing u with
  | refl => exact h
  | wildcard hp => exact wildcard_accepts hp u
  | basic => cases u <;> exact h
  | array _ ih =>
    cases u with
    | array a => exact ih h
    | _ => exact h
  | map _ _ ihk ihv =>
    cases u with
    | map k v =>
      rw [accepts, Bool.and_eq_true] at h ⊢
      exact ⟨ihk h.1, ihv h.2⟩
    | _ => exact h

theorem assignable_of_accepts {s : ScopeTree} (h : t.accepts u = true) :
    s.assignable t u = true := by
  unfold ScopeTree.assignable
  rw [h, Bool.true_or]

/-- What can be stored still can after either type is blurred. Subclassing is a matter of classes and
interfaces, which give way to wildcards only. -/
theorem Blurs.assignable {s : ScopeTree} (ht : Blurs t p) (hu : Blurs u q)
    (h : s.assignable t u = true) : s.assignable p q = true := by
  cases hp : p.isWildcard with
  | true => exact assignable_of_accepts (wildcard_accepts hp q)
  | false =>
    cases hq : q.isWildcard with
    | true => exact assignable_of_accepts (accepts_wildcard hq p)
    | false =>
      cases haccepts : t.accepts u with
      | true => exact assignable_of_accepts (hu.accepts_value (ht.accepts_target haccepts))
      | false =>
        unfold ScopeTree.assignable at h
        rw [haccepts, Bool.false_or] at h
        split at h
        all_goals first
          | cases h
          | obtain rfl := ht.eq_of_isNamed rfl hp
            obtain rfl := hu.eq_of_isNamed rfl hq
            simp [ScopeTree.assignable, h]

/-! ## Operators -/

open Check (resultOf knownOf)

variable {s : ScopeTree} {op : InfixOp}

/-- Next to a wildcard, the other operand decides. -/
theorem resultOf_eq_knownOf (hop : op.isLogical = false ∧ op.isComparison = false)
    (h : l.isWildcard = true ∨ r.isWildcard = true) :
    resultOf s op l r = some (knownOf l r) := by
  have hkinds : ∀ k l', k ≠ .unknown → l' ≠ .unknown → (l.isKind k && r.isKind l') = false := by
    intro k l' hk hl
    obtain h | h := h
    · rw [isKind_of_isWildcard h hk, Bool.false_and]
    · rw [isKind_of_isWildcard h hl, Bool.and_false]
  have hnumeric : (l.isNumeric && r.isNumeric) = false := by
    simp [isNumeric, isInt, isFloat, Bool.and_or_distrib_left, Bool.and_or_distrib_right, hkinds]
  have hwildcard : (l.isWildcard || r.isWildcard) = true := by simpa using h
  simp only [resultOf, hop, isString, isInt, hkinds, hnumeric, hwildcard,
    Bool.and_assoc, Bool.and_false, Bool.false_eq_true, if_false, if_true, ne_eq, reduceCtorEq,
    not_false_eq_true, ite_self]

/-- What a calculation gives for operands of one kind is of that kind. -/
theorem resultOf_isKind (hop : op.isLogical = false ∧ op.isComparison = false) (hk : k ≠ .unknown)
    (hl : l.isKind k = true) (hr : r.isKind k = true) : resultOf s op l r =
      if op == .add && k == .string then some string
      else if op == .modulo || op.isBitwise then if k == .int then some l else none
      else if k == .float then some float else if k == .int then some int else none := by
  obtain ⟨n, rfl⟩ := kind?_eq_some.1 (isKind_eq_true.1 hl)
  obtain ⟨m, rfl⟩ := kind?_eq_some.1 (isKind_eq_true.1 hr)
  have hwildcard : (k == .unknown) = false := by simpa using hk
  simp only [resultOf, hop, isString, isInt, isFloat, isNumeric, isKind, kind?, isWildcard,
    Bool.false_eq_true, if_false]
  cases k <;> simp_all

theorem exists_isKind_of_resultOf (hop : op.isLogical = false ∧ op.isComparison = false)
    (hl : l.isWildcard = false) (hr : r.isWildcard = false) (hmixes : l.mixes r = false)
    (h : resultOf s op l r = some v) :
    ∃ k, k ≠ .unknown ∧ l.isKind k = true ∧ r.isKind k = true ∧ v.isKind k = true := by
  have hkind : ∃ k, k ≠ .unknown ∧ l.isKind k = true ∧ r.isKind k = true := by
    simp only [resultOf, hop, hl, hr, Bool.or_self, Bool.false_eq_true, if_false] at h
    split at h
    next hstring =>
      simp only [Bool.and_eq_true] at hstring
      exact ⟨.string, nofun, hstring.1.2, hstring.2⟩
    split at h
    · split at h
      next hint =>
        simp only [Bool.and_eq_true] at hint
        exact ⟨.int, nofun, hint.1, hint.2⟩
      · cases h
    split at h
    next hnumeric =>
      simp only [mixes, isNumeric, Bool.and_eq_true, Bool.or_eq_true, Bool.or_eq_false_iff,
        Bool.and_eq_false_iff] at hnumeric hmixes
      obtain ⟨hint | hfloat, hint' | hfloat'⟩ := hnumeric
      · exact ⟨.int, nofun, hint, hint'⟩
      · simp [hint, hfloat'] at hmixes
      · simp [hfloat, hint'] at hmixes
      · exact ⟨.float, nofun, hfloat, hfloat'⟩
    · cases h
  obtain ⟨k, hk, hlk, hrk⟩ := hkind
  refine ⟨k, hk, hlk, hrk, ?_⟩
  rw [resultOf_isKind hop hk hlk hrk] at h
  cases k <;> grind [isKind, kind?, string, float, int]

/-- A calculation keeps its result, up to blur, unless it mixes integers and floating-point numbers. -/
theorem Blurs.calculation {l' r' : Ty} (hl : Blurs l l') (hr : Blurs r r')
    (hop : op.isLogical = false ∧ op.isComparison = false) (hmixes : l.mixes r = false)
    (h : resultOf s op l r = some v) : ∃ v', resultOf s op l' r' = some v' ∧ Blurs v v' := by
  by_cases hwildcard' : l'.isWildcard = true ∨ r'.isWildcard = true
  · -- On the right the known operand decides, and the result on the left says no less than either.
    refine ⟨_, resultOf_eq_knownOf hop hwildcard', ?_⟩
    by_cases hwildcard : l.isWildcard = true ∨ r.isWildcard = true
    · obtain rfl : knownOf l r = v := by simpa [resultOf_eq_knownOf hop hwildcard] using h
      unfold knownOf
      split <;> split
      next => exact hr
      next hlw hlw' => exact absurd (hl.isWildcard hlw) hlw'
      next hlw _ => exact .wildcard (hr.isWildcard (hwildcard.resolve_left hlw))
      next => exact hl
    · rw [not_or, Bool.not_eq_true, Bool.not_eq_true] at hwildcard
      obtain ⟨k, _, hlk, hrk, hvk⟩ := exists_isKind_of_resultOf hop hwildcard.1 hwildcard.2 hmixes h
      unfold knownOf
      split
      · exact (Blurs.of_kind hvk hrk).trans hr
      · exact (Blurs.of_kind hvk hlk).trans hl
  · rw [not_or, Bool.not_eq_true, Bool.not_eq_true] at hwildcard'
    obtain ⟨hlw', hrw'⟩ := hwildcard'
    obtain ⟨k, hk, hlk, hrk, _⟩ := exists_isKind_of_resultOf hop (hl.isWildcard_eq_false hlw')
      (hr.isWildcard_eq_false hrw') hmixes h
    rw [resultOf_isKind hop hk (hl.isKind_eq hlw' k ▸ hlk) (hr.isKind_eq hrw' k ▸ hrk)]
    rw [resultOf_isKind hop hk hlk hrk] at h
    grind [Blurs]

/-- An operator keeps its result, up to blur, unless it mixes integers and floating-point numbers. -/
theorem Blurs.resultOf {l' r' : Ty} (hl : Blurs l l') (hr : Blurs r r') (hmixes : l.mixes r = false)
    (h : resultOf s op l r = some v) : ∃ v', resultOf s op l' r' = some v' ∧ Blurs v v' := by
  by_cases hlogical : op.isLogical = true
  · simp only [Check.resultOf, hlogical, if_true] at h ⊢
    split at h
    next hfits =>
      obtain rfl := Option.some.inj h
      refine ⟨Ty.bool, if_pos ?_, .refl _⟩
      by_cases hwildcard' : (l'.isWildcard || r'.isWildcard) = true
      · rw [hwildcard', Bool.or_true]
      · rw [Bool.not_eq_true, Bool.or_eq_false_iff] at hwildcard'
        rw [hl.isWildcard_eq_false hwildcard'.1, hr.isWildcard_eq_false hwildcard'.2] at hfits
        rw [isBool, isBool, hl.isKind_eq hwildcard'.1, hr.isKind_eq hwildcard'.2, hwildcard'.1,
          hwildcard'.2]
        exact hfits
    · cases h
  by_cases hcomparison : op.isComparison = true
  · rw [Bool.not_eq_true] at hlogical
    simp only [Check.resultOf, hlogical, hcomparison, Bool.false_eq_true, if_false, if_true] at h ⊢
    split at h
    next hfits =>
      obtain rfl := Option.some.inj h
      refine ⟨Ty.bool, if_pos ?_, .refl _⟩
      rw [Bool.or_eq_true] at hfits ⊢
      exact hfits.imp (hl.assignable hr) (hr.assignable hl)
    · cases h
  · exact hl.calculation hr ⟨by simpa using hlogical, by simpa using hcomparison⟩ hmixes h

/-! ## Elements of one type -/

theorem isKind_or_eq_of_same (h : t.same u = true) (hu : u.isWildcard = false)
    (hcompound : u.isCompound = false) :
    (∃ k, t.isKind k = true ∧ u.isKind k = true) ∨ t = u ∧ u.isNamed = true := by
  cases u with
  | basic m l =>
    cases t with
    | basic n k =>
      obtain rfl : k = l := by simpa [same] using h
      exact .inl ⟨k, by simp [isKind, kind?], by simp [isKind, kind?]⟩
    | _ => cases h
  | class_ d | interface d =>
    cases t with
    | class_ c | interface c =>
      first
        | cases h
        | obtain rfl : c = d := by simpa [same] using h
          exact .inr ⟨rfl, rfl⟩
    | _ => cases h
  | template n ps base? =>
    cases base? with
    | none => cases hu
    | some base => cases hcompound
  | _ => cases hcompound

/-- A simple type that agrees with an expected one agrees with it after both are blurred, and says no
less than it. -/
theorem Blurs.same (ht : Blurs t p) (hu : Blurs u q) (h : t.same u = true)
    (huw : u.isWildcard = false) (hcompound : u.isCompound = false) :
    Blurs t q ∧ (p.isWildcard = false → q.isWildcard = false → p.same q = true) := by
  obtain ⟨k, htk, huk⟩ | ⟨rfl, hnamed⟩ := isKind_or_eq_of_same h huw hcompound
  · refine ⟨(Blurs.of_kind htk huk).trans hu, fun hp hq => ?_⟩
    rw [← ht.isKind_eq hp, isKind_eq_true, kind?_eq_some] at htk
    rw [← hu.isKind_eq hq, isKind_eq_true, kind?_eq_some] at huk
    obtain ⟨n, rfl⟩ := htk
    obtain ⟨m, rfl⟩ := huk
    simp [Ty.same]
  · refine ⟨hu, fun hp hq => ?_⟩
    rw [ht.eq_of_isNamed hnamed hp, hu.eq_of_isNamed hnamed hq]
    exact h

/-! ## Calls and members -/

theorem ofTy?_of_isWildcard (h : t.isWildcard = true) : Signature.ofTy? t = none := by
  cases t with
  | func => cases h
  | _ => rfl

/-- A type that can be called or has members gives way to wildcards only. -/
theorem Blurs.eq_or_plain (h : Blurs t u) (hu : u.isWildcard = false) :
    u = t ∨ Signature.ofTy? t = none ∧ ∀ s n, Check.memberOf? s t n = none := by
  cases h with
  | refl => exact .inl rfl
  | wildcard h => rw [h] at hu; cases hu
  | basic | array | map => exact .inr ⟨rfl, fun _ _ => rfl⟩

end Ty

end ClassLang
