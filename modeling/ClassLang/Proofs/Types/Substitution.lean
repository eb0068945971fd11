import ClassLang.Check.Body
import ClassLang.Proofs.Types.Basic

/-!
# Substitution of type parameters

`Ty.substitute` replaces all parameters of a type at once; of several bindings of one name the first
counts, and templates that stand for a type are left alone. Everything that is said here of substituted
types follows from what becomes of a single parameter (`Ty.image`): which parameters are left, what a
second substitution does, and when nothing changes. Signatures are substituted as their types are, so
a template with closed type arguments for all its parameters has none of them left.
-/

namespace ClassLang

namespace Ty

/-! ## The parameters of a type -/

mutual

/-- The parameters that a substitution can replace in a type. -/
def freeParams : Ty → List String
  | .array a => a.freeParams
  | .map k v => k.freeParams ++ v.freeParams
  | .func ps r _ => freeParamsAll ps ++ r.freeParams
  | .template name _ none => [name]
  | .basic .. | .class_ _ | .interface _ | .template _ _ (some _) => []

def freeParamsAll : List Ty → List String
  | [] => []
  | t :: ts => t.freeParams ++ freeParamsAll ts

end

variable {p : String} {t : Ty} {ts us : List Ty} {b c : List (String × Ty)}

theorem mem_freeParamsAll : p ∈ freeParamsAll ts ↔ ∃ t ∈ ts, p ∈ t.freeParams := by
  induction ts with
  | nil => simp [freeParamsAll]
  | cons t ts ih => simp [freeParamsAll, ih]

theorem substituteAll_eq_map (b : List (String × Ty)) (ts : List Ty) :
    substituteAll b ts = ts.map (substitute b) := by
  induction ts with
  | nil => rfl
  | cons t ts ih => rw [substituteAll, ih, List.map_cons]

/-! ## One parameter at a time -/

/-- What a parameter is replaced by. -/
def image (b : List (String × Ty)) (name : String) : Ty := (b.lookup name).getD (param name)

/-- The parameters of a substituted type come from its parameters. -/
theorem mem_freeParams_substitute (b : List (String × Ty)) (t : Ty) :
    p ∈ (t.substitute b).freeParams ↔ ∃ q ∈ t.freeParams, p ∈ (image b q).freeParams := by
  induction t using Ty.induction with
  | basic | class_ | interface | template => simp [substitute, freeParams]
  | array a ih => simpa [substitute, freeParams] using ih
  | map k v ihk ihv => simp [substitute, freeParams, ihk, ihv, or_and_right, exists_or]
  | func ps r v ihps ihr =>
    have hps : p ∈ freeParamsAll (substituteAll b ps) ↔
        ∃ q ∈ freeParamsAll ps, p ∈ (image b q).freeParams := by
      rw [substituteAll_eq_map, mem_freeParamsAll]
      constructor
      · rintro ⟨u, hu, hp⟩
        obtain ⟨t, ht, rfl⟩ := List.mem_map.1 hu
        obtain ⟨q, hq, hp⟩ := (ihps t ht).1 hp
        exact ⟨q, mem_freeParamsAll.2 ⟨t, ht, hq⟩, hp⟩
      · rintro ⟨q, hq, hp⟩
        obtain ⟨t, ht, hq⟩ := mem_freeParamsAll.1 hq
        exact ⟨t.substitute b, List.mem_map_of_mem ht, (ihps t ht).2 ⟨q, hq, hp⟩⟩
    simp [substitute, freeParams, hps, ihr, or_and_right, exists_or]
  | parameter name params =>
    cases hname : b.lookup name <;> simp [substitute, freeParams, image, hname, param]

/-- A parameter is left in a substituted type if it is not bound there, or comes in with what another
one is bound to. -/
theorem mem_freeParams_substitute_iff (b : List (String × Ty)) (t : Ty) :
    p ∈ (t.substitute b).freeParams ↔ (p ∈ t.freeParams ∧ b.lookup p = none) ∨
      ∃ q ∈ t.freeParams, ∃ u, b.lookup q = some u ∧ p ∈ u.freeParams := by
  rw [mem_freeParams_substitute]
  constructor
  · rintro ⟨q, hq, hp⟩
    cases hlookup : b.lookup q with
    | none =>
      obtain rfl : p = q := by simpa [image, hlookup, param, freeParams] using hp
      exact .inl ⟨hq, hlookup⟩
    | some u => exact .inr ⟨q, hq, u, hlookup, by simpa [image, hlookup] using hp⟩
  · rintro (⟨hp, hlookup⟩ | ⟨q, hq, u, hlookup, hp⟩)
    · exact ⟨p, hp, by simp [image, hlookup, param, freeParams]⟩
    · exact ⟨q, hq, by simpa [image, hlookup] using hp⟩

/-- What counts of a substitution is what it makes of the parameters that are there. -/
theorem substitute_congr (h : ∀ p ∈ t.freeParams, b.lookup p = c.lookup p) :
    t.substitute b = t.substitute c := by
  induction t using Ty.induction with
  | basic | class_ | interface | template => rfl
  | array a ih => rw [substitute, substitute, ih h]
  | map k v ihk ihv =>
    rw [substitute, substitute, ihk fun p hp => h p (List.mem_append_left _ hp),
      ihv fun p hp => h p (List.mem_append_right _ hp)]
  | func ps r v ihps ihr =>
    have hps : substituteAll b ps = substituteAll c ps := by
      rw [substituteAll_eq_map, substituteAll_eq_map]
      refine List.map_congr_left fun t ht => ihps t ht fun p hp => h p ?_
      exact List.mem_append_left _ (mem_freeParamsAll.2 ⟨t, ht, hp⟩)
    rw [substitute, substitute, hps, ihr fun p hp => h p (List.mem_append_right _ hp)]
  | parameter name params =>
    rw [substitute, substitute, h name (List.mem_singleton_self name)]

theorem substitute_nil (t : Ty) : t.substitute [] = t := by
  induction t using Ty.induction with
  | basic | class_ | interface | template | parameter => rfl
  | array a ih => rw [substitute, ih]
  | map k v ihk ihv => rw [substitute, ihk, ihv]
  | func ps r v ihps ihr =>
    rw [substitute, ihr, substituteAll_eq_map, List.map_congr_left ihps, List.map_id']

theorem substitute_eq_self (h : ∀ p ∈ t.freeParams, b.lookup p = none) : t.substitute b = t :=
  (substitute_congr h).trans (substitute_nil t)

/-! ## One substitution after another -/

/-- The bindings that do what two lists of bindings do one after the other. -/
def andThen (b c : List (String × Ty)) : List (String × Ty) :=
  b.map (fun (name, u) => (name, u.substitute c)) ++ c

theorem lookup_andThen (b c : List (String × Ty)) (name : String) :
    (andThen b c).lookup name = ((b.lookup name).map (substitute c)).or (c.lookup name) := by
  have hmap : (b.map fun (name, u) => (name, u.substitute c)).lookup name =
      (b.lookup name).map (substitute c) := by
    induction b with
    | nil => rfl
    | cons e b ih =>
      obtain ⟨x, u⟩ := e
      rw [List.map_cons, List.lookup_cons, List.lookup_cons, ih]
      split <;> rfl
  rw [andThen, List.lookup_append, hmap]

theorem substitute_substitute (b c : List (String × Ty)) (t : Ty) :
    (t.substitute b).substitute c = t.substitute (andThen b c) := by
  induction t using Ty.induction with
  | basic | class_ | interface | template => rfl
  | array a ih => simp only [substitute, ih]
  | map k v ihk ihv => simp only [substitute, ihk, ihv]
  | func ps r v ihps ihr =>
    have hps : substituteAll c (substituteAll b ps) = substituteAll (andThen b c) ps := by
      simp only [substituteAll_eq_map, List.map_map]
      exact List.map_congr_left ihps
    rw [substitute, substitute, substitute, hps, ihr]
  | parameter name params =>
    cases hname : b.lookup name <;> simp [substitute, lookup_andThen, hname]

/-! ## Closed arguments for all parameters -/

section

variable {names : List String}

theorem lookup_zip_eq_none_iff (hlength : names.length = us.length) :
    (names.zip us).lookup p = none ↔ p ∉ names := by
  rw [List.lookup_eq_none_iff]
  constructor
  · intro h hp
    rw [← List.map_fst_zip (Nat.le_of_eq hlength)] at hp
    obtain ⟨e, he, rfl⟩ := List.mem_map.1 hp
    simpa using h e he
  · intro hp e he
    refine bne_iff_ne.2 ?_
    rintro rfl
    exact hp (List.of_mem_zip he).1

theorem mem_of_lookup_zip {u : Ty} (h : (names.zip us).lookup p = some u) : u ∈ us := by
  obtain ⟨before, after, hzip, -⟩ := List.lookup_eq_some_iff.1 h
  have hmem : (p, u) ∈ names.zip us := hzip ▸ List.mem_append_right _ List.mem_cons_self
  exact (List.of_mem_zip hmem).2

/-- With closed types for some names, the other parameters are left. -/
theorem mem_freeParams_substitute_zip (hlength : names.length = us.length)
    (hclosed : ∀ u ∈ us, u.freeParams = []) (t : Ty) :
    p ∈ (t.substitute (names.zip us)).freeParams ↔ p ∈ t.freeParams ∧ p ∉ names := by
  rw [mem_freeParams_substitute_iff, lookup_zip_eq_none_iff hlength]
  refine or_iff_left ?_
  rintro ⟨q, hq, u, hlookup, hp⟩
  rw [hclosed u (mem_of_lookup_zip hlookup)] at hp
  cases hp

end

end Ty

/-! ## Signatures and instances -/

theorem Signature.toTy_substitute (s : Signature) (b : List (String × Ty)) :
    (s.substitute b).toTy = s.toTy.substitute b := by
  rw [toTy, toTy, Ty.substitute]
  rfl

namespace Check

/-- A function template is given a type for each of its parameters. -/
structure Applies (a : Analysis) (name : Ident) (typeArgs : List TypeExpr) (info : TemplateInfo)
    (sig : Signature) (args : List Ty) (a' : Analysis) : Prop where
  resolved : (resolveTypes [] typeArgs).run a = (args, a')
  template : ∃ s, a'.scopes.resolve name.name = some s ∧ s.template? = some info
  signature : info.signature? = some sig
  complete : info.params.length = args.length

/-- A template that is given its types is the function with the types in place of the parameters. -/
theorem Applies.run_instantiate {a a' : Analysis} {name : Ident} {typeArgs : List TypeExpr}
    {info : TemplateInfo} {sig : Signature} {args : List Ty}
    (h : Applies a name typeArgs info sig args a') (span : Span) :
    (instantiate name typeArgs span).run a =
      (some (.function (sig.substitute (info.params.zip args))), a') := by
  obtain ⟨hargs, ⟨s, hname, hinfo⟩, hsig, hlength⟩ := h
  have hresolve : (resolve name.name).run a' = (some s, a') := by
    rw [← hname]
    rfl
  rw [instantiate, StateT.run_bind, hargs]
  show ((resolve name.name >>= _ : Check (Option Instance)).run a') = _
  rw [StateT.run_bind, hresolve]
  show StateT.run _ a' = _
  simp only [hinfo]
  rw [if_neg (by simpa using hlength), hsig]
  rfl

end Check

/-- The laws of substitution: which parameters are left, that one substitution after another is one
substitution, that nothing changes where nothing is bound, that signatures are substituted as their
types are, and that of a template with closed types for all its parameters none of these is left. -/
theorem substitute_laws :
    (∀ (t : Ty) (b : List (String × Ty)) (p : String),
      p ∈ (t.substitute b).freeParams ↔ (p ∈ t.freeParams ∧ b.lookup p = none) ∨
        ∃ q ∈ t.freeParams, ∃ u, b.lookup q = some u ∧ p ∈ u.freeParams) ∧
    (∀ (t : Ty) (b c : List (String × Ty)), (t.substitute b).substitute c =
      t.substitute (b.map (fun (name, u) => (name, u.substitute c)) ++ c)) ∧
    (∀ (t : Ty) (b : List (String × Ty)), (∀ p ∈ t.freeParams, b.lookup p = none) →
      t.substitute b = t) ∧
    (∀ (s : Signature) (b : List (String × Ty)), (s.substitute b).toTy = s.toTy.substitute b) ∧
    ∀ (a a' : Analysis) (name : Ident) (typeArgs : List TypeExpr) (info : TemplateInfo)
      (sig : Signature) (args : List Ty) (span : Span),
      Check.Applies a name typeArgs info sig args a' → (∀ u ∈ args, u.freeParams = []) →
      ∃ sig', (Check.instantiate name typeArgs span).run a = (some (.function sig'), a') ∧
        ∀ p, p ∈ sig'.toTy.freeParams ↔ p ∈ sig.toTy.freeParams ∧ p ∉ info.params := by
  refine ⟨fun t b p => Ty.mem_freeParams_substitute_iff b t, fun t b c =>
    Ty.substitute_substitute b c t, fun t b h => Ty.substitute_eq_self h,
    Signature.toTy_substitute, ?_⟩
  intro a a' name typeArgs info sig args span h hclosed
  refine ⟨_, h.run_instantiate span, fun p => ?_⟩
  rw [Signature.toTy_substitute]
  exact Ty.mem_freeParams_substitute_zip h.complete hclosed sig.toTy

/-- The signature of a template with two parameters. -/
def pairing : Signature := ⟨[.param "K", .array (.param "V")], .map (.param "K") (.param "V"), false⟩

/-- The symbol of the template. -/
def pairingSymbol : Symbol :=
  { name := "pair", kind := .template, ty := .template "pair" ["K", "V"] (some pairing.toTy),
    template? := some { params := ["K", "V"], signature? := some pairing } }

/-- The state of an analysis that knows the template. -/
def knowingPairing : Analysis := { scopes := ({} : ScopeTree).replace pairingSymbol }

/-- Of bindings of one name the first counts, and `pair<int, []string>` is closed. -/
theorem substitute_laws_pairing :
    let name : Ident := ⟨"pair", {}⟩
    let typeArgs : List TypeExpr := [.named ⟨"int", {}⟩, .array (.named ⟨"string", {}⟩) {}]
    (∀ p ∈ (Ty.array (.param "V")).freeParams,
      [("K", Ty.int), ("K", .param "V")].lookup p = none) ∧
    (Ty.array (.param "V")).substitute [("K", .int), ("K", .param "V")] = .array (.param "V") ∧
    Check.Applies knowingPairing name typeArgs { params := ["K", "V"], signature? := some pairing }
      pairing [.int, .array .string] knowingPairing ∧
    ∃ sig', (Check.instantiate name typeArgs {}).run knowingPairing =
      (some (.function sig'), knowingPairing) ∧ sig'.toTy.freeParams = [] := by
  intro name typeArgs
  obtain ⟨-, -, hself, -, hinstance⟩ := substitute_laws
  have hfree : ∀ p ∈ (Ty.array (.param "V")).freeParams,
      [("K", Ty.int), ("K", .param "V")].lookup p = none := by
    intro p hp
    obtain rfl := List.mem_singleton.1 hp
    rfl
  have hknown : knowingPairing.scopes.resolve "pair" = some pairingSymbol := by
    rw [ScopeTree.resolve, ScopeTree.resolveFrom]
    rfl
  have happlies : Check.Applies knowingPairing name typeArgs
      { params := ["K", "V"], signature? := some pairing } pairing [.int, .array .string]
      knowingPairing := ⟨rfl, ⟨pairingSymbol, hknown, rfl⟩, rfl, rfl⟩
  have hclosed : ∀ u ∈ [Ty.int, .array .string], u.freeParams = [] := by
    simp [Ty.int, Ty.string, Ty.freeParams]
  obtain ⟨sig', hrun, hleft⟩ := hinstance _ _ name typeArgs _ _ _ {} happlies hclosed
  refine ⟨hfree, hself _ _ hfree, happlies, sig', hrun, List.eq_nil_iff_forall_not_mem.2 ?_⟩
  intro p hp
  have hpairing : ∀ p ∈ pairing.toTy.freeParams, p ∈ ["K", "V"] := by decide
  exact ((hleft p).1 hp).2 (hpairing p ((hleft p).1 hp).1)

end ClassLang
