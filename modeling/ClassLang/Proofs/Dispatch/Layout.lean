import ClassLang.Gen.Layout
import Mathlib.Logic.Relation

/-!
# Layouts that grow

A layout grows by one member at a time, out of nothing or out of the layout of a parent. `Sound` is
what every such step keeps: the function of a virtual method stands in its slot, and no two methods
share one. A step takes nothing away from the front of the fields or from the table, and a method
that has a slot keeps it unless it is declared as static.
-/

namespace ClassLang

/-! ## One layout -/

namespace Layout

variable {l l' : Layout} {m : String} {e : MethodEntry} {s : Nat}

/-- The function of a method with a slot stands in the slot, and no two methods share one. -/
structure Sound (l : Layout) : Prop where
  entry : ∀ m e s, l.methods.find? m = some e → e.slot? = some s → l.vtable[s]? = some e.symbol
  unique : ∀ m m' e e' s, l.methods.find? m = some e → l.methods.find? m' = some e' →
    e.slot? = some s → e'.slot? = some s → m = m'

theorem Sound.slot_lt (h : l.Sound) (he : l.methods.find? m = some e) (hs : e.slot? = some s) :
    s < l.vtable.length := by
  obtain ⟨hlt, _⟩ := List.getElem?_eq_some_iff.1 (h.entry m e s he hs)
  exact hlt

/-- One member is added. -/
inductive Step (l : Layout) : Layout → Prop
  | field (f : FieldSlot) : Step l (l.addField f)
  | method (m : String) (sig : Signature) (wantsSlot isStatic : Bool) :
    Step l (l.addMethod m sig wantsSlot isStatic)

theorem find?_addMethod (l : Layout) (m k : String) (sig : Signature) (wantsSlot isStatic : Bool) :
    (l.addMethod m sig wantsSlot isStatic).methods.find? k =
      if k == m then
        some ⟨methodSymbol l.name m, sig, (l.place m wantsSlot isStatic).1, isStatic⟩
      else l.methods.find? k :=
  Table.find?_insert ..

/-- A method gets no slot, takes over the one that it has, or gets a new one at the end. -/
theorem place_cases (l : Layout) (m : String) (wantsSlot isStatic : Bool) :
    l.place m wantsSlot isStatic = (none, l.vtable) ∨
    (∃ e s, l.methods.find? m = some e ∧ e.slot? = some s ∧
      l.place m wantsSlot isStatic = (some s, l.vtable.set s (methodSymbol l.name m))) ∨
    l.place m wantsSlot isStatic =
      (some l.vtable.length, l.vtable ++ [methodSymbol l.name m]) := by
  unfold place
  cases isStatic with
  | true => exact .inl rfl
  | false =>
    simp only [Bool.false_eq_true, if_false]
    cases hslot : (l.methods.find? m).bind MethodEntry.slot? with
    | some s =>
      obtain ⟨e, he, hs⟩ := Option.bind_eq_some_iff.1 hslot
      exact .inr (.inl ⟨e, s, he, hs, rfl⟩)
    | none =>
      cases wantsSlot with
      | true => exact .inr (.inr rfl)
      | false => exact .inl rfl

theorem Sound.addMethod (h : l.Sound) (m : String) (sig : Signature) (wantsSlot isStatic : Bool) :
    (l.addMethod m sig wantsSlot isStatic).Sound := by
  have hvtable : (l.addMethod m sig wantsSlot isStatic).vtable =
      (l.place m wantsSlot isStatic).2 := rfl
  have hfind := fun k => l.find?_addMethod m k sig wantsSlot isStatic
  rcases l.place_cases m wantsSlot isStatic with hplace | ⟨e₀, s₀, he₀, hs₀, hplace⟩ | hplace
  · rw [hplace] at hvtable hfind
    constructor
    · intro k e s he hs
      rw [hfind] at he
      split at he
      · cases he
        cases hs
      · rw [hvtable]
        exact h.entry k e s he hs
    · intro k k' e e' s he he' hs hs'
      rw [hfind] at he he'
      split at he
      · cases he
        cases hs
      · split at he'
        · cases he'
          cases hs'
        · exact h.unique k k' e e' s he he' hs hs'
  · rw [hplace] at hvtable hfind
    -- No other method has the slot that is taken over.
    have hother : ∀ k e s, k ≠ m → l.methods.find? k = some e → e.slot? = some s → s ≠ s₀ := by
      rintro k e _ hk he hs rfl
      exact hk (h.unique k m e e₀ _ he he₀ hs hs₀)
    constructor
    · intro k e s he hs
      rw [hfind] at he
      rw [hvtable]
      split at he
      · cases he
        cases hs
        rw [List.getElem?_set_self (h.slot_lt he₀ hs₀)]
      next hk =>
        rw [List.getElem?_set_ne (hother k e s (by simpa using hk) he hs).symm]
        exact h.entry k e s he hs
    · intro k k' e e' s he he' hs hs'
      rw [hfind] at he he'
      split at he <;> split at he'
      next hk hk' => rw [eq_of_beq hk, eq_of_beq hk']
      next hk hk' =>
        cases he
        cases hs
        exact absurd rfl (hother k' e' _ (by simpa using hk') he' hs')
      next hk hk' =>
        cases he'
        cases hs'
        exact absurd rfl (hother k e _ (by simpa using hk) he hs)
      next => exact h.unique k k' e e' s he he' hs hs'
  · rw [hplace] at hvtable hfind
    constructor
    · intro k e s he hs
      rw [hfind] at he
      rw [hvtable]
      split at he
      · cases he
        cases hs
        simp
      · rw [List.getElem?_append_left (h.slot_lt he hs)]
        exact h.entry k e s he hs
    · intro k k' e e' s he he' hs hs'
      rw [hfind] at he he'
      split at he <;> split at he'
      next hk hk' => rw [eq_of_beq hk, eq_of_beq hk']
      next =>
        cases he
        cases hs
        exact absurd (h.slot_lt he' hs') (Nat.lt_irrefl _)
      next =>
        cases he'
        cases hs'
        exact absurd (h.slot_lt he hs) (Nat.lt_irrefl _)
      next => exact h.unique k k' e e' s he he' hs hs'

theorem Sound.step (h : l.Sound) (hstep : l.Step l') : l'.Sound := by
  cases hstep with
  | field f => exact ⟨h.entry, h.unique⟩
  | method m sig wantsSlot isStatic => exact h.addMethod m sig wantsSlot isStatic

theorem Sound.steps (h : l.Sound) (hsteps : Relation.ReflTransGen Step l l') : l'.Sound := by
  induction hsteps with
  | refl => exact h
  | tail _ hstep ih => exact ih.step hstep

theorem Sound.derive {base? : Option Layout} (h : ∀ b, base? = some b → b.Sound) (name : String)
    (parent? : Option String) : (derive name parent? base?).Sound := by
  cases base? with
  | some b => exact ⟨(h b rfl).entry, (h b rfl).unique⟩
  | none => exact ⟨fun _ _ _ he => (nomatch he), fun _ _ _ _ _ he => nomatch he⟩

/-! ## All members of a class -/

/-- A method as it is declared. -/
structure Declared where
  name : String
  signature : Signature
  wantsSlot : Bool
  isStatic : Bool

def declare (l : Layout) (d : Declared) : Layout :=
  l.addMethod d.name d.signature d.wantsSlot d.isStatic

def declareAll (l : Layout) (fields : List FieldSlot) (ds : List Declared) : Layout :=
  ds.foldl declare (fields.foldl addField l)

theorem steps_foldl_declare (l : Layout) (ds : List Declared) :
    Relation.ReflTransGen Step l (ds.foldl declare l) := by
  induction ds generalizing l with
  | nil => exact .refl
  | cons d ds ih => exact .head (.method ..) (ih _)

theorem steps_declareAll (l : Layout) (fields : List FieldSlot) (ds : List Declared) :
    Relation.ReflTransGen Step l (l.declareAll fields ds) := by
  refine .trans ?_ (steps_foldl_declare _ ds)
  induction fields generalizing l with
  | nil => exact .refl
  | cons f fields ih => exact .head (.field f) (ih _)

/-- What one layout has of another: the fields come first, and no slot is taken away. -/
structure Extends (l l' : Layout) : Prop where
  fields : l.fields <+: l'.fields
  vtable : l.vtable.length ≤ l'.vtable.length

theorem Extends.trans {l'' : Layout} (h : l.Extends l') (h' : l'.Extends l'') : l.Extends l'' :=
  ⟨h.fields.trans h'.fields, Nat.le_trans h.vtable h'.vtable⟩

theorem Step.extends (h : l.Step l') : l.Extends l' := by
  cases h with
  | field f => exact ⟨List.prefix_append _ _, Nat.le_refl _⟩
  | method m sig wantsSlot isStatic =>
    refine ⟨List.prefix_refl _, ?_⟩
    show l.vtable.length ≤ (l.place m wantsSlot isStatic).2.length
    rcases l.place_cases m wantsSlot isStatic with hplace | ⟨_, _, _, _, hplace⟩ | hplace
    all_goals simp [hplace]

theorem extends_of_steps (h : Relation.ReflTransGen Step l l') : l.Extends l' := by
  induction h with
  | refl => exact ⟨List.prefix_refl _, Nat.le_refl _⟩
  | tail _ hstep ih => exact ih.trans hstep.extends

theorem Step.name (h : l.Step l') : l'.name = l.name := by
  cases h <;> rfl

theorem name_of_steps (h : Relation.ReflTransGen Step l l') : l'.name = l.name := by
  induction h with
  | refl => rfl
  | tail _ hstep ih => rw [hstep.name, ih]

theorem methods_foldl_addField (l : Layout) (fields : List FieldSlot) :
    (fields.foldl addField l).methods = l.methods := by
  induction fields generalizing l with
  | nil => rfl
  | cons f fields ih => exact ih (l.addField f)

/-- A method keeps its slot unless it is declared as static. -/
theorem slot_addMethod (he : l.methods.find? m = some e) (hs : e.slot? = some s)
    (sig : Signature) (wantsSlot : Bool) :
    ∃ e', (l.addMethod m sig wantsSlot false).methods.find? m = some e' ∧ e'.slot? = some s ∧
      e'.symbol = methodSymbol l.name m := by
  rw [find?_addMethod, if_pos (beq_self_eq_true m)]
  refine ⟨_, rfl, ?_, rfl⟩
  show (l.place m wantsSlot false).1 = some s
  simp [place, he, hs]

/-- The slot of a method after a list of declarations, and the function in it. -/
theorem slot_foldl_declare (ds : List Declared) (he : l.methods.find? m = some e)
    (hs : e.slot? = some s) (hstatic : ∀ d ∈ ds, d.name = m → d.isStatic = false) :
    ∃ e', (ds.foldl declare l).methods.find? m = some e' ∧ e'.slot? = some s ∧
      e'.symbol = if ds.any (·.name == m) then methodSymbol l.name m else e.symbol := by
  induction ds generalizing l e with
  | nil => exact ⟨e, he, hs, rfl⟩
  | cons d ds ih =>
    have hds : ∀ d ∈ ds, d.name = m → d.isStatic = false :=
      fun d hd => hstatic d (List.mem_cons_of_mem _ hd)
    have hname : (l.declare d).name = l.name := rfl
    rw [List.foldl_cons, List.any_cons]
    by_cases hd : d.name = m
    · obtain ⟨e₁, he₁, hs₁, hsymbol₁⟩ := slot_addMethod he hs d.signature d.wantsSlot
      have hdeclare : l.declare d = l.addMethod m d.signature d.wantsSlot false := by
        rw [declare, hd, hstatic d List.mem_cons_self hd]
      rw [← hdeclare] at he₁
      obtain ⟨e₂, he₂, hs₂, hsymbol₂⟩ := ih he₁ hs₁ hds
      refine ⟨e₂, he₂, hs₂, ?_⟩
      rw [hsymbol₂, hname, hsymbol₁]
      simp [hd]
    · have he₁ : (l.declare d).methods.find? m = some e := by
        rw [declare, find?_addMethod, if_neg (by simpa using Ne.symm hd), he]
      obtain ⟨e₂, he₂, hs₂, hsymbol₂⟩ := ih he₁ hs hds
      refine ⟨e₂, he₂, hs₂, ?_⟩
      rw [hsymbol₂, hname]
      simp [hd]

end Layout

end ClassLang
