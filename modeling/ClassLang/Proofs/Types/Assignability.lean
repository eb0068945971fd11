import ClassLang.Proofs.Comparison.Blur
import ClassLang.Proofs.Types.Ancestors
import ClassLang.Proofs.Types.Basic
import Mathlib.Order.Defs.Unbundled

/-!
# Assignability is a preorder

A wildcard can be stored anywhere and takes anything, so it joins types that have nothing to do with
each other, and storing is transitive between types without one only. There a value can be stored if it
fits (`Ty.Fits`), which is a matter of the types alone, or if its class has the right ancestors. Fitting
is transitive, and among classes and interfaces each fits itself alone, so that of two steps that are
both about ancestors the chains are joined, and otherwise one step is of no account.
-/

namespace ClassLang

namespace Ty

/-! ## Types without wildcards -/

mutual

/-- Whether the unknown type or a type parameter is anywhere in a type. -/
def hasWildcard : Ty → Bool
  | .basic _ k => k == .unknown
  | .array a => a.hasWildcard
  | .map k v => k.hasWildcard || v.hasWildcard
  | .func ps r _ => anyWildcard ps || r.hasWildcard
  | .class_ _ | .interface _ => false
  | .template _ _ none => true
  | .template _ _ (some base) => base.hasWildcard

def anyWildcard : List Ty → Bool
  | [] => false
  | t :: ts => t.hasWildcard || anyWildcard ts

end

variable {a b c : Ty}

theorem isWildcard_eq_false (h : a.hasWildcard = false) : a.isWildcard = false := by
  cases a with
  | basic => exact h
  | template name params base? =>
    cases base? with
    | none => cases h
    | some base => rfl
  | _ => rfl

/-! ## Fitting -/

/-- A value of one type can be stored in a place of another for what the types are: they are the same,
or the value is null, or they fit part by part. -/
inductive Fits : Ty → Ty → Prop
  | same {a b : Ty} (h : a.same b = true) : Fits a b
  | null {a b : Ty} (h : b.isKind .null = true) (ha : a.isReference = true) : Fits a b
  | array {a b : Ty} (h : Fits a b) : Fits (.array a) (.array b)
  | map {k l v w : Ty} (hk : Fits k l) (hv : Fits v w) : Fits (.map k v) (.map l w)

theorem accepts_iff (ha : a.hasWildcard = false) (hb : b.hasWildcard = false) :
    a.accepts b = true ↔ Fits a b := by
  fun_induction accepts a b with
  | case1 a b ih =>
    rw [ih ha hb]
    refine ⟨.array, fun h => ?_⟩
    cases h with
    | same h => exact .same h
    | null h => cases h
    | array h => exact h
  | case2 k v l w ihk ihv =>
    simp only [hasWildcard, Bool.or_eq_false_iff] at ha hb
    rw [Bool.and_eq_true, ihk ha.1 hb.1, ihv ha.2 hb.2]
    refine ⟨fun ⟨hk, hv⟩ => .map hk hv, fun h => ?_⟩
    cases h with
    | same h =>
      obtain ⟨hk, hv⟩ := Bool.and_eq_true_iff.1 h
      exact ⟨.same hk, .same hv⟩
    | null h => cases h
    | map hk hv => exact ⟨hk, hv⟩
  | case3 a b harray hmap =>
    simp only [isWildcard_eq_false ha, isWildcard_eq_false hb, Bool.false_or, Bool.or_eq_true,
      Bool.and_eq_true]
    constructor
    · rintro (⟨h, ha⟩ | h)
      · exact .null h ha
      · exact .same h
    · intro h
      cases h with
      | same h => exact .inr h
      | null h ha => exact .inl ⟨h, ha⟩
      | array => exact (harray _ _ rfl rfl).elim
      | map => exact (hmap _ _ _ _ rfl rfl).elim

theorem isReference_of_same (h : a.same b = true) : a.isReference = b.isReference := by
  cases a <;> cases b <;> simp_all [same, isReference, isString, isKind, kind?]

theorem isKind_of_same (h : a.same b = true) (k : BasicKind) : a.isKind k = b.isKind k := by
  cases a <;> cases b <;> simp_all [same, isKind, kind?]

theorem Fits.of_same (hab : a.same b = true) (hbc : Fits b c) : Fits a c := by
  induction hbc generalizing a with
  | same hbc => exact .same (same_equivalence.trans hab hbc)
  | null hnull hb => exact .null hnull ((isReference_of_same hab).trans hb)
  | array _ ih =>
    cases a with
    | array a => exact .array (ih hab)
    | _ => cases hab
  | map _ _ ihk ihv =>
    cases a with
    | map k v =>
      obtain ⟨hk, hv⟩ := Bool.and_eq_true_iff.1 hab
      exact .map (ihk hk) (ihv hv)
    | _ => cases hab

/-- Only null values fit where a null value is expected. -/
theorem Fits.isKind_null (h : Fits a b) (ha : a.isKind .null = true) : b.isKind .null = true := by
  cases h with
  | same h => exact (isKind_of_same h .null).symm.trans ha
  | null h => exact h
  | array | map => cases ha

theorem Fits.trans (hab : Fits a b) (hbc : Fits b c) : Fits a c := by
  induction hab generalizing c with
  | same hab => exact hbc.of_same hab
  | null hnull ha => exact .null (hbc.isKind_null hnull) ha
  | array _ ih =>
    cases hbc with
    | same hbc =>
      cases c with
      | array c => exact .array (ih (.same hbc))
      | _ => cases hbc
    | null hnull => exact .null hnull rfl
    | array hbc => exact .array (ih hbc)
  | map _ _ ihk ihv =>
    cases hbc with
    | same hbc =>
      cases c with
      | map l w =>
        obtain ⟨hl, hw⟩ := Bool.and_eq_true_iff.1 hbc
        exact .map (ihk (.same hl)) (ihv (.same hw))
      | _ => cases hbc
    | null hnull => exact .null hnull rfl
    | map hl hw => exact .map (ihk hl) (ihv hw)

/-- A class or an interface fits itself alone. -/
theorem Fits.eq_of_isNamed (h : Fits a b) (hb : b.isNamed = true) : a = b := by
  cases b with
  | class_ | interface =>
    cases h with
    | same h => cases a <;> simp_all [Ty.same]
    | null h => cases h
  | _ => cases hb

/-- What fits a class is the class itself or null. -/
theorem Fits.of_class {c : String} (h : Fits (.class_ c) b) :
    b = .class_ c ∨ b.isKind .null = true := by
  cases h with
  | same h => cases b <;> simp_all [Ty.same]
  | null h => exact .inr h

end Ty

/-! ## Storing -/

namespace ScopeTree

variable {t : ScopeTree} {a b c : Ty}

/-- A value of one type can be stored in a place of another: they fit, or the value is of a subclass,
or of a class that implements the interface. -/
inductive Stores (t : ScopeTree) : Ty → Ty → Prop
  | fits {a b : Ty} (h : Ty.Fits a b) : t.Stores a b
  | subclass {c d : String} (h : t.isSubclass d c = true) : t.Stores (.class_ c) (.class_ d)
  | implements {i c : String} (h : t.implements c i = true) : t.Stores (.interface i) (.class_ c)

theorem assignable_iff (ha : a.hasWildcard = false) (hb : b.hasWildcard = false) :
    t.assignable a b = true ↔ t.Stores a b := by
  unfold assignable
  rw [Bool.or_eq_true, Ty.accepts_iff ha hb]
  constructor
  · rintro (h | h)
    · exact .fits h
    · split at h
      · exact .subclass h
      · exact .implements h
      · cases h
  · rintro (h | h | h)
    · exact .inl h
    · exact .inr h
    · exact .inr h

theorem Stores.trans (hnamed : t.ClassesNamed) (hab : t.Stores a b) (hbc : t.Stores b c) :
    t.Stores a c := by
  cases hab with
  | fits hab =>
    cases hbc with
    | fits hbc => exact .fits (hab.trans hbc)
    | subclass h => exact hab.eq_of_isNamed rfl ▸ .subclass h
    | implements h => exact hab.eq_of_isNamed rfl ▸ .implements h
  | subclass hab =>
    cases hbc with
    | fits hbc =>
      obtain rfl | hnull := hbc.of_class
      · exact .subclass hab
      · exact .fits (.null hnull rfl)
    | subclass hbc => exact .subclass (isSubclass_trans hnamed hbc hab)
  | implements hab =>
    cases hbc with
    | fits hbc =>
      obtain rfl | hnull := hbc.of_class
      · exact .implements hab
      · exact .fits (.null hnull rfl)
    | subclass hbc => exact .implements (implements_of_isSubclass hnamed hbc hab)

end ScopeTree

/-- Types are the same up to an equivalence, and between types without a wildcard assignability is a
preorder, however the classes extend and implement each other. -/
theorem assignable_preorder : Equivalence (fun a b : Ty => a.same b = true) ∧
    ∀ t : ScopeTree, t.ClassesNamed →
      IsPreorder {a : Ty // a.hasWildcard = false} fun a b => t.assignable a b = true := by
  refine ⟨Ty.same_equivalence, fun t hnamed => { refl := fun a => ?_, trans := fun a b c => ?_ }⟩
  · exact (ScopeTree.assignable_iff a.2 a.2).2 (.fits (.same (Ty.same_equivalence.refl _)))
  · rw [ScopeTree.assignable_iff a.2 b.2, ScopeTree.assignable_iff b.2 c.2,
      ScopeTree.assignable_iff a.2 c.2]
    exact ScopeTree.Stores.trans hnamed

/-- Two classes that extend each other, one of which implements an interface, a class of an unknown
parent, and a template of a class that extends the first one. -/
def tangledClasses : ScopeTree :=
  let cls (info : ClassInfo) : Symbol :=
    { name := info.name, kind := .class_, ty := .class_ info.name, class? := some info }
  let box : Symbol :=
    { name := "Box"
      kind := .template
      ty := .template "Box" ["T"] (some (.class_ "Box"))
      template? := some
        { params := ["T"], class? := some { name := "Box", parent? := some "Ping" } } }
  (((({} : ScopeTree).replace (cls { name := "Ping", parent? := some "Pong" })).replace
    (cls { name := "Pong", parent? := some "Ping", interfaces := ["Playable"] })).replace
    (cls { name := "Stray", parent? := some "Gone" })).replace box

/-- A box is playable by way of the classes that it extends. -/
theorem assignable_preorder_tangled : tangledClasses.ClassesNamed ∧
    tangledClasses.assignable (.class_ "Stray") (.class_ "Stray") = true ∧
    tangledClasses.assignable (.interface "Playable") (.class_ "Ping") = true ∧
    tangledClasses.assignable (.class_ "Ping") (.class_ "Box") = true ∧
    tangledClasses.assignable (.interface "Playable") (.class_ "Box") = true := by
  have hnamed : tangledClasses.ClassesNamed := by
    have htop : ({} : ScopeTree).AtTop := ⟨rfl, rfl⟩
    refine .replace (.replace (.replace (.replace .default htop ?_) (htop.replace _) ?_)
      ((htop.replace _).replace _) ?_) (((htop.replace _).replace _).replace _) ?_
    all_goals
      rintro _ ⟨⟩
      rfl
  have hpreorder := assignable_preorder.2 tangledClasses hnamed
  have hping : tangledClasses.assignable (.interface "Playable") (.class_ "Ping") = true := by decide
  have hbox : tangledClasses.assignable (.class_ "Ping") (.class_ "Box") = true := by decide
  exact ⟨hnamed, hpreorder.refl ⟨.class_ "Stray", rfl⟩, hping, hbox,
    hpreorder.trans ⟨.interface "Playable", rfl⟩ ⟨.class_ "Ping", rfl⟩ ⟨.class_ "Box", rfl⟩ hping hbox⟩

end ClassLang
