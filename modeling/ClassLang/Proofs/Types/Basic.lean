import ClassLang.Ty

/-!
# Types and their shapes

Induction over types reaches into the parameter lists of function types. Equality of types compares
shapes: a type without the names that its basic types are written with, and without what its templates
stand for (`same_iff`), so it is an equivalence.
-/

namespace ClassLang

namespace Ty

/-- What holds of types is shown one constructor at a time; the parameters of a function are taken
together, and a type parameter is told from a template that stands for a type. -/
@[elab_as_elim]
theorem induction {motive : Ty → Prop} (basic : ∀ name k, motive (.basic name k))
    (array : ∀ a, motive a → motive (.array a))
    (map : ∀ k v, motive k → motive v → motive (.map k v))
    (func : ∀ ps r v, (∀ p ∈ ps, motive p) → motive r → motive (.func ps r v))
    (class_ : ∀ name, motive (.class_ name)) (interface : ∀ name, motive (.interface name))
    (parameter : ∀ name params, motive (.template name params none))
    (template : ∀ name params base, motive base → motive (.template name params (some base)))
    (t : Ty) : motive t := by
  refine Ty.rec (motive_1 := motive) (motive_2 := fun ts => ∀ t ∈ ts, motive t)
    (motive_3 := fun base? => ∀ base ∈ base?, motive base) basic array map
    (fun ps r v hps hr => func ps r v hps hr) class_ interface ?_ ?_ ?_ ?_ ?_ t
  · intro name params base? hbase
    cases base? with
    | none => exact parameter name params
    | some base => exact template name params base (hbase base rfl)
  · nofun
  · intro t ts ht hts u hu
    rcases List.mem_cons.1 hu with rfl | hu
    · exact ht
    · exact hts u hu
  · nofun
  · intro base hbase b hb
    obtain rfl := Option.some.inj hb
    exact hbase

mutual

/-- What of a type counts when types are compared. -/
def shape : Ty → Ty
  | .basic _ k => .basic "" k
  | .array a => .array a.shape
  | .map k v => .map k.shape v.shape
  | .func ps r v => .func (shapes ps) r.shape v
  | .class_ name => .class_ name
  | .interface name => .interface name
  | .template name _ _ => .template name [] none

def shapes : List Ty → List Ty
  | [] => []
  | t :: ts => t.shape :: shapes ts

end

theorem sameAll_iff {as bs : List Ty}
    (h : ∀ a ∈ as, ∀ b, same a b = true ↔ a.shape = b.shape) :
    sameAll as bs = true ↔ shapes as = shapes bs := by
  induction as generalizing bs with
  | nil => cases bs <;> simp [sameAll, shapes]
  | cons a as ih =>
    obtain ⟨ha, has⟩ := List.forall_mem_cons.1 h
    cases bs with
    | nil => simp [sameAll, shapes]
    | cons b bs => simp [sameAll, shapes, ha, ih has]

/-- Types are the same if and only if they have one shape. -/
theorem same_iff (a b : Ty) : same a b = true ↔ a.shape = b.shape := by
  induction a using Ty.induction generalizing b with
  | basic name k => cases b <;> simp [same, shape]
  | array a ih => cases b <;> simp [same, shape, ih]
  | map k v ihk ihv => cases b <;> simp [same, shape, ihk, ihv]
  | func ps r v ihps ihr =>
    cases b with
    | func qs s w =>
      simp only [same, shape, Bool.and_eq_true, beq_iff_eq, ihr, sameAll_iff ihps, Ty.func.injEq]
      exact ⟨fun ⟨⟨hv, hr⟩, hps⟩ => ⟨hps, hr, hv⟩, fun ⟨hps, hr, hv⟩ => ⟨⟨hv, hr⟩, hps⟩⟩
    | _ => simp [same, shape]
  | class_ name | interface name | parameter name params => cases b <;> simp [same, shape]
  | template name params base => cases b <;> simp [same, shape]

theorem same_equivalence : Equivalence fun a b : Ty => same a b = true := by
  simp only [same_iff]
  exact ⟨fun _ => rfl, Eq.symm, Eq.trans⟩

end Ty

end ClassLang
