import ClassLang.Proofs.Types.Ancestors
import Mathlib.Logic.Function.Iterate

/-!
# The line of a class

From a class on, each class names its parent. This line of classes has an end at an unknown parent, and
goes on for ever where classes extend each other in a circle. The chain of a class is the line up to its
end or its first repetition (`Lineage`): the walk that stops there comes to an end, whatever the classes
are, before the chain could be cut off for its length. Nothing new stands on the line after that, so what
is looked up on the chain is what the nearest class on the whole line has.
-/

namespace ClassLang

namespace ScopeTree

variable {t : ScopeTree} {c : String} {fuel n : Nat} {seen : List String} {info? : Option ClassInfo}
  {info above : ClassInfo} {chain rest : List ClassInfo}

/-- The parent of a class, if there is a class and its parent is known. -/
def up (t : ScopeTree) (info? : Option ClassInfo) : Option ClassInfo :=
  info?.bind fun info => info.parent?.bind t.classInfo?

/-- The class that is `n` steps up from a class. -/
def ancestor? (t : ScopeTree) (c : String) (n : Nat) : Option ClassInfo := t.up^[n] (t.classInfo? c)

theorem ancestor?_succ (t : ScopeTree) (c : String) (n : Nat) :
    t.ancestor? c (n + 1) = t.up (t.ancestor? c n) :=
  Function.iterate_succ_apply' t.up n (t.classInfo? c)

/-! ## The walk -/

/-- Going up from a class gives the classes of a list and then stops, before an unknown class or before
a class that it has come past. -/
inductive Walk (t : ScopeTree) : (seen : List String) → Option ClassInfo → List ClassInfo → Prop
  | unknown {seen : List String} : t.Walk seen none []
  | repeated {seen : List String} {info : ClassInfo} : info.name ∈ seen → t.Walk seen (some info) []
  | next {seen : List String} {info : ClassInfo} {rest : List ClassInfo} : info.name ∉ seen →
    t.Walk (info.name :: seen) (t.up (some info)) rest → t.Walk seen (some info) (info :: rest)

/-- The walk gives what the chain holds, if the chain does not end for want of fuel. -/
theorem walk_chainFrom (h : (t.chainFrom fuel seen info?).length < fuel) :
    t.Walk seen info? (t.chainFrom fuel seen info?) := by
  induction fuel generalizing seen info? with
  | zero => cases h
  | succ fuel ih =>
    cases info? with
    | none =>
      simp only [chainFrom]
      exact .unknown
    | some info =>
      rw [chainFrom] at h ⊢
      split
      next hseen => exact .repeated (by simpa using hseen)
      next hnew =>
        rw [if_neg hnew, List.length_cons, Nat.succ_lt_succ_iff] at h
        exact .next (by simpa using hnew) (ih h)

theorem walk_classChain (t : ScopeTree) (c : String) :
    t.Walk [] (t.classInfo? c) (t.classChain c) :=
  walk_chainFrom (Nat.lt_succ_of_le (length_chainFrom_le _ fun _ h => ⟨c, h⟩))

/-- The classes of a walk are those of the line, one after the other. -/
theorem Walk.getElem (h : t.Walk seen info? chain) (hn : n < chain.length) :
    t.up^[n] info? = some chain[n] := by
  induction h generalizing n with
  | unknown | repeated => cases hn
  | next _ _ ih =>
    cases n with
    | zero => rfl
    | succ n => exact ih (Nat.lt_of_succ_lt_succ hn)

/-- Where a walk stops, the line is at its end or comes to a class that was there before. -/
theorem Walk.repeats (h : t.Walk seen info? chain) (hstop : t.up^[chain.length] info? = some above) :
    above.name ∈ chain.map ClassInfo.name ∨ above.name ∈ seen := by
  induction h with
  | unknown => cases hstop
  | repeated hseen =>
    cases hstop
    exact .inr hseen
  | next _ _ ih =>
    rw [List.map_cons, List.mem_cons, or_assoc, or_left_comm, ← List.mem_cons]
    exact ih hstop

/-! ## The chain and the line -/

/-- A list is the line of a class up to its end or its first repetition. -/
structure Lineage (t : ScopeTree) (c : String) (chain : List ClassInfo) : Prop where
  walk : t.Walk [] (t.classInfo? c) chain
  ancestors : ∀ n (h : n < chain.length), t.ancestor? c n = some chain[n]
  nodup : (chain.map ClassInfo.name).Nodup
  stops : ∀ above, t.ancestor? c chain.length = some above → above ∈ chain

theorem classInfo?_of_ancestor? (h : t.ancestor? c n = some above) :
    ∃ m, t.classInfo? m = some above := by
  cases n with
  | zero => exact ⟨c, h⟩
  | succ n =>
    rw [ancestor?_succ] at h
    obtain ⟨info, -, hinfo⟩ := Option.bind_eq_some_iff.1 h
    obtain ⟨m, -, hm⟩ := Option.bind_eq_some_iff.1 hinfo
    exact ⟨m, hm⟩

theorem lineage_classChain (hnamed : t.ClassesNamed) (c : String) : t.Lineage c (t.classChain c) where
  walk := walk_classChain t c
  ancestors _ hn := (walk_classChain t c).getElem hn
  nodup := by
    have hnodup := nodup_chainFrom t (t.globalCount + 1) (t.classInfo? c) List.nodup_nil
    rwa [List.append_nil] at hnodup
  stops above h := by
    have hname := ((walk_classChain t c).repeats h).resolve_right List.not_mem_nil
    obtain ⟨info, hmem, hname⟩ := List.mem_map.1 hname
    -- classes of one name are one class
    obtain ⟨n, hn⟩ := classInfo?_of_mem_classChain hmem
    obtain ⟨m, hm⟩ := classInfo?_of_ancestor? h
    rw [← hnamed m above hm, ← hname, hnamed n info hn, hn] at hm
    exact Option.some.inj hm ▸ hmem

theorem reaches_of_ancestor? (h : t.ancestor? c n = some above) :
    ∃ info, t.classInfo? c = some info ∧ Relation.ReflTransGen t.Extends info above := by
  induction n generalizing above with
  | zero => exact ⟨above, h, .refl⟩
  | succ n ih =>
    rw [ancestor?_succ] at h
    obtain ⟨below, hbelow, hextends⟩ := Option.bind_eq_some_iff.1 h
    obtain ⟨info, hinfo, hreaches⟩ := ih hbelow
    exact ⟨info, hinfo, hreaches.tail hextends⟩

/-- All classes on the line of a class are on its chain. -/
theorem mem_classChain_iff_ancestor? (hnamed : t.ClassesNamed) :
    above ∈ t.classChain c ↔ ∃ n, t.ancestor? c n = some above := by
  constructor
  · intro h
    obtain ⟨n, hn, rfl⟩ := List.getElem_of_mem h
    exact ⟨n, (lineage_classChain hnamed c).ancestors n hn⟩
  · rintro ⟨n, hn⟩
    exact (mem_classChain_iff hnamed c).2 (reaches_of_ancestor? hn)

/-! ## Members -/

/-- What is read of the nearest class on the line of `c` that it can be read of. -/
def Nearest {α : Type} (t : ScopeTree) (c : String) (read : ClassInfo → Option α) (a : α) : Prop :=
  ∃ n above, t.ancestor? c n = some above ∧ read above = some a ∧
    ∀ k < n, ∀ below, t.ancestor? c k = some below → read below = none

theorem findSome?_classChain_iff {α : Type} (hnamed : t.ClassesNamed) (read : ClassInfo → Option α)
    (a : α) : (t.classChain c).findSome? read = some a ↔ t.Nearest c read a := by
  have hline := lineage_classChain hnamed c
  rw [List.findSome?_eq_some_iff]
  constructor
  · rintro ⟨before, above, after, hchain, ha, hbefore⟩
    have hancestor : ∀ k (hk : k < (before ++ above :: after).length),
        t.ancestor? c k = some (before ++ above :: after)[k] := hchain ▸ hline.ancestors
    refine ⟨before.length, above, ?_, ha, fun k hk below hbelow => ?_⟩
    · rw [hancestor _ (by simp), List.getElem_append_right (Nat.le_refl _)]
      simp only [Nat.sub_self, List.getElem_cons_zero]
    · rw [hancestor k (by simp; omega), List.getElem_append_left hk] at hbelow
      exact Option.some.inj hbelow ▸ hbefore _ (List.getElem_mem hk)
  · rintro ⟨n, above, hn, ha, hnone⟩
    -- further up than the chain goes, each class was there before
    have hlt : n < (t.classChain c).length := by
      by_contra hge
      obtain ⟨k, hk, hget⟩ := List.getElem_of_mem ((mem_classChain_iff_ancestor? hnamed).2 ⟨n, hn⟩)
      have hread := hnone k (by omega) above ((hline.ancestors k hk).trans (congrArg some hget))
      rw [ha] at hread
      cases hread
    have habove : (t.classChain c)[n] = above :=
      Option.some.inj ((hline.ancestors n hlt).symm.trans hn)
    refine ⟨(t.classChain c).take n, above, (t.classChain c).drop (n + 1), ?_, ha, fun info hinfo => ?_⟩
    · rw [← habove, List.getElem_cons_drop, List.take_append_drop]
    · obtain ⟨k, hk, rfl⟩ := List.mem_take_iff_getElem.1 hinfo
      exact hnone k (by omega) _ (hline.ancestors k (by omega))

theorem isSubclass_iff_ancestor? {d : String} (hnamed : t.ClassesNamed) :
    t.isSubclass c d = true ↔ ∃ n above, t.ancestor? c n = some above ∧ above.name = d := by
  simp only [isSubclass, List.any_eq_true, mem_classChain_iff_ancestor? hnamed, beq_iff_eq]
  constructor
  · rintro ⟨above, ⟨n, hn⟩, hname⟩
    exact ⟨n, above, hn, hname⟩
  · rintro ⟨n, above, hn, hname⟩
    exact ⟨above, ⟨n, hn⟩, hname⟩

/-- However classes extend each other, the chain of a class is its line up to the end or the first
repetition. A field or a method is that of the nearest class on the line that has one of the name, and a
class derives from those that are on its line. -/
theorem lineage_and_members (t : ScopeTree) (hnamed : t.ClassesNamed) (c : String) :
    t.Lineage c (t.classChain c) ∧
      (∀ name field, t.findField c name = some field ↔ t.Nearest c (·.field? name) field) ∧
      (∀ name method, t.findMethod c name = some method ↔ t.Nearest c (·.method? name) method) ∧
      ∀ d, t.isSubclass c d = true ↔ ∃ n above, t.ancestor? c n = some above ∧ above.name = d :=
  ⟨lineage_classChain hnamed c, fun _ field => findSome?_classChain_iff hnamed _ field,
    fun _ method => findSome?_classChain_iff hnamed _ method, fun _ => isSubclass_iff_ancestor? hnamed⟩

/-- A hen and an egg that extend each other, a phoenix that extends itself, and a hatchling of the hen. A
class of an unknown parent is among them. -/
def circularClasses : ScopeTree :=
  let cls (info : ClassInfo) : Symbol :=
    { name := info.name, kind := .class_, ty := .class_ info.name, class? := some info }
  let field (name : String) (ty : Ty) : FieldInfo := ⟨name, ty, false⟩
  let hatch : MethodInfo := ⟨"hatch", ⟨[], .class_ "Hen", false⟩, true⟩
  ((((({} : ScopeTree).replace
    (cls { name := "Hen", parent? := some "Egg", fields := [field "age" .int] })).replace
    (cls { name := "Egg", parent? := some "Hen", fields := [field "age" .float],
           methods := [hatch] })).replace
    (cls { name := "Phoenix", parent? := some "Phoenix" })).replace
    (cls { name := "Chimera", parent? := some "Gone" })).replace
    (cls { name := "Hatchling", parent? := some "Hen" })

/-- The line of the hatchling goes round in a circle above it. Its age is that of the hen, its method that
of the egg, and it derives from both. -/
theorem lineage_hatchling : circularClasses.ClassesNamed ∧
    (circularClasses.classChain "Hatchling").map ClassInfo.name = ["Hatchling", "Hen", "Egg"] ∧
    circularClasses.Lineage "Hatchling" (circularClasses.classChain "Hatchling") ∧
    circularClasses.Nearest "Hatchling" (·.field? "age") ⟨"age", .int, false⟩ ∧
    circularClasses.Nearest "Hatchling" (·.method? "hatch")
      ⟨"hatch", ⟨[], .class_ "Hen", false⟩, true⟩ ∧
    (∃ n above, circularClasses.ancestor? "Hatchling" n = some above ∧ above.name = "Egg") ∧
    circularClasses.Lineage "Phoenix" (circularClasses.classChain "Phoenix") ∧
    (circularClasses.classChain "Phoenix").map ClassInfo.name = ["Phoenix"] ∧
    (circularClasses.classChain "Chimera").map ClassInfo.name = ["Chimera"] := by
  have hnamed : circularClasses.ClassesNamed := by
    have htop : ({} : ScopeTree).AtTop := ⟨rfl, rfl⟩
    refine .replace (.replace (.replace (.replace (.replace .default htop ?_) (htop.replace _) ?_)
      ((htop.replace _).replace _) ?_) (((htop.replace _).replace _).replace _) ?_)
      ((((htop.replace _).replace _).replace _).replace _) ?_
    all_goals
      rintro _ ⟨⟩
      rfl
  obtain ⟨hline, hfield, hmethod, hsubclass⟩ := lineage_and_members circularClasses hnamed "Hatchling"
  exact ⟨hnamed, by decide, hline, (hfield "age" _).1 (by rfl), (hmethod "hatch" _).1 (by rfl),
    (hsubclass "Egg").1 (by decide), (lineage_and_members circularClasses hnamed "Phoenix").1,
    by decide, by decide⟩

end ScopeTree

end ClassLang
