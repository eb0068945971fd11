import ClassLang.Proofs.Analysis.Reading
import ClassLang.Proofs.Comparison.Chain
import Mathlib.Logic.Relation

/-!
# Ancestors of a class

Where every class carries the name that it is found by, the chain of a class is made of all classes
that are reached from it over parents (`mem_classChain_iff`). A chain ends early at a class that is on
it already, but then everything further up is on it, too. So the chain of an ancestor is part of the
chain of the class, however the classes extend each other.
-/

namespace ClassLang

namespace ScopeTree

variable {t : ScopeTree} {fuel : Nat} {seen : List String} {info? : Option ClassInfo}
  {first info above : ClassInfo}

/-- Every class carries the name that it is found by. -/
def ClassesNamed (t : ScopeTree) : Prop :=
  ∀ name info, t.classInfo? name = some info → info.name = name

theorem ClassesNamed.default : ({} : ScopeTree).ClassesNamed := nofun

theorem ClassesNamed.replace {s : Symbol} (h : t.ClassesNamed) (htop : t.AtTop)
    (hs : ∀ info ∈ s.classInfo?, info.name = s.name) : (t.replace s).ClassesNamed := by
  intro name info hinfo
  rw [classInfo?, htop.global?_replace] at hinfo
  split at hinfo
  next hname => exact (hs info hinfo).trans (eq_of_beq hname).symm
  next => exact h name info hinfo

/-- A class names another one as its parent. -/
def Extends (t : ScopeTree) (info above : ClassInfo) : Prop :=
  info.parent?.bind t.classInfo? = some above

/-! ## What is on a chain -/

theorem reaches_of_mem_chainFrom (h : info ∈ t.chainFrom fuel seen info?) :
    ∃ first ∈ info?, Relation.ReflTransGen t.Extends first info := by
  induction fuel generalizing seen info? with
  | zero => cases h
  | succ fuel ih =>
    cases info? with
    | none => cases h
    | some first =>
      rw [chainFrom] at h
      split at h
      · cases h
      obtain rfl | h := List.mem_cons.1 h
      · exact ⟨info, rfl, .refl⟩
      · obtain ⟨parent, hparent, hreaches⟩ := ih h
        exact ⟨first, rfl, .head hparent hreaches⟩

theorem mem_chainFrom_self (hfuel : 0 < fuel) :
    first ∈ t.chainFrom fuel seen (some first) ∨ first.name ∈ seen := by
  obtain ⟨fuel, rfl⟩ := Nat.exists_eq_add_of_lt hfuel
  rw [Nat.zero_add, chainFrom]
  split
  next hseen => exact .inr (by simpa using hseen)
  next => exact .inl List.mem_cons_self

/-- With a class its parent is on a chain, unless the chain started with the parent seen. -/
theorem parent_mem_chainFrom (hnamed : t.ClassesNamed)
    (hinfo : ∀ first ∈ info?, ∃ n, t.classInfo? n = some first)
    (hlength : (t.chainFrom fuel seen info?).length < fuel)
    (h : info ∈ t.chainFrom fuel seen info?) (hextends : t.Extends info above) :
    above ∈ t.chainFrom fuel seen info? ∨ above.name ∈ seen := by
  induction fuel generalizing seen info? with
  | zero => cases h
  | succ fuel ih =>
    cases info? with
    | none => cases h
    | some first =>
      rw [chainFrom] at h hlength ⊢
      split at h
      · cases h
      next hnew =>
        rw [if_neg hnew, List.length_cons, Nat.succ_lt_succ_iff] at hlength
        rw [if_neg hnew]
        generalize hparent : first.parent?.bind t.classInfo? = parent? at h hlength ⊢
        have habove : above ∈ t.chainFrom fuel (first.name :: seen) parent? ∨
            above.name ∈ first.name :: seen := by
          obtain rfl | h := List.mem_cons.1 h
          · obtain rfl : some above = parent? := hextends.symm.trans hparent
            exact mem_chainFrom_self (Nat.zero_lt_of_lt hlength)
          · refine ih (fun next hnext => ?_) hlength h
            obtain ⟨n, -, hn⟩ := Option.bind_eq_some_iff.1 (hparent.trans hnext)
            exact ⟨n, hn⟩
        rcases habove with habove | habove
        · exact .inl (List.mem_cons_of_mem first habove)
        rcases List.mem_cons.1 habove with hname | hseen
        · -- classes of one name are one class
          obtain ⟨n, hn⟩ := hinfo first rfl
          obtain ⟨m, -, hm⟩ := Option.bind_eq_some_iff.1 hextends
          rw [← hnamed m above hm, hname, hnamed n first hn, hn] at hm
          exact .inl (Option.some.inj hm ▸ List.mem_cons_self)
        · exact .inr hseen

/-- The chain of a class is the class with all its ancestors. -/
theorem mem_classChain_iff (hnamed : t.ClassesNamed) (c : String) : above ∈ t.classChain c ↔
    ∃ info, t.classInfo? c = some info ∧ Relation.ReflTransGen t.Extends info above := by
  refine ⟨reaches_of_mem_chainFrom, ?_⟩
  rintro ⟨info, hinfo, hreaches⟩
  have hclass : ∀ first ∈ t.classInfo? c, ∃ n, t.classInfo? n = some first := fun _ h => ⟨c, h⟩
  have hlength : (t.classChain c).length < t.globalCount + 1 :=
    Nat.lt_succ_of_le (length_chainFrom_le _ hclass)
  induction hreaches with
  | refl =>
    rw [classChain, hinfo]
    exact (mem_chainFrom_self (Nat.succ_pos _)).resolve_right List.not_mem_nil
  | tail _ hextends ih =>
    exact (parent_mem_chainFrom hnamed hclass hlength ih hextends).resolve_right List.not_mem_nil

/-! ## Subclasses -/

theorem classChain_subset {c d : String} (hnamed : t.ClassesNamed) (h : t.isSubclass c d = true) :
    t.classChain d ⊆ t.classChain c := by
  intro above habove
  obtain ⟨info, hmem, hname⟩ := List.any_eq_true.1 h
  obtain ⟨start, hstart, hreaches⟩ := (mem_classChain_iff hnamed c).1 hmem
  obtain ⟨info', hinfo', hreaches'⟩ := (mem_classChain_iff hnamed d).1 habove
  obtain ⟨n, hn⟩ := classInfo?_of_mem_classChain hmem
  rw [← hnamed n info hn, eq_of_beq hname, hinfo'] at hn
  cases hn
  exact (mem_classChain_iff hnamed c).2 ⟨start, hstart, hreaches.trans hreaches'⟩

theorem isSubclass_trans {c d e : String} (hnamed : t.ClassesNamed) (hcd : t.isSubclass c d = true)
    (hde : t.isSubclass d e = true) : t.isSubclass c e = true := by
  obtain ⟨info, hmem, hname⟩ := List.any_eq_true.1 hde
  exact List.any_eq_true.2 ⟨info, classChain_subset hnamed hcd hmem, hname⟩

theorem implements_of_isSubclass {c d i : String} (hnamed : t.ClassesNamed)
    (hcd : t.isSubclass c d = true) (hdi : t.implements d i = true) : t.implements c i = true := by
  obtain ⟨info, hmem, hlists⟩ := List.any_eq_true.1 hdi
  exact List.any_eq_true.2 ⟨info, classChain_subset hnamed hcd hmem, hlists⟩

end ScopeTree

end ClassLang
