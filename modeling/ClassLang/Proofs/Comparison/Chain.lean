import ClassLang.Symbol
import Mathlib.Data.List.Perm.Subperm

/-!
# The chain of a class

A class and its ancestors are told apart by their names, and each is declared by a symbol of the global
scope. A chain is therefore never cut off for its length, and two scope trees that have the same
classes have the same chains, whatever else they have.
-/

namespace ClassLang

namespace ScopeTree

variable {t t' : ScopeTree} {fuel fuel' : Nat} {seen : List String} {info? : Option ClassInfo}

theorem chainFrom_congr (h : ∀ n, t'.classInfo? n = t.classInfo? n) (fuel : Nat)
    (seen : List String) (info? : Option ClassInfo) :
    t'.chainFrom fuel seen info? = t.chainFrom fuel seen info? := by
  induction fuel generalizing seen info? with
  | zero => rfl
  | succ fuel ih =>
    cases info? with
    | none => rfl
    | some info => simp only [chainFrom, ih, funext h]

/-- Every class on a chain is one of the scope tree. -/
theorem classInfo?_of_mem_chainFrom (hinfo : ∀ info ∈ info?, ∃ n, t.classInfo? n = some info)
    {info : ClassInfo} (h : info ∈ t.chainFrom fuel seen info?) : ∃ n, t.classInfo? n = some info := by
  induction fuel generalizing seen info? with
  | zero => cases h
  | succ fuel ih =>
    cases info? with
    | none => cases h
    | some first =>
      rw [chainFrom] at h
      split at h
      · cases h
      obtain rfl | h := List.mem_cons.1 h
      · exact hinfo info rfl
      · refine ih (fun info hnext => ?_) h
        obtain ⟨n, -, hn⟩ := Option.bind_eq_some_iff.1 hnext
        exact ⟨n, hn⟩

theorem classInfo?_of_mem_classChain {n : String} {info : ClassInfo} (h : info ∈ t.classChain n) :
    ∃ m, t.classInfo? m = some info :=
  classInfo?_of_mem_chainFrom (fun _ hinfo => ⟨n, hinfo⟩) h

theorem nodup_chainFrom (t : ScopeTree) (fuel : Nat) (info? : Option ClassInfo) (hseen : seen.Nodup) :
    ((t.chainFrom fuel seen info?).map ClassInfo.name ++ seen).Nodup := by
  induction fuel generalizing seen info? with
  | zero => exact hseen
  | succ fuel ih =>
    cases info? with
    | none => exact hseen
    | some info =>
      rw [chainFrom]
      split
      · exact hseen
      next hnew =>
        have hseen' : (info.name :: seen).Nodup := List.nodup_cons.2 ⟨by simpa using hnew, hseen⟩
        exact (List.perm_middle.nodup_iff).1 (ih _ hseen')

/-- The classes of a chain are told apart by their names, and each is that of a global symbol. -/
theorem length_chainFrom_le (fuel : Nat)
    (hinfo : ∀ info ∈ info?, ∃ n, t.classInfo? n = some info) :
    (t.chainFrom fuel [] info?).length ≤ t.globalCount := by
  let classes := ((t.get? 0).map fun s => s.symbols.values.filterMap Symbol.classInfo?).getD []
  have hlength : classes.length ≤ t.globalCount := by
    simp only [classes, globalCount]
    cases t.get? 0 with
    | none => exact Nat.le_refl 0
    | some s =>
      refine Nat.le_trans (List.length_filterMap_le _ _) ?_
      rw [Table.values, List.length_map]
      exact Nat.le_refl _
  have hsubset : (t.chainFrom fuel [] info?).map ClassInfo.name ⊆ classes.map ClassInfo.name := by
    intro name hname
    obtain ⟨info, hmem, rfl⟩ := List.mem_map.1 hname
    obtain ⟨n, hn⟩ := classInfo?_of_mem_chainFrom hinfo hmem
    obtain ⟨d, hd, hclass⟩ := Option.bind_eq_some_iff.1 hn
    obtain ⟨s, hs, hfind⟩ := Option.bind_eq_some_iff.1 hd
    refine List.mem_map_of_mem ?_
    simp only [classes, hs, Option.map_some, Option.getD_some]
    exact List.mem_filterMap.2 ⟨d, Table.mem_values_of_find? hfind, hclass⟩
  have hnodup := nodup_chainFrom t fuel info? List.nodup_nil
  rw [List.append_nil] at hnodup
  have := (List.subperm_of_subset hnodup hsubset).length_le
  rw [List.length_map, List.length_map] at this
  exact Nat.le_trans this hlength

/-- A chain that does not end for want of fuel does not change with more of it. -/
theorem chainFrom_eq_of_length_lt (h : (t.chainFrom fuel seen info?).length < fuel)
    (hle : fuel ≤ fuel') : t.chainFrom fuel' seen info? = t.chainFrom fuel seen info? := by
  induction fuel generalizing fuel' seen info? with
  | zero => cases h
  | succ fuel ih =>
    obtain ⟨fuel', rfl⟩ := Nat.exists_eq_add_of_lt hle
    cases info? with
    | none => simp only [chainFrom]
    | some info =>
      simp only [chainFrom] at h ⊢
      split
      · rfl
      next hnew =>
        rw [if_neg hnew, List.length_cons, Nat.succ_lt_succ_iff] at h
        rw [ih h (by omega)]

/-- The chain of a class depends on the members of classes only, not on what else is global. -/
theorem classChain_congr (h : ∀ n, t'.classInfo? n = t.classInfo? n) (n : String) :
    t'.classChain n = t.classChain n := by
  have hmore : ∀ (t : ScopeTree) (k : Nat),
      t.classChain n = t.chainFrom (t.globalCount + 1 + k) [] (t.classInfo? n) := by
    intro t k
    have hclass : ∀ info ∈ t.classInfo? n, ∃ m, t.classInfo? m = some info :=
      fun _ hinfo => ⟨n, hinfo⟩
    have hlength := length_chainFrom_le (t.globalCount + 1) hclass
    exact (chainFrom_eq_of_length_lt (Nat.lt_succ_of_le hlength) (Nat.le_add_right _ k)).symm
  rw [hmore t t'.globalCount, hmore t' t.globalCount, chainFrom_congr h, h,
    Nat.add_right_comm t'.globalCount, Nat.add_right_comm t.globalCount,
    Nat.add_comm t'.globalCount]

end ScopeTree

end ClassLang
