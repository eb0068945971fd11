import ClassLang.Gen.Cursor
import ClassLang.Proofs.Draft.Basic
import ClassLang.Proofs.Refinement.Machine
import ClassLang.Proofs.Refinement.Source
import Mathlib.Data.List.Forall2

/-!
# Stores and memory

A store of the source agrees with memory if the scopes have the same locals and each local has a slot
of its own that holds its value. Declaring a local gives it a slot that none has, and assigning to one
changes what its slot holds; both keep the agreement.
-/

namespace ClassLang

/-- The word for a value. -/
def Val.word : Val → Ir.Word
  | int n => .i32 n
  | bool b => .i1 b

@[simp] theorem Val.ty_word (v : Val) : v.word.ty = v.kind.ir := by
  cases v <;> rfl

abbrev Memory := Nat → Option Ir.Word

/-- A local of the source is stored at a location, which is one of the slots. -/
structure Holds (slots : List Ir.Register) (mem : Memory) (v : Val) (l : Location) : Prop where
  slot : ∃ n, l.ptr = .reg ⟨n, .ptr⟩ ∧ ⟨n, .ptr⟩ ∈ slots ∧ mem n = some v.word
  ir : l.ir = v.kind.ir
  ty : l.ty.isString = false

/-- A scope has the same locals in the store and at the cursor, and each of them is stored. -/
structure Frames (slots : List Ir.Register) (mem : Memory) (t : Table Val) (s : Table Location) :
    Prop where
  find : ∀ name v, t.find? name = some v → ∃ l, s.find? name = some l ∧ Holds slots mem v l
  of_find : ∀ name l, s.find? name = some l → ∃ v, t.find? name = some v ∧ Holds slots mem v l

/-- No two locals of a scope share a slot. -/
def Table.Distinct (s : Table Location) : Prop :=
  ∀ x y l l', s.find? x = some l → s.find? y = some l' → l.ptr = l'.ptr → x = y

/-- The locals of all scopes are stored, each in a slot of its own. -/
structure Agrees (slots : List Ir.Register) (mem : Memory) (ρ : Store)
    (scopes : List (Table Location)) : Prop where
  frames : List.Forall₂ (Frames slots mem) ρ scopes
  apart : scopes.Pairwise Table.Apart
  distinct : ∀ s ∈ scopes, s.Distinct

/-- A scope stays so when a local gets a slot of its own. -/
theorem Table.distinct_insert {s : Table Location} (h : s.Distinct) {l : Location} {name : String}
    (hnew : ∀ x l', s.find? x = some l' → l'.ptr ≠ l.ptr) : (s.insert name l).Distinct := by
  intro x y l₁ l₂ hl₁ hl₂ hptr
  rw [Table.find?_insert] at hl₁ hl₂
  split at hl₁ <;> split at hl₂
  next hx hy => rw [eq_of_beq hx, eq_of_beq hy]
  next =>
    cases hl₁
    exact absurd hptr.symm (hnew y l₂ hl₂)
  next =>
    cases hl₂
    exact absurd hptr (hnew x l₁ hl₁)
  next => exact h x y l₁ l₂ hl₁ hl₂ hptr

variable {slots slots' : List Ir.Register} {mem mem' : Memory} {ρ ρ' : Store}
  {scopes : List (Table Location)} {t : Table Val} {s : Table Location} {v : Val} {l : Location}
  {name : String}

/-! ## One scope -/

/-- The slot of a local does not change if no other one does. -/
theorem Holds.mono (h : Holds slots mem v l) (hslots : ∀ r ∈ slots, r ∈ slots')
    (hmem : ∀ n, l.ptr = .reg ⟨n, .ptr⟩ → ⟨n, .ptr⟩ ∈ slots → mem' n = mem n) :
    Holds slots' mem' v l := by
  obtain ⟨n, hptr, hn, hword⟩ := h.slot
  exact ⟨⟨n, hptr, hslots _ hn, by rw [hmem n hptr hn, hword]⟩, h.ir, h.ty⟩

/-- A location is a slot. -/
theorem Holds.located (h : Holds slots mem v l) :
    ∃ n, l.ptr = .reg ⟨n, .ptr⟩ ∧ ⟨n, .ptr⟩ ∈ slots := by
  obtain ⟨n, hptr, hn, _⟩ := h.slot
  exact ⟨n, hptr, hn⟩

namespace Frames

theorem mono (h : Frames slots mem t s) (hslots : ∀ r ∈ slots, r ∈ slots')
    (hmem : ∀ name l n, s.find? name = some l → l.ptr = .reg ⟨n, .ptr⟩ → ⟨n, .ptr⟩ ∈ slots →
      mem' n = mem n) : Frames slots' mem' t s := by
  constructor
  · intro name v hv
    obtain ⟨l, hl, hholds⟩ := h.find name v hv
    exact ⟨l, hl, hholds.mono hslots fun n => hmem name l n hl⟩
  · intro name l hl
    obtain ⟨v, hv, hholds⟩ := h.of_find name l hl
    exact ⟨v, hv, hholds.mono hslots fun n => hmem name l n hl⟩

theorem find_none (h : Frames slots mem t s) (ht : t.find? name = none) : s.find? name = none := by
  cases hl : s.find? name with
  | none => rfl
  | some l =>
    obtain ⟨v, hv, _⟩ := h.of_find name l hl
    rw [ht] at hv
    cases hv

/-- A name gets a value and a location that holds it. -/
theorem insert (h : Frames slots mem t s) (hv : Holds slots' mem' v l) {s' : Table Location}
    (hs' : ∀ x, s'.find? x = if x == name then some l else s.find? x)
    (hslots : ∀ r ∈ slots, r ∈ slots')
    (hmem : ∀ x l' n, x ≠ name → s.find? x = some l' → l'.ptr = .reg ⟨n, .ptr⟩ →
      ⟨n, .ptr⟩ ∈ slots → mem' n = mem n) :
    Frames slots' mem' (t.insert name v) s' := by
  constructor
  · intro x v' hv'
    rw [Table.find?_insert] at hv'
    rw [hs']
    split at hv'
    next hx =>
      cases hv'
      exact ⟨l, by rw [if_pos hx], hv⟩
    next hx =>
      obtain ⟨l', hl', hholds⟩ := h.find x v' hv'
      refine ⟨l', by rw [if_neg hx, hl'], hholds.mono hslots fun n => hmem x l' n ?_ hl'⟩
      simpa using hx
  · intro x l' hl'
    rw [hs'] at hl'
    rw [Table.find?_insert]
    split at hl'
    next hx =>
      cases hl'
      exact ⟨v, by rw [if_pos hx], hv⟩
    next hx =>
      obtain ⟨v', hv', hholds⟩ := h.of_find x l' hl'
      refine ⟨v', by rw [if_neg hx, hv'], hholds.mono hslots fun n => hmem x l' n ?_ hl'⟩
      simpa using hx

theorem all_mono (h : List.Forall₂ (Frames slots mem) ρ scopes) (hslots : ∀ r ∈ slots, r ∈ slots')
    (hmem : ∀ s ∈ scopes, ∀ name l n, s.find? name = some l → l.ptr = .reg ⟨n, .ptr⟩ →
      ⟨n, .ptr⟩ ∈ slots → mem' n = mem n) : List.Forall₂ (Frames slots' mem') ρ scopes := by
  induction h with
  | nil => exact .nil
  | cons hf _ ih =>
    refine .cons (hf.mono hslots (hmem _ List.mem_cons_self)) (ih fun s hs => ?_)
    exact hmem s (List.mem_cons_of_mem _ hs)

end Frames

/-! ## All scopes -/

namespace Agrees

theorem mono (h : Agrees slots mem ρ scopes) (hslots : ∀ r ∈ slots, r ∈ slots') :
    Agrees slots' mem ρ scopes :=
  ⟨Frames.all_mono h.frames hslots fun _ _ _ _ _ _ _ _ => rfl, h.apart, h.distinct⟩

/-- Only the slots matter. -/
theorem of_mem_eq (h : Agrees slots mem ρ scopes) (hmem : ∀ r ∈ slots, mem' r.id = mem r.id) :
    Agrees slots mem' ρ scopes :=
  ⟨Frames.all_mono h.frames (fun _ hr => hr) fun _ _ _ _ _ _ _ hn => hmem _ hn, h.apart,
    h.distinct⟩

theorem push (h : Agrees slots mem ρ scopes) : Agrees slots mem ({} :: ρ) ({} :: scopes) := by
  have hempty : Frames slots mem {} {} := ⟨fun _ _ h => (nomatch h), fun _ _ h => nomatch h⟩
  refine ⟨.cons hempty h.frames, List.pairwise_cons.2 ⟨?_, h.apart⟩, ?_⟩
  · exact fun _ _ _ _ _ _ hl => nomatch hl
  · intro s hs
    rcases List.mem_cons.1 hs with rfl | hs
    · exact fun _ _ _ _ hl => nomatch hl
    · exact h.distinct s hs

theorem pop (h : Agrees slots mem ρ scopes) : Agrees slots mem ρ.tail scopes.tail := by
  refine ⟨?_, h.apart.tail, fun s hs => h.distinct s (List.mem_of_mem_tail hs)⟩
  cases h.frames with
  | nil => exact .nil
  | cons _ hf => exact hf

/-- What is known at the cursor is in a slot. -/
theorem located (h : Agrees slots mem ρ scopes) (hs : s ∈ scopes) (hl : s.find? name = some l) :
    ∃ n, l.ptr = .reg ⟨n, .ptr⟩ ∧ ⟨n, .ptr⟩ ∈ slots := by
  obtain ⟨hframes, -, -⟩ := h
  induction hframes with
  | nil => cases hs
  | cons hf _ ih =>
    rcases List.mem_cons.1 hs with rfl | hs
    · obtain ⟨v, _, hholds⟩ := hf.of_find name l hl
      exact hholds.located
    · exact ih hs

/-- Scopes that were there before have slots from before. -/
theorem restrict (h : Agrees slots' mem ρ scopes) {mem₀ : Memory} {ρ₀ : Store}
    (h₀ : Agrees slots mem₀ ρ₀ scopes) : Agrees slots mem ρ scopes := by
  refine ⟨?_, h.apart, h.distinct⟩
  have hslot : ∀ s ∈ scopes, ∀ name v l, s.find? name = some l → Holds slots' mem v l →
      Holds slots mem v l := by
    intro s hs name v l hl hholds
    obtain ⟨n, hptr, hn⟩ := h₀.located hs hl
    obtain ⟨m, hptr', -, hword⟩ := hholds.slot
    obtain rfl : n = m := by simpa [hptr] using hptr'
    exact ⟨⟨n, hptr, hn, hword⟩, hholds.ir, hholds.ty⟩
  obtain ⟨hframes, -, -⟩ := h
  clear h₀
  induction hframes with
  | nil => exact .nil
  | @cons t s ρ scopes hf _ ih =>
    have hslot' := hslot s List.mem_cons_self
    refine .cons ⟨fun name v hv => ?_, fun name l hl => ?_⟩
      (ih fun s hs => hslot s (List.mem_cons_of_mem _ hs))
    · obtain ⟨l, hl, hholds⟩ := hf.find name v hv
      exact ⟨l, hl, hslot' name v l hl hholds⟩
    · obtain ⟨v, hv, hholds⟩ := hf.of_find name l hl
      exact ⟨v, hv, hslot' name v l hl hholds⟩

/-- A local has a slot with its value in it. -/
theorem find (h : Agrees slots mem ρ scopes) (hv : ρ.find? name = some v) :
    ∃ l, scopes.findSome? (·.find? name) = some l ∧ Holds slots mem v l := by
  obtain ⟨hframes, -, -⟩ := h
  induction hframes with
  | nil => cases hv
  | @cons t s ρ scopes hf _ ih =>
    rw [Store.find?, List.findSome?_cons] at hv
    rw [List.findSome?_cons]
    cases ht : t.find? name with
    | some v' =>
      rw [ht] at hv
      cases hv
      obtain ⟨l, hl, hholds⟩ := hf.find name v ht
      exact ⟨l, by rw [hl], hholds⟩
    | none =>
      rw [ht] at hv
      rw [hf.find_none ht]
      exact ih hv

/-- A new local gets a slot that was not there before. -/
theorem declare (h : Agrees slots mem ρ scopes) {n : Nat} (hn : ∀ r ∈ slots, r.id ≠ n)
    (hslots : ∀ r ∈ slots, r ∈ slots') (hslot : ⟨n, .ptr⟩ ∈ slots')
    (hptr : l.ptr = .reg ⟨n, .ptr⟩) (hir : l.ir = v.kind.ir) (hty : l.ty.isString = false)
    (hword : mem' n = some v.word) (hmem : ∀ m, m ≠ n → mem' m = mem m) :
    Agrees slots' mem' (ρ.declare name v)
      (match scopes with
        | [] => []
        | scope :: outer => scope.insert name l :: outer) := by
  have hold : ∀ m, (⟨m, .ptr⟩ : Ir.Register) ∈ slots → mem' m = mem m :=
    fun m hm => hmem m (hn _ hm)
  have hnew : ∀ s ∈ scopes, ∀ x l', s.find? x = some l' → l'.ptr ≠ l.ptr := by
    intro s hs x l' hl' heq
    obtain ⟨m, hm, hmem⟩ := h.located hs hl'
    rw [hm, hptr] at heq
    cases heq
    exact hn _ hmem rfl
  obtain ⟨hframes, hapart, hdistinct⟩ := h
  cases hframes with
  | nil => exact ⟨.nil, .nil, fun _ hs => nomatch hs⟩
  | @cons t s ρ scopes hf hfs =>
    obtain ⟨hs, hrest⟩ := List.pairwise_cons.1 hapart
    refine ⟨.cons ?_ ?_, List.pairwise_cons.2 ⟨?_, hrest⟩, ?_⟩
    · exact hf.insert ⟨⟨n, hptr, hslot, hword⟩, hir, hty⟩ (fun x => s.find?_insert name x l) hslots
        fun _ _ m _ _ _ => hold m
    · exact Frames.all_mono hfs hslots fun _ _ _ _ m _ _ => hold m
    · intro s' hs' x y l₁ l₂ hl₁ hl₂
      rw [Table.find?_insert] at hl₁
      split at hl₁
      · cases hl₁
        exact (hnew s' (List.mem_cons_of_mem _ hs') y l₂ hl₂).symm
      · exact hs s' hs' x y l₁ l₂ hl₁ hl₂
    · intro s' hs'
      rcases List.mem_cons.1 hs' with rfl | hs'
      · exact Table.distinct_insert (hdistinct s List.mem_cons_self) (hnew s List.mem_cons_self)
      · exact hdistinct s' (List.mem_cons_of_mem _ hs')

/-- Assigning to a local changes what its slot holds. -/
theorem assign (h : Agrees slots mem ρ scopes) (hρ : ρ.assign name v = some ρ') :
    ∃ l n, scopes.findSome? (·.find? name) = some l ∧ l.ptr = .reg ⟨n, .ptr⟩ ∧
      ⟨n, .ptr⟩ ∈ slots ∧ l.ir = v.kind.ir ∧
      Agrees slots (Function.update mem n (some v.word)) ρ' scopes := by
  obtain ⟨hframes, hapart, hdistinct⟩ := h
  induction hframes generalizing ρ' with
  | nil => cases hρ
  | @cons t s ρ scopes hf hfs ih =>
    obtain ⟨hs, hrest⟩ := List.pairwise_cons.1 hapart
    have hdistinct' : ∀ s ∈ scopes, s.Distinct := fun s hs => hdistinct s (List.mem_cons_of_mem _ hs)
    rw [Store.assign] at hρ
    cases ht : t.find? name with
    | some old =>
      rw [ht] at hρ
      obtain ⟨l, hl, hholds⟩ := hf.find name old ht
      obtain ⟨n, hptr, hn, _⟩ := hholds.slot
      obtain ⟨hkind, rfl⟩ : old.kind = v.kind ∧ t.insert name v :: ρ = ρ' := by simpa using hρ
      have hir : l.ir = v.kind.ir := by rw [hholds.ir, hkind]
      refine ⟨l, n, by rw [List.findSome?_cons, hl], hptr, hn, hir, .cons ?_ ?_, hapart, hdistinct⟩
      · have hnew : Holds slots (Function.update mem n (some v.word)) v l :=
          ⟨⟨n, hptr, hn, Function.update_self ..⟩, hir, hholds.ty⟩
        refine hf.insert hnew (fun x => ?_) (fun _ hr => hr)
          fun x l' m hne hx hm _ => Function.update_of_ne (fun heq => hne ?_) _ _
        · split
          next hx => rw [eq_of_beq hx, hl]
          next => rfl
        · subst heq
          exact hdistinct s List.mem_cons_self x name l' l hx hl (hm.trans hptr.symm)
      · refine Frames.all_mono hfs (fun _ hr => hr)
          fun s' hs' x l' m hx hm _ => Function.update_of_ne ?_ _ _
        rintro rfl
        exact hs s' hs' name x l l' hl hx (hptr.trans hm.symm)
    | none =>
      rw [ht] at hρ
      obtain ⟨ρ₁, hρ₁, rfl⟩ := Option.map_eq_some_iff.1 hρ
      obtain ⟨l, n, hl, hptr, hn, hir, hagrees⟩ := ih hρ₁ hrest hdistinct'
      refine ⟨l, n, ?_, hptr, hn, hir, .cons ?_ hagrees.frames, hapart, hdistinct⟩
      · rw [List.findSome?_cons, hf.find_none ht]
        exact hl
      · obtain ⟨s', hs', hl'⟩ := List.exists_of_findSome?_eq_some hl
        refine hf.mono (fun _ hr => hr) fun x l' m hx hm _ => Function.update_of_ne ?_ _ _
        rintro rfl
        exact hs s' hs' x name l' l hx hl' (hm.trans hptr.symm)

end Agrees

end ClassLang
