import ClassLang.Gen.Body
import Mathlib

/-!
# Conversions of constants

A constant is converted at once, and its number stays what it is; the same conversion of a register is
one instruction, which looks at the bits only. The two come to the same as long as the number of the
constant fits its type, because it can be read back from the bits then. What a constant that fits is
converted to fits too, unless the target is narrower. Then the bits are still right, but a constant that
does not fit any more shows it when it is widened again.
-/

namespace ClassLang

namespace Ir

/-! ## Bits of integers -/

/-- What a register of an integer type holds. -/
structure Bits where
  width : Nat
  bits : BitVec width
deriving DecidableEq, Repr, Inhabited

namespace Ty

/-- The bits of a number in an integer type. -/
def bitsOf (t : Ty) (n : Int) : Bits := ⟨t.bits, .ofInt t.bits n⟩

/-- The number that the bits of a number are read as. Only truth values have no sign. -/
def readBack (t : Ty) (n : Int) : Int := if t = i1 then n % 2 else n.bmod (2 ^ t.bits)

/-- A number is one of those that the bits of a type are read as. -/
def Fits (t : Ty) (n : Int) : Prop :=
  if t = i1 then 0 ≤ n ∧ n < 2 else -(2 ^ (t.bits - 1)) ≤ n ∧ n < 2 ^ (t.bits - 1)

instance (t : Ty) (n : Int) : Decidable (t.Fits n) := by
  unfold Fits
  exact inferInstance

theorem bitsOf_eq_iff {t : Ty} {a b : Int} :
    t.bitsOf a = t.bitsOf b ↔ a % 2 ^ t.bits = b % 2 ^ t.bits := by
  have hpos : (0 : Int) < 2 ^ t.bits := by positivity
  constructor
  · intro h
    have hbits : BitVec.ofInt t.bits a = BitVec.ofInt t.bits b := by simpa [bitsOf] using h
    have hnat := congrArg (fun x : BitVec t.bits => (x.toNat : Int)) hbits
    simpa [BitVec.toNat_ofInt, Int.toNat_of_nonneg (Int.emod_nonneg _ hpos.ne')] using hnat
  · intro h
    have hbits : BitVec.ofInt t.bits a = BitVec.ofInt t.bits b := by
      apply BitVec.eq_of_toNat_eq
      simp [BitVec.toNat_ofInt, h]
    rw [bitsOf, bitsOf, hbits]

/-- What is read from the bits of a number has the same bits. -/
theorem bitsOf_readBack (t : Ty) (n : Int) : t.bitsOf (t.readBack n) = t.bitsOf n := by
  rw [bitsOf_eq_iff, readBack]
  split
  next h =>
    subst h
    exact Int.emod_emod_of_dvd n (dvd_refl _)
  next => exact_mod_cast Int.bmod_emod ..

theorem readBack_eq_iff {t : Ty} (ht : t.isInteger = true) (n : Int) :
    t.readBack n = n ↔ t.Fits n := by
  cases t with
  | void | float | double | ptr | struct => cases ht
  | i1 =>
    simp only [readBack, Fits, if_true]
    omega
  | i8 | i16 | i32 | i64 =>
    simp only [readBack, Fits, bits, reduceCtorEq, if_false, Int.bmod]
    omega

theorem fits_readBack {t : Ty} (ht : t.isInteger = true) (n : Int) : t.Fits (t.readBack n) := by
  cases t with
  | void | float | double | ptr | struct => cases ht
  | i1 =>
    simp only [readBack, Fits, if_true]
    omega
  | i8 | i16 | i32 | i64 =>
    simp only [readBack, Fits, bits, reduceCtorEq, if_false, Int.bmod]
    omega

/-- A number that fits is known from its bits. -/
theorem bitsOf_inj {t : Ty} (ht : t.isInteger = true) {a b : Int} (ha : t.Fits a) (hb : t.Fits b) :
    t.bitsOf a = t.bitsOf b ↔ a = b := by
  refine ⟨fun h => ?_, congrArg _⟩
  have hread : t.readBack a = t.readBack b := by
    have hmod := bitsOf_eq_iff.1 h
    simp only [readBack, Int.bmod, Nat.cast_pow, Nat.cast_ofNat, hmod]
    split
    next hone =>
      subst hone
      exact hmod
    next => rfl
  rwa [(readBack_eq_iff ht a).2 ha, (readBack_eq_iff ht b).2 hb] at hread

theorem bitsOf_eq_zero_iff {t : Ty} (ht : t.isInteger = true) (n : Int) :
    t.bitsOf n = t.bitsOf 0 ↔ t.readBack n = 0 := by
  rw [bitsOf_eq_iff, Int.zero_emod]
  cases t with
  | void | float | double | ptr | struct => cases ht
  | i1 => simp only [readBack, bits, if_true, pow_one]
  | i8 | i16 | i32 | i64 =>
    simp only [readBack, bits, reduceCtorEq, if_false, Int.bmod]
    omega

/-- A narrower register for the bits of a number. -/
theorem setWidth_bitsOf {s t : Ty} (h : t.bits ≤ s.bits) (n : Int) :
    ⟨t.bits, (s.bitsOf n).bits.setWidth t.bits⟩ = t.bitsOf n := by
  have hbits : (BitVec.ofInt s.bits n).setWidth t.bits = BitVec.ofInt t.bits n := by
    apply BitVec.eq_of_toNat_eq
    have hdvd : (2 : Int) ^ t.bits ∣ 2 ^ s.bits := pow_dvd_pow 2 h
    have hnonneg : 0 ≤ n % 2 ^ s.bits := Int.emod_nonneg _ (by positivity)
    simp only [BitVec.toNat_setWidth, BitVec.toNat_ofInt, Nat.cast_pow, Nat.cast_ofNat]
    zify [hnonneg]
    rw [Int.toNat_of_nonneg hnonneg, Int.toNat_of_nonneg (Int.emod_nonneg _ (by positivity)),
      Int.emod_emod_of_dvd n hdvd]
  rw [bitsOf, bitsOf, hbits]

/-- What fits a type fits each wider one. -/
theorem fits_mono {s t : Ty} (hs : s.isInteger = true) (ht : t.isInteger = true) {n : Int}
    (h : s.Fits n) (hbits : s.bits ≤ t.bits) : t.Fits n := by
  cases s with
  | void | float | double | ptr | struct => cases hs
  | i1 | i8 | i16 | i32 | i64 =>
    cases t with
    | void | float | double | ptr | struct => cases ht
    | i1 | i8 | i16 | i32 | i64 =>
      simp only [Fits, bits, reduceCtorEq, if_true, if_false] at h hbits ⊢
      omega

/-- No bits are lost on the way to a narrower type. -/
theorem bitsOf_readBack_of_le {s t : Ty} (h : t.bits ≤ s.bits) (n : Int) :
    t.bitsOf (s.readBack n) = t.bitsOf n := by
  rw [← setWidth_bitsOf h, bitsOf_readBack, setWidth_bitsOf h]

end Ty

namespace Value

/-- The number of an integer constant; truth values are zero and one. -/
def number? : Value → Option Int
  | int n t => if t.isInteger then some n else none
  | bool b => some (if b then 1 else 0)
  | _ => none

/-- The bits of a value, given those of the registers. -/
def bits? (regs : Nat → Bits) : Value → Option Bits
  | reg r => some (regs r.id)
  | int n t => some (t.bitsOf n)
  | bool b => some (Ty.i1.bitsOf (if b then 1 else 0))
  | _ => none

theorem isInteger_of_number? {v : Value} {n : Int} (h : v.number? = some n) :
    v.ty.isInteger = true := by
  cases v with
  | int m t =>
    rw [number?] at h
    split at h
    · assumption
    · cases h
  | bool b => rfl
  | reg | float | null | global | undefined => cases h

theorem bits?_of_number? {v : Value} {n : Int} (h : v.number? = some n) (regs : Nat → Bits) :
    v.bits? regs = some (v.ty.bitsOf n) := by
  cases v with
  | int m t =>
    rw [number?] at h
    split at h
    · cases h
      rfl
    · cases h
  | bool b =>
    cases h
    rfl
  | reg | float | null | global | undefined => cases h

end Value

/-- The result of a conversion between integer types. -/
def CastOp.apply (t : Ty) (x : Bits) : CastOp → Option Bits
  | truncate | zeroExtend => some ⟨t.bits, x.bits.setWidth t.bits⟩
  | signExtend => some ⟨t.bits, x.bits.signExtend t.bits⟩
  | _ => none

/-- What the registers hold after a conversion or a test. -/
def Instr.compute (regs : Nat → Bits) : Instr → Option (Nat → Bits)
  | cast d op v => do return Function.update regs d.id (← op.apply d.ty (← v.bits? regs))
  | compare d .ne l r => do
    let x ← l.bits? regs
    let y ← r.bits? regs
    return Function.update regs d.id (d.ty.bitsOf (if x = y then 0 else 1))
  | _ => none

end Ir

namespace Lower

open Ir

/-! ## At once and at run time -/

variable {v : Value} {n : Int} {s t : Ir.Ty}

/-- The number that a constant is converted to. -/
def folded (t : Ir.Ty) (n : Int) : Int := if t = .i1 then if n = 0 then 0 else 1 else n

/-- The number that is computed from a register with the bits of a number. -/
def computed (s t : Ir.Ty) (n : Int) : Int := folded t (s.readBack n)

theorem fits_folded_truth (n : Int) : Ir.Ty.i1.Fits (folded .i1 n) := by
  rw [folded, if_pos rfl]
  split <;> decide

theorem folded_truth_eq_iff {a b : Int} : folded .i1 a = folded .i1 b ↔ (a = 0 ↔ b = 0) := by
  simp only [folded, if_true]
  split <;> split <;> simp_all

theorem fits_folded (hs : s.isInteger = true) (ht : t.isInteger = true) (h : s.Fits n)
    (hbits : t = .i1 ∨ s.bits ≤ t.bits) : t.Fits (folded t n) := by
  by_cases hone : t = .i1
  · exact hone ▸ fits_folded_truth n
  · rw [folded, if_neg hone]
    exact Ir.Ty.fits_mono hs ht h (hbits.resolve_left hone)

/-- Converting a constant adds no code. -/
theorem convert_constant (h : v.number? = some n) (ht : t.isInteger = true) (hne : v.ty ≠ t) :
    ∃ c : Value, c.isConstant = true ∧ c.ty = t ∧ c.number? = some (folded t n) ∧
      ∀ k g, (convert v t : Lower Value).run k g = ((c, k), g) := by
  have hvoid : t.isVoid = false := by
    cases t <;> first | rfl | cases ht
  cases v with
  | reg | float | null | global | undefined => cases h
  | int m s =>
    obtain ⟨hs, rfl⟩ : s.isInteger = true ∧ m = n := by simpa [Value.number?] using h
    by_cases hone : t = .i1
    · subst hone
      refine ⟨.bool (m != 0), rfl, rfl, ?_, fun k g => ?_⟩
      · by_cases hm : m = 0 <;> simp [Value.number?, folded, hm]
      · have hs' : s ≠ .i1 := hne
        simp [convert, truth, constantTruth?, Value.ty, hs, hs', Ir.Ty.isVoid]
        rfl
    · refine ⟨.int m t, rfl, rfl, by simp [Value.number?, folded, ht, hone], fun k g => ?_⟩
      have hne' : s ≠ t := hne
      simp [convert, convertConstant?, Value.ty, hne', hvoid, hone, ht]
      rfl
  | bool b =>
    obtain rfl : (if b then 1 else 0) = n := by simpa [Value.number?] using h
    have hone : t ≠ .i1 := fun h => hne h.symm
    refine ⟨.int (if b then 1 else 0) t, rfl, rfl, by simp [Value.number?, folded, ht, hone],
      fun k g => ?_⟩
    have hone' : Ir.Ty.i1 ≠ t := hne
    simp [convert, convertConstant?, Value.ty, hone', hone, hvoid, ht]
    rfl

/-- The instruction that converts a register. -/
def conversion? (r d : Register) (t : Ir.Ty) : Option Instr :=
  if t = .i1 then some (.compare d .ne (.reg r) (.zero r.ty))
  else (castOp? r.ty t).map fun op => .cast d op (.reg r)

/-- Converting a register adds one instruction. -/
theorem convert_register {r : Register} (hr : r.ty.isInteger = true) (ht : t.isInteger = true)
    (hne : r.ty ≠ t) (k : Cursor) (g : GenState) :
    ∃ i, conversion? r ⟨k.nextRegister, t⟩ t = some i ∧
      (convert (.reg r) t : Lower Value).run k g =
        ((.reg ⟨k.nextRegister, t⟩, { k with nextRegister := k.nextRegister + 1 }.push i), g) := by
  have hvoid : t.isVoid = false := by
    cases t <;> first | rfl | cases ht
  by_cases hone : t = .i1
  · subst hone
    refine ⟨_, if_pos rfl, ?_⟩
    simp [convert, truth, constantTruth?, Value.ty, hr, hne, Ir.Ty.isVoid]
    rfl
  · obtain ⟨op, hop⟩ : ∃ op, castOp? r.ty t = some op := by
      rw [castOp?, hr, ht]
      simp only [Bool.and_self, if_true]
      split
      · exact ⟨_, rfl⟩
      · split <;> exact ⟨_, rfl⟩
    refine ⟨.cast ⟨k.nextRegister, t⟩ op (.reg r), by rw [conversion?, if_neg hone, hop]; rfl, ?_⟩
    simp [convert, convertConstant?, Value.ty, hr, hne, hvoid, hone, hop]
    rfl

/-- A conversion between integer types keeps what is read back from the bits. -/
theorem apply_castOp {op : CastOp} (hs : s.isInteger = true) (ht : t.isInteger = true)
    (hop : castOp? s t = some op) :
    op.apply t (s.bitsOf n) = some (t.bitsOf (s.readBack n)) := by
  rw [castOp?, hs, ht] at hop
  simp only [Bool.and_self, if_true] at hop
  split at hop
  next hbits =>
    cases hop
    rw [CastOp.apply, Ir.Ty.setWidth_bitsOf hbits.le, Ir.Ty.bitsOf_readBack_of_le hbits.le]
  next =>
    split at hop
    next hone =>
      cases hop
      subst hone
      rw [← Ir.Ty.bitsOf_readBack, Ir.Ty.readBack, if_pos rfl]
      rcases Int.emod_two_eq_zero_or_one n with h | h <;> rw [h] <;> cases t <;> rfl
    next hone =>
      cases hop
      have hread : (s.bitsOf n).bits.toInt = s.readBack n := by
        rw [Ir.Ty.readBack, if_neg hone]
        exact BitVec.toInt_ofInt n
      rw [CastOp.apply, BitVec.signExtend, hread]
      rfl

/-- The instruction computes from the bits of a number what is read back from them, converted. -/
theorem compute_conversion {r d : Register} {i : Instr} {regs : Nat → Bits}
    (hr : r.ty.isInteger = true) (ht : t.isInteger = true) (hne : r.ty ≠ t)
    (hi : conversion? r d t = some i) (hd : d.ty = t) (hregs : regs r.id = r.ty.bitsOf n) :
    i.compute regs = some (Function.update regs d.id (t.bitsOf (computed r.ty t n))) := by
  rw [conversion?] at hi
  split at hi
  next hone =>
    cases hi
    have hzero : (Value.zero r.ty).bits? regs = some (r.ty.bitsOf 0) := by
      revert hr hne
      cases r.ty <;> simp [Ir.Ty.isInteger, Value.zero, Value.bits?, hone]
    have hsame : r.ty.bitsOf n = r.ty.bitsOf 0 ↔ r.ty.readBack n = 0 :=
      Ir.Ty.bitsOf_eq_zero_iff hr n
    have hread : (Value.reg r).bits? regs = some (r.ty.bitsOf n) := congrArg some hregs
    simp only [Instr.compute, hread, hzero, Option.bind_eq_bind, Option.bind_some,
      Option.pure_def, hd, computed, folded, if_pos hone, hsame]
  next hone =>
    obtain ⟨op, hop, rfl⟩ := Option.map_eq_some_iff.1 hi
    have hread : (Value.reg r).bits? regs = some (r.ty.bitsOf n) := congrArg some hregs
    simp only [Instr.compute, hread, Option.bind_eq_bind, Option.bind_some, Option.pure_def, hd,
      apply_castOp hr ht hop, computed, folded, if_neg hone]

/-- What converting a register does to what the registers hold. -/
structure Converts (r : Register) (t : Ir.Ty) (k : Cursor) (g : GenState) (regs : Nat → Bits)
    (u : Value) (code : List Instr) (regs' : Nat → Bits) : Prop where
  run : ∃ k', (convert (.reg r) t : Lower Value).run k g = ((u, k'), g) ∧
    k'.current.instrs = k.current.instrs ++ code
  ty : u.ty = t
  code : code.foldlM Instr.compute regs = some regs'

theorem Converts.unique {r : Register} {k : Cursor} {g : GenState} {regs regs₁ regs₂ : Nat → Bits}
    {u₁ u₂ : Value} {code₁ code₂ : List Instr} (h₁ : Converts r t k g regs u₁ code₁ regs₁)
    (h₂ : Converts r t k g regs u₂ code₂ regs₂) : u₁ = u₂ ∧ regs₁ = regs₂ := by
  obtain ⟨k₁, hrun₁, hcode₁⟩ := h₁.run
  obtain ⟨k₂, hrun₂, hcode₂⟩ := h₂.run
  obtain ⟨⟨rfl, rfl⟩, -⟩ := by simpa using hrun₁.symm.trans hrun₂
  obtain rfl := List.append_cancel_left (hcode₁.symm.trans hcode₂)
  exact ⟨rfl, Option.some_inj.1 (h₁.code.symm.trans h₂.code)⟩

/-- The bits that are computed from a register with the bits of a number. -/
theorem converts_register {r : Register} (hr : r.ty.isInteger = true) (ht : t.isInteger = true)
    (hne : r.ty ≠ t) (k : Cursor) (g : GenState) {regs : Nat → Bits}
    (hregs : regs r.id = r.ty.bitsOf n) :
    ∃ u code regs', Converts r t k g regs u code regs' ∧
      u.bits? regs' = some (t.bitsOf (computed r.ty t n)) := by
  obtain ⟨i, hi, hrun⟩ := convert_register hr ht hne k g
  have hcompute := compute_conversion hr ht hne hi rfl hregs
  refine ⟨.reg ⟨k.nextRegister, t⟩, [i],
    Function.update regs k.nextRegister (t.bitsOf (computed r.ty t n)), ⟨⟨_, hrun, ?_⟩, rfl, ?_⟩, ?_⟩
  · simp [Cursor.push, Ir.Block.push]
  · simp [List.foldlM_cons, hcompute]
  · simp [Value.bits?]

/-- A constant is converted to one with the bits that its conversion in a register computes. -/
def ConvertsAlike (v : Value) (t : Ir.Ty) : Prop :=
  ∀ k g, ∃ c : Value, (convert v t : Lower Value).run k g = ((c, k), g) ∧ c.isConstant = true ∧ c.ty = t ∧
    ∀ (r : Register) (regs : Nat → Bits), r.ty = v.ty → v.bits? regs = some (regs r.id) →
      ∃ u code regs' x, Converts r t k g regs u code regs' ∧
        c.bits? regs' = some x ∧ u.bits? regs' = some x

theorem convertsAlike_self (h : v.number? = some n) : ConvertsAlike v v.ty := by
  have hconst : v.isConstant = true := by
    cases v with
    | int | bool => rfl
    | reg | float | null | global | undefined => cases h
  intro k g
  refine ⟨v, by simp [convert]; rfl, hconst, rfl, fun r regs hr hregs => ?_⟩
  refine ⟨.reg r, [], regs, regs r.id, ⟨⟨k, ?_, by simp⟩, hr, rfl⟩, hregs, rfl⟩
  have hsame : (Value.reg r).ty = v.ty := hr
  simp [convert, hsame]
  rfl

/-- What has to be checked about the number. -/
theorem convertsAlike_iff (h : v.number? = some n) (ht : t.isInteger = true) (hne : v.ty ≠ t) :
    ConvertsAlike v t ↔ t.bitsOf (folded t n) = t.bitsOf (computed v.ty t n) := by
  have hv := Value.isInteger_of_number? h
  obtain ⟨c, hc, hty, hnum, hrun⟩ := convert_constant h ht hne
  have hbits (regs : Nat → Bits) : c.bits? regs = some (t.bitsOf (folded t n)) :=
    hty ▸ Value.bits?_of_number? hnum regs
  constructor
  · intro hagrees
    -- Any register of the type will do, with the bits of the number in it.
    let r : Register := ⟨0, v.ty⟩
    let regs : Nat → Bits := fun _ => v.ty.bitsOf n
    obtain ⟨c', hrun', -, -, hregister⟩ := hagrees default default
    obtain rfl : c' = c := (Prod.mk.inj (Prod.mk.inj (hrun'.symm.trans (hrun _ _))).1).1
    obtain ⟨u, code, regs', x, hu, hx, hux⟩ :=
      hregister r regs rfl (Value.bits?_of_number? h regs)
    have hr : regs r.id = r.ty.bitsOf n := rfl
    obtain ⟨u', code', regs'', hu', hx'⟩ := converts_register hv ht hne default default hr
    obtain ⟨rfl, rfl⟩ := hu.unique hu'
    rw [hbits] at hx
    exact Option.some_inj.1 (hx.trans (hux.symm.trans hx'))
  · intro hsame k g
    refine ⟨c, hrun k g, hc, hty, fun r regs hr hregs => ?_⟩
    have hr' : regs r.id = r.ty.bitsOf n := by
      rw [Value.bits?_of_number? h, Option.some_inj] at hregs
      rw [hr, hregs]
    obtain ⟨u, code, regs', hu, hx⟩ := converts_register (hr ▸ hv) ht (hr ▸ hne) k g hr'
    exact ⟨u, code, regs', _, hu, hbits regs', by rw [hx, hr, hsame]⟩

/-- Conversions of an integer constant, at once and at run time. -/
structure Conversion (v : Value) (n : Int) (t : Ir.Ty) : Prop where
  /-- A number that fits its type is converted to the same. -/
  fits : v.ty.Fits n → ConvertsAlike v t
  /-- What it is converted to fits again, unless bits are lost. -/
  again : v.ty.Fits n → t = .i1 ∨ v.ty.bits ≤ t.bits →
    ∃ c m, (∀ k g, (convert v t : Lower Value).run k g = ((c, k), g)) ∧ c.ty = t ∧ c.number? = some m ∧ t.Fits m
  /-- Lower bits are right in any case. -/
  narrower : t ≠ .i1 → t.bits ≤ v.ty.bits → ConvertsAlike v t
  /-- Higher bits are right only if the number fitted. -/
  wider : v.ty.bits < t.bits → t.Fits n → (ConvertsAlike v t ↔ v.ty.Fits n)
  /-- The bits of a number that does not fit may all be zero, which the number is not. -/
  truth : t = .i1 → v.ty ≠ .i1 → (ConvertsAlike v t ↔ ((2 : Int) ^ v.ty.bits ∣ n → n = 0))

theorem conversion_of_number (h : v.number? = some n) (ht : t.isInteger = true) :
    Conversion v n t := by
  have hv := Value.isInteger_of_number? h
  have hself (heq : v.ty = t) : ConvertsAlike v t := heq ▸ convertsAlike_self h
  refine ⟨fun hfits => ?_, fun hfits hbits => ?_, fun hone hbits => ?_, fun hbits hfits => ?_,
    fun hone hv1 => ?_⟩
  · by_cases heq : v.ty = t
    · exact hself heq
    · rw [convertsAlike_iff h ht heq, computed, (Ir.Ty.readBack_eq_iff hv n).2 hfits]
  · by_cases heq : v.ty = t
    · exact ⟨v, n, fun k g => by simp [convert, heq]; rfl, heq, h, heq ▸ hfits⟩
    · obtain ⟨c, -, hty, hnum, hrun⟩ := convert_constant h ht heq
      exact ⟨c, _, hrun, hty, hnum, fits_folded hv ht hfits hbits⟩
  · by_cases heq : v.ty = t
    · exact hself heq
    · rw [convertsAlike_iff h ht heq, computed, folded, folded, if_neg hone, if_neg hone,
        Ir.Ty.bitsOf_readBack_of_le hbits]
  · have hne : v.ty ≠ t := fun heq => by simp [heq] at hbits
    have hone : t ≠ .i1 := by
      rintro rfl
      revert hbits hv
      cases v.ty <;> simp [Ir.Ty.bits, Ir.Ty.isInteger]
    have hread := Ir.Ty.fits_mono hv ht (Ir.Ty.fits_readBack hv n) hbits.le
    rw [convertsAlike_iff h ht hne, computed, folded, folded, if_neg hone, if_neg hone,
      Ir.Ty.bitsOf_inj ht hfits hread, eq_comm, Ir.Ty.readBack_eq_iff hv]
  · subst hone
    have hzero : v.ty.readBack n = 0 ↔ (2 : Int) ^ v.ty.bits ∣ n := by
      rw [← Ir.Ty.bitsOf_eq_zero_iff hv, Ir.Ty.bitsOf_eq_iff, Int.zero_emod,
        Int.dvd_iff_emod_eq_zero]
    rw [convertsAlike_iff h ht hv1, computed, Ir.Ty.bitsOf_inj ht (fits_folded_truth n)
      (fits_folded_truth _), folded_truth_eq_iff, hzero]
    exact ⟨fun hiff => hiff.2, fun himp => ⟨fun hn => hn ▸ dvd_zero _, himp⟩⟩

/-- In eight bits -56 fits. -/
theorem conversion_small_negative :
    (Value.int (-56) .i8).number? = some (-56) ∧ Ir.Ty.i32.isInteger = true ∧
      Conversion (.int (-56) .i8) (-56) .i32 ∧ ConvertsAlike (.int (-56) .i8) .i32 := by
  have h := conversion_of_number (v := .int (-56) .i8) (t := .i32) (n := -56) rfl rfl
  exact ⟨rfl, rfl, h, h.fits (by decide)⟩

/-- In eight bits 300 does not fit. -/
theorem not_convertsAlike_wide : ¬ ConvertsAlike (.int 300 .i8) .i32 := by
  rw [convertsAlike_iff (n := 300) rfl rfl (by decide)]
  decide

end Lower

end ClassLang
