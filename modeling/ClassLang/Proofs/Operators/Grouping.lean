import ClassLang.Proofs.Printing.Unplaced
import Mathlib.Order.Nat

/-!
# How operators group

A chain is an operand followed by operators with an operand each. The trees that read as a chain from
left to right (`Reads`) differ in their grouping. `Grouped` is the grouping by precedence: an operator
between operands binds no more tightly than one on its left side and less tightly than one on its
right side, and assignments stand inside of no operator and on the left of no assignment. A chain has
only one such tree: its root is the last of the loosest operators, or the first assignment, because
all operators of a grouped tree bind at least as tightly as its root.
-/

namespace ClassLang

/-! ## Operators -/

/-- Whether a mark stands between two operands. -/
def Mark.isBinary (m : Mark) : Bool :=
  (InfixOp.ofKind? m).isSome || (AssignOp.ofKind? m).isSome

/-- How tightly a mark between operands binds. -/
def Mark.rank (m : Mark) : Nat := (Precedence.ofKind m).rank

def InfixOp.rank (op : InfixOp) : Nat := op.mark.rank

theorem InfixOp.eq_mark_of_ofKind? {m : Mark} {op : InfixOp} (h : ofKind? m = some op) :
    m = op.mark := by
  cases m <;> cases h <;> rfl

/-- Operators between operands bind more tightly than assignments, and less tightly than a call. -/
theorem InfixOp.rank_mem (op : InfixOp) :
    Precedence.assign.rank < op.rank ∧ op.rank < Precedence.call.rank := by
  cases op <;> decide

theorem AssignOp.rank_of_ofKind? {m : Mark} {op : AssignOp} (h : ofKind? m = some op) :
    m.rank = Precedence.assign.rank := by
  cases m <;> cases h <;> rfl

/-- No mark writes an operator of both kinds. -/
theorem InfixOp.ofKind?_assign {m : Mark} {op : InfixOp} (h : ofKind? m = some op)
    (update : AssignOp) : AssignOp.ofKind? m ≠ some update := by
  intro hassign
  have hlt := op.rank_mem.1
  rw [InfixOp.rank, ← eq_mark_of_ofKind? h, AssignOp.rank_of_ofKind? hassign] at hlt
  exact Nat.lt_irrefl _ hlt

theorem Mark.isBinary_iff {m : Mark} : m.isBinary ↔
    (∃ op : InfixOp, InfixOp.ofKind? m = some op) ∨ ∃ op : AssignOp, AssignOp.ofKind? m = some op := by
  simp [isBinary, Option.isSome_iff_exists]

/-- All operators bind more tightly than the loosest context asks for. -/
theorem Mark.rank_pos {m : Mark} (h : m.isBinary) : Precedence.lowest.rank < m.rank := by
  rcases isBinary_iff.1 h with ⟨op, hop⟩ | ⟨op, hop⟩
  · rw [InfixOp.eq_mark_of_ofKind? hop]
    exact Nat.zero_lt_of_lt op.rank_mem.1
  · rw [AssignOp.rank_of_ofKind? hop]
    decide

example : (Mark.all.filter fun m : Mark => (InfixOp.ofKind? m).isSome).length = 18 ∧
    (Mark.all.filter fun m : Mark => (AssignOp.ofKind? m).isSome).length = 12 := by
  decide

/-! ## Chains and trees -/

/-- An operand without parts. -/
inductive Atom where
  | name (n : String)
  | number (v : Nat)
deriving DecidableEq, Repr

namespace Expr

/-- A tree reads as a chain from left to right. -/
inductive Reads : Expr → Atom → List (Mark × Atom) → Prop
  | name {n : Ident} {x : String} (hname : n.name = x) : Reads (.ident n) (.name x) []
  | number {v : Nat} {span : Span} : Reads (.int v span) (.number v) []
  | binary {op : InfixOp} {left right : Expr} {span : Span} {m : Mark} {a b : Atom}
    {xs ys : List (Mark × Atom)} (hop : InfixOp.ofKind? m = some op) (hleft : Reads left a xs)
    (hright : Reads right b ys) : Reads (.binary op left right span) a (xs ++ (m, b) :: ys)
  | assign {op : AssignOp} {target value : Expr} {span : Span} {m : Mark} {a b : Atom}
    {xs ys : List (Mark × Atom)} (hop : AssignOp.ofKind? m = some op) (htarget : Reads target a xs)
    (hvalue : Reads value b ys) : Reads (.assign op target value span) a (xs ++ (m, b) :: ys)

/-- The operator between operands at the root of a tree. -/
def binaryOp? : Expr → Option InfixOp
  | .binary op .. => some op
  | _ => none

def isAssign : Expr → Bool
  | .assign .. => true
  | _ => false

/-- Operators are grouped by precedence, those between operands to the left and assignments to the
right. -/
inductive Grouped : Expr → Prop
  | name (n : Ident) : Grouped (.ident n)
  | number (v : Nat) (span : Span) : Grouped (.int v span)
  | binary {op : InfixOp} {left right : Expr} {span : Span} (hleft : Grouped left)
    (hright : Grouped right) (hassigns : left.isAssign = false ∧ right.isAssign = false)
    (hle : ∀ inner, left.binaryOp? = some inner → op.rank ≤ inner.rank)
    (hlt : ∀ inner, right.binaryOp? = some inner → op.rank < inner.rank) :
    Grouped (.binary op left right span)
  | assign {op : AssignOp} {target value : Expr} {span : Span} (htarget : Grouped target)
    (hvalue : Grouped value) (hassign : target.isAssign = false) :
    Grouped (.assign op target value span)

/-- How tightly the operator at the root of a tree binds; operands bind most tightly. -/
def rank : Expr → Nat
  | .binary op .. => op.rank
  | .assign .. => Precedence.assign.rank
  | _ => Precedence.member.rank

variable {e left right : Expr} {n : Nat}

theorem rank_of_binaryOp? {op : InfixOp} (h : e.binaryOp? = some op) : e.rank = op.rank := by
  cases e with
  | binary => cases h; rfl
  | _ => cases h

theorem isAssign_of_lt_rank (h : Precedence.assign.rank < e.rank) : e.isAssign = false := by
  cases e with
  | assign => exact absurd h (Nat.lt_irrefl _)
  | _ => rfl

/-- An operator may stand between trees with ranks that fit. -/
theorem Grouped.of_rank {op : InfixOp} {span : Span} (hleft : Grouped left) (hright : Grouped right)
    (hle : op.rank ≤ left.rank) (hlt : op.rank < right.rank) :
    Grouped (.binary op left right span) := by
  have hassign := op.rank_mem.1
  refine .binary hleft hright ⟨isAssign_of_lt_rank (hassign.trans_le hle),
    isAssign_of_lt_rank (hassign.trans hlt)⟩ (fun inner h => ?_) (fun inner h => ?_)
  · rwa [← rank_of_binaryOp? h]
  · rwa [← rank_of_binaryOp? h]

/-! ## Only one grouping -/

/-- Whether a mark can be the root over what stands on both sides of it: of the loosest operators it
is the last one, or the first one if they are assignments. -/
structure Splits (xs : List (Mark × Atom)) (m : Mark) (ys : List (Mark × Atom)) : Prop where
  left : ∀ x ∈ xs, m.rank ≤ x.1.rank ∧ (m.rank = Precedence.assign.rank → m.rank < x.1.rank)
  right : ∀ y ∈ ys, m.rank ≤ y.1.rank ∧ (m.rank ≠ Precedence.assign.rank → m.rank < y.1.rank)

/-- A chain has only one place for the root. -/
theorem Splits.unique {xs xs' ys ys' : List (Mark × Atom)} {x x' : Mark × Atom}
    (h : Splits xs x.1 ys) (h' : Splits xs' x'.1 ys') (heq : xs ++ x :: ys = xs' ++ x' :: ys') :
    xs = xs' ∧ x = x' ∧ ys = ys' := by
  have hboth : ∀ {xs ys : List (Mark × Atom)} {x x' : Mark × Atom}, Splits xs x.1 ys →
      ∀ {xs' ys' : List (Mark × Atom)}, Splits xs' x'.1 ys' → x ∈ xs' → x' ∈ ys → False := by
    intro xs ys x x' h xs' ys' h' hx hx'
    obtain ⟨hle, hlt⟩ := h.right x' hx'
    obtain ⟨hge, hgt⟩ := h'.left x hx
    by_cases hassign : x.1.rank = Precedence.assign.rank
    · have := hgt (by omega)
      omega
    · have := hlt hassign
      omega
  rcases List.append_eq_append_iff.1 heq with ⟨more, hxs, hys⟩ | ⟨more, hxs, hys⟩
  · cases more with
    | nil =>
      obtain ⟨rfl, rfl⟩ := List.cons.inj hys
      exact ⟨by rw [hxs, List.append_nil], rfl, rfl⟩
    | cons y more =>
      obtain ⟨rfl, rfl⟩ := List.cons.inj hys
      exact absurd (hboth h h' (by simp [hxs]) (by simp)) not_false
  · cases more with
    | nil =>
      obtain ⟨rfl, rfl⟩ := List.cons.inj hys
      exact ⟨by rw [hxs, List.append_nil], rfl, rfl⟩
    | cons y more =>
      obtain ⟨rfl, rfl⟩ := List.cons.inj hys
      exact absurd (hboth h' h (by simp [hxs]) (by simp)) not_false

variable {e' : Expr} {a b : Atom} {xs ys : List (Mark × Atom)} {m : Mark} {span : Span}

/-- A tree binds as tightly as the operator between operands at its root, if there is one. -/
theorem le_rank {k : Nat} (hk : k ≤ Precedence.member.rank) (hassign : e.isAssign = false)
    (h : ∀ inner, e.binaryOp? = some inner → k ≤ inner.rank) : k ≤ e.rank := by
  cases e with
  | binary op => exact h op rfl
  | assign => cases hassign
  | _ => exact hk

theorem assign_le_rank (e : Expr) : Precedence.assign.rank ≤ e.rank := by
  cases h : e.isAssign with
  | true =>
    cases e with
    | assign => exact Nat.le_refl _
    | _ => cases h
  | false => exact le_rank (by decide) h fun inner _ => inner.rank_mem.1.le

/-- The ranks on both sides of an operator between operands. -/
theorem Grouped.ranks {op : InfixOp} (h : Grouped (.binary op left right span)) :
    op.rank ≤ left.rank ∧ op.rank < right.rank := by
  have hcall : Precedence.call.rank ≤ Precedence.member.rank := by decide
  have hop := op.rank_mem.2
  cases h with
  | binary _ _ hassigns hle hlt =>
    exact ⟨le_rank (by omega) hassigns.1 hle, le_rank (by omega) hassigns.2 hlt⟩

/-- The rank on the left side of an assignment. -/
theorem Grouped.rank_target {op : AssignOp} {target value : Expr}
    (h : Grouped (.assign op target value span)) : Precedence.assign.rank < target.rank := by
  cases h with
  | assign _ _ hassign => exact le_rank (by decide) hassign fun inner _ => inner.rank_mem.1

/-- All operators of a grouped tree bind at least as tightly as its root. -/
theorem Grouped.rank_le (hreads : e.Reads a xs) (h : Grouped e) : ∀ x ∈ xs, e.rank ≤ x.1.rank := by
  induction hreads with
  | name | number => exact fun _ hx => nomatch hx
  | @binary op left right span m a b xs ys hop hleft hright ihleft ihright =>
    have hm : m.rank = op.rank := by rw [InfixOp.eq_mark_of_ofKind? hop, InfixOp.rank]
    obtain ⟨hle, hlt⟩ := h.ranks
    cases h with
    | binary hl hr =>
      refine List.forall_mem_append.2 ⟨fun x hx => ?_, List.forall_mem_cons.2 ⟨hm.ge, fun y hy => ?_⟩⟩
      · exact hle.trans (ihleft hl x hx)
      · exact hlt.le.trans (ihright hr y hy)
  | @assign op target value span m a b xs ys hop htarget hvalue ihtarget ihvalue =>
    have hm := AssignOp.rank_of_ofKind? hop
    have hlt := h.rank_target
    cases h with
    | assign ht hv =>
      refine List.forall_mem_append.2 ⟨fun x hx => ?_, List.forall_mem_cons.2 ⟨hm.ge, fun y hy => ?_⟩⟩
      · exact hlt.le.trans (ihtarget ht x hx)
      · exact (assign_le_rank value).trans (ihvalue hv y hy)

/-- The operator at the root of a grouped tree is where a chain splits. -/
theorem Grouped.splits_binary {op : InfixOp} (hop : InfixOp.ofKind? m = some op)
    (hleft : left.Reads a xs) (hright : right.Reads b ys) (h : Grouped (.binary op left right span)) :
    Splits xs m ys := by
  have hm : m.rank = op.rank := by rw [InfixOp.eq_mark_of_ofKind? hop, InfixOp.rank]
  have hassign := op.rank_mem.1
  obtain ⟨hle, hlt⟩ := h.ranks
  cases h with
  | binary hl hr =>
    refine ⟨fun x hx => ?_, fun y hy => ?_⟩
    · have := hl.rank_le hleft x hx
      omega
    · have := hr.rank_le hright y hy
      omega

theorem Grouped.splits_assign {op : AssignOp} {target value : Expr}
    (hop : AssignOp.ofKind? m = some op) (htarget : target.Reads a xs) (hvalue : value.Reads b ys)
    (h : Grouped (.assign op target value span)) : Splits xs m ys := by
  have hm := AssignOp.rank_of_ofKind? hop
  have hlt := h.rank_target
  have hge := assign_le_rank value
  cases h with
  | assign ht hv =>
    refine ⟨fun x hx => ?_, fun y hy => ?_⟩
    · have := ht.rank_le htarget x hx
      omega
    · have := hv.rank_le hvalue y hy
      omega

/-- A chain has only one grouped tree, up to spans. -/
theorem Reads.unplaced_eq (h : e.Reads a xs) (h' : e'.Reads a xs) (hgrouped : e.Grouped)
    (hgrouped' : e'.Grouped) : e.unplaced = e'.unplaced := by
  have hne : ∀ {xs ys : List (Mark × Atom)} {x : Mark × Atom}, [] ≠ xs ++ x :: ys := by simp
  induction h generalizing e' with
  | name hname =>
    generalize hxs : ([] : List (Mark × Atom)) = zs at h'
    cases h' with
    | name hname' => simp [Ident.unplaced, hname, hname']
    | binary | assign => exact absurd hxs hne
  | number =>
    generalize hxs : ([] : List (Mark × Atom)) = zs at h'
    cases h' with
    | number => rfl
    | binary | assign => exact absurd hxs hne
  | @binary op left right span m a b xs ys hop hleft hright ihleft ihright =>
    have hsplit := hgrouped.splits_binary hop hleft hright
    generalize hzs : xs ++ (m, b) :: ys = zs at h'
    cases h' with
    | name | number => exact absurd hzs.symm hne
    | binary hop' hleft' hright' =>
      obtain ⟨rfl, hx, rfl⟩ := hsplit.unique (hgrouped'.splits_binary hop' hleft' hright') hzs
      obtain ⟨rfl, rfl⟩ := Prod.mk.inj hx
      obtain rfl := Option.some.inj (hop.symm.trans hop')
      cases hgrouped with
      | binary hl hr =>
        cases hgrouped' with
        | binary hl' hr' => simp [ihleft hleft' hl hl', ihright hright' hr hr']
    | assign hop' htarget' hvalue' =>
      obtain ⟨rfl, hx, rfl⟩ := hsplit.unique (hgrouped'.splits_assign hop' htarget' hvalue') hzs
      obtain ⟨rfl, -⟩ := Prod.mk.inj hx
      exact absurd hop' (InfixOp.ofKind?_assign hop _)
  | @assign op target value span m a b xs ys hop htarget hvalue ihtarget ihvalue =>
    have hsplit := hgrouped.splits_assign hop htarget hvalue
    generalize hzs : xs ++ (m, b) :: ys = zs at h'
    cases h' with
    | name | number => exact absurd hzs.symm hne
    | binary hop' hleft' hright' =>
      obtain ⟨rfl, hx, rfl⟩ := hsplit.unique (hgrouped'.splits_binary hop' hleft' hright') hzs
      obtain ⟨rfl, -⟩ := Prod.mk.inj hx
      exact absurd hop (InfixOp.ofKind?_assign hop' _)
    | assign hop' htarget' hvalue' =>
      obtain ⟨rfl, hx, rfl⟩ := hsplit.unique (hgrouped'.splits_assign hop' htarget' hvalue') hzs
      obtain ⟨rfl, rfl⟩ := Prod.mk.inj hx
      obtain rfl := Option.some.inj (hop.symm.trans hop')
      cases hgrouped with
      | assign ht hv =>
        cases hgrouped' with
        | assign ht' hv' => simp [ihtarget htarget' ht ht', ihvalue hvalue' hv hv']

end Expr

end ClassLang
