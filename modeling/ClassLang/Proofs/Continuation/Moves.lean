import ClassLang.Proofs.Continuation.Moved

/-!
# Reading at a later place

A reader looks at the classes and at the literals of tokens, and copies their spans. So it does the
same wherever the tokens stand: reading tokens that are moved gives the result moved.
-/

namespace ClassLang

open Movable (move)

namespace Parse

variable {α β : Type} [Movable α] [Movable β] {d : Shift} {x y : Parse α} {f g : α → Parse β}
  {p : Parser} {k : TokenKind}

/-- Where tokens are moved, the second action does what the first one does. -/
def MovesAt (d : Shift) (p : Parser) (x y : Parse α) : Prop :=
  y (p.moved d) = match x p with
    | .ok a q => .ok (move d a) (q.moved d)
    | .error e q => .error (e.moved d) (q.moved d)

def Moves (d : Shift) (x y : Parse α) : Prop := ∀ p, MovesAt d p x y

namespace MovesAt

theorem ok {a : α} {q : Parser} (hx : x p = .ok a q)
    (hy : y (p.moved d) = .ok (move d a) (q.moved d)) : MovesAt d p x y := by
  unfold MovesAt
  rw [hx, hy]

theorem bind (hx : MovesAt d p x y) (hf : ∀ a, Moves d (f a) (g (move d a))) :
    MovesAt d p (x >>= f) (y >>= g) := by
  show EStateM.bind y g (p.moved d) = match EStateM.bind x f p with
    | .ok a q => .ok (move d a) (q.moved d)
    | .error e q => .error (e.moved d) (q.moved d)
  unfold MovesAt at hx
  unfold EStateM.bind
  rw [hx]
  cases x p with
  | ok a q => exact hf a q
  | error e q => rfl

/-- Two actions that only look. -/
theorem look {γ : Type} {x y : Parse γ} {f g : γ → Parse β} {a b : γ} (hx : x p = .ok a p)
    (hy : y (p.moved d) = .ok b (p.moved d)) (h : MovesAt d p (f a) (g b)) :
    MovesAt d p (x >>= f) (y >>= g) := by
  show EStateM.bind y g (p.moved d) = match EStateM.bind x f p with
    | .ok a q => .ok (move d a) (q.moved d)
    | .error e q => .error (e.moved d) (q.moved d)
  unfold EStateM.bind
  rw [hx, hy]
  exact h

theorem ite {c : Prop} [Decidable c] {x' y' : Parse α} (hx : MovesAt d p x y)
    (hy : MovesAt d p x' y') : MovesAt d p (if c then x else x') (if c then y else y') := by
  split <;> assumption

end MovesAt

namespace Moves

theorem bind (hx : Moves d x y) (hf : ∀ a, Moves d (f a) (g (move d a))) :
    Moves d (x >>= f) (y >>= g) := fun p => (hx p).bind hf

theorem pure {a b : α} (h : b = move d a) : Moves d (Pure.pure a) (Pure.pure b) :=
  fun _ => .ok rfl (h ▸ rfl)

theorem map {h : α → β} (hx : Moves d x y) (hh : ∀ a, h (move d a) = move d (h a)) :
    Moves d (h <$> x) (h <$> y) := by
  intro p
  show EStateM.map h y (p.moved d) = match EStateM.map h x p with
    | .ok a q => .ok (move d a) (q.moved d)
    | .error e q => .error (e.moved d) (q.moved d)
  have hp := hx p
  unfold MovesAt at hp
  unfold EStateM.map
  rw [hp]
  cases x p with
  | ok a q => exact congrArg (EStateM.Result.ok · (q.moved d)) (hh a)
  | error e q => rfl

/-- An action that only looks, at something that is not moved. -/
theorem look {γ : Type} {x : Parse γ} {f g : γ → Parse β} {r : Parser → γ}
    (hx : ∀ p, x p = .ok (r p) p) (hr : ∀ p, r (p.moved d) = r p)
    (hf : ∀ c, Moves d (f c) (g c)) : Moves d (x >>= f) (x >>= g) :=
  fun p => .look (hx p) ((hx _).trans (by rw [hr])) (hf _ p)

theorem ite {c : Prop} [Decidable c] {x' y' : Parse α} (hx : Moves d x y) (hy : Moves d x' y') :
    Moves d (if c then x else x') (if c then y else y') := by
  split <;> assumption

/-- Two actions that fail in the same way. -/
theorem failing {e : Parser → ParseError} (hx : ∀ p, x p = .error (e p) p)
    (hy : ∀ p, y (p.moved d) = .error ((e p).moved d) (p.moved d)) : Moves d x y := by
  intro p
  unfold MovesAt
  rw [hx, hy]

theorem unexpected (expected : List TokenKind) (suggestion? : Option String) :
    Moves d (Parse.unexpected expected suggestion? : Parse α)
      (Parse.unexpected expected suggestion?) := .failing (fun _ => rfl) fun _ => rfl

theorem tooDeep : Moves d (Parse.tooDeep : Parse α) Parse.tooDeep :=
  .failing (fun _ => rfl) fun _ => rfl

/-- A reader with as much fuel as there are tokens. -/
theorem of_fuel {z w : Nat → Parse α} (h : ∀ n, Moves d (z n) (w n)) :
    Moves d (fun p => z p.fuel p) fun p => w p.fuel p := by
  intro p
  have hp : MovesAt d p (z p.fuel) (w (p.moved d).fuel) := by
    rw [p.fuel_moved d]
    exact h p.fuel p
  exact hp

/-! ### Tokens -/

theorem advance : Moves d Parse.advance Parse.advance :=
  fun p => .ok rfl (by rw [Parse.advance, p.advanced_moved]; rfl)

theorem current : Moves d Parse.current Parse.current := fun _ => .ok rfl rfl

theorem currentSpan : Moves d Parse.currentSpan Parse.currentSpan := fun _ => .ok rfl rfl

theorem expect : Moves d (Parse.expect k) (Parse.expect k) := by
  intro p
  unfold MovesAt Parse.expect
  rw [p.kind_moved]
  split
  · rw [p.advanced_moved]
    rfl
  · exact unexpected [k] none p

theorem eat {f g : Bool → Parse β} (hf : ∀ b, Moves d (f b) (g b)) :
    Moves d (Parse.eat k >>= f) (Parse.eat k >>= g) := by
  have heat : Moves d (Parse.eat k) (Parse.eat k) := by
    intro p
    unfold MovesAt Parse.eat
    rw [p.kind_moved]
    split
    · rw [p.advanced_moved]
      rfl
    · rfl
  exact heat.bind hf

theorem ident : Moves d Parse.ident Parse.ident := expect.bind fun _ => .pure rfl

theorem closingAngle : Moves d Parse.closingAngle Parse.closingAngle := by
  intro p
  unfold MovesAt Parse.closingAngle
  rw [p.kind_moved]
  split
  · simp [move, Parser.moved, Token.moved, Span.moved, Nat.add_right_comm]
  · exact expect p

theorem registerTemplate (name : String) :
    Moves d (Parse.registerTemplate name) (Parse.registerTemplate name) := fun _ => .ok rfl rfl

/-! ### Repetition -/

theorem optional (hx : Moves d x y) (present : Bool) :
    Moves d (Parse.optional present x) (Parse.optional present y) :=
  .ite (hx.bind fun _ => .pure rfl) (.pure rfl)

end Moves

instance : Movable (Round α) where
  move d
    | .stop => .stop
    | .skip => .skip
    | .item a => .item (move d a)
    | .last a => .last (move d a)

namespace Moves

theorem collect {round : Parse (Round α)} (h : Moves d round round) :
    Moves d (Parse.collect round) (Parse.collect round) := by
  refine .of_fuel fun fuel => ?_
  induction fuel with
  | zero => exact .tooDeep
  | succ fuel ih =>
    refine h.bind fun r => ?_
    cases r with
    | stop => exact .pure rfl
    | skip => exact ih
    | item a => exact ih.bind fun _ => .pure rfl
    | last a => exact .pure rfl

theorem extend {step : α → Parse (Option α)} (h : ∀ a, Moves d (step a) (step (move d a))) (a : α) :
    Moves d (Parse.extend step a) (Parse.extend step (move d a)) := by
  have hall : ∀ fuel a,
      Moves d (Parse.extendAt step fuel a) (Parse.extendAt step fuel (move d a)) := by
    intro fuel
    induction fuel with
    | zero => exact fun _ => .tooDeep
    | succ fuel ih =>
      refine fun a => (h a).bind fun b? => ?_
      cases b? with
      | none => exact .pure rfl
      | some b => exact ih b
  exact of_fuel (z := fun n => Parse.extendAt step n a)
    (w := fun n => Parse.extendAt step n (move d a))
    fun n => hall n a

theorem commaSeparated {item : Parse α} (h : Moves d item item) :
    Moves d (Parse.commaSeparated item) (Parse.commaSeparated item) := by
  refine h.bind fun _ => bind (.collect (.eat fun _ => .ite ?_ (.pure rfl))) ?_
  · exact h.bind fun _ => .pure rfl
  · exact fun _ => .pure rfl

end Moves

end Parse

end ClassLang
