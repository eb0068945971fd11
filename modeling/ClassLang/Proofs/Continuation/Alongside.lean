import ClassLang.Parse.Program

/-!
# Reading with more text behind

A text that is read without errors is read in the same way when a semicolon and further text follow
it. Two parsers stand `Alongside` each other when they have the same tokens up to the end of the
first, where the second finds a semicolon and the tokens of a third parser. An action of the first
is followed by an action of the second as long as it gives a result. How closely is its `Bond`: the
end marker and a semicolon are told apart in a few places, and there the two part.
-/

namespace ClassLang

/-- The first tokens end where the second ones go on with a semicolon. -/
inductive Until (after : List Token) : List Token → List Token → Prop
  | eof {t s : Token} (ht : t.kind = .eof) (hs : s.kind = Mark.semicolon) :
    Until after [t] (s :: after)
  | token {t : Token} {ts us : List Token} (ht : t.kind ≠ .eof) (h : Until after ts us) :
    Until after (t :: ts) (t :: us)

theorem Until.length_le {after ts us : List Token} (h : Until after ts us) :
    ts.length ≤ us.length := by
  induction h with
  | eof => exact Nat.succ_le_succ (Nat.zero_le _)
  | token _ _ ih => exact Nat.succ_le_succ ih

namespace Parser

variable {r p q p' q' : Parser} {k : TokenKind}

theorem peek_eq (p : Parser) : p.peek = p.advanced.current := by
  obtain ⟨current, rest, errors, templates⟩ := p
  cases rest <;> rfl

/-- The second parser has the tokens of the first, a semicolon for the end marker, and the tokens of
`r` behind it. -/
structure Alongside (r p p' : Parser) : Prop where
  tokens : Until (r.current :: r.rest) (p.current :: p.rest) (p'.current :: p'.rest)
  errors : p'.errors = p.errors
  templates : p'.templates = p.templates

/-- The parser `r` with what is known at the end of `q`. -/
def resumed (r q : Parser) : Parser := { r with errors := q.errors, templates := q.templates }

namespace Alongside

theorem fuel_le (h : Alongside r p p') : p.fuel ≤ p'.fuel :=
  Nat.succ_le_succ h.tokens.length_le

theorem current_eq (h : Alongside r p p') (hp : p.kind ≠ .eof) : p'.current = p.current := by
  obtain ⟨current, rest, errors, templates⟩ := p
  obtain ⟨current', rest', errors', templates'⟩ := p'
  cases h.tokens with
  | eof ht => exact absurd ht hp
  | token => rfl

theorem kind_eq (h : Alongside r p p') (hp : p.kind ≠ .eof) : p'.kind = p.kind :=
  congrArg Token.kind (h.current_eq hp)

theorem kind_of_eof (h : Alongside r p p') (hp : p.kind = .eof) : p'.kind = Mark.semicolon := by
  obtain ⟨current, rest, errors, templates⟩ := p
  obtain ⟨current', rest', errors', templates'⟩ := p'
  cases h.tokens with
  | eof _ hs => exact hs
  | token ht => exact absurd hp ht

/-- A test of the kind that does not tell the end marker from a semicolon. -/
theorem test_eq {c : TokenKind → Bool} (h : Alongside r p p') (hc : c .eof = c Mark.semicolon) :
    c p'.kind = c p.kind := by
  by_cases hp : p.kind = .eof
  · rw [h.kind_of_eof hp, hp, hc]
  · rw [h.kind_eq hp]

theorem advanced (h : Alongside r p p') (hp : p.kind ≠ .eof) :
    Alongside r p.advanced p'.advanced := by
  obtain ⟨current, rest, errors, templates⟩ := p
  obtain ⟨current', rest', errors', templates'⟩ := p'
  obtain ⟨htokens, herrors, htemplates⟩ := h
  cases htokens with
  | eof ht => exact absurd ht hp
  | token _ h =>
    cases h with
    | eof ht hs => exact ⟨.eof ht hs, herrors, htemplates⟩
    | token ht h => exact ⟨.token ht h, herrors, htemplates⟩

/-- Another token in place of the current ones. -/
theorem with_current (h : Alongside r p p') (hp : p.kind ≠ .eof) {t : Token} (ht : t.kind ≠ .eof) :
    Alongside r { p with current := t } { p' with current := t } := by
  obtain ⟨current, rest, errors, templates⟩ := p
  obtain ⟨current', rest', errors', templates'⟩ := p'
  obtain ⟨htokens, herrors, htemplates⟩ := h
  cases htokens with
  | eof ht => exact absurd ht hp
  | token _ h => exact ⟨.token ht h, herrors, htemplates⟩

theorem advanced_of_eof (h : Alongside r p p') (hp : p.kind = .eof) :
    p'.advanced = r.resumed p := by
  obtain ⟨current, rest, errors, templates⟩ := p
  obtain ⟨current', rest', errors', templates'⟩ := p'
  obtain ⟨htokens, herrors, htemplates⟩ := h
  cases htokens with
  | eof =>
    obtain rfl : errors' = errors := herrors
    obtain rfl : templates' = templates := htemplates
    rfl
  | token ht => exact absurd hp ht

theorem peek_eq_of_ne (h : Alongside r p p') (hp : p.kind ≠ .eof) (hpeek : p.peek.kind ≠ .eof) :
    p'.peek = p.peek := by
  rw [peek_eq] at hpeek
  rw [peek_eq, peek_eq]
  exact (h.advanced hp).current_eq hpeek

/-- The tokens behind the current ones are of the same kind as far as a test tells. -/
theorem peek_test_eq {c : TokenKind → Bool} (h : Alongside r p p') (hp : p.kind ≠ .eof)
    (hc : c .eof = c Mark.semicolon) : c p'.peek.kind = c p.peek.kind := by
  rw [peek_eq, peek_eq]
  exact (h.advanced hp).test_eq hc

theorem isTemplate_eq (h : Alongside r p p') (name : String) :
    p'.isTemplate name = p.isTemplate name := by
  unfold isTemplate
  rw [h.templates]

end Alongside

end Parser

/-! ## Actions -/

namespace Parse

open ClassLang.Parser (Alongside)

/-- What the first of two actions tells of the second by giving a result. -/
inductive Bond where
  /-- The second gives the same result and stays alongside. -/
  | firm
  /-- The second gives the same result. It stays alongside, or the first is at the end and the
  second has passed the semicolon there. -/
  | final
  /-- The second gives the same result and stays alongside, unless the first is at the end. -/
  | loose

variable {α β : Type} {r p p' : Parser} {b : Bond} {k : TokenKind}

def Bond.Holds (r : Parser) (a : α) (q : Parser) (result : EStateM.Result ParseError Parser α) :
    Bond → Prop
  | .firm => ∃ q', result = .ok a q' ∧ Alongside r q q'
  | .final => ∃ q', result = .ok a q' ∧ (Alongside r q q' ∨ q.kind = .eof ∧ q' = r.resumed q)
  | .loose => q.kind ≠ .eof → ∃ q', result = .ok a q' ∧ Alongside r q q'

theorem Bond.Holds.of_alongside {a : α} {q q' : Parser} (h : Alongside r q q') :
    b.Holds r a q (.ok a q') := by
  cases b with
  | firm => exact ⟨q', rfl, h⟩
  | final => exact ⟨q', rfl, .inl h⟩
  | loose => exact fun _ => ⟨q', rfl, h⟩

/-- From a state of the first parser and one of the second, the second action follows the first. -/
def FollowsAt (b : Bond) (r p p' : Parser) (x y : Parse α) : Prop :=
  ∀ a q, x p = .ok a q → b.Holds r a q (y p')

def Follows (b : Bond) (r : Parser) (x y : Parse α) : Prop :=
  ∀ p p', Alongside r p p' → FollowsAt b r p p' x y

/-- The second action follows the first where the first is not at the end. -/
def Inside (b : Bond) (r : Parser) (x y : Parse α) : Prop :=
  ∀ p p', Alongside r p p' → p.kind ≠ .eof → FollowsAt b r p p' x y

/-- What an action does at the end, if it gives a result there. -/
def AtEnd (post : α → Parser → Prop) (x : Parse α) : Prop :=
  ∀ p, p.kind = .eof → ∀ a q, x p = .ok a q → post a q

/-- An action that gives no result at the end. -/
def Refuses (x : Parse α) : Prop := AtEnd (fun _ _ => False) x

/-- An action that stays at the end. -/
def Stays (x : Parse α) : Prop := AtEnd (fun _ q => q.kind = .eof) x

/-- A round that is the last one at the end. -/
def Stops (round : Parse (Round α)) : Prop := AtEnd (fun c q => c = .stop ∧ q.kind = .eof) round

variable {x y : Parse α} {f g : α → Parse β}

/-- A result of two actions is made from a result of the first. -/
theorem ok_of_bind {c : β} {q : Parser} (h : (x >>= f) p = .ok c q) :
    ∃ a m, x p = .ok a m ∧ f a m = .ok c q := by
  replace h : EStateM.bind x f p = .ok c q := h
  unfold EStateM.bind at h
  cases hx : x p with
  | ok a m =>
    rw [hx] at h
    exact ⟨a, m, rfl, h⟩
  | error e m =>
    rw [hx] at h
    cases h

theorem bind_of_ok {a : α} {m : Parser} (h : x p = .ok a m) : (x >>= f) p = f a m := by
  show EStateM.bind x f p = f a m
  unfold EStateM.bind
  rw [h]

namespace AtEnd

variable {post : α → Parser → Prop} {last : β → Parser → Prop}

theorem pure {a : α} (h : ∀ p : Parser, p.kind = .eof → post a p) : AtEnd post (Pure.pure a) := by
  rintro p hp _ _ ⟨⟩
  exact h p hp

theorem bind (hx : Refuses x) : AtEnd last (x >>= f) := by
  intro p hp c q h
  obtain ⟨a, m, hxp, -⟩ := ok_of_bind h
  exact (hx p hp a m hxp).elim

/-- What follows an action that only looks. -/
theorem look {g : Parser → α} (hx : ∀ p, x p = .ok (g p) p)
    (hf : ∀ p, p.kind = .eof → AtEnd last (f (g p))) : AtEnd last (x >>= f) := by
  intro p hp c q h
  rw [bind_of_ok (hx p)] at h
  exact hf p hp p hp c q h

theorem currentKind {f : TokenKind → Parse β} (h : AtEnd last (f .eof)) :
    AtEnd last (Parse.currentKind >>= f) := look (fun _ => rfl) fun _ hp => hp ▸ h

theorem check {f : Bool → Parse β} (h : AtEnd last (f (.eof == k))) :
    AtEnd last (Parse.check k >>= f) := look (fun _ => rfl) fun _ hp => hp ▸ h

theorem checkAny {ks : List TokenKind} {f : Bool → Parse β}
    (h : AtEnd last (f (ks.contains .eof))) : AtEnd last (Parse.checkAny ks >>= f) :=
  look (fun _ => rfl) fun _ hp => hp ▸ h

theorem eat {f : Bool → Parse β} (hk : (TokenKind.eof == k) = false) (h : AtEnd last (f false)) :
    AtEnd last (Parse.eat k >>= f) := by
  intro p hp c q hq
  rw [bind_of_ok (show Parse.eat k p = .ok false p from if_neg (by rw [hp, hk]; nofun))] at hq
  exact h p hp c q hq

theorem unexpected (expected : List TokenKind) (suggestion? : Option String) :
    AtEnd post (Parse.unexpected expected suggestion? : Parse α) := by
  intro _ _ _ _ h
  cases h

theorem token (hk : k ≠ .eof) : Refuses (Parse.expect k) := by
  intro p hp a q h
  unfold Parse.expect at h
  rw [hp, if_neg (by simpa using hk.symm)] at h
  cases h

theorem expect {f : Token → Parse β} (hk : k ≠ .eof) : AtEnd last (Parse.expect k >>= f) :=
  bind (token hk)

theorem map {h : α → β} (hx : Refuses x) : Refuses (h <$> x) := by
  rw [← bind_pure_comp]
  exact bind hx

end AtEnd

namespace FollowsAt

theorem pure (h : Alongside r p p') (a : α) : FollowsAt b r p p' (Pure.pure a) (Pure.pure a) := by
  rintro _ _ ⟨⟩
  exact .of_alongside h

theorem bind (hx : FollowsAt .firm r p p' x y) (hf : ∀ a, Follows b r (f a) (g a)) :
    FollowsAt b r p p' (x >>= f) (y >>= g) := by
  intro c q h
  obtain ⟨a, m, hxp, hfm⟩ := ok_of_bind h
  obtain ⟨m', hyp, hm⟩ := hx a m hxp
  rw [bind_of_ok hyp]
  exact hf a m m' hm c q hfm

/-- Two actions that only look. -/
theorem look {a c : α} (hx : x p = .ok a p) (hy : y p' = .ok c p')
    (hf : FollowsAt b r p p' (f a) (g c)) : FollowsAt b r p p' (x >>= f) (y >>= g) := by
  unfold FollowsAt
  rw [bind_of_ok hx, bind_of_ok hy]
  exact hf

theorem map {h : α → β} (hx : FollowsAt b r p p' x y) :
    FollowsAt b r p p' (h <$> x) (h <$> y) := by
  intro c q hc
  replace hc : EStateM.map h x p = .ok c q := hc
  show b.Holds r c q (EStateM.map h y p')
  unfold EStateM.map at hc ⊢
  cases hxp : x p with
  | error e m =>
    rw [hxp] at hc
    cases hc
  | ok a m =>
    rw [hxp] at hc
    obtain ⟨rfl, rfl⟩ : h a = c ∧ m = q := by simpa using hc
    have hm := hx a m hxp
    cases b with
    | firm =>
      obtain ⟨m', hyp, hm⟩ := hm
      exact ⟨m', by rw [hyp], hm⟩
    | final =>
      obtain ⟨m', hyp, hm⟩ := hm
      exact ⟨m', by rw [hyp], hm⟩
    | loose =>
      intro hne
      obtain ⟨m', hyp, hm⟩ := hm hne
      exact ⟨m', by rw [hyp], hm⟩

theorem bind_pure {h : α → β} (hx : FollowsAt b r p p' x y) :
    FollowsAt b r p p' (x >>= fun a => Pure.pure (h a)) (y >>= fun a => Pure.pure (h a)) := by
  rw [bind_pure_comp, bind_pure_comp]
  exact hx.map

theorem of_firm (h : FollowsAt .firm r p p' x y) : FollowsAt b r p p' x y := by
  intro a q hxp
  obtain ⟨q', hyp, hq⟩ := h a q hxp
  rw [hyp]
  exact .of_alongside hq

theorem loose (h : FollowsAt b r p p' x y) : FollowsAt .loose r p p' x y := by
  intro a q hxp hne
  have hq := h a q hxp
  cases b with
  | firm => exact hq
  | final =>
    obtain ⟨q', hyp, hq | hq⟩ := hq
    · exact ⟨q', hyp, hq⟩
    · exact absurd hq.1 hne
  | loose => exact hq hne

end FollowsAt

namespace Follows

theorem inside (h : Follows b r x y) : Inside b r x y := fun p p' hp _ => h p p' hp

/-- An action that gives no result at the end needs to be followed only before. -/
theorem of_inside (h : Inside b r x y) (hend : Refuses x) : Follows b r x y := by
  intro p p' hp
  by_cases hne : p.kind = .eof
  · exact fun a q hxp => (hend p hne a q hxp).elim
  · exact h p p' hp hne

theorem loose_of_inside (h : Inside .loose r x y) (hend : Stays x) : Follows .loose r x y := by
  intro p p' hp
  by_cases hne : p.kind = .eof
  · exact fun a q hxp hq => absurd (hend p hne a q hxp) hq
  · exact h p p' hp hne

theorem loose (h : Follows b r x y) : Follows .loose r x y := fun p p' hp => (h p p' hp).loose

theorem of_firm (h : Follows .firm r x y) : Follows b r x y := fun p p' hp => (h p p' hp).of_firm

theorem pure (a : α) : Follows b r (Pure.pure a) (Pure.pure a) := fun _ _ hp => .pure hp a

theorem bind (hx : Follows .firm r x y) (hf : ∀ a, Follows b r (f a) (g a)) :
    Follows b r (x >>= f) (y >>= g) := fun p p' hp => (hx p p' hp).bind hf

theorem map {h : α → β} (hx : Follows b r x y) : Follows b r (h <$> x) (h <$> y) :=
  fun p p' hp => (hx p p' hp).map

/-- What is made of a result changes nothing. -/
theorem bind_pure {h : α → β} (hx : Follows b r x y) :
    Follows b r (x >>= fun a => Pure.pure (h a)) (y >>= fun a => Pure.pure (h a)) :=
  fun p p' hp => (hx p p' hp).bind_pure

/-- Whatever happens at the end, nothing goes on from there. -/
theorem bind_refusing (hx : Follows .loose r x y) (hf : ∀ a, Follows b r (f a) (g a))
    (hend : ∀ a, Refuses (f a)) : Follows b r (x >>= f) (y >>= g) := by
  intro p p' hp c q h
  obtain ⟨a, m, hxp, hfm⟩ := ok_of_bind h
  have hne : m.kind ≠ .eof := fun heof => (hend a m heof c q hfm).elim
  obtain ⟨m', hyp, hm⟩ := hx p p' hp a m hxp hne
  rw [bind_of_ok hyp]
  exact hf a m m' hm c q hfm

theorem ite {c : Prop} [Decidable c] {x' y' : Parse α} (hx : Follows b r x y)
    (hy : Follows b r x' y') : Follows b r (if c then x else x') (if c then y else y') := by
  split <;> assumption

theorem failing (h : ∀ p a q, x p ≠ .ok a q) : Follows b r x y :=
  fun p _ _ a q hxp => absurd hxp (h p a q)

theorem throw (e : ParseError) : Follows b r (MonadExcept.throw e : Parse α) y :=
  failing fun p a q h => by cases h

theorem unexpected (expected : List TokenKind) (suggestion? : Option String) :
    Follows b r (Parse.unexpected expected suggestion? : Parse α) y :=
  failing fun p a q h => by cases h

theorem tooDeep : Follows b r (Parse.tooDeep : Parse α) y :=
  failing fun p a q h => by cases h

/-- A reader with as much fuel as there are tokens: the second parser has more of both. -/
theorem of_fuel {z w : Nat → Parse α} (h : ∀ n m, n ≤ m → Follows b r (z n) (w m)) :
    Follows b r (fun p => z p.fuel p) fun p => w p.fuel p :=
  fun p p' hp => h p.fuel p'.fuel hp.fuel_le p p' hp

/-! ### Tests that do not tell the end marker from a semicolon -/

theorem currentKind {f g : TokenKind → Parse β} (hf : ∀ k, Inside b r (f k) (g k))
    (hend : Follows b r (f .eof) (g Mark.semicolon)) :
    Follows b r (Parse.currentKind >>= f) (Parse.currentKind >>= g) := by
  intro p p' hp
  by_cases hne : p.kind = .eof
  · have h := hend p p' hp
    rw [← hne, ← hp.kind_of_eof hne] at h
    exact h
  · exact .look rfl (congrArg (EStateM.Result.ok · p') (hp.kind_eq hne)) (hf _ p p' hp hne)

theorem check {f g : Bool → Parse β} (hk : (TokenKind.eof == k) = (.mark .semicolon == k))
    (hf : ∀ c, Follows b r (f c) (g c)) : Follows b r (Parse.check k >>= f) (Parse.check k >>= g) :=
  fun p p' hp => .look rfl
    (congrArg (EStateM.Result.ok · p') (hp.test_eq (c := (· == k)) hk)) (hf _ p p' hp)

/-- A token of the kind that was found is not the end marker. -/
theorem check_inside {f g : Bool → Parse β} (hk : (TokenKind.eof == k) = false)
    (hk' : (.mark .semicolon == k) = false) (htrue : Inside b r (f true) (g true))
    (hfalse : Follows b r (f false) (g false)) :
    Follows b r (Parse.check k >>= f) (Parse.check k >>= g) := by
  intro p p' hp
  refine .look (x := Parse.check k) rfl
    (congrArg (EStateM.Result.ok · p') (hp.test_eq (c := (· == k)) (hk.trans hk'.symm))) ?_
  cases hkind : p.kind == k with
  | true => exact htrue p p' hp fun heof => by simp [heof, hk] at hkind
  | false => exact hfalse p p' hp

theorem checkAny {ks : List TokenKind} {f g : Bool → Parse β}
    (hks : ks.contains .eof = ks.contains (.mark .semicolon)) (hf : ∀ c, Follows b r (f c) (g c)) :
    Follows b r (Parse.checkAny ks >>= f) (Parse.checkAny ks >>= g) :=
  fun p p' hp => .look rfl
    (congrArg (EStateM.Result.ok · p') (hp.test_eq (c := ks.contains) hks)) (hf _ p p' hp)

/-! ### Tokens -/

theorem token (hk : k ≠ .eof) : Follows .firm r (Parse.expect k) (Parse.expect k) := by
  refine of_inside ?_ (AtEnd.token hk)
  intro p p' hp hne a q h
  unfold Parse.expect at h ⊢
  rw [hp.kind_eq hne]
  split at h
  · rename_i hkind
    obtain ⟨rfl, rfl⟩ : p.current = a ∧ p.advanced = q := by simpa using h
    exact ⟨_, by rw [if_pos hkind, hp.current_eq hne], hp.advanced hne⟩
  · cases h

theorem expect {f g : Token → Parse β} (hk : k ≠ .eof) (hf : ∀ t, Follows b r (f t) (g t)) :
    Follows b r (Parse.expect k >>= f) (Parse.expect k >>= g) := (token hk).bind hf

theorem ident : Follows .firm r Parse.ident Parse.ident := expect nofun fun _ => pure _

theorem eat {f g : Bool → Parse β} (hk : (TokenKind.eof == k) = (.mark .semicolon == k))
    (hf : ∀ c, Follows b r (f c) (g c)) : Follows b r (Parse.eat k >>= f) (Parse.eat k >>= g) := by
  refine bind ?_ hf
  intro p p' hp c q h
  unfold Parse.eat at h ⊢
  rw [hp.test_eq (c := (· == k)) hk]
  split at h
  · rename_i hkind
    obtain ⟨rfl, rfl⟩ : true = c ∧ p.advanced = q := by simpa using h
    refine ⟨_, if_pos hkind, hp.advanced fun heof => ?_⟩
    have hkinds : (TokenKind.eof == k) = true := heof ▸ hkind
    have hsemi := hk ▸ hkinds
    exact absurd ((eq_of_beq hkinds).trans (eq_of_beq hsemi).symm) nofun
  · rename_i hkind
    obtain ⟨rfl, rfl⟩ : false = c ∧ p = q := by simpa using h
    exact ⟨_, if_neg hkind, hp⟩

/-- The semicolon that may close a statement. At the end of the first text the second parser passes
the one that stands there. -/
theorem semicolon (a : α) :
    Follows .final r (do let _ ← Parse.eat Mark.semicolon; return a)
      (do let _ ← Parse.eat Mark.semicolon; return a) := by
  intro p p' hp c q h
  obtain ⟨e, m, hx, hm⟩ := ok_of_bind h
  obtain ⟨rfl, rfl⟩ : a = c ∧ m = q := by simpa [Pure.pure, EStateM.pure] using hm
  by_cases hne : p.kind = .eof
  · have hstays : m = p := by
      unfold Parse.eat at hx
      rw [hne, if_neg (by decide)] at hx
      simpa [eq_comm] using (EStateM.Result.ok.inj hx).2
    have heats : Parse.eat Mark.semicolon p' = .ok true p'.advanced := by
      unfold Parse.eat
      rw [hp.kind_of_eof hne, if_pos (by decide)]
    refine ⟨p'.advanced, ?_, .inr ⟨hstays ▸ hne, hstays ▸ hp.advanced_of_eof hne⟩⟩
    rw [bind_of_ok heats]
    rfl
  · have heats : Parse.eat Mark.semicolon p' = .ok e (if e then p'.advanced else p') ∧
        m = if e then p.advanced else p := by
      unfold Parse.eat at hx ⊢
      rw [hp.kind_eq hne]
      split at hx <;> cases hx <;> simp [*]
    refine ⟨if e then p'.advanced else p', ?_, .inl ?_⟩
    · rw [bind_of_ok heats.1]
      rfl
    · rw [heats.2]
      cases e with
      | true => exact hp.advanced hne
      | false => exact hp

theorem closingAngle : Follows .firm r Parse.closingAngle Parse.closingAngle := by
  intro p p' hp
  by_cases hshift : p.kind = Mark.shiftRight
  · have hne : p.kind ≠ .eof := hshift ▸ nofun
    intro a q h
    unfold Parse.closingAngle at h ⊢
    rw [hp.kind_eq hne, hp.current_eq hne]
    rw [hshift, if_pos (by decide)] at h ⊢
    cases h
    exact ⟨_, rfl, hp.with_current hne nofun⟩
  · have hangle : ∀ {o : Parser}, o.kind ≠ Mark.shiftRight →
        Parse.closingAngle o = Parse.expect Mark.gt o := fun ho => if_neg (by simpa using ho)
    have hshift' : p'.kind ≠ Mark.shiftRight := by
      by_cases hne : p.kind = .eof
      · rw [hp.kind_of_eof hne]
        nofun
      · rwa [hp.kind_eq hne]
    unfold FollowsAt
    rw [hangle hshift, hangle hshift']
    exact token (k := Mark.gt) nofun p p' hp

theorem registerTemplate (name : String) :
    Follows .firm r (Parse.registerTemplate name) (Parse.registerTemplate name) := by
  rintro p p' hp _ _ ⟨⟩
  refine ⟨_, rfl, hp.tokens, hp.errors, ?_⟩
  show (if p'.isTemplate name then p'.templates else name :: p'.templates) = _
  rw [hp.isTemplate_eq, hp.templates]

end Follows

/-! ### Before the end -/

namespace Inside

theorem pure (a : α) : Inside b r (Pure.pure a) (Pure.pure a) := (Follows.pure a).inside

theorem ite {c : Prop} [Decidable c] {x' y' : Parse α} (hx : Inside b r x y)
    (hy : Inside b r x' y') : Inside b r (if c then x else x') (if c then y else y') := by
  split <;> assumption

theorem map {h : α → β} (hx : Inside b r x y) : Inside b r (h <$> x) (h <$> y) :=
  fun p p' hp hne => (hx p p' hp hne).map

theorem bind_pure {h : α → β} (hx : Inside b r x y) :
    Inside b r (x >>= fun a => Pure.pure (h a)) (y >>= fun a => Pure.pure (h a)) :=
  fun p p' hp hne => (hx p p' hp hne).bind_pure

theorem of_firm (h : Inside .firm r x y) : Inside b r x y :=
  fun p p' hp hne => (h p p' hp hne).of_firm

theorem loose (h : Inside b r x y) : Inside .loose r x y := fun p p' hp hne => (h p p' hp hne).loose

/-- An action that only looks, at the current token. -/
theorem look {t : Token → α} (hx : ∀ p, x p = .ok (t p.current) p)
    (hf : ∀ a, Inside b r (f a) (g a)) : Inside b r (x >>= f) (x >>= g) :=
  fun p p' hp hne => .look (hx p) ((hx p').trans (by rw [hp.current_eq hne])) (hf _ p p' hp hne)

theorem check {f g : Bool → Parse β} (hf : ∀ c, Inside b r (f c) (g c)) :
    Inside b r (Parse.check k >>= f) (Parse.check k >>= g) :=
  look (t := fun t => t.kind == k) (fun _ => rfl) hf

theorem checkAny {ks : List TokenKind} {f g : Bool → Parse β} (hf : ∀ c, Inside b r (f c) (g c)) :
    Inside b r (Parse.checkAny ks >>= f) (Parse.checkAny ks >>= g) :=
  look (t := fun t => ks.contains t.kind) (fun _ => rfl) hf

theorem advance {f g : Token → Parse β} (hf : ∀ t, Follows b r (f t) (g t)) :
    Inside b r (Parse.advance >>= f) (Parse.advance >>= g) := by
  intro p p' hp hne
  refine FollowsAt.bind ?_ hf
  rintro _ _ ⟨⟩
  exact ⟨_, by rw [Parse.advance, hp.current_eq hne], hp.advanced hne⟩

theorem eat {f g : Bool → Parse β} (htrue : Follows b r (f true) (g true))
    (hfalse : Inside b r (f false) (g false)) :
    Inside b r (Parse.eat k >>= f) (Parse.eat k >>= g) := by
  intro p p' hp hne
  unfold FollowsAt
  by_cases hkind : p.kind == k
  · rw [bind_of_ok (show Parse.eat k p = .ok true p.advanced from if_pos hkind),
      bind_of_ok (show Parse.eat k p' = .ok true p'.advanced from
        if_pos ((hp.kind_eq hne).symm ▸ hkind))]
    exact htrue _ _ (hp.advanced hne)
  · rw [bind_of_ok (show Parse.eat k p = .ok false p from if_neg hkind),
      bind_of_ok (show Parse.eat k p' = .ok false p' from
        if_neg ((hp.kind_eq hne).symm ▸ hkind))]
    exact hfalse p p' hp hne

end Inside

/-! ### Repetition -/

namespace Follows

theorem optional (hx : Follows b r x y) (present : Bool) :
    Follows b r (Parse.optional present x) (Parse.optional present y) :=
  .ite hx.bind_pure (.pure none)

theorem collect {round round' : Parse (Round α)} (h : Follows .firm r round round') :
    Follows .firm r (Parse.collect round) (Parse.collect round') := by
  refine of_fuel fun n m hnm => ?_
  induction n generalizing m with
  | zero => exact .tooDeep
  | succ n ih =>
    obtain ⟨m, rfl⟩ : ∃ m', m = m' + 1 := ⟨m - 1, by omega⟩
    refine h.bind fun c => ?_
    cases c with
    | stop => exact .pure []
    | skip => exact ih m (by omega)
    | item a => exact (ih m (by omega)).bind_pure
    | last a => exact .pure [a]

/-- A repetition whose rounds stop at the end. -/
theorem collect_loose {round round' : Parse (Round α)} (h : Inside .loose r round round')
    (hend : Stops round) : Follows .loose r (Parse.collect round) (Parse.collect round') := by
  have hstays : ∀ n, Stays (collectAt round n) := by
    intro n p hp as q has
    cases n with
    | zero => cases has
    | succ n =>
      obtain ⟨c, m, hround, hrest⟩ := ok_of_bind has
      obtain ⟨rfl, hm⟩ := hend p hp c m hround
      cases hrest
      exact hm
  refine of_fuel fun n m hnm => ?_
  induction n generalizing m with
  | zero => exact .tooDeep
  | succ n ih =>
    obtain ⟨m, rfl⟩ : ∃ m', m = m' + 1 := ⟨m - 1, by omega⟩
    refine loose_of_inside (fun p p' hp hne as q has hq => ?_) (hstays (n + 1))
    obtain ⟨c, s, hround, hrest⟩ := ok_of_bind has
    -- At the end after this round, the rest of the repetition would stay there.
    have hs : s.kind ≠ .eof := by
      intro hs
      cases c with
      | stop => cases hrest; exact hq hs
      | skip => exact hq (hstays n s hs as q hrest)
      | item a =>
        obtain ⟨as', t, has', hpure⟩ := ok_of_bind hrest
        cases hpure
        exact hq (hstays n s hs as' _ has')
      | last a => cases hrest; exact hq hs
    obtain ⟨s', hround', hs'⟩ := h p p' hp hne c s hround hs
    rw [show collectAt round' (m + 1) p' = _ from bind_of_ok hround']
    cases c with
    | stop => exact Follows.pure (b := .loose) [] s s' hs' as q hrest hq
    | skip => exact ih m (by omega) s s' hs' as q hrest hq
    | item a => exact (ih m (by omega)).bind_pure s s' hs' as q hrest hq
    | last a => exact Follows.pure (b := .loose) [a] s s' hs' as q hrest hq

theorem extend {step step' : α → Parse (Option α)} (h : ∀ a, Follows .firm r (step a) (step' a))
    (a : α) : Follows .firm r (Parse.extend step a) (Parse.extend step' a) := by
  have hall : ∀ n m, n ≤ m → ∀ a,
      Follows .firm r (Parse.extendAt step n a) (Parse.extendAt step' m a) := by
    intro n
    induction n with
    | zero => exact fun _ _ _ => .tooDeep
    | succ n ih =>
      intro m hnm a
      obtain ⟨m, rfl⟩ : ∃ m', m = m' + 1 := ⟨m - 1, by omega⟩
      refine (h a).bind fun b? => ?_
      cases b? with
      | none => exact .pure a
      | some b => exact ih m (by omega) b
  exact of_fuel (z := fun n => Parse.extendAt step n a) (w := fun n => Parse.extendAt step' n a)
    fun n m hnm => hall n m hnm a

theorem commaSeparated {item item' : Parse α} (h : Follows .firm r item item') :
    Follows .firm r (Parse.commaSeparated item) (Parse.commaSeparated item') := by
  refine h.bind fun _ => bind (.collect (.eat rfl fun _ => .ite h.bind_pure (.pure _))) ?_
  exact fun _ => .pure _

end Follows

end Parse

end ClassLang
