import ClassLang.Parse.Basic
import Mathlib.Order.Basic
import Mathlib.Data.Nat.Basic

/-!
# Progress of parsing actions

A parser moves through tokens that stand in order and end with a marker. It never goes back: `Leads`
relates two of its states when the second is reached from the first, and `Passes` when a token was
consumed on the way. `Ends` says what an action does from one state, a failure being noticed at or
behind a given offset and never for lack of fuel. Two forms of it carry all proofs about readers: an
action that consumes a token `Reads`, and one that may follow a consumed token stays `Within`. The
number in both bounds the tokens ahead, as fuel does.
-/

namespace ClassLang

/-- Tokens in order, with an end marker at an offset. -/
inductive Ordered (stop : Nat) : List Token → Prop
  | eof {t : Token} (hkind : t.kind = .eof) (hstart : t.span.start = stop) : Ordered stop [t]
  | cons {t u : Token} {ts : List Token} (hkind : t.kind ≠ .eof)
    (hstart : t.span.start < u.span.start)
    /- The second half of a split token still stands before the next one. -/
    (hsplit : t.kind = Mark.shiftRight → t.span.start + 1 < u.span.start)
    (h : Ordered stop (u :: ts)) : Ordered stop (t :: u :: ts)

namespace Parser

variable {stop : Nat} {o p q r : Parser}

def Ordered (stop : Nat) (p : Parser) : Prop := ClassLang.Ordered stop (p.current :: p.rest)

/-- Where the current token starts. -/
def offset (p : Parser) : Nat := p.current.span.start

theorem Ordered.rest_eq_nil_iff (h : p.Ordered stop) : p.rest = [] ↔ p.kind = .eof := by
  obtain ⟨current, rest, errors, templates⟩ := p
  cases h with
  | eof hkind => exact ⟨fun _ => hkind, fun _ => rfl⟩
  | cons hkind => exact ⟨nofun, fun heof => absurd heof hkind⟩

theorem Ordered.offset_le (h : p.Ordered stop) : p.offset ≤ stop := by
  have hall : ∀ {ts : List Token}, ClassLang.Ordered stop ts → ∀ t ∈ ts.head?, t.span.start ≤ stop := by
    intro ts h
    induction h with
    | eof _ hstart => simp [hstart]
    | cons _ hstart _ _ ih =>
      intro t ht
      obtain rfl : _ = t := by simpa using ht
      exact (hstart.trans_le (ih _ rfl)).le
  exact hall h _ rfl

/-- The second state is reached from the first. -/
structure Leads (p q : Parser) : Prop where
  ordered : ∀ stop, p.Ordered stop → q.Ordered stop
  errors : q.errors = p.errors
  length_le : q.rest.length ≤ p.rest.length
  offset_le : p.offset ≤ q.offset
  offset_lt : q.rest.length < p.rest.length → p.offset < q.offset
  /-- Without consuming a token, all that can happen is that one is split. -/
  current : q.rest.length = p.rest.length → q.current = p.current ∨ q.kind = Mark.gt

/-- The second state is reached from the first, and at least one token was consumed. -/
def Passes (p q : Parser) : Prop := p.Leads q ∧ q.rest.length < p.rest.length

namespace Leads

theorem refl (p : Parser) : p.Leads p :=
  ⟨fun _ h => h, rfl, Nat.le_refl _, Nat.le_refl _, fun h => absurd h (Nat.lt_irrefl _),
    fun _ => .inl rfl⟩

theorem trans (h : p.Leads q) (h' : q.Leads r) : p.Leads r where
  ordered stop hp := h'.ordered stop (h.ordered stop hp)
  errors := h'.errors.trans h.errors
  length_le := h'.length_le.trans h.length_le
  offset_le := h.offset_le.trans h'.offset_le
  offset_lt hlt := by
    have hpq := h.offset_le
    have hqr := h'.offset_le
    rcases Nat.lt_or_ge q.rest.length p.rest.length with hlt' | hge
    · exact (h.offset_lt hlt').trans_le hqr
    · exact hpq.trans_lt (h'.offset_lt (by omega))
  current heq := by
    have hpq := h.length_le
    have hqr := h'.length_le
    rcases h'.current (by omega) with hr | hr
    · have hkind : r.kind = q.kind := congrArg Token.kind hr
      rw [hr, hkind]
      exact h.current (by omega)
    · exact .inr hr

theorem passes (h : p.Leads q) (h' : q.Passes r) : p.Passes r :=
  ⟨h.trans h'.1, h'.2.trans_le h.length_le⟩

end Leads

namespace Passes

theorem leads (h : p.Passes q) : p.Leads q := h.1

theorem trans (h : p.Passes q) (h' : q.Leads r) : p.Passes r :=
  ⟨h.1.trans h', h'.length_le.trans_lt h.2⟩

theorem offset_lt (h : p.Passes q) : p.offset < q.offset := h.1.offset_lt h.2

end Passes

theorem passes_advanced (h : p.Ordered stop) (hkind : p.kind ≠ .eof) : p.Passes p.advanced := by
  obtain ⟨current, rest, errors, templates⟩ := p
  cases rest with
  | nil => exact absurd (h.rest_eq_nil_iff.1 rfl) hkind
  | cons t ts =>
    have hnext : current.span.start < t.span.start := by
      cases h with
      | cons _ hstart => exact hstart
    refine ⟨⟨fun stop' h' => ?_, rfl, ?_, hnext.le, fun _ => hnext, fun heq => ?_⟩, ?_⟩
    · cases h' with
      | cons _ _ _ h' => exact h'
    · exact Nat.le_succ _
    · exact absurd heq (Nat.ne_of_lt (Nat.lt_succ_self _))
    · exact Nat.lt_succ_self _

/-- At the end marker advancing does nothing. -/
theorem leads_advanced (h : p.Ordered stop) : p.Leads p.advanced := by
  by_cases hkind : p.kind = .eof
  · have hrest := h.rest_eq_nil_iff.2 hkind
    have hsame : p.advanced = p := by
      unfold advanced
      rw [hrest]
    rw [hsame]
    exact .refl p
  · exact (passes_advanced h hkind).leads

/-- A failure with an error, noticed at or behind an offset and not behind the state it leaves. -/
structure Fails (o : Parser) (least : Nat) (e : ParseError) (q : Parser) : Prop where
  leads : o.Leads q
  least_le : least ≤ e.span.start
  le_offset : e.span.start ≤ q.offset
  cause : e.cause ≠ .tooDeep

end Parser

namespace Parse

variable {α β : Type} {stop n least : Nat} {o p q : Parser} {x : Parse α} {f : α → Parse β}
  {k : TokenKind}

/-- What an action does from a state `p` on the way from `o`: it gives a result, or it fails at or
behind `least`. -/
def Ends (o : Parser) (least : Nat) (x : Parse α) (p : Parser) (post : α → Parser → Prop) : Prop :=
  match x p with
  | .ok a q => post a q
  | .error e q => o.Fails least e q

namespace Ends

variable {post post' : α → Parser → Prop} {last : β → Parser → Prop}

theorem pure {a : α} (h : post a p) : Ends o least (Pure.pure a) p post := h

theorem bind (hx : Ends o least x p post) (hf : ∀ a q, post a q → Ends o least (f a) q last) :
    Ends o least (x >>= f) p last := by
  show match (EStateM.bind x f p) with
    | .ok b r => last b r
    | .error e r => o.Fails least e r
  unfold Ends at hx
  unfold EStateM.bind
  cases hp : x p with
  | ok a q =>
    rw [hp] at hx
    exact hf a q hx
  | error e q =>
    rw [hp] at hx
    exact hx

theorem map {g : α → β} (h : Ends o least x p fun a q => last (g a) q) :
    Ends o least (g <$> x) p last := by
  show match (EStateM.map g x p) with
    | .ok b r => last b r
    | .error e r => o.Fails least e r
  unfold Ends at h
  unfold EStateM.map
  cases hp : x p <;> rw [hp] at h <;> exact h

theorem mono (h : Ends o least x p post) (hpost : ∀ a q, post a q → post' a q) :
    Ends o least x p post' := by
  unfold Ends at h ⊢
  cases hp : x p with
  | ok a q =>
    rw [hp] at h
    exact hpost a q h
  | error e q =>
    rw [hp] at h
    exact h

/-- An action may be seen from further back. -/
theorem from_ {o' : Parser} {least' : Nat} (h : Ends o least x p post) (ho : o'.Leads o)
    (hleast : least' ≤ least) : Ends o' least' x p post := by
  unfold Ends at h ⊢
  cases hp : x p with
  | ok a q =>
    rw [hp] at h
    exact h
  | error e q =>
    rw [hp] at h
    exact ⟨ho.trans h.leads, hleast.trans h.least_le, h.le_offset, h.cause⟩

/-- A failure behind the first token is a failure. -/
theorem late (h : Ends o (o.offset + 1) x p post) : Ends o o.offset x p post :=
  h.from_ (.refl o) (Nat.le_succ _)

theorem ite {c : Prop} [Decidable c] {y : Parse α} (hx : c → Ends o least x p post)
    (hy : ¬ c → Ends o least y p post) : Ends o least (if c then x else y) p post := by
  split
  · exact hx ‹_›
  · exact hy ‹_›

/-- What follows an action that only looks. -/
theorem look {a : α} (hx : x p = .ok a p) (h : Ends o least (f a) p last) :
    Ends o least (x >>= f) p last := by
  have hfirst : Ends o least x p fun b q => a = b ∧ p = q := by
    unfold Ends
    rw [hx]
    exact ⟨rfl, rfl⟩
  refine hfirst.bind fun b q hq => ?_
  obtain ⟨rfl, rfl⟩ := hq
  exact h

theorem unexpected (ho : o.Leads p) (hleast : least ≤ p.offset) (expected : List TokenKind)
    (suggestion? : Option String) : Ends o least (Parse.unexpected expected suggestion?) p post :=
  ⟨ho, hleast, Nat.le_refl _, ParseError.Cause.noConfusion⟩

/-- Whether a token of a kind was consumed. -/
theorem eat (hp : p.Ordered stop) (hk : k ≠ .eof) :
    Ends o least (Parse.eat k) p fun b q => if b then p.Passes q else q = p := by
  unfold Ends Parse.eat
  by_cases hkind : p.kind == k
  · rw [if_pos hkind]
    exact Parser.passes_advanced hp fun heof => hk (by rw [← heof, eq_of_beq hkind])
  · rw [if_neg hkind]
    exact rfl

theorem expect (ho : o.Leads p) (hp : p.Ordered stop) (hleast : least ≤ p.offset) (hk : k ≠ .eof) :
    Ends o least (Parse.expect k) p fun _ q => p.Passes q := by
  unfold Ends Parse.expect
  by_cases hkind : p.kind == k
  · rw [if_pos hkind]
    exact Parser.passes_advanced hp fun heof => hk (by rw [← heof, eq_of_beq hkind])
  · rw [if_neg hkind]
    have hfails : Ends o least (Parse.unexpected [k] none) p fun (_ : Token) q => p.Passes q :=
      unexpected ho hleast [k] none
    exact hfails

end Ends

/-! ## After a consumed token -/

/-- An action that stays behind the tokens already consumed. Of the tokens ahead of the first of
these there are at most `n`. -/
def Within (n : Nat) (x : Parse α) : Prop :=
  ∀ stop o p, o.Ordered stop → o.rest.length ≤ n → o.Passes p →
    Ends o (o.offset + 1) x p fun _ q => o.Passes q

/-- An action that consumes a token, with fewer than `n` tokens ahead. -/
def Reads (n : Nat) (x : Parse α) : Prop :=
  ∀ stop o, o.Ordered stop → o.rest.length < n → Ends o o.offset x o fun _ q => o.Passes q

namespace Within

variable {y : Parse α}

theorem pure (a : α) : Within n (Pure.pure a) := fun _ _ _ _ _ hp => .pure hp

theorem bind (hx : Within n x) (hf : ∀ a, Within n (f a)) : Within n (x >>= f) :=
  fun stop o p ho hn hp => (hx stop o p ho hn hp).bind fun a q hq => hf a stop o q ho hn hq

theorem map {g : α → β} (hx : Within n x) : Within n (g <$> x) := by
  intro stop o p ho hn hp
  refine Ends.map ?_
  exact hx stop o p ho hn hp

theorem ite {c : Prop} [Decidable c] (hx : Within n x) (hy : Within n y) :
    Within n (if c then x else y) := by
  split <;> assumption

/-- An action that goes on may follow a consumed token. -/
theorem of_leads (h : ∀ stop o, o.Ordered stop → o.rest.length < n →
    Ends o o.offset x o fun _ q => o.Leads q) : Within n x := by
  intro stop o p ho hn hp
  have hread := h stop p (hp.leads.ordered stop ho) (hp.2.trans_le hn)
  exact (hread.from_ hp.leads hp.offset_lt).mono fun _ _ hq => hp.trans hq

theorem of_reads (h : Reads n x) : Within n x :=
  of_leads fun stop o ho hn => (h stop o ho hn).mono fun _ _ hq => hq.leads

/-- An action that goes on to a state further on and never fails. -/
theorem moving {g : Parser → α} {s : Parser → Parser} (h : ∀ p, x p = .ok (g p) (s p))
    (hs : ∀ stop (p : Parser), p.Ordered stop → p.Leads (s p)) : Within n x := by
  intro stop o p ho _ hp
  unfold Ends
  rw [h p]
  exact hp.trans (hs stop p (hp.leads.ordered stop ho))

theorem reading {g : Parser → α} (h : ∀ p, x p = .ok (g p) p) : Within n x :=
  moving h fun _ p _ => .refl p

theorem currentKind : Within n Parse.currentKind := reading fun _ => rfl

theorem check (k : TokenKind) : Within n (Parse.check k) := reading fun _ => rfl

theorem checkAny (ks : List TokenKind) : Within n (Parse.checkAny ks) := reading fun _ => rfl

theorem get : Within n (MonadState.get : Parse Parser) := reading fun _ => rfl

theorem advance : Within n Parse.advance :=
  moving (fun _ => rfl) fun _ _ => Parser.leads_advanced

theorem eat (hk : k ≠ .eof) : Within n (Parse.eat k) := by
  intro stop o p ho _ hp
  refine (Ends.eat (hp.leads.ordered stop ho) hk).mono fun b q hq => ?_
  cases b with
  | true => exact hp.trans (Parser.Passes.leads (by simpa using hq))
  | false =>
    obtain rfl : q = p := by simpa using hq
    exact hp

theorem unexpected (expected : List TokenKind) (suggestion? : Option String) :
    Within n (Parse.unexpected expected suggestion? : Parse α) :=
  fun _ _ _ _ _ hp => .unexpected hp.leads hp.offset_lt expected suggestion?

theorem registerTemplate (name : String) : Within n (Parse.registerTemplate name) :=
  moving (fun _ => rfl) fun _ _ _ =>
    ⟨fun _ h => h, rfl, Nat.le_refl _, Nat.le_refl _, fun h => absurd h (Nat.lt_irrefl _),
      fun _ => .inl rfl⟩

end Within

namespace Reads

theorem mono {m : Nat} (h : Reads m x) (hle : n ≤ m) : Reads n x :=
  fun stop o ho hn => h stop o ho (hn.trans_le hle)

theorem expect (hk : k ≠ .eof) : Reads n (Parse.expect k) :=
  fun _ o ho _ => .expect (.refl o) ho (Nat.le_refl _) hk

/-- What follows a consumed token only has to stay behind it. -/
theorem bind (hx : Reads (n + 1) x) (hf : ∀ a, Within n (f a)) : Reads (n + 1) (x >>= f) := by
  intro stop o ho hn
  refine (hx stop o ho hn).bind fun a q hq => ?_
  exact (hf a stop o q ho (Nat.le_of_lt_succ hn) hq).late

/-- What follows may also be given in a form that allows for one token more. -/
theorem followed (hx : Reads n x) (hf : ∀ a, Within n (f a)) : Reads n (x >>= f) := by
  intro stop o ho hn
  refine (hx stop o ho hn).bind fun a q hq => ?_
  exact (hf a stop o q ho hn.le hq).late

theorem map {g : α → β} (hx : Reads n x) : Reads n (g <$> x) := by
  intro stop o ho hn
  refine Ends.map ?_
  exact hx stop o ho hn

/-- An action with as much fuel as there are tokens. -/
theorem of_fuel {y : Nat → Parse α} (h : ∀ n, Reads n (y n)) :
    Reads n fun p => y p.fuel p :=
  fun stop o ho _ => h o.fuel stop o ho (Nat.lt_of_lt_of_le (Nat.lt_succ_self _) (Nat.le_succ _))

end Reads

theorem Within.expect (hk : k ≠ .eof) : Within n (Parse.expect k) := .of_reads (.expect hk)

theorem reads_ident : Reads (n + 1) ident :=
  (Reads.expect TokenKind.noConfusion).bind fun _ => .pure _

theorem within_ident : Within n ident := .of_reads (reads_ident.mono (Nat.le_succ n))

/-- The closing angle moves on, though it may leave half of a token. -/
theorem within_closingAngle : Within n closingAngle := by
  intro stop o p ho hn hp
  unfold Ends closingAngle
  by_cases hkind : p.kind == Mark.shiftRight
  · rw [if_pos hkind]
    refine hp.trans ?_
    have hordered := hp.leads.ordered stop ho
    have hshift : p.current.kind = Mark.shiftRight := eq_of_beq hkind
    obtain ⟨current, rest, errors, templates⟩ := p
    refine ⟨fun stop' h' => ?_, rfl, Nat.le_refl _, Nat.le_succ _,
      fun h => absurd h (Nat.lt_irrefl _), fun _ => .inr rfl⟩
    cases h' with
    | eof hkind' => exact absurd (hshift.symm.trans hkind') TokenKind.noConfusion
    | cons _ hstart hsplit h' =>
      exact .cons TokenKind.noConfusion (hsplit hshift) (fun h => nomatch h) h'
  · rw [if_neg hkind]
    exact Within.expect TokenKind.noConfusion stop o p ho hn hp

/-! ## Repetition -/

/-- Whether a repetition goes on after a round. -/
def Round.goesOn : Round α → Bool
  | .skip | .item _ => true
  | .stop | .last _ => false

/-- A round that consumes a token if the repetition goes on after it. -/
def Turns (n : Nat) (round : Parse (Round α)) : Prop :=
  ∀ stop o, o.Ordered stop → o.rest.length < n →
    Ends o o.offset round o fun r q => o.Leads q ∧ (r.goesOn → o.Passes q)

theorem Reads.turns {round : Parse (Round α)} (h : Reads n round) : Turns n round :=
  fun stop o ho hn => (h stop o ho hn).mono fun _ _ hq => ⟨hq.leads, fun _ => hq⟩

theorem Turns.collectAt {round : Parse (Round α)} (h : Turns n round) (fuel : Nat) :
    ∀ stop o, o.Ordered stop → o.rest.length < n → o.rest.length < fuel →
      Ends o o.offset (Parse.collectAt round fuel) o fun _ q => o.Leads q := by
  induction fuel with
  | zero => exact fun _ _ _ _ hfuel => absurd hfuel (Nat.not_lt_zero _)
  | succ fuel ih =>
    intro stop o ho hn hfuel
    have hmore : ∀ q, o.Passes q →
        Ends o o.offset (Parse.collectAt round fuel) q fun _ r => o.Leads r := by
      intro q hq
      have hrest := ih stop q (hq.leads.ordered stop ho) (hq.2.trans hn)
        (Nat.lt_of_lt_of_le hq.2 (Nat.le_of_lt_succ hfuel))
      exact (hrest.from_ hq.leads hq.leads.offset_le).mono fun _ _ hr => hq.leads.trans hr
    rw [Parse.collectAt]
    refine (h stop o ho hn).bind fun r q ⟨hleads, hpasses⟩ => ?_
    cases r with
    | stop => exact .pure hleads
    | skip => exact hmore q (hpasses rfl)
    | item a => exact (hmore q (hpasses rfl)).bind fun _ _ hr => .pure hr
    | last a => exact .pure hleads

theorem Turns.collect {round : Parse (Round α)} (h : Turns n round) (ho : o.Ordered stop)
    (hn : o.rest.length < n) : Ends o o.offset (Parse.collect round) o fun _ q => o.Leads q :=
  h.collectAt o.fuel stop o ho hn (Nat.lt_of_lt_of_le (Nat.lt_succ_self _) (Nat.le_succ _))

/-- A step that consumes a token if it adds something. -/
def Grows (n : Nat) (step : α → Parse (Option α)) : Prop :=
  ∀ a stop o, o.Ordered stop → o.rest.length < n →
    Ends o o.offset (step a) o fun b? q => o.Leads q ∧ (b?.isSome → o.Passes q)

theorem Grows.extendAt {step : α → Parse (Option α)} (h : Grows n step) (fuel : Nat) :
    ∀ a stop o, o.Ordered stop → o.rest.length < n → o.rest.length < fuel →
      Ends o o.offset (Parse.extendAt step fuel a) o fun _ q => o.Leads q := by
  induction fuel with
  | zero => exact fun _ _ _ _ _ hfuel => absurd hfuel (Nat.not_lt_zero _)
  | succ fuel ih =>
    intro a stop o ho hn hfuel
    rw [Parse.extendAt]
    refine (h a stop o ho hn).bind fun b? q ⟨hleads, hpasses⟩ => ?_
    cases b? with
    | none => exact .pure hleads
    | some b =>
      have hq := hpasses rfl
      have hrest := ih b stop q (hleads.ordered stop ho) (hq.2.trans hn)
        (Nat.lt_of_lt_of_le hq.2 (Nat.le_of_lt_succ hfuel))
      exact (hrest.from_ hleads hleads.offset_le).mono fun _ _ hr => hleads.trans hr

theorem Grows.extend {step : α → Parse (Option α)} (h : Grows n step) (a : α)
    (ho : o.Ordered stop) (hn : o.rest.length < n) :
    Ends o o.offset (Parse.extend step a) o fun _ q => o.Leads q :=
  h.extendAt o.fuel a stop o ho hn (Nat.lt_of_lt_of_le (Nat.lt_succ_self _) (Nat.le_succ _))

namespace Within

theorem collect {round : Parse (Round α)} (h : Turns n round) : Within n (Parse.collect round) :=
  of_leads fun _ _ ho hn => h.collect ho hn

theorem extend {step : α → Parse (Option α)} (h : Grows n step) (a : α) :
    Within n (Parse.extend step a) :=
  of_leads fun _ _ ho hn => h.extend a ho hn

end Within

end Parse

end ClassLang
