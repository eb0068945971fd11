import ClassLang.Proofs.Parsing.Statements
import ClassLang.Proofs.Tokens.Segmentation

/-!
# Reading a whole program

A program is read in rounds: one skips a semicolon, reads a statement, or records an error and moves
on to where a statement may start. Every round moves on to a later offset, so the end of the text is
reached. Errors come in order because a round cannot fail at a place where one before it failed:
recovery either leaves that place or stops at a keyword, which the next round consumes before it can
fail.
-/

namespace ClassLang

open String (utf8Len)

/-! ## The tokens of a text -/

theorem Munch.eq_shiftRight {text rest : List Char} (h : Munch Mark.shiftRight text rest) :
    text = ['>', '>'] := by
  rcases h with ⟨rule, hmatch, hkind, -⟩ | ⟨hkind, -⟩
  · cases hmatch with
    | mark m =>
      obtain rfl : Mark.shiftRight = m := TokenKind.mark.inj hkind
      decide
    | word =>
      simp only [TokenRule.kind, TokenKind.ofWord] at hkind
      split at hkind <;> cases hkind
    | int | float => cases hkind
    | closed d | unclosed d | dangling d => cases d <;> cases hkind
  · cases hkind

theorem Cut.ordered {front text : List Char} {ts : List Token} (h : Cut front text ts) :
    Ordered (utf8Len (front ++ text)) ts := by
  induction h with
  | eof _ hcovers hkind => exact .eof hkind hcovers.start
  | @token front trivia text rest t ts _ _ hcovers hmunch _ hcut ih =>
    rw [show front ++ trivia ++ text ++ rest = front ++ (trivia ++ (text ++ rest)) by simp] at ih
    cases ts with
    | nil => cases ih
    | cons u us =>
      have hnext := hcut.le_start u List.mem_cons_self
      have htext := mt String.utf8Len_eq_zero.1 hmunch.ne_nil
      rw [String.utf8Len_append, ← hcovers.start] at hnext
      refine .cons hmunch.kind_ne_eof (by omega) (fun hshift => ?_) ih
      rw [hshift] at hmunch
      have htwo : utf8Len text = 2 := by rw [hmunch.eq_shiftRight]; decide
      omega

namespace Parser

variable {stop : Nat} {p q : Parser} {e : ParseError}

theorem ordered_ofSource (source : String) : (ofSource source).Ordered source.utf8ByteSize := by
  have hordered := (cut_tokenize source).ordered
  rw [List.nil_append, String.utf8Len_toList] at hordered
  unfold Parser.Ordered ofSource
  cases htokens : tokenize source with
  | nil =>
    rw [htokens] at hordered
    cases hordered
  | cons t ts =>
    rw [htokens] at hordered
    exact hordered

/-! ## Recovery -/

/-- Recovery stays only where it stops: at the end, or at a keyword. -/
theorem syncAt_cases (fuel : Nat) : ∀ p : Parser, p.Ordered stop → p.rest.length < fuel →
    p.Passes (syncAt fuel p) ∨
      (syncAt fuel p = p ∧ (p.atEof || statementStart.contains p.kind)) := by
  induction fuel with
  | zero => exact fun p _ hfuel => absurd hfuel (Nat.not_lt_zero _)
  | succ fuel ih =>
    intro p hp hfuel
    rw [syncAt]
    by_cases heof : p.atEof
    · rw [if_pos heof]
      exact .inr ⟨rfl, by rw [heof, Bool.true_or]⟩
    rw [if_neg heof]
    have hpasses : p.Passes p.advanced := passes_advanced hp fun h => heof (by simp [atEof, h])
    by_cases hsemi : p.kind == Mark.semicolon
    · rw [if_pos hsemi]
      exact .inl hpasses
    rw [if_neg hsemi]
    by_cases hstart : statementStart.contains p.kind
    · rw [if_pos hstart]
      exact .inr ⟨rfl, by rw [hstart, Bool.or_true]⟩
    rw [if_neg hstart]
    have hrest := ih p.advanced (hpasses.leads.ordered stop hp)
      (Nat.lt_of_lt_of_le hpasses.2 (Nat.le_of_lt_succ hfuel))
    rcases hrest with hfurther | ⟨hsame, -⟩
    · exact .inl (hpasses.trans hfurther.leads)
    · rw [hsame]
      exact .inl hpasses

/-- Errors in front of this offset are all that rounds before this state can have met. -/
def horizon (p : Parser) : Nat := p.offset + (p.atEof || statementStart.contains p.kind).toNat

theorem offset_le_horizon (p : Parser) : p.offset ≤ p.horizon := Nat.le_add_right _ _

theorem horizon_le (p : Parser) : p.horizon ≤ p.offset + 1 :=
  Nat.add_le_add_left (Bool.toNat_le _) _

theorem Passes.horizon_le (h : p.Passes q) : p.horizon ≤ q.horizon :=
  p.horizon_le.trans ((Nat.succ_le_of_lt h.offset_lt).trans q.offset_le_horizon)

/-- Reading goes on from a later state, with one more error behind it. -/
structure Resumes (p : Parser) (e : ParseError) (q : Parser) : Prop where
  ordered : ∀ stop, p.Ordered stop → q.Ordered stop
  errors : q.errors = p.errors ++ [e]
  length_lt : q.rest.length < p.rest.length
  offset_lt : p.offset < q.offset
  error_lt : e.span.start < q.horizon

theorem resumes_recovered (hp : p.Ordered stop) (heof : ¬ p.atEof) {least : Nat}
    (h : p.Fails least e q) : p.Resumes e (recovered p e q) := by
  have hle := h.leads.offset_le
  have herror := h.le_offset
  have hq := h.leads.ordered stop hp
  let recorded : Parser := { q with errors := q.errors ++ [e] }
  have hrecorded : recorded.errors = p.errors ++ [e] := by rw [← h.leads.errors]
  have hordered : ∀ stop, p.Ordered stop → recorded.Ordered stop := h.leads.ordered
  have hsync : recorded.Passes recorded.synced ∨ (recorded.synced = recorded ∧
      (recorded.atEof || statementStart.contains recorded.kind)) :=
    syncAt_cases _ recorded hq (Nat.lt_of_lt_of_le (Nat.lt_succ_self _) (Nat.le_succ _))
  -- a state behind the failure is a state to go on from
  have hbehind : ∀ r, recorded.Passes r → p.Resumes e r := fun r hr =>
    ⟨fun stop hp => hr.leads.ordered stop (hordered stop hp), hr.leads.errors.trans hrecorded,
      hr.2.trans_le h.leads.length_le, hle.trans_lt hr.offset_lt,
      (herror.trans_lt hr.offset_lt).trans_le r.offset_le_horizon⟩
  have hrecovered : recovered p e q =
      if recorded.synced.offset == p.offset && !recorded.synced.atEof then recorded.synced.advanced
      else recorded.synced := rfl
  rw [hrecovered]
  rcases hsync with hpasses | ⟨hsame, hstop⟩
  · have hne : recorded.synced.offset ≠ p.offset :=
      Nat.ne_of_gt (hle.trans_lt hpasses.offset_lt)
    rw [if_neg (by simp [hne])]
    exact hbehind _ hpasses
  rw [hsame]
  by_cases hstuck : recorded.offset == p.offset && !recorded.atEof
  · -- the keyword at which the failed statement started is skipped
    rw [if_pos hstuck]
    refine hbehind _ (passes_advanced hq fun h => ?_)
    simp [atEof, h] at hstuck
  rw [if_neg hstuck]
  have hpasses : q.rest.length < p.rest.length := by
    by_contra hlen
    have hlen : q.rest.length = p.rest.length := Nat.le_antisymm h.leads.length_le (Nat.not_lt.1 hlen)
    rcases h.leads.current hlen with hcurrent | hgt
    · have hkind : recorded.kind = p.kind := congrArg Token.kind hcurrent
      have hoffset : recorded.offset = p.offset := congrArg (·.span.start) hcurrent
      simp [hoffset, atEof, hkind] at hstuck heof
      exact heof hstuck
    · have hkind : recorded.kind = Mark.gt := hgt
      simp [atEof, hkind, statementStart] at hstop
  refine ⟨hordered, hrecorded, hpasses, h.leads.offset_lt hpasses, ?_⟩
  unfold horizon
  rw [hstop]
  exact Nat.lt_succ_of_le herror

/-! ## Rounds -/

/-- One round of reading a program: a skipped semicolon, a statement, or a statement that fails and
is recovered from. -/
def round (p : Parser) : Option Stmt × Parser :=
  if p.kind == Mark.semicolon then (none, p.advanced)
  else match Parse.statement p with
    | .ok s q => (some s, q)
    | .error e q => (none, recovered p e q)

/-- The state after some rounds. -/
def afterRounds : Nat → Parser → Parser
  | 0, p => p
  | n + 1, p => afterRounds n p.round.2

/-- What holds between rounds. -/
structure Steady (stop : Nat) (p : Parser) : Prop where
  ordered : p.Ordered stop
  increasing : p.errors.Pairwise fun e f => e.span.start < f.span.start
  error_lt : ∀ e ∈ p.errors, e.span.start < p.horizon
  cause : ∀ e ∈ p.errors, e.cause ≠ .tooDeep

theorem Steady.passes (hp : p.Steady stop) (h : p.Passes q) : q.Steady stop where
  ordered := h.leads.ordered stop hp.ordered
  increasing := by
    rw [h.leads.errors]
    exact hp.increasing
  error_lt e he := by
    rw [h.leads.errors] at he
    exact (hp.error_lt e he).trans_le h.horizon_le
  cause := by
    rw [h.leads.errors]
    exact hp.cause

/-- An error at or behind the horizon comes after those before it. -/
theorem Steady.resumes (hp : p.Steady stop) (hle : p.horizon ≤ e.span.start)
    (hcause : e.cause ≠ .tooDeep) (h : p.Resumes e q) : q.Steady stop where
  ordered := h.ordered stop hp.ordered
  increasing := by
    rw [h.errors]
    refine List.pairwise_append.2 ⟨hp.increasing, List.pairwise_singleton .., fun f hf e' he' => ?_⟩
    obtain rfl := List.mem_singleton.1 he'
    exact (hp.error_lt f hf).trans_le hle
  error_lt f hf := by
    rw [h.errors] at hf
    rcases List.mem_append.1 hf with hf | hf
    · exact ((hp.error_lt f hf).trans_le hle).trans h.error_lt
    · obtain rfl := List.mem_singleton.1 hf
      exact h.error_lt
  cause f hf := by
    rw [h.errors] at hf
    rcases List.mem_append.1 hf with hf | hf
    · exact hp.cause f hf
    · obtain rfl := List.mem_singleton.1 hf
      exact hcause

/-- A round consumes tokens, or it resumes behind a failure that is noticed at or behind the
horizon. -/
theorem round_cases (hp : p.Ordered stop) (heof : ¬ p.atEof) :
    p.Passes p.round.2 ∨
      ∃ e, p.horizon ≤ e.span.start ∧ e.cause ≠ .tooDeep ∧ p.Resumes e p.round.2 := by
  unfold Parser.round
  by_cases hsemi : p.kind == Mark.semicolon
  · rw [if_pos hsemi]
    exact .inl (passes_advanced hp fun h => heof (by simp [atEof, h]))
  rw [if_neg hsemi]
  have hstatement := Parse.ends_statement hp
  unfold Parse.Ends at hstatement
  cases hresult : Parse.statement p with
  | ok s q =>
    rw [hresult] at hstatement
    exact .inl hstatement
  | error e q =>
    rw [hresult] at hstatement
    have hhorizon : p.horizon ≤ e.span.start := by
      have := hstatement.least_le
      unfold horizon
      rwa [Bool.eq_false_iff.2 heof, Bool.false_or]
    exact .inr ⟨e, hhorizon, hstatement.cause, resumes_recovered hp heof hstatement⟩

/-- Each round moves on. -/
theorem Steady.round (hp : p.Steady stop) (heof : ¬ p.atEof) :
    p.round.2.Steady stop ∧ p.offset < p.round.2.offset ∧
      p.round.2.rest.length < p.rest.length := by
  rcases round_cases hp.ordered heof with hpasses | ⟨e, hhorizon, hcause, hresumes⟩
  · exact ⟨hp.passes hpasses, hpasses.offset_lt, hpasses.2⟩
  · exact ⟨hp.resumes hhorizon hcause hresumes, hresumes.offset_lt, hresumes.length_lt⟩

/-- A round, in terms of the loop. -/
theorem statementsAt_succ (fuel : Nat) (heof : ¬ p.atEof) :
    statementsAt (fuel + 1) p =
      (p.round.1.toList ++ (statementsAt fuel p.round.2).1, (statementsAt fuel p.round.2).2) := by
  rw [statementsAt, if_neg heof]
  unfold Parser.round
  split
  · rfl
  · cases Parse.statement p <;> rfl

/-- The loop ends after some rounds. -/
structure Completes (p : Parser) (n : Nat) (stmts : List Stmt) (q : Parser) : Prop where
  /-- Each round moves on to a later offset. -/
  progress : ∀ k < n, ¬ (p.afterRounds k).atEof ∧
    (p.afterRounds k).offset < (p.afterRounds (k + 1)).offset
  /-- The rounds end at the end of the text. -/
  atEof : (p.afterRounds n).atEof
  /-- What is read is what the rounds read. -/
  stmts_eq : stmts = (List.range n).filterMap fun k => (p.afterRounds k).round.1
  state_eq : q = p.afterRounds n

theorem Steady.completes (fuel : Nat) : ∀ {p : Parser}, p.Steady stop → p.rest.length < fuel →
    ∃ n, p.offset + n ≤ stop ∧ (p.afterRounds n).Steady stop ∧
      p.Completes n (statementsAt fuel p).1 (statementsAt fuel p).2 := by
  induction fuel with
  | zero => exact fun _ hfuel => absurd hfuel (Nat.not_lt_zero _)
  | succ fuel ih =>
    intro p hp hfuel
    by_cases heof : p.atEof
    · rw [statementsAt, if_pos heof]
      exact ⟨0, hp.ordered.offset_le, hp, fun k hk => absurd hk (Nat.not_lt_zero k), heof, rfl, rfl⟩
    obtain ⟨hnext, hoffset, hlength⟩ := hp.round heof
    obtain ⟨n, hn, hsteady, hcompletes⟩ := ih hnext
      (Nat.lt_of_lt_of_le hlength (Nat.le_of_lt_succ hfuel))
    rw [statementsAt_succ fuel heof]
    refine ⟨n + 1, by omega, hsteady, fun k hk => ?_, hcompletes.atEof, ?_, hcompletes.state_eq⟩
    · cases k with
      | zero => exact ⟨heof, hoffset⟩
      | succ k => exact hcompletes.progress k (Nat.lt_of_succ_lt_succ hk)
    · rw [hcompletes.stmts_eq, List.range_succ_eq_map, List.filterMap_cons, List.filterMap_map]
      cases hround : p.round.1 <;> simp [afterRounds, hround, Function.comp_def]

end Parser

/-- Of errors in order at most one is at a given offset. -/
theorem length_filter_le_one {errors : List ParseError} (offset : Nat)
    (h : errors.Pairwise fun e f => e.span.start < f.span.start) :
    (errors.filter (·.span.start == offset)).length ≤ 1 := by
  have hfiltered := h.filter (·.span.start == offset)
  match hall : errors.filter (·.span.start == offset) with
  | [] | [_] => simp [hall]
  | e :: f :: rest =>
    rw [hall] at hfiltered
    have hat : ∀ g ∈ e :: f :: rest, g.span.start = offset := fun g hg => by
      rw [← hall] at hg
      simpa using (List.mem_filter.1 hg).2
    have hlt := (List.pairwise_cons.1 hfiltered).1 f List.mem_cons_self
    rw [hat e (by simp), hat f (by simp)] at hlt
    exact absurd hlt (Nat.lt_irrefl _)

/-- Reading a source ends, and its errors are in order. -/
structure Orderly (source : String) : Prop where
  /-- There are no more rounds than the source has bytes. -/
  completes : ∃ n ≤ source.utf8ByteSize, ∃ q : Parser,
    (Parser.ofSource source).Completes n (parse source).1.stmts q ∧ (parse source).2 = q.errors
  increasing : (parse source).2.Pairwise fun e f => e.span.start < f.span.start
  inside : ∀ e ∈ (parse source).2, e.span.start ≤ source.utf8ByteSize
  atEnd : ((parse source).2.filter (·.span.start == source.utf8ByteSize)).length ≤ 1
  /-- Neither nesting nor repetition is ever cut short. -/
  cause : ∀ e ∈ (parse source).2, e.cause ≠ .tooDeep

/-- Every source is read up to its end, each round moving on, with its errors in order. -/
theorem orderly_parse (source : String) : Orderly source := by
  have hsteady : (Parser.ofSource source).Steady source.utf8ByteSize := by
    have herrors : (Parser.ofSource source).errors = [] := by
      unfold Parser.ofSource Parser.ofTokens
      split <;> rfl
    refine ⟨Parser.ordered_ofSource source, ?_, ?_, ?_⟩ <;> simp [herrors]
  obtain ⟨n, hn, hend, hcompletes⟩ := hsteady.completes (Parser.ofSource source).fuel
    (Nat.lt_of_lt_of_le (Nat.lt_succ_self _) (Nat.le_succ _))
  have herrors : (parse source).2 = ((Parser.ofSource source).afterRounds n).errors :=
    congrArg Parser.errors hcompletes.state_eq
  have hincreasing : (parse source).2.Pairwise fun e f => e.span.start < f.span.start := by
    rw [herrors]
    exact hend.increasing
  refine ⟨⟨n, (Nat.le_add_left _ _).trans hn, _, hcompletes, rfl⟩, hincreasing, fun e he => ?_,
    length_filter_le_one _ hincreasing, fun e he => ?_⟩
  · rw [herrors] at he
    have hlt := hend.error_lt e he
    have hle := ((Parser.ofSource source).afterRounds n).horizon_le
    have hoffset := hend.ordered.offset_le
    omega
  · rw [herrors] at he
    exact hend.cause e he

end ClassLang
