import ClassLang.Parse.Program
import ClassLang.Proofs.Parsing.Progress

/-!
# Readers consume

Every reader of types, expressions, statements and declarations consumes a token, and whatever it
reads inside of itself comes after that token. So with `n` tokens ahead the parts see fewer than `n`,
and as much fuel as there are tokens is enough for any nesting.
-/

namespace ClassLang.Parse

variable {α β : Type} {stop n : Nat} {o : Parser} {x : Parse α} {k : TokenKind}

/-- An action that expects a token of a kind and stays behind it. -/
def Opens (n : Nat) (k : TokenKind) (x : Parse α) : Prop :=
  k ≠ .eof ∧ ∃ f : Token → Parse α, x = (expect k >>= f) ∧ ∀ t, Within n (f t)

theorem Opens.reads (h : Opens n k x) : Reads (n + 1) x := by
  obtain ⟨hk, f, rfl, hf⟩ := h
  exact (Reads.expect hk).bind hf

theorem Opens.within (h : Opens n k x) : Within n x := .of_reads (h.reads.mono (Nat.le_succ n))

/-- Where the expected token stands, a failure is noticed behind it. -/
theorem Opens.ends (h : Opens n k x) (ho : o.Ordered stop) (hn : o.rest.length ≤ n)
    (hkind : o.kind = k) : Ends o (o.offset + 1) x o fun _ q => o.Passes q := by
  obtain ⟨hk, f, rfl, hf⟩ := h
  have hexpect : expect k o = .ok o.current o.advanced := by
    unfold expect
    rw [if_pos (by simp [hkind])]
  have hpasses := Parser.passes_advanced ho (hkind ▸ hk)
  have hfirst : Ends o (o.offset + 1) (expect k) o fun _ q => o.Passes q := by
    unfold Ends
    rw [hexpect]
    exact hpasses
  exact hfirst.bind fun t q hq => hf t stop o q ho hn hq

/-- A token that is known not to be the end marker, and what stays behind it. -/
theorem Ends.advance {f : Token → Parse α} (ho : o.Ordered stop) (hn : o.rest.length ≤ n)
    (hkind : o.kind = k) (hk : k ≠ .eof) (hf : ∀ t, Within n (f t)) :
    Ends o (o.offset + 1) (Parse.advance >>= f) o fun _ q => o.Passes q := by
  have hfirst : Ends o (o.offset + 1) Parse.advance o fun _ q => o.Passes q :=
    Parser.passes_advanced ho (hkind ▸ hk)
  exact hfirst.bind fun t q hq => hf t stop o q ho hn hq

theorem Within.optional {part : Parse α} (h : Within n part) (present : Bool) :
    Within n (Parse.optional present part) :=
  .ite (h.bind fun _ => .pure _) (.pure _)

/-! ## Rounds -/

namespace Turns

variable {round rest : Parse (Round α)}

/-- A round that ends the repetition at certain tokens. -/
theorem stopAt {test : Parse Bool} (htest : ∀ p, ∃ b, test p = .ok b p) (h : Turns n rest) :
    Turns n (do if ← test then return .stop else rest) := by
  intro stop o ho hn
  obtain ⟨b, hb⟩ := htest o
  refine .look hb (.ite (fun _ => ?_) fun _ => h stop o ho hn)
  exact .pure ⟨.refl o, fun h => nomatch h⟩

/-- A round that skips a token of a kind. -/
theorem skip (hk : k ≠ .eof) (h : Turns n rest) :
    Turns n (do if ← eat k then return .skip else rest) := by
  intro stop o ho hn
  refine (Ends.eat ho hk).bind fun b q hq => ?_
  cases b with
  | true =>
    have hq : o.Passes q := by simpa using hq
    exact .pure ⟨hq.leads, fun _ => hq⟩
  | false =>
    obtain rfl : q = o := by simpa using hq
    exact h stop q ho hn

theorem check (k : TokenKind) (h : Turns n rest) :
    Turns n (do if ← Parse.check k then return .stop else rest) :=
  stopAt (fun _ => ⟨_, rfl⟩) h

theorem checkAny (ks : List TokenKind) (h : Turns n rest) :
    Turns n (do if ← Parse.checkAny ks then return .stop else rest) :=
  stopAt (fun _ => ⟨_, rfl⟩) h

/-- A round that goes on behind a token of a kind, and ends the repetition otherwise. -/
theorem after {next : Parse (Round α)} (hk : k ≠ .eof) (h : Within n next) :
    Turns n (do if ← eat k then next else return .stop) := by
  intro stop o ho hn
  refine (Ends.eat ho hk).bind fun b q hq => ?_
  cases b with
  | true =>
    have hq : o.Passes q := by simpa using hq
    refine (h stop o q ho hn.le hq).late.mono fun _ r hr => ?_
    exact ⟨hr.leads, fun _ => hr⟩
  | false =>
    obtain rfl : q = o := by simpa using hq
    exact .pure ⟨.refl q, fun h => nomatch h⟩

end Turns

theorem Within.commaSeparated {item : Parse α} (h : Within n item) :
    Within n (Parse.commaSeparated item) :=
  h.bind fun _ => (Within.collect (.after TokenKind.noConfusion (h.bind fun _ => .pure _))).bind
    fun _ => .pure _

/-! ## Types -/

section

variable {type : Parse TypeExpr}

theorem within_typeArguments (h : Within n type) : Within n (typeArguments type) :=
  h.commaSeparated.bind fun _ => within_closingAngle.bind fun _ => .pure _

theorem reads_namedType (h : Within n type) : Reads (n + 1) (namedType type) :=
  reads_ident.bind fun _ => (Within.eat TokenKind.noConfusion).bind fun _ =>
    .ite ((within_typeArguments h).bind fun _ => .pure _) (.pure _)

theorem reads_typeStep (h : Reads n type) : Reads (n + 1) (typeStep type) := by
  intro stop o ho hn
  have hle := Nat.le_of_lt_succ hn
  have htype : Within n type := .of_reads h
  refine .look rfl ?_
  refine .look rfl ?_
  split
  next hkind =>
    refine (Ends.advance ho hle hkind TokenKind.noConfusion fun _ => ?_).late
    exact (Within.expect TokenKind.noConfusion).bind fun _ => htype.bind fun _ => .pure _
  next hkind =>
    refine (Ends.advance ho hle hkind TokenKind.noConfusion fun _ => ?_).late
    exact (Within.expect TokenKind.noConfusion).bind fun _ => htype.bind fun _ =>
      (Within.expect TokenKind.noConfusion).bind fun _ => htype.bind fun _ => .pure _
  next hkind =>
    refine (Ends.advance ho hle hkind TokenKind.noConfusion fun _ => ?_).late
    exact htype.bind fun _ => .pure _
  next => exact reads_namedType htype stop o ho hn
  next => exact .unexpected (.refl o) (Nat.le_refl _) typeStart none

theorem reads_typeAt (fuel : Nat) : Reads fuel (typeAt fuel) := by
  induction fuel with
  | zero => exact fun _ _ _ hn => absurd hn (Nat.not_lt_zero _)
  | succ fuel ih => exact reads_typeStep ih

theorem reads_type : Reads n Parse.type := .of_fuel reads_typeAt

theorem within_type : Within n Parse.type := .of_reads reads_type

end

theorem within_optionalType : Within n optionalType :=
  (Within.checkAny _).bind fun _ => within_type.optional _

theorem reads_parameter : Reads (n + 1) parameter :=
  reads_ident.bind fun _ => within_optionalType.bind fun _ => .pure _

theorem opens_parameters : Opens n Mark.lParen parameters := by
  have hround : Reads n (do
      let p ← parameter
      if ← eat Mark.comma then return Round.item p else return Round.last p) :=
    (reads_parameter.mono (Nat.le_succ n)).followed fun _ =>
      (Within.eat TokenKind.noConfusion).bind fun _ => .ite (.pure _) (.pure _)
  exact ⟨TokenKind.noConfusion, _, rfl, fun _ => (Within.collect (.check _ hround.turns)).bind fun _ =>
    (Within.expect TokenKind.noConfusion).bind fun _ => .pure _⟩

/-! ## Expressions -/

theorem opens_blockOf {stmt : Parse Stmt} (h : Reads n stmt) : Opens n Mark.lBrace (blockOf stmt) := by
  have hround : Reads n (do return Round.item (← stmt)) := h.followed fun _ => .pure _
  refine ⟨TokenKind.noConfusion, _, rfl, fun _ => ?_⟩
  refine (Within.collect (.checkAny _ (.skip TokenKind.noConfusion hround.turns))).bind fun _ => ?_
  exact (Within.expect TokenKind.noConfusion).bind fun _ => .pure _

section

variable {expr : Precedence → Parse Expr} {stmt : Parse Stmt} (hexpr : ∀ least, Reads n (expr least))
  (hstmt : Reads n stmt)

include hexpr

theorem within_expr (least : Precedence) : Within n (expr least) := .of_reads (hexpr least)

theorem within_expressionListOf (stop : TokenKind) : Within n (expressionListOf expr stop) := by
  have hnext : Within n (do
      if ← check stop then return Round.stop
      return Round.item (← expr .lowest)) :=
    (Within.check _).bind fun _ => .ite (.pure _) ((within_expr hexpr _).bind fun _ => .pure _)
  refine (Within.check _).bind fun _ => .ite (.pure _) ?_
  refine (within_expr hexpr _).bind fun _ => ?_
  exact (Within.collect (.after TokenKind.noConfusion hnext)).bind fun _ => .pure _

theorem opens_groupedExpr : Opens n Mark.lParen (groupedExpr expr) :=
  ⟨TokenKind.noConfusion, _, rfl, fun _ => (within_expr hexpr _).bind fun _ =>
    (Within.expect TokenKind.noConfusion).bind fun _ => .pure _⟩

theorem opens_arrayExpr : Opens n Mark.lBracket (arrayExpr expr) :=
  ⟨TokenKind.noConfusion, _, rfl, fun _ => (within_expressionListOf hexpr _).bind fun _ =>
    (Within.expect TokenKind.noConfusion).bind fun _ => .pure _⟩

theorem opens_hashExpr : Opens n Mark.lBrace (hashExpr expr) := by
  have hround : Reads n (do
      let key ← expr .lowest
      let _ ← expect Mark.colon
      let value ← expr .lowest
      if ← eat Mark.comma then return Round.item (⟨key, value⟩ : Entry)
      else return Round.last ⟨key, value⟩) :=
    (hexpr _).followed fun _ => (Within.expect TokenKind.noConfusion).bind fun _ =>
      (within_expr hexpr _).bind fun _ => (Within.eat TokenKind.noConfusion).bind fun _ =>
        .ite (.pure _) (.pure _)
  exact ⟨TokenKind.noConfusion, _, rfl, fun _ => (Within.collect (.check _ hround.turns)).bind fun _ =>
    (Within.expect TokenKind.noConfusion).bind fun _ => .pure _⟩

theorem opens_newExpr : Opens n Keyword.newKw (newExpr expr) := by
  refine ⟨TokenKind.noConfusion, _, rfl, fun _ => ?_⟩
  refine .bind (.of_reads ((reads_namedType within_type).mono (Nat.le_succ n))) fun _ => ?_
  exact (Within.expect TokenKind.noConfusion).bind fun _ => (within_expressionListOf hexpr _).bind
    fun _ => (Within.expect TokenKind.noConfusion).bind fun _ => .pure _

omit hexpr in
include hstmt in
theorem opens_lambdaExpr : Opens n Keyword.funcKw (lambdaExpr stmt) :=
  ⟨TokenKind.noConfusion, _, rfl, fun _ => opens_parameters.within.bind fun _ =>
    (Within.check _).bind fun _ => (within_type.optional _).bind fun _ =>
      (opens_blockOf hstmt).within.bind fun _ => .pure _⟩

omit hexpr in
theorem reads_identifierExpr : Reads (n + 1) identifierExpr :=
  reads_ident.bind fun _ => (Within.check _).bind fun _ => Within.get.bind fun _ =>
    .ite (Within.advance.bind fun _ => (within_typeArguments within_type).bind fun _ => .pure _)
      (.pure _)

omit hexpr in
/-- A number out of range is noticed at the number, which is then consumed. -/
theorem ends_integerExpr (ho : o.Ordered stop) (hkind : o.kind = .int) :
    Ends o o.offset integerExpr o fun _ q => o.Passes q := by
  have hpasses := Parser.passes_advanced ho (hkind ▸ TokenKind.noConfusion)
  have hfirst : Ends o o.offset advance o fun t q => t = o.current ∧ o.Passes q := ⟨rfl, hpasses⟩
  refine hfirst.bind fun t q ⟨ht, hq⟩ => ?_
  refine .ite (fun _ => .pure hq) fun _ => ?_
  subst ht
  exact ⟨hq.leads, Nat.le_refl _, hq.offset_lt.le, ParseError.Cause.noConfusion⟩

theorem ends_prefixExpr (op : PrefixOp) (ho : o.Ordered stop) (hn : o.rest.length ≤ n)
    (hkind : o.kind = k) (hk : k ≠ .eof) :
    Ends o o.offset (prefixExpr expr op) o fun _ q => o.Passes q :=
  (Ends.advance ho hn hkind hk fun _ => (within_expr hexpr _).bind fun _ => .pure _).late

include hstmt

theorem reads_operand : Reads (n + 1) (operand expr stmt) := by
  intro stop o ho hn
  have hle := Nat.le_of_lt_succ hn
  -- a literal or a name that is a single token
  have hsingle : ∀ {k : TokenKind} (e : Expr), o.kind = k → k ≠ .eof →
      Ends o o.offset (do let _ ← advance; return e) o fun _ q => o.Passes q := fun e hkind hk =>
    (Ends.advance ho hle hkind hk fun _ => .pure e).late
  refine .look rfl ?_
  split
  next => exact reads_identifierExpr stop o ho hn
  next hkind => exact ends_integerExpr ho hkind
  next hkind => exact (Ends.advance ho hle hkind TokenKind.noConfusion fun _ => .pure _).late
  next hkind => exact hsingle _ hkind TokenKind.noConfusion
  next hkind => exact hsingle _ hkind TokenKind.noConfusion
  next hkind => exact hsingle _ hkind TokenKind.noConfusion
  next hkind => exact hsingle _ hkind TokenKind.noConfusion
  next hkind => exact hsingle _ hkind TokenKind.noConfusion
  next hkind => exact ends_prefixExpr hexpr _ ho hle hkind TokenKind.noConfusion
  next hkind => exact ends_prefixExpr hexpr _ ho hle hkind TokenKind.noConfusion
  next hkind => exact ends_prefixExpr hexpr _ ho hle hkind TokenKind.noConfusion
  next => exact (opens_groupedExpr hexpr).reads stop o ho hn
  next => exact (opens_arrayExpr hexpr).reads stop o ho hn
  next => exact (opens_hashExpr hexpr).reads stop o ho hn
  next => exact (opens_lambdaExpr hstmt).reads stop o ho hn
  next => exact (opens_newExpr hexpr).reads stop o ho hn
  next hkind => exact hsingle _ hkind TokenKind.noConfusion
  next hkind => exact hsingle _ hkind TokenKind.noConfusion
  next => exact ⟨.refl o, Nat.le_refl _, Nat.le_refl _, ParseError.Cause.noConfusion⟩

omit hstmt

/-- An operator that extends an operand is consumed. -/
theorem ends_operatorAfter (least : Precedence) (left : Expr) (ho : o.Ordered stop)
    (hn : o.rest.length ≤ n) :
    Ends o o.offset (operatorAfter expr least left) o fun e? q =>
      o.Leads q ∧ (e?.isSome → o.Passes q) := by
  -- whatever follows a consumed operator gives an expression or fails
  have hconsumed : ∀ {k : TokenKind} {f : Token → Parse (Option Expr)}, o.kind = k → k ≠ .eof →
      (∀ t, Within n (f t)) → Ends o o.offset (advance >>= f) o fun e? q =>
        o.Leads q ∧ (e?.isSome → o.Passes q) := fun hkind hk hf =>
    (Ends.advance ho hn hkind hk hf).late.mono fun _ _ hq => ⟨hq.leads, fun _ => hq⟩
  have hnone : Ends o o.offset (pure none : Parse (Option Expr)) o fun e? q =>
      o.Leads q ∧ (e?.isSome → o.Passes q) := .pure ⟨.refl o, fun h => nomatch h⟩
  refine .look rfl ?_
  refine .ite (fun _ => hnone) fun _ => ?_
  split
  next hkind =>
    exact hconsumed hkind TokenKind.noConfusion fun _ => (within_expressionListOf hexpr _).bind
      fun _ => (Within.expect TokenKind.noConfusion).bind fun _ => .pure _
  next hkind =>
    exact hconsumed hkind TokenKind.noConfusion fun _ => (within_expr hexpr _).bind
      fun _ => (Within.expect TokenKind.noConfusion).bind fun _ => .pure _
  next hkind =>
    exact hconsumed hkind TokenKind.noConfusion fun _ => within_ident.bind fun _ => .pure _
  next hkind =>
    exact hconsumed hkind TokenKind.noConfusion fun _ => within_ident.bind fun _ => .pure _
  next hkind => exact hconsumed hkind TokenKind.noConfusion fun _ => .pure _
  next hkind => exact hconsumed hkind TokenKind.noConfusion fun _ => .pure _
  next =>
    split
    next op hop =>
      exact hconsumed rfl (fun heof => by simp [heof, AssignOp.ofKind?] at hop) fun _ =>
        (within_expr hexpr _).bind fun _ => .pure _
    next =>
      split
      next op hop =>
        exact hconsumed rfl (fun heof => by simp [heof, InfixOp.ofKind?] at hop) fun _ =>
          (within_expr hexpr _).bind fun _ => .pure _
      next => exact hnone

include hstmt

theorem reads_expressionStep (least : Precedence) : Reads (n + 1) (expressionStep expr stmt least) :=
  (reads_operand hexpr hstmt).bind fun _ =>
    .extend (fun left _ _ ho hn => ends_operatorAfter hexpr least left ho hn.le) _

theorem reads_value : Reads (n + 1) (value expr stmt) := reads_expressionStep hexpr hstmt _

theorem within_value : Within n (value expr stmt) :=
  .of_reads ((reads_value hexpr hstmt).mono (Nat.le_succ n))

end

end ClassLang.Parse
