import ClassLang.Parse.Stmt
import ClassLang.Proofs.Printing.Types
import Mathlib.Algebra.Group.Nat.Defs

/-!
# Reading printed expressions back

The text of an expression is read back as the same tree, up to spans. Operators and index expressions
stand in parentheses, so that the text between them ends where its closing parenthesis stands. Calls
and member accesses are bare: they extend the text in front of them, and reading one of these texts
comes down to reading on behind it (`Heads`). This is what the induction carries.
-/

namespace ClassLang

/-! ## The expressions that can be printed -/

/-- Whether a type names a class. -/
def TypeExpr.isClass : TypeExpr → Bool
  | .named _ | .generic .. => true
  | _ => false

/-- The expressions whose text can be read back: names are names, numbers are in range and the bodies
of literals can stand between their delimiters. -/
inductive Expr.Printable : Expr → Prop
  | ident {n : Ident} (hname : isName n.name) : Printable (.ident n)
  | int {v : Nat} {span : Span} (hv : v < 2 ^ 63) : Printable (.int v span)
  | string {body : String} {span : Span} (hbody : isEnclosable '"' body.toList) :
    Printable (.string body span)
  | char {body : String} {span : Span} (hbody : isEnclosable '\'' body.toList) :
    Printable (.char body span)
  | bool {v : Bool} {span : Span} : Printable (.bool v span)
  | null {span : Span} : Printable (.null span)
  | this {span : Span} : Printable (.this span)
  | super {span : Span} : Printable (.super span)
  | prefixed {op : PrefixOp} {right : Expr} {span : Span} (h : Printable right) :
    Printable (.prefixed op right span)
  | binary {op : InfixOp} {left right : Expr} {span : Span} (hleft : Printable left)
    (hright : Printable right) : Printable (.binary op left right span)
  | postfixed {op : PostfixOp} {operand : Expr} {span : Span} (h : Printable operand) :
    Printable (.postfixed op operand span)
  | call {function : Expr} {args : List Expr} {span : Span} (hfunction : Printable function)
    (hargs : ∀ e ∈ args, Printable e) : Printable (.call function args span)
  | index {object key : Expr} {span : Span} (hobject : Printable object) (hkey : Printable key) :
    Printable (.index object key span)
  | member {object : Expr} {property : Ident} {arrow : Bool} {span : Span}
    (hobject : Printable object) (hname : isName property.name) :
    Printable (.member object property arrow span)
  | array {elements : List Expr} {span : Span} (h : ∀ e ∈ elements, Printable e) :
    Printable (.array elements span)
  | hash {entries : List Entry} {span : Span} (hkeys : ∀ entry ∈ entries, Printable entry.key)
    (hvalues : ∀ entry ∈ entries, Printable entry.value) : Printable (.hash entries span)
  | new {type : TypeExpr} {args : List Expr} {span : Span} (htype : type.Written)
    (hclass : type.isClass) (hargs : ∀ e ∈ args, Printable e) : Printable (.new type args span)

theorem Expr.texts_eq_map (es : List Expr) : Expr.texts es = es.map Expr.text := by
  induction es with
  | nil => rfl
  | cons e es ih => rw [Expr.texts, ih, List.map_cons]

theorem Expr.allUnplaced_eq_map (es : List Expr) : Expr.allUnplaced es = es.map Expr.unplaced := by
  induction es with
  | nil => rfl
  | cons e es ih => rw [Expr.allUnplaced, ih, List.map_cons]

/-- The digits of a number. -/
theorem toDigits_spec (v : Nat) : ∃ c cs, (toString v).toList = c :: cs ∧
    (∀ x ∈ c :: cs, x.isDigit) ∧ Binary64.digitsValue 0 (c :: cs) = v := by
  have hdigits : (toString v).toList = Nat.toDigits 10 v := by
    rw [Nat.toString_eq_ofList_toDigits, String.toList_ofList]
  obtain ⟨c, cs, hcs⟩ := List.exists_cons_of_ne_nil (Nat.toDigits_ne_nil (n := v) (b := 10))
  refine ⟨c, cs, hdigits.trans hcs, fun x hx => ?_, ?_⟩
  · exact Nat.isDigit_of_mem_toDigits (by decide) (by decide) (hcs ▸ hx)
  · rw [← hcs]
    exact Nat.ofDigitChars_ten_toDigits

/-- No expression starts with a character that would make something else of an operator in front of
it. -/
theorem Expr.Printable.head {e : Expr} (h : e.Printable) :
    ∀ rest, ∀ c ∈ (e.text.toList ++ rest).head?, c ∉ ['-', '=', '>'] := by
  have hclass : ∀ {f : Char → Bool} {c : Char}, f c → ['-', '=', '>'].any f = false →
      c ∉ ['-', '=', '>'] := by
    intro f c hc hf hmem
    exact List.any_eq_false.1 hf c hmem hc
  induction h with
  | ident hname =>
    obtain ⟨c, cs, hcs, hc⟩ := exists_wordStart hname
    have hne := hclass hc (by decide)
    simpa [Expr.text, hcs] using hne
  | @int v _ hv =>
    obtain ⟨c, cs, hcs, hdigits, -⟩ := toDigits_spec v
    have hne := hclass (hdigits c List.mem_cons_self) (by decide)
    rw [Expr.text, hcs]
    simpa using hne
  | string | char | null | this | super | prefixed | binary | postfixed | index | array | hash | new =>
    simp [Expr.text, braced]
  | @bool v => cases v <;> simp [Expr.text]
  | call _ _ ih | member _ _ ih =>
    intro rest
    simp only [Expr.text, String.toList_append, List.append_assoc]
    exact ih _

namespace PrefixOp

/-- The mark that writes the operator. -/
def mark : PrefixOp → Mark
  | not => .bang
  | negate => .minus
  | bitNot => .tilde

theorem text_eq (op : PrefixOp) : op.text = op.mark.spelling := by
  cases op <;> rfl

theorem mark_spec (op : PrefixOp) : op.mark.spelling.toList.head? ≠ some '>' ∧
    ∀ c ∈ op.mark.continuations, c ∈ ['-', '=', '>'] := by
  have hall : op.mark.continuations.all (· ∈ ['-', '=', '>']) := by cases op <;> decide
  exact ⟨by cases op <;> decide, fun c hc => of_decide_eq_true (List.all_eq_true.1 hall c hc)⟩

end PrefixOp

namespace PostfixOp

/-- The mark that writes the operator. -/
def mark : PostfixOp → Mark
  | increment => .increment
  | decrement => .decrement

theorem text_eq (op : PostfixOp) : op.text = op.mark.spelling := by
  cases op <;> rfl

end PostfixOp

/-! ## Reading on behind an expression -/

/-- A text that ends the expression in front of it. -/
structure EndsExpr (rest : List Char) : Prop where
  stops : stops rest
  loose : ∀ p : Parser, p.At rest → Precedence.ofKind p.kind = .lowest

namespace EndsExpr

theorem nil : EndsExpr [] := ⟨rfl, fun p hp => by rw [hp.kind_eof]; rfl⟩

theorem mark {m : Mark} (hm : m ∈ [Mark.comma, .rParen, .rBracket, .rBrace]) (rest : List Char) :
    EndsExpr (m.spelling.toList ++ rest) := by
  have halone : m ∈ Mark.punctuation ∧ Precedence.ofKind m = .lowest := by
    revert m
    decide
  refine ⟨?_, fun p hp => ?_⟩
  · simp only [List.mem_cons, List.not_mem_nil, or_false] at hm
    rcases hm with rfl | rfl | rfl | rfl <;> rfl
  · rw [(hp.alone m halone.1).kind_eq, halone.2]

theorem colon (rest : List Char) : EndsExpr (':' :: ' ' :: rest) := by
  refine ⟨rfl, fun p hp => ?_⟩
  have hshows := hp.mark .colon (by decide) fun c hc => by
    obtain rfl : ' ' = c := by simpa using hc
    decide
  rw [hshows.kind_eq]
  rfl

end EndsExpr

namespace Parse

variable {n fuel : Nat} {least : Precedence} {p q : Parser} {rest : List Char} {e : Expr}
  {expr : Precedence → Parse Expr} {post : Expr → Parser → Prop}

/-- An action reads an expression back, with fewer than `n` tokens ahead. -/
def Rereads (n : Nat) (expr : Precedence → Parse Expr) (e : Expr) : Prop :=
  ∀ (least : Precedence) (p : Parser) (rest : List Char), least.rank < Precedence.call.rank →
    p.rest.length < n → p.At (e.text.toList ++ rest) → EndsExpr rest →
    Gives (expr least) p fun e' q => e'.unplaced = e.unplaced ∧ p.Past rest q

/-- Reading a text that starts with an expression comes down to extending that expression. -/
def Heads (e : Expr) : Prop :=
  ∀ (n : Nat) (least : Precedence) (p : Parser) (rest : List Char) (post : Expr → Parser → Prop),
    least.rank < Precedence.call.rank → p.rest.length ≤ n → p.At (e.text.toList ++ rest) →
    stops rest →
    (∀ e' q fuel, e'.unplaced = e.unplaced → p.Past rest q → q.rest.length < fuel →
      Gives (extendAt (operatorAfter (expressionAt n) least) fuel e') q post) →
    Gives (expressionStep (expressionAt n) (statementAt n) least) p post

/-- A token that binds loosely ends the extension. -/
theorem gives_extendAt_done (hkind : (Precedence.ofKind q.kind).rank ≤ least.rank)
    (hfuel : q.rest.length < fuel) (hpost : post e q) :
    Gives (extendAt (operatorAfter expr least) fuel e) q post := by
  obtain _ | fuel := fuel
  · cases hfuel
  rw [extendAt]
  have hnone : Gives (operatorAfter expr least e) q fun e? r => e? = none ∧ r = q := by
    refine .look rfl ?_
    rw [if_pos hkind]
    exact .pure ⟨rfl, rfl⟩
  refine hnone.bind fun e? r ⟨he, hr⟩ => ?_
  subst he hr
  exact .pure hpost

/-- A token that binds tightly extends the expression. -/
theorem gives_extendAt_step {next : Expr → Parser → Prop}
    (hstep : Gives (operatorAfter expr least e) q fun e? r => ∃ e', e? = some e' ∧ next e' r)
    (hnext : ∀ e' r, next e' r → Gives (extendAt (operatorAfter expr least) fuel e') r post) :
    Gives (extendAt (operatorAfter expr least) (fuel + 1) e) q post := by
  rw [extendAt]
  refine hstep.bind fun e? r ⟨e', he, hr⟩ => ?_
  subst he
  exact hnext e' r hr

theorem Heads.rereads (h : Heads e) (n : Nat) : Rereads n (expressionAt n) e := by
  rintro least p rest hleast hn hp hrest
  obtain _ | n := n
  · cases hn
  show Gives (expressionStep (expressionAt n) (statementAt n) least) p _
  refine h n least p rest _ hleast (Nat.le_of_lt_succ hn) hp hrest.stops fun e' q fuel he hq hfuel => ?_
  refine gives_extendAt_done ?_ hfuel ⟨he, hq⟩
  rw [hrest.loose q hq.here]
  exact Nat.zero_le _

/-- An expression that is an operand. -/
theorem heads_of_operand (h : ∀ (n : Nat) (p : Parser) (rest : List Char), p.rest.length ≤ n →
    p.At (e.text.toList ++ rest) → stops rest →
    Gives (operand (expressionAt n) (statementAt n)) p fun e' q =>
      e'.unplaced = e.unplaced ∧ p.Past rest q) : Heads e := by
  intro n least p rest post _ hn hp hrest hextend
  refine (h n p rest hn hp hrest).bind fun e' q ⟨he, hq⟩ => ?_
  exact hextend e' q q.fuel he hq (Nat.lt_of_lt_of_le (Nat.lt_succ_self _) (Nat.le_succ _))

/-- An expression in parentheses, given how what stands between them is read. -/
theorem heads_of_grouped {inner : List Char} (htext : e.text.toList = '(' :: (inner ++ [')']))
    (h : ∀ (n : Nat) (p : Parser) (rest : List Char), p.rest.length ≤ n →
      p.At (inner ++ ')' :: rest) →
      Gives (expressionStep (expressionAt n) (statementAt n) .lowest) p fun e' q =>
        e'.unplaced = e.unplaced ∧ p.Past (')' :: rest) q) : Heads e := by
  refine heads_of_operand fun n p rest hn hp _ => ?_
  replace hp : p.At ('(' :: (inner ++ ')' :: rest)) := by
    rw [htext] at hp
    simpa using hp
  have hopen := hp.alone .lParen (by decide)
  refine .look rfl ?_
  rw [show p.current.kind = .mark .lParen from hopen.kind_eq]
  refine (Gives.expect hopen).bind fun _ q ⟨_, hq⟩ => ?_
  have hlength := hq.length_lt.trans_le hn
  obtain _ | n := n
  · cases hlength
  have hinner : Gives (expressionAt (n + 1) .lowest) q fun e' r =>
      e'.unplaced = e.unplaced ∧ q.Past (')' :: rest) r :=
    h n q rest (Nat.le_of_lt_succ hlength) hq.here
  refine hinner.bind fun e' r ⟨he, hr⟩ => ?_
  refine (Gives.expect (hr.here.alone .rParen (by decide))).bind fun _ s ⟨_, hs⟩ => ?_
  exact .pure ⟨he, hq.trans (hr.trans hs)⟩

/-! ## Lists -/

/-- Nothing is read where a closing mark stands. -/
theorem kind_ne_of_gives {m : Mark} (hm : m ∈ [Mark.rParen, .rBracket, .rBrace])
    (h : Gives (expressionAt n least) p post) : p.kind ≠ m := by
  intro hkind
  obtain _ | n := n
  · obtain ⟨e, q, hok, -⟩ := h
    cases hok
  replace h : Gives (expressionStep (expressionAt n) (statementAt n) least) p post := h
  obtain ⟨e, q, hoperand, -⟩ := h.of_bind
  have hfirst : Gives (operand (expressionAt n) (statementAt n)) p fun _ _ => True :=
    ⟨e, q, hoperand, trivial⟩
  obtain ⟨t, r, hcurrent, hthrow⟩ := hfirst.of_bind
  obtain ⟨rfl, rfl⟩ : p.current = t ∧ p = r := by cases hcurrent; exact ⟨rfl, rfl⟩
  rw [show p.current.kind = .mark m from hkind] at hthrow
  simp only [List.mem_cons, List.not_mem_nil, or_false] at hm
  rcases hm with rfl | rfl | rfl <;> obtain ⟨_, _, hok, -⟩ := hthrow <;> cases hok

/-- A list is read back up to the mark that closes it. -/
theorem gives_expressionListOf {m : Mark} (hm : m ∈ [Mark.rParen, .rBracket]) {args : List Expr}
    (hargs : ∀ e ∈ args, Rereads n (expressionAt n) e)
    (hp : p.At ((commaList (Expr.texts args)).toList ++ (m.spelling.toList ++ rest)))
    (hn : p.rest.length < n) :
    Gives (expressionListOf (expressionAt n) m) p fun es q =>
      Expr.allUnplaced es = Expr.allUnplaced args ∧ q.At (m.spelling.toList ++ rest) ∧
        q.rest.length ≤ p.rest.length := by
  have hmark : ∀ m ∈ [Mark.rParen, .rBracket], m ∈ Mark.punctuation ∧
      m ∈ [Mark.comma, .rParen, .rBracket, .rBrace] ∧ m ∈ [Mark.rParen, .rBracket, .rBrace] ∧
      m ≠ .comma := by
    decide
  obtain ⟨halone, hends, hcloses, hne⟩ := hmark m hm
  have hlowest : Precedence.lowest.rank < Precedence.call.rank := by decide
  refine .look rfl ?_
  cases args with
  | nil =>
    replace hp : p.At (m.spelling.toList ++ rest) := hp
    rw [(hp.alone m halone).kind_eq, if_pos (beq_self_eq_true _)]
    exact .pure ⟨rfl, hp, Nat.le_refl _⟩
  | cons first more =>
    have hfirst : ∀ (p : Parser) tail, p.rest.length < n → p.At (first.text.toList ++ tail) →
        EndsExpr tail → Gives (expressionAt n .lowest) p fun e q =>
          e.unplaced = first.unplaced ∧ p.Past tail q := fun p tail hn hp htail =>
      hargs first List.mem_cons_self .lowest p tail hlowest hn hp htail
    have hmore : ∀ e ∈ more, ∀ (p : Parser) tail, p.rest.length < n →
        p.At (afterComma e.text ++ tail) → EndsExpr tail →
        Gives (do
          if ← eat Mark.comma then
            if ← check m then return .stop
            return Round.item (← expressionAt n .lowest)
          else return .stop) p fun r q => ∃ e', r = .item e' ∧ e'.unplaced = e.unplaced ∧ p.Past tail q := by
      intro e he p tail hn hp htail
      refine (Gives.eat (hp.alone .comma (by decide))).bind fun b q ⟨hb, hq⟩ => ?_
      subst hb
      have hitem := hargs e (List.mem_cons_of_mem first he) .lowest q tail hlowest
        (hq.length_lt.trans hn) hq.here.blank htail
      refine .look rfl ?_
      rw [if_neg (by simpa using kind_ne_of_gives hcloses hitem)]
      exact hitem.bind fun e' r ⟨he', hr⟩ => .pure ⟨e', rfl, he', hq.trans hr⟩
    have hstop : ∀ p : Parser, p.At (m.spelling.toList ++ rest) →
        Gives (do
          if ← eat Mark.comma then
            if ← check m then return .stop
            return Round.item (← expressionAt n .lowest)
          else return .stop) p fun r q => r = .stop ∧ q = p := by
      intro p hp
      refine .without ?_ (.pure ⟨rfl, rfl⟩)
      rw [(hp.alone m halone).kind_eq]
      exact fun h => hne (TokenKind.mark.inj h)
    rw [Expr.texts_eq_map] at hp
    have hlisted := Gives.listed (fun tail => EndsExpr.mark (m := .comma) (by decide) tail)
      (EndsExpr.mark hends rest) hfirst hmore hstop hp hn
    obtain ⟨e, q, hok, -⟩ := hlisted.of_bind
    have hread : Gives (expressionAt n .lowest) p fun _ _ => True := ⟨e, q, hok, trivial⟩
    rw [if_neg (by simpa using kind_ne_of_gives hcloses hread)]
    refine hlisted.mono fun es q ⟨hes, hq⟩ => ⟨?_, hq.here, hq.length_lt.le⟩
    rw [Expr.allUnplaced_eq_map, Expr.allUnplaced_eq_map, hes]

/-- One round of reading the entries of a hash. -/
def entryRound (expr : Precedence → Parse Expr) : Parse (Round Entry) := do
  if ← check Mark.rBrace then return .stop
  let key ← expr .lowest
  let _ ← expect Mark.colon
  let value ← expr .lowest
  if ← eat Mark.comma then return .item ⟨key, value⟩ else return .last ⟨key, value⟩

theorem gives_entryRound {key value : Expr} {tail : List Char} {post : Round Entry → Parser → Prop}
    (hkey : Rereads n (expressionAt n) key) (hvalue : Rereads n (expressionAt n) value)
    (hn : p.rest.length < n)
    (hp : p.At (key.text.toList ++ ':' :: ' ' :: (value.text.toList ++ tail))) (htail : EndsExpr tail)
    (hpost : ∀ key' value' q, key'.unplaced = key.unplaced → value'.unplaced = value.unplaced →
      p.Past tail q → Gives (do
        if ← eat Mark.comma then return Round.item ⟨key', value'⟩
        else return .last ⟨key', value'⟩) q post) :
    Gives (entryRound (expressionAt n)) p post := by
  have hlowest : Precedence.lowest.rank < Precedence.call.rank := by decide
  have hread := hkey .lowest p _ hlowest hn hp (.colon _)
  refine .look rfl ?_
  rw [if_neg (by simpa using kind_ne_of_gives (m := .rBrace) (by decide) hread)]
  refine hread.bind fun key' q ⟨hkey', hq⟩ => ?_
  have hcolon := hq.here.mark .colon (by decide) fun c hc => by
    obtain rfl : ' ' = c := by simpa using hc
    decide
  refine (Gives.expect hcolon).bind fun _ r ⟨_, hr⟩ => ?_
  have hr' := hq.trans hr
  have hread' := hvalue .lowest r tail hlowest (hr'.length_lt.trans hn) hr.here.blank htail
  exact hread'.bind fun value' s ⟨hvalue', hs⟩ => hpost key' value' s hkey' hvalue' (hr'.trans hs)

/-- The entries of a hash are read back. -/
theorem gives_entries {entries : List Entry}
    (hkeys : ∀ entry ∈ entries, Rereads n (expressionAt n) entry.key)
    (hvalues : ∀ entry ∈ entries, Rereads n (expressionAt n) entry.value) (fuel : Nat) (p : Parser)
    (hp : p.At ((commaList (Entry.texts entries)).toList ++ '\x7d' :: rest))
    (hn : p.rest.length < n) (hfuel : p.rest.length < fuel) :
    Gives (collectAt (entryRound (expressionAt n)) fuel) p fun es q =>
      Entry.allUnplaced es = Entry.allUnplaced entries ∧ q.At ('\x7d' :: rest) ∧
        q.rest.length ≤ p.rest.length := by
  induction entries generalizing fuel p with
  | nil =>
    obtain _ | fuel := fuel
    · cases hfuel
    have hclose := Parser.At.alone .rBrace hp (by decide)
    have hstop : Gives (entryRound (expressionAt n)) p fun r q => r = .stop ∧ q = p := by
      refine .look rfl ?_
      rw [hclose.kind_eq, if_pos (beq_self_eq_true _)]
      exact .pure ⟨rfl, rfl⟩
    rw [collectAt]
    refine hstop.bind ?_
    rintro r q ⟨rfl, rfl⟩
    exact .pure ⟨rfl, hp, Nat.le_refl _⟩
  | cons entry entries ih =>
    obtain ⟨key, value⟩ := entry
    obtain _ | fuel := fuel
    · cases hfuel
    cases entries with
    | nil =>
      replace hp : p.At (key.text.toList ++ ':' :: ' ' :: (value.text.toList ++ '\x7d' :: rest)) := by
        simpa [Entry.texts, commaList] using hp
      have hlast : Gives (entryRound (expressionAt n)) p fun r q => ∃ key' value',
          r = .last ⟨key', value'⟩ ∧ key'.unplaced = key.unplaced ∧
            value'.unplaced = value.unplaced ∧ p.Past ('\x7d' :: rest) q := by
        refine gives_entryRound (hkeys _ List.mem_cons_self) (hvalues _ List.mem_cons_self) hn hp
          (EndsExpr.mark (m := .rBrace) (by decide) rest) fun key' value' q hkey hvalue hq => ?_
        have hclose := Parser.At.alone .rBrace hq.here (by decide)
        exact .without (by simp [hclose.kind_eq]) (.pure ⟨key', value', rfl, hkey, hvalue, hq⟩)
      rw [collectAt]
      refine hlast.bind ?_
      rintro r q ⟨key', value', rfl, hkey, hvalue, hq⟩
      exact .pure ⟨by simp [Entry.allUnplaced, hkey, hvalue], hq.here, hq.length_lt.le⟩
    | cons next entries =>
      replace hp : p.At (key.text.toList ++ ':' :: ' ' :: (value.text.toList ++ ',' :: ' ' ::
          ((commaList (Entry.texts (next :: entries))).toList ++ '\x7d' :: rest))) := by
        obtain ⟨key', value'⟩ := next
        simpa [Entry.texts, commaList, String.intercalate_cons_cons] using hp
      have hitem : Gives (entryRound (expressionAt n)) p fun r q => ∃ key' value',
          r = .item ⟨key', value'⟩ ∧ key'.unplaced = key.unplaced ∧
            value'.unplaced = value.unplaced ∧
            p.Past ((commaList (Entry.texts (next :: entries))).toList ++ '\x7d' :: rest) q := by
        refine gives_entryRound (hkeys _ List.mem_cons_self) (hvalues _ List.mem_cons_self) hn hp
          (EndsExpr.mark (m := .comma) (by decide) _) fun key' value' q hkey hvalue hq => ?_
        refine (Gives.eat (hq.here.alone .comma (by decide))).bind ?_
        rintro b r ⟨rfl, hr⟩
        refine .pure ⟨key', value', rfl, hkey, hvalue, hr.here.blank, ?_⟩
        exact hr.length_lt.trans hq.length_lt
      rw [collectAt]
      refine hitem.bind ?_
      rintro r q ⟨key', value', rfl, hkey, hvalue, hq⟩
      have hmore := ih (fun entry h => hkeys entry (List.mem_cons_of_mem _ h))
        (fun entry h => hvalues entry (List.mem_cons_of_mem _ h)) fuel q hq.here
        (hq.length_lt.trans hn) (Nat.lt_of_lt_of_le hq.length_lt (Nat.le_of_lt_succ hfuel))
      refine hmore.bind ?_
      rintro es r ⟨hes, hr, hle⟩
      refine .pure ⟨?_, hr, hle.trans hq.length_lt.le⟩
      simp [Entry.allUnplaced, hkey, hvalue, hes]

/-! ## Operands -/

theorem heads_ident {name : Ident} (hname : isName name.name) : Heads (.ident name) := by
  refine heads_of_operand fun n p rest _ hp hrest => ?_
  have hshows := hp.name hname (stops_head hrest)
  refine .look rfl ?_
  rw [show p.current.kind = .ident from hshows.kind_eq]
  refine (Gives.ident hp hname (stops_head hrest)).bind fun name' q ⟨hname', hq⟩ => ?_
  refine .look rfl (.look rfl ?_)
  rw [if_neg (by simp [Parser.isTemplate, hq.here.templates])]
  exact .pure ⟨by simp [Ident.unplaced, hname', Expr.text], hq⟩

theorem heads_int {v : Nat} {span : Span} (hv : v < 2 ^ 63) : Heads (.int v span) := by
  refine heads_of_operand fun n p rest _ hp hrest => ?_
  obtain ⟨c, cs, hcs, hdigits, hvalue⟩ := toDigits_spec v
  rw [Expr.text, hcs] at hp
  have hshows := hp.digits hdigits hrest
  refine .look rfl ?_
  rw [show p.current.kind = .int from hshows.kind_eq]
  refine (Gives.advance hshows).bind fun t q ⟨ht, hq⟩ => ?_
  rw [ht, String.toList_ofList, hvalue, if_pos (show v < Nat.pow 2 63 from hv)]
  exact .pure ⟨rfl, hq⟩

theorem heads_string {body : String} {span : Span} (hbody : isEnclosable '"' body.toList) :
    Heads (.string body span) := by
  refine heads_of_operand fun n p rest _ hp hrest => ?_
  replace hp : p.At ('"' :: (body.toList ++ '"' :: rest)) := by simpa [Expr.text] using hp
  have hshows := hp.delimited .doubleQuote hbody
  refine .look rfl ?_
  rw [show p.current.kind = .string from hshows.kind_eq]
  refine (Gives.advance hshows).bind fun t q ⟨_, hq⟩ => .pure ⟨?_, hq⟩
  simp [hshows.literal_eq]

theorem heads_char {body : String} {span : Span} (hbody : isEnclosable '\'' body.toList) :
    Heads (.char body span) := by
  refine heads_of_operand fun n p rest _ hp hrest => ?_
  replace hp : p.At ('\'' :: (body.toList ++ '\'' :: rest)) := by simpa [Expr.text] using hp
  have hshows := hp.delimited .quote hbody
  refine .look rfl ?_
  rw [show p.current.kind = .char from hshows.kind_eq]
  refine (Gives.advance hshows).bind fun t q ⟨_, hq⟩ => .pure ⟨?_, hq⟩
  simp [hshows.literal_eq]

/-- The expressions that are a keyword. -/
def constantOf : Keyword → Option (Span → Expr)
  | .trueKw => some (.bool true)
  | .falseKw => some (.bool false)
  | .nilKw => some .null
  | .thisKw => some .this
  | .superKw => some .super
  | _ => none

theorem heads_constant {k : Keyword} {make : Span → Expr} (hk : constantOf k = some make)
    (span : Span) : Heads (make span) := by
  have hmake : (make span).text = k.spelling ∧ ∀ s, (make s).unplaced = (make span).unplaced := by
    cases k <;> cases hk <;> exact ⟨rfl, fun _ => rfl⟩
  refine heads_of_operand fun n p rest _ hp hrest => ?_
  rw [hmake.1] at hp
  have hshows := hp.keyword k (stops_head hrest)
  have hgives : Gives (do let _ ← advance; return make p.current.span) p fun e q =>
      e.unplaced = (make span).unplaced ∧ p.Past rest q :=
    (Gives.advance hshows).bind fun _ q ⟨_, hq⟩ => .pure ⟨hmake.2 _, hq⟩
  refine .look rfl ?_
  rw [show p.current.kind = k from hshows.kind_eq]
  cases k <;> cases hk <;> exact hgives

theorem heads_array {elements : List Expr} {span : Span} (h : ∀ e ∈ elements, Heads e) :
    Heads (.array elements span) := by
  refine heads_of_operand fun n p rest hn hp _ => ?_
  simp only [Expr.text, String.toList_append, List.append_assoc] at hp
  have hopen := hp.alone .lBracket (by decide)
  refine .look rfl ?_
  rw [show p.current.kind = .mark .lBracket from hopen.kind_eq]
  refine (Gives.expect hopen).bind fun _ q ⟨_, hq⟩ => ?_
  have hlist := gives_expressionListOf (m := .rBracket) (by decide)
    (fun e he => (h e he).rereads n) hq.here (hq.length_lt.trans_le hn)
  refine hlist.bind fun es r ⟨hes, hr, hle⟩ => ?_
  refine (Gives.expect (hr.alone .rBracket (by decide))).bind fun _ s ⟨_, hs⟩ => ?_
  refine .pure ⟨by simp [hes], hs.here, ?_⟩
  exact (hs.length_lt.trans_le hle).trans hq.length_lt

theorem heads_hash {entries : List Entry} {span : Span} (hkeys : ∀ entry ∈ entries, Heads entry.key)
    (hvalues : ∀ entry ∈ entries, Heads entry.value) : Heads (.hash entries span) := by
  refine heads_of_operand fun n p rest hn hp _ => ?_
  simp only [Expr.text, braced, String.toList_append, List.append_assoc] at hp
  have hopen := hp.alone .lBrace (by decide)
  refine .look rfl ?_
  rw [show p.current.kind = .mark .lBrace from hopen.kind_eq]
  refine (Gives.expect hopen).bind fun _ q ⟨_, hq⟩ => ?_
  have hentries : Gives (collect (entryRound (expressionAt n))) q _ :=
    gives_entries (fun entry h => (hkeys entry h).rereads n)
      (fun entry h => (hvalues entry h).rereads n) q.fuel q hq.here (hq.length_lt.trans_le hn)
      (Nat.lt_of_lt_of_le (Nat.lt_succ_self _) (Nat.le_succ _))
  refine Gives.bind hentries fun es r ⟨hes, hr, hle⟩ => ?_
  refine (Gives.expect (Parser.At.alone .rBrace hr (by decide))).bind fun _ s ⟨_, hs⟩ => ?_
  refine .pure ⟨by simp [hes], hs.here, ?_⟩
  exact (hs.length_lt.trans_le hle).trans hq.length_lt

/-- A class is read back, with its type arguments. -/
theorem gives_namedType {type : TypeExpr} (htype : type.Written) (hclass : type.isClass)
    (hp : p.At (type.text.toList ++ rest)) (hrest : EndsType rest) :
    Gives (namedType Parse.type) p fun t q => t.unplaced = type.unplaced ∧ p.Past rest q := by
  cases htype with
  | named hname => exact gives_namedType_named hname hp hrest
  | generic hname hne h =>
    exact gives_namedType_generic hname hne h (fun t ht => rereadsType_type (h t ht) _) hp hrest
      (Nat.le_refl _)
  | array | map | pointer => cases hclass

theorem heads_new {type : TypeExpr} {args : List Expr} {span : Span} (htype : type.Written)
    (hclass : type.isClass) (hargs : ∀ e ∈ args, Heads e) : Heads (.new type args span) := by
  refine heads_of_operand fun n p rest hn hp _ => ?_
  simp only [Expr.text, String.toList_append, List.append_assoc] at hp
  replace hp : p.At (Keyword.newKw.spelling.toList ++ ' ' :: (type.text.toList ++
    '(' :: ((commaList (Expr.texts args)).toList ++ ')' :: rest))) := hp
  have hopen := hp.keyword .newKw (by simp [isWordChar, Char.isAlphanum])
  refine .look rfl ?_
  rw [show p.current.kind = .keyword .newKw from hopen.kind_eq]
  refine (Gives.expect hopen).bind ?_
  rintro _ q ⟨_, hq⟩
  have hend : EndsType ('(' :: ((commaList (Expr.texts args)).toList ++ ')' :: rest)) :=
    EndsType.mark (m := .lParen) (by decide) _
  refine (gives_namedType htype hclass hq.here.blank hend).bind ?_
  rintro t r ⟨ht, hr⟩
  refine (Gives.expect (hr.here.alone .lParen (by decide))).bind ?_
  rintro _ s ⟨_, hs⟩
  have hpast := hq.trans (hr.trans hs)
  have hlist := gives_expressionListOf (m := .rParen) (by decide)
    (fun e he => (hargs e he).rereads n) hs.here (hpast.length_lt.trans_le hn)
  refine hlist.bind ?_
  rintro es u ⟨hes, hu, hle⟩
  refine (Gives.expect (hu.alone .rParen (by decide))).bind ?_
  rintro _ w ⟨_, hw⟩
  refine .pure ⟨by simp [ht, hes], hw.here, ?_⟩
  exact (hw.length_lt.trans_le hle).trans hpast.length_lt

/-! ## Operators -/

/-- What stands between parentheses ends where the closing one stands. -/
theorem gives_extendAt_closed (hp : q.At (')' :: rest)) (hfuel : q.rest.length < fuel)
    (hpost : post e q) : Gives (extendAt (operatorAfter expr least) fuel e) q post := by
  refine gives_extendAt_done ?_ hfuel hpost
  rw [(EndsExpr.mark (m := .rParen) (by decide) rest).loose q hp]
  exact Nat.zero_le _

theorem gives_operand_prefixed {stmt : Parse Stmt} {op : PrefixOp} (hkind : p.kind = op.mark)
    (h : Gives (prefixExpr expr op) p post) : Gives (operand expr stmt) p post := by
  refine .look rfl ?_
  rw [show p.current.kind = op.mark from hkind]
  cases op <;> exact h

theorem heads_prefixed {op : PrefixOp} {right : Expr} {span : Span} (hright : right.Printable)
    (h : Heads right) : Heads (.prefixed op right span) := by
  have htext : (Expr.prefixed op right span).text.toList =
      '(' :: (op.mark.spelling.toList ++ right.text.toList ++ [')']) := by
    simp [Expr.text, op.text_eq]
  refine heads_of_grouped htext fun n p rest hn hp => ?_
  rw [List.append_assoc] at hp
  obtain ⟨hangle, hcontinuations⟩ := op.mark_spec
  have hshows := hp.mark op.mark hangle fun c hc hmem =>
    hright.head _ c hc (hcontinuations c hmem)
  have hoperand : Gives (operand (expressionAt n) (statementAt n)) p fun e q =>
      e.unplaced = (Expr.prefixed op right span).unplaced ∧ p.Past (')' :: rest) q := by
    refine gives_operand_prefixed hshows.kind_eq ?_
    refine (Gives.advance hshows).bind fun t q ⟨_, hq⟩ => ?_
    have hread := h.rereads n .unary q (')' :: rest) (by decide) (hq.length_lt.trans_le hn) hq.here
      (EndsExpr.mark (m := .rParen) (by decide) rest)
    exact hread.bind fun right' r ⟨hright', hr⟩ =>
      .pure ⟨by simp [hright'], hq.trans hr⟩
  refine hoperand.bind fun e q ⟨he, hq⟩ => ?_
  exact gives_extendAt_closed hq.here
    (Nat.lt_of_lt_of_le (Nat.lt_succ_self _) (Nat.le_succ _)) ⟨he, hq⟩

theorem gives_operatorAfter_binary {op : InfixOp} {left : Expr} {post : Option Expr → Parser → Prop}
    (hkind : p.kind = op.mark) (hleast : least.rank < (Precedence.ofKind op.mark).rank)
    (h : Gives (do
      let _ ← advance
      let right ← expr (Precedence.ofKind op.mark)
      return some (.binary op left right (left.span.upTo right.span))) p post) :
    Gives (operatorAfter expr least left) p post := by
  refine .look rfl ?_
  rw [hkind, if_neg (Nat.not_le.2 hleast)]
  cases op <;> exact h

/-- An operator extends an expression to one that is the same as a given one. -/
def Extends (n : Nat) (least : Precedence) (left e : Expr) (written rest : List Char) : Prop :=
  ∀ left' (q : Parser), left'.unplaced = left.unplaced → q.rest.length < n →
    q.At (written ++ rest) →
    Gives (operatorAfter (expressionAt n) least left') q fun e? r =>
      ∃ e', e? = some e' ∧ e'.unplaced = e.unplaced ∧ q.Past rest r

/-- An expression in parentheses that starts with another one. -/
theorem heads_of_operator {left e : Expr} {written : List Char}
    (htext : e.text.toList = '(' :: (left.text.toList ++ written ++ [')'])) (hleft : Heads left)
    (hstops : ∀ rest, stops (written ++ rest))
    (hoperator : ∀ n rest, Extends n .lowest left e written (')' :: rest)) : Heads e := by
  refine heads_of_grouped htext fun n p rest hn hp => ?_
  rw [List.append_assoc] at hp
  refine hleft n .lowest p _ _ (by decide) hn hp (hstops _) fun left' q fuel hleft' hq hfuel => ?_
  obtain _ | fuel := fuel
  · cases hfuel
  have hstep := hoperator n rest left' q hleft' (hq.length_lt.trans_le hn) hq.here
  refine gives_extendAt_step hstep fun e' r ⟨he, hr⟩ => ?_
  exact gives_extendAt_closed hr.here (Nat.lt_of_lt_of_le hr.length_lt (Nat.le_of_lt_succ hfuel))
    ⟨he, hq.trans hr⟩

/-- A bare expression that starts with another one. -/
theorem heads_of_bare {left e : Expr} {written : List Char}
    (htext : e.text.toList = left.text.toList ++ written) (hleft : Heads left)
    (hstops : ∀ rest, stops (written ++ rest))
    (hoperator : ∀ n least rest, least.rank < Precedence.call.rank → stops rest →
      Extends n least left e written rest) : Heads e := by
  intro n least p rest post hleast hn hp hrest hextend
  rw [htext, List.append_assoc] at hp
  refine hleft n least p _ post hleast hn hp (hstops _) fun left' q fuel hleft' hq hfuel => ?_
  obtain _ | fuel := fuel
  · cases hfuel
  have hstep := hoperator n least rest hleast hrest left' q hleft' (hq.length_lt.trans_le hn) hq.here
  refine gives_extendAt_step hstep fun e' r ⟨he, hr⟩ => ?_
  exact hextend e' r fuel he (hq.trans hr) (Nat.lt_of_lt_of_le hr.length_lt (Nat.le_of_lt_succ hfuel))

theorem heads_binary {op : InfixOp} {left right : Expr} {span : Span} (hleft : Heads left)
    (hright : Heads right) : Heads (.binary op left right span) := by
  have htext : (Expr.binary op left right span).text.toList = '(' :: (left.text.toList ++
      ' ' :: (op.mark.spelling.toList ++ ' ' :: right.text.toList) ++ [')']) := by
    simp [Expr.text, InfixOp.text]
  have hrank : ∀ op : InfixOp, Precedence.lowest.rank < (Precedence.ofKind op.mark).rank ∧
      (Precedence.ofKind op.mark).rank < Precedence.call.rank := by
    intro op
    cases op <;> decide
  refine heads_of_operator htext hleft (fun _ => rfl) fun n rest left' q hleft' hn hq => ?_
  replace hq : q.At (' ' :: (op.mark.spelling.toList ++ ' ' ::
      (right.text.toList ++ ')' :: rest))) := by
    simpa using hq
  have hshows := hq.spacedMark op.mark
  refine gives_operatorAfter_binary hshows.kind_eq (hrank op).1 ?_
  refine (Gives.advance hshows).bind fun t r ⟨_, hr⟩ => ?_
  have hread := hright.rereads n _ r (')' :: rest) (hrank op).2 (hr.length_lt.trans hn) hr.here.blank
    (EndsExpr.mark (m := .rParen) (by decide) rest)
  exact hread.bind fun right' s ⟨hright', hs⟩ =>
    .pure ⟨_, rfl, by simp [hleft', hright'], hr.trans hs⟩

theorem heads_postfixed {op : PostfixOp} {operand : Expr} {span : Span} (h : Heads operand) :
    Heads (.postfixed op operand span) := by
  have htext : (Expr.postfixed op operand span).text.toList =
      '(' :: (operand.text.toList ++ op.mark.spelling.toList ++ [')']) := by
    simp [Expr.text, op.text_eq]
  have hstops : ∀ rest, stops (op.mark.spelling.toList ++ rest) := by
    intro rest
    cases op <;> rfl
  refine heads_of_operator htext h hstops fun n rest operand' q hoperand hn hq => ?_
  have hshows := hq.alone op.mark (by cases op <;> decide)
  refine .look rfl ?_
  rw [hshows.kind_eq]
  have hgives : Gives (do
      let t ← advance
      return some (Expr.postfixed op operand' (operand'.span.upTo t.span))) q fun e? r =>
      ∃ e, e? = some e ∧ e.unplaced = (Expr.postfixed op operand span).unplaced ∧
        q.Past (')' :: rest) r :=
    (Gives.advance hshows).bind fun t r ⟨_, hr⟩ =>
      .pure ⟨_, rfl, by simp [hoperand], hr⟩
  cases op <;> exact hgives

theorem heads_index {object key : Expr} {span : Span} (hobject : Heads object) (hkey : Heads key) :
    Heads (.index object key span) := by
  have htext : (Expr.index object key span).text.toList =
      '(' :: (object.text.toList ++ '[' :: (key.text.toList ++ [']']) ++ [')']) := by
    simp [Expr.text]
  refine heads_of_operator htext hobject (fun _ => rfl) fun n rest object' q hobject' hn hq => ?_
  replace hq : q.At ('[' :: (key.text.toList ++ ']' :: ')' :: rest)) := by simpa using hq
  have hshows := hq.alone .lBracket (by decide)
  refine .look rfl ?_
  rw [hshows.kind_eq, if_neg (by decide)]
  refine (Gives.advance hshows).bind fun t r ⟨_, hr⟩ => ?_
  have hread := hkey.rereads n .lowest r (']' :: ')' :: rest) (by decide) (hr.length_lt.trans hn)
    hr.here (EndsExpr.mark (m := .rBracket) (by decide) _)
  refine hread.bind fun key' s ⟨hkey', hs⟩ => ?_
  refine (Gives.expect (hs.here.alone .rBracket (by decide))).bind fun _ u ⟨_, hu⟩ => ?_
  exact .pure ⟨_, rfl, by simp [hobject', hkey'], hr.trans (hs.trans hu)⟩

theorem heads_call {function : Expr} {args : List Expr} {span : Span} (hfunction : Heads function)
    (hargs : ∀ e ∈ args, Heads e) : Heads (.call function args span) := by
  have htext : (Expr.call function args span).text.toList = function.text.toList ++
      '(' :: ((commaList (Expr.texts args)).toList ++ [')']) := by
    simp [Expr.text]
  refine heads_of_bare htext hfunction (fun _ => rfl)
    fun n least rest hleast _ function' q hfunction' hn hq => ?_
  replace hq : q.At ('(' :: ((commaList (Expr.texts args)).toList ++ ')' :: rest)) := by
    simpa using hq
  have hshows := hq.alone .lParen (by decide)
  have hbinds : ¬ (Precedence.ofKind Mark.lParen).rank ≤ least.rank := Nat.not_le.2 hleast
  refine .look rfl ?_
  rw [hshows.kind_eq, if_neg hbinds]
  refine (Gives.advance hshows).bind fun t r ⟨_, hr⟩ => ?_
  have hlist := gives_expressionListOf (m := .rParen) (by decide)
    (fun e he => (hargs e he).rereads n) hr.here (hr.length_lt.trans hn)
  refine hlist.bind fun es s ⟨hes, hs, hle⟩ => ?_
  refine (Gives.expect (hs.alone .rParen (by decide))).bind fun _ u ⟨_, hu⟩ => ?_
  refine .pure ⟨_, rfl, by simp [hfunction', hes], hu.here, ?_⟩
  exact (hu.length_lt.trans_le hle).trans hr.length_lt

/-- The mark in front of a property. -/
def accessMark (arrow : Bool) : Mark := if arrow then .arrow else .dot

theorem heads_member {object : Expr} {property : Ident} {arrow : Bool} {span : Span}
    (hobject : Heads object) (hname : isName property.name) :
    Heads (.member object property arrow span) := by
  have htext : (Expr.member object property arrow span).text.toList =
      object.text.toList ++ ((accessMark arrow).spelling.toList ++ property.name.toList) := by
    cases arrow <;> simp [Expr.text, accessMark, Mark.spelling]
  have hstops : ∀ rest, stops ((accessMark arrow).spelling.toList ++ property.name.toList ++ rest) := by
    intro rest
    obtain ⟨c, cs, hcs, hc⟩ := exists_wordStart hname
    have hdigit := TokenRule.not_isDigit_of_isWordStart hc
    rw [hcs]
    cases arrow with
    | true => rfl
    | false => simp [accessMark, Mark.spelling, stops, isWordChar, Char.isAlphanum, hdigit]
  refine heads_of_bare htext hobject hstops
    fun n least rest hleast hrest object' q hobject' hn hq => ?_
  rw [List.append_assoc] at hq
  have hshows := hq.alone (accessMark arrow) (by cases arrow <;> decide)
  have hbinds : ¬ (Precedence.ofKind (accessMark arrow)).rank ≤ least.rank := by
    have hrank : Precedence.call.rank < (Precedence.ofKind (accessMark arrow)).rank := by
      cases arrow <;> decide
    exact Nat.not_le.2 (hleast.trans hrank)
  refine .look rfl ?_
  rw [hshows.kind_eq, if_neg hbinds]
  have hgives : Gives (do
      let _ ← advance
      let property ← ident
      return some (Expr.member object' property arrow (object'.span.upTo property.span))) q
      fun e? r => ∃ e, e? = some e ∧
        e.unplaced = (Expr.member object property arrow span).unplaced ∧ q.Past rest r := by
    refine (Gives.advance hshows).bind ?_
    rintro t r ⟨_, hr⟩
    refine (Gives.ident hr.here hname (stops_head hrest)).bind ?_
    rintro property' s ⟨hproperty, hs⟩
    exact .pure ⟨_, rfl, by simp [Ident.unplaced, hobject', hproperty], hr.trans hs⟩
  cases arrow <;> exact hgives

/-! ## Any expression -/

theorem heads_of_printable (h : e.Printable) : Heads e := by
  induction h with
  | ident hname => exact heads_ident hname
  | int hv => exact heads_int hv
  | string hbody => exact heads_string hbody
  | char hbody => exact heads_char hbody
  | @bool v span =>
    cases v with
    | true => exact heads_constant (k := .trueKw) rfl span
    | false => exact heads_constant (k := .falseKw) rfl span
  | @null span => exact heads_constant (k := .nilKw) rfl span
  | @this span => exact heads_constant (k := .thisKw) rfl span
  | @super span => exact heads_constant (k := .superKw) rfl span
  | prefixed hright ih => exact heads_prefixed hright ih
  | binary _ _ ihleft ihright => exact heads_binary ihleft ihright
  | postfixed _ ih => exact heads_postfixed ih
  | call _ _ ihfunction ihargs => exact heads_call ihfunction ihargs
  | index _ _ ihobject ihkey => exact heads_index ihobject ihkey
  | member _ hname ih => exact heads_member ih hname
  | array _ ih => exact heads_array ih
  | hash _ _ ihkeys ihvalues => exact heads_hash ihkeys ihvalues
  | new htype hclass _ ih => exact heads_new htype hclass ih

/-- The text of an expression is read back up to its end, as the same tree up to spans. -/
theorem expression_text (e : Expr) (h : e.Printable) :
    ∃ e' q, expression .lowest (Parser.ofSource e.text) = .ok e' q ∧ q.atEof ∧
      e'.unplaced = e.unplaced := by
  have hat : (Parser.ofSource e.text).At (e.text.toList ++ []) := by
    rw [List.append_nil]
    exact Parser.at_ofSource e.text
  have hread := (heads_of_printable h).rereads (Parser.ofSource e.text).fuel .lowest
    (Parser.ofSource e.text) [] (by decide) (Nat.lt_of_lt_of_le (Nat.lt_succ_self _) (Nat.le_succ _))
    hat .nil
  obtain ⟨e', q, hok, hsame, hq⟩ := hread
  exact ⟨e', q, hok, by simp [Parser.atEof, hq.here.kind_eof], hsame⟩

/-- An expression with nested type arguments, a chain behind a number and a protected quote. -/
def newBox : Expr :=
  .new (.generic ⟨"Box", {}⟩ [.generic ⟨"List", {}⟩ [.named ⟨"int", {}⟩] {}] {})
    [.binary .rightShift
      (.call (.member (.int 5 {}) ⟨"b", {}⟩ true {}) [.prefixed .negate (.ident ⟨"x", {}⟩) {}] {})
      (.string "\\\"" {}) {}] {}

theorem expression_text_newBox :
    ∃ e q, expression .lowest (Parser.ofSource "new Box<List<int>>((5->b((-x)) >> \"\\\"\"))") =
        .ok e q ∧ q.atEof ∧ e.unplaced = newBox := by
  have htext : newBox.text = "new Box<List<int>>((5->b((-x)) >> \"\\\"\"))" := by decide +kernel
  have hread := expression_text newBox (by
    refine .new (.generic (by decide) (List.cons_ne_nil _ _) fun t ht => ?_) rfl fun e he => ?_
    · obtain rfl := List.mem_singleton.1 ht
      refine .generic (by decide) (List.cons_ne_nil _ _) fun t ht => ?_
      obtain rfl := List.mem_singleton.1 ht
      exact .named (by decide)
    · obtain rfl := List.mem_singleton.1 he
      refine .binary (.call (.member (.int (by decide)) (by decide)) fun e he => ?_)
        (.string (by decide))
      obtain rfl := List.mem_singleton.1 he
      exact .prefixed (.ident (by decide)))
  rw [htext] at hread
  exact hread

/-- A class with an empty list of type arguments can be printed, but not read back. -/
theorem expression_text_noArguments : isName "Foo" ∧ ∀ e q,
    expression .lowest
      (Parser.ofSource (Expr.new (.generic ⟨"Foo", {}⟩ [] {}) [] {}).text) ≠ .ok e q := by
  have hfails : (match expression .lowest
      (Parser.ofSource (Expr.new (.generic ⟨"Foo", {}⟩ [] {}) [] {}).text) with
      | .ok _ _ => false
      | .error _ _ => true) = true := by
    decide +kernel
  refine ⟨by decide, fun e q hok => ?_⟩
  rw [hok] at hfails
  cases hfails

end Parse

end ClassLang
