import ClassLang.Proofs.Operators.Grouping
import ClassLang.Proofs.Printing.Roundtrip

/-!
# Reading chains of operators

A chain that is written with blanks between its operands and operators is read as its grouped tree.
The invariant of the loop that extends an operand (`gives_extendAt_chain`): the tree so far is
grouped, its root binds more tightly than the context asks for and at least as tightly as the next
operator, and there is no next operator behind an assignment. An operator between operands takes what
binds more tightly than itself for its right side, so that the next operator binds at most as tightly
as the new root; an assignment takes all of the rest.
-/

namespace ClassLang

/-! ## Chains as texts -/

/-- A text that writes an operand. -/
inductive Atom.Written : Atom → List Char → Prop
  | name {n : String} (hname : isName n) : Written (.name n) n.toList
  | number {v : Nat} {digits : List Char} (hne : digits ≠ []) (hdigits : ∀ c ∈ digits, c.isDigit)
    (hvalue : Binary64.digitsValue 0 digits = v) (hv : v < 2 ^ 63) : Written (.number v) digits

/-- At least one blank, and nothing else. -/
structure AreBlanks (text : List Char) : Prop where
  ne_nil : text ≠ []
  all : ∀ c ∈ text, isBlank c

/-- A text that writes a chain, with blanks around its operators. -/
inductive ChainText : Atom → List (Mark × Atom) → List Char → Prop
  | last {a : Atom} {word : List Char} (ha : a.Written word) : ChainText a [] word
  | more {a b : Atom} {m : Mark} {xs : List (Mark × Atom)} {word before after text : List Char}
    (ha : a.Written word) (hbefore : AreBlanks before) (hm : m.isBinary) (hafter : AreBlanks after)
    (h : ChainText b xs text) :
    ChainText a ((m, b) :: xs) (word ++ (before ++ (m.spelling.toList ++ (after ++ text))))

/-! ## Chains as tokens -/

/-- An operand that is not the name of a template. -/
def Atom.Free (templates : List String) : Atom → Prop
  | .name n => n ∉ templates
  | .number _ => True

/-- A token that is an operand. -/
def Atom.Is : Atom → Token → Prop
  | .name n, t => t.kind = .ident ∧ t.literal = n
  | .number v, t => t.kind = .int ∧ Binary64.digitsValue 0 t.literal.toList = v ∧ v < 2 ^ 63

/-- The tokens behind an operand of a chain, up to the end marker. -/
inductive Ahead : List (Mark × Atom) → List Token → Prop
  | nil {t : Token} (hkind : t.kind = .eof) : Ahead [] [t]
  | cons {m : Mark} {b : Atom} {xs : List (Mark × Atom)} {o t : Token} {ts : List Token}
    (hm : m.isBinary) (hkind : o.kind = m) (hb : b.Is t) (h : Ahead xs ts) :
    Ahead ((m, b) :: xs) (o :: t :: ts)

section

variable {c : Char} {blanks rest text word : List Char} {ts : List Token} {a : Atom}
  {xs : List (Mark × Atom)} {m : Mark}

theorem Ahead.length_eq (h : Ahead xs ts) : ts.length = 2 * xs.length + 1 := by
  induction h with
  | nil => rfl
  | cons _ _ _ _ ih =>
    simp only [List.length_cons, ih]
    omega

theorem stops_of_blank (hc : isBlank c) : stops (c :: rest) := by
  simp only [isBlank, Bool.or_eq_true, beq_iff_eq] at hc
  obtain (((rfl | rfl) | rfl) | rfl) | rfl := hc <;> rfl

theorem AreBlanks.stops (h : AreBlanks blanks) (rest : List Char) : stops (blanks ++ rest) := by
  obtain ⟨hne, hblanks⟩ := h
  cases blanks with
  | nil => exact absurd rfl hne
  | cons c blanks => exact stops_of_blank (hblanks c List.mem_cons_self)

/-- The first token of a text with blanks in front, which is no angle without any. -/
theorem Spells.behind (hblanks : ∀ c ∈ blanks, isBlank c) (h : Spells ts (blanks ++ c :: rest))
    (hangle : blanks = [] → c ≠ '>') (hbare : (splitTrivia (c :: rest)).2 = c :: rest) :
    ∃ t ts', ts = t :: ts' ∧ t.kind = (Lexeme.ofText c rest).kind ∧
      t.literal = .ofList (Lexeme.ofText c rest).literal ∧ Spells ts' (Lexeme.ofText c rest).rest := by
  refine h.front ?_ ((splitTrivia_blanks hblanks _).trans hbare)
  cases blanks with
  | nil => simpa using hangle rfl
  | cons d blanks =>
    have hd : d ≠ '>' := by
      rintro rfl
      exact absurd (hblanks _ List.mem_cons_self) (by decide)
    simpa using hd

/-- An operand is one token. -/
theorem Atom.Written.token (ha : a.Written word) (hblanks : ∀ c ∈ blanks, isBlank c)
    (hrest : stops rest) (h : Spells ts (blanks ++ (word ++ rest))) :
    ∃ t ts', ts = t :: ts' ∧ a.Is t ∧ Spells ts' rest := by
  cases ha with
  | @name n hname =>
    obtain ⟨c, cs, hcs, hc, hall, hword⟩ := exists_word hname
    rw [hcs, List.cons_append] at h
    obtain ⟨hangle, hbare⟩ := bare_of_class hc (by decide) (cs ++ rest)
    obtain ⟨t, ts', hts, hkind, hliteral, h⟩ := h.behind hblanks (fun _ => hangle) hbare
    rw [Lexeme.ofText_word hc hall (stops_head hrest)] at hkind hliteral h
    refine ⟨t, ts', hts, ⟨hkind.trans hword, ?_⟩, h⟩
    rw [hliteral, Lexeme.plain, ← hcs, String.ofList_toList]
  | number hne hdigits hvalue hv =>
    cases word with
    | nil => exact absurd rfl hne
    | cons c cs =>
      obtain ⟨hc, hcs⟩ := List.forall_mem_cons.1 hdigits
      rw [List.cons_append] at h
      obtain ⟨hangle, hbare⟩ := bare_of_class hc (by decide) (cs ++ rest)
      obtain ⟨t, ts', hts, hkind, hliteral, h⟩ := h.behind hblanks (fun _ => hangle) hbare
      rw [Lexeme.ofText_digits hc hcs hrest] at hkind hliteral h
      refine ⟨t, ts', hts, ⟨hkind, ?_, hv⟩, h⟩
      rw [hliteral, Lexeme.plain, String.toList_ofList, hvalue]

/-- Between blanks a mark is one token. -/
theorem AreBlanks.token {before after : List Char} (hbefore : AreBlanks before)
    (hafter : AreBlanks after)
    (h : Spells ts (before ++ (m.spelling.toList ++ (after ++ rest)))) :
    ∃ t ts', ts = t :: ts' ∧ t.kind = m ∧ Spells ts' (after ++ rest) := by
  have hends : ∀ c ∈ (after ++ rest).head?, c ∉ m.continuations := by
    obtain ⟨hne, hall⟩ := hafter
    cases after with
    | nil => exact absurd rfl hne
    | cons d after =>
      intro c hc
      obtain rfl : d = c := by simpa using hc
      exact m.blank_notMem_continuations (hall d List.mem_cons_self)
  cases hfront : m.spelling.toList ++ (after ++ rest) with
  | nil =>
    obtain ⟨-, hrest⟩ := List.append_eq_nil_iff.1 hfront
    exact absurd (List.append_eq_nil_iff.1 hrest).1 hafter.ne_nil
  | cons c cs =>
    obtain ⟨hbare, hlexeme⟩ := m.ofText_append hends hfront
    rw [hfront] at h
    obtain ⟨t, ts', hts, hkind, -, h⟩ :=
      h.behind hbefore.all (fun hnil => absurd hnil hbefore.ne_nil) hbare
    rw [hlexeme] at hkind h
    exact ⟨t, ts', hts, hkind, h⟩

/-- The tokens of a chain are its operands and operators. -/
theorem ChainText.tokens (htext : ChainText a xs text) : ∀ {blanks : List Char} {ts : List Token},
    (∀ c ∈ blanks, isBlank c) → Spells ts (blanks ++ text) →
      ∃ t ts', ts = t :: ts' ∧ a.Is t ∧ Ahead xs ts' := by
  induction htext with
  | @last a word ha =>
    intro blanks ts hblanks h
    rw [← List.append_nil word] at h
    obtain ⟨t, ts', rfl, ht, h⟩ := ha.token hblanks rfl h
    refine ⟨t, ts', rfl, ht, ?_⟩
    cases h with
    | eof _ hkind => exact .nil hkind
    | token hsplit => cases hsplit
  | more ha hbefore hm hafter _ ih =>
    intro blanks ts hblanks h
    obtain ⟨t, ts', rfl, ht, h⟩ := ha.token hblanks (hbefore.stops _) h
    obtain ⟨o, ts', rfl, ho, h⟩ := hbefore.token hafter h
    obtain ⟨u, ts', rfl, hu, hahead⟩ := ih hafter.all h
    exact ⟨t, _, rfl, ht, .cons hm ho hu hahead⟩

end

/-! ## Reading chains -/

namespace Parse

variable {templates : List String} {a b : Atom} {m : Mark} {xs zs taken left : List (Mark × Atom)}
  {p q : Parser} {e : Expr} {n fuel : Nat} {least : Precedence} {expr : Precedence → Parse Expr}
  {stmt : Parse Stmt}

/-- A parser stands behind an operand of a chain. -/
structure Behind (templates : List String) (xs : List (Mark × Atom)) (q : Parser) : Prop where
  ahead : Ahead xs (q.current :: q.rest)
  free : ∀ x ∈ xs, x.2.Free templates
  templates_eq : q.templates = templates

/-- A parser stands in front of a chain. -/
structure Before (templates : List String) (a : Atom) (xs : List (Mark × Atom)) (p : Parser) :
    Prop where
  here : a.Is p.current
  free : a.Free templates
  next : Behind templates xs p.advanced

/-- How tightly the operator in front of the rest of a chain binds. -/
def frontRank : List (Mark × Atom) → Nat
  | [] => Precedence.lowest.rank
  | (m, _) :: _ => m.rank

theorem Behind.kind_eof (h : Behind templates [] q) : q.kind = .eof := by
  obtain ⟨hahead, -, -⟩ := h
  generalize hts : q.current :: q.rest = ts at hahead
  cases hahead with
  | nil hkind =>
    obtain ⟨rfl, -⟩ := List.cons.inj hts
    exact hkind

theorem Behind.uncons (h : Behind templates ((m, b) :: xs) q) :
    m.isBinary ∧ q.kind = m ∧ Before templates b xs q.advanced := by
  obtain ⟨hahead, hfree, htemplates⟩ := h
  obtain ⟨hb, hxs⟩ := List.forall_mem_cons.1 hfree
  obtain ⟨current, rest, errors, known⟩ := q
  cases hahead with
  | @cons _ _ _ _ t ts hm hkind hatom h =>
    refine ⟨hm, hkind, hatom, hb, ?_⟩
    cases ts with
    | nil => cases h
    | cons u us => exact ⟨h, hxs, htemplates⟩

theorem Behind.rank_kind (h : Behind templates xs q) :
    (Precedence.ofKind q.kind).rank = frontRank xs := by
  cases xs with
  | nil => rw [h.kind_eof]; rfl
  | cons x xs =>
    obtain ⟨m, b⟩ := x
    rw [h.uncons.2.1]
    rfl

theorem Behind.length_eq (h : Behind templates xs q) : q.rest.length = 2 * xs.length :=
  Nat.succ.inj h.ahead.length_eq

theorem frontRank_le (xs : List (Mark × Atom)) : frontRank xs ≤ Precedence.member.rank := by
  have hall : ∀ p : Precedence, p.rank ≤ Precedence.member.rank := by
    intro p
    cases p <;> decide
  cases xs with
  | nil => exact hall .lowest
  | cons x xs => exact hall _

/-- What has been read of a chain: a grouped tree for its front, which binds more tightly than the
context asks for. -/
structure Front (templates : List String) (least : Precedence) (a : Atom)
    (taken left : List (Mark × Atom)) (e : Expr) (q : Parser) : Prop where
  reads : e.Reads a taken
  grouped : e.Grouped
  tight : least.rank < e.rank
  behind : Behind templates left q

/-- A front that the next operator may extend. -/
structure Open (templates : List String) (least : Precedence) (a : Atom)
    (taken left : List (Mark × Atom)) (e : Expr) (q : Parser) : Prop
    extends Front templates least a taken left e q where
  next : frontRank left ≤ e.rank
  assign : e.isAssign → left = []

/-- Of a chain a front has been read, up to an operator that binds no more tightly than the context
asks for. -/
def Takes (templates : List String) (least : Precedence) (a : Atom) (zs : List (Mark × Atom))
    (e : Expr) (q : Parser) : Prop :=
  ∃ taken left, zs = taken ++ left ∧ Front templates least a taken left e q ∧
    frontRank left ≤ least.rank

/-- In the loosest context all of a chain is read. -/
theorem Takes.all (h : Takes templates .lowest a zs e q) : Front templates .lowest a zs [] e q := by
  obtain ⟨taken, left, rfl, hfront, hle⟩ := h
  cases left with
  | nil => rwa [List.append_nil]
  | cons x left =>
    have hpos := Mark.rank_pos hfront.behind.uncons.1
    exact absurd hle (Nat.not_le.2 hpos)

/-! ### Operands -/

theorem gives_advance : Gives advance p fun t q => p.current = t ∧ p.advanced = q :=
  ⟨_, _, rfl, rfl, rfl⟩

theorem gives_ident (hkind : p.current.kind = .ident) :
    Gives ident p fun name q => name.name = p.current.literal ∧ p.advanced = q := by
  have hexpect : Gives (expect .ident) p fun t q => p.current = t ∧ p.advanced = q := by
    refine ⟨_, _, ?_, rfl, rfl⟩
    unfold expect
    rw [if_pos (by simp [Parser.kind, hkind])]
  exact hexpect.bind fun t q ⟨ht, hq⟩ => .pure ⟨ht ▸ rfl, hq⟩

theorem gives_operand (hp : Before templates a xs p) (hleast : least.rank < Precedence.member.rank) :
    Gives (operand expr stmt) p (Open templates least a [] xs) := by
  obtain ⟨hhere, hfree, hnext⟩ := hp
  refine .look rfl ?_
  cases a with
  | name x =>
    obtain ⟨hkind, hliteral⟩ := hhere
    rw [hkind]
    refine (gives_ident hkind).bind fun name q hident => ?_
    obtain ⟨hname, rfl⟩ := hident
    replace hfree : name.name ∉ p.advanced.templates := by
      rwa [hname, hliteral, hnext.templates_eq]
    refine .look rfl (.look rfl ?_)
    rw [if_neg (by simp [Parser.isTemplate, hfree])]
    exact .pure ⟨⟨.name (hname.trans hliteral), .name name, hleast, hnext⟩, frontRank_le xs,
      by simp [Expr.isAssign]⟩
  | number v =>
    obtain ⟨hkind, hvalue, hv⟩ := hhere
    rw [hkind]
    refine gives_advance.bind fun t q hadvance => ?_
    obtain ⟨rfl, rfl⟩ := hadvance
    rw [hvalue, if_pos (show v < Nat.pow 2 63 from hv)]
    exact .pure ⟨⟨.number, .number v _, hleast, hnext⟩, frontRank_le xs, by simp [Expr.isAssign]⟩

/-! ### Operators -/

/-- An action reads chains with fewer than `n` operators. -/
def ReadsChains (templates : List String) (n : Nat) (expr : Precedence → Parse Expr) : Prop :=
  ∀ (least : Precedence) (b : Atom) (ys : List (Mark × Atom)) (p : Parser), ys.length < n →
    least.rank < Precedence.member.rank → Before templates b ys p →
    Gives (expr least) p (Takes templates least b ys)

/-- An operator and what is taken for its right side have been read. -/
def Further (templates : List String) (least : Precedence) (a : Atom) (taken : List (Mark × Atom))
    (x : Mark × Atom) (left : List (Mark × Atom)) (e : Expr) (q : Parser) : Prop :=
  ∃ more left', left = more ++ left' ∧ Open templates least a (taken ++ x :: more) left' e q

theorem gives_operatorAfter_infix {op : InfixOp} (hexpr : ReadsChains templates n expr)
    (hop : InfixOp.ofKind? m = some op) (h : Open templates least a taken ((m, b) :: left) e q)
    (hleast : least.rank < m.rank) (hn : left.length < n) :
    Gives (operatorAfter expr least e) q fun e? r =>
      ∃ e', e? = some e' ∧ Further templates least a taken (m, b) left e' r := by
  obtain ⟨⟨hreads, hgrouped, -, hbehind⟩, hle, -⟩ := h
  obtain ⟨-, hkind, hbefore⟩ := hbehind.uncons
  obtain rfl := InfixOp.eq_mark_of_ofKind? hop
  have hbound : op.rank < Precedence.member.rank := op.rank_mem.2.trans (by decide)
  refine gives_operatorAfter_binary hkind hleast (gives_advance.bind fun t r ⟨_, hr⟩ => ?_)
  subst hr
  refine (hexpr _ b left _ hn hbound hbefore).bind fun right r htakes => ?_
  obtain ⟨more, left', hleft, hright, hnext⟩ := htakes
  refine .pure ⟨_, rfl, more, left', hleft, ⟨⟨?_, ?_, hleast, hright.behind⟩, hnext, nofun⟩⟩
  · exact .binary hop hreads hright.reads
  · exact .of_rank hgrouped hright.grouped hle hright.tight

theorem gives_operatorAfter_assign {op : AssignOp} (hexpr : ReadsChains templates n expr)
    (hop : AssignOp.ofKind? m = some op) (h : Open templates least a taken ((m, b) :: left) e q)
    (hleast : least.rank < m.rank) (hn : left.length < n) :
    Gives (operatorAfter expr least e) q fun e? r =>
      ∃ e', e? = some e' ∧ Further templates least a taken (m, b) left e' r := by
  obtain ⟨⟨hreads, hgrouped, -, hbehind⟩, -, hassign⟩ := h
  obtain ⟨-, hkind, hbefore⟩ := hbehind.uncons
  have hrank := AssignOp.rank_of_ofKind? hop
  have hgives : Gives (do
      let _ ← advance
      let value ← expr .lowest
      return some (Expr.assign op e value (e.span.upTo value.span))) q fun e? r =>
      ∃ e', e? = some e' ∧ Further templates least a taken (m, b) left e' r := by
    refine gives_advance.bind fun t r ⟨_, hr⟩ => ?_
    subst hr
    refine (hexpr .lowest b left _ hn (by decide) hbefore).bind fun value r hvalue => ?_
    obtain ⟨hvalue, hvalues, -, hend⟩ := hvalue.all
    refine .pure ⟨_, rfl, left, [], (List.append_nil _).symm, ⟨⟨?_, ?_, ?_, hend⟩, ?_, fun _ => rfl⟩⟩
    · exact .assign hop hreads hvalue
    · refine .assign hgrouped hvalues (Bool.eq_false_iff.2 fun h => ?_)
      cases hassign h
    · show least.rank < Precedence.assign.rank
      rwa [← hrank]
    · exact Nat.zero_le _
  refine .look rfl ?_
  have hbinds : ¬ (Precedence.ofKind m).rank ≤ least.rank := Nat.not_le.2 hleast
  rw [hkind, if_neg hbinds]
  cases m <;> cases hop <;> exact hgives

theorem gives_operatorAfter_chain (hexpr : ReadsChains templates n expr)
    (h : Open templates least a taken ((m, b) :: left) e q) (hleast : least.rank < m.rank)
    (hn : left.length < n) :
    Gives (operatorAfter expr least e) q fun e? r =>
      ∃ e', e? = some e' ∧ Further templates least a taken (m, b) left e' r := by
  rcases Mark.isBinary_iff.1 h.behind.uncons.1 with ⟨op, hop⟩ | ⟨op, hop⟩
  · exact gives_operatorAfter_infix hexpr hop h hleast hn
  · exact gives_operatorAfter_assign hexpr hop h hleast hn

/-- The loop takes operators for as long as they bind tightly enough. -/
theorem gives_extendAt_chain (hexpr : ReadsChains templates n expr) :
    ∀ (fuel : Nat) {taken left : List (Mark × Atom)} {e : Expr} {q : Parser},
      Open templates least a taken left e q → left.length ≤ n → q.rest.length < fuel →
      Gives (extendAt (operatorAfter expr least) fuel e) q (Takes templates least a (taken ++ left))
  | 0, _, _, _, _, _, _, hfuel => absurd hfuel (Nat.not_lt_zero _)
  | fuel + 1, taken, left, e, q, h, hn, hfuel => by
    by_cases hdone : frontRank left ≤ least.rank
    · have hrank := h.behind.rank_kind
      exact gives_extendAt_done (hrank ▸ hdone) hfuel ⟨taken, left, rfl, h.toFront, hdone⟩
    cases left with
    | nil => exact absurd (Nat.zero_le _) hdone
    | cons x left =>
      obtain ⟨m, b⟩ := x
      have hstep := gives_operatorAfter_chain hexpr h (Nat.lt_of_not_le hdone) hn
      refine gives_extendAt_step hstep fun e' r ⟨more, left', hleft, h'⟩ => ?_
      subst hleft
      have hlength := h.behind.length_eq
      have hlength' := h'.behind.length_eq
      simp only [List.length_cons, List.length_append] at hn hlength
      have hmore := gives_extendAt_chain hexpr fuel h' (by omega) (by omega)
      rwa [List.append_assoc, List.cons_append] at hmore

/-! ### Whole chains -/

theorem readsChains_expressionAt : ∀ n, ReadsChains templates n (expressionAt n)
  | 0 => fun _ _ _ _ hn => absurd hn (Nat.not_lt_zero _)
  | n + 1 => by
    intro least b ys p hn hleast hp
    have hexpr := readsChains_expressionAt n
    have hoperand : Gives (operand (expressionAt n) (statementAt n)) p
        (Open templates least b [] ys) := gives_operand hp hleast
    show Gives (expressionStep (expressionAt n) (statementAt n) least) p _
    refine hoperand.bind fun e q h => ?_
    exact gives_extendAt_chain hexpr q.fuel h (Nat.le_of_lt_succ hn)
      (Nat.lt_of_lt_of_le (Nat.lt_succ_self _) (Nat.le_succ _))

/-- A chain is read whole, as its grouped tree, and up to spans there is only one. -/
theorem expression_chain (templates : List String) {source : String} {a : Atom}
    {xs : List (Mark × Atom)} (htext : ChainText a xs source.toList) (ha : a.Free templates)
    (hxs : ∀ x ∈ xs, x.2.Free templates) :
    ∃ e q, expression .lowest { Parser.ofSource source with templates } = .ok e q ∧ q.atEof ∧
      e.Reads a xs ∧ e.Grouped ∧
      ∀ e' : Expr, e'.Reads a xs → e'.Grouped → e'.unplaced = e.unplaced := by
  have hspells : Spells ([] ++ tokenize source) source.toList := spells_tokensFrom .start _
  have hblanks : ∀ c ∈ ([] : List Char), isBlank c := by simp
  obtain ⟨t, ts, htokens, hhere, hahead⟩ := htext.tokens hblanks hspells
  have hsource : Parser.ofSource source = { current := t, rest := ts } := by
    rw [Parser.ofSource, show tokenize source = t :: ts from htokens]
    rfl
  rw [hsource]
  have hbefore : Before templates a xs { current := t, rest := ts, templates } := by
    refine ⟨hhere, ha, ?_⟩
    cases ts with
    | nil => cases hahead
    | cons u ts => exact ⟨hahead, hxs, rfl⟩
  have hlength : xs.length < ts.length := by
    have := hahead.length_eq
    omega
  obtain ⟨e, q, hok, htakes⟩ := readsChains_expressionAt (ts.length + 2) .lowest a xs _
    (hlength.trans (by omega)) (by decide) hbefore
  have hfront := htakes.all
  refine ⟨e, q, hok, by simp [Parser.atEof, hfront.behind.kind_eof], hfront.reads, hfront.grouped, ?_⟩
  exact fun e' hreads hgrouped => hreads.unplaced_eq hfront.reads hgrouped hfront.grouped

/-- An assignment in front of differences, one of them with a product. -/
def differences : List (Mark × Atom) :=
  [(.assign, .name "a"), (.minus, .number 1), (.star, .name "b"), (.minus, .name "y")]

theorem expression_chain_differences :
    ∃ e q, expression .lowest { Parser.ofSource "x = a - 1 * b - y" with templates := ["Box"] } =
        .ok e q ∧ q.atEof ∧ e.Reads (.name "x") differences ∧ e.Grouped ∧
      ∀ e' : Expr, e'.Reads (.name "x") differences → e'.Grouped → e'.unplaced = e.unplaced := by
  have hblanks : AreBlanks [' '] := ⟨by decide, List.all_eq_true.1 (by decide)⟩
  have hone : Atom.Written (.number 1) ['1'] :=
    .number (by decide) (List.all_eq_true.1 (by decide)) (by decide) (by decide)
  have htext : ChainText (.name "x") differences "x = a - 1 * b - y".toList :=
    .more (.name (by decide)) hblanks (by decide) hblanks <|
    .more (.name (by decide)) hblanks (by decide) hblanks <|
    .more hone hblanks (by decide) hblanks <|
    .more (.name (by decide)) hblanks (by decide) hblanks <|
    .last (.name (by decide))
  exact expression_chain ["Box"] htext (by simp [Atom.Free]) (by simp [differences, Atom.Free])

end Parse

end ClassLang
