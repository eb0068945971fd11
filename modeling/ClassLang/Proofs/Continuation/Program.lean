import ClassLang.Proofs.Continuation.MovedReaders
import ClassLang.Proofs.Continuation.Readers
import ClassLang.Proofs.Parsing.Recovery
import ClassLang.Proofs.Tokens.Appending

/-!
# Reading one text behind another

A text without errors is read in the same way when a semicolon and another text stand behind it, and
the other text is read as it would be alone, except that it knows the templates of the first and
comes later by the length of what stands in front. The first half rests on
`Parse.follows_statement`, the second one on `Parse.moves_statement`.
-/

namespace ClassLang

/-! ## Tokens at a later place -/

section

variable {d : Shift}

def Place.moved (d : Shift) (p : Place) : Place :=
  { p with offset := p.offset + d.bytes, line := p.line + d.lines }

theorem Place.after_moved (p : Place) (text : List Char) :
    (p.moved d).after text = (p.after text).moved d := by
  induction text generalizing p with
  | nil => rfl
  | cons c text ih =>
    have hnext : (p.moved d).next c = (p.next c).moved d := by
      unfold Place.next
      split <;> simp [Place.moved, Nat.add_right_comm]
    rw [Place.after_cons, Place.after_cons, hnext, ih]

/-- The tokens of a text that comes later. -/
theorem tokensFrom_moved (p : Place) (text : List Char) :
    tokensFrom (p.moved d) text = (tokensFrom p text).map (Token.moved d) := by
  fun_induction tokensFrom p text with
  | case1 p text q hsplit =>
    rw [tokensFrom_eof _ (Prod.ext rfl hsplit), Place.after_moved]
    rfl
  | case2 p text q c rest hsplit x ih =>
    rw [tokensFrom_token _ (Prod.ext rfl hsplit), Place.after_moved, Place.after_moved,
      List.map_cons, ← ih]
    exact congrArg (· :: _) (by simp only [Lexeme.token, Place.after_moved]; rfl)

/-- What a text in front shifts what follows by. -/
def Shift.behind (front : String) : Shift := ⟨front.utf8ByteSize, front.toList.count '\n'⟩

/-- Behind a line feed, text comes later by whole lines. -/
theorem Place.after_behind {front : String} {text : List Char} (h : front.toList = text ++ ['\n']) :
    Place.start.after front.toList = Place.start.moved (.behind front) := by
  have hoffset : (Place.start.after front.toList).offset = 0 + front.utf8ByteSize := by
    rw [Place.offset_after, String.utf8Len_toList]
    rfl
  have hline := Place.start.line_after front.toList
  have hcolumn : (Place.start.after front.toList).column = 1 := by
    rw [h, Place.after_append]
    rfl
  generalize Place.start.after front.toList = p at hoffset hline hcolumn ⊢
  obtain ⟨offset, line, column⟩ := p
  obtain rfl : offset = 0 + front.utf8ByteSize := hoffset
  obtain rfl : line = 1 + front.toList.count '\n' := hline
  obtain rfl : column = 1 := hcolumn
  rfl

end

/-! ## Statements at a later place -/

namespace Parser

variable {d : Shift}

theorem syncAt_moved (fuel : Nat) (p : Parser) :
    syncAt fuel (p.moved d) = (syncAt fuel p).moved d := by
  induction fuel generalizing p with
  | zero => rfl
  | succ fuel ih =>
    rw [syncAt, syncAt, atEof_moved, kind_moved, advanced_moved, ih]
    split
    · rfl
    split
    · rfl
    split <;> rfl

theorem synced_moved (p : Parser) : (p.moved d).synced = p.synced.moved d := by
  rw [synced, synced, fuel_moved, syncAt_moved]

theorem recovered_moved (p : Parser) (e : ParseError) (q : Parser) :
    recovered (p.moved d) (e.moved d) (q.moved d) = (recovered p e q).moved d := by
  let recorded : Parser := { q with errors := q.errors ++ [e] }
  have hrecorded : { q.moved d with errors := (q.moved d).errors ++ [e.moved d] } =
      recorded.moved d := by
    simp [recorded, moved]
  have hstart : ∀ o : Parser, (o.moved d).current.span.start = o.current.span.start + d.bytes :=
    fun _ => rfl
  have hoffsets : ∀ a b, (a + d.bytes == b + d.bytes) = (a == b) :=
    fun a b => decide_eq_decide.2 Nat.add_right_cancel_iff
  unfold recovered
  rw [hrecorded]
  dsimp only
  rw [synced_moved, hstart, hstart, hoffsets, atEof_moved, advanced_moved, apply_ite (moved d)]

theorem round_moved (p : Parser) :
    (p.moved d).round = (p.round.1.map (Stmt.moved d), p.round.2.moved d) := by
  have hstatement := Parse.moves_statement (d := d) p
  unfold Parse.MovesAt at hstatement
  unfold round
  rw [kind_moved, advanced_moved, hstatement]
  split
  · rfl
  · cases Parse.statement p with
    | ok s q => rfl
    | error e q => exact congrArg _ (recovered_moved p e q)

theorem statementsAt_moved (fuel : Nat) (p : Parser) : statementsAt fuel (p.moved d) =
    ((statementsAt fuel p).1.map (Stmt.moved d), (statementsAt fuel p).2.moved d) := by
  induction fuel generalizing p with
  | zero => rfl
  | succ fuel ih =>
    by_cases heof : p.atEof
    · rw [statementsAt, statementsAt, if_pos heof, if_pos (by simpa using heof)]
      rfl
    · rw [statementsAt_succ fuel heof, statementsAt_succ fuel (by simpa using heof), round_moved,
        ih]
      cases p.round.1 <;> simp

/-! ## Enough fuel -/

/-- Statements up to the end, as a program has them. -/
def read (p : Parser) : List Stmt × Parser := statementsAt p.fuel p

variable {p q p' r : Parser} {stop stop' : Nat}

theorem read_moved (p : Parser) :
    (p.moved d).read = (p.read.1.map (Stmt.moved d), p.read.2.moved d) := by
  unfold read
  rw [fuel_moved, statementsAt_moved]

theorem length_round_lt (hp : p.Ordered stop) (heof : ¬ p.atEof) :
    p.round.2.rest.length < p.rest.length := by
  rcases round_cases hp heof with h | ⟨_, _, _, h⟩
  · exact h.2
  · exact h.length_lt

theorem ordered_round (hp : p.Ordered stop) (heof : ¬ p.atEof) : p.round.2.Ordered stop := by
  rcases round_cases hp heof with h | ⟨_, _, _, h⟩
  · exact h.leads.ordered stop hp
  · exact h.ordered stop hp

/-- More fuel than there are tokens makes no difference. -/
theorem statementsAt_eq (n m : Nat) (hp : p.Ordered stop) (hn : p.rest.length < n)
    (hm : p.rest.length < m) : statementsAt n p = statementsAt m p := by
  induction n generalizing m p with
  | zero => exact absurd hn (Nat.not_lt_zero _)
  | succ n ih =>
    obtain ⟨m, rfl⟩ : ∃ m', m = m' + 1 := ⟨m - 1, by omega⟩
    by_cases heof : p.atEof
    · rw [statementsAt, statementsAt, if_pos heof, if_pos heof]
    · have hlt := length_round_lt hp heof
      rw [statementsAt_succ n heof, statementsAt_succ m heof,
        ih m (ordered_round hp heof) (by omega) (by omega)]

theorem read_of_eof (heof : p.atEof) : p.read = ([], p) := by
  rw [read, fuel, statementsAt, if_pos heof]

theorem read_round (hp : p.Ordered stop) (heof : ¬ p.atEof) :
    p.read = (p.round.1.toList ++ p.round.2.read.1, p.round.2.read.2) := by
  have hlt := length_round_lt hp heof
  have hfuel : statementsAt (p.rest.length + 1) p.round.2 = p.round.2.read :=
    statementsAt_eq _ _ (ordered_round hp heof) (by omega) (by rw [fuel]; omega)
  rw [← hfuel]
  exact statementsAt_succ (p.rest.length + 1) heof

/-- Errors that were recorded stay. -/
theorem errors_read (hp : p.Ordered stop) : p.errors <+: p.read.2.errors := by
  induction hn : p.rest.length using Nat.strong_induction_on generalizing p with
  | _ n ih =>
    by_cases heof : p.atEof
    · have hread : p.read.2 = p := congrArg Prod.snd (read_of_eof heof)
      exact hread.symm ▸ List.prefix_rfl
    · rw [read_round hp heof]
      have hrest := ih _ (hn ▸ length_round_lt hp heof) (ordered_round hp heof) rfl
      rcases round_cases hp heof with h | ⟨e, _, _, h⟩
      · rwa [h.leads.errors] at hrest
      · rw [h.errors] at hrest
        exact (List.prefix_append _ _).trans hrest

/-- Where no error is recorded in the end, none is recorded in the first round. -/
theorem errors_round (hp : p.Ordered stop) (heof : ¬ p.atEof)
    (hclean : p.read.2.errors = p.errors) : p.round.2.errors = p.errors := by
  rcases round_cases hp heof with hpasses | ⟨e, -, -, hresumes⟩
  · exact hpasses.leads.errors
  · have hprefix := (errors_read (ordered_round hp heof)).length_le
    rw [read_round hp heof] at hclean
    rw [hclean, hresumes.errors, List.length_append] at hprefix
    exact absurd hprefix (by simp)

/-! ## Statements with more text behind -/

/-- A round without an error is followed, unless it ends at the end of the first text. -/
theorem Alongside.round (h : Alongside r p p') (hp : p.Ordered stop) (hne : p.kind ≠ .eof)
    (herrors : p.round.2.errors = p.errors) : p'.round.1 = p.round.1 ∧
      (Alongside r p.round.2 p'.round.2 ∨
        p.round.2.kind = .eof ∧ p'.round.2 = r.resumed p.round.2) := by
  unfold Parser.round at herrors ⊢
  rw [h.kind_eq hne]
  split
  · exact ⟨rfl, .inl (h.advanced hne)⟩
  rename_i hsemi
  rw [if_neg hsemi] at herrors
  have hstatement := Parse.ends_statement hp
  unfold Parse.Ends at hstatement
  cases hresult : Parse.statement p with
  | ok s q =>
    obtain ⟨q', hresult', hq'⟩ := Parse.follows_statement p p' h s q hresult
    rw [hresult']
    exact ⟨rfl, hq'⟩
  | error e q =>
    rw [hresult] at hstatement herrors
    have hresumes := resumes_recovered hp (fun heof => hne (eq_of_beq heof)) hstatement
    exact absurd (hresumes.errors.symm.trans herrors) (by simp)

/-- Without errors, the second parser reads what the first one reads, and goes on behind it. -/
theorem Alongside.read (h : Alongside r p p') (hp : p.Ordered stop) (hp' : p'.Ordered stop')
    (hclean : p.read.2.errors = p.errors) :
    p'.read = (p.read.1 ++ (r.resumed p.read.2).read.1, (r.resumed p.read.2).read.2) := by
  induction hn : p.rest.length using Nat.strong_induction_on generalizing p p' with
  | _ n ih =>
    by_cases hend : p.kind = .eof
    · have hsemi : p'.kind = Mark.semicolon := h.kind_of_eof hend
      have hround : p'.round = (none, r.resumed p) := by
        rw [Parser.round, hsemi, if_pos (by decide), h.advanced_of_eof hend]
      rw [read_of_eof (p := p) (by simp [atEof, hend]),
        read_round hp' (by simp [atEof, hsemi]), hround]
      rfl
    have heof : ¬ p.atEof := fun heof => hend (eq_of_beq heof)
    have heof' : ¬ p'.atEof := by
      rw [atEof, h.kind_eq hend]
      exact heof
    have herrors := errors_round hp heof hclean
    have hordered := ordered_round hp heof
    rw [read_round hp heof] at hclean ⊢
    rw [read_round hp' heof']
    obtain ⟨hstmt, hnext | ⟨hlast, hnext⟩⟩ := h.round hp hend herrors
    · have hrest := ih _ (hn ▸ length_round_lt hp heof) hnext hordered (ordered_round hp' heof')
        (hclean.trans herrors.symm) rfl
      rw [hstmt, hrest, List.append_assoc]
    · rw [hstmt, hnext, read_of_eof (p := p.round.2) (by simp [atEof, hlast]), List.append_nil]

end Parser

/-! ## One text behind another -/

/-- The tokens of a text stand in front of a semicolon and of the tokens of more text. -/
theorem Ordered.until {stop : Nat} {ts : List Token} (h : Ordered stop ts) {s : Token}
    (hs : s.kind = Mark.semicolon) (after : List Token) :
    Until after ts (ts.dropLast ++ s :: after) := by
  induction h with
  | eof hkind => exact .eof hkind hs
  | cons hkind _ _ _ ih => exact .token hkind ih

/-- The text that stands between two texts that are read one behind the other. -/
def separator : String := "\n;\n"

theorem tokenize_append {front : String} (more : String) (hterminated : isTerminated front) :
    ∃ s : Token, s.kind = Mark.semicolon ∧ tokenize (front ++ separator ++ more) =
      (tokenize front).dropLast ++
        s :: (tokenize more).map (Token.moved (.behind (front ++ separator))) := by
  have hjoint : (front ++ separator).toList = front.toList ++ ['\n'] ++ [';'] ++ ['\n'] := by
    simp [separator]
  have hall : (front ++ separator ++ more).toList =
      front.toList ++ '\n' :: ([';'] ++ '\n' :: more.toList) := by
    simp [separator]
  let p := Place.start.after (front.toList ++ ['\n'])
  have hsemicolon : tokensFrom p [';'] = [⟨Mark.semicolon, ";", .between p (p.after [';'])⟩,
      ⟨.eof, "", .between (p.after [';']) (p.after [';'])⟩] := by
    have hnil : tokensFrom (p.after [';']) [] = [⟨.eof, "", _⟩] := tokensFrom_eof _ rfl
    have htoken : tokensFrom p [';'] = _ := tokensFrom_token _ rfl
    rw [htoken]
    exact congrArg _ hnil
  have hplace : p.after ([';'] ++ ['\n']) = Place.start.moved (.behind (front ++ separator)) := by
    rw [← Place.after_behind hjoint, hjoint, List.append_assoc _ [';'],
      Place.after_append _ _ ([';'] ++ _)]
  refine ⟨⟨Mark.semicolon, ";", .between p (p.after [';'])⟩, rfl, ?_⟩
  rw [tokenize, hall, tokensFrom_append _ _ _ hterminated, tokensFrom_append _ p [';'] (by decide),
    hsemicolon, hplace, tokensFrom_moved]
  rfl

theorem Parser.tokens_ofSource (source : String) :
    (Parser.ofSource source).current :: (Parser.ofSource source).rest = tokenize source := by
  unfold Parser.ofSource Parser.ofTokens
  split
  · next h => exact h.symm
  · next h => exact absurd h (tokensFrom_ne_nil _ _)

theorem Parser.fresh_ofSource (source : String) :
    (Parser.ofSource source).errors = [] ∧ (Parser.ofSource source).templates = [] := by
  unfold Parser.ofSource Parser.ofTokens
  split <;> exact ⟨rfl, rfl⟩

/-- Behind a text without errors and a semicolon, another text is read as it would be alone by a
parser that knows the templates of the first, at the place where it stands then. -/
theorem parse_append (front more : String) (hterminated : isTerminated front)
    (hclean : (parse front).2 = []) :
    let d := Shift.behind (front ++ separator)
    let p : Parser :=
      { Parser.ofSource more with templates := (Parser.ofSource front).program.2.templates }
    (parse (front ++ separator ++ more)).1.stmts =
        (parse front).1.stmts ++ p.program.1.stmts.map (Stmt.moved d) ∧
      (parse (front ++ separator ++ more)).2 = p.program.2.errors.map (ParseError.moved d) := by
  intro d p
  obtain ⟨s, hs, htokens⟩ := tokenize_append more hterminated
  let first := Parser.ofSource front
  let joint := Parser.ofSource (front ++ separator ++ more)
  let after := (Parser.ofSource more).moved d
  have hfirst := Parser.fresh_ofSource front
  have hjoint := Parser.fresh_ofSource (front ++ separator ++ more)
  have hordered : first.Ordered front.utf8ByteSize := Parser.ordered_ofSource front
  have hafter : after.current :: after.rest = (tokenize more).map (Token.moved d) :=
    congrArg (List.map (Token.moved d)) (Parser.tokens_ofSource more)
  have htail : joint.current :: joint.rest =
      (first.current :: first.rest).dropLast ++ s :: (after.current :: after.rest) := by
    rw [Parser.tokens_ofSource front, hafter, ← htokens]
    exact Parser.tokens_ofSource _
  have halongside : Parser.Alongside after first joint :=
    ⟨htail ▸ Ordered.until hordered hs _, hjoint.1.trans hfirst.1.symm,
      hjoint.2.trans hfirst.2.symm⟩
  have hresumed : after.resumed first.read.2 = p.moved d := by
    have herrors :
        first.read.2.errors = (Parser.ofSource more).errors.map (ParseError.moved d) := by
      rw [(Parser.fresh_ofSource more).1]
      exact hclean
    rw [Parser.resumed, herrors]
    rfl
  have hread := halongside.read hordered (Parser.ordered_ofSource _) (hclean.trans hfirst.1.symm)
  rw [hresumed, Parser.read_moved] at hread
  exact ⟨congrArg Prod.fst hread, congrArg (fun r => r.2.errors) hread⟩

/-- A template, and a declaration that ends without a value. -/
def identityTemplate : String := "template<T> func id(x T) T { return x }\nvar n int"

/-- A use of the template, a loop, and a declaration that has a number for a name. -/
def identityUse : String := "var m = id<int>(n) for 1 {}\nvar 2"

/-- The use is read as a type argument, and the error is reported where it stands. -/
theorem parse_append_identity :
    let d := Shift.behind (identityTemplate ++ separator)
    let p : Parser := { Parser.ofSource identityUse with
      templates := (Parser.ofSource identityTemplate).program.2.templates }
    isTerminated identityTemplate ∧ (parse identityTemplate).2 = [] ∧
      p.templates = ["id"] ∧ p.program.1.stmts.length = 2 ∧ p.program.2.errors.length = 1 ∧
      (parse (identityTemplate ++ separator ++ identityUse)).1.stmts =
        (parse identityTemplate).1.stmts ++ p.program.1.stmts.map (Stmt.moved d) ∧
      (parse (identityTemplate ++ separator ++ identityUse)).2 =
        p.program.2.errors.map (ParseError.moved d) := by
  intro d p
  have hend : isTerminated identityTemplate := by decide +kernel
  have hclean : (parse identityTemplate).2 = [] := by decide +kernel
  exact ⟨hend, hclean, by decide +kernel, by decide +kernel, by decide +kernel,
    parse_append identityTemplate identityUse hend hclean⟩

end ClassLang
