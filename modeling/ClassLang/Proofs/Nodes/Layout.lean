import ClassLang.Proofs.Nodes.Basic
import ClassLang.Proofs.Parsing.Recovery

/-!
# Tokens laid out in a source

The tokens of a source are stretches of it, one behind the other, and the marker stands at its end.
This is what a parser that has read some of them still knows about the others.
-/

namespace ClassLang

open String (utf8Len)

variable {source : String}

/-! ## Points of a source -/

/-- The stretch between two points of a source. -/
theorem Span.placed_between {front text rest : List Char}
    (h : source.toList = front ++ (text ++ rest)) (htext : text ≠ []) :
    (Span.between (Place.start.after front) (Place.start.after (front ++ text))).Placed source := by
  have hoffset : ∀ l, (Place.start.after l).offset = utf8Len l := fun l => by
    rw [Place.offset_after]
    exact Nat.zero_add _
  have hlen : 0 < utf8Len text := Nat.pos_of_ne_zero (mt String.utf8Len_eq_zero.1 htext)
  have hsize : source.utf8ByteSize = utf8Len front + (utf8Len text + utf8Len rest) := by
    rw [← String.utf8Len_toList, h, String.utf8Len_append, String.utf8Len_append]
  refine ⟨?_, ?_, ?_, ?_, front, text ++ rest, h, rfl⟩
  · simp only [Span.between, hoffset, String.utf8Len_append]
    omega
  · simp only [Span.between, hoffset, String.utf8Len_append]
    omega
  · simp only [Span.between, hoffset]
    exact isValid_of_append h
  · simp only [Span.between, hoffset]
    have hbehind : source.toList = (front ++ text) ++ rest := by rw [h, List.append_assoc]
    exact isValid_of_append hbehind

/-! ## Tokens -/

/-- The first half of a token of two characters. -/
def Span.firstHalf (s : Span) : Span := ⟨s.start, s.start + 1, s.line, s.column⟩

/-- The second half of a token of two characters. -/
def Span.secondHalf (s : Span) : Span := ⟨s.start + 1, s.stop, s.line, s.column + 1⟩

/-- What is known about a token that is not the end marker. -/
structure Token.Laid (source : String) (t : Token) : Prop where
  placed : t.span.Placed source
  name : t.kind = .ident → isName t.literal
  /-- Either half of `>>` may be a token of its own. -/
  halves : t.kind = Mark.shiftRight →
    t.span.firstHalf.Placed source ∧ t.span.secondHalf.Placed source

/-- Tokens one behind the other up to the end of a source. -/
inductive Laid (source : String) : List Token → Prop
  | eof {t : Token} (hkind : t.kind = .eof) (hstart : t.span.start = source.utf8ByteSize) :
    Laid source [t]
  | cons {t u : Token} {ts : List Token} (hkind : t.kind ≠ .eof) (ht : t.Laid source)
    (hstop : t.span.stop ≤ u.span.start) (h : Laid source (u :: ts)) : Laid source (t :: u :: ts)

theorem Munch.isName {text rest : List Char} (h : Munch .ident text rest) :
    isName (.ofList text) := by
  rcases h with ⟨rule, hmatch, hkind, -⟩ | ⟨hkind, -⟩
  · cases hmatch with
    | word hc hcs =>
      simp only [TokenRule.kind, TokenKind.ofWord] at hkind
      split at hkind
      · cases hkind
      next hnone => simp [ClassLang.isName, String.toList_ofList, hc, List.all_eq_true.2 hcs, hnone]
    | int | float => cases hkind
    | mark m => cases hkind
    | closed d | unclosed d | dangling d => cases d <;> cases hkind
  · cases hkind

/-- A token read off a source is a stretch of it. -/
theorem Lexeme.laid_token {front rest : List Char} {x : Lexeme}
    (h : source.toList = front ++ rest) (hx : x.Sound rest) :
    (x.token (Place.start.after front)).Laid source := by
  have hsource : source.toList = front ++ (x.text ++ x.rest) := by rw [h, hx.append]
  have hspan : (x.token (Place.start.after front)).span =
      .between (Place.start.after front) (Place.start.after (front ++ x.text)) := by
    rw [Place.after_append]
    rfl
  refine ⟨hspan ▸ Span.placed_between hsource hx.munch.ne_nil, fun hkind => ?_, fun hkind => ?_⟩
  · have hliteral : x.literal = x.text :=
      hx.literal (by rw [show x.kind = _ from hkind]; exact TokenKind.noConfusion)
        (by rw [show x.kind = _ from hkind]; exact TokenKind.noConfusion)
    have hmunch := hx.munch
    rw [show x.kind = _ from hkind] at hmunch
    show isName (.ofList x.literal)
    rw [hliteral]
    exact hmunch.isName
  · have hmunch := hx.munch
    rw [show x.kind = _ from hkind] at hmunch
    rw [hmunch.eq_shiftRight] at hsource hspan
    have hsource₁ : source.toList = front ++ (['>'] ++ '>' :: x.rest) := hsource
    have hsource₂ : source.toList = (front ++ ['>']) ++ (['>'] ++ x.rest) := by simp [hsource]
    have hfirst := Span.placed_between hsource₁ (List.cons_ne_nil _ _)
    have hsecond := Span.placed_between hsource₂ (List.cons_ne_nil _ _)
    have hnext : ∀ p : Place, p.next '>' = ⟨p.offset + 1, p.line, p.column + 1⟩ := fun _ => rfl
    rw [hspan]
    simp only [Span.firstHalf, Span.secondHalf, Span.between, Place.after_append, Place.after_cons,
      Place.after_nil, hnext] at hfirst hsecond ⊢
    exact ⟨hfirst, hsecond⟩

theorem laid_tokensFrom (p : Place) (text : List Char) :
    ∀ front, source.toList = front ++ text → p = Place.start.after front →
      Laid source (tokensFrom p text) ∧
        ∀ t ∈ (tokensFrom p text).head?, p.offset ≤ t.span.start := by
  fun_induction tokensFrom p text with
  | case1 p text q hsplit =>
    rintro front hsource rfl
    have happend := splitTrivia_append text
    rw [hsplit, List.append_nil] at happend
    have hq : q = Place.start.after source.toList := by
      rw [hsource, Place.after_append, ← happend]
    have hsize : q.offset = source.utf8ByteSize := by
      rw [hq, Place.offset_after, String.utf8Len_toList]
      exact Nat.zero_add _
    refine ⟨.eof rfl hsize, fun t ht => ?_⟩
    obtain rfl := Option.some.inj ht
    show (Place.start.after front).offset ≤ q.offset
    rw [Place.offset_after (Place.start.after front)]
    exact Nat.le_add_right _ _
  | case2 p text q c rest hsplit x ih =>
    rintro front hsource rfl
    have happend := splitTrivia_append text
    rw [hsplit] at happend
    have hx : x.Sound (c :: rest) := Lexeme.sound_ofText c rest
    have hfront : source.toList = (front ++ (splitTrivia text).1) ++ (c :: rest) := by
      rw [hsource, List.append_assoc, happend]
    have hq : q = Place.start.after (front ++ (splitTrivia text).1) := by
      rw [Place.after_append]
    have hnext : q.after x.text = Place.start.after (front ++ (splitTrivia text).1 ++ x.text) := by
      rw [hq, ← Place.after_append]
    obtain ⟨hlaid, hhead⟩ := ih (front ++ (splitTrivia text).1 ++ x.text)
      (by rw [hfront, List.append_assoc _ x.text, hx.append]) hnext
    have htoken : (x.token q).Laid source := hq ▸ Lexeme.laid_token hfront hx
    refine ⟨?_, fun t ht => ?_⟩
    · cases htokens : tokensFrom (q.after x.text) x.rest with
      | nil => exact absurd htokens (by rw [htokens] at hlaid; cases hlaid)
      | cons u us =>
        rw [htokens] at hlaid hhead
        exact .cons hx.munch.kind_ne_eof htoken (hhead u rfl) hlaid
    · obtain rfl := Option.some.inj ht
      show (Place.start.after front).offset ≤ q.offset
      rw [Place.offset_after (Place.start.after front)]
      exact Nat.le_add_right _ _

/-! ## Parsers -/

namespace Parser

variable {p q : Parser}

/-- The tokens ahead are laid out in a source. -/
def Laid (source : String) (p : Parser) : Prop := ClassLang.Laid source (p.current :: p.rest)

theorem laid_ofSource (source : String) : (ofSource source).Laid source := by
  have hlaid : ClassLang.Laid source (tokensFrom .start source.toList) :=
    (laid_tokensFrom .start source.toList [] rfl rfl).1
  unfold Parser.Laid ofSource tokenize
  cases htokens : tokensFrom .start source.toList with
  | nil =>
    rw [htokens] at hlaid
    cases hlaid
  | cons t ts =>
    rw [htokens] at hlaid
    exact hlaid

/-- What is known of the current token, and of the state behind it. -/
theorem Laid.token (h : p.Laid source) (hkind : p.kind ≠ .eof) :
    p.current.Laid source ∧ p.advanced.Laid source ∧
      p.current.span.stop ≤ p.advanced.offset := by
  obtain ⟨current, rest, errors, templates⟩ := p
  cases h with
  | eof heof => exact absurd heof hkind
  | cons _ ht hstop h => exact ⟨ht, h, hstop⟩

end Parser

end ClassLang
