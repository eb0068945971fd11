import ClassLang.Proofs.Printing.Spelling
import ClassLang.Proofs.Tokens.Segmentation

/-!
# Where literals end

Whether a literal is closed is decided twice. The scan goes forward and remembers whether the
character at hand is protected (`closing?` is that scan, with what it finds); the body is found by
counting backwards the backslashes at the end of what was taken (`endsClosed`). The two meet in
`Guarded`, which counts the backslashes in front of every delimiter: they agree on every text,
closed or not, and so the literal of a token is what stands between its delimiters.
-/

namespace ClassLang

open String (utf8Len)

variable {d c : Char} {body text rest : List Char}

/-! ## Delimiters that are protected -/

/-- In front of each delimiter in a text stands an odd run of backslashes. -/
def Guarded (d : Char) (text : List Char) : Prop :=
  ∀ front rest, text = front ++ d :: rest → endsEscaped front

/-- The body of a literal protects nothing behind it. -/
theorem LiteralBody.endsEscaped_eq (h : LiteralBody d body) : endsEscaped body = false := by
  induction h with
  | nil => rfl
  | plain hslash _ _ ih => rw [endsEscaped_cons hslash, ih]
  | protected_ c _ ih => rw [endsEscaped_protected, ih]

/-- The pairs that a body is read in tell the same about its delimiters as the runs in front of
them. -/
theorem LiteralBody.guarded (h : LiteralBody d body) (hd : d ≠ '\\') : Guarded d body := by
  induction h with
  | nil =>
    intro front rest heq
    simp at heq
  | plain hslash hne _ ih =>
    intro front rest heq
    cases front with
    | nil => exact absurd (List.cons.inj heq).1 hne
    | cons x front =>
      obtain ⟨rfl, htail⟩ := List.cons.inj heq
      rw [endsEscaped_cons hslash]
      exact ih front rest htail
  | protected_ c _ ih =>
    intro front rest heq
    rcases front with _ | ⟨x, _ | ⟨y, front⟩⟩
    · exact absurd (List.cons.inj heq).1.symm hd
    · obtain rfl := (List.cons.inj heq).1
      decide
    · obtain ⟨rfl, hpair⟩ := List.cons.inj heq
      obtain ⟨rfl, htail⟩ := List.cons.inj hpair
      rw [endsEscaped_protected]
      exact ih front rest htail

/-- A backslash at the end is no delimiter. -/
theorem Guarded.dangling (h : Guarded d body) (hd : d ≠ '\\') : Guarded d (body ++ ['\\']) := by
  intro front rest heq
  rcases List.eq_nil_or_concat' rest with rfl | ⟨rest, x, rfl⟩
  · exact absurd (List.append_inj_right' heq rfl) (by simpa using hd.symm)
  · rw [← List.cons_append, ← List.append_assoc] at heq
    exact h front rest (List.append_inj_left' heq rfl)

/-- The bodies of literals are the texts that can be enclosed. -/
theorem isEnclosable_iff_literalBody (hd : d ≠ '\\') :
    isEnclosable d body ↔ LiteralBody d body :=
  ⟨literalBody_of_isEnclosable body,
    fun h => isEnclosable_iff.2 ⟨h.endsEscaped_eq, h.guarded hd⟩⟩

/-! ## Forward -/

/-- A forward scan for the closing delimiter that remembers whether the character at hand is
protected: what stands in front of the delimiter and what behind it, or nothing if the text ends
first. -/
def closing? (d : Char) : (escaped : Bool) → List Char → Option (List Char × List Char)
  | _, [] => none
  | true, c :: text => (closing? d false text).map fun (s, r) => (c :: s, r)
  | false, c :: text =>
    if c = '\\' then (closing? d true text).map fun (s, r) => (c :: s, r)
    else if c = d then some ([], text)
    else (closing? d false text).map fun (s, r) => (c :: s, r)

/-- The scan goes over the body of a literal, and protects nothing behind it. -/
theorem closing?_append (h : LiteralBody d body) (text : List Char) :
    closing? d false (body ++ text) = (closing? d false text).map fun (s, r) => (body ++ s, r) := by
  induction h with
  | nil => simp
  | plain hslash hne _ ih =>
    rw [List.cons_append, closing?, if_neg hslash, if_neg hne, ih, Option.map_map]
    rfl
  | protected_ c _ ih =>
    rw [List.cons_append, List.cons_append, closing?, if_pos rfl, closing?, ih, Option.map_map,
      Option.map_map]
    rfl

theorem closing?_closed (h : LiteralBody d body) (hd : d ≠ '\\') (rest : List Char) :
    closing? d false (body ++ d :: rest) = some (body, rest) := by
  simp [closing?_append h, closing?, hd]

theorem closing?_unclosed (h : LiteralBody d body) : closing? d false body = none := by
  simpa [closing?] using closing?_append h []

theorem closing?_dangling (h : LiteralBody d body) : closing? d false (body ++ ['\\']) = none := by
  simp [closing?_append h, closing?]

/-! ## Backward -/

/-- Whether what was taken behind the opening delimiter ends in a delimiter that an even run of
backslashes stands in front of. -/
def endsClosed (d : Char) (inner : List Char) : Bool :=
  inner.getLast? == some d && !endsEscaped inner.dropLast

theorem literalBody_eq (d : Char) (inner : List Char) :
    literalBody d inner = if endsClosed d inner then inner.dropLast else inner := by
  simp [literalBody, endsClosed]

theorem endsClosed_closed (h : endsEscaped body = false) : endsClosed d (body ++ [d]) = true := by
  simp [endsClosed, h]

theorem endsClosed_of_guarded (h : Guarded d text) : endsClosed d text = false := by
  rcases List.eq_nil_or_concat' text with rfl | ⟨front, x, rfl⟩
  · rfl
  · by_cases hx : x = d
    · subst hx
      simp [endsClosed, h front [] rfl]
    · simp [endsClosed, hx]

/-! ## Both ways agree -/

/-- What the two algorithms make of the text behind an opening delimiter: which part of it is the
literal, and whether that is closed. -/
inductive LiteralCut (d : Char) (text literal : List Char) : Prop
  | closed {rest : List Char} (htext : text = literal ++ d :: rest)
    (heven : endsEscaped literal = false) (hfirst : Guarded d literal)
    (hsplit : splitDelimited d text = (literal ++ [d], rest))
    (hforward : closing? d false text = some (literal, rest))
    (hbackward : endsClosed d (literal ++ [d]) = true)
  | unclosed (hliteral : literal = text) (hguarded : Guarded d literal)
    (hsplit : splitDelimited d text = (literal, []))
    (hforward : closing? d false text = none) (hbackward : endsClosed d literal = false)

theorem literalCut (hd : d ≠ '\\') (text : List Char) :
    LiteralCut d text (literalBody d (splitDelimited d text).1) := by
  have happend := splitDelimited_append d text
  rcases splitDelimited_cases d text with ⟨body, hbody, hs⟩ | ⟨hr, body, hbody, hs⟩
  · have heven := hbody.endsEscaped_eq
    have hbackward := endsClosed_closed (d := d) heven
    rw [hs, List.append_assoc] at happend
    generalize (splitDelimited d text).2 = rest at happend
    subst happend
    have hsplit := splitDelimited_closed hbody hd rest
    have hliteral : literalBody d (body ++ [d]) = body := by
      rw [literalBody_eq, if_pos hbackward, List.dropLast_concat]
    rw [hs, hliteral]
    exact .closed rfl heven (hbody.guarded hd) hsplit (closing?_closed hbody hd rest) hbackward
  · rw [hr, List.append_nil] at happend
    have hsplit : splitDelimited d text = (text, []) := Prod.ext happend hr
    obtain ⟨hguarded, hforward⟩ : Guarded d text ∧ closing? d false text = none := by
      rw [← happend]
      rcases hs with hs | hs
      · rw [hs]
        exact ⟨hbody.guarded hd, closing?_unclosed hbody⟩
      · rw [hs]
        exact ⟨(hbody.guarded hd).dangling hd, closing?_dangling hbody⟩
    have hbackward := endsClosed_of_guarded hguarded
    have hliteral : literalBody d text = text := by
      rw [literalBody_eq, if_neg (by simp [hbackward])]
    rw [happend, hliteral]
    exact .unclosed rfl hguarded hsplit hforward hbackward

/-! ## Tokens -/

/-- A token is read off the front of what stands behind a front of the text. -/
theorem mem_tokensFrom {t : Token} {p : Place} (h : t ∈ tokensFrom p text) (hkind : t.kind ≠ .eof) :
    ∃ front c rest, text = front ++ c :: rest ∧
      t = (Lexeme.ofText c rest).token (p.after front) := by
  fun_induction tokensFrom p text with
  | case1 p text q hsplit =>
    obtain rfl := List.mem_singleton.1 h
    exact absurd rfl hkind
  | case2 p text q c rest hsplit x ih =>
    have happend := splitTrivia_append text
    rw [hsplit] at happend
    rcases List.mem_cons.1 h with rfl | h
    · exact ⟨_, c, rest, happend.symm, rfl⟩
    · obtain ⟨front, c', rest', hrest, rfl⟩ := ih h
      have hx : x.text ++ x.rest = c :: rest := (Lexeme.sound_ofText c rest).append
      refine ⟨(splitTrivia text).1 ++ x.text ++ front, c', rest', ?_, ?_⟩
      · rw [List.append_assoc, List.append_assoc, ← hrest, hx, happend]
      · rw [Place.after_append, Place.after_append]

/-- Only delimited literals make tokens of the classes of literals. -/
theorem TokenRule.exists_delimited {rule : TokenRule}
    (h : rule.kind text = .string ∨ rule.kind text = .char) : ∃ d, rule = delimited d := by
  cases rule with
  | delimited d => exact ⟨d, rfl⟩
  | int | float | mark => rcases h with h | h <;> cases h
  | word =>
    simp only [kind, TokenKind.ofWord] at h
    split at h <;> rcases h with h | h <;> cases h

theorem Lexeme.exists_delimiter
    (h : (ofText c text).kind = .string ∨ (ofText c text).kind = .char) :
    ∃ d : Delimiter, c = d.char ∧ ofText c text = ofDelimited d.kind d.char text := by
  have hx := sound_ofText c text
  rcases hx.munch with ⟨rule, hmatch, hkind, -⟩ | ⟨hkind, -⟩
  · obtain ⟨d, rfl⟩ := TokenRule.exists_delimited (hkind ▸ h)
    have hc : c = d.char := by simpa [TokenRule.starts] using hmatch.starts_of_append hx.append
    subst hc
    exact ⟨d, rfl, by cases d <;> rfl⟩
  · rw [hkind] at h
    rcases h with h | h <;> cases h

namespace Token

/-- The text of a source behind the first character of a token. -/
def ahead (t : Token) (source : String) : List Char := (textFrom source t.span.start).tail

/-- What a token covers behind its first character. -/
def inner (t : Token) (source : String) : List Char := (t.span.slice source).toList.tail

/-- A token is its literal between two delimiters, the second of which is the first one that no odd
run of backslashes stands in front of. -/
structure Closed (t : Token) (source : String) (d : Char) : Prop where
  slice : (t.span.slice source).toList = d :: (t.literal.toList ++ [d])
  even : endsEscaped t.literal.toList = false
  first : Guarded d t.literal.toList
  scan : closing? d false (t.ahead source) = some (t.literal.toList, textFrom source t.span.stop)

/-- A token is its literal behind a delimiter, up to the end of the source, and in front of each
delimiter in it stands an odd run of backslashes. -/
structure Unclosed (t : Token) (source : String) (d : Char) : Prop where
  slice : (t.span.slice source).toList = d :: t.literal.toList
  stop : t.span.stop = source.utf8ByteSize
  guarded : Guarded d t.literal.toList
  scan : closing? d false (t.ahead source) = none

/-- A token is cut out of a source by its delimiters, and looked at from both ends it is closed or it
is not. -/
structure Delimited (t : Token) (source : String) (d : Delimiter) : Prop where
  kind : t.kind = d.kind
  taken : splitDelimited d.char (t.ahead source) = (t.inner source, textFrom source t.span.stop)
  literal : t.literal.toList = literalBody d.char (t.inner source)
  shape : t.Closed source d.char ∨ t.Unclosed source d.char
  /-- The count of backslashes finds the literal closed if and only if the scan stopped at a
  delimiter. -/
  agree : endsClosed d.char (t.inner source) = (closing? d.char false (t.ahead source)).isSome

/-- The token of a delimited literal behind a front of a source. -/
theorem delimited_ofDelimited (d : Delimiter) {source : String} {front : List Char}
    (hsource : source.toList = front ++ d.char :: text) :
    ((Lexeme.ofDelimited d.kind d.char text).token (Place.start.after front)).Delimited source d := by
  have happend := splitDelimited_append d.char text
  have hcut := literalCut d.char_ne_backslash text
  generalize hsplit : splitDelimited d.char text = split at happend hcut
  obtain ⟨inner, rest⟩ := split
  dsimp only at happend hcut
  subst happend
  have ht : (Lexeme.ofDelimited d.kind d.char (inner ++ rest)).token (Place.start.after front) =
      ⟨d.kind, .ofList (literalBody d.char inner), .between (Place.start.after front)
        ((Place.start.after front).after (d.char :: inner))⟩ := by
    rw [Lexeme.ofDelimited, hsplit]
    rfl
  generalize Lexeme.token _ _ = t at ht
  have hstart : t.span.start = utf8Len front := by
    rw [ht]
    exact (Place.offset_after .start front).trans (Nat.zero_add _)
  have hstop : t.span.stop = utf8Len (front ++ d.char :: inner) := by
    rw [String.utf8Len_append, ← hstart, ht]
    exact Place.offset_after _ _
  have hliteral : t.literal.toList = literalBody d.char inner := by
    rw [ht]
    exact String.toList_ofList
  have hslice : (t.span.slice source).toList = d.char :: inner := by
    rw [slice_eq, covered, hstart, hstop, textBetween_eq (by simpa using hsource),
      String.toList_ofList]
  have hinner : t.inner source = inner := by rw [Token.inner, hslice, List.tail_cons]
  have hahead : t.ahead source = inner ++ rest := by
    rw [ahead, hstart, textFrom_eq hsource, List.tail_cons]
  have hbehind : textFrom source t.span.stop = rest := by
    rw [hstop, textFrom_eq (by simpa using hsource)]
  rw [← hliteral] at hcut
  obtain ⟨hshape, hagree⟩ : (t.Closed source d.char ∨ t.Unclosed source d.char) ∧
      endsClosed d.char inner = (closing? d.char false (inner ++ rest)).isSome := by
    cases hcut with
    | closed _ heven hfirst hsplit' hforward hbackward =>
      obtain ⟨rfl, rfl⟩ := Prod.mk.inj (hsplit.symm.trans hsplit')
      rw [hbackward, hforward]
      exact ⟨.inl ⟨hslice, heven, hfirst, by rw [hahead, hbehind, hforward]⟩, rfl⟩
    | unclosed _ hguarded hsplit' hforward hbackward =>
      obtain ⟨rfl, rfl⟩ := Prod.mk.inj (hsplit.symm.trans hsplit')
      rw [List.append_nil] at hsource
      have hend : t.span.stop = source.utf8ByteSize := by
        rw [hstop, ← hsource]
        exact String.utf8Len_toList source
      rw [hbackward, hforward]
      exact ⟨.inr ⟨hslice, hend, hguarded, by rw [hahead, hforward]⟩, rfl⟩
  exact
    { kind := by rw [ht]
      taken := by rw [hahead, hinner, hbehind, hsplit]
      literal := by rw [hinner, hliteral]
      shape := hshape
      agree := by rw [hinner, hahead, hagree] }

end Token

/-- Stripping the delimiters off a token agrees with the scan that found it: every string or character
token of a source is delimited. -/
theorem delimited_tokenize (source : String) :
    ∀ t ∈ tokenize source, t.kind = .string ∨ t.kind = .char →
      ∃ d : Delimiter, t.Delimited source d := by
  intro t ht hkind
  have hne : t.kind ≠ .eof := by rcases hkind with h | h <;> simp [h]
  obtain ⟨front, c, rest, hsource, rfl⟩ := mem_tokensFrom ht hne
  obtain ⟨d, rfl, hlexeme⟩ := Lexeme.exists_delimiter hkind
  rw [hlexeme]
  exact ⟨d, Token.delimited_ofDelimited d hsource⟩

/-- A closed literal, and one that is not closed though it ends in a delimiter. -/
theorem delimited_tokenize_escaped :
    let source := "'\\\\' \"a\\\""
    let t : Token := ⟨.string, "a\\\"", ⟨5, 9, 1, 6⟩⟩
    t ∈ tokenize source ∧ (∃ d : Delimiter, t.Delimited source d) ∧
      endsClosed '"' (t.inner source) = false := by
  intro source t
  have ht : t ∈ tokenize source := by decide +kernel
  exact ⟨ht, delimited_tokenize source t ht (.inl rfl), by decide +kernel⟩

end ClassLang
