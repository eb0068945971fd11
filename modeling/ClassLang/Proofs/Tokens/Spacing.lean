import ClassLang.Proofs.Tokens.Appending
import ClassLang.Proofs.Tokens.Delimited

/-!
# Tokens between single blanks

A blank ends every token that can end, and begins none. So a token that a blank follows is read by
itself, whatever followed it in the source (`Lexeme.ofText_alone`), and the tokens of a source are
those of its slices with single blanks between them. A literal that is never closed takes the rest of
the source, and is the last token in both.
-/

namespace ClassLang

open String (utf8Len)

variable {c : Char} {cs text rest tail : List Char}

/-! ## One token -/

/-- A text is empty or starts with a blank. -/
def Spaced (text : List Char) : Prop := ∀ x ∈ text.head?, isBlank x

theorem isWordChar_of_isBlank (hc : isBlank c) : isWordChar c = false := by
  simp only [isBlank, Bool.or_eq_true, beq_iff_eq] at hc
  rcases hc with (((rfl | rfl) | rfl) | rfl) | rfl <;> decide

namespace Spaced

theorem stops (h : Spaced text) : stops text := by
  cases text with
  | nil => rfl
  | cons x text =>
    have hx : isBlank x := h x rfl
    have hpoint : x ≠ '.' := by
      rintro rfl
      exact absurd hx (by decide)
    simp [ClassLang.stops, isWordChar_of_isBlank hx, hpoint]

theorem not_isDigit (h : Spaced text) : ∀ x ∈ text.head?, x.isDigit = false := fun x hx => by
  have hword := isWordChar_of_isBlank (h x hx)
  simp only [isWordChar, Char.isAlphanum, Bool.or_eq_false_iff] at hword
  exact hword.1.2

theorem notMem_continuations (h : Spaced text) (m : Mark) :
    ∀ x ∈ text.head?, x ∉ m.continuations :=
  fun x hx => m.blank_notMem_continuations (h x hx)

end Spaced

/-- A mark at the front of a character that a blank follows is that character. -/
theorem Mark.spelling_eq_of_atHead? {m : Mark} (h : atHead? (c :: tail) = some m)
    (htail : Spaced tail) : m.spelling.toList = [c] := by
  have happend := append_drop_of_atHead? h
  have hblank : ∀ m : Mark, m.spelling.toList.any isBlank = false := by
    intro m
    cases m <;> decide
  generalize (c :: tail).drop m.spelling.toList.length = behind at happend
  cases hm : m.spelling.toList with
  | nil => exact absurd (congrArg List.length hm) m.spelling_ne_nil.ne'
  | cons x more =>
    rw [hm] at happend
    obtain ⟨rfl, htext⟩ := List.cons.inj happend
    cases more with
    | nil => rfl
    | cons y more =>
      have hy : isBlank y := htail y (by rw [← htext]; rfl)
      have hno := List.any_eq_false.1 (hm ▸ hblank m) y (by simp)
      exact absurd hy hno

namespace Lexeme

theorem ofText_float {f : Char} {fs : List Char} (hwhole : ∀ x ∈ c :: cs, x.isDigit)
    (hfraction : ∀ x ∈ f :: fs, x.isDigit) (hrest : ∀ x ∈ rest.head?, x.isDigit = false) :
    ofText c (cs ++ '.' :: f :: fs ++ rest) = plain .float (c :: cs ++ '.' :: f :: fs) rest := by
  have hdigit : c.isDigit := hwhole c List.mem_cons_self
  have hword : ¬ isWordStart c := fun h => TokenRule.not_isDigit_of_isWordStart h hdigit
  have hpoint : ∀ x ∈ ('.' :: (f :: fs ++ rest)).head?, x.isDigit = false := by simp
  obtain ⟨htake, hdrop⟩ := takeWhile_append_of_stop hwhole hpoint
  obtain ⟨htake', hdrop'⟩ := takeWhile_append_of_stop hfraction hrest
  have htext : c :: (cs ++ '.' :: f :: fs ++ rest) = c :: cs ++ '.' :: (f :: fs ++ rest) := by simp
  unfold ofText
  rw [if_neg hword, if_pos hdigit]
  unfold ofDigits
  rw [htext, htake, hdrop]
  simp only [htake', hdrop', List.isEmpty_cons, Bool.false_eq_true, if_false]

/-- A character that no rule matches at the front of a text is illegal in front of a blank, too. -/
theorem ofText_illegal (h : ∀ rule t r, t ++ r = c :: rest → ¬ TokenRule.Matches rule t r)
    (htail : Spaced tail) : ofText c tail = plain .illegal [c] tail := by
  have hword : ¬ isWordStart c := fun hc => h .word [c] rest rfl (.word hc (by simp))
  have hdigit : ¬ c.isDigit := fun hc => h .int [c] rest rfl (.int (by simpa using hc))
  have hdelimiter : ∀ d : Delimiter, c ≠ d.char := by
    rintro d rfl
    have happend := splitDelimited_append d.char rest
    obtain ⟨rule, hmatch, -⟩ | ⟨hkind, -⟩ := munch_delimited d rest
    · exact h rule _ _ (by rw [List.cons_append, happend]) hmatch
    · cases d <;> cases hkind
  have hnone : Mark.atHead? (c :: tail) = none := by
    cases hm : Mark.atHead? (c :: tail) with
    | none => rfl
    | some m =>
      have hspelling := m.spelling_eq_of_atHead? hm htail
      exact absurd (.mark m) (h (.mark m) m.spelling.toList rest (by rw [hspelling]; rfl))
  have hdouble : c ≠ '"' := hdelimiter .doubleQuote
  have hback : c ≠ '\x60' := hdelimiter .backtick
  have hsingle : c ≠ '\'' := hdelimiter .quote
  rw [ofText, if_neg hword, if_neg hdigit, if_neg hdouble, if_neg hback, if_neg hsingle, hnone]

/-- A token that a blank follows, or nothing, is read alone as it was read in its text. At the end of
the text nothing may follow, because a literal could have been closed then. -/
theorem ofText_alone (htail : Spaced tail) (hend : (ofText c rest).rest = [] → tail = []) :
    ∃ cs, (ofText c rest).text = c :: cs ∧
      ofText c (cs ++ tail) = { ofText c rest with rest := tail } := by
  have hx := sound_ofText c rest
  generalize hlexeme : ofText c rest = x at hx hend ⊢
  obtain ⟨happend, hmunch, hliteral⟩ := hx
  obtain ⟨kind, literal, text, behind⟩ := x
  dsimp only at happend hmunch hliteral hend ⊢
  obtain ⟨cs, rfl⟩ : ∃ cs, text = c :: cs := by
    cases text with
    | nil => exact absurd rfl hmunch.ne_nil
    | cons x cs => exact ⟨cs, by rw [(List.cons.inj happend).1]⟩
  obtain rfl : cs ++ behind = rest := (List.cons.inj happend).2
  refine ⟨cs, rfl, ?_⟩
  by_cases hbehind : behind = []
  · rw [hend hbehind, ← hbehind, hlexeme]
  rcases hmunch with ⟨rule, hmatch, rfl, -⟩ | ⟨rfl, hlength, hnone⟩
  · have hplain : (∀ d, rule ≠ .delimited d) → literal = c :: cs := fun hrule =>
      hliteral (fun h => (TokenRule.exists_delimited (.inl h)).elim hrule)
        fun h => (TokenRule.exists_delimited (.inr h)).elim hrule
    generalize htext : c :: cs = text at hmatch hplain ⊢
    cases hmatch with
    | word hc hcs =>
      obtain ⟨rfl, rfl⟩ := List.cons.inj htext
      rw [ofText_word hc hcs (stops_head htail.stops), hplain nofun]
      rfl
    | int h =>
      obtain ⟨rfl, rfl⟩ := List.cons.inj htext
      obtain ⟨hc, hcs⟩ := List.forall_mem_cons.1 h
      rw [ofText_digits hc hcs htail.stops, hplain nofun]
      rfl
    | float hwhole hfraction =>
      obtain ⟨rfl, rfl⟩ := List.cons.inj htext
      rw [hplain nofun]
      exact ofText_float hwhole hfraction htail.not_isDigit
    | @closed d body _ hbody =>
      obtain ⟨rfl, rfl⟩ := List.cons.inj htext
      have henclosable := (isEnclosable_iff_literalBody d.char_ne_backslash).2 hbody
      rw [List.append_assoc, List.singleton_append, ofText_delimited d henclosable] at hlexeme ⊢
      obtain rfl : body = literal := congrArg Lexeme.literal hlexeme
      rfl
    | unclosed | dangling => exact absurd rfl hbehind
    | mark m =>
      have hfront : m.spelling.toList ++ tail = c :: (cs ++ tail) := by rw [← htext, List.cons_append]
      rw [(m.ofText_append (htail.notMem_continuations m) hfront).2, hplain nofun]
      rfl
  · obtain rfl : cs = [] := by simpa using hlength
    rw [List.nil_append, ofText_illegal hnone htail, hliteral nofun nofun]
    rfl

end Lexeme

/-! ## Nothing to skip -/

namespace Bare

theorem splitTrivia_eq (h : Bare text) : splitTrivia text = ([], text) := by
  have htrivia := trivia_splitTrivia text
  have happend := splitTrivia_append text
  generalize splitTrivia text = split at htrivia happend ⊢
  obtain ⟨skipped, rest⟩ := split
  dsimp only at htrivia happend
  cases htrivia with
  | nil => rw [← happend, List.nil_append]
  | cons hpiece _ => exact absurd hpiece (h _ _ (by rw [← happend, List.append_assoc]))

/-- A text with nothing to skip starts with no blank and with no two characters that open a
comment. -/
theorem front (h : Bare (c :: text)) :
    isBlank c = false ∧ (c = '/' → ∀ x ∈ text.head?, x ≠ '/' ∧ x ≠ '*') := by
  have hsplit := h.splitTrivia_eq
  refine ⟨?_, ?_⟩
  · cases hc : isBlank c with
    | false => rfl
    | true => simp [splitTrivia_blank_cons hc] at hsplit
  · rintro rfl x hx
    cases text with
    | nil => cases hx
    | cons y text =>
      obtain rfl : y = x := Option.some.inj hx
      constructor <;> rintro rfl <;> simp [splitTrivia] at hsplit

/-- Nothing is to be skipped in front of a token that a blank follows. -/
theorem alone (h : Bare (c :: (cs ++ rest))) (htail : Spaced tail) :
    (splitTrivia (c :: (cs ++ tail))).2 = c :: (cs ++ tail) := by
  obtain ⟨hblank, hslash⟩ := h.front
  refine splitTrivia_of_bare hblank fun hc x hx => ?_
  cases cs with
  | nil =>
    have hx := htail x hx
    constructor <;> rintro rfl <;> exact absurd hx (by decide)
  | cons y cs => exact hslash hc x hx

end Bare

/-- In front of a blank the scan reads a token as it was read in its text. -/
theorem tokensFrom_alone (hbare : Bare (c :: rest)) (htail : Spaced tail)
    (hend : (Lexeme.ofText c rest).rest = [] → tail = []) (q : Place) :
    tokensFrom q ((Lexeme.ofText c rest).text ++ tail) = (Lexeme.ofText c rest).token q ::
      tokensFrom (q.after (Lexeme.ofText c rest).text) tail := by
  have happend := (Lexeme.sound_ofText c rest).append
  obtain ⟨cs, hcs, halone⟩ := Lexeme.ofText_alone htail hend
  rw [← happend, hcs, List.cons_append] at hbare
  have hskip := hbare.alone htail
  have hall := splitTrivia_append (c :: (cs ++ tail))
  rw [hskip] at hall
  have hsplit : splitTrivia (c :: (cs ++ tail)) = ([], c :: (cs ++ tail)) :=
    Prod.ext (List.append_left_eq_self.1 hall) hskip
  rw [hcs, List.cons_append, tokensFrom_token q hsplit, halone, ← hcs]
  rfl

/-! ## All tokens -/

/-- What a token is, wherever it stands. -/
def Token.content (t : Token) : TokenKind × String := (t.kind, t.literal)

/-- The stretches of a source that tokens cover, without that of the end marker. -/
def stretches (source : String) (ts : List Token) : List (List Char) :=
  (ts.filter (·.kind != .eof)).map (·.covered source)

/-- A source rewritten with single blanks between its tokens. -/
def respaced (source : String) : String :=
  " ".intercalate (((tokenize source).filter (·.kind != .eof)).map (·.span.slice source))

theorem toList_respaced (source : String) :
    (respaced source).toList = [' '].intercalate (stretches source (tokenize source)) := by
  rw [respaced, String.toList_intercalate, stretches, List.map_map]
  exact congrArg _ (List.map_congr_left fun t _ => by simp [Token.slice_eq])

theorem stretches_cons {source : String} {front : List Char} {t : Token} {ts : List Token}
    (hkind : t.kind ≠ .eof) (hcovers : t.Covers front text)
    (hsource : source.toList = front ++ (text ++ rest)) :
    stretches source (t :: ts) = text :: stretches source ts := by
  have hcovered : t.covered source = text := by
    rw [Token.covered, hcovers.start, hcovers.stop, textBetween_eq hsource]
  simp [stretches, hkind, hcovered]

/-- What stands behind the first of some stretches with single blanks between them. -/
def behindFirst : List (List Char) → List Char
  | [] => []
  | l => ' ' :: [' '].intercalate l

theorem intercalate_cons (first : List Char) (l : List (List Char)) :
    [' '].intercalate (first :: l) = first ++ behindFirst l := by
  cases l with
  | nil => simp [behindFirst]
  | cons second l => simp [behindFirst]

theorem spaced_behindFirst (l : List (List Char)) : Spaced (behindFirst l) := by
  cases l with
  | nil => nofun
  | cons first l =>
    intro x hx
    obtain rfl : ' ' = x := Option.some.inj hx
    rfl

theorem tokensFrom_blank (p : Place) (text : List Char) :
    tokensFrom p (' ' :: text) = tokensFrom (p.next ' ') text := by
  have hskip := splitTrivia_blank_cons (c := ' ') (by decide) text
  obtain ⟨trivia, rest, hrest⟩ : ∃ trivia rest, splitTrivia text = (trivia, rest) := ⟨_, _, rfl⟩
  rw [hrest] at hskip
  cases rest with
  | nil => rw [tokensFrom_eof p hskip, tokensFrom_eof _ hrest, Place.after_cons]
  | cons c rest => rw [tokensFrom_token p hskip, tokensFrom_token _ hrest, Place.after_cons]

/-- The blank in front of what stands behind the first stretch only moves the tokens. -/
theorem exists_tokensFrom_behindFirst (q : Place) (l : List (List Char)) :
    ∃ q', tokensFrom q (behindFirst l) = tokensFrom q' ([' '].intercalate l) := by
  cases l with
  | nil => exact ⟨q, rfl⟩
  | cons first l => exact ⟨q.next ' ', tokensFrom_blank q _⟩

/-- The stretches of tokens, with single blanks between them, are read as tokens of the same
content. -/
theorem content_tokensFrom {source : String} (p q : Place) (text : List Char) :
    ∀ front, source.toList = front ++ text → p.offset = utf8Len front →
      (tokensFrom q ([' '].intercalate (stretches source (tokensFrom p text)))).map Token.content =
        (tokensFrom p text).map Token.content := by
  have hnil : splitTrivia [] = ([], []) := rfl
  fun_induction tokensFrom p text generalizing q with
  | case1 p text p' hsplit =>
    intro front hsource hp
    have hempty : stretches source [⟨.eof, "", .between p' p'⟩] = [] := rfl
    rw [hempty, List.intercalate_nil, tokensFrom_eof q hnil]
    rfl
  | case2 p text p' c rest hsplit x ih =>
    intro front hsource hp
    have happend := splitTrivia_append text
    have hbare := bare_splitTrivia text
    have hx := Lexeme.sound_ofText c rest
    rw [hsplit] at happend hbare
    have hsource' : source.toList = front ++ (splitTrivia text).1 ++ (x.text ++ x.rest) := by
      rw [hx.append, List.append_assoc, happend, hsource]
    have hstart : p'.offset = utf8Len (front ++ (splitTrivia text).1) := by
      rw [Place.offset_after, String.utf8Len_append, hp]
    have hstop : (p'.after x.text).offset = utf8Len (front ++ (splitTrivia text).1 ++ x.text) := by
      rw [Place.offset_after, String.utf8Len_append _ x.text, hstart]
    have hcovers : (x.token p').Covers (front ++ (splitTrivia text).1) x.text := ⟨hstart, hstop⟩
    -- a literal that is not closed ends the text, and then no other token follows
    have hend : x.rest = [] →
        behindFirst (stretches source (tokensFrom (p'.after x.text) x.rest)) = [] := by
      intro hrest
      rw [hrest, tokensFrom_eof _ hnil]
      rfl
    rw [stretches_cons hx.munch.kind_ne_eof hcovers hsource', intercalate_cons,
      tokensFrom_alone hbare (spaced_behindFirst _) hend]
    obtain ⟨q', hq'⟩ := exists_tokensFrom_behindFirst (q.after x.text)
      (stretches source (tokensFrom (p'.after x.text) x.rest))
    rw [hq', List.map_cons, List.map_cons, ih q' _ (by simpa using hsource') hstop]
    rfl

/-- Tokens do not depend on what stands between them: rewritten with single blanks between its tokens,
a source has tokens of the same classes and literals. -/
theorem content_tokenize_respaced (source : String) :
    (tokenize (respaced source)).map Token.content = (tokenize source).map Token.content := by
  rw [tokenize, toList_respaced]
  exact content_tokensFrom .start .start source.toList [] rfl rfl

/-- A literal that is never closed is the last token. -/
example : respaced "a[0]>>=// shift\n\"b c" = "a [ 0 ] >>= \"b c" := by decide +kernel

end ClassLang
