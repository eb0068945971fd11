import ClassLang.Parse.Basic
import ClassLang.Proofs.Tokens.Rules
import Mathlib.Data.List.Nodup

/-!
# Tokens that spell a text

A parser stands at a text when its tokens spell that text. What its current token is can then be read
off the front of the text, if what follows does not run on: a word is not followed by a word
character, a number not by more of it, and a mark not by a character that makes a longer mark.
-/

namespace ClassLang

/-- Tokens spell a text, whatever their spans are. -/
inductive Spells : List Token → List Char → Prop
  | eof {t : Token} {text : List Char} (hsplit : (splitTrivia text).2 = []) (hkind : t.kind = .eof) :
    Spells [t] text
  | token {t : Token} {ts : List Token} {c : Char} {text rest : List Char}
    (hsplit : (splitTrivia text).2 = c :: rest) (hkind : t.kind = (Lexeme.ofText c rest).kind)
    (hliteral : t.literal = .ofList (Lexeme.ofText c rest).literal)
    (h : Spells ts (Lexeme.ofText c rest).rest) : Spells (t :: ts) text
  /-- The second half of two angles stands alone, even if an angle follows. -/
  | half {t : Token} {ts : List Token} {text : List Char} (hkind : t.kind = Mark.gt)
    (h : Spells ts text) : Spells (t :: ts) ('>' :: text)

namespace Spells

variable {ts : List Token} {c : Char} {text rest : List Char}

theorem ne_nil (h : Spells ts text) : ts ≠ [] := by
  cases h <;> exact List.cons_ne_nil _ _

theorem blank (h : Spells ts (' ' :: text)) : Spells ts text := by
  have hskip : (splitTrivia (' ' :: text)).2 = (splitTrivia text).2 := by
    rw [splitTrivia] <;> simp [isBlank]
  cases h with
  | eof hsplit hkind => exact .eof (hskip ▸ hsplit) hkind
  | token hsplit hkind hliteral h => exact .token (hskip ▸ hsplit) hkind hliteral h

/-- Unless an angle stands at the very front, the first token is the one that the text gives. -/
theorem front (h : Spells ts text) (hhead : text.head? ≠ some '>')
    (hsplit : (splitTrivia text).2 = c :: rest) :
    ∃ t ts', ts = t :: ts' ∧ t.kind = (Lexeme.ofText c rest).kind ∧
      t.literal = .ofList (Lexeme.ofText c rest).literal ∧ Spells ts' (Lexeme.ofText c rest).rest := by
  cases h with
  | eof hsplit' => simp [hsplit] at hsplit'
  | token hsplit' hkind hliteral h =>
    obtain ⟨rfl, rfl⟩ := List.cons.inj (hsplit.symm.trans hsplit')
    exact ⟨_, _, rfl, hkind, hliteral, h⟩
  | half => simp at hhead

end Spells

theorem spells_tokensFrom (p : Place) (text : List Char) : Spells (tokensFrom p text) text := by
  fun_induction tokensFrom p text with
  | case1 p text q hsplit => exact .eof hsplit rfl
  | case2 p text q c rest hsplit x ih => exact .token hsplit rfl rfl ih

namespace Parser

variable {p q r : Parser} {text rest : List Char} {c : Char}

/-- A parser that knows no templates stands at a text. -/
structure At (p : Parser) (text : List Char) : Prop where
  spells : Spells (p.current :: p.rest) text
  templates : p.templates = []

theorem at_ofSource (source : String) : (ofSource source).At source.toList := by
  have hspells : Spells (tokenize source) source.toList := spells_tokensFrom .start source.toList
  unfold ofSource
  cases htokens : tokenize source with
  | nil =>
    rw [htokens] at hspells
    exact absurd rfl hspells.ne_nil
  | cons t ts =>
    rw [htokens] at hspells
    exact ⟨hspells, rfl⟩

theorem At.blank (h : p.At (' ' :: text)) : p.At text := ⟨h.spells.blank, h.templates⟩

/-- A parser stands at a text further on. -/
structure Past (p : Parser) (text : List Char) (q : Parser) : Prop where
  here : q.At text
  length_lt : q.rest.length < p.rest.length

theorem Past.trans (h : p.Past text q) (h' : q.Past rest r) : p.Past rest r :=
  ⟨h'.here, h'.length_lt.trans h.length_lt⟩

/-- The parser behind a token whose rest is spelled by the tokens after it. -/
theorem past_advanced (h : Spells p.rest text) (htemplates : p.templates = []) :
    p.Past text p.advanced := by
  obtain ⟨current, tokens, errors, templates⟩ := p
  cases tokens with
  | nil => exact absurd rfl h.ne_nil
  | cons t ts => exact ⟨⟨h, htemplates⟩, Nat.lt_succ_self _⟩

theorem At.kind_eof (h : p.At []) : p.kind = .eof := by
  obtain ⟨hspells, -⟩ := h
  generalize hts : p.current :: p.rest = ts at hspells
  cases hspells with
  | eof _ hkind =>
    obtain ⟨rfl, -⟩ := List.cons.inj hts
    exact hkind
  | token hsplit => simp [splitTrivia] at hsplit

/-- What the current token is, read off the text. -/
structure Shows (p : Parser) (kind : TokenKind) (literal text : List Char) : Prop where
  kind_eq : p.kind = kind
  literal_eq : p.current.literal = .ofList literal
  past : p.Past text p.advanced

/-- Unless an angle stands at the very front, the current token is the one that the text gives. -/
theorem At.shows (h : p.At text) (hhead : text.head? ≠ some '>')
    (hsplit : (splitTrivia text).2 = c :: rest) :
    p.Shows (Lexeme.ofText c rest).kind (Lexeme.ofText c rest).literal
      (Lexeme.ofText c rest).rest := by
  obtain ⟨t, ts, hts, hkind, hliteral, hspells⟩ := h.spells.front hhead hsplit
  obtain ⟨rfl, rfl⟩ := List.cons.inj hts
  exact ⟨hkind, hliteral, past_advanced hspells h.templates⟩

end Parser

/-! ## What the front of a text gives -/

section

variable {c : Char} {text rest : List Char}

theorem splitTrivia_of_bare (hblank : isBlank c = false)
    (hslash : c = '/' → ∀ x ∈ text.head?, x ≠ '/' ∧ x ≠ '*') :
    (splitTrivia (c :: text)).2 = c :: text := by
  rw [splitTrivia]
  · simp [hblank]
  · rintro tail rfl rfl
    exact (hslash rfl '/' rfl).1 rfl
  · rintro tail rfl rfl
    exact (hslash rfl '*' rfl).2 rfl

/-- A text that starts with a character of a class without blanks, slashes and angles. -/
theorem bare_of_class {f : Char → Bool} (hc : f c)
    (hf : [' ', '\t', '\r', '\n', '\x0c', '/', '>'].any f = false) (text : List Char) :
    c ≠ '>' ∧ (splitTrivia (c :: text)).2 = c :: text := by
  have hne : ∀ x ∈ [' ', '\t', '\r', '\n', '\x0c', '/', '>'], c ≠ x := by
    rintro x hx rfl
    exact absurd hc (List.any_eq_false.1 hf c hx)
  simp only [List.forall_mem_cons] at hne
  obtain ⟨hspace, htab, hreturn, hline, hfeed, hslash, hangle, -⟩ := hne
  exact ⟨hangle, splitTrivia_of_bare (by simp [isBlank, *]) fun heq => absurd heq hslash⟩

theorem takeWhile_append_of_stop {f : Char → Bool} {l : List Char} (hl : ∀ x ∈ l, f x)
    (hrest : ∀ x ∈ rest.head?, f x = false) :
    (l ++ rest).takeWhile f = l ∧ (l ++ rest).dropWhile f = rest := by
  rw [List.takeWhile_append_of_pos hl, List.dropWhile_append_of_pos hl]
  cases rest with
  | nil => simp
  | cons x rest => simp [hrest x rfl]

end

/-- The characters of a name that can be written. -/
def isName (name : String) : Bool :=
  match name.toList with
  | [] => false
  | c :: cs => isWordStart c && cs.all isWordChar && (Keyword.ofSpelling? (c :: cs)).isNone

/-- A name is a word that is no keyword. -/
theorem exists_word {name : String} (h : isName name) : ∃ c cs, name.toList = c :: cs ∧
    isWordStart c ∧ (∀ x ∈ cs, isWordChar x) ∧ TokenKind.ofWord (c :: cs) = .ident := by
  unfold isName at h
  split at h
  · cases h
  next c cs hcs =>
    simp only [Bool.and_eq_true] at h
    obtain ⟨⟨hc, hall⟩, hkeyword⟩ := h
    refine ⟨c, cs, hcs, hc, List.all_eq_true.1 hall, ?_⟩
    rw [TokenKind.ofWord, Option.isNone_iff_eq_none.1 hkeyword]

/-- Whether a word or a number ends in front of a text. -/
def stops : List Char → Bool
  | [] => true
  | c :: rest => !isWordChar c && (c != '.' || rest.head?.all (!·.isDigit))

theorem stops_head {rest : List Char} (h : stops rest) : ∀ x ∈ rest.head?, isWordChar x = false := by
  cases rest with
  | nil => simp
  | cons c rest => simp_all [stops]

/-! ## Bodies of literals -/

/-- Whether a text can stand between delimiters: each delimiter in it is protected by a backslash, and
its end protects nothing. -/
def isEnclosable (d : Char) (body : List Char) : Bool :=
  !endsEscaped body &&
    (List.range body.length).all fun i => body[i]? != some d || endsEscaped (body.take i)

theorem isEnclosable_iff {d : Char} {body : List Char} :
    isEnclosable d body ↔ endsEscaped body = false ∧
      ∀ front rest, body = front ++ d :: rest → endsEscaped front := by
  simp only [isEnclosable, Bool.and_eq_true, Bool.not_eq_true', List.all_eq_true, List.mem_range,
    Bool.or_eq_true, bne_iff_ne]
  refine and_congr_right fun _ => ⟨fun h front rest heq => ?_, fun h i hi => ?_⟩
  · have hi := h front.length (by simp [heq])
    simpa [heq] using hi
  · by_cases hd : body[i]? = some d
    · refine .inr (h _ (body.drop (i + 1)) ?_)
      obtain ⟨_, rfl⟩ := List.getElem?_eq_some_iff.1 hd
      simp
    · exact .inl hd

theorem endsEscaped_cons {c : Char} (hc : c ≠ '\\') (text : List Char) :
    endsEscaped (c :: text) = endsEscaped text := by
  unfold endsEscaped
  rw [List.reverse_cons, List.takeWhile_append]
  split <;> simp_all

theorem endsEscaped_protected (c : Char) (text : List Char) :
    endsEscaped ('\\' :: c :: text) = endsEscaped text := by
  unfold endsEscaped
  rw [List.reverse_cons, List.reverse_cons, List.append_assoc, List.takeWhile_append]
  split
  next hall =>
    -- a run that reaches the front grows by two or not at all
    rw [List.length_append, hall]
    by_cases hc : c = '\\' <;> simp [hc]
  next => rfl

theorem literalBody_of_isEnclosable {d : Char} :
    ∀ body : List Char, isEnclosable d body → LiteralBody d body
  | [], _ => .nil
  | c :: body, h => by
    obtain ⟨hlast, hinside⟩ := isEnclosable_iff.1 h
    by_cases hc : c = '\\'
    · subst hc
      cases body with
      | nil => exact absurd hlast (by decide)
      | cons c body =>
        refine .protected_ c (literalBody_of_isEnclosable body (isEnclosable_iff.2 ⟨?_, ?_⟩))
        · rw [← hlast, endsEscaped_protected]
        · rintro front rest rfl
          rw [← endsEscaped_protected c]
          exact hinside _ rest rfl
    · have hd : c ≠ d := by
        rintro rfl
        exact absurd (hinside [] body rfl) (by decide)
      refine .plain hc hd (literalBody_of_isEnclosable body (isEnclosable_iff.2 ⟨?_, ?_⟩))
      · rw [← hlast, endsEscaped_cons hc]
      · rintro front rest rfl
        rw [← endsEscaped_cons hc]
        exact hinside _ rest rfl

/-! ## Marks -/

namespace Mark

/-- The characters that make something longer of a mark they follow: another mark or a comment. -/
def continuations (m : Mark) : List Char :=
  (if m = slash then ['/', '*'] else []) ++
    all.filterMap fun m' =>
      if m.spelling.toList.isPrefixOf m'.spelling.toList then
        m'.spelling.toList[m.spelling.toList.length]?
      else none

/-- The marks that are read as they are, whatever follows. -/
def punctuation : List Mark :=
  [comma, dot, arrow, tilde, increment, decrement, lParen, rParen, lBrace, rBrace, lBracket, rBracket]

theorem continuations_of_mem_punctuation :
    ∀ m ∈ punctuation, m.continuations = [] ∧ m.spelling.toList.head? ≠ some '>' := by
  decide

theorem blank_notMem_continuations (m : Mark) {c : Char} (hc : isBlank c) : c ∉ m.continuations := by
  have hall : m.continuations.any isBlank = false := by cases m <;> decide
  exact fun hmem => List.any_eq_false.1 hall c hmem hc

theorem mem_continuations {m m' : Mark} {c : Char} {more : List Char}
    (h : m'.spelling.toList = m.spelling.toList ++ c :: more) : c ∈ m.continuations := by
  refine List.mem_append_right _ (List.mem_filterMap.2 ⟨m', m'.mem_all, ?_⟩)
  rw [if_pos (List.isPrefixOf_iff_prefix.2 ⟨c :: more, h.symm⟩), h]
  simp

theorem eq_of_spelling_eq {m m' : Mark} (h : m.spelling.toList = m'.spelling.toList) : m = m' := by
  have hnodup : (all.map fun m => m.spelling.toList).Nodup := by decide
  exact List.inj_on_of_nodup_map hnodup m.mem_all m'.mem_all h

theorem atHead?_append (m : Mark) {rest : List Char}
    (hrest : ∀ c ∈ rest.head?, c ∉ m.continuations) :
    atHead? (m.spelling.toList ++ rest) = some m := by
  cases h : atHead? (m.spelling.toList ++ rest) with
  | none => exact absurd rfl (not_prefix_of_atHead? h)
  | some m' =>
    have hle := length_le_of_atHead? h rfl
    have happend := append_drop_of_atHead? h
    -- what is found goes on behind the mark, and then the next character runs on
    obtain ⟨more, hmore⟩ : m.spelling.toList <+: m'.spelling.toList :=
      List.prefix_of_prefix_length_le ⟨rest, rfl⟩ ⟨_, happend⟩ hle
    cases more with
    | nil =>
      have hsame : m'.spelling.toList = m.spelling.toList := by simp [← hmore]
      rw [eq_of_spelling_eq hsame]
    | cons c more =>
      have hmore' : m'.spelling.toList = m.spelling.toList ++ c :: more := hmore.symm
      generalize m'.spelling.toList.length = n at happend
      rw [hmore', List.append_assoc, List.append_cancel_left_eq, List.cons_append] at happend
      have hc : c ∈ rest.head? := by
        rw [← happend]
        rfl
      exact absurd (mem_continuations hmore') (hrest c hc)

/-- The front of a text that starts with a mark. -/
theorem ofText_append (m : Mark) {c : Char} {cs rest : List Char}
    (hrest : ∀ c ∈ rest.head?, c ∉ m.continuations) (hfront : m.spelling.toList ++ rest = c :: cs) :
    (splitTrivia (c :: cs)).2 = c :: cs ∧
      Lexeme.ofText c cs = .plain m m.spelling.toList rest := by
  have hhead : m.spelling.toList.head? = some c := by
    rw [← List.head?_append_of_ne_nil _ (List.ne_nil_of_length_pos m.spelling_ne_nil), hfront]
    rfl
  have hstarts : (TokenRule.mark m).starts c := by simp [TokenRule.starts, hhead]
  obtain ⟨hword, hdigit, hdelimiter⟩ := TokenRule.mark_starts hstarts
  have hfound := m.atHead?_append hrest
  rw [hfront] at hfound
  refine ⟨splitTrivia_of_bare ?_ ?_, ?_⟩
  · have hall : ∀ m : Mark, m.spelling.toList.head?.any isBlank = false := by
      intro m
      cases m <;> decide
    simpa [hhead] using hall m
  · rintro rfl x hx
    have hslash : ∀ m : Mark, m.spelling.toList.head? = some '/' → m = slash ∨ m = slashAssign := by
      intro m
      cases m <;> decide
    rcases hslash m hhead with rfl | rfl
    · obtain rfl : rest = cs := (List.cons.inj hfront).2
      exact ⟨fun h => hrest x hx (h ▸ by decide), fun h => hrest x hx (h ▸ by decide)⟩
    · obtain rfl : '=' :: rest = cs := (List.cons.inj hfront).2
      obtain rfl : '=' = x := by simpa using hx
      decide
  · have hdouble : c ≠ '"' := hdelimiter .doubleQuote
    have hback : c ≠ '\x60' := hdelimiter .backtick
    have hsingle : c ≠ '\'' := hdelimiter .quote
    have hdrop : (c :: cs).drop m.spelling.toList.length = rest := by rw [← hfront, List.drop_left]
    unfold Lexeme.ofText
    rw [if_neg hword, if_neg hdigit, if_neg hdouble, if_neg hback, if_neg hsingle, hfound]
    show Lexeme.plain m _ _ = _
    rw [hdrop]

end Mark

/-! ## The lexeme at the front of a text -/

namespace Lexeme

variable {c : Char} {cs rest : List Char}

theorem ofText_word (hc : isWordStart c) (hcs : ∀ x ∈ cs, isWordChar x)
    (hrest : ∀ x ∈ rest.head?, isWordChar x = false) :
    ofText c (cs ++ rest) = plain (.ofWord (c :: cs)) (c :: cs) rest := by
  obtain ⟨htake, hdrop⟩ := takeWhile_append_of_stop hcs hrest
  unfold ofText
  rw [if_pos hc, htake, hdrop]

theorem ofText_digits (hc : c.isDigit) (hcs : ∀ x ∈ cs, x.isDigit) (hrest : stops rest) :
    ofText c (cs ++ rest) = plain .int (c :: cs) rest := by
  have hword : ¬ isWordStart c := fun h => TokenRule.not_isDigit_of_isWordStart h hc
  have hdigits : ∀ x ∈ c :: cs, x.isDigit := by simpa using ⟨hc, hcs⟩
  have hstop : ∀ x ∈ rest.head?, x.isDigit = false := fun x hx => by
    have := stops_head hrest x hx
    simp_all [isWordChar, Char.isAlphanum]
  obtain ⟨htake, hdrop⟩ := takeWhile_append_of_stop hdigits hstop
  unfold ofText
  rw [if_neg hword, if_pos hc]
  unfold ofDigits
  rw [← List.cons_append, htake, hdrop]
  split
  next tail =>
    have htail : tail.takeWhile Char.isDigit = [] := by
      cases tail with
      | nil => rfl
      | cons x tail => simp_all [stops]
    simp [htail]
  next => rfl

theorem ofText_delimited (d : Delimiter) {body : List Char} (hbody : isEnclosable d.char body) :
    ofText d.char (body ++ d.char :: rest) =
      ⟨d.kind, body, d.char :: (body ++ [d.char]), rest⟩ := by
  have hliteralBody := literalBody_of_isEnclosable _ hbody
  have hsplit := splitDelimited_closed hliteralBody d.char_ne_backslash rest
  have hliteral : literalBody d.char (body ++ [d.char]) = body := by
    simp [literalBody, (isEnclosable_iff.1 hbody).1]
  have hdelimited : ofDelimited d.kind d.char (body ++ d.char :: rest) =
      ⟨d.kind, body, d.char :: (body ++ [d.char]), rest⟩ := by
    unfold ofDelimited
    rw [hsplit]
    simp only [hliteral]
  rw [← hdelimited]
  cases d <;> rfl

end Lexeme

/-! ## The current token of a parser at a text -/

namespace Parser.At

variable {p : Parser} {c : Char} {cs text rest : List Char}

/-- A text that starts with a character of a class without blanks, slashes and angles. -/
theorem front {f : Char → Bool} (h : p.At (c :: text)) (hc : f c)
    (hf : [' ', '\t', '\r', '\n', '\x0c', '/', '>'].any f = false) :
    p.Shows (Lexeme.ofText c text).kind (Lexeme.ofText c text).literal
      (Lexeme.ofText c text).rest := by
  obtain ⟨hangle, hsplit⟩ := bare_of_class hc hf text
  exact h.shows (by simpa using hangle) hsplit

theorem word (h : p.At (c :: (cs ++ rest))) (hc : isWordStart c) (hcs : ∀ x ∈ cs, isWordChar x)
    (hrest : ∀ x ∈ rest.head?, isWordChar x = false) :
    p.Shows (.ofWord (c :: cs)) (c :: cs) rest := by
  have hshows := h.front hc (by decide)
  rw [Lexeme.ofText_word hc hcs hrest] at hshows
  exact hshows

theorem keyword (k : Keyword) (h : p.At (k.spelling.toList ++ rest))
    (hrest : ∀ x ∈ rest.head?, isWordChar x = false) : p.Shows k k.spelling.toList rest := by
  have hword : ∀ k : Keyword, ∃ c cs, k.spelling.toList = c :: cs ∧ isWordStart c ∧
      cs.all isWordChar ∧ TokenKind.ofWord (c :: cs) = k := by
    intro k
    cases k <;> exact ⟨_, _, rfl, by decide, by decide, by decide⟩
  obtain ⟨c, cs, hspelling, hc, hcs, hkind⟩ := hword k
  rw [hspelling] at h ⊢
  rw [← hkind]
  exact h.word hc (List.all_eq_true.1 hcs) hrest

theorem name {name : String} (h : p.At (name.toList ++ rest)) (hname : isName name)
    (hrest : ∀ x ∈ rest.head?, isWordChar x = false) : p.Shows .ident name.toList rest := by
  obtain ⟨c, cs, hname, hc, hcs, hkind⟩ := exists_word hname
  rw [hname] at h ⊢
  rw [← hkind]
  exact h.word hc hcs hrest

theorem digits (h : p.At (c :: (cs ++ rest))) (hdigits : ∀ x ∈ c :: cs, x.isDigit)
    (hrest : stops rest) : p.Shows .int (c :: cs) rest := by
  obtain ⟨hc, hcs⟩ := List.forall_mem_cons.1 hdigits
  have hshows := h.front hc (by decide)
  rw [Lexeme.ofText_digits hc hcs hrest] at hshows
  exact hshows

theorem delimited (d : Delimiter) {body : List Char} (h : p.At (d.char :: (body ++ d.char :: rest)))
    (hbody : isEnclosable d.char body) : p.Shows d.kind body rest := by
  have hshows := h.front (f := (· == d.char)) (by simp) (by cases d <;> decide)
  rw [Lexeme.ofText_delimited d hbody] at hshows
  exact hshows

theorem mark (m : Mark) (h : p.At (m.spelling.toList ++ rest))
    (hangle : m.spelling.toList.head? ≠ some '>') (hrest : ∀ c ∈ rest.head?, c ∉ m.continuations) :
    p.Shows m m.spelling.toList rest := by
  have hne : m.spelling.toList ≠ [] := List.ne_nil_of_length_pos m.spelling_ne_nil
  cases hfront : m.spelling.toList ++ rest with
  | nil => exact absurd (List.append_eq_nil_iff.1 hfront).1 hne
  | cons c cs =>
    rw [← List.head?_append_of_ne_nil m.spelling.toList hne] at hangle
    obtain ⟨hsplit, hlexeme⟩ := m.ofText_append hrest hfront
    rw [hfront] at h hangle
    have hshows := h.shows hangle hsplit
    rw [hlexeme] at hshows
    exact hshows

theorem alone (m : Mark) (h : p.At (m.spelling.toList ++ rest)) (hm : m ∈ Mark.punctuation) :
    p.Shows m m.spelling.toList rest := by
  obtain ⟨hnone, hangle⟩ := Mark.continuations_of_mem_punctuation m hm
  exact h.mark m hangle fun c _ => by simp [hnone]

/-- Between blanks no mark runs on. -/
theorem spacedMark (m : Mark) (h : p.At (' ' :: (m.spelling.toList ++ ' ' :: rest))) :
    p.Shows m m.spelling.toList (' ' :: rest) := by
  have hblank : isBlank ' ' := by decide
  have hrest : ∀ c ∈ (' ' :: rest).head?, c ∉ m.continuations := by
    simp [m.blank_notMem_continuations hblank]
  cases hfront : m.spelling.toList ++ ' ' :: rest with
  | nil => simp at hfront
  | cons c cs =>
    obtain ⟨hsplit, hlexeme⟩ := m.ofText_append hrest hfront
    rw [hfront] at h
    have hskip := splitTrivia_blanks (List.forall_mem_singleton.2 hblank) (c :: cs)
    have hshows := h.shows (by simp) (hskip.trans hsplit)
    rw [hlexeme] at hshows
    exact hshows

end Parser.At

end ClassLang
