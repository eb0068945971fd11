import ClassLang.Token.Lexer
import Mathlib.Data.List.TakeWhile

/-!
# Token rules

What a token may look like, rule by rule, and what may stand between tokens, both said without the
scan. A rule relates a stretch of text to the text behind it, because a literal that is never closed
is a token only at the end of the text. `munch_ofText` is the longest match: the token that is read
off the front of a text is matched by a rule, and no rule matches more. `trivia_splitTrivia` says
that what is skipped in front of it is blanks and comments, and that nothing more could be skipped.
-/

namespace ClassLang

/-! ## The rules -/

/-- What opens and closes a literal. -/
inductive Delimiter where
  | doubleQuote | backtick | quote
deriving DecidableEq, Repr

namespace Delimiter

def char : Delimiter → Char
  | doubleQuote => '"'
  | backtick => '\x60'
  | quote => '\''

def kind : Delimiter → TokenKind
  | doubleQuote | backtick => .string
  | quote => .char

end Delimiter

/-- The inside of a delimited literal: a delimiter stands in it only behind a backslash, which
protects the character after it. -/
inductive LiteralBody (d : Char) : List Char → Prop
  | nil : LiteralBody d []
  | plain {c : Char} {body : List Char} (hslash : c ≠ '\\') (hd : c ≠ d) (h : LiteralBody d body) :
    LiteralBody d (c :: body)
  | protected_ (c : Char) {body : List Char} (h : LiteralBody d body) :
    LiteralBody d ('\\' :: c :: body)

/-- The rules that tokens are made by. -/
inductive TokenRule where
  | word
  | int
  | float
  | delimited (d : Delimiter)
  | mark (m : Mark)
deriving DecidableEq, Repr

namespace TokenRule

/-- The class of a token that a rule made. -/
def kind : TokenRule → List Char → TokenKind
  | word, text => .ofWord text
  | int, _ => .int
  | float, _ => .float
  | delimited d, _ => d.kind
  | mark m, _ => m

/-- A rule matches a stretch of text in front of a rest. -/
inductive Matches : TokenRule → (text rest : List Char) → Prop
  | word {c : Char} {cs rest : List Char} (hc : isWordStart c) (hcs : ∀ x ∈ cs, isWordChar x) :
    Matches word (c :: cs) rest
  | int {c : Char} {cs rest : List Char} (h : ∀ x ∈ c :: cs, x.isDigit) :
    Matches int (c :: cs) rest
  | float {c f : Char} {cs fs rest : List Char} (hwhole : ∀ x ∈ c :: cs, x.isDigit)
    (hfraction : ∀ x ∈ f :: fs, x.isDigit) :
    Matches float (c :: cs ++ '.' :: f :: fs) rest
  | closed (d : Delimiter) {body rest : List Char} (h : LiteralBody d.char body) :
    Matches (delimited d) (d.char :: (body ++ [d.char])) rest
  /-- A literal that is never closed runs to the end of the text. -/
  | unclosed (d : Delimiter) {body : List Char} (h : LiteralBody d.char body) :
    Matches (delimited d) (d.char :: body) []
  /-- So does one that ends in a backslash with nothing to protect. -/
  | dangling (d : Delimiter) {body : List Char} (h : LiteralBody d.char body) :
    Matches (delimited d) (d.char :: (body ++ ['\\'])) []
  | mark (m : Mark) {rest : List Char} : Matches (mark m) m.spelling.toList rest

end TokenRule

/-- A token of a class is read off a text as it should be: it is matched by a rule of that class, and
no rule matches a longer stretch; or no rule matches anything, and it is a single character. -/
def Munch (kind : TokenKind) (text rest : List Char) : Prop :=
  (∃ rule : TokenRule, rule.Matches text rest ∧ kind = rule.kind text ∧
    ∀ rule' t r, t ++ r = text ++ rest → TokenRule.Matches rule' t r → t.length ≤ text.length) ∨
  (kind = .illegal ∧ text.length = 1 ∧
    ∀ rule t r, t ++ r = text ++ rest → ¬ TokenRule.Matches rule t r)

/-! ## Blanks and comments -/

/-- One blank or one comment in front of a rest. -/
inductive TriviaPiece : (text rest : List Char) → Prop
  | blank {c : Char} {rest : List Char} (h : isBlank c) : TriviaPiece [c] rest
  /-- A line comment takes the rest of its line. -/
  | line {body rest : List Char} (hbody : '\n' ∉ body) (hrest : ∀ c ∈ rest.head?, c = '\n') :
    TriviaPiece ('/' :: '/' :: body) rest
  /-- A block comment ends with the first star and slash. -/
  | block {body rest : List Char} (h : ¬ ['*', '/'] <:+: body ++ ['*']) :
    TriviaPiece ('/' :: '*' :: (body ++ ['*', '/'])) rest
  /-- One that is never closed runs to the end of the text. -/
  | unclosed {body : List Char} (h : ¬ ['*', '/'] <:+: body) : TriviaPiece ('/' :: '*' :: body) []

/-- Blanks and comments in front of a rest. -/
inductive Trivia : (text rest : List Char) → Prop
  | nil {rest : List Char} : Trivia [] rest
  | cons {piece more rest : List Char} (h : TriviaPiece piece (more ++ rest))
    (hmore : Trivia more rest) : Trivia (piece ++ more) rest

/-- A text starts with neither a blank nor a comment. -/
def Bare (text : List Char) : Prop := ∀ piece rest, piece ++ rest = text → ¬ TriviaPiece piece rest

/-! ## Runs of a class of characters -/

/-- A run of a class of characters is no longer than what is taken of the class. -/
theorem length_le_takeWhile {p : Char → Bool} {l r text : List Char} (h : l ++ r = text)
    (hl : ∀ x ∈ l, p x) : l.length ≤ (text.takeWhile p).length := by
  subst h
  rw [List.takeWhile_append_of_pos hl]
  simp

/-! ## Delimited literals -/

theorem splitDelimited_closed {d : Char} {body : List Char} (h : LiteralBody d body)
    (hd : d ≠ '\\') (rest : List Char) :
    splitDelimited d (body ++ d :: rest) = (body ++ [d], rest) := by
  induction h with
  | nil =>
    rw [List.nil_append, splitDelimited]
    · simp
    · intro c text hslash
      exact absurd hslash hd
  | plain hslash hne _ ih =>
    rw [List.cons_append, splitDelimited, ih]
    · simp [hne]
    · intro c text h'
      exact absurd h' hslash
  | protected_ c _ ih => simp [splitDelimited, ih]

theorem splitDelimited_unclosed {d : Char} {body : List Char} (h : LiteralBody d body) :
    splitDelimited d body = (body, []) := by
  induction h with
  | nil => rfl
  | plain hslash hne _ ih =>
    rw [splitDelimited, ih]
    · simp [hne]
    · intro c text h'
      exact absurd h' hslash
  | protected_ c _ ih => simp [splitDelimited, ih]

theorem splitDelimited_dangling {d : Char} {body : List Char} (h : LiteralBody d body)
    (hd : d ≠ '\\') : splitDelimited d (body ++ ['\\']) = (body ++ ['\\'], []) := by
  induction h with
  | nil => simp [splitDelimited, hd.symm]
  | plain hslash hne _ ih =>
    rw [List.cons_append, splitDelimited, ih]
    · simp [hne]
    · intro c text h'
      exact absurd h' hslash
  | protected_ c _ ih => simp [splitDelimited, ih]

/-- What follows an opening delimiter is a body with its closing delimiter, or all of the text is
inside of the literal. -/
theorem splitDelimited_cases (d : Char) (text : List Char) :
    (∃ body, LiteralBody d body ∧ (splitDelimited d text).1 = body ++ [d]) ∨
    ((splitDelimited d text).2 = [] ∧ ∃ body, LiteralBody d body ∧
      ((splitDelimited d text).1 = body ∨ (splitDelimited d text).1 = body ++ ['\\'])) := by
  fun_induction splitDelimited d text with
  | case1 c text s r hsplit ih =>
    simp only [hsplit] at ih
    rcases ih with ⟨body, hbody, hs⟩ | ⟨hr, body, hbody, hs⟩
    · exact .inl ⟨_, .protected_ c hbody, by simp [hs]⟩
    · refine .inr ⟨hr, _, .protected_ c hbody, ?_⟩
      rcases hs with hs | hs <;> simp [hs]
  | case2 text _ => exact .inl ⟨[], .nil, rfl⟩
  | case3 c text hnot hc s r hsplit ih =>
    simp only [hsplit] at ih
    by_cases hslash : c = '\\'
    · -- only a last backslash gets here
      cases text with
      | nil =>
        obtain ⟨rfl, rfl⟩ : s = [] ∧ r = [] := by simpa [splitDelimited] using hsplit
        exact .inr ⟨rfl, [], .nil, .inr (by simp [hslash])⟩
      | cons c' text' => exact absurd rfl (hnot c' text' hslash)
    · rcases ih with ⟨body, hbody, hs⟩ | ⟨hr, body, hbody, hs⟩
      · exact .inl ⟨_, .plain hslash hc hbody, by simp [hs]⟩
      · refine .inr ⟨hr, _, .plain hslash hc hbody, ?_⟩
        rcases hs with hs | hs <;> simp [hs]
  | case4 => exact .inr ⟨rfl, [], .nil, .inl rfl⟩

namespace Delimiter

theorem char_ne_backslash (d : Delimiter) : d.char ≠ '\\' := by
  cases d <;> decide

theorem eq_of_char_eq {d d' : Delimiter} (h : d.char = d'.char) : d = d' := by
  cases d <;> cases d' <;> simp_all [char]

end Delimiter

/-! ## The first character tells the rules apart -/

namespace TokenRule

/-- Whether a token of a rule may start with a character. -/
def starts : TokenRule → Char → Bool
  | word, c => isWordStart c
  | int, c | float, c => c.isDigit
  | delimited d, c => c == d.char
  | mark m, c => m.spelling.toList.head? == some c

theorem Matches.starts {rule : TokenRule} {text rest : List Char} (h : rule.Matches text rest) :
    ∃ c cs, text = c :: cs ∧ rule.starts c := by
  cases h with
  | word hc _ => exact ⟨_, _, rfl, hc⟩
  | int h => exact ⟨_, _, rfl, h _ (List.mem_cons_self ..)⟩
  | float hwhole _ => exact ⟨_, _, rfl, hwhole _ (List.mem_cons_self ..)⟩
  | closed d _ | unclosed d _ | dangling d _ => exact ⟨_, _, rfl, by simp [TokenRule.starts]⟩
  | mark m =>
    cases hm : m.spelling.toList with
    | nil => exact absurd (congrArg List.length hm) m.spelling_ne_nil.ne'
    | cons c cs => exact ⟨c, cs, rfl, by simp [TokenRule.starts, hm]⟩

/-- A rule that matches at the front of a text may start with its first character. -/
theorem Matches.starts_of_append {rule : TokenRule} {c : Char} {text t r : List Char}
    (h : rule.Matches t r) (heq : t ++ r = c :: text) : rule.starts c := by
  obtain ⟨c', cs, rfl, hstarts⟩ := h.starts
  rw [List.cons_append, List.cons.injEq] at heq
  exact heq.1 ▸ hstarts

variable {rule : TokenRule} {c : Char}

theorem not_isDigit_of_isWordStart (h : isWordStart c) : ¬ c.isDigit := by
  replace h : (decide ('A'.val ≤ c.val ∧ c.val ≤ 'Z'.val) ||
      (decide ('a'.val ≤ c.val) && decide (c.val ≤ 'z'.val))) || c == '_' := h
  simp only [Bool.or_eq_true, Bool.and_eq_true, decide_eq_true_eq, beq_iff_eq, Char.isDigit,
    UInt32.le_iff_toNat_le] at h ⊢
  rintro ⟨_, _⟩
  rcases h with (⟨_, _⟩ | ⟨_, _⟩) | rfl
  · simp at *; omega
  · simp at *; omega
  · simp at *

/-- Marks start with characters of their own. -/
theorem mark_starts {m : Mark} (h : (mark m).starts c) :
    ¬ isWordStart c ∧ ¬ c.isDigit ∧ ∀ d : Delimiter, c ≠ d.char := by
  have hc : m.spelling.toList.head? = some c := by simpa [starts] using h
  have hall : ∀ m : Mark, m.spelling.toList.head?.all fun c =>
      ¬ isWordStart c ∧ ¬ c.isDigit ∧ c ≠ '"' ∧ c ≠ '\x60' ∧ c ≠ '\'' := by
    intro m
    cases m <;> decide
  obtain ⟨hword, hdigit, hdouble, hback, hsingle⟩ :=
    of_decide_eq_true ((Option.all_eq_true _ _).1 (hall m) c hc)
  refine ⟨hword, hdigit, fun d => ?_⟩
  cases d <;> assumption

theorem eq_word_of_starts (hc : isWordStart c) (h : rule.starts c) : rule = word := by
  cases rule with
  | word => rfl
  | int | float => exact absurd h (not_isDigit_of_isWordStart hc)
  | delimited d =>
    obtain rfl : c = d.char := by simpa [starts] using h
    cases d <;> exact absurd hc (by decide)
  | mark m => exact absurd hc (mark_starts h).1

theorem eq_number_of_starts (hc : c.isDigit) (h : rule.starts c) : rule = int ∨ rule = float := by
  cases rule with
  | word => exact absurd hc (not_isDigit_of_isWordStart h)
  | int => exact .inl rfl
  | float => exact .inr rfl
  | delimited d =>
    obtain rfl : c = d.char := by simpa [starts] using h
    cases d <;> exact absurd hc (by decide)
  | mark m => exact absurd hc (mark_starts h).2.1

theorem eq_delimited_of_starts (d : Delimiter) (h : rule.starts d.char) : rule = delimited d := by
  cases rule with
  | word => cases d <;> exact absurd h (by decide)
  | int | float => cases d <;> exact absurd h (by decide)
  | delimited d' =>
    have hd : d.char = d'.char := by simpa [starts] using h
    rw [Delimiter.eq_of_char_eq hd]
  | mark m => exact absurd rfl ((mark_starts h).2.2 d)

end TokenRule

/-! ## The longest match -/

open TokenRule (Matches)

variable {c : Char} {text : List Char}

theorem munch_word (hc : isWordStart c) (text : List Char) :
    Munch (.ofWord (c :: text.takeWhile isWordChar)) (c :: text.takeWhile isWordChar)
      (text.dropWhile isWordChar) := by
  refine .inl ⟨.word, .word hc fun _ => List.mem_takeWhile_imp, rfl, fun rule t r heq h => ?_⟩
  rw [List.cons_append, List.takeWhile_append_dropWhile] at heq
  obtain rfl := TokenRule.eq_word_of_starts hc (h.starts_of_append heq)
  cases h with
  | word _ hcs =>
    obtain ⟨-, heq⟩ := List.cons.inj heq
    simpa using length_le_takeWhile heq hcs

/-- The parts of a number with a point are determined by the text that it is read from. -/
theorem split_of_float {cs fs r text : List Char} (hwhole : ∀ x ∈ cs, x.isDigit)
    (heq : cs ++ '.' :: fs ++ r = text) :
    text.takeWhile Char.isDigit = cs ∧ text.dropWhile Char.isDigit = '.' :: (fs ++ r) := by
  subst heq
  rw [List.append_assoc, List.takeWhile_append_of_pos hwhole, List.dropWhile_append_of_pos hwhole]
  have hpoint : ('.').isDigit = false := by decide
  simp [hpoint]

/-- A number without a point is the longest match unless one with a point matches. -/
theorem munch_int (hc : c.isDigit)
    (hfloat : ∀ tail, (c :: text).dropWhile Char.isDigit = '.' :: tail →
      tail.takeWhile Char.isDigit = []) :
    Munch .int ((c :: text).takeWhile Char.isDigit) ((c :: text).dropWhile Char.isDigit) := by
  have hwhole : (c :: text).takeWhile Char.isDigit = c :: text.takeWhile Char.isDigit := by simp [hc]
  refine .inl ⟨.int, ?_, rfl, fun rule t r heq h => ?_⟩
  · rw [hwhole]
    refine .int fun x hx => ?_
    rw [← hwhole] at hx
    exact List.mem_takeWhile_imp hx
  · rw [List.takeWhile_append_dropWhile] at heq
    rcases TokenRule.eq_number_of_starts hc (h.starts_of_append heq) with rfl | rfl
    · cases h with
      | int h => exact length_le_takeWhile heq h
    · cases h with
      | float hw hf =>
        have hnone := hfloat _ (split_of_float hw heq).2
        have hdigit := hf _ (List.mem_cons_self ..)
        simp [hdigit] at hnone

/-- A number with a point is the longest match. -/
theorem munch_float {tail : List Char} (hc : c.isDigit)
    (hpoint : (c :: text).dropWhile Char.isDigit = '.' :: tail)
    (hfraction : tail.takeWhile Char.isDigit ≠ []) :
    Munch .float ((c :: text).takeWhile Char.isDigit ++ '.' :: tail.takeWhile Char.isDigit)
      (tail.dropWhile Char.isDigit) := by
  have hwhole : (c :: text).takeWhile Char.isDigit = c :: text.takeWhile Char.isDigit := by simp [hc]
  have hall : (c :: text).takeWhile Char.isDigit ++ '.' :: tail = c :: text := by
    rw [← hpoint, List.takeWhile_append_dropWhile]
  have hdigits : ∀ {l : List Char}, ∀ x ∈ l.takeWhile Char.isDigit, x.isDigit :=
    fun _ => List.mem_takeWhile_imp
  refine .inl ⟨.float, ?_, rfl, fun rule t r heq h => ?_⟩
  · cases hf : tail.takeWhile Char.isDigit with
    | nil => exact absurd hf hfraction
    | cons f fs =>
      rw [hwhole]
      exact .float (hwhole ▸ hdigits) (hf ▸ hdigits)
  · rw [List.append_assoc, List.cons_append, List.takeWhile_append_dropWhile, hall] at heq
    rcases TokenRule.eq_number_of_starts hc (h.starts_of_append heq) with rfl | rfl
    · cases h with
      | int h =>
        have := length_le_takeWhile heq h
        simp only [List.length_append]
        omega
    · cases h with
      | @float c' f cs fs _ hw hf =>
        obtain ⟨htake, hdrop⟩ := split_of_float hw heq
        rw [hpoint] at hdrop
        have hfs := length_le_takeWhile (List.cons.inj hdrop).2.symm hf
        rw [htake]
        simp only [List.length_append, List.length_cons] at hfs ⊢
        omega

/-- A delimited literal is the only match at its place. -/
theorem munch_delimited (d : Delimiter) (text : List Char) :
    Munch d.kind (d.char :: (splitDelimited d.char text).1) (splitDelimited d.char text).2 := by
  have happend := splitDelimited_append d.char text
  refine .inl ⟨.delimited d, ?_, rfl, fun rule t r heq h => ?_⟩
  · rcases splitDelimited_cases d.char text with ⟨body, hbody, hs⟩ | ⟨hr, body, hbody, hs | hs⟩
    · rw [hs]
      exact .closed d hbody
    · rw [hs, hr]
      exact .unclosed d hbody
    · rw [hs, hr]
      exact .dangling d hbody
  · rw [List.cons_append, happend] at heq
    obtain rfl := TokenRule.eq_delimited_of_starts d (h.starts_of_append heq)
    have hd := d.char_ne_backslash
    cases h with
    | closed _ hbody =>
      obtain rfl : _ ++ d.char :: r = text := by simpa using heq
      rw [splitDelimited_closed hbody hd]
    | unclosed _ hbody =>
      obtain rfl : _ = text := by simpa using heq
      rw [splitDelimited_unclosed hbody]
    | dangling _ hbody =>
      obtain rfl : _ ++ ['\\'] = text := by simpa using heq
      rw [splitDelimited_dangling hbody hd]

namespace Mark

theorem mem_all (m : Mark) : m ∈ all := by
  cases m <;> decide

/-- Longer spellings come first. -/
theorem pairwise_all :
    all.Pairwise fun m m' => m'.spelling.toList.length ≤ m.spelling.toList.length := by
  decide

/-- No mark at the front of a text is longer than the one that is found. -/
theorem length_le_of_atHead? {m m' : Mark} {text r : List Char} (h : atHead? text = some m)
    (heq : m'.spelling.toList ++ r = text) :
    m'.spelling.toList.length ≤ m.spelling.toList.length := by
  obtain ⟨-, before, after, hall, hbefore⟩ := List.find?_eq_some_iff_append.1 h
  have hm' : m' ∈ before ++ m :: after := hall ▸ m'.mem_all
  have hhead : m'.spelling.toList.isPrefixOf text = true :=
    List.isPrefixOf_iff_prefix.2 ⟨r, heq⟩
  rcases List.mem_append.1 hm' with hmem | hmem
  · exact absurd (hbefore m' hmem) (by simp [hhead])
  · have hpairwise := hall ▸ pairwise_all
    rcases List.mem_cons.1 hmem with rfl | hmem
    · exact Nat.le_refl _
    · exact List.rel_of_pairwise_cons (List.pairwise_append.1 hpairwise).2.1 hmem

theorem not_prefix_of_atHead? {m : Mark} {text r : List Char} (h : atHead? text = none) :
    m.spelling.toList ++ r ≠ text := by
  intro heq
  have := List.find?_eq_none.1 h m m.mem_all
  exact this (List.isPrefixOf_iff_prefix.2 ⟨r, heq⟩)

theorem append_drop_of_atHead? {m : Mark} {text : List Char} (h : atHead? text = some m) :
    m.spelling.toList ++ text.drop m.spelling.toList.length = text := by
  obtain ⟨hhead, -⟩ := List.find?_eq_some_iff_append.1 h
  obtain ⟨r, rfl⟩ := List.isPrefixOf_iff_prefix.1 hhead
  simp

end Mark

/-- A character that starts neither a word nor a number nor a literal can only start a mark. -/
theorem exists_mark_of_matches {rule : TokenRule} {t r : List Char} (hword : ¬ isWordStart c)
    (hdigit : ¬ c.isDigit) (hdelimiter : ∀ d : Delimiter, c ≠ d.char) (heq : t ++ r = c :: text)
    (h : rule.Matches t r) : ∃ m : Mark, t = m.spelling.toList := by
  have hstarts := h.starts_of_append heq
  cases h with
  | word => exact absurd hstarts hword
  | int | float => exact absurd hstarts hdigit
  | closed d | unclosed d | dangling d =>
    exact absurd (by simpa [TokenRule.starts] using hstarts) (hdelimiter d)
  | mark m => exact ⟨m, rfl⟩

namespace Lexeme

/-- What a lexeme covers and what it leaves make up the text, it is the longest match, and its
literal is what it covers unless it stands between delimiters. -/
structure Sound (x : Lexeme) (text : List Char) : Prop where
  append : x.text ++ x.rest = text
  munch : Munch x.kind x.text x.rest
  literal : x.kind ≠ .string → x.kind ≠ .char → x.literal = x.text

theorem sound_ofDigits (hc : c.isDigit) : (ofDigits (c :: text)).Sound (c :: text) := by
  have happend := List.takeWhile_append_dropWhile (p := Char.isDigit) (l := c :: text)
  unfold ofDigits
  dsimp only
  split
  next tail hpoint =>
    split
    next hempty =>
      have hnone : ∀ tail', (c :: text).dropWhile Char.isDigit = '.' :: tail' →
          tail'.takeWhile Char.isDigit = [] := by
        intro tail' htail'
        obtain rfl : tail = tail' := (List.cons.inj (hpoint.symm.trans htail')).2
        simpa using hempty
      rw [← hpoint]
      exact ⟨happend, munch_int hc hnone, fun _ _ => rfl⟩
    next hsome =>
      refine ⟨?_, munch_float hc hpoint (by simpa using hsome), fun _ _ => rfl⟩
      simp only [plain, List.append_assoc, List.cons_append, List.takeWhile_append_dropWhile]
      rw [← hpoint, happend]
  next hpoint =>
    exact ⟨happend, munch_int hc fun tail htail => absurd htail (hpoint tail), fun _ _ => rfl⟩

theorem sound_ofDelimited (d : Delimiter) (text : List Char) :
    (ofDelimited d.kind d.char text).Sound (d.char :: text) := by
  refine ⟨?_, munch_delimited d text, fun hstring hchar => ?_⟩
  · exact congrArg (d.char :: ·) (splitDelimited_append d.char text)
  · cases d
    · exact absurd rfl hstring
    · exact absurd rfl hstring
    · exact absurd rfl hchar

theorem sound_ofText (c : Char) (text : List Char) : (ofText c text).Sound (c :: text) := by
  unfold ofText
  split
  next hword =>
    refine ⟨?_, munch_word hword text, fun _ _ => rfl⟩
    simp [plain, List.takeWhile_append_dropWhile]
  next hword =>
  split
  next hdigit => exact sound_ofDigits hdigit
  next hdigit =>
  split
  next h => exact h ▸ sound_ofDelimited .doubleQuote text
  next hdouble =>
  split
  next h => exact h ▸ sound_ofDelimited .backtick text
  next hback =>
  split
  next h => exact h ▸ sound_ofDelimited .quote text
  next hsingle =>
  have hdelimiter : ∀ d : Delimiter, c ≠ d.char := by
    intro d
    cases d <;> assumption
  split
  next m hm =>
    have happend := Mark.append_drop_of_atHead? hm
    refine ⟨happend, .inl ⟨.mark m, .mark m, rfl, fun rule t r heq h => ?_⟩, fun _ _ => rfl⟩
    obtain ⟨m', rfl⟩ := exists_mark_of_matches hword hdigit hdelimiter (heq.trans happend) h
    exact Mark.length_le_of_atHead? hm (heq.trans happend)
  next hm =>
    refine ⟨rfl, .inr ⟨rfl, rfl, fun rule t r heq h => ?_⟩, fun _ _ => rfl⟩
    obtain ⟨m', rfl⟩ := exists_mark_of_matches hword hdigit hdelimiter heq h
    exact Mark.not_prefix_of_atHead? hm heq

end Lexeme

/-! ## What is skipped -/

theorem not_infix_cons {l : List Char} (hhead : ∀ tail, c = '*' → l = '/' :: tail → False)
    (h : ¬ ['*', '/'] <:+: l) : ¬ ['*', '/'] <:+: c :: l := by
  rw [List.infix_cons_iff]
  rintro (⟨tail, htail⟩ | htail)
  · simp only [List.cons_append, List.nil_append, List.cons.injEq] at htail
    exact hhead tail htail.1.symm htail.2.symm
  · exact h htail

theorem bare_nil : Bare [] := by
  intro piece rest heq h
  obtain ⟨rfl, rfl⟩ := List.append_eq_nil_iff.1 heq
  cases h

theorem bare_cons (hline : ∀ tail, c = '/' → text = '/' :: tail → False)
    (hblock : ∀ tail, c = '/' → text = '*' :: tail → False) (hblank : ¬ isBlank c) :
    Bare (c :: text) := by
  intro piece rest heq h
  cases h with
  | blank h =>
    obtain ⟨rfl, -⟩ := List.cons.inj heq
    exact hblank h
  | line =>
    obtain ⟨rfl, htext⟩ := List.cons.inj heq
    exact hline _ rfl htext.symm
  | block | unclosed =>
    obtain ⟨rfl, htext⟩ := List.cons.inj heq
    exact hblock _ rfl htext.symm

/-- What skipping gives: blanks and comments, and a rest without any in front. -/
def Skips (split : List Char × List Char) : Prop := Trivia split.1 split.2 ∧ Bare split.2

/-- What skipping gives from inside a line comment. -/
def SkipsLine (split : List Char × List Char) : Prop :=
  (∃ body more, split.1 = body ++ more ∧ '\n' ∉ body ∧
    (∀ c ∈ (more ++ split.2).head?, c = '\n') ∧ Trivia more split.2) ∧ Bare split.2

/-- What skipping gives from inside a block comment. -/
def SkipsBlock (split : List Char × List Char) : Prop :=
  ((∃ body more, split.1 = body ++ '*' :: '/' :: more ∧ ¬ ['*', '/'] <:+: body ++ ['*'] ∧
    Trivia more split.2) ∨ (split.2 = [] ∧ ¬ ['*', '/'] <:+: split.1)) ∧ Bare split.2

variable {s r : List Char}

theorem Skips.blank (h : Skips (s, r)) (hc : isBlank c) : Skips (c :: s, r) :=
  ⟨.cons (.blank hc) h.1, h.2⟩

theorem SkipsLine.skips (h : SkipsLine (s, r)) : Skips ('/' :: '/' :: s, r) := by
  obtain ⟨⟨body, more, hs, hbody, hhead, hmore⟩, hbare⟩ := h
  obtain rfl : s = body ++ more := hs
  have hpiece : TriviaPiece ('/' :: '/' :: body) (more ++ r) := .line hbody hhead
  exact ⟨.cons hpiece hmore, hbare⟩

theorem SkipsBlock.skips (h : SkipsBlock (s, r)) : Skips ('/' :: '*' :: s, r) := by
  obtain ⟨⟨body, more, hs, hbody, hmore⟩ | ⟨hr, hs⟩, hbare⟩ := h
  · obtain rfl : s = body ++ '*' :: '/' :: more := hs
    have hpiece : TriviaPiece ('/' :: '*' :: (body ++ ['*', '/'])) (more ++ r) := .block hbody
    exact ⟨by simpa using Trivia.cons hpiece hmore, hbare⟩
  · obtain rfl : r = [] := hr
    have hnil : Trivia [] [] := .nil
    exact ⟨by simpa using Trivia.cons (.unclosed hs) hnil, hbare⟩

theorem Skips.lineEnd (h : Skips (s, r)) : SkipsLine ('\n' :: s, r) := by
  have hblank : isBlank '\n' := by decide
  exact ⟨⟨[], '\n' :: s, rfl, by simp, by simp, .cons (.blank hblank) h.1⟩, h.2⟩

theorem SkipsLine.cons (h : SkipsLine (s, r)) (hc : c ≠ '\n') : SkipsLine (c :: s, r) := by
  obtain ⟨⟨body, more, hs, hbody, hhead, hmore⟩, hbare⟩ := h
  obtain rfl : s = body ++ more := hs
  exact ⟨⟨c :: body, more, rfl, by simp [hbody, hc.symm], hhead, hmore⟩, hbare⟩

theorem Skips.blockEnd (h : Skips (s, r)) : SkipsBlock ('*' :: '/' :: s, r) :=
  ⟨.inl ⟨[], s, rfl, by decide, h.1⟩, h.2⟩

theorem SkipsBlock.cons (h : SkipsBlock (s, r)) (happend : s ++ r = text)
    (hc : ∀ tail, c = '*' → text = '/' :: tail → False) : SkipsBlock (c :: s, r) := by
  subst happend
  obtain ⟨⟨body, more, hs, hbody, hmore⟩ | ⟨hr, hs⟩, hbare⟩ := h
  · obtain rfl : s = body ++ '*' :: '/' :: more := hs
    refine ⟨.inl ⟨c :: body, more, rfl, not_infix_cons (fun tail hstar htail => ?_) hbody, hmore⟩,
      hbare⟩
    -- the slash that could close the comment here would stand at the front of the body
    cases body with
    | nil => simp at htail
    | cons b body =>
      obtain ⟨rfl, -⟩ := List.cons.inj htail
      exact hc _ hstar rfl
  · obtain rfl : r = [] := hr
    rw [List.append_nil] at hc
    exact ⟨.inr ⟨rfl, not_infix_cons hc hs⟩, hbare⟩

theorem skips_split :
    (∀ text, Skips (splitTrivia text)) ∧ (∀ text, SkipsBlock (splitBlockComment text)) ∧
      ∀ text, SkipsLine (splitLineComment text) := by
  refine splitTrivia.mutual_induct (fun text => Skips (splitTrivia text))
    (fun text => SkipsBlock (splitBlockComment text))
    (fun text => SkipsLine (splitLineComment text)) ?_ ?_ ?_ ?_ ?_ ?_ ?_ ?_ ?_ ?_ ?_
  · intro text s r hsplit ih
    rw [splitTrivia, hsplit]
    exact (hsplit ▸ ih).skips
  · intro text s r hsplit ih
    rw [splitTrivia, hsplit]
    exact (hsplit ▸ ih).skips
  · intro c text hline hblock hblank s r hsplit ih
    rw [splitTrivia.eq_3 c text hline hblock, if_pos hblank, hsplit]
    exact (hsplit ▸ ih).blank hblank
  · intro c text hline hblock hblank
    rw [splitTrivia.eq_3 c text hline hblock, if_neg hblank]
    exact ⟨.nil, bare_cons hline hblock hblank⟩
  · exact ⟨.nil, bare_nil⟩
  · intro text s r hsplit ih
    rw [splitBlockComment, hsplit]
    exact (hsplit ▸ ih).blockEnd
  · intro c text hend s r hsplit ih
    rw [splitBlockComment.eq_2 c text hend, hsplit]
    have happend := trivia_append.2.1 text
    rw [hsplit] at ih happend
    exact ih.cons happend hend
  · exact ⟨.inr ⟨rfl, by decide⟩, bare_nil⟩
  · intro text s r hsplit ih
    rw [splitLineComment, if_pos rfl, hsplit]
    exact (hsplit ▸ ih).lineEnd
  · intro c text hc s r hsplit ih
    rw [splitLineComment, if_neg hc, hsplit]
    exact (hsplit ▸ ih).cons hc
  · exact ⟨⟨[], [], rfl, by simp, by simp [splitLineComment], .nil⟩, bare_nil⟩

theorem trivia_splitTrivia (text : List Char) : Trivia (splitTrivia text).1 (splitTrivia text).2 :=
  (skips_split.1 text).1

theorem bare_splitTrivia (text : List Char) : Bare (splitTrivia text).2 :=
  (skips_split.1 text).2

/-- Blanks in front of a text are skipped with what else is skipped there. -/
theorem splitTrivia_blanks {blanks : List Char} (hblanks : ∀ c ∈ blanks, isBlank c)
    (text : List Char) : (splitTrivia (blanks ++ text)).2 = (splitTrivia text).2 := by
  induction blanks with
  | nil => rfl
  | cons c blanks ih =>
    obtain ⟨hc, hblanks⟩ := List.forall_mem_cons.1 hblanks
    have hno : ∀ (d : Char) (tail : List Char), c = '/' → blanks ++ text = d :: tail → False := by
      rintro d tail rfl -
      exact absurd hc (by decide)
    rw [List.cons_append, splitTrivia.eq_3 c _ (hno '/') (hno '*'), if_pos hc]
    exact ih hblanks

end ClassLang
