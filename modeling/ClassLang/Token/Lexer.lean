import ClassLang.Token

/-!
# From text to tokens

`Lexeme.ofText` reads one token off the front of a text that starts with neither a blank nor a
comment, always taking the longest stretch that some token class admits. `tokenize` alternates it
with `splitTrivia`, which skips blanks and comments. Every token leaves a shorter rest, which is why
the scan ends. A comment or a delimited literal that is never closed runs to the end of the text.
-/

namespace ClassLang

/-! ## Character classes -/

/-- The characters skipped between tokens. -/
def isBlank (c : Char) : Bool :=
  c == ' ' || c == '\t' || c == '\r' || c == '\n' || c == '\x0c'

def isWordStart (c : Char) : Bool := c.isAlpha || c == '_'

def isWordChar (c : Char) : Bool := c.isAlphanum || c == '_'

/-! ## Blanks and comments -/

mutual

/-- Splits a text into its leading blanks and comments, and the rest. -/
def splitTrivia : List Char → List Char × List Char
  | '/' :: '/' :: text => let (s, r) := splitLineComment text; ('/' :: '/' :: s, r)
  | '/' :: '*' :: text => let (s, r) := splitBlockComment text; ('/' :: '*' :: s, r)
  | c :: text =>
    if isBlank c then let (s, r) := splitTrivia text; (c :: s, r) else ([], c :: text)
  | [] => ([], [])

/-- Like `splitTrivia`, from inside a comment that ends with the line. -/
def splitLineComment : List Char → List Char × List Char
  | c :: text =>
    if c = '\n' then let (s, r) := splitTrivia text; (c :: s, r)
    else let (s, r) := splitLineComment text; (c :: s, r)
  | [] => ([], [])

/-- Like `splitTrivia`, from inside a comment that ends with a star and a slash. -/
def splitBlockComment : List Char → List Char × List Char
  | '*' :: '/' :: text => let (s, r) := splitTrivia text; ('*' :: '/' :: s, r)
  | c :: text => let (s, r) := splitBlockComment text; (c :: s, r)
  | [] => ([], [])

end

/-! ## Delimited literals -/

/-- Splits off the rest of a literal whose opening delimiter has been read, the closing delimiter
included. A backslash protects the character after it. -/
def splitDelimited (delimiter : Char) : List Char → List Char × List Char
  | '\\' :: c :: text => let (s, r) := splitDelimited delimiter text; ('\\' :: c :: s, r)
  | c :: text =>
    if c = delimiter then ([c], text)
    else let (s, r) := splitDelimited delimiter text; (c :: s, r)
  | [] => ([], [])

/-- Whether a text ends in an odd run of backslashes, so that it protects what follows. -/
def endsEscaped (text : List Char) : Bool :=
  (text.reverse.takeWhile (· == '\\')).length % 2 == 1

/-- The body of a delimited literal, given what follows the opening delimiter: a closing delimiter
at the end is dropped unless it is protected. -/
def literalBody (delimiter : Char) (inner : List Char) : List Char :=
  if inner.getLast? = some delimiter ∧ ¬ endsEscaped inner.dropLast then inner.dropLast
  else inner

/-! ## One token -/

/-- A token read off the front of a text: its class, its literal, the text it covers and the rest
of the text. -/
structure Lexeme where
  kind : TokenKind
  literal : List Char
  text : List Char
  rest : List Char

namespace Lexeme

/-- A token whose literal is the covered text. -/
def plain (kind : TokenKind) (text rest : List Char) : Lexeme := ⟨kind, text, text, rest⟩

/-- Digits, and a point with more digits if both follow. -/
def ofDigits (text : List Char) : Lexeme :=
  let whole := text.takeWhile Char.isDigit
  match text.dropWhile Char.isDigit with
  | '.' :: tail =>
    let fraction := tail.takeWhile Char.isDigit
    if fraction.isEmpty then plain .int whole ('.' :: tail)
    else plain .float (whole ++ '.' :: fraction) (tail.dropWhile Char.isDigit)
  | rest => plain .int whole rest

/-- A literal between delimiters, given the text after the opening one. -/
def ofDelimited (kind : TokenKind) (delimiter : Char) (text : List Char) : Lexeme :=
  let (inner, rest) := splitDelimited delimiter text
  ⟨kind, literalBody delimiter inner, delimiter :: inner, rest⟩

/-- The token at the front of `c :: text`, where `c` starts neither a blank nor a comment. -/
def ofText (c : Char) (text : List Char) : Lexeme :=
  if isWordStart c then
    let word := c :: text.takeWhile isWordChar
    plain (.ofWord word) word (text.dropWhile isWordChar)
  else if c.isDigit then ofDigits (c :: text)
  else if c = '"' then ofDelimited .string c text
  else if c = '\x60' then ofDelimited .string c text
  else if c = '\'' then ofDelimited .char c text
  else match Mark.atHead? (c :: text) with
    | some m => plain m m.spelling.toList ((c :: text).drop m.spelling.toList.length)
    | none => plain .illegal [c] text

/-- The token that a lexeme starting at `p` is. -/
def token (x : Lexeme) (p : Place) : Token :=
  ⟨x.kind, .ofList x.literal, .between p (p.after x.text)⟩

end Lexeme

/-! ## Splitting loses nothing -/

/-- What is skipped and what is left make up the text. -/
theorem trivia_append :
    (∀ text, (splitTrivia text).1 ++ (splitTrivia text).2 = text) ∧
    (∀ text, (splitBlockComment text).1 ++ (splitBlockComment text).2 = text) ∧
    (∀ text, (splitLineComment text).1 ++ (splitLineComment text).2 = text) := by
  refine splitTrivia.mutual_induct
    (fun text => (splitTrivia text).1 ++ (splitTrivia text).2 = text)
    (fun text => (splitBlockComment text).1 ++ (splitBlockComment text).2 = text)
    (fun text => (splitLineComment text).1 ++ (splitLineComment text).2 = text)
    ?_ ?_ ?_ ?_ ?_ ?_ ?_ ?_ ?_ ?_ ?_ <;> intros <;>
    simp_all [splitTrivia, splitLineComment, splitBlockComment]

theorem splitTrivia_append (text : List Char) :
    (splitTrivia text).1 ++ (splitTrivia text).2 = text :=
  trivia_append.1 text

theorem splitTrivia_length (text : List Char) : (splitTrivia text).2.length ≤ text.length := by
  conv => rhs; rw [← splitTrivia_append text]
  simp

/-- What is taken and what is left make up the text. -/
theorem splitDelimited_append (d : Char) (text : List Char) :
    (splitDelimited d text).1 ++ (splitDelimited d text).2 = text := by
  fun_induction splitDelimited d text <;> simp_all

theorem splitDelimited_length (d : Char) (text : List Char) :
    (splitDelimited d text).2.length ≤ text.length := by
  conv => rhs; rw [← splitDelimited_append d text]
  simp

/-! ## A token takes at least one character -/

theorem Mark.spelling_ne_nil (m : Mark) : 0 < m.spelling.toList.length := by
  cases m <;> decide

theorem length_dropWhile_le {α : Type} (p : α → Bool) (l : List α) :
    (l.dropWhile p).length ≤ l.length :=
  (List.dropWhile_sublist p).length_le

/-- A lexeme takes at least the first character. -/
theorem Lexeme.rest_length (c : Char) (text : List Char) :
    (ofText c text).rest.length < (c :: text).length := by
  have hd := length_dropWhile_le Char.isDigit text
  unfold ofText
  split
  · have := length_dropWhile_le isWordChar text
    simp only [plain, List.length_cons]; omega
  split
  · rename_i h
    simp only [ofDigits, List.dropWhile_cons, h, if_true]
    split
    · rename_i tail heq
      have hlen : (tail.length + 1) ≤ text.length := by
        have := congrArg List.length heq
        simp only [List.length_cons] at this
        omega
      have := length_dropWhile_le Char.isDigit tail
      split <;> simp only [plain, List.length_cons] <;> omega
    · simp only [plain, List.length_cons]; omega
  iterate 3
    split
    · have := splitDelimited_length c text
      simp only [ofDelimited, List.length_cons]; omega
  split
  · rename_i m _
    have := m.spelling_ne_nil
    simp only [plain, List.length_drop, List.length_cons]; omega
  · simp [plain]

/-! ## All tokens -/

/-- The tokens of a text that starts at `p`, the last one marking the end of the text. -/
def tokensFrom (p : Place) (text : List Char) : List Token :=
  let q := p.after (splitTrivia text).1
  match _h : (splitTrivia text).2 with
  | [] => [⟨.eof, "", .between q q⟩]
  | c :: rest =>
    let x := Lexeme.ofText c rest
    x.token q :: tokensFrom (q.after x.text) x.rest
termination_by text.length
decreasing_by
  have h₁ := splitTrivia_length text
  have h₂ := Lexeme.rest_length c rest
  rw [_h] at h₁
  omega

/-- The tokens of a source text, the end marker included. -/
def tokenize (source : String) : List Token := tokensFrom .start source.toList

end ClassLang
