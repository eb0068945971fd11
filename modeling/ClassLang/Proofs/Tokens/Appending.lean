import ClassLang.Proofs.Tokens.Rules

/-!
# Tokens of a text that goes on

A line feed ends every token and every comment at the end of a line, so what is written behind one
leaves the tokens in front of it as they are. The exceptions are literals and block comments that
are never closed. `endsIn` finds them by going over a text once, without any tokens, and
`tokensFrom_append` is the law for all other texts.
-/

namespace ClassLang

/-! ## What a text ends inside of -/

/-- What a point of a text may be inside of. -/
inductive Inside where
  | code
  | lineComment
  | blockComment
  | literal (delimiter : Char)
deriving DecidableEq, Repr

/-- Whether a character opens a literal. -/
def isDelimiter (c : Char) : Bool := c == '"' || c == '\x60' || c == '\''

/-- What the end of a text is inside of. -/
def endsIn : Inside → List Char → Inside
  | m, [] => m
  | .code, '/' :: '/' :: text => endsIn .lineComment text
  | .code, '/' :: '*' :: text => endsIn .blockComment text
  | .code, c :: text => endsIn (if isDelimiter c then .literal c else .code) text
  | .lineComment, c :: text => endsIn (if c = '\n' then .code else .lineComment) text
  | .blockComment, '*' :: '/' :: text => endsIn .code text
  | .blockComment, _ :: text => endsIn .blockComment text
  | .literal d, '\\' :: _ :: text => endsIn (.literal d) text
  | .literal d, c :: text => endsIn (if c = d then .code else .literal d) text

/-- Whether something is over at the end of a line at the latest. -/
def Inside.isClosed : Inside → Bool
  | .code | .lineComment => true
  | .blockComment | .literal _ => false

/-- Whether every literal and every block comment of a source is closed. -/
def isTerminated (source : String) : Bool := (endsIn .code source.toList).isClosed

/-- A character that stands for itself outside of literals and comments. -/
def isSimple (c : Char) : Bool := c != '/' && !isDelimiter c

theorem endsIn_code_cons {c : Char} (hc : c ≠ '/') (text : List Char) :
    endsIn .code (c :: text) = endsIn (if isDelimiter c then .literal c else .code) text := by
  rw [endsIn]
  · rintro _ rfl
    exact absurd rfl hc
  · rintro _ rfl
    exact absurd rfl hc

theorem endsIn_append_of_simple {l : List Char} (hl : ∀ c ∈ l, isSimple c) (text : List Char) :
    endsIn .code (l ++ text) = endsIn .code text := by
  induction l with
  | nil => rfl
  | cons c l ih =>
    have hc : c ≠ '/' ∧ isDelimiter c = false := by
      simpa [isSimple] using hl c List.mem_cons_self
    rw [List.cons_append, endsIn_code_cons hc.1, hc.2, if_neg Bool.false_ne_true]
    exact ih fun x hx => hl x (List.mem_cons_of_mem c hx)

/-! ## Blanks and comments -/

variable {c : Char} {text trivia rest more : List Char} {p : Place}

/-- What is skipped in front of a text that goes on in a new line. -/
def resumed (more : List Char) : List Char × List Char → List Char × List Char
  | (s, []) => (s ++ '\n' :: (splitTrivia more).1, (splitTrivia more).2)
  | (s, c :: r) => (s, c :: r ++ '\n' :: more)

/-- A closed text that starts with no comment. -/
structure StartsCode (text : List Char) : Prop where
  closed : (endsIn .code text).isClosed
  line : ∀ tail, text ≠ '/' :: '/' :: tail
  block : ∀ tail, text ≠ '/' :: '*' :: tail

/-- Skipping goes on in the new line if it met the end of the text, and else stops where it did. -/
def Resumes (more : List Char) (split : List Char → List Char × List Char) (inside : Inside)
    (text : List Char) : Prop :=
  (endsIn inside text).isClosed →
    split (text ++ '\n' :: more) = resumed more (split text) ∧ StartsCode (split text).2

theorem startsCode_nil : StartsCode [] := ⟨rfl, nofun, nofun⟩

/-- What skips a front and goes on in another way. -/
theorem Resumes.behind {split split' : List Char → List Char × List Char} {inside inside' : Inside}
    (front : List Char) (h : Resumes more split' inside' text)
    (htext : split (front ++ text) = (front ++ (split' text).1, (split' text).2))
    (hmore : split (front ++ (text ++ '\n' :: more)) =
      (front ++ (split' (text ++ '\n' :: more)).1, (split' (text ++ '\n' :: more)).2))
    (hinside : endsIn inside (front ++ text) = endsIn inside' text) :
    Resumes more split inside (front ++ text) := by
  intro hclosed
  obtain ⟨hresumed, hrest⟩ := h (hinside ▸ hclosed)
  rw [List.append_assoc, hmore, htext, hresumed]
  refine ⟨?_, hrest⟩
  rcases split' text with ⟨s, _ | ⟨c, r⟩⟩ <;> simp [resumed]

theorem splitTrivia_blank_cons (hc : isBlank c) (text : List Char) :
    splitTrivia (c :: text) = (c :: (splitTrivia text).1, (splitTrivia text).2) := by
  rw [splitTrivia.eq_3 c text ?_ ?_, if_pos hc]
  · rintro _ rfl
    exact absurd hc (by decide)
  · rintro _ rfl
    exact absurd hc (by decide)

theorem isSimple_of_isBlank (hc : isBlank c) : isSimple c := by
  simp only [isBlank, Bool.or_eq_true, beq_iff_eq] at hc
  rcases hc with (((rfl | rfl) | rfl) | rfl) | rfl <;> decide

/-- A line feed does not go on with anything that is made of two characters. -/
theorem ne_cons_of_append {x y : Char} (hy : y ≠ '\n')
    (h : ∀ tail, c = x → text = y :: tail → False) :
    ∀ tail, c = x → text ++ '\n' :: more = y :: tail → False := by
  intro tail hc htail
  cases text with
  | nil => exact hy (List.cons.inj htail).1.symm
  | cons z text => exact h text hc (by rw [(List.cons.inj htail).1])

theorem resumes_split (more : List Char) :
    (∀ text, Resumes more splitTrivia .code text) ∧
      (∀ text, Resumes more splitBlockComment .blockComment text) ∧
        ∀ text, Resumes more splitLineComment .lineComment text := by
  refine splitTrivia.mutual_induct (Resumes more splitTrivia .code)
    (Resumes more splitBlockComment .blockComment) (Resumes more splitLineComment .lineComment)
    ?_ ?_ ?_ ?_ ?_ ?_ ?_ ?_ ?_ ?_ ?_
  · intro text _ _ _ ih
    exact ih.behind ['/', '/'] (splitTrivia.eq_1 _) (splitTrivia.eq_1 _) (endsIn.eq_2 _)
  · intro text _ _ _ ih
    exact ih.behind ['/', '*'] (splitTrivia.eq_2 _) (splitTrivia.eq_2 _) (endsIn.eq_3 _)
  · intro c text _ _ hblank _ _ _ ih
    exact ih.behind [c] (splitTrivia_blank_cons hblank _) (splitTrivia_blank_cons hblank _)
      (endsIn_append_of_simple (by simpa using isSimple_of_isBlank hblank) text)
  · intro c text hline hblock hblank hclosed
    rw [List.cons_append, splitTrivia.eq_3 c text hline hblock, if_neg hblank,
      splitTrivia.eq_3 c _ (ne_cons_of_append (by decide) hline)
        (ne_cons_of_append (by decide) hblock), if_neg hblank]
    refine ⟨rfl, hclosed, fun tail htail => ?_, fun tail htail => ?_⟩
    · exact hline tail (List.cons.inj htail).1 (List.cons.inj htail).2
    · exact hblock tail (List.cons.inj htail).1 (List.cons.inj htail).2
  · intro _
    exact ⟨splitTrivia_blank_cons (by decide) more, startsCode_nil⟩
  · intro text _ _ _ ih
    exact ih.behind ['*', '/'] (splitBlockComment.eq_1 _) (splitBlockComment.eq_1 _) (endsIn.eq_6 _)
  · intro c text hend _ _ _ ih
    exact ih.behind [c] (splitBlockComment.eq_2 c _ hend)
      (splitBlockComment.eq_2 c _ (ne_cons_of_append (by decide) hend)) (endsIn.eq_7 c text hend)
  · intro hclosed
    cases hclosed
  · intro text _ _ _ ih
    exact ih.behind ['\n'] (splitLineComment.eq_1 '\n' _) (splitLineComment.eq_1 '\n' _)
      (endsIn.eq_5 '\n' _)
  · intro c text hc _ _ _ ih
    exact ih.behind [c] (by simp [splitLineComment, hc]) (by simp [splitLineComment, hc])
      (by simp [endsIn, hc])
  · intro _
    exact ⟨splitLineComment.eq_1 '\n' more, startsCode_nil⟩

/-! ## Literals -/

theorem endsIn_literal {d : Char} {body : List Char} (h : LiteralBody d body) (hd : d ≠ '\\')
    (text : List Char) : endsIn (.literal d) (body ++ d :: text) = endsIn .code text := by
  induction h with
  | nil =>
    rw [List.nil_append, endsIn.eq_9 d d text fun _ _ h => absurd h hd, if_pos rfl]
  | @plain c body hslash hne _ ih =>
    rw [List.cons_append, endsIn.eq_9 d c _ fun _ _ h => absurd h hslash, if_neg hne, ih]
  | protected_ c _ ih => rw [List.cons_append, List.cons_append, endsIn, ih]

theorem endsIn_unclosed {d : Char} {body : List Char} (h : LiteralBody d body) :
    endsIn (.literal d) body = .literal d := by
  induction h with
  | nil => rfl
  | @plain c body hslash hne _ ih =>
    rw [endsIn.eq_9 d c _ fun _ _ h => absurd h hslash, if_neg hne, ih]
  | protected_ c _ ih => rw [endsIn, ih]

theorem endsIn_dangling {d : Char} {body : List Char} (h : LiteralBody d body) (hd : d ≠ '\\') :
    endsIn (.literal d) (body ++ ['\\']) = .literal d := by
  induction h with
  | nil => simp [endsIn, hd.symm]
  | @plain c body hslash hne _ ih =>
    rw [List.cons_append, endsIn.eq_9 d c _ fun _ _ h => absurd h hslash, if_neg hne, ih]
  | protected_ c _ ih => rw [List.cons_append, List.cons_append, endsIn, ih]

/-! ## One token -/

/-- A token goes on being the same token, and what is left of the text is closed. -/
structure Lexeme.Stays (more : List Char) (c : Char) (text : List Char) : Prop where
  append : ofText c (text ++ '\n' :: more) =
    { ofText c text with rest := (ofText c text).rest ++ '\n' :: more }
  closed : (endsIn .code (ofText c text).rest).isClosed

/-- A run of characters ends with the line at the latest. -/
theorem takeWhile_append_lineFeed {f : Char → Bool} (hf : f '\n' = false) (text more : List Char) :
    (text ++ '\n' :: more).takeWhile f = text.takeWhile f ∧
      (text ++ '\n' :: more).dropWhile f = text.dropWhile f ++ '\n' :: more := by
  induction text with
  | nil => simp [hf]
  | cons c text ih => cases hc : f c <;> simp [hc, ih]

theorem isSimple_of_isWordChar (hc : isWordChar c) : isSimple c := by
  cases hsimple : isSimple c with
  | true => rfl
  | false =>
    have hor : ((c = '/' ∨ c = '"') ∨ c = '\x60') ∨ c = '\'' := by
      simp only [isSimple, isDelimiter] at hsimple
      grind
    rcases hor with ((rfl | rfl) | rfl) | rfl <;> exact absurd hc (by decide)

theorem isSimple_of_isDigit (hc : c.isDigit) : isSimple c :=
  isSimple_of_isWordChar (by simp [isWordChar, Char.isAlphanum, hc])

namespace Lexeme

/-- What is left behind simple characters is closed. -/
theorem closed_of_simple (h : ∀ x ∈ (ofText c text).text, isSimple x)
    (hclosed : (endsIn .code (c :: text)).isClosed) :
    (endsIn .code (ofText c text).rest).isClosed := by
  rwa [← (sound_ofText c text).append, endsIn_append_of_simple h] at hclosed

theorem stays_word (hc : isWordStart c) (hclosed : (endsIn .code (c :: text)).isClosed) :
    Stays more c text := by
  have hword : ∀ text, ofText c text = plain (.ofWord (c :: text.takeWhile isWordChar))
      (c :: text.takeWhile isWordChar) (text.dropWhile isWordChar) := fun text => by
    rw [ofText, if_pos hc]
  obtain ⟨htake, hdrop⟩ := takeWhile_append_lineFeed (f := isWordChar) (by decide) text more
  refine ⟨?_, closed_of_simple (fun x hx => ?_) hclosed⟩
  · rw [hword, hword, htake, hdrop]
    rfl
  · rw [hword] at hx
    have hstart : isWordChar c := by
      rcases Bool.or_eq_true_iff.1 hc with hc | hc <;> simp [isWordChar, Char.isAlphanum, hc]
    rcases List.mem_cons.1 hx with rfl | hx
    · exact isSimple_of_isWordChar hstart
    · exact isSimple_of_isWordChar (List.mem_takeWhile_imp hx)

theorem ofDigits_append (text more : List Char) :
    ofDigits (text ++ '\n' :: more) =
      { ofDigits text with rest := (ofDigits text).rest ++ '\n' :: more } := by
  obtain ⟨htake, hdrop⟩ := takeWhile_append_lineFeed (f := Char.isDigit) (by decide) text more
  unfold ofDigits
  rw [htake, hdrop]
  cases text.dropWhile Char.isDigit with
  | nil => rfl
  | cons x tail =>
    by_cases hx : x = '.'
    · subst hx
      obtain ⟨htake', hdrop'⟩ := takeWhile_append_lineFeed (f := Char.isDigit) (by decide) tail more
      simp only [List.cons_append, htake', hdrop']
      split <;> rfl
    · simp [hx, plain]

theorem simple_ofDigits (text : List Char) : ∀ x ∈ (ofDigits text).text, isSimple x := by
  have hdigits : ∀ {l : List Char}, ∀ x ∈ l.takeWhile Char.isDigit, isSimple x :=
    fun x hx => isSimple_of_isDigit (List.mem_takeWhile_imp hx)
  have hpoint : isSimple '.' := by decide
  unfold ofDigits
  dsimp only
  split
  · split
    · exact hdigits
    · intro x hx
      rcases List.mem_append.1 hx with hx | hx
      · exact hdigits x hx
      · rcases List.mem_cons.1 hx with rfl | hx
        · exact hpoint
        · exact hdigits x hx
  · exact hdigits

theorem stays_digits (hc : c.isDigit) (hclosed : (endsIn .code (c :: text)).isClosed) :
    Stays more c text := by
  have hword : ¬ isWordStart c := fun h => TokenRule.not_isDigit_of_isWordStart h hc
  have hdigits : ∀ text, ofText c text = ofDigits (c :: text) := fun text => by
    rw [ofText, if_neg hword, if_pos hc]
  refine ⟨?_, closed_of_simple (fun x hx => ?_) hclosed⟩
  · rw [hdigits, hdigits, ← List.cons_append, ofDigits_append]
  · rw [hdigits] at hx
    exact simple_ofDigits _ x hx

theorem stays_delimited (d : Delimiter) (hclosed : (endsIn .code (d.char :: text)).isClosed) :
    Stays more d.char text := by
  have hd := d.char_ne_backslash
  have hdelimited : ∀ text, ofText d.char text = ofDelimited d.kind d.char text := fun text => by
    cases d <;> rfl
  have hinside : endsIn .code (d.char :: text) = endsIn (.literal d.char) text := by
    cases d <;> rfl
  have happend := splitDelimited_append d.char text
  rw [hinside] at hclosed
  rcases splitDelimited_cases d.char text with ⟨body, hbody, hs⟩ | ⟨hr, body, hbody, hs⟩
  · rw [hs, List.append_assoc] at happend
    generalize (splitDelimited d.char text).2 = rest at happend
    subst happend
    refine ⟨?_, ?_⟩
    · rw [hdelimited, hdelimited]
      unfold ofDelimited
      simp [splitDelimited_closed hbody hd]
    · rw [hdelimited]
      unfold ofDelimited
      simpa [splitDelimited_closed hbody hd, endsIn_literal hbody hd] using hclosed
  · rw [hr, List.append_nil] at happend
    rcases hs with hs | hs
    · rw [← happend, hs, endsIn_unclosed hbody] at hclosed
      cases hclosed
    · rw [← happend, hs, endsIn_dangling hbody hd] at hclosed
      cases hclosed

theorem isPrefixOf_append_lineFeed {l : List Char} (hl : '\n' ∉ l) (text more : List Char) :
    l.isPrefixOf (text ++ '\n' :: more) = l.isPrefixOf text := by
  induction l generalizing text with
  | nil => rfl
  | cons x l ih =>
    rw [List.mem_cons, not_or] at hl
    cases text with
    | nil => simp [List.isPrefixOf, Ne.symm hl.1]
    | cons y text => rw [List.cons_append, List.isPrefixOf, List.isPrefixOf, ih hl.2]

theorem atHead?_append_lineFeed (text more : List Char) :
    Mark.atHead? (text ++ '\n' :: more) = Mark.atHead? text := by
  have hnone : ∀ m : Mark, '\n' ∉ m.spelling.toList := by
    intro m
    cases m <;> decide
  unfold Mark.atHead?
  congr 1
  funext m
  exact isPrefixOf_append_lineFeed (hnone m) text more

/-- A slash that opens no comment is as good as simple. -/
theorem endsIn_slash (hcode : StartsCode ('/' :: text)) :
    endsIn .code ('/' :: text) = endsIn .code text := by
  rw [endsIn.eq_4 '/' text, if_neg (by decide)]
  · rintro tail _ rfl
    exact hcode.line tail rfl
  · rintro tail _ rfl
    exact hcode.block tail rfl

/-- Behind its first character a mark is simple. -/
theorem isSimple_of_mem_tail (m : Mark) : ∀ x ∈ m.spelling.toList.tail, isSimple x := by
  have hall : m.spelling.toList.tail.all isSimple := by cases m <;> decide
  exact List.all_eq_true.1 hall

theorem stays_mark (hword : ¬ isWordStart c) (hdigit : ¬ c.isDigit)
    (hdelimiter : ∀ d : Delimiter, c ≠ d.char) (hcode : StartsCode (c :: text)) :
    Stays more c text := by
  have hdouble : c ≠ '"' := hdelimiter .doubleQuote
  have hback : c ≠ '\x60' := hdelimiter .backtick
  have hsingle : c ≠ '\'' := hdelimiter .quote
  have hsame := atHead?_append_lineFeed (c :: text) more
  rw [List.cons_append] at hsame
  have htext : (endsIn .code text).isClosed := by
    have hclosed := hcode.closed
    by_cases hslash : c = '/'
    · subst hslash
      rwa [endsIn_slash hcode] at hclosed
    · have hsimple : isSimple c := by simp [isSimple, isDelimiter, hslash, hdouble, hback, hsingle]
      rwa [← List.singleton_append, endsIn_append_of_simple (by simpa using hsimple)] at hclosed
  cases hm : Mark.atHead? (c :: text) with
  | none =>
    have hnone : ∀ text, Mark.atHead? (c :: text) = none →
        ofText c text = plain .illegal [c] text := fun text h => by
      rw [ofText, if_neg hword, if_neg hdigit, if_neg hdouble, if_neg hback, if_neg hsingle, h]
    rw [hm] at hsame
    refine ⟨?_, ?_⟩
    · rw [hnone _ hsame, hnone _ hm]
      rfl
    · rw [hnone _ hm]
      exact htext
  | some m =>
    have hsome : ∀ text, Mark.atHead? (c :: text) = some m → ofText c text =
        plain m m.spelling.toList ((c :: text).drop m.spelling.toList.length) := fun text h => by
      rw [ofText, if_neg hword, if_neg hdigit, if_neg hdouble, if_neg hback, if_neg hsingle, h]
    have happend := Mark.append_drop_of_atHead? hm
    have htail := isSimple_of_mem_tail m
    rw [hm] at hsame
    have hlength : m.spelling.toList.length ≤ (c :: text).length := by
      rw [← happend]
      simp
    refine ⟨?_, ?_⟩
    · rw [hsome _ hsame, hsome _ hm, ← List.cons_append, List.drop_append_of_le_length hlength]
      rfl
    · rw [hsome _ hm]
      show (endsIn .code ((c :: text).drop m.spelling.toList.length)).isClosed
      generalize (c :: text).drop m.spelling.toList.length = rest at happend
      cases hl : m.spelling.toList with
      | nil => exact absurd (congrArg List.length hl) m.spelling_ne_nil.ne'
      | cons x l =>
        rw [hl] at happend htail
        rw [List.tail_cons] at htail
        obtain rfl : l ++ rest = text := (List.cons.inj happend).2
        rwa [endsIn_append_of_simple htail] at htext

theorem stays_ofText (hcode : StartsCode (c :: text)) : Stays more c text := by
  by_cases hword : isWordStart c
  · exact stays_word hword hcode.closed
  by_cases hdigit : c.isDigit
  · exact stays_digits hdigit hcode.closed
  by_cases hdelimiter : ∃ d : Delimiter, c = d.char
  · obtain ⟨d, rfl⟩ := hdelimiter
    exact stays_delimited d hcode.closed
  · exact stays_mark hword hdigit (not_exists.1 hdelimiter) hcode

end Lexeme

/-! ## All tokens -/

theorem tokensFrom_eof (p : Place) (h : splitTrivia text = (trivia, [])) :
    tokensFrom p text = [⟨.eof, "", .between (p.after trivia) (p.after trivia)⟩] := by
  rw [tokensFrom.eq_def]
  split
  · rw [h]
  next hrest => simp [h] at hrest

theorem tokensFrom_token (p : Place) (h : splitTrivia text = (trivia, c :: rest)) :
    tokensFrom p text = (Lexeme.ofText c rest).token (p.after trivia) ::
      tokensFrom ((p.after trivia).after (Lexeme.ofText c rest).text)
        (Lexeme.ofText c rest).rest := by
  rw [tokensFrom.eq_def]
  split
  next hrest => simp [h] at hrest
  next c' rest' hrest =>
    obtain ⟨rfl, rfl⟩ : c = c' ∧ rest = rest' := by simpa [h] using hrest
    rw [h]

theorem tokensFrom_ne_nil (p : Place) (text : List Char) : tokensFrom p text ≠ [] := by
  rw [tokensFrom.eq_def]
  split <;> exact List.cons_ne_nil _ _

/-- The tokens in front of a line feed stay as they are, and those behind it follow. -/
theorem tokensFrom_append (more : List Char) (p : Place) (text : List Char)
    (h : (endsIn .code text).isClosed) :
    tokensFrom p (text ++ '\n' :: more) =
      (tokensFrom p text).dropLast ++ tokensFrom (p.after (text ++ ['\n'])) more := by
  fun_induction tokensFrom p text with
  | case1 p text q hsplit =>
    obtain ⟨hmore, -⟩ := (resumes_split more).1 text h
    have happend := splitTrivia_append text
    have hall : splitTrivia text = (text, []) := by
      rw [hsplit, List.append_nil] at happend
      rw [← hsplit]
      exact Prod.ext happend rfl
    rw [hall] at hmore
    have hmore : splitTrivia (text ++ '\n' :: more) =
        (text ++ ['\n'] ++ (splitTrivia more).1, (splitTrivia more).2) := by
      rw [hmore, resumed, List.append_assoc, List.singleton_append]
    rw [List.dropLast_singleton, List.nil_append]
    obtain ⟨trivia, rest, hrest⟩ : ∃ trivia rest, splitTrivia more = (trivia, rest) := ⟨_, _, rfl⟩
    rw [hrest] at hmore
    cases rest with
    | nil => rw [tokensFrom_eof p hmore, tokensFrom_eof _ hrest, ← Place.after_append]
    | cons c rest =>
      rw [tokensFrom_token p hmore, tokensFrom_token _ hrest,
        ← Place.after_append (s := text ++ ['\n'])]
  | case2 p text q c rest hsplit x ih =>
    obtain ⟨hmore, hcode⟩ := (resumes_split more).1 text h
    have happend := splitTrivia_append text
    have hall : splitTrivia text = ((splitTrivia text).1, c :: rest) := Prod.ext rfl hsplit
    have hx := Lexeme.sound_ofText c rest
    have htext : text = (splitTrivia text).1 ++ x.text ++ x.rest := by
      rw [List.append_assoc, hx.append, ← hsplit, happend]
    rw [hsplit] at hcode
    have hstays : Lexeme.Stays more c rest := Lexeme.stays_ofText hcode
    rw [hall] at hmore
    have hmore : splitTrivia (text ++ '\n' :: more) =
        ((splitTrivia text).1, c :: (rest ++ '\n' :: more)) := hmore
    have hplace : (q.after x.text).after (x.rest ++ ['\n']) = p.after (text ++ ['\n']) := by
      rw [← Place.after_append, ← Place.after_append, ← List.append_assoc, ← List.append_assoc,
        ← htext]
    rw [tokensFrom_token p hmore, hstays.append,
      List.dropLast_cons_of_ne_nil (tokensFrom_ne_nil _ _), List.cons_append, ← hplace]
    exact congrArg _ (ih hstays.closed)

end ClassLang
