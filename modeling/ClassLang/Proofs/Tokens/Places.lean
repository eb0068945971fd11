import ClassLang.Proofs.Tokens.Segmentation
import Mathlib.Data.List.Induction

/-!
# Where tokens stand

`TokenReader` reads a source token by token and keeps the place it has reached, which it moves over
what is skipped and then over the token. At every step that place is the end of the text read so far
(`Follows`), so line and column of a token can be counted in the text in front of it: line feeds for
the line, characters behind the last of them for the column.

The reader counts lines and columns in 32 bits (`CountedPlace`), so what it says is the true number
up to multiples of `2 ^ 32`. Only a source with as many line feeds as that, or a line as long, could
tell the difference; the shortest ones have `2 ^ 32 - 1` characters (`wrapped_lineFeeds`), since the
numbers start from one.
-/

namespace ClassLang

open String (utf8Len)

/-! ## Lines and columns of a text -/

/-- The line on which a text ends. -/
def lineOf (text : List Char) : Nat := 1 + text.count '\n'

/-- The column at which a text ends. -/
def columnOf (text : List Char) : Nat := 1 + (text.reverse.takeWhile (· != '\n')).length

/-- The place behind a text tells its bytes, its lines and the characters on its last line. -/
theorem Place.after_start (text : List Char) :
    Place.start.after text = ⟨utf8Len text, lineOf text, columnOf text⟩ := by
  induction text using List.reverseRecOn with
  | nil => rfl
  | append_singleton text c ih =>
    rw [Place.after_append, ih, Place.after_cons, Place.after_nil, Place.next]
    split
    next hc => simp [hc, lineOf, columnOf, Nat.add_assoc]
    next hc => simp [hc, lineOf, columnOf, Nat.add_assoc]

theorem lineOf_le (text : List Char) : lineOf text ≤ text.length + 1 := by
  have hcount := List.count_le_length (a := '\n') (l := text)
  unfold lineOf
  omega

theorem columnOf_le (text : List Char) : columnOf text ≤ text.length + 1 := by
  have hlength := (List.takeWhile_sublist (· != '\n') (l := text.reverse)).length_le
  rw [List.length_reverse] at hlength
  unfold columnOf
  omega

theorem lineOf_le_of_mem {text : List Char} {c : Char} (hmem : c ∈ text) (hc : c ≠ '\n') :
    lineOf text ≤ text.length := by
  have hcount : text.count '\n' < text.length :=
    lt_of_le_of_ne List.count_le_length fun heq => hc (List.count_eq_length.1 heq c hmem).symm
  unfold lineOf
  omega

theorem columnOf_le_of_mem {text : List Char} (hmem : '\n' ∈ text) :
    columnOf text ≤ text.length := by
  have hshort : (text.reverse.takeWhile (· != '\n')).length < text.reverse.length := by
    refine lt_of_le_of_ne (List.takeWhile_sublist _).length_le fun heq => ?_
    have hall := List.takeWhile_eq_self_iff.1 ((List.takeWhile_prefix _).eq_of_length heq)
    exact absurd (hall '\n' (List.mem_reverse.2 hmem)) (by simp)
  rw [List.length_reverse] at hshort
  unfold columnOf
  omega

/-! ## Counting in 32 bits -/

/-- A place whose line and column are kept in 32 bits: after the last number comes zero. -/
structure CountedPlace where
  offset : Nat
  line : UInt32
  column : UInt32
deriving DecidableEq, Repr

namespace CountedPlace

/-- The place in front of the first character. -/
def start : CountedPlace := ⟨0, 1, 1⟩

/-- The place after one more character. -/
def next (p : CountedPlace) (c : Char) : CountedPlace :=
  if c = '\n' then ⟨p.offset + c.utf8Size, p.line + 1, 1⟩
  else ⟨p.offset + c.utf8Size, p.line, p.column + 1⟩

/-- The place after a stretch of text. -/
def after (p : CountedPlace) (text : List Char) : CountedPlace := text.foldl next p

/-- The place that is read off the counters. -/
def place (p : CountedPlace) : Place := ⟨p.offset, p.line.toNat, p.column.toNat⟩

@[simp] theorem after_nil (p : CountedPlace) : p.after [] = p := rfl

@[simp] theorem after_cons (p : CountedPlace) (c : Char) (text : List Char) :
    p.after (c :: text) = (p.next c).after text := rfl

theorem after_append (p : CountedPlace) (s t : List Char) :
    p.after (s ++ t) = (p.after s).after t :=
  List.foldl_append

/-- Both counters are right up to multiples of `2 ^ 32`. -/
theorem place_after_start (text : List Char) :
    (start.after text).place = ⟨utf8Len text, lineOf text % 2 ^ 32, columnOf text % 2 ^ 32⟩ := by
  induction text using List.reverseRecOn with
  | nil => rfl
  | append_singleton text c ih =>
    obtain ⟨hoffset, hline, hcolumn⟩ := Place.mk.inj ih
    rw [after_append, after_cons, after_nil, next]
    split
    next hc => simp [place, hc, hoffset, hline, lineOf, columnOf, Nat.add_assoc]
    next hc => simp [place, hc, hoffset, hline, hcolumn, lineOf, columnOf, Nat.add_assoc]

/-- Within a text that is shorter than `2 ^ 32` characters, and mixed if it is as long as that
allows, the counters are exact. -/
theorem place_after_eq {text before rest : List Char} (happend : text = before ++ rest)
    (hlength : text.length < 2 ^ 32)
    (hmixed : text.length = 2 ^ 32 - 1 → '\n' ∈ text ∧ ∃ c ∈ text, c ≠ '\n') :
    (start.after before).place = Place.start.after before := by
  have hcounts : lineOf before < 2 ^ 32 ∧ columnOf before < 2 ^ 32 := by
    have hsplit : text.length = before.length + rest.length := by
      rw [happend, List.length_append]
    have hline := lineOf_le before
    have hcolumn := columnOf_le before
    by_cases hlong : before.length = 2 ^ 32 - 1
    · have hrest : rest = [] := List.length_eq_zero_iff.1 (by omega)
      rw [hrest, List.append_nil] at happend
      obtain ⟨hfeed, c, hmem, hc⟩ := hmixed (by omega)
      rw [happend] at hfeed hmem
      have hline := lineOf_le_of_mem hmem hc
      have hcolumn := columnOf_le_of_mem hfeed
      omega
    · omega
  rw [place_after_start, Place.after_start, Nat.mod_eq_of_lt hcounts.1, Nat.mod_eq_of_lt hcounts.2]

end CountedPlace

/-! ## Reading token by token -/

/-- A reader of tokens: the place it has reached, and the text that it has left. -/
structure TokenReader where
  place : CountedPlace
  text : List Char

namespace TokenReader

def ofSource (source : String) : TokenReader := ⟨.start, source.toList⟩

/-- The next token, and the reader behind it. At the end of the text that is the end marker, however
often it is asked for. -/
def next (r : TokenReader) : Token × TokenReader :=
  let q := r.place.after (splitTrivia r.text).1
  match (splitTrivia r.text).2 with
  | [] => (⟨.eof, "", .between q.place q.place⟩, ⟨q, []⟩)
  | c :: rest =>
    let x := Lexeme.ofText c rest
    (x.token q.place, ⟨q.after x.text, x.rest⟩)

/-- The token that a reader gives when some have been read before it. -/
def token (r : TokenReader) : (before : Nat) → Token
  | 0 => r.next.1
  | n + 1 => r.next.2.token n

/-- The end marker of a text that starts at a place. -/
def marker (p : Place) (text : List Char) : Token :=
  ⟨.eof, "", .between (p.after text) (p.after text)⟩

variable {r : TokenReader} {c : Char} {rest : List Char}

theorem next_of_nil (h : (splitTrivia r.text).2 = []) :
    r.next = (⟨.eof, "", .between (r.place.after r.text).place (r.place.after r.text).place⟩,
      ⟨r.place.after r.text, []⟩) := by
  have happend := splitTrivia_append r.text
  rw [h, List.append_nil] at happend
  rw [next, h, happend]

theorem next_of_cons (h : (splitTrivia r.text).2 = c :: rest) :
    r.next = ((Lexeme.ofText c rest).token (r.place.after (splitTrivia r.text).1).place,
      ⟨(r.place.after (splitTrivia r.text).1).after (Lexeme.ofText c rest).text,
        (Lexeme.ofText c rest).rest⟩) := by
  rw [next, h]

/-- A reader has read the front of a source and stands behind it. -/
structure Follows (r : TokenReader) (source : String) (front : List Char) : Prop where
  append : source.toList = front ++ r.text
  place : r.place = CountedPlace.start.after front

variable {source : String} {front : List Char}

theorem follows_ofSource (source : String) : (ofSource source).Follows source [] := ⟨rfl, rfl⟩

theorem Follows.step_nil (h : r.Follows source front) (hsplit : (splitTrivia r.text).2 = []) :
    r.next.2.Follows source (front ++ r.text) := by
  rw [next_of_nil hsplit, h.place, ← CountedPlace.after_append]
  exact ⟨by rw [h.append, List.append_nil], rfl⟩

theorem Follows.step_cons (h : r.Follows source front)
    (hsplit : (splitTrivia r.text).2 = c :: rest) :
    r.next.2.Follows source
      (front ++ (splitTrivia r.text).1 ++ (Lexeme.ofText c rest).text) := by
  have happend := splitTrivia_append r.text
  rw [hsplit, ← (Lexeme.sound_ofText c rest).append] at happend
  rw [next_of_cons hsplit, h.place, ← CountedPlace.after_append,
    ← CountedPlace.after_append]
  refine ⟨?_, rfl⟩
  conv => lhs; rw [h.append, ← happend]
  rw [List.append_assoc, List.append_assoc]

/-- One step goes over what is skipped and over the token, which stands between. -/
theorem Follows.next (h : r.Follows source front) : ∃ skipped covered,
    r.next.2.Follows source (front ++ skipped ++ covered) ∧
      ∃ stop, r.next.1.span =
        .between (CountedPlace.start.after (front ++ skipped)).place stop := by
  cases hsplit : (splitTrivia r.text).2 with
  | nil =>
    refine ⟨r.text, [], ?_, ?_⟩
    · rw [List.append_nil]
      exact h.step_nil hsplit
    · rw [next_of_nil hsplit, h.place, ← CountedPlace.after_append]
      exact ⟨_, rfl⟩
  | cons c rest =>
    refine ⟨_, _, h.step_cons hsplit, ?_⟩
    rw [next_of_cons hsplit, h.place, ← CountedPlace.after_append]
    exact ⟨_, rfl⟩

/-- Every token stands behind a front of the source. -/
theorem Follows.token (h : r.Follows source front) (n : Nat) : ∃ before rest stop,
    source.toList = before ++ rest ∧
      (r.token n).span = .between (CountedPlace.start.after before).place stop := by
  induction n generalizing r front with
  | zero =>
    obtain ⟨skipped, covered, hnext, stop, hspan⟩ := h.next
    refine ⟨front ++ skipped, covered ++ r.next.2.text, stop, ?_, hspan⟩
    rw [hnext.append, List.append_assoc]
  | succ n ih =>
    obtain ⟨skipped, covered, hnext, -⟩ := h.next
    exact ih hnext

section

variable (hlength : source.toList.length < 2 ^ 32)
  (hmixed : source.toList.length = 2 ^ 32 - 1 →
    '\n' ∈ source.toList ∧ ∃ c ∈ source.toList, c ≠ '\n')
include hlength hmixed

theorem Follows.place_after (h : r.Follows source front) {read left : List Char}
    (htext : r.text = read ++ left) :
    (r.place.after read).place = (Place.start.after front).after read := by
  have happend : source.toList = front ++ read ++ left := by
    rw [h.append, htext, List.append_assoc]
  rw [h.place, ← CountedPlace.after_append, CountedPlace.place_after_eq happend hlength hmixed,
    Place.after_append]

/-- At the end of the text the marker comes again and again. -/
theorem Follows.token_of_nil (h : r.Follows source front) (htext : r.text = []) (n : Nat) :
    r.token n = marker (Place.start.after front) [] := by
  have hplace := h.place_after hlength hmixed (htext.trans (List.append_nil []).symm)
  obtain ⟨p, text⟩ := r
  subst htext
  induction n with
  | zero => rw [marker, ← hplace]; rfl
  | succ n ih => exact ih

/-- Token by token a reader gives what the scan gives at once, and then the end marker. -/
theorem Follows.token_eq (h : r.Follows source front) (n : Nat) :
    r.token n = (tokensFrom (Place.start.after front) r.text)[n]?.getD
      (marker (Place.start.after front) r.text) := by
  generalize hp : Place.start.after front = p
  generalize htext : r.text = text
  fun_induction tokensFrom p text generalizing r front n with
  | case1 p text q =>
    rename_i hsplit
    subst hp htext
    have happend := splitTrivia_append r.text
    rw [hsplit, List.append_nil] at happend
    have hplace := h.place_after hlength hmixed (List.append_nil r.text).symm
    cases n with
    | zero =>
      rw [TokenReader.token, next_of_nil hsplit, hplace, List.getElem?_cons_zero,
        Option.getD_some, ← happend]
    | succ n =>
      have hnil : r.next.2.text = [] := by rw [next_of_nil hsplit]
      rw [TokenReader.token, (h.step_nil hsplit).token_of_nil hlength hmixed hnil, marker,
        Place.after_append]
      rfl
  | case2 p text q c rest hsplit =>
    rename_i x ih
    subst hp htext
    have happend := splitTrivia_append r.text
    have hx := (Lexeme.sound_ofText c rest).append
    rw [hsplit, ← hx] at happend
    have hplace := h.place_after hlength hmixed happend.symm
    cases n with
    | zero =>
      rw [TokenReader.token, next_of_cons hsplit, hplace, List.getElem?_cons_zero, Option.getD_some]
    | succ n =>
      have htext : r.next.2.text = x.rest := by rw [next_of_cons hsplit]
      have hmarker : marker (q.after x.text) x.rest = marker (Place.start.after front) r.text := by
        rw [marker, ← Place.after_append, hx, ← hsplit, ← Place.after_append, splitTrivia_append]
        rfl
      rw [TokenReader.token, List.getElem?_cons_succ, ← hmarker]
      exact ih (h.step_cons hsplit) n (by rw [Place.after_append, Place.after_append]) htext

end

end TokenReader

/-! ## Positions are exact -/

/-- A token stands at the line and the column at which the text in front of it ends. Neither is ever
more than one above the number of characters. -/
structure Token.Positioned (t : Token) (source : String) : Prop where
  boundary : utf8Len (textBetween source 0 t.span.start) = t.span.start
  line : t.span.line = lineOf (textBetween source 0 t.span.start)
  column : t.span.column = columnOf (textBetween source 0 t.span.start)
  line_le : t.span.line ≤ source.length + 1
  column_le : t.span.column ≤ source.length + 1

/-- The tokens of a source, read one by one and on behind the end, all carry their exact position.
The source is shorter than `2 ^ 32` characters, and if it has one character less than that, it is
neither all line feeds nor without any. -/
theorem positioned_token (source : String) (hlength : source.length < 2 ^ 32)
    (hmixed : source.length = 2 ^ 32 - 1 →
      '\n' ∈ source.toList ∧ ∃ c ∈ source.toList, c ≠ '\n') (n : Nat) :
    (TokenReader.ofSource source).token n =
        (tokenize source)[n]?.getD (TokenReader.marker .start source.toList) ∧
      ((TokenReader.ofSource source).token n).Positioned source := by
  rw [← String.length_toList] at hlength hmixed
  have hfollows := TokenReader.follows_ofSource source
  refine ⟨hfollows.token_eq hlength hmixed n, ?_⟩
  obtain ⟨before, rest, stop, hsource, hspan⟩ := hfollows.token n
  have hle : before.length ≤ source.length := by
    rw [← String.length_toList, hsource, List.length_append]
    exact Nat.le_add_right ..
  have hstart : ((TokenReader.ofSource source).token n).span =
      ⟨utf8Len before, stop.offset, lineOf before, columnOf before⟩ := by
    rw [hspan, CountedPlace.place_after_eq hsource hlength hmixed, Place.after_start]
    rfl
  have hfront : source.toList = [] ++ (before ++ rest) := hsource
  have hbefore : textBetween source 0 (utf8Len before) = before := textBetween_eq hfront
  refine ⟨?_, ?_, ?_, ?_, ?_⟩
  · rw [hstart, hbefore]
  · rw [hstart, hbefore]
  · rw [hstart, hbefore]
  · rw [hstart]
    exact (lineOf_le before).trans (Nat.succ_le_succ hle)
  · rw [hstart]
    exact (columnOf_le before).trans (Nat.succ_le_succ hle)

theorem positioned_secondLine :
    ((TokenReader.ofSource "x\n  y").token 1).span = ⟨4, 5, 2, 3⟩ ∧
      ((TokenReader.ofSource "x\n  y").token 1).Positioned "x\n  y" :=
  ⟨by decide, (positioned_token "x\n  y" (by decide) (by decide) 1).2⟩

/-! ## The shortest source that is not counted -/

/-- A source of line feeds only. -/
def lineFeeds (n : Nat) : String := .ofList (List.replicate n '\n')

/-- The end marker of a source of line feeds has the line behind them, as far as 32 bits tell it. -/
theorem token_lineFeeds (n : Nat) :
    ((TokenReader.ofSource (lineFeeds n)).token 0).span.line = (n + 1) % 2 ^ 32 := by
  have hskip : (splitTrivia (List.replicate n '\n')).2 = [] := by
    have hblank : ∀ c ∈ List.replicate n '\n', isBlank c := by
      intro c hc
      rw [List.eq_of_mem_replicate hc]
      rfl
    rw [← List.append_nil (List.replicate n _), splitTrivia_blanks hblank, splitTrivia]
  have hnext := TokenReader.next_of_nil (r := TokenReader.ofSource (lineFeeds n)) (by
    rw [TokenReader.ofSource, lineFeeds, String.toList_ofList]
    exact hskip)
  rw [TokenReader.token, hnext, TokenReader.ofSource, lineFeeds, String.toList_ofList]
  show (CountedPlace.start.after _).place.line = _
  rw [CountedPlace.place_after_start, lineOf, List.count_replicate_self, Nat.add_comm]

/-- Line zero is the line of no text. -/
theorem not_positioned_lineFeeds {n : Nat} (hn : (n + 1) % 2 ^ 32 = 0) :
    ¬ ((TokenReader.ofSource (lineFeeds n)).token 0).Positioned (lineFeeds n) := by
  intro h
  have hline := h.line
  rw [token_lineFeeds, hn, lineOf] at hline
  omega

theorem length_lineFeeds (n : Nat) : (lineFeeds n).length = n := by
  rw [lineFeeds, String.length_ofList, List.length_replicate]

/-- With `2 ^ 32 - 1` line feeds the line of the end marker is zero. -/
theorem wrapped_lineFeeds :
    (lineFeeds (2 ^ 32 - 1)).length < 2 ^ 32 ∧
      ((TokenReader.ofSource (lineFeeds (2 ^ 32 - 1))).token 0).span.line = 0 ∧
      ¬ ((TokenReader.ofSource (lineFeeds (2 ^ 32 - 1))).token 0).Positioned
        (lineFeeds (2 ^ 32 - 1)) :=
  ⟨(length_lineFeeds _).trans_lt (by decide), token_lineFeeds _,
    not_positioned_lineFeeds (by decide)⟩

end ClassLang
