/-!
# Places in a source text

A `Place` is a point of the text: its byte offset in the UTF-8 encoding, its line and its column.
Lines and columns count from one, a column counts characters, and only a line feed ends a line. They
have no greatest number here; what a reader with counters of 32 bits says is in
`Proofs/Tokens/Places`.
A `Span` is the stretch from one point to a later byte offset, labelled by the line and column of
its first character.
-/

namespace ClassLang

/-- A point of a source text. -/
structure Place where
  offset : Nat
  line : Nat
  column : Nat
deriving DecidableEq, Repr, Inhabited

namespace Place

/-- The point before the first character. -/
def start : Place := ⟨0, 1, 1⟩

/-- The point after one more character. -/
def next (p : Place) (c : Char) : Place :=
  if c = '\n' then ⟨p.offset + c.utf8Size, p.line + 1, 1⟩
  else ⟨p.offset + c.utf8Size, p.line, p.column + 1⟩

/-- The point after a stretch of text. -/
def after (p : Place) (text : List Char) : Place := text.foldl next p

@[simp] theorem after_nil (p : Place) : p.after [] = p := rfl

@[simp] theorem after_cons (p : Place) (c : Char) (text : List Char) :
    p.after (c :: text) = (p.next c).after text := rfl

theorem after_append (p : Place) (s t : List Char) : p.after (s ++ t) = (p.after s).after t :=
  List.foldl_append

end Place

/-- A stretch of a source text. The default span is the one of nodes that no text stands behind:
it has line zero. -/
structure Span where
  start : Nat := 0
  stop : Nat := 0
  line : Nat := 0
  column : Nat := 0
deriving DecidableEq, Repr, Inhabited

namespace Span

/-- The span between two points. -/
def between (p q : Place) : Span := ⟨p.offset, q.offset, p.line, p.column⟩

/-- Number of bytes covered. -/
def size (s : Span) : Nat := s.stop - s.start

/-- From the start of `s` to the end of `t`, never shorter than `s`. -/
def upTo (s t : Span) : Span := { s with stop := max t.stop s.stop }

/-- What is left of a text after its first bytes; a character cut in two counts as taken. -/
def dropBytes : Nat → List Char → List Char
  | 0, text => text
  | _, [] => []
  | n + 1, c :: text => dropBytes (n + 1 - c.utf8Size) text

/-- The characters that start within the first bytes of a text. -/
def takeBytes : Nat → List Char → List Char
  | 0, _ => []
  | _, [] => []
  | n + 1, c :: text => c :: takeBytes (n + 1 - c.utf8Size) text

/-- The text that a span covers in its source. -/
def slice (s : Span) (source : String) : String :=
  .ofList (takeBytes s.size (dropBytes s.start source.toList))

/-- How messages name a position. -/
def position (s : Span) : String := s!"line {s.line}, col {s.column}"

@[simp] theorem upTo_start (s t : Span) : (s.upTo t).start = s.start := rfl
@[simp] theorem upTo_line (s t : Span) : (s.upTo t).line = s.line := rfl
@[simp] theorem upTo_column (s t : Span) : (s.upTo t).column = s.column := rfl
@[simp] theorem upTo_stop (s t : Span) : (s.upTo t).stop = max t.stop s.stop := rfl

end Span

end ClassLang
