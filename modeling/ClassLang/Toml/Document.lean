import ClassLang.Toml.Lexeme

/-!
# TOML documents

A document is a sequence of lines: pairs of a key and a value, headers that say which table the
pairs after them belong to, comments and blank lines.
-/

namespace ClassLang.Toml

/-! ## Values -/

mutual

/-- Reads a value in which arrays and inline tables are nested at most `depth` deep. -/
def value? : (fuel depth : Nat) → List Char → Option (Value × List Char)
  | 0, _, _ => none
  | fuel + 1, depth, text =>
    match text with
    | '"' :: '"' :: '"' :: rest =>
      (basicLines (rest.length + 1) false (dropNewline rest)).map fun (s, r) =>
        (.string (.ofList s), r)
    | '\x27' :: '\x27' :: '\x27' :: rest =>
      (literalLines (rest.length + 1) (dropNewline rest)).map fun (s, r) => (.string (.ofList s), r)
    | '[' :: rest =>
      if depth = 0 then none else (items? fuel (depth - 1) rest).map fun (vs, r) => (.array vs, r)
    | '\x7b' :: rest =>
      if depth = 0 then none
      else match skipBlanks rest with
        | '\x7d' :: rest => some (.table .inlined [], rest)
        | rest => (pairs? fuel (depth - 1) [] rest).map fun (es, r) => (.table .inlined es, r)
    | _ =>
      match quoted? text, dateTime? text with
      | some (s, rest), _ => some (.string s, rest)
      | none, some moment => some moment
      | none, none =>
        (word? (text.takeWhile isWordChar)).map fun v => (v, text.dropWhile isWordChar)

/-- Reads the items of an array up to its end. -/
def items? : (fuel depth : Nat) → List Char → Option (List Value × List Char)
  | 0, _, _ => none
  | fuel + 1, depth, text =>
    match skipLines text.length text with
    | ']' :: rest => some ([], rest)
    | text =>
      (value? fuel depth text).bind fun (v, rest) =>
        match skipLines rest.length rest with
        | ',' :: rest => (items? fuel depth rest).map fun (vs, r) => (v :: vs, r)
        | ']' :: rest => some ([v], rest)
        | _ => none

/-- Reads the pairs of an inline table up to its end. -/
def pairs? : (fuel depth : Nat) → Entries → List Char → Option (Entries × List Char)
  | 0, _, _, _ => none
  | fuel + 1, depth, es, text =>
    (pair? fuel depth text).bind fun (path, v, rest) =>
      (assign path v es).bind fun es =>
        match skipBlanks rest with
        | ',' :: rest => pairs? fuel depth es rest
        | '\x7d' :: rest => some (es, rest)
        | _ => none

/-- Reads a key, an equals sign and a value. -/
def pair? : (fuel depth : Nat) → List Char → Option (List String × Value × List Char)
  | 0, _, _ => none
  | fuel + 1, depth, text =>
    (key? text).bind fun (path, rest) =>
      match rest with
      | '=' :: rest => (value? fuel depth (skipBlanks rest)).map fun (v, rest) => (path, v, rest)
      | _ => none

end

/-! ## Lines -/

/-- Reads a header after its first bracket: its path, what it opens, and the rest. -/
def header? (text : List Char) :
    Option (List String × (Entries → Option Entries) × List Char) :=
  match text with
  | '[' :: text =>
    (key? text).bind fun (path, rest) =>
      match rest with
      | ']' :: ']' :: rest => some (path, openItem path, rest)
      | _ => none
  | text =>
    (key? text).bind fun (path, rest) =>
      match rest with
      | ']' :: rest => some (path, openTable path, rest)
      | _ => none

/-- Reads lines into the table that `at_` leads to. -/
def lines? : (fuel : Nat) → (at_ : List String) → Entries → List Char → Option Entries
  | 0, _, _, _ => none
  | fuel + 1, at_, es, text =>
    match lineEnd? text with
    | some [] => some es
    | some rest => lines? fuel at_ es rest
    | none =>
      match skipBlanks text with
      | '[' :: text =>
        (header? text).bind fun (path, enter, rest) =>
          (enter es).bind fun es =>
            (lineEnd? rest).bind (lines? fuel path es)
      | text =>
        (pair? (2 * text.length + 2) maxDepth text).bind fun (path, v, rest) =>
          (within at_ (assign path v) es).bind fun es =>
            (lineEnd? rest).bind (lines? fuel at_ es)

/-- What is left after a byte order mark, if one stands first. -/
def dropMark : List Char → List Char
  | '\ufeff' :: text => text
  | text => text

/-- The table that a document holds. -/
def parse? (text : String) : Option Entries :=
  let chars := dropMark text.toList
  lines? (chars.length + 1) [] [] chars

end ClassLang.Toml
