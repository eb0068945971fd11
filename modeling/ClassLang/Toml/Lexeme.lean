import ClassLang.Toml.Basic

/-!
# The smallest parts of a TOML document

Blanks and ends of lines, strings in their four forms, keys, numbers, dates and times. Each reader
takes the text from where it stands and gives what it read with the rest.
-/

namespace ClassLang.Toml

/-! ## Blanks and ends of lines -/

def isBlank (c : Char) : Bool := c == ' ' || c == '\t'

def skipBlanks (text : List Char) : List Char := text.dropWhile isBlank

/-- Whether a character may stand in a comment or a string as it is. -/
def isPlain (c : Char) : Bool := c == '\t' || (0x20 ≤ c.toNat && c.toNat != 0x7f)

/-- What is left after a line feed, with or without a carriage return. -/
def newline? : List Char → Option (List Char)
  | '\n' :: rest => some rest
  | '\x0d' :: '\n' :: rest => some rest
  | _ => none

/-- What is left after blanks and a comment. -/
def skipComment (text : List Char) : List Char :=
  match skipBlanks text with
  | '\x23' :: rest => rest.dropWhile isPlain
  | rest => rest

/-- What is left after the end of a line, before which only blanks and a comment may stand. -/
def lineEnd? (text : List Char) : Option (List Char) :=
  match skipComment text with
  | [] => some []
  | rest => newline? rest

/-- What is left after blanks, comments and ends of lines. -/
def skipLines : (fuel : Nat) → List Char → List Char
  | 0, text => text
  | fuel + 1, text =>
    match newline? (skipComment text) with
    | some rest => skipLines fuel rest
    | none => skipComment text

/-! ## Strings -/

/-- The character that a letter stands for after a backslash. -/
def escape? : Char → Option Char
  | 'b' => some '\x08'
  | 't' => some '\t'
  | 'n' => some '\n'
  | 'f' => some '\x0c'
  | 'r' => some '\x0d'
  | '"' => some '"'
  | '\\' => some '\\'
  | _ => none

def hexValue? (c : Char) : Option Nat :=
  if c.isDigit then some (c.toNat - '0'.toNat)
  else if 'a' ≤ c && c ≤ 'f' then some (c.toNat - 'a'.toNat + 10)
  else if 'A' ≤ c && c ≤ 'F' then some (c.toNat - 'A'.toNat + 10)
  else none

/-- The number that digits in a base stand for. -/
def numberIn? (base : Nat) (digits : List Char) : Option Nat :=
  digits.foldlM (fun n c => (hexValue? c).bind fun d =>
    if d < base then some (base * n + d) else none) 0

/-- The character of a code point in hexadecimal digits. -/
def codePoint? (digits : List Char) : Option Char :=
  (numberIn? 16 digits).bind fun n => if h : n.isValidChar then some (Char.ofNatAux n h) else none

/-- Reads up to the quote that ends a basic string. -/
def basicBody : List Char → Option (List Char × List Char)
  | [] => none
  | '"' :: rest => some ([], rest)
  | '\\' :: 'u' :: a :: b :: c :: d :: rest =>
    (codePoint? [a, b, c, d]).bind fun x => (basicBody rest).map fun (s, r) => (x :: s, r)
  | '\\' :: 'U' :: a :: b :: c :: d :: e :: f :: g :: h :: rest =>
    (codePoint? [a, b, c, d, e, f, g, h]).bind fun x =>
      (basicBody rest).map fun (s, r) => (x :: s, r)
  | '\\' :: x :: rest =>
    (escape? x).bind fun y => (basicBody rest).map fun (s, r) => (y :: s, r)
  | c :: rest => if isPlain c then (basicBody rest).map fun (s, r) => (c :: s, r) else none

/-- Reads up to the quote that ends a literal string. -/
def literalBody : List Char → Option (List Char × List Char)
  | [] => none
  | '\x27' :: rest => some ([], rest)
  | c :: rest => if isPlain c then (literalBody rest).map fun (s, r) => (c :: s, r) else none

/-- Reads the end of a string in triple quotes, which may be preceded by up to two quotes that
belong to the string. -/
def closeTriple? (quote : Char) (text : List Char) : Option (List Char × List Char) :=
  let count := min 5 (text.takeWhile (· == quote)).length
  if count < 3 then none else some (List.replicate (count - 3) quote, text.drop count)

/-- Reads a basic string over several lines. While `trim` is set, blanks and ends of lines are left
out, as they are after a backslash at the end of a line. -/
def basicLines : (fuel : Nat) → (trim : Bool) → List Char → Option (List Char × List Char)
  | 0, _, _ => none
  | fuel + 1, trim, text =>
    match closeTriple? '"' text with
    | some done => some done
    | none =>
      match text with
      | [] => none
      | '\\' :: 'u' :: a :: b :: c :: d :: rest =>
        (codePoint? [a, b, c, d]).bind fun x =>
          (basicLines fuel false rest).map fun (s, r) => (x :: s, r)
      | '\\' :: 'U' :: a :: b :: c :: d :: e :: f :: g :: h :: rest =>
        (codePoint? [a, b, c, d, e, f, g, h]).bind fun x =>
          (basicLines fuel false rest).map fun (s, r) => (x :: s, r)
      | '\\' :: x :: rest =>
        match escape? x with
        | some y => (basicLines fuel false rest).map fun (s, r) => (y :: s, r)
        | none => (newline? (skipBlanks (x :: rest))).bind (basicLines fuel true)
      | c :: rest =>
        match newline? (c :: rest) with
        | some after =>
          (basicLines fuel trim after).map fun (s, r) => (if trim then s else '\n' :: s, r)
        | none =>
          if trim && isBlank c then basicLines fuel true rest
          else if isPlain c then (basicLines fuel false rest).map fun (s, r) => (c :: s, r)
          else none

/-- Reads a literal string over several lines. -/
def literalLines : (fuel : Nat) → List Char → Option (List Char × List Char)
  | 0, _ => none
  | fuel + 1, text =>
    match closeTriple? '\x27' text with
    | some done => some done
    | none =>
      match newline? text, text with
      | some after, _ => (literalLines fuel after).map fun (s, r) => ('\n' :: s, r)
      | none, c :: rest =>
        if isPlain c then (literalLines fuel rest).map fun (s, r) => (c :: s, r) else none
      | none, [] => none

/-- What is left after an end of line, if one stands first. -/
def dropNewline (text : List Char) : List Char := (newline? text).getD text

/-- Reads a string on one line, as a key or a value. -/
def quoted? : List Char → Option (String × List Char)
  | '"' :: rest => (basicBody rest).map fun (s, r) => (.ofList s, r)
  | '\x27' :: rest => (literalBody rest).map fun (s, r) => (.ofList s, r)
  | _ => none

/-! ## Keys -/

def isBare (c : Char) : Bool := c.isAlphanum || c == '_' || c == '-'

/-- Reads one part of a key. -/
def keyPart? (text : List Char) : Option (String × List Char) :=
  match quoted? text with
  | some part => some part
  | none =>
    let word := text.takeWhile isBare
    if word.isEmpty then none else some (.ofList word, text.dropWhile isBare)

/-- Reads a key of at most `count` parts with dots between them. -/
def keyUpTo? : (count : Nat) → List Char → Option (List String × List Char)
  | 0, _ => none
  | count + 1, text =>
    (keyPart? (skipBlanks text)).bind fun (part, rest) =>
      match skipBlanks rest with
      | '.' :: more => (keyUpTo? count more).map fun (parts, r) => (part :: parts, r)
      | rest => some ([part], rest)

/-- How many parts a key may have, and how deep arrays and inline tables may be nested. -/
def maxDepth : Nat := 79

/-- Reads a key. -/
def key? (text : List Char) : Option (List String × List Char) := keyUpTo? maxDepth text

/-! ## Numbers and words -/

/-- The digits of a group with single underscores between digits. -/
def ungroup? (isDigit : Char → Bool) : List Char → Option (List Char)
  | [] => none
  | [c] => if isDigit c then some [c] else none
  | c :: '_' :: rest => if isDigit c then (ungroup? isDigit rest).map (c :: ·) else none
  | c :: rest => if isDigit c then (ungroup? isDigit rest).map (c :: ·) else none

/-- The digits of a decimal number, which does not start with a zero unless it is one. -/
def decimal? (text : List Char) : Option (List Char) :=
  (ungroup? Char.isDigit text).bind fun ds =>
    if ds.length > 1 && ds.head? == some '0' then none else some ds

def inRange (n : Int) : Option Value :=
  if -(Nat.pow 2 63 : Int) ≤ n && n < Nat.pow 2 63 then some (.integer n) else none

/-- A number in another base. -/
def based? (base : Nat) (digits : List Char) : Option Value :=
  (ungroup? (fun c => (hexValue? c).isSome) digits).bind fun ds =>
    (numberIn? base ds).bind fun n => inRange n

/-- The part of a number after the sign and the integer digits: fraction and exponent. -/
def fraction? (text : List Char) : Option (List Char × List Char) :=
  match text with
  | '.' :: rest =>
    let digits := rest.takeWhile fun c => c.isDigit || c == '_'
    (ungroup? Char.isDigit digits).map fun ds => (ds, rest.dropWhile fun c => c.isDigit || c == '_')
  | rest => some ([], rest)

/-- The value of an exponent; nothing stands for zero. -/
def exponent? (text : List Char) : Option Int :=
  match text with
  | [] => some 0
  | e :: rest =>
    if e == 'e' || e == 'E' then
      match rest with
      | '-' :: ds => (ungroup? Char.isDigit ds).map fun ds => -(Binary64.digitsValue 0 ds : Int)
      | '+' :: ds => (ungroup? Char.isDigit ds).map fun ds => (Binary64.digitsValue 0 ds : Int)
      | ds => (ungroup? Char.isDigit ds).map fun ds => (Binary64.digitsValue 0 ds : Int)
    else none

/-- A decimal number without its sign. A positive number too large for a double is refused. -/
def magnitude? (negative : Bool) (text : List Char) : Option Value :=
  let signed (x : Binary64) : Value := .float (if negative then x.neg else x)
  match text with
  | ['i', 'n', 'f'] => some (signed .infinity)
  | ['n', 'a', 'n'] => some (signed .nan)
  | _ =>
    let whole := text.takeWhile fun c => c.isDigit || c == '_'
    let rest := text.dropWhile fun c => c.isDigit || c == '_'
    (decimal? whole).bind fun ds =>
      let n := Binary64.digitsValue 0 ds
      if rest.isEmpty then inRange (if negative then -(n : Int) else n)
      else (fraction? rest).bind fun (fs, rest) => (exponent? rest).bind fun e =>
        let x := Binary64.ofDecimal (Binary64.digitsValue n fs) (e - fs.length)
        if x.isInfinite && !negative then none else some (signed x)

/-- The value of a word: a boolean or a number. -/
def word? (text : List Char) : Option Value :=
  match text with
  | ['t', 'r', 'u', 'e'] => some (.boolean true)
  | ['f', 'a', 'l', 's', 'e'] => some (.boolean false)
  | '0' :: 'x' :: digits => based? 16 digits
  | '0' :: 'o' :: digits => based? 8 digits
  | '0' :: 'b' :: digits => based? 2 digits
  | '+' :: rest => magnitude? false rest
  | '-' :: rest => magnitude? true rest
  | rest => magnitude? false rest

def isWordChar (c : Char) : Bool := isBare c || c == '+' || c == '.'

/-! ## Dates and times -/

/-- What is left after a character. -/
def after? (c : Char) : List Char → Option (List Char)
  | d :: rest => if c == d then some rest else none
  | [] => none

/-- Reads a number of exactly `count` digits that lies between two bounds. -/
def digits? (count low high : Nat) (text : List Char) : Option (Nat × List Char) :=
  let ds := text.take count
  let n := Binary64.digitsValue 0 ds
  if ds.length = count && ds.all Char.isDigit && low ≤ n && n ≤ high then some (n, text.drop count)
  else none

def isLeapYear (year : Nat) : Bool := year % 4 = 0 && (year % 100 != 0 || year % 400 = 0)

def daysIn (year month : Nat) : Nat :=
  if month = 2 then if isLeapYear year then 29 else 28
  else if [4, 6, 9, 11].contains month then 30
  else 31

/-- What is left after a date. -/
def date? (text : List Char) : Option (List Char) := do
  let (year, text) ← digits? 4 0 9999 text
  let (month, text) ← digits? 2 1 12 (← after? '-' text)
  let (_, text) ← digits? 2 1 (daysIn year month) (← after? '-' text)
  return text

/-- What is left after a time of day. -/
def time? (text : List Char) : Option (List Char) := do
  let (_, text) ← digits? 2 0 23 text
  let (_, text) ← digits? 2 0 59 (← after? ':' text)
  let (_, text) ← digits? 2 0 60 (← after? ':' text)
  match text with
  | '.' :: d :: rest => return if d.isDigit then rest.dropWhile Char.isDigit else text
  | _ => return text

/-- What is left after the distance from universal time. -/
def offset? : List Char → Option (List Char)
  | 'Z' :: rest | 'z' :: rest => some rest
  | '+' :: rest | '-' :: rest => do
    let (_, rest) ← digits? 2 0 23 rest
    let (_, rest) ← digits? 2 0 59 (← after? ':' rest)
    return rest
  | _ => none

/-- What is left after the time of day that may follow a date. -/
def skipTime (text : List Char) : List Char :=
  match text with
  | c :: rest =>
    if c == 'T' || c == 't' || c == ' ' then
      match time? rest with
      | some rest => (offset? rest).getD rest
      | none => text
    else text
  | [] => []

/-- Reads a date, a time of day, or both. -/
def dateTime? (text : List Char) : Option (Value × List Char) :=
  ((date? text).map skipTime <|> time? text).map fun rest =>
    (.dateTime (.ofList (text.take (text.length - rest.length))), rest)

end ClassLang.Toml
