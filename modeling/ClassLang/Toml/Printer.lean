import ClassLang.Toml.Lexeme

/-!
# TOML strings as text

A string is written in a form that needs no escapes, if there is one.
-/

namespace ClassLang.Toml

/-- The longest run of a quote in a text. -/
def longestRun (quote : Char) (text : List Char) : Nat :=
  (text.foldl (fun (best, run) c =>
    let run := if c == quote then run + 1 else 0
    (max best run, run)) (0, 0)).1

/-- A character of a basic string other than the quote. -/
def escaped (c : Char) : List Char :=
  match c with
  | '\x08' => ['\\', 'b']
  | '\t' => ['\\', 't']
  | '\x0c' => ['\\', 'f']
  | '\x0d' => ['\\', 'r']
  | '\\' => ['\\', '\\']
  | c => if isPlain c || c == '\n' then [c] else '\\' :: 'u' :: Binary64.hexDigits 4 c.toNat

/-- The body of a basic string. A quote is escaped when `allowed` of them stand before it. -/
def basicText (allowed : Nat) : (run : Nat) → List Char → List Char
  | _, [] => []
  | run, c :: rest =>
    if c == '"' then
      if run < allowed then c :: basicText allowed (run + 1) rest
      else '\\' :: c :: basicText allowed 0 rest
    else escaped c ++ basicText allowed 0 rest

/-- A string as a value, in the first of its forms that needs no escapes: basic, literal, basic over
several lines, literal over several lines. Where each needs one, it is a basic string with
escapes. -/
def stringText (s : String) : String :=
  let text := s.toList
  let lines := text.contains '\n'
  let backslash := text.contains '\\'
  let printable := text.all fun c => isPlain c || c == '\n'
  let start := if lines then "\n" else ""
  let basic := "\"" ++ .ofList (basicText 0 0 text) ++ "\""
  let literal := "\x27" ++ s ++ "\x27"
  let basicLong := "\"\"\"" ++ start ++ .ofList (basicText 2 0 text) ++ "\"\"\""
  let literalLong := "\x27\x27\x27" ++ start ++ s ++ "\x27\x27\x27"
  if printable && !backslash && !lines && longestRun '"' text = 0 then basic
  else if printable && !lines && longestRun '\x27' text = 0 then literal
  else if printable && !backslash && longestRun '"' text ≤ 2 then basicLong
  else if printable && longestRun '\x27' text ≤ 2 then literalLong
  else if lines then basicLong
  else basic

end ClassLang.Toml
