/-!
# Bodies of string and character literals

A literal's body is kept as written. Here its escapes are read: a backslash before one of seven
characters stands for one byte, and before any other it stands for itself.
-/

namespace ClassLang.Literal

/-- The byte that a character stands for after a backslash. -/
def escape? : Char → Option UInt8
  | 'n' => some 10
  | 't' => some 9
  | 'r' => some 13
  | '0' => some 0
  | '\\' => some 92
  | '"' => some 34
  | '\x27' => some 39
  | _ => none

/-- The bytes of a body, in UTF-8. -/
def bytes : List Char → List UInt8
  | [] => []
  | '\\' :: c :: rest =>
    match escape? c with
    | some b => b :: bytes rest
    | none => 92 :: (String.utf8EncodeChar c ++ bytes rest)
  | c :: rest => String.utf8EncodeChar c ++ bytes rest

/-- The number of a character literal: the first byte of an escape, else the code point of the first
character. -/
def charCode (body : List Char) : Int :=
  match body with
  | [] => 0
  | '\\' :: _ => (((bytes body).head?.map UInt8.toNat).getD 0 : Nat)
  | c :: _ => (c.toNat : Int)

end ClassLang.Literal
