/-!
# Binary floating point by its bits

`Binary64` is the IEEE 754 double format, held as its 64 bits. Every operation here is exact integer
arithmetic on the significand and the exponent, followed by at most one rounding to the nearest
representable number, a tie going to the even significand.
-/

namespace ClassLang

/-- A double-precision number, by its bits. -/
structure Binary64 where
  bits : UInt64
deriving DecidableEq, Repr, Inhabited

namespace Binary64

def zero : Binary64 := ⟨0⟩

def infinity : Binary64 := ⟨0x7FF0000000000000⟩

def nan : Binary64 := ⟨0x7FF8000000000000⟩

def one : Binary64 := ⟨0x3FF0000000000000⟩

/-- The number with its sign changed. -/
def neg (x : Binary64) : Binary64 := ⟨x.bits ^^^ 0x8000000000000000⟩

def isNegative (x : Binary64) : Bool := x.bits >>> 63 == 1

/-- The eleven bits of the exponent. -/
def exponentField (x : Binary64) : Nat := (x.bits >>> 52).toNat % 2048

/-- The fifty-two stored bits of the significand. -/
def fractionField (x : Binary64) : Nat := x.bits.toNat % Nat.pow 2 52

def isNaN (x : Binary64) : Bool := x.exponentField == 2047 && x.fractionField != 0

def isInfinite (x : Binary64) : Bool := x.exponentField == 2047 && x.fractionField == 0

/-- Significand and exponent of a finite number's magnitude, which is `m * 2 ^ e`. -/
def scaled (x : Binary64) : Nat × Int :=
  if x.exponentField = 0 then (x.fractionField, -1074)
  else (Nat.pow 2 52 + x.fractionField, x.exponentField - 1075)

/-! ## Rounding -/

/-- The quotient rounded to the nearest integer, a tie going to the even one. -/
def divNearest (num den : Nat) : Nat :=
  let q := num / den
  let r := num % den
  if 2 * r < den then q
  else if den < 2 * r then q + 1
  else q + q % 2

/-- A ratio with a power of two taken out of it: numerator and denominator of
`num / den / 2 ^ e`. -/
def scaleDown (num den : Nat) (e : Int) : Nat × Nat :=
  if 0 ≤ e then (num, den * Nat.pow 2 e.toNat) else (num * Nat.pow 2 (-e).toNat, den)

/-- The number `m * 2 ^ e` nearest to a positive ratio, with `m` of at most `precision` bits (or the
next power of two) and `e` no smaller than `least`. -/
def nearestScaled (precision : Nat) (least : Int) (num den : Nat) : Nat × Int :=
  let top : Int := (num.log2 : Int) - den.log2
  let whole := scaleDown num den top
  let e := if whole.2 ≤ whole.1 then top - precision + 1 else top - precision
  let e := max e least
  let ratio := scaleDown num den e
  (divNearest ratio.1 ratio.2, e)

/-- The double `m * 2 ^ e`, for a significand of at most 53 bits (or the next power of two) whose
exponent is the least one unless the top bit is set. Too large a number is infinite. -/
def ofScaled (m : Nat) (e : Int) : Binary64 :=
  if m < Nat.pow 2 52 then ⟨m.toUInt64⟩
  else
    let field := (e + 1075).toNat + m / Nat.pow 2 53
    if 2047 ≤ field then infinity
    else ⟨(((e + 1075).toNat - 1) * Nat.pow 2 52 + m).toUInt64⟩

/-- The double nearest to a ratio of natural numbers. -/
def ofRatio (num den : Nat) : Binary64 :=
  if num = 0 then zero
  else
    let r := nearestScaled 53 (-1074) num den
    ofScaled r.1 r.2

/-- The double nearest to `digits * 10 ^ exponent`. A power of ten far beyond the largest double, or
far below the smallest, is not computed. -/
def ofDecimal (digits : Nat) (exponent : Int) : Binary64 :=
  if digits = 0 || exponent + digits.log2 < -400 then zero
  else if 400 < exponent then infinity
  else if 0 ≤ exponent then ofRatio (digits * Nat.pow 10 exponent.toNat) 1
  else ofRatio digits (Nat.pow 10 (-exponent).toNat)

/-- The double nearest to an integer. -/
def ofInt (i : Int) : Binary64 :=
  if i < 0 then (ofRatio i.natAbs 1).neg else ofRatio i.natAbs 1

/-- The nearest number that has a single-precision representation. -/
def toSingle (x : Binary64) : Binary64 :=
  let (m, e) := x.scaled
  if x.exponentField = 2047 || m = 0 then x
  else
    let (num, den) := scaleDown m 1 (-e)
    let (m', e') := nearestScaled 24 (-149) num den
    let (num', den') := scaleDown m' 1 (-e')
    let y := if Nat.pow 2 128 * den' ≤ num' then infinity else ofRatio num' den'
    if x.isNegative then y.neg else y

/-- The integer part, limited to the signed 64-bit range; a NaN gives zero. -/
def toInt64 (x : Binary64) : Int :=
  if x.isNaN then 0
  else
    let (m, e) := x.scaled
    let (num, den) := scaleDown m 1 (-e)
    let whole := if x.isInfinite then Nat.pow 2 63 else num / den
    if x.isNegative then max (-(whole : Int)) (-(Nat.pow 2 63 : Int))
    else min (whole : Int) (Nat.pow 2 63 - 1)

/-! ## Text -/

/-- One of the sixteen digits, capital letters after nine. -/
def hexDigit (n : Nat) : Char :=
  if n < 10 then Char.ofNat ('0'.toNat + n) else Char.ofNat ('A'.toNat + (n - 10))

/-- The lowest `width` hexadecimal digits of a number. -/
def hexDigits : (width : Nat) → Nat → List Char
  | 0, _ => []
  | width + 1, n => hexDigits width (n / 16) ++ [hexDigit (n % 16)]

/-- The sixteen hexadecimal digits of the bits. -/
def hex (x : Binary64) : String := .ofList (hexDigits 16 x.bits.toNat)

/-- The value of a run of decimal digits, continuing from `start`. -/
def digitsValue (start : Nat) (digits : List Char) : Nat :=
  digits.foldl (fun n d => 10 * n + (d.toNat - '0'.toNat)) start

/-- The nearest double to a decimal written as digits, a point and digits. -/
def ofDigits (whole fraction : List Char) : Binary64 :=
  ofDecimal (digitsValue (digitsValue 0 whole) fraction) (-fraction.length)

/-- Reads an exponent: a sign and digits. -/
def readExponent? (text : List Char) : Option Int :=
  let unsigned (digits : List Char) : Option Nat :=
    if digits.isEmpty || !digits.all Char.isDigit then none else some (digitsValue 0 digits)
  match text with
  | '-' :: digits => (unsigned digits).map fun n => -(n : Int)
  | '+' :: digits => (unsigned digits).map Int.ofNat
  | digits => (unsigned digits).map Int.ofNat

/-- Reads an unsigned number: digits with an optional point and an optional exponent, or the words
for infinity and for not-a-number. -/
def readMagnitude? (text : List Char) : Option Binary64 :=
  let lower := String.ofList (text.map Char.toLower)
  if lower == "inf" || lower == "infinity" then some infinity
  else if lower == "nan" then some nan
  else
    let whole := text.takeWhile Char.isDigit
    let afterWhole := text.dropWhile Char.isDigit
    let (fraction, tail) := match afterWhole with
      | '.' :: rest => (rest.takeWhile Char.isDigit, rest.dropWhile Char.isDigit)
      | rest => ([], rest)
    let digits := digitsValue (digitsValue 0 whole) fraction
    if whole.isEmpty && fraction.isEmpty then none
    else match tail with
      | [] => some (ofDecimal digits (-fraction.length))
      | e :: exponent =>
        if e = 'e' || e = 'E' then
          (readExponent? exponent).map fun x => ofDecimal digits (x - fraction.length)
        else none

/-- Reads a number with an optional sign. -/
def read? (text : String) : Option Binary64 :=
  match text.toList with
  | '-' :: rest => (readMagnitude? rest).map neg
  | '+' :: rest => readMagnitude? rest
  | rest => readMagnitude? rest

end Binary64

end ClassLang
