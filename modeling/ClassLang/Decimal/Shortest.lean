import ClassLang.Decimal.Binary64

/-!
# The shortest decimal of a double

`Binary64.shortest` finds the decimal with the fewest digits among those that read back as a given
positive double; of several it takes the nearest to the double, and the larger one of two that are
equally near. `Binary64.display` writes it positionally, never with an exponent, and without a
fraction when there is none.
-/

namespace ClassLang.Binary64

/-- The decimal exponent `k` with `10 ^ (k - 1) ≤ num / den < 10 ^ k`, for a positive ratio. -/
def decimalExponent (num den : Nat) : Int :=
  if den ≤ num then (Nat.toDigits 10 (num / den)).length
  else
    let d := (Nat.toDigits 10 (den / num)).length
    if den ≤ num * Nat.pow 10 (d - 1) then 2 - d else 1 - d

/-- The numbers that round to `m * 2 ^ e`, as an interval in quarters of the unit `2 ^ e`: its lower
end, the number itself, its upper end, and whether the ends belong to it. -/
structure Neighbourhood where
  low : Nat
  value : Nat
  high : Nat
  closed : Bool
  /-- Numerator and denominator of a quarter of the unit. -/
  unitNum : Nat
  unitDen : Nat

/-- The interval of a positive finite double. Below a power of two the gap is half as wide. -/
def neighbourhood (x : Binary64) : Neighbourhood :=
  let (m, e) := x.scaled
  let low := if x.fractionField = 0 && 1 < x.exponentField then 4 * m - 1 else 4 * m - 2
  let (num, den) := scaleDown 1 1 (2 - e)
  ⟨low, 4 * m, 4 * m + 2, m % 2 == 0, num, den⟩

/-- Whether `digits * 10 ^ s` lies in the interval. -/
def Neighbourhood.contains (n : Neighbourhood) (digits : Nat) (s : Int) : Bool :=
  let (num, den) :=
    if 0 ≤ s then (digits * Nat.pow 10 s.toNat, 1) else (digits, Nat.pow 10 (-s).toNat)
  let point := num * n.unitDen
  let low := n.low * n.unitNum * den
  let high := n.high * n.unitNum * den
  if n.closed then low ≤ point && point ≤ high else low < point && point < high

/-- The decimals with `count` digits next to the number, below and above, nearer one first. -/
def Neighbourhood.candidates (n : Neighbourhood) (k : Int) (count : Nat) : List (Nat × Int) :=
  let s := k - count
  let num := n.value * n.unitNum
  let (num, den) :=
    if 0 ≤ s then (num, n.unitDen * Nat.pow 10 s.toNat)
    else (num * Nat.pow 10 (-s).toNat, n.unitDen)
  let q := num / den
  if 2 * (num % den) < den then [(q, s), (q + 1, s)] else [(q + 1, s), (q, s)]

/-- Tries the digit counts from `count` on, `fuel` of them. -/
def Neighbourhood.search (n : Neighbourhood) (k : Int) : (fuel count : Nat) → Option (Nat × Int)
  | 0, _ => none
  | fuel + 1, count =>
    match (n.candidates k count).find? fun c => n.contains c.1 c.2 with
    | some c => some c
    | none => n.search k fuel (count + 1)

/-- Digits and decimal exponent of the shortest decimal that reads back as a positive finite double.
Seventeen digits always suffice. -/
def shortest (x : Binary64) : Nat × Int :=
  let n := x.neighbourhood
  let k := decimalExponent (n.value * n.unitNum) n.unitDen
  (n.search k 17 1).getD (0, 0)

/-- Writes `digits * 10 ^ s` positionally, without trailing zeros in the fraction. -/
def positional (digits : Nat) (s : Int) : String :=
  let text := Nat.toDigits 10 digits
  if 0 ≤ s then .ofList (text ++ List.replicate s.toNat '0')
  else
    let places := (-s).toNat
    let padded := List.replicate (places + 1 - text.length) '0' ++ text
    let whole := padded.take (padded.length - places)
    let fraction := ((padded.drop (padded.length - places)).reverse.dropWhile (· == '0')).reverse
    if fraction.isEmpty then .ofList whole else .ofList (whole ++ '.' :: fraction)

/-- The text of a number. -/
def display (x : Binary64) : String :=
  if x.isNaN then "NaN"
  else
    let magnitude :=
      if x.isInfinite then "inf"
      else if x.exponentField = 0 && x.fractionField = 0 then "0"
      else
        let (digits, s) := x.shortest
        positional digits s
    if x.isNegative then "-" ++ magnitude else magnitude

end ClassLang.Binary64
