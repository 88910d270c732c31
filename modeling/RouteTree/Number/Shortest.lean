import RouteTree.Number.Binary64

/-!
# The shortest decimal of a binary number

A binary number is written with the fewest decimal digits that read back to it, in positional
notation. The real numbers that read back to `mantissa · 2 ^ exponent` form an interval, which
reaches half way to either neighbour and has its ends if the mantissa is even. For one digit, two,
and so on, the two neighbours of the value among the decimals with that many digits are tried; the
first that lies in the interval is taken, and of two the nearer. The neighbour above may be a power
of ten, whose zeros are no digits (`Decimal.trimmed`).
-/

namespace RouteTree.Number

/-- A decimal `digits * 10 ^ exponent`. -/
structure Decimal where
  digits : Nat
  exponent : Int
deriving DecidableEq, Repr

/-- The same decimal without zeros at the end of its digits. -/
def Decimal.trimmed (d : Decimal) : Decimal :=
  if d.digits = 0 ∨ d.digits % 10 ≠ 0 then d
  else trimmed ⟨d.digits / 10, d.exponent + 1⟩
termination_by d.digits
decreasing_by omega

namespace Binary64

/-- Compares `d` with `n * 2 ^ exponent`. -/
def compareDecimal (d : Decimal) (n : Nat) (exponent : Int) : Ordering :=
  let (a, b) := scaleDown 10 (-d.exponent) d.digits 1
  let (x, y) := scaleDown 2 (-exponent) n 1
  compare (a * y) (x * b)

/-- Does `d` lie among the reals nearest to `mantissa * 2 ^ exponent`? Below the least mantissa of
full length the next number is only half as far away. -/
def readsBack (mantissa : Nat) (exponent : Int) (d : Decimal) : Bool :=
  let least := mantissa = Nat.pow 2 52 && -1074 < exponent
  let below := if least then 4 * mantissa - 1 else 4 * mantissa - 2
  let above := 4 * mantissa + 2
  let low := compareDecimal d below (exponent - 2)
  let high := compareDecimal d above (exponent - 2)
  let closed := mantissa % 2 == 0
  (low == .gt || (closed && low == .eq)) && (high == .lt || (closed && high == .eq))

/-- The nearer of the two decimals on the grid of `10 ^ place` beside `mantissa * 2 ^ exponent`, if
it reads back, or else the other one; half way between them lies with the greater. -/
def onGrid? (mantissa : Nat) (exponent place : Int) : Option Decimal :=
  let (a, b) := scaleDown 2 (-exponent) mantissa 1
  let (num, den) := scaleDown 10 place a b
  let lower : Decimal := ⟨num / den, place⟩
  let upper : Decimal := ⟨num / den + 1, place⟩
  let candidates := if 2 * (num % den) < den then [lower, upper] else [upper, lower]
  candidates.find? (readsBack mantissa exponent)

/-- The least `place` with `mantissa * 2 ^ exponent < 10 ^ place`. -/
def leadingPlace (mantissa : Nat) (exponent : Int) : Int :=
  let (num, den) := scaleDown 2 (-exponent) mantissa 1
  let estimate : Int := (Nat.toDigits 10 num).length - (Nat.toDigits 10 den).length
  let (n, d) := scaleDown 10 estimate num den
  if n < d then estimate else estimate + 1

/-- The shortest decimal that reads back to `mantissa * 2 ^ exponent`, which is not zero. Seventeen
digits always suffice; failing that, the value itself. -/
def shortest (mantissa : Nat) (exponent : Int) : Decimal :=
  let place := leadingPlace mantissa exponent
  let tries := (List.range 17).map fun n => onGrid? mantissa exponent (place - (n + 1 : Nat))
  match tries.findSome? id with
  | some d => d.trimmed
  | none =>
    if exponent < 0 then ⟨mantissa * Nat.pow 5 exponent.natAbs, exponent⟩
    else ⟨mantissa * Nat.pow 2 exponent.natAbs, 0⟩

/-- A decimal in positional notation, without a point if it is a whole number. -/
def positional (d : Decimal) : String :=
  let digits := Nat.toDigits 10 d.digits
  let places := (-d.exponent).toNat
  String.ofList <|
    if places = 0 then digits ++ List.replicate d.exponent.toNat '0'
    else
      let digits := List.replicate (places + 1 - digits.length) '0' ++ digits
      digits.take (digits.length - places) ++ '.' :: digits.drop (digits.length - places)

/-- The text of a number. -/
def text : Binary64 → String
  | .nan => "NaN"
  | .infinite negative => (if negative then "-" else "") ++ "inf"
  | .finite negative mantissa exponent =>
    (if negative then "-" else "") ++
      (if mantissa = 0 then "0" else positional (shortest mantissa exponent))

end Binary64

end RouteTree.Number
