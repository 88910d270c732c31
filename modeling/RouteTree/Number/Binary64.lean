/-!
# Binary floating-point numbers of 64 bits

A number is kept as what it stands for, `± mantissa · 2 ^ exponent`, an infinity, or no number at
all. Decimal fractions are rounded to the nearest such number, ties to the even mantissa, in exact
arithmetic.
-/

namespace RouteTree.Number

inductive Binary64 where
  /-- `± mantissa * 2 ^ exponent`, where the mantissa has at most 53 bits and the exponent is at
  least `-1074`. -/
  | finite (negative : Bool) (mantissa : Nat) (exponent : Int)
  | infinite (negative : Bool)
  | nan
deriving DecidableEq, Inhabited, Repr

/-- The integer nearest to `num / den`; of two the even one. -/
def roundEven (num den : Nat) : Nat :=
  let quotient := num / den
  let rest := 2 * (num % den)
  if rest < den || (rest == den && quotient % 2 == 0) then quotient else quotient + 1

/-- The integer nearest to `num / den`; of two the greater one. -/
def roundUp (num den : Nat) : Nat := (2 * num + den) / (2 * den)

/-- A numerator and a denominator of `num / den / base ^ exponent`. -/
def scaleDown (base : Nat) (exponent : Int) (num den : Nat) : Nat × Nat :=
  (num * base.pow (-exponent).toNat, den * base.pow exponent.toNat)

namespace Binary64

def zero (negative : Bool) : Binary64 := .finite negative 0 (-1074)

/-- The number nearest to `± num / den`, both of which are positive. -/
def ofRatio (negative : Bool) (num den : Nat) : Binary64 :=
  let estimate : Int := num.log2 - den.log2 - 52
  let (n, d) := scaleDown 2 estimate num den
  let exponent := max (if n < Nat.pow 2 52 * d then estimate - 1 else estimate) (-1074)
  let (n, d) := scaleDown 2 exponent num den
  let mantissa := roundEven n d
  let (mantissa, exponent) :=
    if mantissa = Nat.pow 2 53 then (Nat.pow 2 52, exponent + 1) else (mantissa, exponent)
  if 971 < exponent then .infinite negative else .finite negative mantissa exponent

/-- The number nearest to `± digits * 10 ^ exponent`. What lies far outside the range is not
computed exactly. -/
def ofDecimal (negative : Bool) (digits : Nat) (exponent : Int) : Binary64 :=
  let magnitude := (Nat.toDigits 10 digits).length + exponent
  if digits = 0 || magnitude < -400 then zero negative
  else if 400 < magnitude then .infinite negative
  else
    let (num, den) := scaleDown 10 (-exponent) digits 1
    ofRatio negative num den

/-- The value of decimal digits. -/
def digitsValue (cs : List Char) : Nat := cs.foldl (fun n c => 10 * n + (c.toNat - '0'.toNat)) 0

/-- An exponent after its mark: digits with or without a sign, and nothing else. -/
def exponent? (cs : List Char) : Option Int :=
  let (negative, digits) := match cs with
    | '-' :: r => (true, r)
    | '+' :: r => (false, r)
    | r => (false, r)
  if digits.isEmpty || !digits.all Char.isDigit then none
  else
    let n : Int := digitsValue digits
    some (if negative then -n else n)

/-- Digits with or without a point and an exponent. At least one digit stands before the exponent.
-/
def unsigned? (negative : Bool) (cs : List Char) : Option Binary64 := do
  let (whole, rest) := cs.span Char.isDigit
  let (fraction, rest) := match rest with
    | '.' :: r => r.span Char.isDigit
    | r => ([], r)
  let exponent ← match rest with
    | [] => some 0
    | c :: r => if c == 'e' || c == 'E' then exponent? r else none
  if whole.isEmpty && fraction.isEmpty then none
  else return ofDecimal negative (digitsValue (whole ++ fraction)) (exponent - fraction.length)

/-- Reads a number: an optional sign, then digits or a word for an infinity or for no number. -/
def ofChars? (cs : List Char) : Option Binary64 :=
  let (negative, body) := match cs with
    | '-' :: r => (true, r)
    | '+' :: r => (false, r)
    | r => (false, r)
  let word := String.ofList (body.map Char.toLower)
  if word == "inf" || word == "infinity" then some (.infinite negative)
  else if word == "nan" then some .nan
  else unsigned? negative body

/-- The nearest integer, a half going away from zero, cut to the range from `0` to `limit`. -/
def toNatWithin (limit : Nat) : Binary64 → Nat
  | .nan | .infinite true | .finite true _ _ => 0
  | .infinite false => limit
  | .finite false mantissa exponent =>
    let (num, den) := scaleDown 2 (-exponent) mantissa 1
    min limit (roundUp num den)

end Binary64

end RouteTree.Number
