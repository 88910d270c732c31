import RouteTree.Number.Binary64
import RouteTree.Toml.Text

/-!
# Numbers

Integers are decimal with an optional sign, or unsigned with the base in front; they fit 64 bits.
Floats have a fraction or an exponent or are named. An underscore may stand between two digits.
-/

namespace RouteTree.Toml

open Reader Number

def isHexDigit (c : Char) : Bool := (hexValue? c).isSome

def isOctalDigit (c : Char) : Bool := '0' ≤ c && c ≤ '7'

def isBinaryDigit (c : Char) : Bool := c == '0' || c == '1'

/-- Digits up to the first character that is neither a digit nor an underscore. An underscore must
have a digit after it. -/
def moreDigits (isDigit : Char → Bool) : Reader (List Char)
  | [] => some ([], [])
  | '_' :: c :: cs =>
    if isDigit c then (moreDigits isDigit cs).map fun (ds, rest) => (c :: ds, rest) else none
  | c :: cs =>
    if isDigit c then (moreDigits isDigit cs).map fun (ds, rest) => (c :: ds, rest)
    else if c = '_' then none
    else some ([], c :: cs)

/-- At least one digit. -/
def digits (isDigit : Char → Bool) : Reader (List Char)
  | c :: cs => if isDigit c then moreDigits isDigit (c :: cs) else none
  | [] => none

/-- Decimal digits without a needless zero in front. -/
def wholeDigits : Reader (List Char)
  | '0' :: cs => some (['0'], cs)
  | cs => digits Char.isDigit cs

def sign : Reader Bool
  | '-' :: cs => some (true, cs)
  | '+' :: cs => some (false, cs)
  | cs => some (false, cs)

/-- The value of digits in a base. -/
def valueInBase (base : Nat) (ds : List Char) : Nat :=
  ds.foldl (fun value c => base * value + (hexValue? c).getD 0) 0

/-- An integer, if it fits 64 bits with its sign. -/
def fitting (i : Int) : Reader Int :=
  if Int64.minValue.toInt ≤ i ∧ i ≤ Int64.maxValue.toInt then pure i else failure

def integer : Reader Int
  | '0' :: 'x' :: cs => (do fitting (valueInBase 16 (← digits isHexDigit)) : Reader Int) cs
  | '0' :: 'o' :: cs => (do fitting (valueInBase 8 (← digits isOctalDigit)) : Reader Int) cs
  | '0' :: 'b' :: cs => (do fitting (valueInBase 2 (← digits isBinaryDigit)) : Reader Int) cs
  | cs => (do
      let negative ← sign
      let value : Int := valueInBase 10 (← wholeDigits)
      fitting (if negative then -value else value) : Reader Int) cs

/-- A point and digits. -/
def fraction : Reader (List Char) := do
  char '.'
  digits Char.isDigit

/-- The mark of an exponent, its sign and its digits. -/
def exponent : Reader Int := do
  (fun | 'e' :: cs | 'E' :: cs => some ((), cs) | _ => none : Reader Unit)
  let negative ← sign
  let value : Int := valueInBase 10 (← digits Char.isDigit)
  return if negative then -value else value

def specialFloat : Reader Binary64 := do
  let negative ← sign
  fun
    | 'i' :: 'n' :: 'f' :: cs => some (.infinite negative, cs)
    | 'n' :: 'a' :: 'n' :: cs => some (.nan, cs)
    | _ => none

/-- A float with a fraction or an exponent; one that is too large is refused, one that is too small
becomes an infinity. -/
def decimalFloat : Reader Binary64 := do
  let negative ← sign
  let whole ← wholeDigits
  let fraction? ← fraction.optional
  let exponent? ← exponent.optional
  if fraction?.isNone && exponent?.isNone then failure
  let fraction := fraction?.getD []
  let x := Binary64.ofDecimal negative (valueInBase 10 (whole ++ fraction))
    (exponent?.getD 0 - fraction.length)
  if x = .infinite false then failure else return x

end RouteTree.Toml
