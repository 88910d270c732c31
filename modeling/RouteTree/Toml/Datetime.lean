import RouteTree.Toml.Numeral

/-!
# Dates and times

A date, a time of day, or both with or without an offset. Dates are those of the calendar; a minute
may have a leap second; of a fraction of a second nine digits count.
-/

namespace RouteTree.Toml

open Reader

structure Date where
  year : Nat
  month : Nat
  day : Nat
deriving DecidableEq, Repr

structure Time where
  hour : Nat
  minute : Nat
  second : Nat
  nanosecond : Nat
deriving DecidableEq, Repr

inductive Offset where
  | utc
  | minutes (east : Int)
deriving DecidableEq, Repr

inductive Datetime where
  | date (d : Date)
  | time (t : Time)
  | dateTime (d : Date) (t : Time) (offset? : Option Offset)
deriving DecidableEq, Repr

def Date.isLeapYear (year : Nat) : Bool := year % 4 == 0 && (year % 100 != 0 || year % 400 == 0)

def Date.daysInMonth (year month : Nat) : Nat :=
  match month with
  | 2 => if isLeapYear year then 29 else 28
  | 4 | 6 | 9 | 11 => 30
  | _ => 31

/-- A number of exactly `n` digits, between two bounds. -/
def numberOf (n low high : Nat) : Reader Nat := fun cs =>
  let ds := cs.take n
  let value := valueInBase 10 ds
  if ds.length = n && ds.all Char.isDigit && low ≤ value && value ≤ high then
    some (value, cs.drop n)
  else none

def date : Reader Date := do
  let year ← numberOf 4 0 9999
  char '-'
  let month ← numberOf 2 1 12
  char '-'
  let day ← numberOf 2 1 (Date.daysInMonth year month)
  return ⟨year, month, day⟩

/-- A point and the digits of a fraction of a second, in nanoseconds. -/
def secondFraction : Reader Nat := do
  char '.'
  let ds ← takeWhile Char.isDigit
  if ds.isEmpty then failure
  return valueInBase 10 ((ds ++ List.replicate 9 '0').take 9)

def time : Reader Time := do
  let hour ← numberOf 2 0 23
  char ':'
  let minute ← numberOf 2 0 59
  char ':'
  let second ← numberOf 2 0 60
  let fraction? ← secondFraction.optional
  return ⟨hour, minute, second, fraction?.getD 0⟩

def offset : Reader Offset
  | 'Z' :: cs | 'z' :: cs => some (.utc, cs)
  | c :: cs =>
    if c == '+' || c == '-' then
      (do
        let hours ← numberOf 2 0 23
        char ':'
        let minutes ← numberOf 2 0 59
        let east : Int := hours * 60 + minutes
        return .minutes (if c == '-' then -east else east) : Reader Offset) cs
    else none
  | [] => none

/-- A time after a date and the mark between them, with its offset. -/
def timeOfDay : Reader (Time × Option Offset) := do
  (fun | 'T' :: cs | 't' :: cs | ' ' :: cs => some ((), cs) | _ => none : Reader Unit)
  let t ← time
  let offset? ← offset.optional
  return (t, offset?)

def datetime : Reader Datetime := fun cs =>
  match date cs with
  | some (d, rest) =>
    match timeOfDay rest with
    | some ((t, offset?), rest) => some (.dateTime d t offset?, rest)
    | none => some (.date d, rest)
  | none => (time cs).map fun (t, rest) => (.time t, rest)

/-! ### Text -/

/-- The date or time that a whole text is. -/
def Datetime.ofText? (s : String) : Option Datetime :=
  match datetime s.toList with
  | some (d, []) => some d
  | _ => none

/-- A number with zeros in front up to a width. -/
def padded (width n : Nat) : String :=
  let ds := Nat.toDigits 10 n
  String.ofList (List.replicate (width - ds.length) '0' ++ ds)

def Date.text (d : Date) : String :=
  padded 4 d.year ++ "-" ++ padded 2 d.month ++ "-" ++ padded 2 d.day

/-- The fraction of a second is written without the zeros at its end. -/
def Time.text (t : Time) : String :=
  let fraction := (padded 9 t.nanosecond).toList.reverse.dropWhile (· == '0') |>.reverse
  padded 2 t.hour ++ ":" ++ padded 2 t.minute ++ ":" ++ padded 2 t.second ++
    (if fraction.isEmpty then "" else "." ++ String.ofList fraction)

def Offset.text : Offset → String
  | .utc => "Z"
  | .minutes east =>
    (if east < 0 then "-" else "+") ++
      padded 2 (east.natAbs / 60) ++ ":" ++ padded 2 (east.natAbs % 60)

def Datetime.text : Datetime → String
  | .date d => d.text
  | .time t => t.text
  | .dateTime d t offset? => d.text ++ "T" ++ t.text ++ (offset?.elim "" Offset.text)

end RouteTree.Toml
