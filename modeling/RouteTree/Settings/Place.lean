import RouteTree.Settings.Layer

/-!
# Places in settings

A place is written as a name followed by names after dots and positions in square brackets. A text
that is not written so is a name as a whole.
-/

namespace RouteTree

open Toml (Reader)
open Toml.Reader

namespace Segment

def isNameChar (c : Char) : Bool := c.isAlphanum || c == ' ' || c == '_' || c == '-'

/-- A name of at least one character. -/
def readName : Reader Segment := do
  let cs ← takeWhile isNameChar
  if cs.isEmpty then failure else return .name (String.ofList cs)

/-- A position between brackets, with blanks around it. -/
def readPosition : Reader Segment := do
  char '['
  Toml.blanks
  let negative := (← (char '-').optional).isSome
  let digits ← takeWhile Char.isDigit
  if digits.isEmpty then failure
  let n : Int := Number.Binary64.digitsValue digits
  let i := if negative then -n else n
  if i < Int64.minValue.toInt ∨ Int64.maxValue.toInt < i then failure
  Toml.blanks
  char ']'
  return .position i

def readNext : Reader Segment := fun cs =>
  match cs with
  | '.' :: cs => readName cs
  | _ => readPosition cs

/-- The place that a text names. -/
def placeOf (s : String) : List Segment :=
  match (do return (← readName) :: (← many readNext) : Reader (List Segment)) s.toList with
  | some (place, []) => place
  | _ => [.name s]

end Segment

/-- Lays a value over the place that a text names. -/
def Raw.setAt (root : Raw) (place : String) (v : Raw) : Raw := root.set (Segment.placeOf place) v

end RouteTree
