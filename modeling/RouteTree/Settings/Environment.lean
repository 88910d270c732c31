import RouteTree.Settings.Place

/-!
# Settings from the environment

A variable counts if its name begins with `APITREE__`, in whatever case. The rest of the name is the
place, with two underscores for a dot. The value is a truth value, an integer or a float if it reads
as one; the list of methods is cut at its commas otherwise; and all else is text.
-/

namespace RouteTree.Environment

/-- What the names of all variables begin with. -/
def marker : List Char := "apitree__".toList

/-- The place whose value is a list. -/
def listPlace : String := "request_methods"

/-- Two underscores become a dot, from the left. -/
def dotted : List Char → List Char
  | '_' :: '_' :: cs => '.' :: dotted cs
  | c :: cs => c :: dotted cs
  | [] => []

/-- The place that a variable sets, if it sets any. -/
def place? (name : String) : Option String :=
  let name := name.toList.map lowerChar
  if marker.isPrefixOf name then some (String.ofList (dotted (name.drop marker.length)))
  else none

/-- The pieces between commas. -/
def pieces : List Char → List (List Char)
  | [] => [[]]
  | ',' :: cs => [] :: pieces cs
  | c :: cs =>
    match pieces cs with
    | [] => [[c]]
    | p :: ps => (c :: p) :: ps

def boolean? (s : String) : Option Bool :=
  match s.toLower with
  | "true" => some true
  | "false" => some false
  | _ => none

/-- A sign and digits, of a number that fits 64 bits. -/
def integer? (cs : List Char) : Option Int :=
  let (negative, digits) := match cs with
    | '-' :: r => (true, r)
    | '+' :: r => (false, r)
    | r => (false, r)
  if digits.isEmpty || !digits.all Char.isDigit then none
  else
    let n : Int := Number.Binary64.digitsValue digits
    let i := if negative then -n else n
    if Int64.minValue.toInt ≤ i ∧ i ≤ Int64.maxValue.toInt then some i else none

/-- What the value of a variable stands for at a place. -/
def valueAt (place value : String) : Raw :=
  match boolean? value, integer? value.toList, Number.Binary64.ofChars? value.toList with
  | some b, _, _ => .boolean b
  | none, some i, _ => .integer i
  | none, none, some x => .float x
  | none, none, none =>
    if place = listPlace then .list ((pieces value.toList).map fun p => .text (String.ofList p))
    else .text value

/-- The places that variables set, with their values. Of several variables for one place the last
counts. -/
def layer (environment : List (String × String)) : List (String × Raw) :=
  environment.foldl (fun entries (name, value) =>
    match place? name with
    | some place => Raw.put place (valueAt place value) entries
    | none => entries) []

end RouteTree.Environment
