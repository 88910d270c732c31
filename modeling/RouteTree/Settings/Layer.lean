import RouteTree.Settings.Toml

/-!
# Layers of settings

Where settings come from several sources, each is laid over the ones before it, place by place.
Tables are laid over each other entry by entry; everything else replaces what was there. A place is
named by a path of names and positions, and whatever stands in its way is replaced. Names are laid
in lower case, however they are written.
-/

namespace RouteTree

/-- A value in a layer, before it is known what it is for. -/
inductive Raw where
  /-- A place that was made but not filled. -/
  | nothing
  | boolean (b : Bool)
  | integer (i : Int)
  | float (x : Number.Binary64)
  | text (s : String)
  | list (items : List Raw)
  | table (entries : List (String × Raw))
deriving Inhabited, Repr

/-- One step to a place. -/
inductive Segment where
  | name (n : String)
  /-- A position in a list; a negative one counts from the end. -/
  | position (i : Int)
deriving DecidableEq, Repr

/-- The lower case of a letter. The Kelvin sign is the one character beyond ASCII whose lower case
is an ASCII letter; the others are left alone, since no name that counts holds them. -/
def lowerChar (c : Char) : Char := if c = '\u212a' then 'k' else c.toLower

def lowerCase (s : String) : String := String.ofList (s.toList.map lowerChar)

namespace Raw

/-- The first name in a table that stands for a date. -/
def dateMark : String := "$__toml_private_datetime"

/-- The text of the date that a table stands for; none if the mark has no date. -/
def dateOf? : Toml.Value → Option Raw
  | .string s => (Toml.Datetime.ofText? s).map (.text ·.text)
  | _ => none

mutual

/-- A value of a document as a layer; none if it has a mark of a date that is no date. -/
def ofToml? : Toml.Value → Option Raw
  | .string s => some (.text s)
  | .integer i => some (.integer i)
  | .float x => some (.float x)
  | .boolean b => some (.boolean b)
  | .datetime d => some (.text d.text)
  | .array items => (ofTomlItems? items).map .list
  | .table [] => some (.table [])
  | .table ((name, v) :: entries) =>
    if name = dateMark then dateOf? v
    else do
      let first ← ofToml? v
      return .table ((name, first) :: (← ofTomlEntries? entries))

def ofTomlItems? : List Toml.Value → Option (List Raw)
  | [] => some []
  | v :: items => do
    let first ← ofToml? v
    return first :: (← ofTomlItems? items)

def ofTomlEntries? : List (String × Toml.Value) → Option (List (String × Raw))
  | [] => some []
  | (name, v) :: entries => do
    let first ← ofToml? v
    return (name, first) :: (← ofTomlEntries? entries)

end

/-- The entries of a table; anything else has none. -/
def entries : Raw → List (String × Raw)
  | .table entries => entries
  | _ => []

/-- The items of a list; anything else has none. -/
def items : Raw → List Raw
  | .list items => items
  | _ => []

/-- Puts a value in the place of the one with its name, or at the end. -/
def put (name : String) (v : Raw) : List (String × Raw) → List (String × Raw)
  | [] => [(name, v)]
  | (n, w) :: es => if n = name then (name, v) :: es else (n, w) :: put name v es

mutual

/-- Lays `v` over what a name stands for in `parent`. -/
def overlay (parent : Raw) (name : String) : Raw → Raw
  | .table incoming =>
    let target := (parent.entries.lookup (lowerCase name)).getD (.table [])
    .table (put (lowerCase name) (overlayAll target incoming) parent.entries)
  | v => .table (put (lowerCase name) v parent.entries)

/-- Lays entries over a value one by one. -/
def overlayAll (target : Raw) : List (String × Raw) → Raw
  | [] => target
  | (name, v) :: entries => overlayAll (overlay target name v) entries

end

/-- The position `i` in a list that is made long enough for it. -/
def reach (i : Int) (items : List Raw) : Nat × List Raw :=
  let index := if 0 ≤ i then i.toNat else (items.length + i).toNat
  (index, items ++ List.replicate (index + 1 - items.length) .nothing)

/-- Changes the value at a place. -/
def alter (f : Raw → Raw) : List Segment → Raw → Raw
  | [], v => f v
  | .name n :: place, v =>
    let child := (v.entries.lookup (lowerCase n)).getD .nothing
    .table (put (lowerCase n) (alter f place child) v.entries)
  | .position i :: place, v =>
    let (index, items) := reach i v.items
    .list (items.modify index (alter f place))

/-- Lays a value over the one at a place. -/
def set (root : Raw) (place : List Segment) (v : Raw) : Raw :=
  match place.getLast? with
  | none => root
  | some (.name n) => root.alter (fun parent => overlay parent n v) place.dropLast
  | some (.position _) => root.alter (fun _ => v) place

end Raw

end RouteTree
