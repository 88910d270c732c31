import RouteTree.Toml.Datetime

/-!
# Values and tables

While a document is read, its tables are open: a table that was only named on the way to another one
may still get a header of its own, one that dotted keys made may still get further dotted keys, and
an array of tables may get further tables. `insert` and `alter` add to open tables and refuse
whatever would define something twice; `close` forgets how a table came about.
-/

namespace RouteTree.Toml

inductive Value where
  | string (content : String)
  | integer (i : Int)
  | float (x : Number.Binary64)
  | boolean (b : Bool)
  | datetime (d : Datetime)
  | array (items : List Value)
  | table (entries : List (String × Value))
deriving Inhabited, Repr

/-- What a name stands for in an open table. -/
inductive Item where
  | value (v : Value)
  /-- A table. It is implicit if it has no header and was not written out, and dotted if dotted keys
  made it. -/
  | table (isImplicit isDotted : Bool) (entries : List (String × Item))
  /-- An array of tables, to whose last table is added. -/
  | tables (elements : List (List (String × Item)))
deriving Inhabited

/-- An open table. -/
abbrev Entries := List (String × Item)

namespace Entries

/-- Puts an item in the place of the one with its name, or at the end. -/
def put (name : String) (item : Item) : Entries → Entries
  | [] => [(name, item)]
  | (n, i) :: es => if n = name then (name, item) :: es else (n, i) :: put name item es

/-- Puts an item at the end, and nowhere else. -/
def putLast (name : String) (item : Item) (es : Entries) : Entries :=
  es.filter (fun (n, _) => n != name) ++ [(name, item)]

/-- Adds a value under a dotted key. Every table on the way was made by dotted keys or is implicit,
and the one that gets the value was made by dotted keys. -/
def insert (name : String) (v : Value) : (path : List String) → Entries → Option Entries
  | [], es => if (es.lookup name).isSome then none else some (es ++ [(name, .value v)])
  | n :: path, es => do
    let child ← match es.lookup n with
      | none => pure (Item.table true true (← insert name v path []))
      | some (.table true isDotted inner) =>
        if path.isEmpty && !isDotted then none
        else pure (Item.table true isDotted (← insert name v path inner))
      | some (.tables elements) =>
        match path, elements.getLast? with
        | _ :: _, some last => pure (Item.tables (elements.dropLast ++ [← insert name v path last]))
        | _, _ => none
      | some (.table false _ _) | some (.value _) => none
    return put n child es

/-- Changes the table at a path of headers. -/
def alter (f : Entries → Option Entries) : (path : List String) → Entries → Option Entries
  | [], es => f es
  | n :: path, es => do
    let child ← match es.lookup n with
      | none => pure (Item.table true false (← alter f path []))
      | some (.table isImplicit isDotted inner) =>
        pure (Item.table isImplicit isDotted (← alter f path inner))
      | some (.tables elements) =>
        match elements.getLast? with
        | some last => pure (Item.tables (elements.dropLast ++ [← alter f path last]))
        | none => none
      | some (.value _) => none
    return put n child es

/-- Adds values under dotted keys, in order. -/
def insertAll (pairs : List (DottedKey × Value)) (es : Entries) : Option Entries :=
  pairs.foldlM (fun es (key, v) => insert key.name v key.path es) es

mutual

def closeItem : Item → Value
  | .value v => v
  | .table _ _ entries => .table (close entries)
  | .tables elements => .array (closeTables elements)

def close : List (String × Item) → List (String × Value)
  | [] => []
  | (name, item) :: es => (name, closeItem item) :: close es

def closeTables : List (List (String × Item)) → List Value
  | [] => []
  | es :: elements => .table (close es) :: closeTables elements

end

end Entries

end RouteTree.Toml
