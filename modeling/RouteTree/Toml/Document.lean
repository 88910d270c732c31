import RouteTree.Toml.Value

/-!
# Documents

A document is a sequence of sections: the pairs before the first header belong to the root, those
after a header to its table. It is read in two steps, first its lines (`Line`), then the tables that
they define (`tableOfLines?`).
-/

namespace RouteTree.Toml

open Reader

/-! ### Values -/

def boolean : Reader Bool
  | 't' :: 'r' :: 'u' :: 'e' :: cs => some (true, cs)
  | 'f' :: 'a' :: 'l' :: 's' :: 'e' :: cs => some (false, cs)
  | _ => none

/-- The first of several readers that succeeds. -/
def firstOf {α : Type} : List (Reader α) → Reader α
  | [], _ => none
  | p :: ps, cs => match p cs with
    | some result => some result
    | none => firstOf ps cs

/-- A value that holds no others. A date is tried before a float and a float before an integer,
since each may begin like the next. -/
def scalar : Reader Value :=
  firstOf [.string <$> string, .datetime <$> datetime, .float <$> decimalFloat,
    .float <$> specialFloat, .integer <$> integer, .boolean <$> boolean]

/-- The items of an array after its bracket; a comma may stand after the last one. -/
def arrayItems (item : Reader Value) : Reader (List Value) := do
  let items ← (separated (do layout; let v ← item; layout; return v) (char ',')).optional
  if items.isSome then
    let _ ← (char ',').optional
  layout
  char ']'
  return items.getD []

/-- A key and its value, up to the end of the value. -/
def keyValue (value : Reader Value) : Reader (DottedKey × Value) := do
  let key ← dottedKey
  char '='
  blanks
  let v ← value
  return (key, v)

/-- The pairs of an inline table after its brace; no comma may stand after the last one. -/
def inlinePairs (value : Reader Value) : Reader (List (DottedKey × Value)) := do
  let pairs ← (separated (do let pair ← keyValue value; blanks; return pair) (char ',')).optional
  blanks
  char '\x7d'
  return pairs.getD []

/-- A value in which arrays and inline tables are nested at most so deep. -/
def valueWithin : (nesting : Nat) → Reader Value
  | 0 => scalar
  | nesting + 1 => fun
    | '[' :: cs => (.array <$> arrayItems (valueWithin nesting) : Reader Value) cs
    | '\x7b' :: cs =>
      (do
        let pairs ← inlinePairs (valueWithin nesting)
        match Entries.insertAll pairs [] with
        | some es => return .table (Entries.close es)
        | none => failure : Reader Value) cs
    | cs => scalar cs

def value : Reader Value := valueWithin maxNesting

/-! ### Lines -/

inductive Line where
  /-- Nothing, or a comment. -/
  | empty
  | pair (key : DottedKey) (v : Value)
  /-- The header of a table. -/
  | table (key : DottedKey)
  /-- The header of a further table in an array of tables. -/
  | element (key : DottedKey)

def content : Reader Line
  | '[' :: '[' :: cs =>
    (do let key ← dottedKey; char ']'; char ']'; return .element key : Reader Line) cs
  | '[' :: cs => (do let key ← dottedKey; char ']'; return .table key : Reader Line) cs
  | cs => (do let (key, v) ← keyValue value; return .pair key v : Reader Line) cs

/-- There is something left to read. -/
def moreInput : Reader Unit := fun cs => if cs.isEmpty then none else some ((), cs)

/-- A line with its end. At the end of the input there is none. -/
def line : Reader Line := do
  blanks
  moreInput
  let content? ← content.optional
  lineEnd
  return content?.getD .empty

/-- All lines of an input. -/
def lines? (cs : List Char) : Option (List Line) :=
  let (lines, rest) := collect line cs
  if (rest.dropWhile isBlank).isEmpty then some lines else none

/-! ### Sections -/

inductive Header where
  | table (key : DottedKey)
  | element (key : DottedKey)

structure Section where
  header : Header
  pairs : List (DottedKey × Value)

/-- The pairs before the first header, and the sections. -/
def sections : List Line → List (DottedKey × Value) × List Section
  | [] => ([], [])
  | line :: lines =>
    let (pairs, rest) := sections lines
    match line with
    | .empty => (pairs, rest)
    | .pair key v => ((key, v) :: pairs, rest)
    | .table key => ([], ⟨.table key, pairs⟩ :: rest)
    | .element key => ([], ⟨.element key, pairs⟩ :: rest)

/-- Adds a section. A table may have one header, and none if it was defined otherwise; where it
stands among its siblings is decided by its header. -/
def addSection (es : Entries) (s : Section) : Option Entries :=
  match s.header with
  | .table key =>
    Entries.alter (fun es => do
      let known ← match es.lookup key.name with
        | none => some []
        | some (.table true false inner) => some inner
        | some _ => none
      let table := .table false false (← Entries.insertAll s.pairs known)
      return es.putLast key.name table) key.path es
  | .element key =>
    Entries.alter (fun es => do
      let elements ← match es.lookup key.name with
        | none => some []
        | some (.tables elements) => some elements
        | some _ => none
      return es.put key.name (.tables (elements ++ [← Entries.insertAll s.pairs []]))) key.path es

def tableOfLines? (lines : List Line) : Option (List (String × Value)) := do
  let (pairs, rest) := sections lines
  let es ← Entries.insertAll pairs []
  let es ← rest.foldlM addSection es
  return Entries.close es

/-- A byte order mark at the beginning is no part of a text. -/
def dropMark : List Char → List Char
  | '\ufeff' :: cs => cs
  | cs => cs

/-- Reads a document: the table of its root. -/
def parse? (s : String) : Option (List (String × Value)) := do
  tableOfLines? (← lines? (dropMark s.toList))

end RouteTree.Toml
