import RouteTree.Toml.Reader

/-!
# Strings and keys

Strings come in four kinds: basic ones with escapes and literal ones without, each on one line or
over several. A line feed right after the opening quotes of several lines is dropped, and there a
backslash at the end of a line joins it with the next. Keys are bare words or strings of one line,
joined by dots.
-/

namespace RouteTree.Toml

open Reader

def hexValue? (c : Char) : Option Nat :=
  if c.isDigit then some (c.toNat - '0'.toNat)
  else if 'a' ≤ c && c ≤ 'f' then some (c.toNat - 'a'.toNat + 10)
  else if 'A' ≤ c && c ≤ 'F' then some (c.toNat - 'A'.toNat + 10)
  else none

/-- The character whose code is written in exactly `n` hexadecimal digits. -/
def codePoint (n : Nat) : Reader Char := fun cs => do
  let digits ← (cs.take n).mapM hexValue?
  let code := digits.foldl (fun value d => 16 * value + d) 0
  if digits.length = n && code.isValidChar then some (Char.ofNat code, cs.drop n) else none

/-- What follows the backslash of an escape. -/
def escaped : Reader Char
  | 'b' :: cs => some ('\x08', cs)
  | 't' :: cs => some ('\t', cs)
  | 'n' :: cs => some ('\n', cs)
  | 'f' :: cs => some ('\x0c', cs)
  | 'r' :: cs => some ('\r', cs)
  | '"' :: cs => some ('"', cs)
  | '\\' :: cs => some ('\\', cs)
  | 'u' :: cs => codePoint 4 cs
  | 'U' :: cs => codePoint 8 cs
  | _ => none

def basicChar : Reader Char
  | '\\' :: cs => escaped cs
  | c :: cs => if isPlain c && c != '"' then some (c, cs) else none
  | [] => none

def literalChar : Reader Char
  | c :: cs => if isPlain c && c != '\'' then some (c, cs) else none
  | [] => none

/-- A string of one line, after its opening quote. -/
def oneLine (quote : Char) (unit : Reader Char) : Reader String := do
  let cs ← many unit
  char quote
  return String.ofList cs

/-- Blanks and line ends. -/
def skipBlankLines : List Char → List Char
  | ' ' :: cs => skipBlankLines cs
  | '\t' :: cs => skipBlankLines cs
  | '\n' :: cs => skipBlankLines cs
  | '\r' :: '\n' :: cs => skipBlankLines cs
  | cs => cs

/-- A backslash at the end of a line, after the backslash: all blanks and line ends that follow. -/
def lineJoin : Reader Unit := do
  blanks
  newline
  fun cs => some ((), skipBlankLines cs)

/-- A piece of a string of several lines: a line end, a quote that does not begin the closing ones,
or what the string allows on one line. -/
def multiLinePiece (quote : Char) (unit : Reader (List Char)) : Reader (List Char) := fun cs =>
  match newline cs with
  | some (_, rest) => some (['\n'], rest)
  | none =>
    match cs with
    | c :: rest =>
      if c = quote then
        if rest.take 2 = [quote, quote] then none else some ([quote], rest)
      else unit cs
    | [] => none

def basicPiece : Reader (List Char)
  | '\\' :: cs =>
    match lineJoin cs with
    | some (_, rest) => some ([], rest)
    | none => (escaped cs).map fun (c, rest) => ([c], rest)
  | cs => (basicChar cs).map fun (c, rest) => ([c], rest)

def literalPiece : Reader (List Char) := fun cs =>
  (literalChar cs).map fun (c, rest) => ([c], rest)

/-- The closing quotes of several lines. Of up to five in a row the last three close, and the others
belong to the string. -/
def closing (quote : Char) : Reader (List Char) := fun cs =>
  let count := min 5 (cs.takeWhile (· == quote)).length
  if count < 3 then none else some (List.replicate (count - 3) quote, cs.drop count)

/-- A string of several lines, after its opening quotes. -/
def multiLine (quote : Char) (unit : Reader (List Char)) : Reader String := do
  let _ ← newline.optional
  let pieces ← many (multiLinePiece quote unit)
  let quotes ← closing quote
  return String.ofList (pieces.flatten ++ quotes)

def string : Reader String
  | '"' :: '"' :: '"' :: cs => multiLine '"' basicPiece cs
  | '"' :: cs => oneLine '"' basicChar cs
  | '\'' :: '\'' :: '\'' :: cs => multiLine '\'' literalPiece cs
  | '\'' :: cs => oneLine '\'' literalChar cs
  | _ => none

def isBare (c : Char) : Bool := c.isAlphanum || c == '-' || c == '_'

def simpleKey : Reader String
  | '"' :: cs => oneLine '"' basicChar cs
  | '\'' :: cs => oneLine '\'' literalChar cs
  | cs =>
    let (bare, rest) := cs.span isBare
    if bare.isEmpty then none else some (String.ofList bare, rest)

/-- How deep arrays, inline tables and dotted keys may be nested. -/
def maxNesting : Nat := 79

/-- A dotted key: the names before the last one, and the last one. -/
structure DottedKey where
  path : List String
  name : String
deriving DecidableEq, Repr

def dottedKey : Reader DottedKey := do
  let names ← separated (do blanks; let name ← simpleKey; blanks; return name) (char '.')
  match names.getLast? with
  | some name => if names.length ≤ maxNesting then return ⟨names.dropLast, name⟩ else failure
  | none => failure

end RouteTree.Toml
