/-!
# Readers

A reader takes a beginning of its input and returns the rest, or fails. Repetition ends where the
reader that is repeated fails; what is left over there is for the caller to accept or refuse.
-/

namespace RouteTree.Toml

abbrev Reader (α : Type) := StateT (List Char) Option α

namespace Reader

variable {α β : Type}

/-- Exactly this character. -/
def char (c : Char) : Reader Unit
  | d :: cs => if d = c then some ((), cs) else none
  | [] => none

/-- Exactly these characters. -/
def word : List Char → Reader Unit
  | [] => pure ()
  | c :: cs => do char c; word cs

/-- The longest beginning whose characters all have a property; it may be empty. -/
def takeWhile (p : Char → Bool) : Reader (List Char) := fun cs => some (cs.span p)

/-- The value of `p` if it succeeds; it reads nothing if it fails. -/
def optional (p : Reader α) : Reader (Option α) := fun cs =>
  match p cs with
  | some (a, rest) => some (some a, rest)
  | none => some (none, cs)

/-- Reads as often as `p` succeeds and gets further. -/
def collect (p : Reader α) (cs : List Char) : List α × List Char :=
  match p cs with
  | none => ([], cs)
  | some (a, rest) =>
    if rest.length < cs.length then
      let (as, rest) := collect p rest
      (a :: as, rest)
    else ([a], rest)
termination_by cs.length

def many (p : Reader α) : Reader (List α) := fun cs => some (collect p cs)

/-- `p`, then as many further ones as follow separators. -/
def separated (p : Reader α) (separator : Reader Unit) : Reader (List α) := do
  let a ← p
  let as ← many (do separator; p)
  return a :: as

end Reader

/-! ### Blanks, comments and line ends -/

def isBlank (c : Char) : Bool := c == ' ' || c == '\t'

/-- Tabs and all characters but controls. -/
def isPlain (c : Char) : Bool := c == '\t' || (0x20 ≤ c.toNat && c.toNat != 0x7f)

def blanks : Reader Unit := fun cs => some ((), cs.dropWhile isBlank)

def newline : Reader Unit
  | '\n' :: cs => some ((), cs)
  | '\r' :: '\n' :: cs => some ((), cs)
  | _ => none

def comment : Reader Unit
  | '#' :: cs => some ((), cs.dropWhile isPlain)
  | _ => none

/-- The end of a line, with or without a comment before it; the end of the input is one, too. -/
def lineEnd : Reader Unit := do
  blanks
  let _ ← comment.optional
  fun
    | [] => some ((), [])
    | cs => newline cs

/-- Anything between the parts of an array: blanks, line ends, and comments up to theirs. -/
def layout : Reader Unit := do
  let _ ← Reader.many fun
    | '#' :: cs => (do comment; newline : Reader Unit) ('#' :: cs)
    | c :: cs => if isBlank c then some ((), cs) else newline (c :: cs)
    | [] => none

end RouteTree.Toml
