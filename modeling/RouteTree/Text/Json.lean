/-!
# Objects of texts as JSON

The part of JSON that documentation needs, texts and objects, in its indented form: two spaces per
level, one member a line, and an object without members as a pair of braces.
-/

namespace RouteTree.Text

inductive Json where
  | string (content : String)
  | object (members : List (String × Json))
deriving Inhabited, Repr

namespace Json

/-- How a character is written between the quotes: only what has to be escaped is. -/
def escape (c : Char) : List Char :=
  match c with
  | '"' => ['\\', '"']
  | '\\' => ['\\', '\\']
  | '\n' => ['\\', 'n']
  | '\r' => ['\\', 'r']
  | '\t' => ['\\', 't']
  | '\x08' => ['\\', 'b']
  | '\x0c' => ['\\', 'f']
  | c =>
    if c.toNat < 0x20 then
      ['\\', 'u', '0', '0', Nat.digitChar (c.toNat / 16), Nat.digitChar (c.toNat % 16)]
    else [c]

def quote (s : String) : String := String.ofList ('"' :: (s.toList.flatMap escape ++ ['"']))

/-- What a line on a level begins with. -/
def margin (level : Nat) : String := String.ofList (List.replicate (2 * level) ' ')

mutual

/-- A value whose first line is begun already, on a level. -/
def renderAt (level : Nat) : Json → String
  | .string content => quote content
  | .object [] => "\x7b\x7d"
  | .object members =>
    "\x7b\n" ++ ",\n".intercalate (renderMembers (level + 1) members) ++ "\n" ++
      margin level ++ "\x7d"

def renderMembers (level : Nat) : List (String × Json) → List String
  | [] => []
  | (name, value) :: members =>
    (margin level ++ quote name ++ ": " ++ renderAt level value) :: renderMembers level members

end

def render (j : Json) : String := j.renderAt 0

end Json

end RouteTree.Text
