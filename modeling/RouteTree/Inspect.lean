import RouteTree.Documentation.Documenter
import RouteTree.Text.Quoted

/-!
# Values for inspection

One-line texts of handlers and what belongs to them, for logs. Functions are not shown, and of a
handler only what tells it from others: its name, its kind and its options.
-/

namespace RouteTree

namespace Inspect

/-- A name with named fields. -/
def record (name : String) (fields : List (String × String)) : String :=
  let shown := fields.map fun (field, value) => field ++ ": " ++ value
  name ++ " \x7b " ++ ", ".intercalate shown ++ " \x7d"

/-- A name with one argument. -/
def applied (name argument : String) : String := name ++ "(" ++ argument ++ ")"

def option {α : Type} (inspect : α → String) : Option α → String
  | none => "None"
  | some a => applied "Some" (inspect a)

def list {α : Type} (inspect : α → String) (as : List α) : String :=
  "[" ++ ", ".intercalate (as.map inspect) ++ "]"

def textMap (m : TextMap) : String :=
  let shown := m.toList.map fun (key, value) => Text.quoted key ++ ": " ++ Text.quoted value
  "\x7b" ++ ", ".intercalate shown ++ "\x7d"

end Inspect

open Inspect

def Methods.inspect (m : Methods) : String :=
  record "RequestMethod" [("methods", list Text.quoted m.tokens)]

def Kind.inspect (k : Kind) : String := k.name

def Guard.inspect (g : Guard) : String := applied "CustomPredicate" (Text.quoted g.name)

def ViewOptions.inspect (o : ViewOptions) : String :=
  record "ViewKwargs" [
    ("request_method", option Methods.inspect o.methods),
    ("custom_predicates", option (list Guard.inspect) o.guards),
    ("accept", option Text.quoted o.accept),
    ("renderer", option Text.quoted o.renderer),
    ("extra", textMap o.extra)]

def Handler.inspect (h : Handler) : String :=
  record "Handler" [
    ("name", Text.quoted h.name),
    ("kind", h.kind.inspect),
    ("view_kwargs", option ViewOptions.inspect h.options)]

def Substitute.inspect : Substitute → String
  | .text content => applied "Text" (Text.quoted content)
  | .transform _ => applied "With" ".."

end RouteTree
