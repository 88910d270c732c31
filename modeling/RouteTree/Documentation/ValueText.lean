import RouteTree.Documentation.Documenter
import RouteTree.Router.Service
import RouteTree.Text.Lines

/-!
# The text of a documentation value

A value is first replaced, by its substitute or by the general transform, and the result is laid
out: a scalar on one line, a list or a map between brackets with an item a line and everything
inside indented. What is inside gets its text in the same way.

Since every level is replaced first, nothing in the value itself bounds the recursion, and with a
transform that puts every value into another one it never ends. So `valueText` is partial: it is
`none` where replacing does not come to an end.
-/

namespace RouteTree

/-- Work on texts. It ends with a result or with an error, or it never ends and gives `none`. -/
abbrev TextM := ExceptT TextError Option

namespace Documenter

/-- Lines between two brackets, each on a line of its own. -/
def enclosed (opening : String) (lines : List String) (closing : String) : String :=
  "\n".intercalate (opening :: (lines ++ [closing]))

def indented (d : Documenter) (s : String) : String :=
  Text.indentLines d.settings.documentation.indent s

/-- The name under which a type is shown. -/
def shown (d : Documenter) (name : String) : String := d.shownNames.getD name name

/-- What takes the place of a value: a text, which is final, or a value whose parts are replaced in
turn. -/
def replaced (d : Documenter) (v : DocValue) : String ⊕ DocValue :=
  match d.substitute? v with
  | some (.text content) => .inl content
  | some (.transform f) => .inr (f v)
  | none => .inr (d.transform.elim v (· v))

/-- Lays out a value whose parts have the texts `texts`. -/
def assemble (d : Documenter) : DocValue → (texts : List String) → TextM String
  | .type name, _ => return d.shown name
  | .text content, _ => return content
  | .flag on, _ => return if on then "true" else "false"
  | .list _, texts => return enclosed "[" (texts.map d.indented) "]"
  | .map entries, texts =>
    let lines := entries.zipWith (fun entry text => d.indented (entry.1 ++ ": " ++ text)) texts
    return enclosed "\x7b" lines "\x7d"
  | .listOf inner, texts =>
    let text := String.join texts
    if inner.isBlock then return "ListOf(\n" ++ d.indented text ++ "\n)"
    else return "ListOf(" ++ text ++ ")"
  | .value typeName, _ => throw (.noText typeName)

/-- The text of a value. -/
def valueText (d : Documenter) (v : DocValue) : Option (Except TextError String) :=
  match d.replaced v with
  | .inl content => some (.ok content)
  | .inr w => ExceptT.run do
    let texts ← w.parts.mapM (m := TextM) fun part => d |>.valueText part
    d.assemble w texts
partial_fixpoint

section
variable {d : Documenter} {v w : DocValue}

theorem valueText_of_text {content : String} (h : d.replaced v = .inl content) :
    d.valueText v = some (.ok content) := by
  rw [valueText, h]

theorem valueText_of_value (h : d.replaced v = .inr w) :
    d.valueText v = (w.parts.mapM (m := TextM) d.valueText >>= d.assemble w).run := by
  rw [valueText, h]

end

end Documenter

end RouteTree
