/-!
# Outlines

A tree of labels, drawn one label a line with branches that lead to it. A label with several lines
is drawn as it is.
-/

namespace RouteTree.Text

inductive Outline where
  | node (label : String) (children : List Outline)
deriving Inhabited, Repr

namespace Outline

mutual

/-- The lines of a node that hangs below others; `lead` stands before its branch, and `last` says
whether it is the last of its siblings. -/
def branch (lead : String) (last : Bool) : Outline → List String
  | .node label children =>
    (lead ++ (if last then "└── " else "├── ") ++ label) ::
      branches (lead ++ (if last then "    " else "│   ")) children

def branches (lead : String) : List Outline → List String
  | [] => []
  | t :: ts => branch lead ts.isEmpty t ++ branches lead ts

end

/-- The drawing, every line of which is ended. -/
def render : Outline → String
  | .node label children => String.join ((label :: branches "" children).map (· ++ "\n"))

end Outline

end RouteTree.Text
