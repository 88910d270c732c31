import RouteTree.Methods
import RouteTree.Tree.Endpoints

/-!
# Settings

What can be configured, with the values it has where nothing is.
-/

namespace RouteTree

structure DocumentationSettings where
  /-- What a line of a nested list or map is indented by. -/
  indent : String := "    "
  /-- The media type that a client accepts to be shown the JSON view. -/
  jsonAccept : String := "application/json"
  /-- The renderer of the JSON view. -/
  jsonRenderer : String := "json"
deriving DecidableEq, Repr

structure Settings where
  /-- The methods of a view that specifies none. -/
  requestMethods : List String := Methods.standard.tokens
  /-- How many levels of branches a tree may have. -/
  maxDepth : Nat := Tree.defaultMaxDepth
  documentation : DocumentationSettings := {}
deriving DecidableEq, Repr

namespace Settings

instance : Inhabited Settings := ⟨{}⟩

def defaultMethods (s : Settings) : Methods := ⟨s.requestMethods⟩

/-- The endpoints of a tree, within the depth that the settings allow. -/
def endpoints (s : Settings) (t : Tree) (root : String) : Except StructureError EndpointMap :=
  t.endpoints s.maxDepth root

end Settings

end RouteTree
