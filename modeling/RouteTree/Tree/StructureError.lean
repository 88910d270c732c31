import RouteTree.Tree.Basic

/-!
# What can be wrong with a tree

A tree that cannot be flattened is refused for one of four reasons. Each reason keeps what its
message names.
-/

namespace RouteTree

/-- Why a tree has no branches. -/
inductive Obstacle where
  /-- It is a handler. -/
  | handler (name : String)
  /-- It is a sequence that holds something else than a pair. -/
  | element (form : TreeForm)
deriving DecidableEq, Repr

def Obstacle.text : Obstacle → String
  | .handler name => "handler '" ++ name ++ "'"
  | .element form => "sequence containing a " ++ form.text

inductive StructureError where
  /-- The root has no branches. -/
  | notTraversable (found : Obstacle)
  /-- A sequence key mixes path fragments and request methods. -/
  | mixedKey (found : List KeyForm)
  /-- A request method stands above a sub-tree. -/
  | methodsOwnSubtree (path : String)
  /-- A branch below `route` lies deeper than the limit. -/
  | tooDeep (route : String) (limit : Nat)
deriving DecidableEq, Repr

namespace StructureError

/-- The error of methods standing at `route` above a sub-tree. -/
def ownedSubtree (route : String) (m : Methods) : StructureError :=
  .methodsOwnSubtree (route ++ "/" ++ m.label)

def message : StructureError → String
  | .notTraversable found =>
    "API tree value was not traversable: must be a mapping or a sequence of 2-length pairs, got a "
      ++ found.text
  | .mixedKey found =>
    "invalid branch route: a sequence key must hold only path components ('/something') or only "
      ++ "request methods, got (" ++ ", ".intercalate (found.map KeyForm.text) ++ ")"
  | .methodsOwnSubtree path =>
    "request-method branch routes (GET, POST, etc.) cannot have a sub-tree of routes; invalid "
      ++ "path: " ++ path
  | .tooDeep route limit =>
    "API tree nesting exceeds " ++ toString limit ++ " levels at route '" ++ route ++ "'"

end StructureError

namespace Tree

/-- The reason why a tree has no branches, if it has none. -/
def obstacle? : Tree → Option Obstacle
  | .mapping _ | .pair _ _ => none
  | .sequence items => (items.find? fun t => !t.isPair).map fun t => .element t.form
  | .leaf h => some (.handler h.name)

theorem obstacle?_eq_none_iff (t : Tree) : t.obstacle? = none ↔ t.isSubtree = true := by
  cases t <;> simp [obstacle?, isSubtree]

end Tree

end RouteTree
