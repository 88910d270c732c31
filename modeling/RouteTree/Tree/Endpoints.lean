import RouteTree.EndpointMap
import RouteTree.Tree.StructureError

/-!
# The endpoints of a tree

`Tree.endpoints` flattens a tree: every handler is found at the route that the fragments above it
spell, once for every way of reading the keys above it. A key is read as one or more steps
(`Key.visitSteps`), and the value of the branch is visited under each (`Tree.visit`): a sub-tree
lengthens the route, a sequence of alternatives is visited item by item under the same step.

Both recursions follow the data, the key first and then the value, and what the parts give is merged
on the way up. The first defect on the way ends the visit.
-/

namespace RouteTree

/-- One reading of a key: what it adds to the route, and the methods it asks for. -/
structure Step where
  fragment : String
  methods : Option Methods
deriving DecidableEq, Repr

namespace Key

mutual

/-- Merges what `visit` gives for each step of a key. Keys that are all methods are one step, which
asks for all of them; other sequences are taken key by key, except that fragments and methods must
not be mixed in a sequence without further sequences. -/
def visitSteps (visit : Step → Except StructureError EndpointMap) :
    Key → Except StructureError EndpointMap
  | .path fragment => visit ⟨fragment, none⟩
  | .methods m => visit ⟨"", some m⟩
  | .any keys =>
    if keys.all (·.form == .methods) then
      visit ⟨"", some (Methods.sum (keys.filterMap methods?))⟩
    else if keys.all (·.form == .path) || keys.any (·.form == .any) then do
      return EndpointMap.concat (← visitEach visit keys)
    else
      throw (.mixedKey (keys.map form))

def visitEach (visit : Step → Except StructureError EndpointMap) :
    List Key → Except StructureError (List EndpointMap)
  | [] => return []
  | key :: keys => do
    let m ← visitSteps visit key
    let ms ← visitEach visit keys
    return m :: ms

end

end Key

namespace Tree

/-- Refuses what lies deeper than `limit`; `route` is the route above it. -/
def within (limit depth : Nat) (route : String) (visit : Except StructureError EndpointMap) :
    Except StructureError EndpointMap :=
  if limit < depth then throw (.tooDeep route limit) else visit

mutual

/-- The endpoints of the value of a branch that hangs below `base` by `step` and lies `depth` levels
deep. -/
def visit (limit : Nat) :
    Tree → (base : String) → (depth : Nat) → Step → Except StructureError EndpointMap
  | .leaf h, base, _, step =>
    let route := base ++ step.fragment
    return .single ⟨route, h, h.optionsWith step.methods⟩
  | .mapping entries, base, depth, step =>
    let route := base ++ step.fragment
    match step.methods with
    | some m => throw (.ownedSubtree route m)
    | none => do return .concat (← visitEntries limit entries route (depth + 1))
  | .pair key value, base, depth, step =>
    let route := base ++ step.fragment
    match step.methods with
    | some m => throw (.ownedSubtree route m)
    | none => do
      return .concat
        [← within limit (depth + 1) route (key.visitSteps (visit limit value route (depth + 1)))]
  | .sequence items, base, depth, step =>
    let route := base ++ step.fragment
    if items.all isPair then
      match step.methods, items with
      | some m, _ :: _ => throw (.ownedSubtree route m)
      | _, _ => do return .concat (← visitPairs limit items route (depth + 1))
    else do
      return .concat (← visitAlternatives limit items base (depth + 1) step)

/-- The endpoints of each branch of a mapping. -/
def visitEntries (limit : Nat) :
    List (Key × Tree) → (route : String) → (depth : Nat) → Except StructureError (List EndpointMap)
  | [], _, _ => return []
  | (key, value) :: entries, route, depth => do
    let m ← within limit depth route (key.visitSteps (visit limit value route depth))
    let ms ← visitEntries limit entries route depth
    return m :: ms

/-- The endpoints of each branch of a sequence of pairs. -/
def visitPairs (limit : Nat) :
    List Tree → (route : String) → (depth : Nat) → Except StructureError (List EndpointMap)
  | .pair key value :: items, route, depth => do
    let m ← within limit depth route (key.visitSteps (visit limit value route depth))
    let ms ← visitPairs limit items route depth
    return m :: ms
  | _, _, _ => return []

/-- The endpoints of each of several alternatives below one step. -/
def visitAlternatives (limit : Nat) :
    List Tree → (base : String) → (depth : Nat) → Step → Except StructureError (List EndpointMap)
  | [], _, _, _ => return []
  | item :: items, base, depth, step => do
    let m ← within limit depth base (visit limit item base depth step)
    let ms ← visitAlternatives limit items base depth step
    return m :: ms

end

/-- The depth limit where none is given. -/
def defaultMaxDepth : Nat := 64

/-- The endpoints of a tree whose routes begin with `root`, branches being allowed `limit` levels.
-/
def endpoints (limit : Nat) (t : Tree) (root : String) : Except StructureError EndpointMap :=
  match t.obstacle? with
  | some found => throw (.notTraversable found)
  | none => t.visit limit root 0 ⟨"", none⟩

end Tree

end RouteTree
