import RouteTree.Handler

/-!
# API trees

A tree is a nested mapping whose keys are path fragments or request methods and whose leaves are
handlers. A sub-tree may be written as a mapping, as one pair, or as a sequence of pairs; a sequence
that holds anything but pairs stands for alternatives under one key instead (`Tree.isSubtree`).
-/

namespace RouteTree

/-- The key of a branch. -/
inductive Key where
  /-- A fragment that is appended to the route. -/
  | path (fragment : String)
  /-- The methods that the handler below answers to. -/
  | methods (m : Methods)
  /-- Several keys for one value. -/
  | any (keys : List Key)
deriving Inhabited, Repr

/-- The three forms of a key. -/
inductive KeyForm where
  | path | methods | any
deriving DecidableEq, Repr

def KeyForm.text : KeyForm → String
  | .path => "path"
  | .methods => "request method"
  | .any => "sequence"

namespace Key

def form : Key → KeyForm
  | .path _ => .path
  | .methods _ => .methods
  | .any _ => .any

def methods? : Key → Option Methods
  | .methods m => some m
  | .path _ | .any _ => none

mutual

def decEq : (a b : Key) → Decidable (a = b)
  | .path a, .path b => decidable_of_iff (a = b) (by simp)
  | .methods a, .methods b => decidable_of_iff (a = b) (by simp)
  | .any as, .any bs => have := decEqList as bs; decidable_of_iff (as = bs) (by simp)
  | .path _, .methods _ | .path _, .any _ | .methods _, .path _ | .methods _, .any _
  | .any _, .path _ | .any _, .methods _ => isFalse (by simp)

def decEqList : (as bs : List Key) → Decidable (as = bs)
  | [], [] => isTrue rfl
  | a :: as, b :: bs =>
    have := decEq a b
    have := decEqList as bs
    decidable_of_iff (a = b ∧ as = bs) (by simp)
  | [], _ :: _ | _ :: _, [] => isFalse (by simp)

end

instance : DecidableEq Key := decEq

end Key

inductive Tree where
  | mapping (entries : List (Key × Tree))
  | sequence (items : List Tree)
  | pair (key : Key) (value : Tree)
  | leaf (handler : Handler)

instance : Inhabited Tree := ⟨.mapping []⟩

/-- The four forms of a tree. -/
inductive TreeForm where
  | mapping | sequence | pair | leaf
deriving DecidableEq, Repr

def TreeForm.text : TreeForm → String
  | .mapping => "mapping"
  | .sequence => "sequence"
  | .pair => "pair"
  | .leaf => "handler"

namespace Tree

def form : Tree → TreeForm
  | .mapping _ => .mapping
  | .sequence _ => .sequence
  | .pair _ _ => .pair
  | .leaf _ => .leaf

def isPair (t : Tree) : Bool := t.form == .pair

/-- A sequence of pairs. -/
def ofPairs (entries : List (Key × Tree)) : Tree := .sequence (entries.map fun (k, v) => .pair k v)

/-- Does the tree hold branches? Every mapping and every pair does, and a sequence of nothing but
pairs, the empty one included. -/
def isSubtree : Tree → Bool
  | .mapping _ | .pair _ _ => true
  | .sequence items => items.all isPair
  | .leaf _ => false

mutual

/-- Equality of trees, handlers being compared by identity. -/
def same : Tree → Tree → Bool
  | .mapping as, .mapping bs => sameEntries as bs
  | .sequence as, .sequence bs => sameItems as bs
  | .pair k v, .pair l w => k == l && same v w
  | .leaf g, .leaf h => g == h
  | .mapping _, _ | .sequence _, _ | .pair _ _, _ | .leaf _, _ => false

def sameEntries : List (Key × Tree) → List (Key × Tree) → Bool
  | [], [] => true
  | (k, v) :: as, (l, w) :: bs => k == l && same v w && sameEntries as bs
  | [], _ :: _ | _ :: _, [] => false

def sameItems : List Tree → List Tree → Bool
  | [], [] => true
  | a :: as, b :: bs => same a b && sameItems as bs
  | [], _ :: _ | _ :: _, [] => false

end

instance : BEq Tree := ⟨same⟩

end Tree

end RouteTree
