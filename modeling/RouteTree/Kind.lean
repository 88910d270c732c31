/-!
# Handler kinds

A kind has a name, which need not be its own, and an identity, which is: every kind declared from a
`KindSupply` gets a fresh serial number. A kind knows its lineage, itself and then its ancestors
with the nearest first, and `isUnder` asks for a kind in that lineage.
-/

namespace RouteTree

/-- One member of a lineage. The serial number alone tells two of them apart. -/
structure KindTag where
  serial : Nat
  name : String
deriving DecidableEq, Inhabited, Repr

/-- A handler kind with its ancestors, the nearest first. -/
structure Kind where
  tag : KindTag
  ancestors : List KindTag
deriving Inhabited, Repr

namespace Kind

def serial (k : Kind) : Nat := k.tag.serial

def name (k : Kind) : String := k.tag.name

/-- The kind itself, then its ancestors. -/
def lineage (k : Kind) : List KindTag := k.tag :: k.ancestors

/-- The kind that `k` was declared to extend. -/
def parent? (k : Kind) : Option Kind :=
  match k.ancestors with
  | [] => none
  | tag :: ancestors => some ⟨tag, ancestors⟩

def isSame (k other : Kind) : Bool := k.serial == other.serial

/-- Is `other` the kind `k` or one of its ancestors? -/
def isUnder (k other : Kind) : Bool := k.lineage.any fun tag => tag.serial == other.serial

/-- Kinds are compared by identity. -/
instance : BEq Kind := ⟨isSame⟩

def baseView : Kind := ⟨⟨0, "BaseView"⟩, []⟩

def simpleView : Kind := ⟨⟨1, "SimpleView"⟩, baseView.lineage⟩

def functionView : Kind := ⟨⟨2, "FunctionView"⟩, baseView.lineage⟩

def apiView : Kind := ⟨⟨3, "ApiView"⟩, functionView.lineage⟩

end Kind

/-- Hands out kinds with fresh identities: all serial numbers below `issued` are taken. -/
structure KindSupply where
  issued : Nat
deriving Repr

namespace KindSupply

/-- Only the four built-in kinds have been declared. -/
def initial : KindSupply := ⟨4⟩

/-- A new kind, below `parent?` if there is one. -/
def declare (s : KindSupply) (name : String) (parent? : Option Kind) : Kind × KindSupply :=
  (⟨⟨s.issued, name⟩, parent?.elim [] Kind.lineage⟩, ⟨s.issued + 1⟩)

end KindSupply

end RouteTree
