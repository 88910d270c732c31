import RouteTree.Settings.Basic

/-!
# Documenters

A documenter knows how documentation values become text. A value may have a substitute of its own,
found by the whole value; all others go through a general transform, if there is one. Type names may
be shown under other names, and views of some kinds are not documented at all.
-/

namespace RouteTree

/-- What takes the place of one value. -/
inductive Substitute where
  /-- A text, which is final. -/
  | text (content : String)
  /-- The value that `f` makes of it, whose parts have substitutes in turn. -/
  | transform (f : DocValue → DocValue)

structure Documenter where
  settings : Settings := {}
  /-- Substitutes of single values; of several for one value the first counts. -/
  substitutes : List (DocValue × Substitute) := []
  /-- What becomes of every value without a substitute of its own. -/
  transform : Option (DocValue → DocValue) := none
  /-- Names under which types are shown. -/
  shownNames : TextMap := ∅
  /-- Kinds whose views are not documented. -/
  skippedKinds : List Kind := []
  /-- The kind of the views that serve the documentation. -/
  servingKind : Kind := Kind.simpleView

namespace Documenter

instance : Inhabited Documenter := ⟨{}⟩

/-- Puts `r` in the place of `v` from now on. -/
def withSubstitute (d : Documenter) (v : DocValue) (r : Substitute) : Documenter :=
  { d with substitutes := (v, r) :: d.substitutes }

def withTransform (d : Documenter) (f : DocValue → DocValue) : Documenter :=
  { d with transform := some f }

def withShownName (d : Documenter) (type shown : String) : Documenter :=
  { d with shownNames := d.shownNames.insert type shown }

def skipping (d : Documenter) (kind : Kind) : Documenter :=
  { d with skippedKinds := d.skippedKinds ++ [kind] }

def withServingKind (d : Documenter) (kind : Kind) : Documenter := { d with servingKind := kind }

def substitute? (d : Documenter) (v : DocValue) : Option Substitute := d.substitutes.lookup v

/-- Are views of this handler left out? -/
def skips (d : Documenter) (view : Handler) : Bool := d.skippedKinds.any view.kind.isUnder

end Documenter

end RouteTree
