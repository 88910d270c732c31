import RouteTree.Kind
import RouteTree.ViewOptions
import RouteTree.DocValue

/-!
# Handlers

A handler is a function from view arguments to a response, together with everything that travels
with it wherever it stands in a tree: its kind, its registration options, and what it says about
itself for the documentation. Two handlers are the same when their serial numbers are, whatever else
they share.
-/

namespace RouteTree

structure Handler where
  serial : Nat
  name : String
  call : CallArgs → String
  kind : Kind := Kind.simpleView
  options : Option ViewOptions := none
  /-- The guard of this handler where it is registered as a catchall. -/
  catchallGuard : Option Guard := none
  description : Option String := none
  io : Declarations := {}
  /-- Names that are supplied by the framework and so are left out of the documented inputs. -/
  suppliedNames : List String := []

namespace Handler

/-- Handlers are compared by identity. -/
instance : BEq Handler := ⟨fun a b => a.serial == b.serial⟩

/-- The options of the handler for a branch: its own ones, with the branch's methods if it has any.
-/
def optionsWith (h : Handler) (methods : Option Methods) : ViewOptions :=
  let own := h.options.getD {}
  { own with methods := methods.or own.methods }

end Handler

end RouteTree
