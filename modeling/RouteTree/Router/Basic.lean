import RouteTree.Handler

/-!
# Routers

A router is told which routes there are and which views hang off them; it may refuse either, and
whatever it answers, its state may have changed. Nothing else is assumed of a router here: its state
is a type parameter.
-/

namespace RouteTree

/-- Why a router refuses a call. -/
inductive Refusal where
  | unknownRoute (name : String)
  /-- A view that answers the same requests is there already. -/
  | duplicateView (route predicates : String)
  | rejected (reason : String)
deriving DecidableEq, Repr

def Refusal.message : Refusal → String
  | .unknownRoute name => "no route named '" ++ name ++ "' has been added"
  | .duplicateView route predicates =>
    "a view with route '" ++ route ++ "' and predicates " ++ predicates ++ " has already been added"
  | .rejected reason => "router rejected registration: " ++ reason

/-- A router with states of type `σ`. -/
structure Router (σ : Type) where
  addRoute (name pattern : String) : EStateM Refusal σ Unit
  addView (route : String) (view : Handler) (options : ViewOptions) : EStateM Refusal σ Unit

end RouteTree
