import RouteTree.Router.Service
import RouteTree.Settings.Basic

/-!
# Catchall views

A catchall stands behind the other views of a route. It answers to all the methods that they answer
to, and it always has a guard, so that it does not collide with a view that has none. Its options
are laid over each other in three layers: what the route needs, the options given for this catchall
or else its handler's own, and additional ones.
-/

namespace RouteTree

/-- Where and how a catchall is registered. -/
structure Catchall where
  /-- What the routes of the tree begin with. -/
  root : String := ""
  /-- Options that replace those of the handler, if they specify anything. -/
  options : Option ViewOptions := none
  /-- Options that are laid over all others. -/
  additional : ViewOptions := {}
  /-- The kinds of views whose routes get the catchall; every route does if there are none. -/
  targetKinds : List Kind := []
  /-- Must a view be of a target kind itself, rather than of one below it? -/
  strict : Bool := false

namespace Catchall

instance : Inhabited Catchall := ⟨{}⟩

/-- The name of the guard of a catchall whose handler has none. -/
def guardName : String := "catchall"

def targets (c : Catchall) (view : Handler) : Bool :=
  c.targetKinds.isEmpty ||
    c.targetKinds.any fun kind => if c.strict then view.kind.isSame kind else view.kind.isUnder kind

/-- All methods that the views of a route answer to, each once, in the order of their first mention.
-/
def coveredMethods (standard : Methods) (endpoints : List Endpoint) : Methods :=
  ⟨(endpoints.flatMap fun e => (e.options.methodsOr standard).tokens).eraseDups⟩

/-- The options that a catchall needs on a route, before anything is laid over them. -/
def baseOptions (standard : Methods) (handler : Handler) (endpoints : List Endpoint) :
    ViewOptions :=
  let union := coveredMethods standard endpoints
  { guards := some [handler.catchallGuard.getD (.always guardName)]
    methods := if union.isEmpty then none else some union }

/-- The options between the base and the additional ones: those given, unless they are empty, and
otherwise the handler's own. -/
def middleOptions (c : Catchall) (handler : Handler) : ViewOptions :=
  match c.options with
  | some given => if given.isEmpty then handler.options.getD {} else given
  | none => handler.options.getD {}

/-- The options of a catchall on a route with these endpoints. -/
def optionsOn (c : Catchall) (standard : Methods) (handler : Handler) (endpoints : List Endpoint) :
    ViewOptions :=
  ((baseOptions standard handler endpoints).update (c.middleOptions handler)).update c.additional

/-- Registers a catchall on every targeted route of `m`. -/
def register {σ : Type} (c : Catchall) (standard : Methods) (r : Router σ) (handler : Handler)
    (m : EndpointMap) : EStateM Refusal σ Unit :=
  m.groups.forM fun (route, endpoints) => do
    if endpoints.any fun e => c.targets e.view then
      r.addView route handler (c.optionsOn standard handler endpoints)

end Catchall

/-- Registers a catchall on the targeted routes of a tree. -/
def Settings.registerCatchall {σ : Type} (s : Settings) (r : Router σ) (t : Tree)
    (handler : Handler) (c : Catchall) : Service σ Unit := do
  let m ← .ofExcept .tree (s.endpoints t c.root)
  .ofRouter (c.register s.defaultMethods r handler m)

end RouteTree
