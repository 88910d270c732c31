import RouteTree.Router.Basic
import RouteTree.Tree.StructureError

/-!
# What can go wrong in a service

A service fails with its tree, with a documentation value, or with its router, and passes their
reason on unchanged.
-/

namespace RouteTree

/-- Why a documentation value has no text. -/
inductive TextError where
  /-- A value without textual form is left where all are replaced. -/
  | noText (typeName : String)
deriving DecidableEq, Repr

def TextError.message : TextError → String
  | .noText typeName => "documentation value must reduce to a string; got a " ++ typeName

inductive ServiceError where
  | tree (e : StructureError)
  | text (e : TextError)
  | router (e : Refusal)
deriving DecidableEq, Repr

def ServiceError.message : ServiceError → String
  | .tree e => e.message
  | .text e => e.message
  | .router e => e.message

/-- What a service does with a router whose states are of type `σ`. -/
abbrev Service (σ α : Type) := EStateM ServiceError σ α

namespace Service

variable {σ α ε : Type}

/-- A result that does not concern the router. -/
def ofExcept (cause : ε → ServiceError) : Except ε α → Service σ α
  | .ok a => pure a
  | .error e => throw (cause e)

/-- Calls of a router, whose refusals are passed on. -/
def ofRouter (calls : EStateM Refusal σ α) : Service σ α := calls.adaptExcept .router

end Service

end RouteTree
