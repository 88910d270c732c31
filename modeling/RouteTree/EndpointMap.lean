import RouteTree.Handler

/-!
# Endpoints grouped by route

An `EndpointMap` keeps endpoints under their routes: the routes in the order of their first
appearance, the endpoints of a route in the order they came. The position of every route is kept
beside the groups, so that a route is found without a search.
-/

namespace RouteTree

/-- A handler at a route, with its registration options there. -/
structure Endpoint where
  route : String
  view : Handler
  options : ViewOptions
deriving BEq

structure EndpointMap where
  groups : List (String × List Endpoint)
  /-- The position in `groups` of every route. -/
  positions : Std.ExtTreeMap String Nat
deriving BEq

namespace EndpointMap

def empty : EndpointMap := ⟨[], ∅⟩

instance : Inhabited EndpointMap := ⟨empty⟩

/-- Appends endpoints to the group of a route, which is opened at the end if there is none yet. -/
def extend (m : EndpointMap) (route : String) (endpoints : List Endpoint) : EndpointMap :=
  match m.positions[route]? with
  | some i => { m with groups := m.groups.modify i fun (r, es) => (r, es ++ endpoints) }
  | none =>
    { groups := m.groups ++ [(route, endpoints)]
      positions := m.positions.insert route m.groups.length }

def push (m : EndpointMap) (e : Endpoint) : EndpointMap := m.extend e.route [e]

def single (e : Endpoint) : EndpointMap := empty.push e

/-- The endpoints of `m`, then those of `other`, group by group. -/
def merge (m other : EndpointMap) : EndpointMap :=
  other.groups.foldl (fun m (route, endpoints) => m.extend route endpoints) m

/-- Pushes endpoints one by one onto the empty map. -/
def ofList (es : List Endpoint) : EndpointMap := es.foldl push empty

/-- Merges maps in order. -/
def concat (ms : List EndpointMap) : EndpointMap := ms.foldl merge empty

def get? (m : EndpointMap) (route : String) : Option (List Endpoint) :=
  m.positions[route]?.bind fun i => m.groups[i]?.map (·.2)

def containsRoute (m : EndpointMap) (route : String) : Bool := m.positions.contains route

/-- The routes in the order of their first appearance. -/
def routes (m : EndpointMap) : List String := m.groups.map (·.1)

/-- All endpoints, route by route. -/
def toList (m : EndpointMap) : List Endpoint := m.groups.flatMap (·.2)

/-- The number of routes. -/
def size (m : EndpointMap) : Nat := m.groups.length

def isEmpty (m : EndpointMap) : Bool := m.groups.isEmpty

def endpointCount (m : EndpointMap) : Nat := m.groups.foldl (fun n (_, es) => n + es.length) 0

end EndpointMap

end RouteTree
