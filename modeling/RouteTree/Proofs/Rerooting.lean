import RouteTree.Proofs.Coherence

/-!
# Longer root paths

What stands before a root path stands before every route and in every error that names one, and changes
nothing else (`Tree.endpoints_append`): texts with one beginning are equal only if the rest is, so that
groups are neither joined nor split. Since leaves and defects know nothing of the root path, this is a fact
about grouping a list of endpoints of which every route has got the same beginning
(`EndpointMap.Groups.rerooted`).
-/

namespace RouteTree

/-- The endpoint with `pre` before its route. -/
def Endpoint.below (pre : String) (e : Endpoint) : Endpoint := { e with route := pre ++ e.route }

/-- The error with `pre` before the route that it names, if it names one. -/
def StructureError.below (pre : String) : StructureError → StructureError
  | .notTraversable found => .notTraversable found
  | .mixedKey found => .mixedKey found
  | .methodsOwnSubtree path => .methodsOwnSubtree (pre ++ path)
  | .tooDeep route limit => .tooDeep (pre ++ route) limit

/-- `m'` is `m` with `pre` before all routes. -/
structure EndpointMap.Rerooted (pre : String) (m m' : EndpointMap) : Prop where
  groups : m'.groups = m.groups.map fun g => (pre ++ g.1, g.2.map (.below pre))
  positions : ∀ route i, m'.positions[route]? = some i ↔
    ∃ rest, route = pre ++ rest ∧ m.positions[rest]? = some i

/-- Both visits find endpoints, or both end with an error; the second has `pre` before all routes. -/
inductive Rerooted (pre : String) : (first second : Except StructureError EndpointMap) → Prop where
  | ok {m m' : EndpointMap} : m.Rerooted pre m' → Rerooted pre (.ok m) (.ok m')
  | error (e : StructureError) : Rerooted pre (.error e) (.error (e.below pre))

theorem append_injective (pre : String) : Function.Injective (pre ++ ·) :=
  fun _ _ h => String.append_right_inj pre |>.1 h

theorem eraseDups_map {f : String → String} (hf : Function.Injective f) (l : List String) :
    (l.map f).eraseDups = l.eraseDups.map f := by
  match l with
  | [] => rfl
  | a :: l =>
    have hlt : (l.filter fun b => !b == a).length < (a :: l).length :=
      Nat.lt_succ_of_le (List.length_filter_le _ l)
    have hsame : (fun b => !f b == f a) = fun b => !b == a := by
      funext b
      rw [Bool.eq_iff_iff]
      simp [hf.eq_iff]
    rw [List.map_cons, List.eraseDups_cons, List.eraseDups_cons, List.map_cons, List.filter_map,
      ← eraseDups_map hf (l.filter _)]
    exact congrArg (fun p => f a :: ((l.filter p).map f).eraseDups) hsame
termination_by l.length
decreasing_by all_goals exact hlt

theorem routesOf_below (pre : String) (es : List Endpoint) :
    routesOf (es.map (.below pre)) = (routesOf es).map (pre ++ ·) := by
  rw [routesOf, routesOf, ← eraseDups_map (append_injective pre), List.map_map, List.map_map]
  rfl

theorem atRoute_below (pre : String) (es : List Endpoint) (route : String) :
    atRoute (es.map (.below pre)) (pre ++ route) = (atRoute es route).map (.below pre) := by
  rw [atRoute, List.filter_map, atRoute]
  refine congrArg _ (List.filter_congr fun e _ => ?_)
  rw [Bool.eq_iff_iff, Function.comp_apply, beq_iff_eq, beq_iff_eq]
  exact (append_injective pre).eq_iff

namespace EndpointMap
variable {m m' : EndpointMap} {es : List Endpoint} {pre : String}

/-- Prefixing the routes of a list prefixes those of its groups. -/
theorem Groups.rerooted (h : m.Groups es) (h' : m'.Groups (es.map (.below pre))) : m.Rerooted pre m' := by
  have hgroups : m'.groups = m.groups.map fun g => (pre ++ g.1, g.2.map (.below pre)) := by
    rw [h'.groups, h.groups, routesOf_below, List.map_map, List.map_map]
    refine List.map_congr_left fun route _ => ?_
    rw [Function.comp_apply, Function.comp_apply, atRoute_below]
  have hroutes : m'.routes = m.routes.map (pre ++ ·) := by
    rw [routes, hgroups, routes, List.map_map, List.map_map]
    rfl
  refine ⟨hgroups, fun route i => ?_⟩
  rw [h'.coherent.positions route i, hroutes, List.getElem?_map, Option.map_eq_some_iff]
  refine exists_congr fun rest => ?_
  rw [h.coherent.positions rest i, and_comm, eq_comm]

end EndpointMap

theorem Leaf.endpoint_append (r s : String) (l : Leaf) : l.endpoint (r ++ s) = (l.endpoint s).below r := by
  simp [endpoint, Endpoint.below, String.append_assoc]

theorem Defect.error_append (limit : Nat) (r s : String) (d : Defect) :
    d.error limit (r ++ s) = (d.error limit s).below r := by
  cases d <;> simp [error, StructureError.below, String.append_assoc]

namespace Tree

/-- A visit below `r ++ s` gives what one below `s` gives, with `r` before all routes. -/
theorem endpoints_append (t : Tree) (limit : Nat) (r s : String) :
    Rerooted r (t.endpoints limit s) (t.endpoints limit (r ++ s)) := by
  cases ho : t.obstacle? with
  | some found =>
    rw [endpoints_of_obstacle ho, endpoints_of_obstacle ho]
    exact .error (.notTraversable found)
  | none =>
    have hs := (obstacle?_eq_none_iff t).1 ho
    rw [endpoints_eq_outcome hs, endpoints_eq_outcome hs]
    cases t.defects limit with
    | nil =>
      have hleaves : t.leaves.map (Leaf.endpoint (r ++ s)) = (t.leaves.map (Leaf.endpoint s)).map (.below r) := by
        rw [List.map_map]
        exact List.map_congr_left fun l _ => l.endpoint_append r s
      rw [hleaves]
      exact .ok ((EndpointMap.groups_ofList _).rerooted (EndpointMap.groups_ofList _))
    | cons d rest =>
      rw [List.map_cons, List.map_cons, Defect.error_append]
      exact .error (d.error limit s)

end Tree

end RouteTree
