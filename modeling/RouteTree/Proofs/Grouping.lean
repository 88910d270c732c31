import RouteTree.Proofs.Positions

/-!
# Grouping endpoints by route

`EndpointMap.Groups m es` says that `m` is the list `es` grouped by route: the routes stand in the
order of their first appearance in `es`, and under each stand its endpoints in the order of `es`.
This determines `m`. Pushing endpoints one by one groups their list (`groups_ofList`), and although a
merge moves whole groups and has forgotten how the routes of its second map were interleaved, it
groups the two lists one after the other (`Groups.merge`).

`EndpointMap.Lists m routes group` is the common form of these facts, for any list of routes and any
group under each.
-/

namespace RouteTree

/-- The routes of `es` in the order of their first appearance. -/
def routesOf (es : List Endpoint) : List String := (es.map (·.route)).eraseDups

/-- The endpoints of `es` at one route. -/
def atRoute (es : List Endpoint) (route : String) : List Endpoint := es.filter (·.route == route)

section
variable {es es' : List Endpoint} {route : String}

theorem atRoute_append : atRoute (es ++ es') route = atRoute es route ++ atRoute es' route :=
  List.filter_append ..

theorem eraseDups_filter (p : String → Bool) (l : List String) :
    (l.filter p).eraseDups = l.eraseDups.filter p := by
  match l with
  | [] => rfl
  | a :: l =>
    have hlt : (l.filter fun b => !b == a).length < (a :: l).length :=
      Nat.lt_succ_of_le (List.length_filter_le _ l)
    by_cases ha : p a = true
    · rw [List.filter_cons_of_pos ha, List.eraseDups_cons, List.eraseDups_cons,
        List.filter_cons_of_pos ha, ← eraseDups_filter p (l.filter _), List.filter_comm]
    · rw [List.filter_cons_of_neg ha, List.eraseDups_cons, List.filter_cons_of_neg ha,
        ← eraseDups_filter p (l.filter _), List.filter_comm]
      refine congrArg _ (List.filter_eq_self.2 fun b hb => ?_).symm
      have hb' := (List.mem_filter.1 hb).2
      simp only [Bool.not_eq_true', beq_eq_false_iff_ne]
      rintro rfl
      exact ha hb'
termination_by l.length
decreasing_by all_goals exact hlt

theorem routesOf_append :
    routesOf (es ++ es') = routesOf es ++ (routesOf es').filter fun route => route ∉ routesOf es := by
  rw [routesOf, List.map_append, List.eraseDups_append, List.removeAll, eraseDups_filter]
  refine congrArg _ (List.filter_congr fun route _ => ?_)
  simp only [routesOf, List.mem_eraseDups, List.elem_eq_mem, decide_not]

end

namespace EndpointMap

/-- `m` lists `routes` in this order, each with its `group`; elsewhere `group` is empty. -/
structure Lists (m : EndpointMap) (routes : List String) (group : String → List Endpoint) : Prop where
  groups : m.groups = routes.map fun route => (route, group route)
  positions : Indexes m.positions routes
  outside : ∀ route ∉ routes, group route = []

/-- `m` is `es` grouped by route. -/
def Groups (m : EndpointMap) (es : List Endpoint) : Prop := m.Lists (routesOf es) (atRoute es)

variable {m m' : EndpointMap} {routes routes' : List String} {group group' : String → List Endpoint}

theorem Lists.unique (h : m.Lists routes group) (h' : m'.Lists routes group) : m = m' := by
  obtain ⟨groups, positions⟩ := m
  obtain ⟨groups', positions'⟩ := m'
  obtain rfl : groups = groups' := h.groups.trans h'.groups.symm
  obtain rfl : positions = positions' := h.positions.unique h'.positions
  rfl

theorem Lists.congr (h : m.Lists routes group) (hr : routes = routes')
    (hg : ∀ route, group route = group' route) : m.Lists routes' group' := by
  obtain rfl : group = group' := funext hg
  exact hr ▸ h

/-- A known route keeps its place and its group grows; a new one goes to the end. -/
theorem Lists.extend (h : m.Lists routes group) (route : String) (new : List Endpoint) :
    (m.extend route new).Lists (if route ∈ routes then routes else routes ++ [route])
      (fun other => if other = route then group other ++ new else group other) := by
  unfold EndpointMap.extend
  split
  · rename_i i hi
    have hmem : route ∈ routes := h.positions.exists_iff.1 ⟨i, hi⟩
    have hkeys : m.groups.map Prod.fst = routes := by
      rw [h.groups, List.map_map]
      exact List.map_id _
    have hmod := modify_eq_map Prod.fst (fun g : String × List Endpoint => (g.1, g.2 ++ new))
      (hkeys ▸ h.positions.nodup) (hkeys ▸ (h.positions route i).1 hi)
    rw [if_pos hmem]
    refine ⟨?_, h.positions, fun other ho => ?_⟩
    · show m.groups.modify i _ = _
      rw [hmod, h.groups, List.map_map]
      refine List.map_congr_left fun other _ => ?_
      simp only [Function.comp_apply]
      split <;> rfl
    · rw [if_neg (fun hor : other = route => ho (hor ▸ hmem))]
      exact h.outside other ho
  · rename_i hnone
    have hmem : route ∉ routes := h.positions.eq_none_iff.1 hnone
    have hlen : m.groups.length = routes.length := by rw [h.groups, List.length_map]
    rw [if_neg hmem]
    refine ⟨?_, ?_, fun other ho => ?_⟩
    · show m.groups ++ [(route, new)] = _
      rw [List.map_append, h.groups, List.map_singleton, if_pos rfl, h.outside route hmem]
      refine congrArg (· ++ [(route, new)]) (List.map_congr_left fun other ho => ?_)
      rw [if_neg (fun hor : other = route => hmem (hor ▸ ho))]
    · show Indexes (m.positions.insert route m.groups.length) _
      rw [hlen]
      exact h.positions.snoc hmem
    · simp only [List.mem_append, List.mem_singleton, not_or] at ho
      rw [if_neg ho.2]
      exact h.outside other ho.1

theorem Lists.extendAll (h : m.Lists routes group) {added : List String} (ha : added.Nodup) :
    ((added.map fun route => (route, group' route)).foldl
        (fun m (g : String × List Endpoint) => m.extend g.1 g.2) m).Lists
      (routes ++ added.filter fun route => route ∉ routes)
      (fun route => if route ∈ added then group route ++ group' route else group route) := by
  -- a route comes once only, so that what is added later leaves its group alone
  induction added generalizing m routes group with
  | nil => exact h.congr (by simp) (by simp)
  | cons route added ih =>
    obtain ⟨hra, ha⟩ := List.nodup_cons.1 ha
    refine (ih (h.extend route (group' route)) ha).congr ?_ fun other => ?_
    · by_cases hr : route ∈ routes
      · simp [hr]
      · have hne : ∀ other ∈ added, other ≠ route := fun other ho hor => hra (hor ▸ ho)
        rw [if_neg hr, List.filter_cons_of_pos (by simpa using hr), List.append_assoc]
        refine congrArg _ (congrArg _ (List.filter_congr fun other ho => ?_))
        simp [hne other ho]
    · by_cases ho : other = route
      · subst ho
        simp [hra]
      · simp [ho]

theorem Lists.merge (h : m.Lists routes group) (h' : m'.Lists routes' group') :
    (m.merge m').Lists (routes ++ routes'.filter fun route => route ∉ routes)
      (fun route => group route ++ group' route) := by
  rw [EndpointMap.merge, h'.groups]
  refine (h.extendAll h'.positions.nodup).congr rfl fun route => ?_
  split
  · rfl
  · rw [h'.outside route ‹_›, List.append_nil]

variable {es es' : List Endpoint}

theorem Groups.unique (h : m.Groups es) (h' : m'.Groups es) : m = m' := Lists.unique h h'

theorem Groups.empty : EndpointMap.empty.Groups [] := ⟨rfl, Indexes.empty, fun _ _ => rfl⟩

theorem Groups.push (h : m.Groups es) (e : Endpoint) : (m.push e).Groups (es ++ [e]) := by
  refine (Lists.extend h e.route [e]).congr ?_ fun route => ?_
  · have hone : routesOf [e] = [e.route] := by simp [routesOf, List.eraseDups_cons]
    rw [routesOf_append, hone]
    split <;> simp [*]
  · rw [atRoute_append]
    split
    · rename_i hr
      simp [atRoute, hr]
    · rename_i hr
      simp [atRoute, Ne.symm hr]

theorem Groups.merge (h : m.Groups es) (h' : m'.Groups es') : (m.merge m').Groups (es ++ es') :=
  (Lists.merge h h').congr routesOf_append.symm fun _ => atRoute_append.symm

theorem Groups.foldl_push (h : m.Groups es) (added : List Endpoint) :
    (added.foldl EndpointMap.push m).Groups (es ++ added) := by
  induction added generalizing m es with
  | nil => simpa using h
  | cons e added ih =>
    rw [List.foldl_cons]
    simpa using ih (h.push e)

theorem groups_ofList (es : List Endpoint) : (ofList es).Groups es :=
  Groups.empty.foldl_push es

theorem Groups.eq_ofList (h : m.Groups es) : m = ofList es := h.unique (groups_ofList es)

theorem merge_ofList (es es' : List Endpoint) : (ofList es).merge (ofList es') = ofList (es ++ es') :=
  ((groups_ofList es).merge (groups_ofList es')).eq_ofList

theorem concat_map_ofList (lists : List (List Endpoint)) :
    concat (lists.map ofList) = ofList lists.flatten := by
  suffices h : ∀ es, (lists.map ofList).foldl EndpointMap.merge (ofList es) = ofList (es ++ lists.flatten) from
    h []
  induction lists with
  | nil => simp
  | cons l lists ih =>
    intro es
    rw [List.map_cons, List.foldl_cons, merge_ofList, ih, List.flatten_cons, List.append_assoc]

end EndpointMap

end RouteTree
