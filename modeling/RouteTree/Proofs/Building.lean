import RouteTree.Proofs.Grouping

/-!
# Maps that come out of the operations

`EndpointMap.Built` are the maps that can be had by the operations on endpoint maps, used in any way.
Each of them is some list of endpoints grouped by route (`Built.exists_groups`), so that merging is
appending lists up to grouping. How the routes were interleaved in the list is forgotten, but this does
not matter: to merge a map is to push its endpoints in the order that they have there
(`Lists.merge_eq_foldl_push`), because pushing the endpoints of a group one by one extends the group at
once (`Lists.foldl_push`).
-/

namespace RouteTree.EndpointMap

/-- `m` is what some operations on endpoint maps give. -/
inductive Built : EndpointMap → Prop
  | empty : Built .empty
  | single (e : Endpoint) : Built (.single e)
  | push {m : EndpointMap} (e : Endpoint) : Built m → Built (m.push e)
  | merge {m m' : EndpointMap} : Built m → Built m' → Built (m.merge m')
  | concat {ms : List EndpointMap} : (∀ m ∈ ms, Built m) → Built (.concat ms)

variable {m m' a b c : EndpointMap} {es es' : List Endpoint} {routes : List String}
  {group : String → List Endpoint} {route : String}

theorem exists_map_ofList {ms : List EndpointMap} (h : ∀ m ∈ ms, ∃ es, m.Groups es) :
    ∃ lists : List (List Endpoint), ms = lists.map ofList := by
  induction ms with
  | nil => exact ⟨[], rfl⟩
  | cons m ms ih =>
    obtain ⟨es, hes⟩ := h m (List.mem_cons_self ..)
    obtain ⟨lists, hlists⟩ := ih fun m hm => h m (List.mem_cons_of_mem _ hm)
    exact ⟨es :: lists, by rw [List.map_cons, hes.eq_ofList, hlists]⟩

theorem Built.exists_groups (h : m.Built) : ∃ es, m.Groups es := by
  induction h with
  | empty => exact ⟨[], .empty⟩
  | single e => exact ⟨[e], Groups.empty.push e⟩
  | push e _ ih =>
    obtain ⟨es, hes⟩ := ih
    exact ⟨es ++ [e], hes.push e⟩
  | merge _ _ ih ih' =>
    obtain ⟨es, hes⟩ := ih
    obtain ⟨es', hes'⟩ := ih'
    exact ⟨es ++ es', hes.merge hes'⟩
  | concat _ ih =>
    obtain ⟨lists, rfl⟩ := exists_map_ofList ih
    exact ⟨lists.flatten, concat_map_ofList lists ▸ groups_ofList _⟩

theorem built_ofList (es : List Endpoint) : (ofList es).Built := by
  suffices h : ∀ m : EndpointMap, m.Built → (es.foldl EndpointMap.push m).Built from h _ .empty
  induction es with
  | nil => exact fun _ hm => hm
  | cons e es ih => exact fun m hm => ih _ (.push e hm)

/-! ### Endpoints pushed one by one -/

theorem Lists.extend_extend (h : m.Lists routes group) (route : String) (es es' : List Endpoint) :
    (m.extend route es).extend route es' = m.extend route (es ++ es') := by
  have hmem : route ∈ if route ∈ routes then routes else routes ++ [route] := by
    split
    · assumption
    · exact List.mem_append_right _ (List.mem_singleton_self route)
  -- both sides list the same routes with the same groups, and these determine a map
  refine ((h.extend route es).extend route es').unique
    ((h.extend route (es ++ es')).congr ?_ fun other => ?_)
  · rw [if_pos hmem]
  · by_cases ho : other = route <;> simp [ho]

/-- Endpoints of one route, pushed one by one, extend its group at once. -/
theorem Lists.foldl_push (h : m.Lists routes group) (hes : es ≠ [])
    (hroute : ∀ e ∈ es, e.route = route) :
    es.foldl push m = m.extend route es := by
  induction es generalizing m routes group with
  | nil => exact absurd rfl hes
  | cons e es ih =>
    have he : m.push e = m.extend route [e] := by rw [push, hroute e (List.mem_cons_self ..)]
    rw [List.foldl_cons, he]
    by_cases hnil : es = []
    · rw [hnil]; rfl
    · rw [ih (h.extend route [e]) hnil fun e he => hroute e (List.mem_cons_of_mem _ he), h.extend_extend]
      rfl

theorem mem_routesOf : route ∈ routesOf es ↔ ∃ e ∈ es, e.route = route := by
  rw [routesOf, List.mem_eraseDups, List.mem_map]

theorem route_of_mem_atRoute {e : Endpoint} (he : e ∈ atRoute es route) : e.route = route :=
  beq_iff_eq.1 (List.mem_filter.1 he).2

theorem Groups.map_fst (h : m.Groups es) : m.groups.map Prod.fst = routesOf es := by
  rw [h.groups, List.map_map]
  exact List.map_id _

theorem Groups.routes_nodup (h : m.Groups es) : (m.groups.map Prod.fst).Nodup := by
  rw [h.map_fst]
  exact h.positions.nodup

/-- There is something in every group, and it belongs there. -/
theorem Groups.of_mem (h : m.Groups es) {g : String × List Endpoint} (hg : g ∈ m.groups) :
    g.2 ≠ [] ∧ ∀ e ∈ g.2, e.route = g.1 := by
  rw [h.groups] at hg
  obtain ⟨route, hr, rfl⟩ := List.mem_map.1 hg
  obtain ⟨e, he, her⟩ := mem_routesOf.1 hr
  have hmem : e ∈ atRoute es route := List.mem_filter.2 ⟨he, beq_iff_eq.2 her⟩
  exact ⟨List.ne_nil_of_mem hmem, fun e he => route_of_mem_atRoute he⟩

theorem Groups.mem_of_mem (h : m.Groups es) {g : String × List Endpoint} {e : Endpoint}
    (hg : g ∈ m.groups) (he : e ∈ g.2) : e ∈ es := by
  rw [h.groups] at hg
  obtain ⟨route, -, rfl⟩ := List.mem_map.1 hg
  exact (List.mem_filter.1 he).1

theorem Lists.merge_eq_foldl_push (h : m.Lists routes group) (h' : m'.Groups es) :
    m.merge m' = m'.toList.foldl push m := by
  have hgroups := fun g (hg : g ∈ m'.groups) => h'.of_mem hg
  rw [EndpointMap.merge, EndpointMap.toList]
  generalize m'.groups = gs at hgroups
  induction gs generalizing m routes group with
  | nil => rfl
  | cons g gs ih =>
    obtain ⟨hne, hroute⟩ := hgroups g (List.mem_cons_self ..)
    rw [List.foldl_cons, List.flatMap_cons, List.foldl_append, h.foldl_push hne hroute]
    exact ih (h.extend g.1 g.2) fun g hg => hgroups g (List.mem_cons_of_mem _ hg)

theorem Groups.merge_empty (h : m.Groups es) : m.merge .empty = m :=
  (List.append_nil es ▸ h.merge .empty).unique h

theorem Groups.empty_merge (h : m.Groups es) : EndpointMap.empty.merge m = m :=
  (Groups.empty.merge h).unique h

theorem Groups.merge_assoc {as bs cs : List Endpoint} (ha : a.Groups as) (hb : b.Groups bs)
    (hc : c.Groups cs) :
    (a.merge b).merge c = a.merge (b.merge c) :=
  ((ha.merge hb).merge hc).unique (List.append_assoc as bs cs ▸ ha.merge (hb.merge hc))

/-- Built maps are lists up to grouping: merging appends, and so it is associative with the empty map as
its unit, and pushes the endpoints of the second map in their order there. -/
theorem merge_laws (ha : a.Built) (hb : b.Built) (hc : c.Built) (es es' : List Endpoint)
    (lists : List (List Endpoint)) :
    (ofList es).merge (ofList es') = ofList (es ++ es') ∧
      concat (lists.map ofList) = ofList lists.flatten ∧
      (a.merge b).merge c = a.merge (b.merge c) ∧
      a.merge empty = a ∧ empty.merge a = a ∧
      a.merge b = b.toList.foldl push a := by
  obtain ⟨as, has⟩ := ha.exists_groups
  obtain ⟨bs, hbs⟩ := hb.exists_groups
  obtain ⟨cs, hcs⟩ := hc.exists_groups
  exact ⟨merge_ofList es es', concat_map_ofList lists, has.merge_assoc hbs hcs, has.merge_empty,
    has.empty_merge, Lists.merge_eq_foldl_push has hbs⟩

/-- The routes stand in different order in the two maps, and both groups of the first one grow. -/
theorem merge_laws_two_routes :
    let view : Handler := { serial := 0, name := "view", call := fun _ => "" }
    let x : Endpoint := ⟨"/x", view, {}⟩
    let get : Endpoint := ⟨"/x", view, { methods := some .get }⟩
    let y : Endpoint := ⟨"/y", view, {}⟩
    let a := (single y).merge (single get)
    let b := ((single x).push y).push get
    let c := concat [single x, .empty]
    a.Built ∧ b.Built ∧ c.Built ∧
      (a.merge b).merge c = a.merge (b.merge c) ∧
      a.merge b = [x, get, y].foldl push a ∧
      (a.merge b).groups = [("/y", [y, y]), ("/x", [get, x, get])] := by
  intro view x get y a b c
  have ha : a.Built := .merge (.single y) (.single get)
  have hb : b.Built := .push get (.push y (.single x))
  have hc : c.Built := .concat (by simp [Built.single, Built.empty])
  obtain ⟨-, -, hassoc, -, -, hpush⟩ := merge_laws ha hb hc [] [] []
  have hbs : b.Groups [x, y, get] := ((Groups.empty.push x).push y).push get
  have hlist : b.toList = [x, get, y] := by
    rw [EndpointMap.toList, hbs.groups]
    simp [routesOf, atRoute, List.eraseDups_cons, x, get, y]
  have hab : (a.merge b).Groups ([y, get] ++ [x, y, get]) :=
    ((Groups.empty.push y).merge (Groups.empty.push get)).merge hbs
  refine ⟨ha, hb, hc, hassoc, hlist ▸ hpush, ?_⟩
  rw [hab.groups]
  simp [routesOf, atRoute, List.eraseDups_cons, x, get, y]

end RouteTree.EndpointMap
