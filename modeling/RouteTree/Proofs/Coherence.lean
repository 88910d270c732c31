import RouteTree.Proofs.Building
import RouteTree.Proofs.Endpoints

/-!
# Coherent endpoint maps

In a coherent map the positions are those of the routes, and every group holds endpoints of its own route,
at least one. This is all that can be said of the maps which the operations and the visits of trees give:
they are the coherent maps (`built_iff_coherent`), each being put together from its own endpoints. All ways
of asking a coherent map for a route agree (`Coherent.get?_eq_some_iff`, `Coherent.containsRoute_iff`), and
its positions follow from its groups (`Coherent.beq_iff`).
-/

namespace RouteTree

section
variable {gs : List (String × List Endpoint)} {es : List Endpoint} {route : String}

theorem routesOf_of_forall (hne : es ≠ []) (h : ∀ e ∈ es, e.route = route) : routesOf es = [route] := by
  have hmap : es.map (·.route) = List.replicate es.length route :=
    List.eq_replicate_iff.2 ⟨List.length_map .., by simpa using h⟩
  obtain ⟨n, hn⟩ := Nat.exists_eq_succ_of_ne_zero (mt List.length_eq_zero_iff.1 hne)
  rw [routesOf, hmap, hn, List.replicate_succ, List.eraseDups_cons, List.filter_replicate]
  simp

theorem atRoute_of_forall (h : ∀ e ∈ es, e.route = route) (other : String) :
    atRoute es other = if other = route then es else [] := by
  split
  · rename_i ho
    exact List.filter_eq_self.2 fun e he => beq_iff_eq.2 ((h e he).trans ho.symm)
  · rename_i ho
    exact List.filter_eq_nil_iff.2 fun e he hr => ho ((beq_iff_eq.1 hr).symm.trans (h e he))

theorem routesOf_flatMap (hd : (gs.map Prod.fst).Nodup)
    (h : ∀ g ∈ gs, g.2 ≠ [] ∧ ∀ e ∈ g.2, e.route = g.1) :
    routesOf (gs.flatMap Prod.snd) = gs.map Prod.fst ∧
      ∀ g ∈ gs, atRoute (gs.flatMap Prod.snd) g.1 = g.2 := by
  -- the routes of the later groups are needed to tell the first group from what follows it
  induction gs with
  | nil => exact ⟨rfl, fun _ hg => absurd hg List.not_mem_nil⟩
  | cons g gs ih =>
    obtain ⟨hg, hd⟩ := List.nodup_cons.1 hd
    obtain ⟨hne, hroute⟩ := h g (List.mem_cons_self ..)
    obtain ⟨hroutes, hat⟩ := ih hd fun g' hg' => h g' (List.mem_cons_of_mem _ hg')
    have hothers : ∀ e ∈ gs.flatMap Prod.snd, e.route ≠ g.1 := fun e he heg =>
      hg (heg ▸ hroutes ▸ EndpointMap.mem_routesOf.2 ⟨e, he, rfl⟩)
    rw [List.flatMap_cons, List.map_cons]
    refine ⟨?_, fun g' hg' => ?_⟩
    · rw [routesOf_append, routesOf_of_forall hne hroute, hroutes, List.singleton_append,
        List.filter_eq_self.2]
      intro r hr
      have hrg : r ≠ g.1 := fun hrg => hg (hrg ▸ hr)
      simpa using hrg
    · rw [atRoute_append, atRoute_of_forall hroute]
      rcases List.mem_cons.1 hg' with rfl | hg'
      · have hnone : atRoute (gs.flatMap Prod.snd) g'.1 = [] :=
          List.filter_eq_nil_iff.2 fun e he hr => hothers e he (beq_iff_eq.1 hr)
        rw [if_pos rfl, hnone, List.append_nil]
      · have hgg : g'.1 ≠ g.1 := fun hgg => hg (hgg ▸ List.mem_map_of_mem hg')
        rw [if_neg hgg, List.nil_append, hat g' hg']

end

namespace EndpointMap

/-- The positions are those of the routes, and every group holds endpoints of its own route, at least
one. -/
structure Coherent (m : EndpointMap) : Prop where
  positions : Indexes m.positions m.routes
  nonempty : ∀ g ∈ m.groups, g.2 ≠ []
  route_eq : ∀ g ∈ m.groups, ∀ e ∈ g.2, e.route = g.1

variable {m m' : EndpointMap} {es : List Endpoint} {route : String}

theorem Groups.coherent (h : m.Groups es) : m.Coherent where
  positions := by
    have hroutes : m.routes = routesOf es := by
      rw [routes, h.groups, List.map_map]
      exact List.map_id _
    exact hroutes ▸ h.positions
  nonempty _ hg := (h.of_mem hg).1
  route_eq _ hg := (h.of_mem hg).2

namespace Coherent

theorem containsRoute_iff (h : m.Coherent) : m.containsRoute route = true ↔ route ∈ m.routes := by
  rw [containsRoute, Std.ExtTreeMap.contains_eq_isSome_getElem?, Option.isSome_iff_exists,
    h.positions.exists_iff]

theorem get?_eq_some_iff (h : m.Coherent) : m.get? route = some es ↔ (route, es) ∈ m.groups := by
  rw [get?, Option.bind_eq_some_iff]
  constructor
  · rintro ⟨i, hi, hes⟩
    obtain ⟨g, hg, rfl⟩ := Option.map_eq_some_iff.1 hes
    have hroute := (h.positions route i).1 hi
    rw [routes, List.getElem?_map, hg] at hroute
    obtain rfl : g.1 = route := Option.some.inj hroute
    exact List.mem_of_getElem? hg
  · intro hmem
    obtain ⟨i, hi⟩ := List.mem_iff_getElem?.1 hmem
    refine ⟨i, (h.positions route i).2 ?_, by rw [hi]; rfl⟩
    rw [routes, List.getElem?_map, hi]; rfl

theorem exists_get?_iff (h : m.Coherent) : (∃ es, m.get? route = some es) ↔ route ∈ m.routes := by
  rw [routes, List.mem_map]
  constructor
  · rintro ⟨es, hes⟩
    exact ⟨(route, es), h.get?_eq_some_iff.1 hes, rfl⟩
  · rintro ⟨⟨_, es⟩, hes, rfl⟩
    exact ⟨es, h.get?_eq_some_iff.2 hes⟩

theorem positions_eq (h : m.Coherent) (h' : m'.Coherent) (hr : m.routes = m'.routes) :
    m.positions = m'.positions :=
  h.positions.unique (hr ▸ h'.positions)

theorem eq_iff (h : m.Coherent) (h' : m'.Coherent) : m = m' ↔ m.groups = m'.groups := by
  refine ⟨fun hm => hm ▸ rfl, fun hg => ?_⟩
  have hp := h.positions_eq h' (congrArg (List.map Prod.fst) hg)
  cases m
  cases m'
  cases hg
  cases hp
  rfl

end Coherent

theorem map_fst_eq_of_beq {gs gs' : List (String × List Endpoint)} (h : (gs == gs') = true) :
    gs.map Prod.fst = gs'.map Prod.fst := by
  -- Handlers are compared by identity, so that `gs` and `gs'` need not be equal themselves.
  induction gs generalizing gs' with
  | nil =>
    cases gs' with
    | nil => rfl
    | cons g' gs' => cases h
  | cons g gs ih =>
    cases gs' with
    | nil => cases h
    | cons g' gs' =>
      rw [List.cons_beq_cons, Bool.and_eq_true] at h
      obtain ⟨hg, hgs⟩ := h
      have hfst : g.1 = g'.1 := beq_iff_eq.1 (Bool.and_eq_true_iff.1 hg).1
      rw [List.map_cons, List.map_cons, hfst, ih hgs]

/-- Groups with routes of their own are what the list of their endpoints is grouped to. -/
theorem groups_ofList_flatMap {gs : List (String × List Endpoint)} (hd : (gs.map Prod.fst).Nodup)
    (h : ∀ g ∈ gs, g.2 ≠ [] ∧ ∀ e ∈ g.2, e.route = g.1) :
    (ofList (gs.flatMap Prod.snd)).groups = gs := by
  obtain ⟨hroutes, hat⟩ := routesOf_flatMap hd h
  rw [(groups_ofList _).groups, hroutes, List.map_map]
  refine (List.map_congr_left fun g hg => ?_).trans (List.map_id gs)
  rw [Function.comp_apply, hat g hg]
  rfl

theorem Coherent.ofList_toList (h : m.Coherent) : ofList m.toList = m :=
  ((groups_ofList _).coherent.eq_iff h).2
    (groups_ofList_flatMap h.positions.nodup fun g hg => ⟨h.nonempty g hg, h.route_eq g hg⟩)

/-- The operations give coherent maps, and all of them. -/
theorem built_iff_coherent : m.Built ↔ m.Coherent := by
  constructor
  · intro h
    obtain ⟨es, hes⟩ := h.exists_groups
    exact hes.coherent
  · intro h
    exact h.ofList_toList ▸ built_ofList m.toList

theorem built_of_endpoints {t : Tree} {limit : Nat} {root : String} (h : t.endpoints limit root = .ok m) :
    m.Built := by
  obtain ⟨-, -, rfl⟩ := Tree.endpoints_eq_ok_iff.1 h
  exact built_ofList _

/-- Maps are compared by their groups, handlers by identity; the positions then agree. -/
theorem Coherent.beq_iff (h : m.Coherent) (h' : m'.Coherent) :
    (m == m') = true ↔ (m.groups == m'.groups) = true := by
  have hbeq : (m == m') = (m.groups == m'.groups && m.positions == m'.positions) := rfl
  rw [hbeq, Bool.and_eq_true, and_iff_left_iff_imp]
  exact fun hg => beq_iff_eq.2 (h.positions_eq h' (map_fst_eq_of_beq hg))

/-- Whatever is built is coherent, visits of trees build, all ways of asking for a route agree, and two maps
are equal if their groups are. -/
theorem built_coherent (hm : m.Built) (hm' : m'.Built) (t : Tree) (limit : Nat) (root : String) :
    (∀ visited, t.endpoints limit root = .ok visited → visited.Built) ∧
      m.Coherent ∧ m.routes.Nodup ∧
      (∀ route, (∃ es, m.get? route = some es) ↔ m.containsRoute route = true) ∧
      (∀ route, m.containsRoute route = true ↔ route ∈ m.routes) ∧
      (∀ route es, m.get? route = some es ↔ (route, es) ∈ m.groups) ∧
      ((m == m') = true ↔ (m.groups == m'.groups) = true) ∧ (m = m' ↔ m.groups = m'.groups) := by
  have h := built_iff_coherent.1 hm
  have h' := built_iff_coherent.1 hm'
  refine ⟨fun _ => built_of_endpoints, h, h.positions.nodup, fun route => ?_,
    fun _ => h.containsRoute_iff, fun _ _ => h.get?_eq_some_iff, h.beq_iff h', h.eq_iff h'⟩
  rw [h.exists_get?_iff, h.containsRoute_iff]

/-- The same groups come about in two ways, which differ in when the first route is met again. -/
theorem built_coherent_two_ways :
    let view : Handler := { serial := 0, name := "view", call := fun _ => "" }
    let x : Endpoint := ⟨"/x", view, {}⟩
    let get : Endpoint := ⟨"/x", view, { methods := some .get }⟩
    let y : Endpoint := ⟨"/y", view, {}⟩
    let a := (concat [single x, single y]).merge (single get)
    let b := ((single x).push get).push y
    a.Built ∧ b.Built ∧ a = b ∧ (a == b) = true ∧ a.get? "/x" = some [x, get] ∧
      a.containsRoute "/y" = true ∧ a.containsRoute "/z" = false := by
  intro view x get y a b
  have hx := Groups.empty.push x
  have ha : a.Groups ([x, y] ++ [get]) := (groups_ofList [x, y]).merge (Groups.empty.push get)
  have hb : b.Groups [x, get, y] := (hx.push get).push y
  have hagroups : a.groups = [("/x", [x, get]), ("/y", [y])] := by
    rw [ha.groups]
    simp [routesOf, atRoute, List.eraseDups_cons, x, get, y]
  have hbgroups : b.groups = [("/x", [x, get]), ("/y", [y])] := by
    rw [hb.groups]
    simp [routesOf, atRoute, List.eraseDups_cons, x, get, y]
  have habuilt : a.Built := .merge (.concat (by simp [Built.single])) (.single get)
  have hbbuilt : b.Built := .push y (.push get (.single x))
  obtain ⟨-, -, -, -, hcontains, hget, hbeq, heq⟩ := built_coherent habuilt hbbuilt (.mapping []) 0 ""
  have hroutes : a.routes = ["/x", "/y"] := by rw [routes, hagroups]; rfl
  refine ⟨habuilt, hbbuilt, heq.2 (hagroups.trans hbgroups.symm), hbeq.2 (by rw [hagroups, hbgroups]; rfl),
    (hget _ _).2 (by simp [hagroups]), (hcontains _).2 (by simp [hroutes]), Bool.eq_false_iff.2 fun hz => ?_⟩
  have hmem := (hcontains _).1 hz
  simp [hroutes] at hmem

end EndpointMap

end RouteTree
