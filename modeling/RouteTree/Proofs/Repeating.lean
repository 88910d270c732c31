import RouteTree.Proofs.Piecewise

/-!
# Registering a tree again

Where views are added to a registry, every route keeps its pattern and the views that it has (`Registry.Keeps`). So
what has been registered of a tree stands in the way when the tree comes again: the call for its first route changes
nothing, and the call for its first endpoint is refused (`Settings.registerTree_again`).
-/

namespace RouteTree
open Registry (Call after)

namespace Registry
variable {t t' : Registry} {name route : String} {r : RouteEntry} {e : Endpoint} {es : List Endpoint}
  {views : List ViewEntry} {further : List Call}

/-- Every route of `t` is in `t'` with its pattern, and with its views ahead of others. -/
def Keeps (t t' : Registry) : Prop :=
  ∀ name r, t.route? name = some r → ∃ more, t'.route? name = some { r with views := r.views ++ more }

def Call.addsView : Call → Bool
  | .addRoute .. => false
  | .addView .. => true

/-! ### Further views -/

theorem Keeps.refl (t : Registry) : t.Keeps t := by
  intro name r hr
  exact ⟨[], by rw [hr, List.append_nil]⟩

theorem Keeps.trans {t'' : Registry} (h : t.Keeps t') (h' : t'.Keeps t'') : t.Keeps t'' := by
  intro name r hr
  obtain ⟨more, hmore⟩ := h name r hr
  obtain ⟨last, hlast⟩ := h' name _ hmore
  exact ⟨more ++ last, by rw [hlast, List.append_assoc]⟩

theorem Sound.keeps_addView (h : t.Sound) {view : Handler} {options : ViewOptions}
    (ht' : t.addView route view options = .ok t') : t.Keeps t' := by
  rcases h.addView_cases route view options with ⟨e, he⟩ | ⟨r, hr, hname, -, hok⟩
  · rw [he] at ht'
    cases ht'
  · rw [hok] at ht'
    cases ht'
    intro name r' hr'
    rw [route?_map_routes, hr', Option.map_some]
    split
    · exact ⟨_, rfl⟩
    · exact ⟨[], by rw [List.append_nil]⟩

theorem Sound.keeps_leave (h : t.Sound) {call : Call} (hcall : call.addsView = true) : t.Keeps (call.leave t) := by
  cases call with
  | addRoute name pattern => cases hcall
  | addView route view options =>
    rw [Call.leave_addView]
    cases ht' : t.addView route view options with
    | error refusal => exact .refl t
    | ok t' => exact h.keeps_addView ht'

theorem Sound.keeps_foldl_leave (h : t.Sound) (hfurther : ∀ call ∈ further, call.addsView = true) :
    t.Keeps (further.foldl Call.leave t) := by
  induction further generalizing t with
  | nil => exact .refl t
  | cons call further ih =>
    obtain ⟨hcall, hfurther⟩ := List.forall_mem_cons.1 hfurther
    exact (h.keeps_leave hcall).trans (ih (h.leave call) hfurther)

/-! ### The same calls again -/

/-- Adding a route as it is changes nothing. -/
theorem Sound.addRoute_same (h : t.Sound) (hr : t.route? name = some r) : t.addRoute name r.pattern = t := by
  obtain ⟨hmem, hname⟩ := h.route?_eq_some_iff.1 hr
  rw [h.addRoute_known (List.mem_map.2 ⟨r, hmem, hname⟩)]
  have hsame : ∀ r' ∈ t.routes, (if r'.name = name then { r' with pattern := r.pattern } else r') = r' := by
    intro r' hr'
    split
    · rename_i hname'
      obtain rfl : r' = r := Option.some.inj ((h.route?_eq_some_iff.2 ⟨hr', hname'⟩).symm.trans hr)
      rfl
    · rfl
  rw [List.map_congr_left hsame, List.map_id']

/-- A group is refused at once if its first endpoint is among the views of its route. -/
theorem Sound.perform_groupCalls_again (h : t.Sound) (hr : t.route? route = some ⟨route, route, views⟩)
    (he : e.entry ∈ views) :
    router.perform (groupCalls (route, e :: es)) t = .error (.duplicateView route e.options.conditions) t := by
  have hroute : (Call.addRoute route route).on router t = .ok () t := by
    show EStateM.Result.ok () (t.addRoute route route) = _
    rw [h.addRoute_same hr]
  have hview : t.addView route e.view e.options = .error (.duplicateView route e.options.conditions) := by
    obtain ⟨hmem, hname⟩ := h.route?_eq_some_iff.1 hr
    rw [h.addView_known hmem hname, if_pos]
    exact List.mem_map_of_mem (f := fun v : ViewEntry => v.options.signature) he
  rw [groupCalls, Router.perform_cons_of_ok hroute]
  exact Router.perform_cons_of_error (on_addView_of_error hview)

end Registry

namespace Settings

variable {s : Settings} {t : Tree} {root : String} {table table' : Registry} {m : EndpointMap}

theorem registerTree_of_groups_nil (hm : s.endpoints t root = .ok m) (hnil : m.groups = []) (table : Registry) :
    s.registerTree Registry.router t root table = .ok () table := by
  rw [registerTree_of_endpoints hm, EndpointMap.register_eq_perform, hnil]
  rfl

/-- The registration of a tree ends where its first group is refused. -/
theorem registerTree_of_groups_cons {g : String × List Endpoint} {gs : List (String × List Endpoint)}
    {refusal : Refusal} (hm : s.endpoints t root = .ok m) (hgs : m.groups = g :: gs)
    (hg : Registry.router.perform (groupCalls g) table = .error refusal table') :
    s.registerTree Registry.router t root table = .error (.router refusal) table' := by
  rw [registerTree_of_endpoints hm, EndpointMap.register_eq_perform, hgs, List.flatMap_cons,
    Service.ofRouter_eq_error_iff]
  exact ⟨refusal, Router.perform_append_of_error hg, rfl⟩

/-- A registered tree is refused when it comes again, whatever views have been added in the meantime, and nothing
changes. What is refused is the first endpoint; a tree without endpoints is registered again. -/
theorem registerTree_again (calls : List Call) (s : Settings) (t : Tree) (root : String) {table : Registry}
    (h : s.registerTree Registry.router t root (after calls) = .ok () table) {further : List Call}
    (hfurther : ∀ call ∈ further, call.addsView = true) :
    let table' := further.foldl Call.leave table
    let outcome := s.registerTree Registry.router t root table'
    ∃ m, s.endpoints t root = .ok m ∧ (m.toList = [] → outcome = .ok () table') ∧
      ∀ e, m.toList.head? = some e → m.routes.head? = some e.route ∧
        outcome = .error (.router (.duplicateView e.route e.options.conditions)) table' := by
  intro table' outcome
  have hafter : (after calls).Sound := Registry.sound_after calls
  obtain ⟨m, hm, hregister⟩ := registerTree_eq_ok_iff.1 h
  have hgroups := groups_of_endpoints hm
  obtain ⟨hadmits, rfl⟩ := (hafter.register_eq_ok_iff hgroups.routes_nodup).1 hregister
  have hgrown := hafter.grown hgroups hadmits
  have hsound : table'.Sound := hgrown.foldl_leave further
  refine ⟨m, hm, ?_⟩
  cases hgs : m.groups with
  | nil =>
    have hlist : m.toList = [] := by rw [EndpointMap.toList, hgs]; rfl
    refine ⟨fun _ => registerTree_of_groups_nil hm hgs table', ?_⟩
    intro e he
    rw [hlist] at he
    cases he
  | cons g gs =>
    have hg : g ∈ m.groups := hgs ▸ List.mem_cons_self ..
    obtain ⟨route, es⟩ := g
    obtain ⟨hne, hroute⟩ := hgroups.of_mem hg
    obtain ⟨first, es, rfl⟩ := List.exists_cons_of_ne_nil hne
    have hlist : m.toList = first :: (es ++ gs.flatMap (·.2)) := by
      rw [EndpointMap.toList, hgs]
      rfl
    obtain rfl : first.route = route := hroute first (List.mem_cons_self ..)
    refine ⟨fun hnil => ?_, fun e he => ?_⟩
    · rw [hlist] at hnil
      cases hnil
    · obtain rfl : first = e := by
        rw [hlist] at he
        exact Option.some.inj he
      refine ⟨by rw [EndpointMap.routes, hgs]; rfl, ?_⟩
      obtain ⟨more, hmore⟩ := hgrown.keeps_foldl_leave hfurther _ _
        (hafter.route?_foldl_grow_of_mem hgroups.routes_nodup hadmits hg)
      exact registerTree_of_groups_cons hm hgs (hsound.perform_groupCalls_again hmore (by simp))

/-- Before and after the tree has come for the first time, views are added to one of its routes. -/
theorem registerTree_again_between_views :
    let view : Handler := { serial := 0, name := "view", call := fun _ => "" }
    let tree : Tree := .mapping [(.path "/x", .leaf view), (.path "/y", .leaf view)]
    let calls : List Call := [.addRoute "/x" "/old", .addView "/x" view { methods := some .get }]
    let further : List Call := [.addView "/x" view { accept := some "" }, .addView "/z" view {}]
    let s : Settings := {}
    ∃ table, s.registerTree Registry.router tree "" (after calls) = .ok () table ∧
      (further.foldl Call.leave table).routes = [
        ⟨"/x", "/x", [⟨view, { methods := some .get }⟩, ⟨view, {}⟩, ⟨view, { accept := some "" }⟩]⟩,
        ⟨"/y", "/y", [⟨view, {}⟩]⟩] ∧
      s.registerTree Registry.router tree "" (further.foldl Call.leave table) =
        .error (.router (.duplicateView "/x" (ViewOptions.conditions {}))) (further.foldl Call.leave table) := by
  intro view tree calls further s
  let es : List Endpoint := [⟨"/x", view, {}⟩, ⟨"/y", view, {}⟩]
  have hendpoints : s.endpoints tree "" = .ok (.ofList es) := rfl
  have hfirst : ∃ table, Service.ofRouter ((EndpointMap.ofList es).register Registry.router) (after calls) =
        .ok () table ∧
      (further.foldl Call.leave table).routes = [
        ⟨"/x", "/x", [⟨view, { methods := some .get }⟩, ⟨view, {}⟩, ⟨view, { accept := some "" }⟩]⟩,
        ⟨"/y", "/y", [⟨view, {}⟩]⟩] := by
    refine ⟨?table, ?registered, ?routes⟩
    case registered =>
      dsimp only [es, calls]
      cbv
      rfl
    case routes => rfl
  obtain ⟨table, htable, hroutes⟩ := hfirst
  have h : s.registerTree Registry.router tree "" (after calls) = .ok () table :=
    registerTree_eq_ok_iff.2 ⟨_, hendpoints, htable⟩
  have hfurther : ∀ call ∈ further, call.addsView = true := by simp [further, Call.addsView]
  obtain ⟨m, hm, -, hagain⟩ := registerTree_again calls s tree "" h hfurther
  obtain rfl : EndpointMap.ofList es = m := Except.ok.inj (hendpoints.symm.trans hm)
  have hhead : (EndpointMap.ofList es).toList.head? = some ⟨"/x", view, {}⟩ := by
    rw [EndpointMap.toList, (EndpointMap.groups_ofList es).groups]
    simp [routesOf, atRoute, List.eraseDups_cons, es]
  exact ⟨table, h, hroutes, (hagain _ hhead).2⟩

end Settings

end RouteTree
