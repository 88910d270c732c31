import RouteTree.Proofs.Joining

/-!
# Catchalls behind the views of a tree

After a tree has been registered on an empty registry the routes there are its groups, so a catchall can be
told from the registry alone: it goes behind the views of every route that it reaches
(`Catchall.guarded`). It always has guards, whatever is laid over its options (`optionsOn_guards_ne_none`).
So it does not collide with views that have none, and if no handler of the tree brings guards of its own, it
is accepted everywhere. Otherwise the first collision ends the registration (`perform_callsFor_cases`).
-/

namespace RouteTree
open Registry (Call)

/-- The views of a route as endpoints. -/
def RouteEntry.endpoints (r : RouteEntry) : List Endpoint :=
  r.views.map fun v => ⟨r.name, v.view, v.options⟩

namespace Catchall

/-- The catchall is for all routes, or one of the views of `r` is of a kind that it is for. -/
def Reaches (c : Catchall) (r : RouteEntry) : Prop :=
  c.targetKinds = [] ∨ ∃ v ∈ r.views, ∃ kind ∈ c.targetKinds,
    (if c.strict then v.view.kind.isSame kind else v.view.kind.isUnder kind) = true

instance (c : Catchall) (r : RouteEntry) : Decidable (c.Reaches r) :=
  inferInstanceAs (Decidable (_ ∨ _))

/-- The options of the catchall behind the views of `r`. -/
def optionsBehind (c : Catchall) (standard : Methods) (handler : Handler) (r : RouteEntry) : ViewOptions :=
  c.optionsOn standard handler r.endpoints

/-- The route with the catchall behind its views, if it is reached. -/
def guarded (c : Catchall) (standard : Methods) (handler : Handler) (r : RouteEntry) : RouteEntry :=
  if c.Reaches r then { r with views := r.views ++ [⟨handler, c.optionsBehind standard handler r⟩] } else r

variable {c : Catchall} {standard : Methods} {handler : Handler} {r : RouteEntry} {t t' table : Registry}
  {done rest : List RouteEntry} {refusal : Refusal}

/-- Guards are specified at the bottom, and no layer takes them away. -/
theorem optionsOn_guards_ne_none (c : Catchall) (standard : Methods) (handler : Handler) (es : List Endpoint) :
    (c.optionsOn standard handler es).guards ≠ none := by
  simp [optionsOn, ViewOptions.update, baseOptions]

theorem reaches_iff (hv : r.views ≠ []) :
    c.Reaches r ↔ (r.endpoints.any fun e => c.targets e.view) = true := by
  obtain ⟨v, hmem⟩ := List.exists_mem_of_ne_nil _ hv
  simp only [Reaches, RouteEntry.endpoints, List.any_map, List.any_eq_true, Function.comp_apply, targets_iff]
  constructor
  · rintro (hk | ⟨v, hv, hk⟩)
    · exact ⟨v, hmem, .inl hk⟩
    · exact ⟨v, hv, .inr hk⟩
  · rintro ⟨v, hv, hk | hk⟩
    · exact .inl hk
    · exact .inr ⟨v, hv, hk⟩

/-! ### One route after another -/

/-- Where names are distinct, only the route of that name is changed. -/
theorem map_of_name {l : List RouteEntry} (f : RouteEntry → RouteEntry) (hl : l = done ++ r :: rest)
    (hd : (l.map (·.name)).Nodup) :
    (l.map fun r' => if r'.name = r.name then f r' else r') = done ++ f r :: rest := by
  subst hl
  rw [List.map_append, List.map_cons, List.nodup_middle, List.nodup_cons, ← List.map_append] at hd
  have hne : ∀ l' : List RouteEntry, (∀ r' ∈ l', r' ∈ done ++ rest) →
      (l'.map fun r' => if r'.name = r.name then f r' else r') = l' := by
    intro l' hl'
    have hid : ∀ r' ∈ l', (if r'.name = r.name then f r' else r') = r' := fun r' hr' =>
      if_neg fun hn : r'.name = r.name => hd.1 (hn ▸ List.mem_map_of_mem (hl' r' hr'))
    rw [List.map_congr_left hid, List.map_id']
  rw [List.map_append, List.map_cons, if_pos rfl, hne done fun _ hr' => List.mem_append_left _ hr',
    hne rest fun _ hr' => List.mem_append_right _ hr']

/-- The calls for the routes in order. -/
def callsFor (c : Catchall) (standard : Methods) (handler : Handler) (routes : List RouteEntry) : List Call :=
  c.calls standard handler (routes.map fun r => (r.name, r.endpoints))

theorem callsFor_cons (hv : r.views ≠ []) :
    c.callsFor standard handler (r :: rest) =
      if c.Reaches r then
        .addView r.name handler (c.optionsBehind standard handler r) :: c.callsFor standard handler rest
      else c.callsFor standard handler rest := by
  rw [callsFor, calls, List.map_cons, List.filter_cons]
  simp only [← reaches_iff hv]
  split <;> rfl

/-- The catchall has the predicates of one of the views of `r`. -/
def CollidesOn (c : Catchall) (standard : Methods) (handler : Handler) (r : RouteEntry) : Prop :=
  ∃ v ∈ r.views, v.options.collides (c.optionsBehind standard handler r) = true

theorem collidesOn_iff : c.CollidesOn standard handler r ↔
    (c.optionsBehind standard handler r).signature ∈ r.views.map (·.options.signature) := by
  simp only [CollidesOn, ViewOptions.collides_iff, List.mem_map]

/-- At the next route the catchall is refused, or the guarded route takes the place of this one. -/
theorem perform_callsFor_cons_cases (c : Catchall) (standard : Methods) (handler : Handler) (h : t.Sound)
    (ht : t.routes = done ++ r :: rest) (hv : r.views ≠ []) :
    (c.Reaches r ∧ c.CollidesOn standard handler r) ∧
        Registry.router.perform (c.callsFor standard handler (r :: rest)) t =
          .error (.duplicateView r.name (c.optionsBehind standard handler r).conditions) t ∨
      (c.Reaches r → ¬ c.CollidesOn standard handler r) ∧
        ∃ t', t'.Sound ∧ t' = { t with routes := done ++ c.guarded standard handler r :: rest } ∧
          Registry.router.perform (c.callsFor standard handler (r :: rest)) t =
            Registry.router.perform (c.callsFor standard handler rest) t' := by
  rw [callsFor_cons hv]
  by_cases hr : c.Reaches r
  · have hmem : r ∈ t.routes := ht ▸ List.mem_append_right _ (List.mem_cons_self ..)
    have hadd : t.addView r.name handler (c.optionsBehind standard handler r) = _ := h.addView_known hmem rfl
    rw [if_pos hr]
    by_cases hc : c.CollidesOn standard handler r
    · rw [if_pos (collidesOn_iff.1 hc)] at hadd
      exact .inl ⟨⟨hr, hc⟩, Router.perform_cons_of_error (Registry.on_addView_of_error hadd)⟩
    · rw [if_neg (mt collidesOn_iff.2 hc)] at hadd
      refine .inr ⟨fun _ => hc, _, h.addView hadd, ?_,
        Router.perform_cons_of_ok (Registry.on_addView_of_ok hadd)⟩
      rw [map_of_name _ ht h.names_nodup, guarded, if_pos hr]
  · rw [if_neg hr]
    refine .inr ⟨fun hr' => absurd hr' hr, t, h, ?_, rfl⟩
    rw [guarded, if_neg hr, ← ht]

/-- Either the catchall collides on none of the routes that it reaches and goes behind the views of all of
them, or it collides on one, and then it has gone behind those ahead. -/
theorem perform_callsFor_cases (c : Catchall) (standard : Methods) (handler : Handler) (h : t.Sound)
    (ht : t.routes = done ++ rest) (hv : ∀ r ∈ rest, r.views ≠ []) :
    (∀ r ∈ rest, c.Reaches r → ¬ c.CollidesOn standard handler r) ∧
        Registry.router.perform (c.callsFor standard handler rest) t =
          .ok () { t with routes := done ++ rest.map (c.guarded standard handler) } ∨
      ∃ before r after, rest = before ++ r :: after ∧ c.Reaches r ∧ c.CollidesOn standard handler r ∧
        Registry.router.perform (c.callsFor standard handler rest) t =
          .error (.duplicateView r.name (c.optionsBehind standard handler r).conditions)
            { t with routes := done ++ (before.map (c.guarded standard handler) ++ r :: after) } := by
  -- the routes that have had their turn go over into `done`
  induction rest generalizing t done with
  | nil =>
    left
    rw [List.map_nil, ← ht]
    exact ⟨fun _ hr => absurd hr List.not_mem_nil, rfl⟩
  | cons r rest ih =>
    obtain ⟨hvr, hv⟩ := List.forall_mem_cons.1 hv
    rcases c.perform_callsFor_cons_cases standard handler h ht hvr with
      ⟨⟨hr, hc⟩, herror⟩ | ⟨hfree, t', ht', rfl, hnext⟩
    · right
      refine ⟨[], r, rest, rfl, hr, hc, ?_⟩
      rw [herror, List.map_nil, List.nil_append, ← ht]
    · rcases ih ht' (List.append_cons ..) hv with ⟨hfrees, hok⟩ | ⟨before, r', after, rfl, hr', hc', herror⟩
      · left
        rw [hnext, hok, List.map_cons, List.append_assoc, List.singleton_append]
        exact ⟨List.forall_mem_cons.2 ⟨hfree, hfrees⟩, rfl⟩
      · right
        refine ⟨r :: before, r', after, rfl, hr', hc', ?_⟩
        rw [hnext, herror, List.map_cons, List.append_assoc, List.singleton_append, List.cons_append]

end Catchall

/-! ### Behind a tree -/

theorem Leaf.endpoint_guards (root : String) (l : Leaf) :
    (l.endpoint root).options.guards = (l.view.options.getD {}).guards := by
  unfold Leaf.endpoint
  cases l.methods <;> rfl

section
variable {s : Settings} {t : Tree} {root : String} {table : Registry} {m : EndpointMap} {r : RouteEntry}

theorem registerTree_empty_iff : s.registerTree Registry.router t root .empty = .ok () table ↔
    ∃ m, s.endpoints t root = .ok m ∧ Registry.Admits .empty m.groups ∧
      table = m.groups.foldl Registry.grow .empty := by
  rw [Settings.registerTree_eq_ok_iff]
  refine exists_congr fun m => and_congr_right fun hm => ?_
  exact Registry.sound_empty.register_eq_ok_iff (Settings.groups_of_endpoints hm).routes_nodup

theorem exists_groups_of_registerTree (h : s.registerTree Registry.router t root .empty = .ok () table) :
    ∃ m, s.endpoints t root = .ok m ∧ table.Sound ∧
      table.routes = m.groups.map .ofGroup := by
  obtain ⟨m, hm, ha, rfl⟩ := registerTree_empty_iff.1 h
  have hd := (Settings.groups_of_endpoints hm).routes_nodup
  exact ⟨m, hm, Registry.sound_empty.perform (Registry.sound_empty.perform_groups_of_admits hd ha),
    Registry.foldl_grow_routes_empty hd ha⟩

theorem views_ne_nil_of_mem (hm : s.endpoints t root = .ok m)
    (hr : r ∈ m.groups.map RouteEntry.ofGroup) : r.views ≠ [] := by
  obtain ⟨g, hg, rfl⟩ := List.mem_map.1 hr
  simpa [RouteEntry.ofGroup] using ((Settings.groups_of_endpoints hm).of_mem hg).1

theorem groups_eq_endpoints (hm : s.endpoints t root = .ok m)
    (hroutes : table.routes = m.groups.map .ofGroup) :
    m.groups = table.routes.map fun r => (r.name, r.endpoints) := by
  have hgroup : ∀ g ∈ m.groups, ((RouteEntry.ofGroup g).name, (RouteEntry.ofGroup g).endpoints) = g := by
    rintro ⟨route, es⟩ hg
    have hroute := ((Settings.groups_of_endpoints hm).of_mem hg).2
    refine congrArg (Prod.mk route) ?_
    rw [RouteEntry.endpoints, RouteEntry.ofGroup, List.map_map]
    refine (List.map_congr_left fun e he => ?_).trans (List.map_id _)
    rw [← hroute e he]
    rfl
  rw [hroutes, List.map_map]
  exact ((List.map_congr_left hgroup).trans (List.map_id _)).symm

/-- The views of the registry have no guards where no handler of the tree has. -/
theorem guards_eq_none_of_mem (hm : s.endpoints t root = .ok m)
    (hnone : ∀ view, Tree.Holds view t → ∀ own, view.options = some own → own.guards = none)
    (hr : r ∈ m.groups.map RouteEntry.ofGroup) {v : ViewEntry}
    (hv : v ∈ r.views) : v.options.guards = none := by
  obtain ⟨g, hg, rfl⟩ := List.mem_map.1 hr
  obtain ⟨e, he, rfl⟩ := List.mem_map.1 hv
  obtain ⟨l, hl, rfl⟩ := List.mem_map.1 ((Settings.groups_of_endpoints hm).mem_of_mem hg he)
  rw [Endpoint.entry, Leaf.endpoint_guards]
  cases hown : l.view.options with
  | none => rfl
  | some own => exact hnone l.view (Tree.holds_of_mem_leavesUnder hl) own hown

theorem not_collidesOn (hm : s.endpoints t root = .ok m)
    (hnone : ∀ view, Tree.Holds view t → ∀ own, view.options = some own → own.guards = none)
    (hr : r ∈ m.groups.map RouteEntry.ofGroup) (c : Catchall)
    (standard : Methods) (handler : Handler) : ¬ c.CollidesOn standard handler r := by
  rintro ⟨v, hv, hcollides⟩
  have hguards := congrArg Signature.guards ((ViewOptions.collides_iff _ _).1 hcollides)
  simp only [ViewOptions.signature, guards_eq_none_of_mem hm hnone hr hv, Option.map_none] at hguards
  exact c.optionsOn_guards_ne_none _ _ _ (Option.map_eq_none_iff.1 hguards.symm)

end

/-- Where a tree is registered, a catchall goes behind the views of all routes that it reaches, unless it
collides on one of them. Then it has gone behind those ahead, and nothing else has changed. It can collide
only if a handler of the tree brings guards. -/
theorem registerCatchall_after_registerTree (s : Settings) (t : Tree) (handler : Handler) (c : Catchall)
    {table : Registry} (h : s.registerTree Registry.router t c.root .empty = .ok () table) :
    let guarded := c.guarded s.defaultMethods handler
    let outcome := s.registerCatchall Registry.router t handler c table
    ((∀ view, Tree.Holds view t → ∀ own, view.options = some own → own.guards = none) →
      outcome = .ok () { table with routes := table.routes.map guarded }) ∧
    ((∀ r ∈ table.routes, c.Reaches r → ¬ c.CollidesOn s.defaultMethods handler r) ∧
        outcome = .ok () { table with routes := table.routes.map guarded } ∨
      ∃ before r after, table.routes = before ++ r :: after ∧
        c.Reaches r ∧ c.CollidesOn s.defaultMethods handler r ∧
        outcome =
          .error (.router (.duplicateView r.name (c.optionsBehind s.defaultMethods handler r).conditions))
            { table with routes := before.map guarded ++ r :: after }) := by
  intro guarded outcome
  obtain ⟨m, hm, hsound, hroutes⟩ := exists_groups_of_registerTree h
  have houtcome : outcome =
      Service.ofRouter (Registry.router.perform (c.callsFor s.defaultMethods handler table.routes)) table := by
    show s.registerCatchall Registry.router t handler c table = _
    rw [Settings.registerCatchall_of_endpoints hm, Catchall.register_eq_perform, groups_eq_endpoints hm hroutes]
    rfl
  have hviews : ∀ r ∈ table.routes, r.views ≠ [] := fun r hr => views_ne_nil_of_mem hm (hroutes ▸ hr)
  have hcases := c.perform_callsFor_cases s.defaultMethods handler hsound
    (List.nil_append table.routes).symm hviews
  rw [List.nil_append] at hcases
  rcases hcases with ⟨hfree, hok⟩ | ⟨before, r, after, hsplit, hr, hc, herror⟩
  · have hok' := houtcome.trans (Service.ofRouter_eq_ok_iff.2 hok)
    exact ⟨fun _ => hok', .inl ⟨hfree, hok'⟩⟩
  · refine ⟨fun hnone => absurd hc ?_, .inr ⟨before, r, after, hsplit, hr, hc,
      houtcome.trans (Service.ofRouter_eq_error_iff.2 ⟨_, herror, rfl⟩)⟩⟩
    have hmem : r ∈ table.routes := hsplit ▸ List.mem_append_right _ (List.mem_cons_self ..)
    exact not_collidesOn hm hnone (hroutes ▸ hmem) c s.defaultMethods handler

/-- Three routes below the root, the last of them with `last`. -/
def threeRoutes (list page last : Handler) : Tree :=
  .mapping [(.path "/list", .leaf list), (.path "/page", .leaf page), (.path "/last", .leaf last)]

theorem exists_table_threeRoutes (list page last : Handler) :
    ∃ table, ({} : Settings).registerTree Registry.router (threeRoutes list page last) "/v1" .empty =
        .ok () table ∧
      table.routes =
        [⟨"/v1/list", "/v1/list", [⟨list, list.options.getD {}⟩]⟩,
          ⟨"/v1/page", "/v1/page", [⟨page, page.options.getD {}⟩]⟩,
          ⟨"/v1/last", "/v1/last", [⟨last, last.options.getD {}⟩]⟩] := by
  obtain ⟨m, hm⟩ : ∃ m, ({} : Settings).endpoints (threeRoutes list page last) "/v1" = .ok m :=
    ⟨_, rfl⟩
  have hleaves : (threeRoutes list page last).leaves =
      [⟨"/list", none, list⟩, ⟨"/page", none, page⟩, ⟨"/last", none, last⟩] := by
    simp [threeRoutes, Tree.leaves, Tree.leavesUnder, Tree.isSubtree, Tree.branches, Key.steps, Key.readings,
      Except.toOption, Leaf.below]
  have hgroups : m.groups =
      [("/v1/list", [⟨"/v1/list", list, list.options.getD {}⟩]),
        ("/v1/page", [⟨"/v1/page", page, page.options.getD {}⟩]),
        ("/v1/last", [⟨"/v1/last", last, last.options.getD {}⟩])] := by
    rw [(Settings.groups_of_endpoints hm).groups, hleaves]
    simp [routesOf, atRoute, List.eraseDups_cons, Leaf.endpoint]
  have hd := (Settings.groups_of_endpoints hm).routes_nodup
  have hadmits : Registry.Admits .empty m.groups := by
    have hone : ∀ g ∈ m.groups, ∃ e, g.2 = [e] := by simp [hgroups]
    intro g hg before e after hsplit
    obtain ⟨e', he'⟩ := hone g hg
    obtain ⟨rfl, -⟩ := List.cons_eq_append_iff.1 (he'.symm.trans hsplit) |>.resolve_right (by simp)
    rintro (⟨v, hv, -⟩ | ⟨d, hd, -⟩)
    · cases hv
    · cases hd
  refine ⟨_, registerTree_empty_iff.2 ⟨m, hm, hadmits, rfl⟩, ?_⟩
  rw [Registry.foldl_grow_routes_empty hd hadmits, hgroups]
  rfl

theorem eq_of_holds_threeRoutes {list page last view : Handler}
    (h : Tree.Holds view (threeRoutes list page last)) :
    view = list ∨ view = page ∨ view = last := by
  obtain _ | _ | @⟨_, b, hb, hh⟩ := h
  simp only [List.mem_cons, List.not_mem_nil, or_false] at hb
  rcases hb with rfl | rfl | rfl
  · cases hh; exact .inl rfl
  · cases hh; exact .inr (.inl rfl)
  · cases hh; exact .inr (.inr rfl)

/-- The page is of no kind that the catchall is for. If the last view looks like the catchall, they collide. -/
theorem registerCatchall_after_threeRoutes :
    let list : Handler := { serial := 0, name := "list", call := fun _ => "", kind := .apiView }
    let page : Handler := { serial := 1, name := "page", call := fun _ => "" }
    let fallback : Handler := { serial := 2, name := "fallback", call := fun _ => "" }
    let alike : Handler :=
      { list with options := some { methods := some .get, guards := some [.always "catchall"] } }
    let c : Catchall := { root := "/v1", targetKinds := [.functionView] }
    let s : Settings := {}
    (∃ table table',
      s.registerTree Registry.router (threeRoutes list page list) c.root .empty = .ok () table ∧
      s.registerCatchall Registry.router (threeRoutes list page list) fallback c table = .ok () table' ∧
      table'.routes.map (fun r => (r.name, r.views.map (·.view.name))) =
        [("/v1/list", ["list", "fallback"]), ("/v1/page", ["page"]), ("/v1/last", ["list", "fallback"])]) ∧
    ∃ table before r after,
      s.registerTree Registry.router (threeRoutes list page alike) c.root .empty = .ok () table ∧
      table.routes = before ++ r :: after ∧
      s.registerCatchall Registry.router (threeRoutes list page alike) fallback c table =
        .error (.router (.duplicateView r.name (c.optionsBehind s.defaultMethods fallback r).conditions))
          { table with routes := before.map (c.guarded s.defaultMethods fallback) ++ r :: after } := by
  intro list page fallback alike c s
  constructor
  · obtain ⟨table, h, hroutes⟩ := exists_table_threeRoutes list page list
    have hnone : ∀ view, Tree.Holds view (threeRoutes list page list) → ∀ own, view.options = some own →
        own.guards = none := by
      intro view hview own hown
      rcases eq_of_holds_threeRoutes hview with rfl | rfl | rfl <;> cases hown
    refine ⟨table, _, h, (registerCatchall_after_registerTree s _ fallback c h).1 hnone, ?_⟩
    rw [hroutes]
    rfl
  · obtain ⟨table, h, hroutes⟩ := exists_table_threeRoutes list page alike
    rcases (registerCatchall_after_registerTree s _ fallback c h).2 with
      ⟨hfree, -⟩ | ⟨before, r, after, hsplit, -, -, herror⟩
    · rw [hroutes] at hfree
      let last : RouteEntry := ⟨"/v1/last", "/v1/last", [⟨alike, alike.options.getD {}⟩]⟩
      have hnot : ¬ c.CollidesOn s.defaultMethods fallback last := hfree last (by simp [last]) (by decide)
      have hcollides : c.CollidesOn s.defaultMethods fallback last :=
        ⟨_, List.mem_singleton_self _, (ViewOptions.collides_iff _ _).2 rfl⟩
      exact absurd hcollides hnot
    · exact ⟨table, before, r, after, h, hsplit, herror⟩

end RouteTree
