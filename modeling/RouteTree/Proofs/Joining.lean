import RouteTree.Proofs.Building
import RouteTree.Proofs.Plans
import Mathlib.Data.List.Induction

/-!
# Registering grouped endpoints on a registry

An endpoint clashes if it collides with a view that its route had before, or with an endpoint ahead of it
in its group (`Registry.Clashes`), and `Registry.Admits t gs` says that none of the groups `gs` has such an
endpoint. Routes do not get in each other's way, as every group has a route of its own: whether a group goes
through can be told from the registry at the start (`perform_groups_of_admits`), and what is registered then
is `RouteEntry.joined`, route by route. If there are clashes, all goes well up to the first one
(`exists_first_clash`), where the registration ends.
-/

namespace RouteTree
open Registry (Call)

def Endpoint.entry (e : Endpoint) : ViewEntry := ⟨e.view, e.options⟩

/-- A group as a route. -/
def RouteEntry.ofGroup (g : String × List Endpoint) : RouteEntry := ⟨g.1, g.1, g.2.map Endpoint.entry⟩

/-- The route with the views of its group behind its own, and with its name as its pattern. A route without
a group stays as it is. -/
def RouteEntry.joined (gs : List (String × List Endpoint)) (r : RouteEntry) : RouteEntry :=
  match gs.lookup r.name with
  | some es => ⟨r.name, r.name, r.views ++ es.map Endpoint.entry⟩
  | none => r

namespace Registry

/-- `e` has the predicates of one of the views `views`, or of an endpoint in `before`. -/
def Clashes (views : List ViewEntry) (before : List Endpoint) (e : Endpoint) : Prop :=
  (∃ v ∈ views, v.options.collides e.options = true) ∨
    ∃ d ∈ before, d.options.collides e.options = true

/-- No endpoint of these groups clashes, neither with a view that is there nor inside of its group. -/
def Admits (t : Registry) (gs : List (String × List Endpoint)) : Prop :=
  ∀ g ∈ gs, ∀ before e after, g.2 = before ++ e :: after → ¬ Clashes (t.views g.1) before e

/-- The registry with a group registered, whether its endpoints clash or not. -/
def grow (t : Registry) (g : String × List Endpoint) : Registry :=
  let t' := t.addRoute g.1 g.1
  { t' with routes := t'.routes.map fun r =>
      if r.name = g.1 then { r with views := r.views ++ g.2.map Endpoint.entry } else r }

variable {t t' : Registry} {name route pattern : String} {gs gs' : List (String × List Endpoint)}
  {g : String × List Endpoint} {es before rest : List Endpoint} {e : Endpoint} {calls : List Call}
  {r : RouteEntry} {refusal : Refusal}

/-! ### Lookup by name -/

theorem name_ne_of_mem (hn : name ∉ t.names) (hr : r ∈ t.routes) : r.name ≠ name :=
  fun hrn => hn (List.mem_map.2 ⟨r, hr, hrn⟩)

theorem Sound.accepts (h : t.Sound) (ha : router.Accepts t calls t') : t'.Sound := by
  induction ha with
  | nil => exact h
  | @cons t t₁ t' call calls hc _ ih =>
    have hleave : call.leave t = t₁ := by
      have hrun : call.run t = .ok () t₁ := by cases call <;> exact hc
      rw [Call.leave, hrun]
    exact ih (hleave ▸ h.leave call)

theorem Sound.perform (h : t.Sound) (hp : router.perform calls t = .ok () t') : t'.Sound :=
  h.accepts (Router.perform_eq_ok_iff.1 hp)

theorem route?_map_routes (t : Registry) (f : RouteEntry → RouteEntry) (name : String) :
    route? { t with routes := t.routes.map f } name = (t.route? name).map f := by
  rw [route?, route?]
  cases t.positions[name]? with
  | none => rfl
  | some i => exact List.getElem?_map ..

/-- Changing the route of one name. -/
theorem Sound.route?_map_name (h : t.Sound) (f : RouteEntry → RouteEntry) (name other : String) :
    route? { t with routes := t.routes.map fun r => if r.name = name then f r else r } other =
      if other = name then (t.route? other).map f else t.route? other := by
  rw [route?_map_routes]
  cases hr : t.route? other with
  | none => simp
  | some r =>
    have hname : r.name = other := (h.route?_eq_some_iff.1 hr).2
    rw [Option.map_some, hname]
    split <;> rfl

theorem Sound.route?_addRoute (h : t.Sound) (name pattern other : String) :
    (t.addRoute name pattern).route? other =
      if other = name then some ⟨name, pattern, t.views name⟩ else t.route? other := by
  by_cases hn : name ∈ t.names
  · rw [h.addRoute_known hn, h.route?_map_name (fun r => { r with pattern })]
    split
    · rename_i ho
      subst ho
      obtain ⟨r, hr, rfl⟩ := List.mem_map.1 hn
      rw [h.route?_eq_some_iff.2 ⟨hr, rfl⟩, h.views_eq hr rfl, Option.map_some]
    · rfl
  · refine Option.ext fun r => ?_
    rw [(h.addRoute name pattern).route?_eq_some_iff, h.addRoute_new hn, h.views_unknown hn]
    simp only [List.mem_append, List.mem_singleton]
    split
    · rename_i ho
      subst ho
      constructor
      · rintro ⟨hr | rfl, hrn⟩
        · exact absurd hrn (name_ne_of_mem hn hr)
        · rfl
      · intro hr
        cases hr
        exact ⟨.inr rfl, rfl⟩
    · rename_i ho
      rw [h.route?_eq_some_iff]
      constructor
      · rintro ⟨hr | rfl, hrn⟩
        · exact ⟨hr, hrn⟩
        · exact absurd hrn.symm ho
      · rintro ⟨hr, hrn⟩
        exact ⟨.inl hr, hrn⟩

theorem Sound.route?_grow (h : t.Sound) (g : String × List Endpoint) (name : String) :
    (t.grow g).route? name =
      if name = g.1 then some ⟨g.1, g.1, t.views g.1 ++ g.2.map Endpoint.entry⟩ else t.route? name := by
  rw [grow, (h.addRoute ..).route?_map_name (fun r => { r with views := r.views ++ g.2.map Endpoint.entry }),
    h.route?_addRoute]
  split <;> rfl

theorem Sound.views_grow_of_ne (h : t.Sound) (hn : name ≠ g.1) : (t.grow g).views name = t.views name := by
  rw [views, h.route?_grow, if_neg hn, views]

/-! ### One group -/

theorem clashes_iff {views : List ViewEntry} :
    Clashes views es e ↔
      e.options.signature ∈ (views ++ es.map Endpoint.entry).map (·.options.signature) := by
  simp only [Clashes, ViewOptions.collides_iff, List.map_append, List.map_map, List.mem_append, List.mem_map,
    Function.comp_apply, Endpoint.entry]

theorem Sound.addView_grow (h : t.Sound) (hg : (t.grow (route, es)).Sound) (e : Endpoint) :
    (Clashes (t.views route) es e → (t.grow (route, es)).addView route e.view e.options =
        .error (.duplicateView route e.options.conditions)) ∧
      (¬ Clashes (t.views route) es e → (t.grow (route, es)).addView route e.view e.options =
        .ok (t.grow (route, es ++ [e]))) := by
  have hr := h.route?_grow (route, es) route
  rw [if_pos rfl] at hr
  obtain ⟨hmem, hname⟩ := hg.route?_eq_some_iff.1 hr
  rw [hg.addView_known hmem hname, clashes_iff]
  refine ⟨fun hc => if_pos hc, fun hc => ?_⟩
  rw [if_neg hc, grow, grow]
  refine congrArg (fun routes => Except.ok (Registry.mk routes _)) ?_
  rw [List.map_map]
  refine List.map_congr_left fun r _ => ?_
  by_cases hrn : r.name = route <;> simp [hrn, Endpoint.entry]

theorem groupCalls_append (route : String) (es es' : List Endpoint) :
    groupCalls (route, es ++ es') =
      groupCalls (route, es) ++ es'.map fun e => .addView route e.view e.options := by
  simp [groupCalls]

theorem on_addView_of_ok {options : ViewOptions} {view : Handler}
    (h : t.addView route view options = .ok t') :
    (Call.addView route view options).on router t = .ok () t' := by
  simp only [Call.on, router, h]

theorem on_addView_of_error {options : ViewOptions} {view : Handler}
    (h : t.addView route view options = .error refusal) :
    (Call.addView route view options).on router t = .error refusal t := by
  simp only [Call.on, router, h]

theorem Sound.perform_groupCalls (h : t.Sound)
    (ha : ∀ before e after, es = before ++ e :: after → ¬ Clashes (t.views route) before e) :
    router.perform (groupCalls (route, es)) t = .ok () (t.grow (route, es)) := by
  -- from the back, so that what is registered so far is a group again
  induction es using List.reverseRecOn with
  | nil =>
    show Router.perform router [] (t.addRoute route route) = _
    simp [grow, Router.perform_nil]
  | append_singleton es e ih =>
    have hes := ih fun before d after hsplit =>
      ha before d (after ++ [e]) (by rw [hsplit, List.append_assoc, List.cons_append])
    have hok : (t.grow (route, es)).addView route e.view e.options = .ok (t.grow (route, es ++ [e])) :=
      (h.addView_grow (h.perform hes) e).2 (ha es e [] rfl)
    rw [groupCalls_append, Router.perform_append_of_ok hes]
    exact Router.perform_cons_of_ok (on_addView_of_ok hok)

theorem Sound.perform_groupCalls_of_clash (h : t.Sound)
    (ha : ∀ b d a, before = b ++ d :: a → ¬ Clashes (t.views route) b d)
    (hc : Clashes (t.views route) before e) :
    router.perform (groupCalls (route, before ++ e :: rest)) t =
      .error (.duplicateView route e.options.conditions) (t.grow (route, before)) := by
  have hbefore := h.perform_groupCalls ha
  rw [groupCalls_append, Router.perform_append_of_ok hbefore]
  have hrefused : (t.grow (route, before)).addView route e.view e.options = .error _ :=
    (h.addView_grow (h.perform hbefore) e).1 hc
  exact Router.perform_cons_of_error (on_addView_of_error hrefused)

/-! ### All groups -/

/-- The first group can be registered, and then the others are still admitted. -/
theorem Sound.grow_of_admits (h : t.Sound) (hg : g.1 ∉ gs.map Prod.fst) (ha : t.Admits (g :: gs)) :
    router.perform (groupCalls g) t = .ok () (t.grow g) ∧ (t.grow g).Sound ∧ (t.grow g).Admits gs := by
  have hone : router.perform (groupCalls g) t = .ok () (t.grow g) :=
    h.perform_groupCalls (ha g (List.mem_cons_self ..))
  refine ⟨hone, h.perform hone, fun g' hg' => ?_⟩
  have hne : g'.1 ≠ g.1 := fun hgg => hg (hgg ▸ List.mem_map_of_mem hg')
  rw [h.views_grow_of_ne hne]
  exact ha g' (List.mem_cons_of_mem _ hg')

theorem Sound.perform_groups_of_admits (h : t.Sound) (hd : (gs.map Prod.fst).Nodup) (ha : t.Admits gs) :
    router.perform (gs.flatMap groupCalls) t = .ok () (gs.foldl grow t) := by
  induction gs generalizing t with
  | nil => rfl
  | cons g gs ih =>
    obtain ⟨hg, hd⟩ := List.nodup_cons.1 hd
    obtain ⟨hone, hgrow, ha'⟩ := h.grow_of_admits hg ha
    rw [List.flatMap_cons, Router.perform_append_of_ok hone, List.foldl_cons]
    exact ih hgrow hd ha'

theorem exists_first {α : Type} {P : List α → α → Prop} {l : List α}
    (h : ¬ ∀ before a after, l = before ++ a :: after → ¬ P before a) :
    ∃ before a after, l = before ++ a :: after ∧ P before a ∧
      ∀ b c d, before = b ++ c :: d → ¬ P b c := by
  induction l using List.reverseRecOn with
  | nil => exact absurd (fun before a after hl => absurd hl.symm (by simp)) h
  | append_singleton l x ih =>
    by_cases hl : ∀ before a after, l = before ++ a :: after → ¬ P before a
    · -- what there is in `l ++ [x]` but not in `l` is `x` behind all of `l`
      refine ⟨l, x, [], rfl, ?_, hl⟩
      by_contra hx
      refine h fun before a after hsplit => ?_
      rcases List.eq_nil_or_concat after with rfl | ⟨after, y, rfl⟩
      · obtain ⟨rfl, hax⟩ := List.append_inj' hsplit rfl
        cases hax
        exact hx
      · rw [List.concat_eq_append, ← List.cons_append, ← List.append_assoc] at hsplit
        exact hl before a after (List.append_inj' hsplit rfl).1
    · obtain ⟨before, a, after, rfl, ha, hfirst⟩ := ih hl
      exact ⟨before, a, after ++ [x], by rw [List.append_assoc, List.cons_append], ha, hfirst⟩

/-- Where not all groups are admitted, there is a first clash, ahead of which all are. -/
theorem exists_first_clash (h : ¬ t.Admits gs) :
    ∃ gs₁ route before e after gs₂, gs = gs₁ ++ (route, before ++ e :: after) :: gs₂ ∧
      t.Admits (gs₁ ++ [(route, before)]) ∧ Clashes (t.views route) before e := by
  -- the groups first, then the endpoints of the group that is found
  let P (_ : List (String × List Endpoint)) (g : String × List Endpoint) : Prop :=
    ¬ ∀ before e after, g.2 = before ++ e :: after → ¬ Clashes (t.views g.1) before e
  have hP : ¬ ∀ gs₁ g gs₂, gs = gs₁ ++ g :: gs₂ → ¬ P gs₁ g := by
    refine fun hall => h fun g hg => ?_
    obtain ⟨gs₁, gs₂, hsplit⟩ := List.append_of_mem hg
    exact not_not.1 (hall gs₁ g gs₂ hsplit)
  obtain ⟨gs₁, ⟨route, es⟩, gs₂, rfl, hroute, hahead⟩ := exists_first hP
  obtain ⟨before, e, after, rfl, hc, hbefore⟩ := exists_first hroute
  refine ⟨gs₁, route, before, e, after, gs₂, rfl, fun g hg => ?_, hc⟩
  rcases List.mem_append.1 hg with hg | hg
  · obtain ⟨l, r, hsplit⟩ := List.append_of_mem hg
    exact not_not.1 (hahead l g r hsplit)
  · rw [List.mem_singleton.1 hg]
    exact hbefore

theorem Sound.route?_foldl_grow (h : t.Sound) (hd : (gs.map Prod.fst).Nodup) (ha : t.Admits gs)
    (hn : name ∉ gs.map Prod.fst) : (gs.foldl grow t).route? name = t.route? name := by
  induction gs generalizing t with
  | nil => rfl
  | cons g gs ih =>
    obtain ⟨hg, hd⟩ := List.nodup_cons.1 hd
    rw [List.map_cons, List.mem_cons, not_or] at hn
    obtain ⟨-, hgrow, ha'⟩ := h.grow_of_admits hg ha
    rw [List.foldl_cons, ih hgrow hd ha' hn.2, h.route?_grow, if_neg hn.1]

theorem Sound.views_foldl_grow (h : t.Sound) (hd : (gs.map Prod.fst).Nodup) (ha : t.Admits gs)
    (hn : name ∉ gs.map Prod.fst) : (gs.foldl grow t).views name = t.views name := by
  rw [views, h.route?_foldl_grow hd ha hn, views]

/-- The registration ends at the first clash, when all ahead of it is registered. -/
theorem Sound.perform_groups_of_clash (h : t.Sound) {gs₁ gs₂ : List (String × List Endpoint)}
    (hd : ((gs₁ ++ (route, before ++ e :: rest) :: gs₂).map Prod.fst).Nodup)
    (ha : t.Admits (gs₁ ++ [(route, before)])) (hc : Clashes (t.views route) before e) :
    router.perform ((gs₁ ++ (route, before ++ e :: rest) :: gs₂).flatMap groupCalls) t =
      .error (.duplicateView route e.options.conditions) ((gs₁ ++ [(route, before)]).foldl grow t) := by
  rw [List.map_append, List.nodup_append'] at hd
  have hroute : route ∉ gs₁.map Prod.fst := fun hr => hd.2.2 hr (List.mem_cons_self ..)
  have ha₁ : t.Admits gs₁ := fun g hg => ha g (List.mem_append_left _ hg)
  have hok := h.perform_groups_of_admits hd.1 ha₁
  have hviews := h.views_foldl_grow hd.1 ha₁ hroute
  have hbefore := ha (route, before) (List.mem_append_right _ (List.mem_singleton_self _))
  rw [List.flatMap_append, Router.perform_append_of_ok hok, List.flatMap_cons, List.foldl_append]
  rw [← hviews] at hbefore hc
  exact Router.perform_append_of_error ((h.perform hok).perform_groupCalls_of_clash hbefore hc)

/-- Groups with routes of their own are all registered, or there is a first clash. -/
theorem Sound.perform_groups_cases (h : t.Sound) (hd : (gs.map Prod.fst).Nodup) :
    t.Admits gs ∧ router.perform (gs.flatMap groupCalls) t = .ok () (gs.foldl grow t) ∨
      ¬ t.Admits gs ∧ ∃ gs₁ route before e rest gs₂, gs = gs₁ ++ (route, before ++ e :: rest) :: gs₂ ∧
        t.Admits (gs₁ ++ [(route, before)]) ∧ Clashes (t.views route) before e ∧ ∃ t',
          router.Accepts t ((gs₁ ++ [(route, before)]).flatMap groupCalls) t' ∧
          router.perform (gs.flatMap groupCalls) t = .error (.duplicateView route e.options.conditions) t' := by
  by_cases ha : t.Admits gs
  · exact .inl ⟨ha, h.perform_groups_of_admits hd ha⟩
  · obtain ⟨gs₁, route, before, e, rest, gs₂, rfl, hahead, hc⟩ := exists_first_clash ha
    have hd' : ((gs₁ ++ [(route, before)]).map Prod.fst).Nodup := by
      rw [List.map_append] at hd ⊢
      exact hd.sublist ((List.singleton_sublist.2 (List.mem_cons_self ..)).append_left _)
    have haccepts := Router.perform_eq_ok_iff.1 (h.perform_groups_of_admits hd' hahead)
    exact .inr ⟨ha, gs₁, route, before, e, rest, gs₂, rfl, hahead, hc, _, haccepts,
      h.perform_groups_of_clash hd hahead hc⟩

theorem Sound.register_eq_ok_iff (h : t.Sound) {m : EndpointMap} (hd : (m.groups.map Prod.fst).Nodup) :
    Service.ofRouter (m.register router) t = .ok () t' ↔ t.Admits m.groups ∧ t' = m.groups.foldl grow t := by
  rw [EndpointMap.register_eq_perform, Service.ofRouter_eq_ok_iff]
  rcases h.perform_groups_cases hd with ⟨ha, hok⟩ | ⟨ha, _, _, _, _, _, _, -, -, -, _, -, herror⟩
  · rw [hok, and_iff_right ha, eq_comm]
    simp
  · rw [herror]
    exact iff_of_false (by simp) fun hadmits => ha hadmits.1

/-! ### What is registered -/

theorem joined_cons (g : String × List Endpoint) (gs : List (String × List Endpoint)) (r : RouteEntry) :
    r.joined (g :: gs) =
      if r.name = g.1 then ⟨r.name, r.name, r.views ++ g.2.map Endpoint.entry⟩ else r.joined gs := by
  rw [RouteEntry.joined, List.lookup_cons]
  by_cases hr : r.name = g.1
  · simp [hr]
  · simp only [beq_eq_false_iff_ne.2 hr, if_neg hr, RouteEntry.joined]

theorem joined_cons_of_ne (hr : r.name ≠ g.1) : r.joined (g :: gs) = r.joined gs := by
  rw [joined_cons, if_neg hr]

theorem joined_of_not_mem (hr : r.name ∉ gs.map Prod.fst) : r.joined gs = r := by
  induction gs with
  | nil => rfl
  | cons g gs ih =>
    rw [List.map_cons, List.mem_cons, not_or] at hr
    rw [joined_cons_of_ne hr.1, ih hr.2]

theorem joined_joined (hg : g.1 ∉ gs.map Prod.fst) (r : RouteEntry) :
    (r.joined [g]).joined gs = r.joined (g :: gs) := by
  rw [joined_cons, joined_cons]
  split
  · rename_i hr
    exact joined_of_not_mem (hr ▸ hg)
  · rfl

theorem Sound.grow_routes (h : t.Sound) (g : String × List Endpoint) :
    (t.grow g).routes =
      if g.1 ∈ t.names then t.routes.map (·.joined [g])
      else t.routes ++ [RouteEntry.joined [g] ⟨g.1, g.1, []⟩] := by
  split
  · rename_i hn
    rw [grow, h.addRoute_known hn, List.map_map]
    refine List.map_congr_left fun r _ => ?_
    rw [Function.comp_apply, joined_cons]
    by_cases hr : r.name = g.1 <;> simp [hr, RouteEntry.joined]
  · rename_i hn
    have hold : (t.routes.map fun r =>
        if r.name = g.1 then { r with views := r.views ++ g.2.map Endpoint.entry } else r) = t.routes := by
      rw [List.map_congr_left fun r hr => if_neg (name_ne_of_mem hn hr), List.map_id']
    rw [grow, h.addRoute_new hn, List.map_append, hold, joined_cons]
    simp

theorem name_joined (gs : List (String × List Endpoint)) (r : RouteEntry) : (r.joined gs).name = r.name := by
  unfold RouteEntry.joined
  split <;> rfl

theorem Sound.names_grow (h : t.Sound) (g : String × List Endpoint) :
    (t.grow g).names = if g.1 ∈ t.names then t.names else t.names ++ [g.1] := by
  rw [names, h.grow_routes]
  split
  · rw [List.map_map]
    exact List.map_congr_left fun r _ => name_joined [g] r
  · rw [List.map_append, List.map_singleton, name_joined]
    rfl

theorem Sound.foldl_grow_routes (h : t.Sound) (hd : (gs.map Prod.fst).Nodup) (ha : t.Admits gs) :
    (gs.foldl grow t).routes = t.routes.map (·.joined gs) ++
      ((gs.map Prod.fst).filter (· ∉ t.names)).map fun route => RouteEntry.joined gs ⟨route, route, []⟩ := by
  -- the first group is registered before the others, whose routes are different from its own
  induction gs generalizing t with
  | nil => simp [RouteEntry.joined]
  | cons g gs ih =>
    obtain ⟨hg, hd⟩ := List.nodup_cons.1 hd
    obtain ⟨-, hgrow, ha'⟩ := h.grow_of_admits hg ha
    have hrest : ∀ route ∈ gs.map Prod.fst,
        RouteEntry.joined (g :: gs) ⟨route, route, []⟩ = RouteEntry.joined gs ⟨route, route, []⟩ := by
      intro route hr
      have hne : route ≠ g.1 := fun hrg => hg (hrg ▸ hr)
      exact joined_cons_of_ne hne
    rw [List.foldl_cons, ih hgrow hd ha', h.grow_routes, h.names_grow, List.map_cons]
    by_cases hn : g.1 ∈ t.names
    · rw [if_pos hn, if_pos hn, List.filter_cons_of_neg (by simpa using hn), List.map_map]
      congr 1
      · exact List.map_congr_left fun r _ => joined_joined hg r
      · exact List.map_congr_left fun route hr => (hrest route (List.mem_of_mem_filter hr)).symm
    · -- the new route comes behind the old ones, and `g` is the group of none of these
      rw [if_neg hn, if_neg hn, List.filter_cons_of_pos (by simpa using hn), List.map_append,
        List.map_singleton, joined_joined hg, List.append_assoc, List.map_cons, List.singleton_append]
      have hold : t.routes.map (·.joined gs) = t.routes.map (·.joined (g :: gs)) :=
        List.map_congr_left fun r hr => (joined_cons_of_ne (name_ne_of_mem hn hr)).symm
      have hnew : (gs.map Prod.fst).filter (· ∉ t.names ++ [g.1]) =
          (gs.map Prod.fst).filter (· ∉ t.names) := by
        refine List.filter_congr fun route hr => ?_
        have hne : route ≠ g.1 := fun hrg => hg (hrg ▸ hr)
        simp [hne]
      rw [hold, hnew]
      refine congrArg _ (congrArg _ (List.map_congr_left fun route hr => ?_))
      exact (hrest route (List.mem_of_mem_filter hr)).symm

theorem joined_of_mem (hd : (gs.map Prod.fst).Nodup) (hg : g ∈ gs) :
    RouteEntry.joined gs ⟨g.1, g.1, []⟩ = .ofGroup g := by
  induction gs with
  | nil => cases hg
  | cons g' gs ih =>
    obtain ⟨hg', hd⟩ := List.nodup_cons.1 hd
    rcases List.mem_cons.1 hg with rfl | hg
    · rw [joined_cons, if_pos rfl, List.nil_append, RouteEntry.ofGroup]
    · have hne : g.1 ≠ g'.1 := fun hgg => hg' (hgg ▸ List.mem_map_of_mem hg)
      rw [joined_cons_of_ne hne, ih hd hg]

theorem foldl_grow_routes_empty (hd : (gs.map Prod.fst).Nodup) (ha : Admits .empty gs) :
    (gs.foldl grow .empty).routes = gs.map .ofGroup := by
  rw [sound_empty.foldl_grow_routes hd ha]
  have hnew : (gs.map Prod.fst).filter (· ∉ empty.names) = gs.map Prod.fst :=
    List.filter_eq_self.2 fun route _ => rfl
  rw [hnew, List.map_map]
  exact List.map_congr_left fun g hg => joined_of_mem hd hg

/-- Grouped endpoints are registered unless there is a clash, every route at once. -/
theorem register_after (calls : List Call) {m : EndpointMap} (hm : m.Built) :
    let t := after calls
    let outcome := Service.ofRouter (m.register router) t
    ((∃ t', outcome = .ok () t') ↔ t.Admits m.groups) ∧
      (∀ t', outcome = .ok () t' → t'.routes = t.routes.map (·.joined m.groups) ++
        (m.routes.filter (· ∉ t.names)).map fun route => RouteEntry.joined m.groups ⟨route, route, []⟩) ∧
      ∀ err t', outcome = .error err t' → ∃ gs₁ route before e after gs₂,
        m.groups = gs₁ ++ (route, before ++ e :: after) :: gs₂ ∧
        t.Admits (gs₁ ++ [(route, before)]) ∧ Clashes (t.views route) before e ∧
        err = .router (.duplicateView route e.options.conditions) ∧
        router.Accepts t ((gs₁ ++ [(route, before)]).flatMap groupCalls) t' := by
  intro t outcome
  have ht : t.Sound := sound_after calls
  obtain ⟨es, hes⟩ := hm.exists_groups
  have hrun : outcome = Service.ofRouter (router.perform (m.groups.flatMap groupCalls)) t := by
    rw [← EndpointMap.register_eq_perform]
  rcases ht.perform_groups_cases hes.routes_nodup with
    ⟨ha, hok⟩ | ⟨ha, gs₁, route, before, e, rest, gs₂, hsplit, hahead, hc, t', ht', herror⟩
  · rw [hrun, Service.ofRouter_eq_ok_iff.2 hok]
    refine ⟨iff_of_true ⟨_, rfl⟩ ha, fun t' h => ?_, fun err t' h => ?_⟩
    · cases h
      exact ht.foldl_grow_routes hes.routes_nodup ha
    · cases h
  · rw [hrun, Service.ofRouter_eq_error_iff.2 ⟨_, herror, rfl⟩]
    refine ⟨iff_of_false ?_ ha, fun t' h => ?_, fun err t' h => ?_⟩
    · rintro ⟨_, h⟩
      cases h
    · cases h
    · cases h
      exact ⟨gs₁, route, before, e, rest, gs₂, hsplit, hahead, hc, rfl, ht'⟩

/-- `/x` is there already and has a view without options, which is met by the last endpoint. -/
theorem register_after_one_view :
    let view : Handler := { serial := 0, name := "view", call := fun _ => "" }
    let t := after [.addRoute "/x" "/old", .addView "/x" view {}]
    let es : List Endpoint := [⟨"/y", view, {}⟩, ⟨"/x", view, { methods := some .get }⟩]
    let fits := EndpointMap.ofList es
    let clashes := EndpointMap.ofList (es ++ [⟨"/x", view, {}⟩])
    fits.Built ∧ clashes.Built ∧ t.Admits fits.groups ∧ ¬ t.Admits clashes.groups ∧
      ∃ t', Service.ofRouter (fits.register router) t = .ok () t' ∧ t'.routes =
        [⟨"/x", "/x", [⟨view, {}⟩, ⟨view, { methods := some .get }⟩]⟩, ⟨"/y", "/y", [⟨view, {}⟩]⟩] := by
  intro view t es fits clashes
  have hfits := register_after [.addRoute "/x" "/old", .addView "/x" view {}] (EndpointMap.built_ofList es)
  have hclashes := register_after [.addRoute "/x" "/old", .addView "/x" view {}]
    (EndpointMap.built_ofList (es ++ [⟨"/x", view, {}⟩]))
  have hadmits : t.Admits fits.groups := by
    refine hfits.1.1 ?_
    dsimp only [view, es]
    exact ⟨_, rfl⟩
  have hnot : ¬ t.Admits clashes.groups := by
    intro ha
    obtain ⟨t', ht'⟩ := hclashes.1.2 ha
    dsimp only [view, es] at ht'
    cases ht'
  obtain ⟨t', ht'⟩ := hfits.1.2 hadmits
  refine ⟨EndpointMap.built_ofList _, EndpointMap.built_ofList _, hadmits, hnot, t', ht', ?_⟩
  rw [hfits.2.1 t' ht']
  dsimp only [view, es]
  rfl

end Registry

end RouteTree
