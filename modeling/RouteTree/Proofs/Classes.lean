import RouteTree.Proofs.Piecewise

/-!
# Classes of views that collide

To collide is to have the same signature, and so it is an equivalence (`ViewOptions.collides_equivalence`). Where views
are added to a new route one after the other, the route has a view of every class that has come so far, whether that
one was accepted or refused. Hence it accepts the first view of each class and no other (`Registry.firstOfClass`), and
which classes there are in the end does not depend on the order of the views (`Registry.addViews_firstOfClass`).
-/

namespace RouteTree

namespace ViewOptions

theorem collides_equivalence : Equivalence fun a b : ViewOptions => a.collides b = true := by
  simp only [collides_iff]
  exact ⟨fun _ => rfl, Eq.symm, Eq.trans⟩

theorem collides_renderer (a b : ViewOptions) (renderer : Option String) :
    collides { a with renderer } b = a.collides b := rfl

theorem collides_congr_methods (a b : ViewOptions) {m m' : Methods}
    (h : ∀ token, token ∈ m.tokens ↔ token ∈ m'.tokens) :
    collides { a with methods := some m } b = collides { a with methods := some m' } b := by
  have hsignature : signature { a with methods := some m } = signature { a with methods := some m' } := by
    have hset : m.tokens.toFinset = m'.tokens.toFinset := Finset.ext fun token => by simpa using h token
    simp only [signature, Option.map_some, hset]
  rw [Bool.eq_iff_iff, collides_iff, collides_iff, hsignature]

end ViewOptions

namespace Registry
open ViewOptions (collides_iff)

/-- The views that collide with no earlier one, where those in `earlier` come before all others. -/
def firstOfClass (earlier : List ViewEntry) : List ViewEntry → List ViewEntry
  | [] => []
  | v :: views =>
    if ∃ u ∈ earlier, u.options.collides v.options = true then firstOfClass (earlier ++ [v]) views
    else v :: firstOfClass (earlier ++ [v]) views

/-- The calls that add views to a route in order. -/
def viewCalls (route : String) (views : List ViewEntry) : List Call :=
  views.map fun v => .addView route v.view v.options

variable {t : Registry} {route : String} {v : ViewEntry}
  {earlier views views' : List ViewEntry}

theorem exists_collides_iff {o : ViewOptions} :
    (∃ u ∈ views, u.options.collides o = true) ↔ o.signature ∈ signatures views := by
  simp only [collides_iff, signatures, List.mem_map]

/-! ### The first of each class -/

theorem firstOfClass_cons (earlier : List ViewEntry) (v : ViewEntry) (views : List ViewEntry) :
    firstOfClass earlier (v :: views) =
      if v.options.signature ∈ signatures earlier then firstOfClass (earlier ++ [v]) views
      else v :: firstOfClass (earlier ++ [v]) views := by
  simp only [firstOfClass, exists_collides_iff]

theorem mem_signatures_firstOfClass (s : Signature) :
    s ∈ signatures (firstOfClass earlier views) ↔ s ∈ signatures views ∧ s ∉ signatures earlier := by
  induction views generalizing earlier with
  | nil => simp [firstOfClass, signatures]
  | cons v views ih =>
    have hcons : ∀ views, signatures (v :: views) = v.options.signature :: signatures views := fun _ => rfl
    have hsnoc : s ∉ signatures (earlier ++ [v]) ↔ s ∉ signatures earlier ∧ s ≠ v.options.signature := by
      simp [signatures]
    rw [firstOfClass_cons]
    split
    · rename_i hold
      rw [ih, hsnoc, hcons, List.mem_cons]
      constructor
      · rintro ⟨hs, hnew, -⟩
        exact ⟨.inr hs, hnew⟩
      · rintro ⟨hs, hnew⟩
        have hne : s ≠ v.options.signature := fun hsv => hnew (hsv ▸ hold)
        exact ⟨hs.resolve_left hne, hnew, hne⟩
    · rename_i hnew
      rw [hcons, hcons, List.mem_cons, List.mem_cons, ih, hsnoc]
      by_cases hsv : s = v.options.signature
      · simp [hsv, hnew]
      · simp [hsv]

theorem nodup_signatures_firstOfClass (earlier views : List ViewEntry) :
    (signatures (firstOfClass earlier views)).Nodup := by
  induction views generalizing earlier with
  | nil => exact List.nodup_nil
  | cons v views ih =>
    rw [firstOfClass_cons]
    split
    · exact ih _
    · refine List.nodup_cons.2 ⟨fun hv => ?_, ih _⟩
      have hlater := ((mem_signatures_firstOfClass _).1 hv).2
      exact hlater (by simp [signatures])

/-- The order of the views does not matter for the classes, of which each has one view. -/
theorem perm_signatures_firstOfClass (h : views.Perm views') (earlier : List ViewEntry) :
    (signatures (firstOfClass earlier views)).Perm (signatures (firstOfClass earlier views')) := by
  rw [List.perm_ext_iff_of_nodup (nodup_signatures_firstOfClass ..) (nodup_signatures_firstOfClass ..)]
  intro s
  have hs : s ∈ signatures views ↔ s ∈ signatures views' := (h.map _).mem_iff
  rw [mem_signatures_firstOfClass, mem_signatures_firstOfClass, hs]

/-! ### Adding views in order -/

/-- The registry with more views behind those of a route. -/
def appendViews (t : Registry) (route : String) (more : List ViewEntry) : Registry :=
  { t with routes := t.routes.map fun r => if r.name = route then { r with views := r.views ++ more } else r }

theorem appendViews_nil (t : Registry) (route : String) : t.appendViews route [] = t := by
  have hsame : ∀ r ∈ t.routes, (if r.name = route then { r with views := r.views ++ [] } else r) = r := by
    intro r _
    rw [List.append_nil, ite_self]
  rw [appendViews, List.map_congr_left hsame, List.map_id']

theorem appendViews_appendViews (t : Registry) (route : String) (more further : List ViewEntry) :
    (t.appendViews route more).appendViews route further = t.appendViews route (more ++ further) := by
  refine congrArg (Registry.mk · t.positions) ?_
  rw [appendViews, List.map_map]
  refine List.map_congr_left fun r _ => ?_
  by_cases hr : r.name = route <;> simp [hr]

theorem names_appendViews (t : Registry) (route : String) (more : List ViewEntry) :
    (t.appendViews route more).names = t.names := by
  rw [names, appendViews, List.map_map]
  refine List.map_congr_left fun r _ => ?_
  by_cases hr : r.name = route <;> simp [hr]

theorem Sound.views_appendViews (h : t.Sound) (hroute : route ∈ t.names) (more : List ViewEntry) :
    (t.appendViews route more).views route = t.views route ++ more := by
  obtain ⟨r, hr, hname⟩ := List.mem_map.1 hroute
  have hfound := h.route?_eq_some_iff.2 ⟨hr, hname⟩
  rw [views, views, appendViews, route?_map_routes, hfound, Option.map_some, if_pos hname]
  rfl

theorem Sound.addView_eq_ok_iff (h : t.Sound) (hroute : route ∈ t.names) {view : Handler} {options : ViewOptions} :
    (∃ t', t.addView route view options = .ok t') ↔ ¬ ∃ u ∈ t.views route, u.options.collides options = true := by
  obtain ⟨r, hr, hname⟩ := List.mem_map.1 hroute
  have hadd : t.addView route view options = if options.signature ∈ signatures r.views then _ else _ :=
    h.addView_known hr hname
  rw [exists_collides_iff, hadd, h.views_eq hr hname]
  split <;> simp [*]

/-- A view is put behind those of its route or leaves the registry as it is. -/
theorem Sound.leave_addView_known (h : t.Sound) (hroute : route ∈ t.names) (v : ViewEntry) :
    (Call.addView route v.view v.options).leave t =
      if v.options.signature ∈ signatures (t.views route) then t else t.appendViews route [v] := by
  obtain ⟨r, hr, hname⟩ := List.mem_map.1 hroute
  have hadd : t.addView route v.view v.options = if v.options.signature ∈ signatures r.views then _ else _ :=
    h.addView_known hr hname
  rw [Call.leave_addView, hadd, h.views_eq hr hname]
  split <;> rfl

/-- If a route has the classes of the views that came earlier, it gets the first views of the others. -/
theorem Sound.foldl_leave_viewCalls (h : t.Sound) (hroute : route ∈ t.names)
    (hclasses : ∀ s, s ∈ signatures (t.views route) ↔ s ∈ signatures earlier) (views : List ViewEntry) :
    (viewCalls route views).foldl Call.leave t = t.appendViews route (firstOfClass earlier views) := by
  -- a view adds its class to both sides of `hclasses`, whether it is accepted or refused
  induction views generalizing t earlier with
  | nil => exact (t.appendViews_nil route).symm
  | cons v views ih =>
    have hsnoc : ∀ views s, s ∈ signatures (views ++ [v]) ↔ s ∈ signatures views ∨ s = v.options.signature := by
      simp [signatures]
    have hsound := h.leave (.addView route v.view v.options)
    show (viewCalls route views).foldl Call.leave ((Call.addView route v.view v.options).leave t) = _
    rw [h.leave_addView_known hroute v] at hsound ⊢
    rw [firstOfClass_cons]
    by_cases hold : v.options.signature ∈ signatures (t.views route)
    · -- what was refused is of a class that is there
      rw [if_pos hold, if_pos ((hclasses _).1 hold)]
      refine ih h hroute fun s => ?_
      rw [hsnoc, ← hclasses]
      exact ⟨.inl, fun hs => hs.elim id fun hsv => hsv ▸ hold⟩
    · rw [if_neg hold] at hsound ⊢
      rw [if_neg (mt (hclasses _).2 hold)]
      have hroute' : route ∈ (t.appendViews route [v]).names := by rwa [names_appendViews]
      have hclasses' : ∀ s, s ∈ signatures ((t.appendViews route [v]).views route) ↔
          s ∈ signatures (earlier ++ [v]) := by
        intro s
        rw [h.views_appendViews hroute, hsnoc, hsnoc, hclasses]
      rw [ih hsound hroute' hclasses', appendViews_appendViews]
      rfl

/-- A new route accepts the first view of each class, in order. -/
theorem Sound.foldl_leave_addRoute (h : t.Sound) (hnew : route ∉ t.names) (pattern : String)
    (views : List ViewEntry) :
    ((viewCalls route views).foldl Call.leave (t.addRoute route pattern)).routes =
      t.routes ++ [⟨route, pattern, firstOfClass [] views⟩] := by
  have hadd : t.addRoute route pattern = _ := h.addRoute_new hnew
  have hroute : route ∈ (t.addRoute route pattern).names := by simp [hadd, names]
  have hnone : (t.addRoute route pattern).views route = [] := by
    rw [Registry.views, h.route?_addRoute, if_pos rfl, h.views_unknown hnew]
    rfl
  have hother : ∀ r ∈ t.routes,
      (if r.name = route then { r with views := r.views ++ firstOfClass [] views } else r) = r :=
    fun r hr => if_neg (name_ne_of_mem hnew hr)
  rw [(h.addRoute route pattern).foldl_leave_viewCalls hroute (fun s => by rw [hnone]) views, appendViews, hadd]
  simp only [List.map_append, List.map_cons, List.map_nil, ↓reduceIte, List.nil_append]
  rw [List.map_congr_left hother, List.map_id']

theorem Sound.views_foldl_leave_addRoute (h : t.Sound) (hnew : route ∉ t.names) (pattern : String)
    (views : List ViewEntry) :
    ((viewCalls route views).foldl Call.leave (t.addRoute route pattern)).views route = firstOfClass [] views := by
  have hroutes := h.foldl_leave_addRoute hnew pattern views
  exact ((h.addRoute route pattern).foldl_leave _).views_eq (r := ⟨route, pattern, firstOfClass [] views⟩)
    (by simp [hroutes]) rfl

/-- To collide is an equivalence for which neither the renderer counts nor the order of methods and their repetition.
Of views that are added to a new route, those are accepted that collide with no earlier one. In any other order there
are as many of them, of the same classes. -/
theorem addViews_firstOfClass (calls : List Call) {route : String} (hnew : route ∉ (after calls).names)
    (pattern : String) (views : List ViewEntry) :
    let added (views : List ViewEntry) : Registry :=
      (viewCalls route views).foldl Call.leave ((after calls).addRoute route pattern)
    (Equivalence fun a b : ViewOptions => a.collides b = true) ∧
    (∀ (a b : ViewOptions) (renderer : Option String),
      ViewOptions.collides { a with renderer } b = a.collides b) ∧
    (∀ (a b : ViewOptions) (m m' : Methods), (∀ token, token ∈ m.tokens ↔ token ∈ m'.tokens) →
      ViewOptions.collides { a with methods := some m } b = ViewOptions.collides { a with methods := some m' } b) ∧
    (added views).routes = (after calls).routes ++ [⟨route, pattern, firstOfClass [] views⟩] ∧
    (∀ (before : List ViewEntry) (v : ViewEntry), (∃ t', (added before).addView route v.view v.options = .ok t') ↔
      ∀ u ∈ before, ¬ u.options.collides v.options = true) ∧
    ∀ views', views.Perm views' →
      ((added views').views route).length = ((added views).views route).length ∧
      ∀ o : ViewOptions, (∃ v ∈ (added views').views route, v.options.collides o = true) ↔
        ∃ v ∈ (added views).views route, v.options.collides o = true := by
  intro added
  have h : (after calls).Sound := sound_after calls
  have hviews : ∀ views, (added views).views route = firstOfClass [] views :=
    h.views_foldl_leave_addRoute hnew pattern
  refine ⟨ViewOptions.collides_equivalence, ViewOptions.collides_renderer,
    fun a b m m' => ViewOptions.collides_congr_methods a b, h.foldl_leave_addRoute hnew pattern views,
    fun before v => ?accepted, fun views' hperm => ?permuted⟩
  case accepted =>
    have hroute : route ∈ (added before).names := by
      simp [added, names, h.foldl_leave_addRoute hnew pattern before]
    rw [((h.addRoute route pattern).foldl_leave _).addView_eq_ok_iff hroute, hviews, exists_collides_iff,
      mem_signatures_firstOfClass, ← exists_collides_iff]
    simp [signatures]
  case permuted =>
    have hsame := perm_signatures_firstOfClass hperm []
    rw [hviews, hviews]
    refine ⟨?_, fun o => ?_⟩
    · simpa [signatures] using hsame.length_eq.symm
    · rw [exists_collides_iff, exists_collides_iff, hsame.mem_iff]

/-- No methods, an empty list and a list of some are of three classes. Neither another order of the methods nor another
renderer or handler makes a new one. -/
theorem addViews_firstOfClass_three_classes :
    let view : Handler := { serial := 0, name := "view", call := fun _ => "" }
    let other : Handler := { serial := 1, name := "other", call := fun _ => "" }
    let calls : List Call := [.addRoute "/a" "/a", .addView "/a" view {}]
    let both : ViewEntry := ⟨view, { methods := some ⟨["GET", "POST"]⟩, renderer := some "json" }⟩
    let again : ViewEntry := ⟨other, { methods := some ⟨["POST", "GET", "POST"]⟩ }⟩
    let any : ViewEntry := ⟨view, {}⟩
    let empty : ViewEntry := ⟨view, { methods := some ⟨[]⟩ }⟩
    let added (views : List ViewEntry) : Registry :=
      (viewCalls "/x" views).foldl Call.leave ((after calls).addRoute "/x" "/x")
    "/x" ∉ (after calls).names ∧
      (added [both, again, any, empty, any]).routes =
        [⟨"/a", "/a", [any]⟩, ⟨"/x", "/x", [both, any, empty]⟩] ∧
      ((added [any, empty, any, again, both]).views "/x").length = 3 := by
  intro view other calls both again any empty added
  have hnew : "/x" ∉ (after calls).names := by decide
  obtain ⟨-, -, -, hroutes, -, hperm⟩ := addViews_firstOfClass calls hnew "/x" [both, again, any, empty, any]
  have hfirst : firstOfClass [] [both, again, any, empty, any] = [both, any, empty] := by
    simp +decide [firstOfClass, ViewOptions.collides, Methods.sameSet_iff_toFinset, both, again, any, empty]
  have hviews := (sound_after calls).views_foldl_leave_addRoute hnew "/x" [both, again, any, empty, any]
  have hturned : [both, again, any, empty, any].Perm [any, empty, any, again, both] := (List.reverse_perm _).symm
  refine ⟨hnew, ?_, (hperm _ hturned).1.trans ?_⟩
  · rw [hroutes, hfirst]
    rfl
  · rw [hviews, hfirst]
    rfl

end Registry

end RouteTree
