import RouteTree.Proofs.Positions
import RouteTree.Proofs.Signature
import RouteTree.Router.Registry

/-!
# What calls do to a registry

`Registry.Sound` is the invariant of a registry: its positions are those of its names, and no two views
of a route collide. Where it holds, adding a route or a view is described by names alone
(`Sound.addRoute_known`, `Sound.addRoute_new`, `Sound.addView_known`), and it is kept by every call,
refused or not. So it holds after any calls on an empty registry, and each of these calls changes only
what `Call.Framed` allows (`Registry.after_sound_framed`).
-/

namespace RouteTree.Registry

def names (t : Registry) : List String := t.routes.map (·.name)

/-- The positions are those of the names, and no two views of a route collide. -/
structure Sound (t : Registry) : Prop where
  positions : Indexes t.positions t.names
  distinct : ∀ r ∈ t.routes, (r.views.map (·.options.signature)).Nodup

variable {t t' : Registry} {name route pattern : String} {view : Handler} {options : ViewOptions}
  {r : RouteEntry}

theorem sound_empty : empty.Sound := ⟨Indexes.empty, fun _ hr => absurd hr List.not_mem_nil⟩

namespace Sound

theorem names_nodup (h : t.Sound) : t.names.Nodup := h.positions.nodup

theorem route?_eq_some_iff (h : t.Sound) : t.route? name = some r ↔ r ∈ t.routes ∧ r.name = name := by
  rw [route?, Option.bind_eq_some_iff]
  constructor
  · rintro ⟨i, hi, hr⟩
    have hname := (h.positions name i).1 hi
    rw [names, List.getElem?_map, hr] at hname
    exact ⟨List.mem_of_getElem? hr, Option.some.inj hname⟩
  · rintro ⟨hr, rfl⟩
    obtain ⟨i, hi⟩ := List.mem_iff_getElem?.1 hr
    exact ⟨i, (h.positions _ i).2 (by rw [names, List.getElem?_map, hi]; rfl), hi⟩

theorem views_eq (h : t.Sound) (hr : r ∈ t.routes) (hname : r.name = route) : t.views route = r.views := by
  rw [views, h.route?_eq_some_iff.2 ⟨hr, hname⟩]; rfl

theorem views_unknown (h : t.Sound) (hn : name ∉ t.names) : t.views name = [] := by
  rw [views, route?, h.positions.eq_none_iff.2 hn]; rfl

/-- Changing routes, but not their names, so that their views still do not collide. -/
theorem map_routes (h : t.Sound) (f : RouteEntry → RouteEntry) (hname : ∀ r, (f r).name = r.name)
    (hviews : ∀ r ∈ t.routes, ((f r).views.map (·.options.signature)).Nodup) :
    Sound { t with routes := t.routes.map f } := by
  refine ⟨?_, fun changed hc => ?_⟩
  · have hnames : (t.routes.map f).map (·.name) = t.names := by
      rw [List.map_map]
      exact List.map_congr_left fun r _ => hname r
    show Indexes t.positions ((t.routes.map f).map (·.name))
    rw [hnames]
    exact h.positions
  · obtain ⟨r, hr, rfl⟩ := List.mem_map.1 hc
    exact hviews r hr

/-! ### Adding routes -/

theorem addRoute_known (h : t.Sound) (hn : name ∈ t.names) :
    t.addRoute name pattern =
      { t with routes := t.routes.map fun r => if r.name = name then { r with pattern } else r } := by
  obtain ⟨i, hi⟩ := h.positions.exists_iff.2 hn
  rw [addRoute, hi]
  exact congrArg (Registry.mk · _) (modify_eq_map RouteEntry.name _ h.names_nodup ((h.positions _ _).1 hi))

theorem addRoute_new (h : t.Sound) (hn : name ∉ t.names) :
    t.addRoute name pattern =
      ⟨t.routes ++ [⟨name, pattern, []⟩], t.positions.insert name t.names.length⟩ := by
  rw [addRoute, h.positions.eq_none_iff.2 hn, names, List.length_map]

theorem addRoute (h : t.Sound) (name pattern : String) : (t.addRoute name pattern).Sound := by
  by_cases hn : name ∈ t.names
  · rw [h.addRoute_known hn]
    refine h.map_routes _ (fun r => ?_) fun r hr => ?_ <;> split
    · rfl
    · rfl
    · exact h.distinct r hr
    · exact h.distinct r hr
  · rw [h.addRoute_new hn]
    refine ⟨?_, fun r hr => ?_⟩
    · show Indexes _ ((t.routes ++ [RouteEntry.mk name pattern []]).map RouteEntry.name)
      rw [List.map_append]
      exact h.positions.snoc hn
    · rcases List.mem_append.1 hr with hr | hr
      · exact h.distinct r hr
      · rw [List.mem_singleton.1 hr]
        exact List.nodup_nil

/-! ### Adding views -/

theorem addView_unknown (h : t.Sound) (hn : route ∉ t.names) :
    t.addView route view options = .error (.unknownRoute route) := by
  rw [addView, h.positions.eq_none_iff.2 hn]; rfl

/-- A known route gets the view at the end of its views, unless it collides with one of them. -/
theorem addView_known (h : t.Sound) (hr : r ∈ t.routes) (hname : r.name = route) :
    t.addView route view options =
      if options.signature ∈ r.views.map (·.options.signature) then
        .error (.duplicateView route options.conditions)
      else
        .ok { t with routes := t.routes.map fun r =>
          if r.name = route then { r with views := r.views ++ [⟨view, options⟩] } else r } := by
  have hn : route ∈ t.names := List.mem_map.2 ⟨r, hr, hname⟩
  obtain ⟨i, hi⟩ := h.positions.exists_iff.2 hn
  have hcollides : (t.views route).any (fun v => v.options.collides options) = true ↔
      options.signature ∈ r.views.map (·.options.signature) := by
    rw [h.views_eq hr hname, List.any_eq_true, List.mem_map]
    simp only [ViewOptions.collides_iff]
  rw [addView, hi]
  by_cases hc : options.signature ∈ r.views.map (·.options.signature)
  · rw [if_pos hc]
    simp only [hcollides.2 hc, ↓reduceIte]
    rfl
  · rw [if_neg hc]
    simp only [mt hcollides.1 hc, Bool.false_eq_true, ↓reduceIte]
    exact congrArg (fun routes => Except.ok (Registry.mk routes _))
      (modify_eq_map RouteEntry.name _ h.names_nodup ((h.positions _ _).1 hi))

theorem addView_cases (h : t.Sound) (route : String) (view : Handler) (options : ViewOptions) :
    (∃ e, t.addView route view options = .error e) ∨
      ∃ r ∈ t.routes, r.name = route ∧ options.signature ∉ r.views.map (·.options.signature) ∧
        t.addView route view options = .ok { t with routes := t.routes.map fun r =>
          if r.name = route then { r with views := r.views ++ [⟨view, options⟩] } else r } := by
  by_cases hn : route ∈ t.names
  · obtain ⟨r, hr, hname⟩ := List.mem_map.1 hn
    rw [h.addView_known hr hname]
    split
    · exact .inl ⟨_, rfl⟩
    · exact .inr ⟨r, hr, hname, ‹_›, rfl⟩
  · exact .inl ⟨_, h.addView_unknown hn⟩

theorem addView (h : t.Sound) (ht' : t.addView route view options = .ok t') : t'.Sound := by
  rcases h.addView_cases route view options with ⟨e, he⟩ | ⟨r, hr, hname, hfresh, hok⟩
  · rw [he] at ht'; cases ht'
  · rw [hok] at ht'
    cases ht'
    refine h.map_routes _ (fun r => ?_) fun other ho => ?_ <;> split
    · rfl
    · rfl
    · rename_i hor
      have hsame : some other = some r :=
        (h.route?_eq_some_iff.2 ⟨ho, hor⟩).symm.trans (h.route?_eq_some_iff.2 ⟨hr, hname⟩)
      obtain rfl := Option.some.inj hsame
      rw [List.map_append]
      exact List.nodup_append'.2 ⟨h.distinct other ho, List.nodup_singleton _, by simpa using hfresh⟩
    · exact h.distinct other ho

end Sound

/-! ### Calls -/

/-- A call of the registry as a router. -/
inductive Call where
  | addRoute (name pattern : String)
  | addView (route : String) (view : Handler) (options : ViewOptions)

namespace Call

def run : Call → EStateM Refusal Registry Unit
  | .addRoute name pattern => router.addRoute name pattern
  | .addView route view options => router.addView route view options

/-- The registry that a call leaves, whether it was refused or not. -/
def leave (t : Registry) (call : Call) : Registry :=
  match call.run t with
  | .ok _ t' => t'
  | .error _ t' => t'

/-- What a call on `t` may change: a route that is there already gets its pattern, a new one is put at
the end without views, an accepted view is put at the end of the views of its route, and a refused one
changes nothing. -/
def Framed (t : Registry) : Call → EStateM.Result Refusal Registry Unit → Prop
  | .addRoute name pattern, .ok _ t' =>
    if name ∈ t.names then
      t' = { t with routes := t.routes.map fun r => if r.name = name then { r with pattern } else r }
    else t'.routes = t.routes ++ [⟨name, pattern, []⟩]
  | .addRoute _ _, .error _ _ => False
  | .addView route view options, .ok _ t' =>
    route ∈ t.names ∧ t' = { t with routes := t.routes.map fun r =>
      if r.name = route then { r with views := r.views ++ [⟨view, options⟩] } else r }
  | .addView _ _ _, .error _ t' => t' = t

end Call

/-- The registry after calls on an empty one, which go on after a refusal. -/
def after (calls : List Call) : Registry := calls.foldl Call.leave empty

/-- After a view the registry is as it was or as the view has left it. -/
theorem Call.leave_addView (t : Registry) (route : String) (view : Handler) (options : ViewOptions) :
    (Call.addView route view options).leave t = (t.addView route view options).toOption.getD t := by
  unfold Call.leave Call.run router
  cases ht' : t.addView route view options <;> simp [ht', Except.toOption]

theorem Sound.leave (h : t.Sound) (call : Call) : (call.leave t).Sound := by
  cases call with
  | addRoute name pattern => exact h.addRoute name pattern
  | addView route view options =>
    rw [Call.leave_addView]
    cases ht' : t.addView route view options with
    | error e => exact h
    | ok t' => exact h.addView ht'

theorem Sound.foldl_leave (h : t.Sound) (calls : List Call) : (calls.foldl Call.leave t).Sound := by
  induction calls generalizing t with
  | nil => exact h
  | cons call calls ih => exact ih (h.leave call)

theorem Sound.framed (h : t.Sound) (call : Call) : call.Framed t (call.run t) := by
  cases call with
  | addRoute name pattern =>
    show if name ∈ t.names then t.addRoute name pattern = _ else (t.addRoute name pattern).routes = _
    split
    · exact h.addRoute_known ‹_›
    · rw [h.addRoute_new ‹_›]
  | addView route view options =>
    unfold Call.run router
    rcases h.addView_cases route view options with ⟨e, he⟩ | ⟨r, hr, hname, -, hok⟩
    · simp [he, Call.Framed]
    · simp only [hok, Call.Framed, and_true]
      exact List.mem_map.2 ⟨r, hr, hname⟩

theorem sound_after (calls : List Call) : (after calls).Sound := sound_empty.foldl_leave calls

/-- After any calls on an empty registry the names are distinct and found at their routes, no two views
of a route collide, and the next call keeps to its frame. -/
theorem after_sound_framed (calls : List Call) :
    (after calls).names.Nodup ∧
      (∀ name r, (after calls).route? name = some r ↔ r ∈ (after calls).routes ∧ r.name = name) ∧
      (∀ r ∈ (after calls).routes, (r.views.map (·.options.signature)).Nodup) ∧
      ∀ call : Call, call.Framed (after calls) (call.run (after calls)) := by
  have h := sound_after calls
  exact ⟨h.names_nodup, fun _ _ => h.route?_eq_some_iff, h.distinct, h.framed⟩

end RouteTree.Registry
