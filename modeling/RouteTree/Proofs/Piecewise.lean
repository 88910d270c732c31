import RouteTree.Proofs.Joining

/-!
# Registering piece by piece

Registering a merged map makes other calls than registering its parts one after the other: the views of a
shared route come together instead of apart. Nevertheless both come to the same. The groups of a map are
admitted exactly if on every route the views that are there and the endpoints that come have signatures of
their own (`Sound.admits_iff`), and for this it does not matter when the endpoints come. What is registered
then is determined by the names in their order and by the route under each name (`Sound.ext_route?`), and
both are the same in the end.
-/

namespace RouteTree

namespace Registry
variable {t t' : Registry} {name route : String} {gs : List (String × List Endpoint)}
  {g : String × List Endpoint} {f m : EndpointMap} {es es' : List Endpoint} {e : Endpoint}

/-! ### Views without a collision -/

/-- The signatures of views in their order. -/
def signatures (views : List ViewEntry) : List Signature := views.map (·.options.signature)

theorem signatures_append (views views' : List ViewEntry) :
    signatures (views ++ views') = signatures views ++ signatures views' := List.map_append

theorem Sound.nodup_signatures (h : t.Sound) (route : String) : (signatures (t.views route)).Nodup := by
  rw [views]
  cases hr : t.route? route with
  | none => exact List.nodup_nil
  | some r => exact h.distinct r (h.route?_eq_some_iff.1 hr).1

/-- None of the endpoints clashes exactly if the views are distinct when all of them have come. -/
theorem forall_not_clashes_iff {views : List ViewEntry} (hv : (signatures views).Nodup) :
    (∀ before e after, es = before ++ e :: after → ¬ Clashes views before e) ↔
      (signatures (views ++ es.map Endpoint.entry)).Nodup := by
  constructor
  · intro h
    induction es using List.reverseRecOn with
    | nil => rwa [List.map_nil, List.append_nil]
    | append_singleton es e ih =>
      have hbefore := ih fun before e' after hsplit =>
        h before e' (after ++ [e]) (by rw [hsplit, List.append_assoc, List.cons_append])
      have hlast := h es e [] rfl
      rw [clashes_iff] at hlast
      rw [List.map_append, ← List.append_assoc, signatures_append]
      refine List.nodup_append'.2 ⟨hbefore, List.nodup_singleton _, ?_⟩
      simpa [signatures, Endpoint.entry] using hlast
  · rintro h before e after rfl hc
    rw [List.map_append, List.map_cons, ← List.append_assoc, signatures_append] at h
    exact (List.nodup_append'.1 h).2.2 (clashes_iff.1 hc) (List.mem_cons_self ..)

/-- On every route the views that are there and the endpoints that come are distinct. -/
theorem Sound.admits_iff (h : t.Sound) (hm : m.Groups es) :
    t.Admits m.groups ↔
      ∀ route, (signatures (t.views route ++ (atRoute es route).map Endpoint.entry)).Nodup := by
  have hgroup : t.Admits m.groups ↔ ∀ route ∈ routesOf es,
      (signatures (t.views route ++ (atRoute es route).map Endpoint.entry)).Nodup := by
    simp only [Admits, hm.groups, List.forall_mem_map, forall_not_clashes_iff (h.nodup_signatures _)]
  rw [hgroup]
  refine ⟨fun hall route => ?_, fun hall route _ => hall route⟩
  by_cases hr : route ∈ routesOf es
  · exact hall route hr
  · rw [hm.outside route hr, List.map_nil, List.append_nil]
    exact h.nodup_signatures route

/-! ### What is in a registry -/

/-- A registry is determined by its names and by the route under each of them. -/
theorem Sound.ext_route? (h : t.Sound) (h' : t'.Sound) (hn : t.names = t'.names)
    (hr : ∀ name, t.route? name = t'.route? name) : t = t' := by
  have hpositions : t.positions = t'.positions := h.positions.unique (hn ▸ h'.positions)
  have hroutes : t.routes = t'.routes := by
    refine List.ext_getElem? fun i => ?_
    cases hi : t.names[i]? with
    | none =>
      have hi' : t'.names[i]? = none := hn ▸ hi
      rw [names, List.getElem?_map, Option.map_eq_none_iff] at hi hi'
      rw [hi, hi']
    | some name =>
      have hname := hr name
      have hposition := (h.positions name i).2 hi
      rw [route?, route?, ← hpositions, hposition] at hname
      exact hname
  cases t
  cases t'
  cases hpositions
  cases hroutes
  rfl

theorem Sound.names_foldl_grow (h : t.Sound) (hd : (gs.map Prod.fst).Nodup) (ha : t.Admits gs) :
    (gs.foldl grow t).names = t.names ++ (gs.map Prod.fst).filter (· ∉ t.names) := by
  rw [names, h.foldl_grow_routes hd ha, List.map_append, List.map_map, List.map_map]
  refine congr (congrArg _ ?_) ?_
  · exact List.map_congr_left fun r _ => name_joined gs r
  · refine (List.map_congr_left fun route _ => ?_).trans (List.map_id _)
    exact name_joined gs _

theorem Sound.route?_foldl_grow_of_mem (h : t.Sound) (hd : (gs.map Prod.fst).Nodup) (ha : t.Admits gs)
    (hg : g ∈ gs) :
    (gs.foldl grow t).route? g.1 = some ⟨g.1, g.1, t.views g.1 ++ g.2.map Endpoint.entry⟩ := by
  induction gs generalizing t with
  | nil => cases hg
  | cons g' gs ih =>
    obtain ⟨hg', hd'⟩ := List.nodup_cons.1 hd
    obtain ⟨-, hgrow, ha'⟩ := h.grow_of_admits hg' ha
    rw [List.foldl_cons]
    rcases List.mem_cons.1 hg with rfl | hg
    · rw [hgrow.route?_foldl_grow hd' ha' hg', h.route?_grow, if_pos rfl]
    · have hne : g.1 ≠ g'.1 := fun hgg => hg' (hgg ▸ List.mem_map_of_mem hg)
      rw [ih hgrow hd' ha' hg, h.views_grow_of_ne hne]

theorem Sound.route?_grown (h : t.Sound) (hm : m.Groups es) (ha : t.Admits m.groups) (name : String) :
    (m.groups.foldl grow t).route? name =
      if name ∈ routesOf es then some ⟨name, name, t.views name ++ (atRoute es name).map Endpoint.entry⟩
      else t.route? name := by
  split
  · rename_i hn
    have hg : (name, atRoute es name) ∈ m.groups := by
      rw [hm.groups]
      exact List.mem_map_of_mem hn
    exact h.route?_foldl_grow_of_mem hm.routes_nodup ha hg
  · rename_i hn
    exact h.route?_foldl_grow hm.routes_nodup ha (hm.map_fst ▸ hn)

theorem Sound.views_grown (h : t.Sound) (hm : m.Groups es) (ha : t.Admits m.groups) (name : String) :
    (m.groups.foldl grow t).views name = t.views name ++ (atRoute es name).map Endpoint.entry := by
  rw [views, h.route?_grown hm ha]
  split
  · rfl
  · rename_i hn
    rw [hm.outside name hn, List.map_nil, List.append_nil, views]

theorem Sound.grown (h : t.Sound) (hm : m.Groups es) (ha : t.Admits m.groups) :
    (m.groups.foldl grow t).Sound :=
  h.perform (h.perform_groups_of_admits hm.routes_nodup ha)

theorem Sound.names_grown (h : t.Sound) (hm : m.Groups es) (ha : t.Admits m.groups) :
    (m.groups.foldl grow t).names = t.names ++ (routesOf es).filter (· ∉ t.names) := by
  rw [h.names_foldl_grow hm.routes_nodup ha, hm.map_fst]

/-! ### One map after the other -/

theorem Sound.admits_merge_iff (h : t.Sound) (hf : f.Groups es) (hm : m.Groups es') :
    t.Admits (f.merge m).groups ↔ t.Admits f.groups ∧ (f.groups.foldl grow t).Admits m.groups := by
  have hviews : ∀ route, t.views route ++ (atRoute (es ++ es') route).map Endpoint.entry =
      (t.views route ++ (atRoute es route).map Endpoint.entry) ++ (atRoute es' route).map Endpoint.entry := by
    intro route
    rw [atRoute_append, List.map_append, List.append_assoc]
  have hlater : ∀ ha : t.Admits f.groups, (f.groups.foldl grow t).Admits m.groups ↔
      ∀ route, (signatures (t.views route ++ (atRoute (es ++ es') route).map Endpoint.entry)).Nodup := by
    intro ha
    simp only [(h.grown hf ha).admits_iff hm, h.views_grown hf ha, hviews]
  rw [h.admits_iff (hf.merge hm)]
  constructor
  · intro hall
    have ha : t.Admits f.groups := (h.admits_iff hf).2 fun route => by
      have hroute := hall route
      rw [hviews, signatures_append] at hroute
      exact (List.nodup_append'.1 hroute).1
    exact ⟨ha, (hlater ha).2 hall⟩
  · rintro ⟨ha, ha'⟩
    exact (hlater ha).1 ha'

/-- The groups of a merged map make the same registry as those of its parts. -/
theorem Sound.foldl_grow_merge (h : t.Sound) (hf : f.Groups es) (hm : m.Groups es') (ha : t.Admits f.groups)
    (ha' : (f.groups.foldl grow t).Admits m.groups) :
    (f.merge m).groups.foldl grow t = m.groups.foldl grow (f.groups.foldl grow t) := by
  have hfirst := h.grown hf ha
  have hmerge := hf.merge hm
  have hall := (h.admits_merge_iff hf hm).2 ⟨ha, ha'⟩
  refine (h.grown hmerge hall).ext_route? (hfirst.grown hm ha') ?_ fun name => ?_
  · rw [h.names_grown hmerge hall, hfirst.names_grown hm ha', h.names_grown hf ha, List.append_assoc,
      routesOf_append, List.filter_append, List.filter_filter]
    refine congrArg (fun l => t.names ++ (_ ++ l)) (List.filter_congr fun route _ => ?_)
    -- new is what is neither an old name nor the route of an earlier endpoint
    simp only [List.mem_append, List.mem_filter, decide_eq_true_eq, ← Bool.decide_and, decide_eq_decide]
    tauto
  · rw [h.route?_grown hmerge hall, hfirst.route?_grown hm ha', h.route?_grown hf ha, h.views_grown hf ha,
      atRoute_append, List.map_append, List.append_assoc]
    have hmem : name ∈ routesOf (es ++ es') ↔ name ∈ routesOf es ∨ name ∈ routesOf es' := by
      simp only [routesOf, List.map_append, List.mem_eraseDups, List.mem_append]
    by_cases hn' : name ∈ routesOf es'
    · rw [if_pos (hmem.2 (.inr hn')), if_pos hn']
    · rw [if_neg hn', hm.outside name hn']
      simp only [hmem, hn', or_false, List.map_nil, List.append_nil]

/-- A merged map is registered exactly if its parts are, and with the same result. -/
theorem Sound.register_merge_iff (h : t.Sound) (hf : f.Groups es) (hm : m.Groups es') :
    Service.ofRouter ((f.merge m).register router) t = .ok () t' ↔
      ∃ t₁, Service.ofRouter (f.register router) t = .ok () t₁ ∧
        Service.ofRouter (m.register router) t₁ = .ok () t' := by
  rw [h.register_eq_ok_iff (hf.merge hm).routes_nodup, h.admits_merge_iff hf hm]
  constructor
  · rintro ⟨⟨ha, ha'⟩, rfl⟩
    refine ⟨_, (h.register_eq_ok_iff hf.routes_nodup).2 ⟨ha, rfl⟩, ?_⟩
    exact ((h.grown hf ha).register_eq_ok_iff hm.routes_nodup).2 ⟨ha', h.foldl_grow_merge hf hm ha ha'⟩
  · rintro ⟨t₁, hfirst, hsecond⟩
    obtain ⟨ha, rfl⟩ := (h.register_eq_ok_iff hf.routes_nodup).1 hfirst
    obtain ⟨ha', rfl⟩ := ((h.grown hf ha).register_eq_ok_iff hm.routes_nodup).1 hsecond
    exact ⟨⟨ha, ha'⟩, (h.foldl_grow_merge hf hm ha ha').symm⟩

end Registry

/-! ### Mappings -/

namespace Tree
variable {as bs : List (Key × Tree)} {limit : Nat} {root : String} {m : EndpointMap}

theorem leaves_append (as bs : List (Key × Tree)) :
    (Tree.mapping (as ++ bs)).leaves = (Tree.mapping as).leaves ++ (Tree.mapping bs).leaves := by
  have hleaves : ∀ entries : List (Key × Tree), (Tree.mapping entries).leaves =
      (entries.flatMap fun b => b.1.steps.flatMap b.2.leavesUnder).map (.below "") := fun entries =>
    leavesUnder_of_isSubtree rfl
  rw [hleaves, hleaves, hleaves, List.flatMap_append, List.map_append]

theorem defects_append (limit : Nat) (as bs : List (Key × Tree)) :
    (Tree.mapping (as ++ bs)).defects limit =
      (Tree.mapping as).defects limit ++ (Tree.mapping bs).defects limit := by
  have hdefects : ∀ entries : List (Key × Tree), (Tree.mapping entries).defects limit =
      (entries.flatMap (branchDefects limit 1)).map (.below "") := fun entries =>
    defectsUnder_of_isSubtree rfl (.inr rfl)
  rw [hdefects, hdefects, hdefects, List.flatMap_append, List.map_append]

theorem endpoints_mapping_append :
    (Tree.mapping (as ++ bs)).endpoints limit root = .ok m ↔
      ∃ f g, (Tree.mapping as).endpoints limit root = .ok f ∧ (Tree.mapping bs).endpoints limit root = .ok g ∧
        m = f.merge g := by
  have hsubtree : ∀ entries : List (Key × Tree), (Tree.mapping entries).isSubtree = true := fun _ => rfl
  simp only [endpoints_eq_ok_iff, hsubtree, true_and, defects_append, List.append_eq_nil_iff, leaves_append,
    List.map_append, ← EndpointMap.merge_ofList]
  constructor
  · rintro ⟨⟨hf, hg⟩, rfl⟩
    exact ⟨_, _, ⟨hf, rfl⟩, ⟨hg, rfl⟩, rfl⟩
  · rintro ⟨_, _, ⟨hf, rfl⟩, ⟨hg, rfl⟩, rfl⟩
    exact ⟨⟨hf, hg⟩, rfl⟩

end Tree

namespace Registry

/-- It makes no difference whether endpoints are registered at once or in two parts, and the same holds of the
entries of a mapping. -/
theorem register_piecewise (calls : List Call) {f g : EndpointMap} (hf : f.Built) (hg : g.Built) (t' : Registry) :
    let t := after calls
    (Service.ofRouter ((f.merge g).register router) t = .ok () t' ↔
      ∃ t₁, Service.ofRouter (f.register router) t = .ok () t₁ ∧
        Service.ofRouter (g.register router) t₁ = .ok () t') ∧
    ∀ (s : Settings) (root : String) (as bs : List (Key × Tree)),
      s.registerTree router (.mapping (as ++ bs)) root t = .ok () t' ↔
        ∃ t₁, s.registerTree router (.mapping as) root t = .ok () t₁ ∧
          s.registerTree router (.mapping bs) root t₁ = .ok () t' := by
  intro t
  have ht : t.Sound := sound_after calls
  obtain ⟨es, hes⟩ := hf.exists_groups
  obtain ⟨es', hes'⟩ := hg.exists_groups
  refine ⟨ht.register_merge_iff hes hes', fun s root as bs => ?_⟩
  simp only [Settings.registerTree_eq_ok_iff]
  constructor
  · rintro ⟨m, hm, hregister⟩
    obtain ⟨f, g, hf, hg, rfl⟩ := Tree.endpoints_mapping_append.1 hm
    obtain ⟨t₁, hfirst, hsecond⟩ := (ht.register_merge_iff (Settings.groups_of_endpoints hf)
      (Settings.groups_of_endpoints hg)).1 hregister
    exact ⟨t₁, ⟨f, hf, hfirst⟩, g, hg, hsecond⟩
  · rintro ⟨t₁, ⟨f, hf, hfirst⟩, g, hg, hsecond⟩
    refine ⟨f.merge g, Tree.endpoints_mapping_append.2 ⟨f, g, hf, hg, rfl⟩, ?_⟩
    exact (ht.register_merge_iff (Settings.groups_of_endpoints hf) (Settings.groups_of_endpoints hg)).2
      ⟨t₁, hfirst, hsecond⟩

/-- The two parts and the registry all have a view of `/x`. -/
theorem register_piecewise_shared_route :
    let view : Handler := { serial := 0, name := "view", call := fun _ => "" }
    let calls : List Call := [.addRoute "/x" "/old", .addView "/x" view {}]
    let f := EndpointMap.ofList [⟨"/y", view, {}⟩, ⟨"/x", view, { methods := some .get }⟩]
    let g := EndpointMap.ofList [⟨"/z", view, {}⟩, ⟨"/x", view, { methods := some ⟨["POST"]⟩ }⟩]
    f.Built ∧ g.Built ∧ ∃ t', Service.ofRouter ((f.merge g).register router) (after calls) = .ok () t' ∧
      t'.names = ["/x", "/y", "/z"] ∧
      t'.views "/x" = [⟨view, {}⟩, ⟨view, { methods := some .get }⟩, ⟨view, { methods := some ⟨["POST"]⟩ }⟩] ∧
      ∃ t₁, Service.ofRouter (f.register router) (after calls) = .ok () t₁ ∧
        Service.ofRouter (g.register router) t₁ = .ok () t' := by
  intro view calls f g
  have hf : f.Built := EndpointMap.built_ofList _
  have hg : g.Built := EndpointMap.built_ofList _
  refine ⟨hf, hg, ?_⟩
  have hmerged : ∃ t', Service.ofRouter ((f.merge g).register router) (after calls) = .ok () t' ∧
      t'.names = ["/x", "/y", "/z"] ∧
      t'.views "/x" = [⟨view, {}⟩, ⟨view, { methods := some .get }⟩, ⟨view, { methods := some ⟨["POST"]⟩ }⟩] := by
    refine ⟨?table, ?registered, ?names, ?views⟩
    case registered =>
      dsimp only [f, g, calls]
      cbv
      rfl
    case names => rfl
    case views => rfl
  obtain ⟨t', ht', hnames, hviews⟩ := hmerged
  exact ⟨t', ht', hnames, hviews, (register_piecewise calls hf hg t').1.1 ht'⟩

end Registry

end RouteTree
