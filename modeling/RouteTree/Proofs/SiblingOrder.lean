import RouteTree.Proofs.Acceptance
import RouteTree.Proofs.Coherence
import RouteTree.Proofs.Contexts

/-!
# The order of the entries of a mapping

The entries of a mapping may stand in any order as far as the routes of a tree and the endpoints at each of them
are concerned: what is wrong with the tree and what its leaves are stays the same up to the order
(`Partwise` holds of permutations). Only the order of the endpoints at one route can change, and not even that if
two neighbours change places that lead to no common route.

The neighbours have to be apart in every single visit of their mapping only (`Context.visits`; what a visit
finds is found in the whole, `Context.endpoint_mem_of_visit`). Two visits at different routes may well bring
them together, but what is found in one visit stays before what is found in a later one. Since the routes of one
visit all begin alike, the neighbours are apart in every visit once they are so in one, and a tree that is
flattened is visited everywhere (`Context.exists_visit`).
-/

namespace RouteTree

/-- Wherever these leaves hang, they are the same endpoints in the same order at every route. -/
def AgreeAtRoutes (ls ls' : List Leaf) : Prop :=
  ∀ root route, atRoute (ls.map (Leaf.endpoint root)) route = atRoute (ls'.map (Leaf.endpoint root)) route

theorem partwise_agreeAtRoutes : Partwise AgreeAtRoutes Leaf.below where
  refl _ _ _ := rfl
  append h h' root route := by
    rw [List.map_append, List.map_append, atRoute_append, atRoute_append, h, h']
  map_below fragment h root route := by
    have hbelow : Leaf.endpoint root ∘ Leaf.below fragment = Leaf.endpoint (root ++ fragment) :=
      funext fun l => l.endpoint_below root fragment
    rw [List.map_map, List.map_map, hbelow, h]

theorem partwise_perm {α : Type} (below : String → α → α) : Partwise List.Perm below where
  refl := List.Perm.refl
  append h h' := h.append h'
  map_below _ h := h.map _

section
variable {es es' : List Endpoint} {route : String}

theorem mem_routesOf_iff : route ∈ routesOf es ↔ atRoute es route ≠ [] := by
  rw [EndpointMap.mem_routesOf, atRoute, Ne, List.filter_eq_nil_iff]
  simp

theorem atRoute_append_comm (h : ∀ e ∈ es, ∀ e' ∈ es', e.route ≠ e'.route) :
    atRoute (es ++ es') route = atRoute (es' ++ es) route := by
  rw [atRoute_append, atRoute_append]
  by_cases hr : route ∈ routesOf es
  · obtain ⟨e, he, rfl⟩ := EndpointMap.mem_routesOf.1 hr
    have hnone : atRoute es' e.route = [] :=
      List.filter_eq_nil_iff.2 fun e' he' hr' => h e he e' he' (beq_iff_eq.1 hr').symm
    rw [hnone, List.append_nil, List.nil_append]
  · rw [mem_routesOf_iff, not_not] at hr
    rw [hr, List.append_nil, List.nil_append]

theorem EndpointMap.Groups.get?_eq {m : EndpointMap} (h : m.Groups es) (route : String) :
    m.get? route = if atRoute es route = [] then none else some (atRoute es route) := by
  split
  · rename_i hr
    rw [Option.eq_none_iff_forall_ne_some]
    intro found hf
    have hmem := List.mem_map_of_mem (f := Prod.fst) (h.coherent.get?_eq_some_iff.1 hf)
    rw [h.map_fst, mem_routesOf_iff] at hmem
    exact hmem hr
  · rename_i hr
    rw [h.coherent.get?_eq_some_iff, h.groups]
    exact List.mem_map_of_mem (mem_routesOf_iff.2 hr)

/-- Endpoints in another order are grouped to the same routes, with each group in another order. -/
theorem EndpointMap.Groups.perm {m m' : EndpointMap} (h : m.Groups es) (h' : m'.Groups es') (hes : es.Perm es') :
    (∀ route, route ∈ m.routes ↔ route ∈ m'.routes) ∧
      ∀ route, Option.Rel List.Perm (m.get? route) (m'.get? route) := by
  refine ⟨fun route => ?_, fun route => ?_⟩
  · rw [routes, routes, h.map_fst, h'.map_fst, mem_routesOf, mem_routesOf]
    exact exists_congr fun e => and_congr_left fun _ => hes.mem_iff
  · have hroute : (atRoute es route).Perm (atRoute es' route) := hes.filter _
    rw [h.get?_eq, h'.get?_eq]
    by_cases hnil : atRoute es route = []
    · rw [if_pos hnil, if_pos (hnil ▸ hroute).nil_eq.symm]
      exact .none
    · rw [if_neg hnil, if_neg fun hnil' => hnil (hnil' ▸ hroute).eq_nil]
      exact .some hroute

end

namespace Tree
variable {t : Tree} {b b' : Key × Tree} {bs cs : List (Key × Tree)} {limit depth : Nat} {base root route : String}
  {step : Step}

theorem visitBranch_of_branchDefects (h : branchDefects limit depth b = []) (route : String) :
    visitBranch limit route depth b = .ok (.ofList ((branchLeaves b).map (Leaf.endpoint route))) := by
  rw [visitBranch_eq_outcome fun step => b.2.visit_eq_outcome limit route depth step, h]
  rfl

theorem exists_step (h : t.defectsUnder limit depth step = []) (hb : b ∈ t.branches) :
    ∃ s ∈ b.1.steps, b.2.defectsUnder limit (depth + 1) s = [] := by
  obtain ⟨-, hm, hs⟩ := branchDefects_eq_nil_iff.1 ((defectsUnder_eq_nil_iff.1 h).2.1 b hb)
  obtain ⟨s, hmem⟩ := List.exists_mem_of_ne_nil _ (steps_ne_nil hm)
  exact ⟨s, hmem, hs s hmem⟩

/-- The leaves of the branches of a sub-tree are its leaves, below what its step adds to the route. -/
theorem endpoint_mem_of_branches (hs : t.isSubtree = true) {l : Leaf} (hl : l ∈ t.branches.flatMap branchLeaves) :
    l.endpoint (base ++ step.fragment) ∈ (t.leavesUnder step).map (Leaf.endpoint base) := by
  rw [leavesUnder_of_isSubtree hs, ← l.endpoint_below base step.fragment]
  exact List.mem_map_of_mem (List.mem_map_of_mem hl)

theorem endpoint_mem_of_branch (hs : t.isSubtree = true) (hb : b ∈ t.branches) {s : Step} (hstep : s ∈ b.1.steps)
    {l : Leaf} (hl : l ∈ b.2.leavesUnder s) :
    l.endpoint (base ++ step.fragment) ∈ (t.leavesUnder step).map (Leaf.endpoint base) :=
  endpoint_mem_of_branches hs (List.mem_flatMap.2 ⟨b, hb, List.mem_flatMap.2 ⟨s, hstep, hl⟩⟩)

namespace Context

/-- The routes and depths at which a tree is visited in the hole, once for every choice of steps of the keys above
it. The whole is visited under `step`, below `base` and `depth` levels deep. -/
def visits (t : Tree) : Context → (base : String) → (depth : Nat) → Step → List (String × Nat)
  | .hole, base, depth, step => [(base ++ step.fragment, depth)]
  | .pair key c, base, depth, step | .mapping _ key c _, base, depth, step =>
    key.steps.flatMap (c.visits t (base ++ step.fragment) (depth + 1))
  | .sequence before c after, base, depth, step =>
    if (before ++ c.fill t :: after).all isPair then c.visits t (base ++ step.fragment) depth ⟨"", none⟩
    else c.visits t base (depth + 1) step

/-- Where nothing is wrong, the hole is visited, and nothing is wrong there. -/
theorem exists_visit (c : Context) (h : (c.fill t).defectsUnder limit depth step = []) (base : String) :
    ∃ v ∈ c.visits t base depth step, ∃ s, t.defectsUnder limit v.2 s = [] := by
  -- along the way to the hole: under each key one step is enough, and every tree on the way is without defects
  induction c generalizing base depth step with
  | hole => exact ⟨_, List.mem_singleton_self _, step, h⟩
  | pair key c ih =>
    obtain ⟨s, hs, hvalue⟩ := exists_step h (List.mem_singleton_self (key, c.fill t))
    obtain ⟨v, hv, hhole⟩ := ih hvalue (base ++ step.fragment)
    exact ⟨v, List.mem_flatMap.2 ⟨s, hs, hv⟩, hhole⟩
  | mapping before key c after ih =>
    have hb : (key, c.fill t) ∈ before ++ (key, c.fill t) :: after := List.mem_append_right _ (List.mem_cons_self ..)
    obtain ⟨s, hs, hvalue⟩ := exists_step h hb
    obtain ⟨v, hv, hhole⟩ := ih hvalue (base ++ step.fragment)
    exact ⟨v, List.mem_flatMap.2 ⟨s, hs, hv⟩, hhole⟩
  | sequence before c after ih =>
    have hmem : c.fill t ∈ before ++ c.fill t :: after := List.mem_append_right _ (List.mem_cons_self ..)
    obtain ⟨-, hb, hi⟩ := defectsUnder_eq_nil_iff.1 h
    rw [visits]
    split
    · rename_i ha
      have hitems := List.flatMap_eq_nil_iff.2 hb
      rw [fill, branchDefects_sequence ha] at hitems
      exact ih (List.flatMap_eq_nil_iff.1 hitems _ hmem) _
    · rename_i ha
      rw [fill, alternatives, if_neg ha] at hi
      exact ih (alternativeDefects_eq_nil_iff.1 (hi _ hmem)).2 _

/-- What the branches in the hole lead to in one of its visits is found in the whole. -/
theorem endpoint_mem_of_visit (c : Context) (hs : t.isSubtree = true) {l : Leaf}
    (hl : l ∈ t.branches.flatMap branchLeaves) {v : String × Nat} (hv : v ∈ c.visits t base depth step) :
    l.endpoint v.1 ∈ ((c.fill t).leavesUnder step).map (Leaf.endpoint base) := by
  induction c generalizing base depth step with
  | hole =>
    obtain rfl := List.mem_singleton.1 hv
    exact endpoint_mem_of_branches hs hl
  | pair key c ih =>
    obtain ⟨s, hstep, hv⟩ := List.mem_flatMap.1 hv
    obtain ⟨l', hl', hle⟩ := List.mem_map.1 (ih hv)
    rw [← hle]
    exact endpoint_mem_of_branch rfl (List.mem_singleton_self (key, c.fill t)) hstep hl'
  | mapping before key c after ih =>
    obtain ⟨s, hstep, hv⟩ := List.mem_flatMap.1 hv
    obtain ⟨l', hl', hle⟩ := List.mem_map.1 (ih hv)
    have hb : (key, c.fill t) ∈ before ++ (key, c.fill t) :: after := List.mem_append_right _ (List.mem_cons_self ..)
    rw [← hle]
    exact endpoint_mem_of_branch rfl hb hstep hl'
  | sequence before c after ih =>
    have hmem : c.fill t ∈ before ++ c.fill t :: after := List.mem_append_right _ (List.mem_cons_self ..)
    rw [visits] at hv
    split at hv
    · rename_i ha
      have hitems : (Tree.sequence (before ++ c.fill t :: after)).isSubtree = true := ha
      obtain ⟨l', hl', hle⟩ := List.mem_map.1 (ih hv)
      rw [← hle, fill]
      refine endpoint_mem_of_branches hitems ?_
      rw [branchLeaves_sequence ha]
      exact List.mem_flatMap.2 ⟨_, hmem, hl'⟩
    · rename_i ha
      obtain ⟨l', hl', hle⟩ := List.mem_map.1 (ih hv)
      rw [← hle, fill, leavesUnder_sequence ha]
      exact List.mem_map_of_mem (List.mem_flatMap.2 ⟨_, hmem, hl'⟩)

/-- In no single visit of the mapping `bs` in the hole do the branches `b` and `b'` lead to a common route. -/
def KeepsApart (c : Context) (limit : Nat) (root : String) (bs : List (Key × Tree)) (b b' : Key × Tree) : Prop :=
  ∀ v ∈ c.visits (.mapping bs) root 0 ⟨"", none⟩, ∀ m m',
    visitBranch limit v.1 (v.2 + 1) b = .ok m → visitBranch limit v.1 (v.2 + 1) b' = .ok m' →
      ∀ route ∈ m.routes, route ∉ m'.routes

end Context

theorem mem_routes_ofList {ls : List Leaf} :
    route ∈ (EndpointMap.ofList (ls.map (Leaf.endpoint base))).routes ↔ ∃ l ∈ ls, base ++ l.path = route := by
  rw [EndpointMap.routes, (EndpointMap.groups_ofList _).map_fst, EndpointMap.mem_routesOf]
  constructor
  · rintro ⟨e, he, rfl⟩
    obtain ⟨l, hl, rfl⟩ := List.mem_map.1 he
    exact ⟨l, hl, rfl⟩
  · rintro ⟨l, hl, rfl⟩
    exact ⟨_, List.mem_map_of_mem hl, rfl⟩

/-- As all routes of a visit begin alike, it takes no look at the visits to see that they keep two branches apart. -/
theorem keepsApart_of_path_ne (h : ∀ l ∈ branchLeaves b, ∀ l' ∈ branchLeaves b', l.path ≠ l'.path) (c : Context)
    (limit : Nat) (root : String) (bs : List (Key × Tree)) : c.KeepsApart limit root bs b b' := by
  intro v _ m m' hm hm' route hr hr'
  have hleaves : ∀ {b m}, visitBranch limit v.1 (v.2 + 1) b = .ok m →
      m = .ofList ((branchLeaves b).map (Leaf.endpoint v.1)) := by
    intro b m hm
    rw [visitBranch_eq_outcome fun step => b.2.visit_eq_outcome limit _ _ step] at hm
    exact (outcome_eq_ok_iff.1 hm).2
  rw [hleaves hm] at hr
  rw [hleaves hm'] at hr'
  obtain ⟨l, hl, hlr⟩ := mem_routes_ofList.1 hr
  obtain ⟨l', hl', hlr'⟩ := mem_routes_ofList.1 hr'
  exact h l hl l' hl' (String.append_right_inj v.1 |>.1 (hlr.trans hlr'.symm))

/-- And one visit without a common route is enough, which there is if nothing is wrong. -/
theorem path_ne_of_keepsApart {c : Context} (h : c.KeepsApart limit root bs b b') (hb : b ∈ bs) (hb' : b' ∈ bs)
    (hd : (c.fill (.mapping bs)).defects limit = []) :
    ∀ l ∈ branchLeaves b, ∀ l' ∈ branchLeaves b', l.path ≠ l'.path := by
  intro l hl l' hl' hpath
  obtain ⟨v, hv, s, hs⟩ := c.exists_visit hd root
  have hbranch := (defectsUnder_eq_nil_iff.1 hs).2.1
  refine h v hv _ _ (visitBranch_of_branchDefects (hbranch b hb) _) (visitBranch_of_branchDefects (hbranch b' hb') _)
    (v.1 ++ l.path) (mem_routes_ofList.2 ⟨l, hl, rfl⟩) (mem_routes_ofList.2 ⟨l', hl', ?_⟩)
  rw [hpath]

/-! ### Reordered trees -/

theorem alike_mapping (bs cs : List (Key × Tree)) : Alike (.mapping bs) (.mapping cs) := ⟨rfl, rfl, rfl⟩

theorem leaves_fill_perm (c : Context) (h : bs.Perm cs) :
    (c.fill (.mapping bs)).leaves.Perm (c.fill (.mapping cs)).leaves :=
  c.leavesUnder_fill (partwise_perm _) (alike_mapping bs cs)
    ((alike_mapping bs cs).leavesUnder_subtree (partwise_perm _) rfl (h.flatMap_right _)) _

theorem defects_fill_perm (c : Context) (h : bs.Perm cs) :
    ((c.fill (.mapping bs)).defects limit).Perm ((c.fill (.mapping cs)).defects limit) :=
  c.defectsUnder_fill (partwise_perm _) (alike_mapping bs cs)
    (fun _ => (alike_mapping bs cs).defectsUnder_subtree (partwise_perm _) rfl (h.flatMap_right _)) 0 _

theorem exists_endpoints_fill_perm (c : Context) (h : bs.Perm cs)
    (hok : ∃ m, (c.fill (.mapping bs)).endpoints limit root = .ok m) :
    ∃ m, (c.fill (.mapping cs)).endpoints limit root = .ok m := by
  obtain ⟨m, hm⟩ := hok
  obtain ⟨hs, hd, -⟩ := endpoints_eq_ok_iff.1 hm
  refine ⟨_, endpoints_eq_ok_iff.2 ⟨?_, ?_, rfl⟩⟩
  · rw [← ((alike_mapping bs cs).fill c).isSubtree_eq, hs]
  · exact (hd ▸ defects_fill_perm c h).nil_eq.symm

theorem leaves_fill_agree (c : Context) (before after : List (Key × Tree))
    (h : ∀ l ∈ branchLeaves b, ∀ l' ∈ branchLeaves b', l.path ≠ l'.path) :
    AgreeAtRoutes (c.fill (.mapping (before ++ b :: b' :: after))).leaves
      (c.fill (.mapping (before ++ b' :: b :: after))).leaves := by
  have halike := alike_mapping (before ++ b :: b' :: after) (before ++ b' :: b :: after)
  refine c.leavesUnder_fill partwise_agreeAtRoutes halike (fun step => ?_) _
  refine halike.leavesUnder_subtree partwise_agreeAtRoutes rfl ?_ step
  simp only [branches, List.flatMap_append, List.flatMap_cons, ← List.append_assoc]
  refine partwise_agreeAtRoutes.append ?_ (partwise_agreeAtRoutes.refl _)
  rw [List.append_assoc, List.append_assoc]
  refine partwise_agreeAtRoutes.append (partwise_agreeAtRoutes.refl _) fun root route => ?_
  rw [List.map_append, List.map_append]
  refine atRoute_append_comm fun e he e' he' hroute => ?_
  obtain ⟨l, hl, rfl⟩ := List.mem_map.1 he
  obtain ⟨l', hl', rfl⟩ := List.mem_map.1 he'
  exact h l hl l' hl' (String.append_right_inj root |>.1 hroute)

/-- When the entries of a mapping change places, a tree stays as good as it was, the routes stay the same, and at
each of them the endpoints are reordered at most. They are not if two neighbours change places that no visit of the
mapping brings together. -/
theorem endpoints_reordered (c : Context) (limit : Nat) (root : String) :
    (∀ bs cs : List (Key × Tree), bs.Perm cs →
      ((∃ m, (c.fill (.mapping bs)).endpoints limit root = .ok m) ↔
        ∃ m, (c.fill (.mapping cs)).endpoints limit root = .ok m) ∧
      ∀ m m', (c.fill (.mapping bs)).endpoints limit root = .ok m →
        (c.fill (.mapping cs)).endpoints limit root = .ok m' →
        (∀ route, route ∈ m.routes ↔ route ∈ m'.routes) ∧
          ∀ route, Option.Rel List.Perm (m.get? route) (m'.get? route)) ∧
      ∀ (before after : List (Key × Tree)) (b b' : Key × Tree),
        c.KeepsApart limit root (before ++ b :: b' :: after) b b' →
        ∀ m m', (c.fill (.mapping (before ++ b :: b' :: after))).endpoints limit root = .ok m →
          (c.fill (.mapping (before ++ b' :: b :: after))).endpoints limit root = .ok m' →
          ∀ route, m.get? route = m'.get? route := by
  refine ⟨fun bs cs h => ⟨⟨?_, ?_⟩, fun m m' hm hm' => ?_⟩, fun before after b b' h m m' hm hm' route => ?_⟩
  · exact exists_endpoints_fill_perm c h
  · exact exists_endpoints_fill_perm c h.symm
  · exact (groups_leaves_of_endpoints hm).perm (groups_leaves_of_endpoints hm')
      ((leaves_fill_perm c h).map (Leaf.endpoint root))
  · have hpath := path_ne_of_keepsApart h (List.mem_append_right _ (List.mem_cons_self ..))
      (List.mem_append_right _ (List.mem_cons_of_mem _ (List.mem_cons_self ..))) (endpoints_eq_ok_iff.1 hm).2.1
    have hagree := leaves_fill_agree c before after hpath root route
    rw [(groups_leaves_of_endpoints hm).get?_eq, (groups_leaves_of_endpoints hm').get?_eq, hagree]

/-- The neighbours share the route `/api/a/b/c`, but the one leads there in the first visit of their mapping and the
other in the second. -/
theorem endpoints_reordered_two_visits :
    let list : Handler := { serial := 0, name := "list", call := fun _ => "" }
    let create : Handler := { serial := 1, name := "create", call := fun _ => "" }
    let c : Context := .mapping [] (.any [.path "/a", .path "/a/b"]) .hole []
    let b : Key × Tree := (.path "/b/c", .leaf list)
    let b' : Key × Tree := (.path "/c", .leaf create)
    [b, b'].Perm [b', b] ∧ c.KeepsApart 2 "/api" [b, b'] b b' ∧
      ∃ m m', (c.fill (.mapping [b, b'])).endpoints 2 "/api" = .ok m ∧
        (c.fill (.mapping [b', b])).endpoints 2 "/api" = .ok m' ∧
        (∀ route, route ∈ m.routes ↔ route ∈ m'.routes) ∧ (∀ route, m.get? route = m'.get? route) ∧
        m.get? "/api/a/b/c" = some [⟨"/api/a/b/c", list, {}⟩, ⟨"/api/a/b/c", create, {}⟩] := by
  intro list create c b b'
  have hperm : [b, b'].Perm [b', b] := .swap b' b []
  have hapart : c.KeepsApart 2 "/api" [b, b'] b b' := by
    have hb : branchLeaves b = [⟨"/b/c", none, list⟩] := by
      simp [b, branchLeaves, leavesUnder_leaf, Key.steps, Key.readings, Except.toOption]
    have hb' : branchLeaves b' = [⟨"/c", none, create⟩] := by
      simp [b', branchLeaves, leavesUnder_leaf, Key.steps, Key.readings, Except.toOption]
    refine keepsApart_of_path_ne (fun l hl l' hl' => ?_) c 2 "/api" _
    rw [hb, List.mem_singleton] at hl
    rw [hb', List.mem_singleton] at hl'
    rw [hl, hl']
    decide
  obtain ⟨m, hm⟩ : ∃ m, (c.fill (.mapping [b, b'])).endpoints 2 "/api" = .ok m := ⟨_, rfl⟩
  obtain ⟨m', hm'⟩ : ∃ m, (c.fill (.mapping [b', b])).endpoints 2 "/api" = .ok m := ⟨_, rfl⟩
  obtain ⟨hreorder, hswap⟩ := endpoints_reordered c 2 "/api"
  refine ⟨hperm, hapart, m, m', hm, hm', ((hreorder _ _ hperm).2 m m' hm hm').1,
    hswap [] [] b b' hapart m m' hm hm', ?_⟩
  have hleaves : (c.fill (.mapping [b, b'])).leaves =
      [⟨"/a/b/c", none, list⟩, ⟨"/a/c", none, create⟩, ⟨"/a/b/b/c", none, list⟩, ⟨"/a/b/c", none, create⟩] := by
    simp [c, b, b', Context.fill, leaves, leavesUnder, isSubtree, branches, Key.steps, Key.readings,
      Key.readingsOf, Key.flatMixture, Key.form, Except.toOption, Leaf.below]
  rw [(groups_leaves_of_endpoints hm).get?_eq, hleaves]
  simp [atRoute, Leaf.endpoint, list, create]

end Tree

end RouteTree
