import RouteTree.Proofs.Acceptance
import RouteTree.Proofs.Building
import Mathlib

/-!
# How often a handler is reached

A handler stands in a tree below some keys, and it is reached once for every way of choosing a step of each
of them. `Tree.placements` lists the handlers of a tree with the keys above them, and `Key.breadth` counts
the steps of a key without reading it. Neither looks at how a tree is visited; a sequence of pairs, for
example, is a sequence like any other. The views that a tree is flattened to are, up to their order, the
handlers of its placements, each as often as it is reached (`Tree.WellFormed.leaves_perm`). No key has fewer
than one step (`Key.one_le_breadth`), so none of them is lost.
-/

namespace RouteTree

namespace Key

mutual

/-- In how many ways a key can be read. Methods and nothing else count once. -/
def breadth : Key → Nat
  | .path _ => 1
  | .methods _ => 1
  | .any keys => if keys.all (·.form == .methods) then 1 else breadthOf keys

def breadthOf : List Key → Nat
  | [] => 0
  | key :: keys => key.breadth + breadthOf keys

end

variable {key : Key} {keys : List Key}

theorem breadthOf_eq (keys : List Key) : breadthOf keys = (keys.map breadth).sum := by
  induction keys with
  | nil => rfl
  | cons key keys ih => rw [breadthOf, ih, List.map_cons, List.sum_cons]

theorem breadth_any_methods (h : keys.all (·.form == .methods) = true) : breadth (.any keys) = 1 := by
  rw [breadth, if_pos h]

theorem breadth_any (h : ¬ keys.all (·.form == .methods) = true) :
    breadth (.any keys) = (keys.map breadth).sum := by
  rw [breadth, if_neg h, breadthOf_eq]

theorem one_le_breadth (key : Key) : 1 ≤ key.breadth := by
  induction key with
  | path fragment => rw [breadth]
  | methods m => rw [breadth]
  | any keys ih =>
    by_cases hm : keys.all (·.form == .methods) = true
    · rw [breadth_any_methods hm]
    · -- the sequence is not empty, for that would be methods and nothing else
      obtain ⟨key, hk⟩ := List.exists_mem_of_ne_nil keys fun hnil => hm (hnil ▸ rfl)
      rw [breadth_any hm]
      exact le_trans (ih key hk) (List.le_sum_of_mem (List.mem_map_of_mem hk))

/-- A key that does not mix has as many steps as its breadth says. -/
theorem length_steps (h : ¬ key.Mixes) : key.steps.length = key.breadth := by
  induction key with
  | path fragment => rw [breadth]; rfl
  | methods m => rw [breadth]; rfl
  | any keys ih =>
    by_cases hm : keys.all (·.form == .methods) = true
    · rw [steps_any_methods hm, breadth_any_methods hm]
      rfl
    · rw [steps_any hm fun hf => h (.here hf), breadth_any hm, List.length_flatMap]
      refine congrArg List.sum (List.map_congr_left fun key hk => ih key hk fun hmixes => ?_)
      exact h (.inside hk hmixes)

end Key

/-- A handler in a tree with the keys above it, the outermost first. -/
structure Placement where
  keys : List Key
  view : Handler

namespace Placement

/-- The placement in a tree that hangs below `key`. -/
def under (key : Key) (p : Placement) : Placement := { p with keys := key :: p.keys }

/-- How often the handler is reached. -/
def count (p : Placement) : Nat := (p.keys.map Key.breadth).prod

theorem one_le_count (p : Placement) : 1 ≤ p.count := by
  refine List.one_le_prod_of_one_le fun n hn => ?_
  obtain ⟨key, -, rfl⟩ := List.mem_map.1 hn
  exact key.one_le_breadth

/-- The handlers of placements, each as often as it is reached. -/
def reached (ps : List Placement) : List Handler := ps.flatMap fun p => List.replicate p.count p.view

variable {ps : List Placement} {view : Handler}

theorem length_reached (ps : List Placement) : (reached ps).length = (ps.map count).sum := by
  simp [reached, List.length_flatMap]

theorem mem_reached : view ∈ reached ps ↔ ∃ p ∈ ps, p.view = view := by
  simp only [reached, List.mem_flatMap, List.mem_replicate]
  constructor
  · rintro ⟨p, hp, -, rfl⟩
    exact ⟨p, hp, rfl⟩
  · rintro ⟨p, hp, rfl⟩
    exact ⟨p, hp, Nat.one_le_iff_ne_zero.1 p.one_le_count, rfl⟩

/-- Under a key everything is reached once for each of its steps. -/
theorem reached_under {key : Key} (h : ¬ key.Mixes) :
    (key.steps.flatMap fun _ => reached ps).Perm (reached (ps.map (under key))) := by
  have hcopies : ∀ p : Placement, (key.steps.flatMap fun _ => List.replicate p.count p.view) =
      List.replicate (p.under key).count p.view := by
    intro p
    have hcount : (p.under key).count = key.steps.length * p.count := by
      rw [Key.length_steps h]
      exact List.prod_cons
    rw [hcount, List.eq_replicate_iff]
    simp [List.length_flatMap]
  have hswap : (key.steps.flatMap fun _ => reached ps).Perm
      (ps.flatMap fun p => key.steps.flatMap fun _ => List.replicate p.count p.view) := by
    rw [← Multiset.coe_eq_coe]
    simp only [reached, ← Multiset.coe_bind]
    exact Multiset.bind_bind _ _
  simp only [hcopies] at hswap
  have hunder : reached (ps.map (under key)) = ps.flatMap fun p => List.replicate (p.under key).count p.view :=
    List.flatMap_map ..
  rw [hunder]
  exact hswap

end Placement

namespace Tree

mutual

/-- The handlers of a tree where they stand, from left to right. -/
def placements : Tree → List Placement
  | .leaf h => [⟨[], h⟩]
  | .pair key value => value.placements.map (.under key)
  | .mapping entries => placementsOfEntries entries
  | .sequence items => placementsOfItems items

def placementsOfEntries : List (Key × Tree) → List Placement
  | [] => []
  | (key, value) :: entries => value.placements.map (.under key) ++ placementsOfEntries entries

def placementsOfItems : List Tree → List Placement
  | [] => []
  | item :: items => item.placements ++ placementsOfItems items

end

variable {t value : Tree} {items : List Tree} {limit depth : Nat} {key : Key} {step : Step} {view : Handler}

theorem placementsOfEntries_eq (entries : List (Key × Tree)) :
    placementsOfEntries entries = entries.flatMap fun b => b.2.placements.map (.under b.1) := by
  induction entries with
  | nil => rfl
  | cons b entries ih => rw [placementsOfEntries, ih, List.flatMap_cons]

theorem placementsOfItems_eq (items : List Tree) : placementsOfItems items = items.flatMap placements := by
  induction items with
  | nil => rfl
  | cons item items ih => rw [placementsOfItems, ih, List.flatMap_cons]

theorem placements_sequence (items : List Tree) :
    (Tree.sequence items).placements = items.flatMap placements := by
  rw [placements, placementsOfItems_eq]

theorem flatMap_placements_of_isPair (h : items.all isPair = true) :
    items.flatMap placements =
      (items.filterMap pair?).flatMap fun b => b.2.placements.map (.under b.1) := by
  induction items with
  | nil => rfl
  | cons item items ih =>
    rw [List.all_cons, Bool.and_eq_true] at h
    cases item with
    | pair key value =>
      have hcons : (Tree.pair key value :: items).filterMap pair? = (key, value) :: items.filterMap pair? := rfl
      rw [List.flatMap_cons, ih h.2, hcons, List.flatMap_cons, placements]
    | mapping _ => cases h.1
    | sequence _ => cases h.1
    | leaf _ => cases h.1

theorem placements_of_isSubtree (hs : t.isSubtree = true) :
    t.placements = t.branches.flatMap fun b => b.2.placements.map (.under b.1) := by
  cases t with
  | mapping entries => rw [placements, placementsOfEntries_eq, branches]
  | pair key value => rw [placements, branches, List.flatMap_singleton]
  | sequence items =>
    have hall : items.all isPair = true := hs
    rw [placements_sequence, branches, if_pos hall, flatMap_placements_of_isPair hall]
  | leaf _ => cases hs

theorem Holds.exists_placement (h : Holds view t) : ∃ p ∈ t.placements, p.view = view := by
  induction h with
  | leaf => exact ⟨⟨[], view⟩, by rw [placements]; exact List.mem_singleton_self _, rfl⟩
  | @pair key value _ ih =>
    obtain ⟨p, hp, rfl⟩ := ih
    rw [placements]
    exact ⟨p.under key, List.mem_map_of_mem hp, rfl⟩
  | @mapping entries b hb _ ih =>
    obtain ⟨p, hp, rfl⟩ := ih
    rw [placements, placementsOfEntries_eq]
    exact ⟨p.under b.1, List.mem_flatMap.2 ⟨b, hb, List.mem_map_of_mem hp⟩, rfl⟩
  | sequence hi _ ih =>
    obtain ⟨p, hp, rfl⟩ := ih
    rw [placements_sequence]
    exact ⟨p, List.mem_flatMap.2 ⟨_, hi, hp⟩, rfl⟩

/-! ### The leaves of a tree -/

/-- The handlers of leaves. -/
def viewsOf (ls : List Leaf) : List Handler := ls.map (·.view)

/-- A sub-tree leads to what its branches lead to. -/
theorem viewsOf_leavesUnder_of_isSubtree (hs : t.isSubtree = true) (hm : ∀ b ∈ t.branches, ¬ b.1.Mixes)
    (hb : ∀ b ∈ t.branches, ∀ s, (viewsOf (b.2.leavesUnder s)).Perm (Placement.reached b.2.placements))
    (step : Step) :
    (viewsOf (t.leavesUnder step)).Perm (Placement.reached t.placements) := by
  have hviews : viewsOf (t.leavesUnder step) =
      t.branches.flatMap fun b => b.1.steps.flatMap fun s => viewsOf (b.2.leavesUnder s) := by
    rw [leavesUnder_of_isSubtree hs, viewsOf, List.map_map, List.map_flatMap]
    simp only [List.map_flatMap]
    rfl
  rw [hviews, placements_of_isSubtree hs, Placement.reached, List.flatMap_assoc]
  refine List.Perm.flatMap_left _ fun b hmem => ?_
  exact (List.Perm.flatMap_left _ fun s _ => hb b hmem s).trans (Placement.reached_under (hm b hmem))

/-- A value in a well-formed tree leads to the same handlers under every step. -/
theorem WellFormed.leavesUnder_perm (h : t.WellFormed limit) (ho : t.Occurs depth key value) (step : Step) :
    (viewsOf (value.leavesUnder step)).Perm (Placement.reached value.placements) := by
  induction value using shapeInduct generalizing depth key step with
  | leaf view =>
    rw [leavesUnder_leaf, placements]
    exact List.Perm.refl _
  | subtree value hs ih =>
    have hbranch := fun b (hb : b ∈ value.branches) => Occurs.branch ho hb
    exact viewsOf_leavesUnder_of_isSubtree hs (fun b hb => h.unmixed _ _ _ (hbranch b hb))
      (fun b hb s => ih b hb (hbranch b hb) s) step
  | sequence items ha ih =>
    have hitem : ∀ item ∈ items, t.Occurs (depth + 1) key item := fun item hi =>
      .alternative ho (by rw [alternatives, if_neg ha]; exact hi)
    rw [leavesUnder_sequence ha, viewsOf, List.map_flatMap, placements_sequence, Placement.reached,
      List.flatMap_assoc]
    exact List.Perm.flatMap_left _ fun item hi => ih item hi (hitem item hi) step

/-- The leaves of a well-formed tree are its placements, each as often as it is reached. -/
theorem WellFormed.leaves_perm (h : t.WellFormed limit) :
    (viewsOf t.leaves).Perm (Placement.reached t.placements) :=
  viewsOf_leavesUnder_of_isSubtree h.isSubtree (fun _ hb => h.unmixed _ _ _ (.root hb))
    (fun _ hb s => h.leavesUnder_perm (.root hb) s) _

end Tree

/-! ### The endpoints of a tree -/

theorem flatMap_filter_perm {es : List Endpoint} {routes : List String} (hd : routes.Nodup)
    (h : ∀ e ∈ es, e.route ∈ routes) : (routes.flatMap (atRoute es)).Perm es := by
  -- the endpoints at the first route are taken out, and then the others are still at the other routes
  induction routes generalizing es with
  | nil =>
    cases es with
    | nil => exact List.Perm.refl _
    | cons e es => exact absurd (h e (List.mem_cons_self ..)) List.not_mem_nil
  | cons route routes ih =>
    obtain ⟨hr, hd⟩ := List.nodup_cons.1 hd
    have hothers : routes.flatMap (atRoute es) =
        routes.flatMap (atRoute (es.filter fun e => !e.route == route)) := by
      refine List.flatMap_congr fun other ho => ?_
      rw [atRoute, atRoute, List.filter_filter]
      refine List.filter_congr fun e _ => ?_
      by_cases he : e.route = other
      · have hne : e.route ≠ route := fun her => hr (her ▸ he ▸ ho)
        simp [hne]
      · simp [he]
    rw [List.flatMap_cons, hothers]
    refine (List.Perm.append_left _ (ih hd fun e he => ?_)).trans (List.filter_append_perm _ es)
    obtain ⟨hmem, hne⟩ := List.mem_filter.1 he
    exact (List.mem_cons.1 (h e hmem)).resolve_left (by simpa using hne)

namespace EndpointMap
variable {m : EndpointMap} {es : List Endpoint}

/-- Grouping neither loses an endpoint nor adds one. -/
theorem Groups.toList_perm (h : m.Groups es) : m.toList.Perm es := by
  rw [EndpointMap.toList, h.groups, List.flatMap_map]
  exact flatMap_filter_perm h.positions.nodup fun e he => mem_routesOf.2 ⟨e, he, rfl⟩

theorem endpointCount_eq (m : EndpointMap) : m.endpointCount = m.toList.length := by
  rw [endpointCount, EndpointMap.toList, List.length_flatMap, List.sum_eq_foldl, List.foldl_map]

end EndpointMap

namespace Tree
variable {t : Tree} {limit : Nat} {root : String} {m : EndpointMap}

theorem endpoints_views_perm (h : t.endpoints limit root = .ok m) :
    (m.toList.map (·.view)).Perm (Placement.reached t.placements) := by
  have hviews : (t.leaves.map (Leaf.endpoint root)).map (·.view) = viewsOf t.leaves := by
    rw [List.map_map]
    rfl
  have hgroups := ((groups_leaves_of_endpoints h).toList_perm).map (·.view)
  exact (hviews ▸ hgroups).trans (endpoints_ok_iff_wellFormed.1 ⟨m, h⟩).leaves_perm

/-- There are as many endpoints as the placements of handlers in the tree and the breadths of the keys above
them make, all of these are positive, and the handlers in the tree are those that are viewed. -/
theorem endpointCount_of_endpoints (h : t.endpoints limit root = .ok m) :
    m.endpointCount = (t.placements.map fun p => (p.keys.map Key.breadth).prod).sum ∧
      (∀ key : Key, 1 ≤ key.breadth) ∧
      ∀ view, (∃ e ∈ m.toList, e.view = view) ↔ Holds view t := by
  have hperm := endpoints_views_perm h
  have hmem : ∀ view, (∃ e ∈ m.toList, e.view = view) ↔ ∃ p ∈ t.placements, p.view = view := fun view => by
    rw [← Placement.mem_reached, ← hperm.mem_iff, List.mem_map]
  refine ⟨?_, Key.one_le_breadth, fun view => ⟨?_, fun hh => (hmem view).2 hh.exists_placement⟩⟩
  · have hlength := hperm.length_eq
    rw [List.length_map, Placement.length_reached] at hlength
    rw [EndpointMap.endpointCount_eq, hlength]
    rfl
  · rintro ⟨e, he, rfl⟩
    obtain ⟨l, hl, rfl⟩ := List.mem_map.1 ((groups_leaves_of_endpoints h).toList_perm.mem_iff.1 he)
    exact holds_of_mem_leavesUnder hl

/-- Two handlers side by side under a key that is read in four ways, and one of them again under two keys. -/
def wideTree (list create : Handler) : Tree := .mapping
  [(.any [.path "/a", .any [.methods .get, .methods ⟨["PUT"]⟩], .any [.path "/b", .path "/c"]],
      .sequence [.leaf list, .leaf create]),
   (.path "/a", .pair (.any [.path "/x", .path ""]) (.leaf list))]

/-- The ten endpoints share five routes, and none of them gets lost. -/
theorem endpointCount_wideTree :
    let list : Handler := { serial := 0, name := "list", call := fun _ => "" }
    let create : Handler := { serial := 1, name := "create", call := fun _ => "" }
    ∃ m, (wideTree list create).endpoints 2 "/api" = .ok m ∧ m.endpointCount = 10 ∧
      ∀ view, (∃ e ∈ m.toList, e.view = view) ↔ Holds view (wideTree list create) := by
  intro list create
  obtain ⟨m, h⟩ : ∃ m, (wideTree list create).endpoints 2 "/api" = .ok m := ⟨_, rfl⟩
  obtain ⟨hcount, -, hviews⟩ := endpointCount_of_endpoints h
  exact ⟨m, h, hcount, hviews⟩

end Tree

end RouteTree
