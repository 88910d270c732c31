import RouteTree.Proofs.Leaves

/-!
# What a visit of a tree gives

The visit of a tree, with its merges on the way up and its end at the first defect, is described by the
two lists of `RouteTree.Proofs.Leaves`: it groups the leaves if there is no defect, and reports the
first defect otherwise (`Tree.endpoints_eq_outcome`). By induction on the shape of the tree, every part
of a visit is an `outcome`, and outcomes are appended.
-/

namespace RouteTree.Tree

variable {t : Tree} {limit depth : Nat} {root route : String}

theorem within_outcome (errors : List StructureError) (es : List Endpoint) :
    within limit depth route (outcome errors es) =
      outcome (if limit < depth then [.tooDeep route limit] else errors) es := by
  unfold within
  split <;> rfl

theorem visitBranch_eq_outcome {b : Key × Tree}
    (h : ∀ step, b.2.visit limit route depth step =
      outcome ((b.2.defectsUnder limit depth step).map (Defect.error limit route))
        ((b.2.leavesUnder step).map (Leaf.endpoint route))) :
    visitBranch limit route depth b = outcome ((branchDefects limit depth b).map (Defect.error limit route))
      ((b.1.steps.flatMap b.2.leavesUnder).map (Leaf.endpoint route)) := by
  rw [visitBranch, Key.visitSteps_eq_outcome h, within_outcome, List.map_flatMap]
  congr 1
  unfold branchDefects
  split
  · simp [Defect.error]
  · rw [List.map_flatMap]
    refine congrArg (List.flatMap · b.1.readings) (funext fun reading => ?_)
    cases reading <;> rfl

/-- A value is visited at `base` by what there is to find in it. -/
theorem visit_eq_outcome (t : Tree) (limit : Nat) (base : String) (depth : Nat) (step : Step) :
    t.visit limit base depth step =
      outcome ((t.defectsUnder limit depth step).map (Defect.error limit base))
        ((t.leavesUnder step).map (Leaf.endpoint base)) := by
  induction t using shapeInduct generalizing base depth step with
  | leaf h =>
    rw [visit, leavesUnder_leaf, defectsUnder_leaf]
    cases step with
    | mk fragment methods => cases methods <;> rfl
  | subtree t hs ih =>
    -- under methods the visit is refused at once, unless there are no branches to visit
    rcases t.admitted_or_barred step with hb | ⟨m, hb, hm⟩
    · rw [visit_of_isSubtree limit base depth step hs hb, defectsUnder_of_isSubtree hs hb,
        leavesUnder_of_isSubtree hs,
        concat_outcome fun b hmem => visitBranch_eq_outcome fun s => ih b hmem _ _ s,
        List.map_map, List.map_map, ← List.map_flatMap, ← List.map_flatMap]
      congr 2
      · exact funext fun d => (Defect.error_below ..).symm
      · exact funext fun l => (Leaf.endpoint_below ..).symm
    · rw [visit_of_barsMethods limit base depth step hb hm, defectsUnder_of_barsMethods hb hm]
      rfl
  | sequence items ha ih =>
    rw [visit_sequence limit base depth step ha, defectsUnder_sequence ha, leavesUnder_sequence ha,
      concat_outcome fun item hmem => by rw [ih item hmem, within_outcome], List.map_flatMap,
      List.map_flatMap]
    refine congrArg (outcome · _) (congrArg (List.flatMap · items) (funext fun item => ?_))
    unfold alternativeDefects
    split
    · simp [Defect.error]
    · rfl

theorem endpoints_eq_outcome (hs : t.isSubtree = true) :
    t.endpoints limit root =
      outcome ((t.defects limit).map (Defect.error limit root)) (t.leaves.map (Leaf.endpoint root)) := by
  rw [endpoints, (obstacle?_eq_none_iff t).2 hs, defects, leaves, visit_eq_outcome]

theorem endpoints_of_obstacle {found : Obstacle} (h : t.obstacle? = some found) (limit : Nat) (root : String) :
    t.endpoints limit root = .error (.notTraversable found) := by
  rw [endpoints, h]
  rfl

theorem exists_notTraversable (limit : Nat) (root : String) (hs : ¬ t.isSubtree = true) :
    ∃ found, t.endpoints limit root = .error (.notTraversable found) := by
  obtain ⟨found, hf⟩ := Option.ne_none_iff_exists'.1 fun hn => hs ((obstacle?_eq_none_iff t).1 hn)
  exact ⟨found, endpoints_of_obstacle hf limit root⟩

theorem endpoints_eq_ok_iff {m : EndpointMap} :
    t.endpoints limit root = .ok m ↔
      t.isSubtree = true ∧ t.defects limit = [] ∧ m = .ofList (t.leaves.map (Leaf.endpoint root)) := by
  by_cases hs : t.isSubtree = true
  · rw [endpoints_eq_outcome hs, outcome_eq_ok_iff, List.map_eq_nil_iff, and_iff_right hs]
  · obtain ⟨found, hf⟩ := exists_notTraversable limit root hs
    exact iff_of_false (by simp [hf]) fun h => hs h.1

/-- What a tree is flattened to are its leaves in their order, grouped by route. -/
theorem groups_leaves_of_endpoints {m : EndpointMap} (h : t.endpoints limit root = .ok m) :
    m.Groups (t.leaves.map (Leaf.endpoint root)) := by
  by_cases hs : t.isSubtree = true
  · rw [endpoints_eq_outcome hs] at h
    cases hd : t.defects limit with
    | nil =>
      rw [hd] at h
      cases h
      exact EndpointMap.groups_ofList _
    | cons d rest =>
      rw [hd] at h
      cases h
  · obtain ⟨found, hf⟩ := exists_notTraversable limit root hs
    rw [hf] at h
    cases h

/-- A sequence that two fragments share, and a branch that returns to the route of the first. -/
def sharedTree (list create head : Handler) : Tree := .mapping
  [(.any [.path "/a", .path "/b"],
      .sequence [.leaf list, .mapping [(.any [.methods ⟨["PUT"]⟩, .methods ⟨["POST"]⟩], .leaf create)]]),
   (.path "/a", .leaf head)]

/-- The last leaf joins the group of the first route, behind the leaves that came before. -/
theorem groups_leaves_sharedTree :
    let list : Handler := { serial := 0, name := "list", call := fun _ => "" }
    let create : Handler := { serial := 1, name := "create", call := fun _ => "" }
    let head : Handler :=
      { serial := 2, name := "head", call := fun _ => "", options := some { accept := "*" } }
    let written : ViewOptions := { methods := some ⟨["PUT", "POST"]⟩ }
    let tree := sharedTree list create head
    ∃ m, tree.endpoints 3 "/api" = .ok m ∧ m.Groups (tree.leaves.map (Leaf.endpoint "/api")) ∧
      m.groups =
        [("/api/a", [⟨"/api/a", list, {}⟩, ⟨"/api/a", create, written⟩, ⟨"/api/a", head, { accept := "*" }⟩]),
          ("/api/b", [⟨"/api/b", list, {}⟩, ⟨"/api/b", create, written⟩])] := by
  intro list create head written tree
  have hleaves : tree.leaves =
      [⟨"/a", none, list⟩, ⟨"/a", some ⟨["PUT", "POST"]⟩, create⟩, ⟨"/b", none, list⟩,
        ⟨"/b", some ⟨["PUT", "POST"]⟩, create⟩, ⟨"/a", none, head⟩] := by
    simp [tree, sharedTree, leaves, leavesUnder, isSubtree, branches, alternatives, isPair, form, Key.steps,
      Key.readings, Key.readingsOf, Key.flatMixture, Key.form, Key.methods?, Except.toOption, Leaf.below]
  obtain ⟨m, h⟩ : ∃ m, tree.endpoints 3 "/api" = .ok m := ⟨_, rfl⟩
  refine ⟨m, h, groups_leaves_of_endpoints h, ?_⟩
  rw [(groups_leaves_of_endpoints h).groups, hleaves]
  simp [routesOf, atRoute, List.eraseDups_cons, Leaf.endpoint, list, create, head, written]

/-- A visit ends with the first of all defects, and of a mixed key it names the forms of its keys. -/
theorem endpoints_error_iff_defects (hs : t.isSubtree = true) :
    ((∃ e, t.endpoints limit root = .error e) ↔ t.defects limit ≠ []) ∧
      (∀ d rest, t.defects limit = d :: rest → t.endpoints limit root = .error (d.error limit root)) ∧
      ∀ keys rest, t.defects limit = .mixedKey keys :: rest → ∃ e, t.endpoints limit root = .error e ∧
        e.message =
          "invalid branch route: a sequence key must hold only path components ('/something') or only " ++
          "request methods, got (" ++ ", ".intercalate (keys.map fun key => key.form.text) ++ ")" := by
  rw [endpoints_eq_outcome hs]
  refine ⟨?_, fun d rest hd => by rw [hd]; rfl, fun keys rest hd => ?_⟩
  · cases t.defects limit <;> simp [outcome]
  · refine ⟨.mixedKey (keys.map Key.form), by rw [hd]; rfl, ?_⟩
    have hforms : (keys.map Key.form).map KeyForm.text = keys.map fun key => key.form.text := List.map_map
    rw [← hforms]
    rfl

/-- A tree with one defect of each kind if two levels are allowed. -/
def flawedTree (view : Handler) : Tree := .mapping
  [(.path "/a", .mapping
      [(.any [.path "/b", .methods ⟨["GET", "POST"]⟩, .any []], .pair (.path "/c") (.leaf view))]),
   (.any [.path "/d", .methods ⟨["PUT"]⟩], .leaf view)]

/-- The fragment `/b` of the first key is read before its methods, and so the depth below it counts. -/
theorem endpoints_flawedTree :
    let view : Handler := { serial := 0, name := "view", call := fun _ => "" }
    (flawedTree view).defects 2 =
        [.tooDeep "/a/b", .methodsOwnSubtree "/a" ⟨["GET", "POST"]⟩, .methodsOwnSubtree "/a" ⟨[]⟩,
          .mixedKey [.path "/d", .methods ⟨["PUT"]⟩]] ∧
      (flawedTree view).endpoints 2 "/api" = .error (.tooDeep "/api/a/b" 2) := by
  intro view
  have hd : (flawedTree view).defects 2 =
      [.tooDeep "/a/b", .methodsOwnSubtree "/a" ⟨["GET", "POST"]⟩, .methodsOwnSubtree "/a" ⟨[]⟩,
        .mixedKey [.path "/d", .methods ⟨["PUT"]⟩]] := by
    simp [flawedTree, defects, defectsUnder, isSubtree, branches, barsMethods, Key.readings, Key.readingsOf,
      Key.flatMixture, Key.form, Reading.elim, Defect.below]
  have hs : (flawedTree view).isSubtree = true := rfl
  exact ⟨hd, (endpoints_error_iff_defects hs).2.1 _ _ hd⟩

end RouteTree.Tree
