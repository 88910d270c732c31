import RouteTree.Proofs.Endpoints

/-!
# Depth limits

Of every branch and of every alternative a visit asks first whether it lies too deep, and nowhere else does
the limit come in: the leaves of a tree do not depend on it, and of the defects only those of depth come and
go with it. Two laws follow, both by induction on the shape of a tree.

Raising the limit uncovers what lies below a defect of depth, but the defects still begin with the same one
unless that is one of depth itself (`Tree.defectsUnder_beginAlike`), and a visit reports no other. And as
depths are only compared with the limit, what matters is how many levels are left (`Tree.defectsUnder_succ`):
a tree that is mounted one level deeper needs one level more.
-/

namespace RouteTree

/-- Both lists begin with the same defect or hold none, unless the first begins with one of depth. -/
def BeginAlike (ds ds' : List Defect) : Prop :=
  (∃ path, ds.head? = some (.tooDeep path)) ∨ ds.head? = ds'.head?

namespace BeginAlike
variable {α : Type} {ds ds' : List Defect} {xs : List α} {f g : α → List Defect}

theorem refl (ds : List Defect) : BeginAlike ds ds := .inr rfl

theorem map_below (fragment : String) (h : BeginAlike ds ds') :
    BeginAlike (ds.map (.below fragment)) (ds'.map (.below fragment)) := by
  rcases h with ⟨path, hp⟩ | h
  · exact .inl ⟨fragment ++ path, by rw [List.head?_map, hp]; rfl⟩
  · exact .inr (by rw [List.head?_map, List.head?_map, h])

/-- The part that the whole begins with is the first that holds a defect, and it is so for both. -/
theorem flatMap (h : ∀ x ∈ xs, BeginAlike (f x) (g x)) : BeginAlike (xs.flatMap f) (xs.flatMap g) := by
  induction xs with
  | nil => exact refl _
  | cons x xs ih =>
    have hxs := ih fun y hy => h y (List.mem_cons_of_mem _ hy)
    simp only [BeginAlike, List.flatMap_cons, List.head?_append] at hxs ⊢
    rcases h x (List.mem_cons_self ..) with ⟨path, hp⟩ | hx
    · exact .inl ⟨path, by rw [hp]; rfl⟩
    · rw [← hx]
      cases (f x).head? with
      | none => exact hxs
      | some d => exact .inr rfl

/-- A part that lies too deep for the higher limit does so for the lower one. -/
theorem limited {limit limit' : Nat} (hle : limit ≤ limit') (depth : Nat) (h : BeginAlike ds ds') :
    BeginAlike (if limit < depth then [.tooDeep ""] else ds)
      (if limit' < depth then [.tooDeep ""] else ds') := by
  by_cases hd : limit < depth
  · rw [if_pos hd]
    exact .inl ⟨"", rfl⟩
  · rw [if_neg hd, if_neg (by omega)]
    exact h

/-- Of lists that begin alike the same error is reported, unless it is one of depth. -/
theorem outcome_eq {limit limit' : Nat} {root : String} (h : BeginAlike ds ds')
    (hdeep : ∀ path rest, ds ≠ .tooDeep path :: rest) (es : List Endpoint) :
    outcome (ds'.map (Defect.error limit' root)) es = outcome (ds.map (Defect.error limit root)) es := by
  cases ds with
  | nil =>
    rcases h with ⟨path, hp⟩ | hnil
    · cases hp
    · rw [List.head?_eq_none_iff.1 hnil.symm]
      rfl
  | cons d rest =>
    rcases h with ⟨path, hp⟩ | hcons
    · cases hp
      exact absurd rfl (hdeep path rest)
    · obtain ⟨rest', rfl⟩ := List.head?_eq_some_iff.1 hcons.symm
      cases d with
      | tooDeep path => exact absurd rfl (hdeep path rest)
      | mixedKey keys => rfl
      | methodsOwnSubtree path m => rfl

end BeginAlike

/-- The error with one more level in its limit, if it names one. -/
def StructureError.addLevel : StructureError → StructureError
  | .notTraversable found => .notTraversable found
  | .mixedKey found => .mixedKey found
  | .methodsOwnSubtree path => .methodsOwnSubtree path
  | .tooDeep route limit => .tooDeep route (limit + 1)

theorem Defect.error_succ (limit : Nat) (root : String) (d : Defect) :
    d.error (limit + 1) root = (d.error limit root).addLevel := by
  cases d <;> rfl

namespace Tree

variable {t : Tree} {limit limit' depth : Nat} {root : String}

/-! ### Raising the limit -/

theorem branchDefects_beginAlike {b : Key × Tree} (hle : limit ≤ limit')
    (h : ∀ s, BeginAlike (b.2.defectsUnder limit depth s) (b.2.defectsUnder limit' depth s)) :
    BeginAlike (branchDefects limit depth b) (branchDefects limit' depth b) := by
  refine .limited hle depth (.flatMap fun reading _ => ?_)
  cases reading with
  | error keys => exact .refl _
  | ok s => exact h s

theorem defectsUnder_beginAlike (hle : limit ≤ limit') (t : Tree) (depth : Nat) (step : Step) :
    BeginAlike (t.defectsUnder limit depth step) (t.defectsUnder limit' depth step) := by
  induction t using shapeInduct generalizing depth step with
  | leaf h =>
    rw [defectsUnder_leaf, defectsUnder_leaf]
    exact .refl _
  | subtree t hs ih =>
    rcases t.admitted_or_barred step with hb | ⟨m, hb, hm⟩
    · rw [defectsUnder_of_isSubtree hs hb, defectsUnder_of_isSubtree hs hb]
      refine .map_below _ (.flatMap fun b hmem => ?_)
      exact branchDefects_beginAlike hle fun s => ih b hmem _ s
    · rw [defectsUnder_of_barsMethods hb hm, defectsUnder_of_barsMethods hb hm]
      exact .refl _
  | sequence items ha ih =>
    rw [defectsUnder_sequence ha, defectsUnder_sequence ha]
    exact .flatMap fun item hmem => .limited hle _ (ih item hmem _ step)

/-- A higher limit leaves every result as it is that is no error of depth. -/
theorem endpoints_of_le (hle : limit ≤ limit')
    (h : ∀ route n, t.endpoints limit root ≠ .error (.tooDeep route n)) :
    t.endpoints limit' root = t.endpoints limit root := by
  cases ho : t.obstacle? with
  | some found => rw [endpoints_of_obstacle ho, endpoints_of_obstacle ho]
  | none =>
    have hs := (obstacle?_eq_none_iff t).1 ho
    rw [endpoints_eq_outcome hs] at h ⊢
    rw [endpoints_eq_outcome hs]
    refine (defectsUnder_beginAlike hle t 0 _).outcome_eq (fun path rest hd => h (root ++ path) limit ?_) _
    rw [defects, hd]
    rfl

/-- A tree with a mixed key in its third level and with four levels behind it. -/
def tallTree (view : Handler) : Tree := .mapping
  [(.path "/a", .sequence [.leaf view, .mapping [(.any [.path "/b", .methods .get], .leaf view)]]),
   (.path "/c", .pair (.path "/d") (.pair (.path "/e") (.pair (.path "/f") (.leaf view))))]

/-- Three levels are enough to reach the mixed key, which comes ahead of the branch that still lies too deep, and
so more levels change nothing. -/
theorem endpoints_tallTree :
    let view : Handler := { serial := 0, name := "view", call := fun _ => "" }
    let deepBranch := (tallTree view).branches.drop 1
    (tallTree view).endpoints 2 "/api" = .error (.tooDeep "/api/a" 2) ∧
      (Tree.mapping deepBranch).endpoints 3 "/api" = .error (.tooDeep "/api/c/d/e" 3) ∧
      (∀ route n, (tallTree view).endpoints 3 "/api" ≠ .error (.tooDeep route n)) ∧
      (tallTree view).endpoints 3 "/api" = .error (.mixedKey [.path, .methods]) ∧
      (tallTree view).endpoints 64 "/api" = (tallTree view).endpoints 3 "/api" := by
  intro view deepBranch
  have hmixed : (tallTree view).endpoints 3 "/api" = .error (.mixedKey [.path, .methods]) := rfl
  have hdeep : ∀ route n, (tallTree view).endpoints 3 "/api" ≠ .error (.tooDeep route n) := by
    intro route n h
    rw [hmixed] at h
    cases h
  exact ⟨rfl, rfl, hdeep, hmixed, endpoints_of_le (by decide) hdeep⟩

/-! ### Mounting a tree -/

theorem branchDefects_succ {b : Key × Tree}
    (h : ∀ s, b.2.defectsUnder (limit + 1) (depth + 1) s = b.2.defectsUnder limit depth s) :
    branchDefects (limit + 1) (depth + 1) b = branchDefects limit depth b := by
  simp only [branchDefects, Nat.add_lt_add_iff_right, funext h]

/-- What is wrong with a tree depends on how many levels are left for it. -/
theorem defectsUnder_succ (t : Tree) (limit depth : Nat) (step : Step) :
    t.defectsUnder (limit + 1) (depth + 1) step = t.defectsUnder limit depth step := by
  induction t using shapeInduct generalizing depth step with
  | leaf h => rw [defectsUnder_leaf, defectsUnder_leaf]
  | subtree t hs ih =>
    rcases t.admitted_or_barred step with hb | ⟨m, hb, hm⟩
    · rw [defectsUnder_of_isSubtree hs hb, defectsUnder_of_isSubtree hs hb,
        List.flatMap_congr fun b hmem => branchDefects_succ fun s => ih b hmem (depth + 1) s]
    · rw [defectsUnder_of_barsMethods hb hm, defectsUnder_of_barsMethods hb hm]
  | sequence items ha ih =>
    rw [defectsUnder_sequence ha, defectsUnder_sequence ha]
    refine List.flatMap_congr fun item hmem => ?_
    simp only [alternativeDefects, Nat.add_lt_add_iff_right, ih item hmem (depth + 1) step]

theorem leavesUnder_path (hs : t.isSubtree = true) (fragment : String) :
    t.leavesUnder ⟨fragment, none⟩ = t.leaves.map (.below fragment) := by
  rw [leaves, leavesUnder_of_isSubtree hs, leavesUnder_of_isSubtree hs, Leaf.map_below_below,
    String.append_empty]

theorem defectsUnder_path (hs : t.isSubtree = true) (limit depth : Nat) (fragment : String) :
    t.defectsUnder limit depth ⟨fragment, none⟩ =
      (t.defectsUnder limit depth ⟨"", none⟩).map (.below fragment) := by
  rw [defectsUnder_of_isSubtree hs (.inr rfl), defectsUnder_of_isSubtree hs (.inr rfl),
    Defect.map_below_below, String.append_empty]

theorem leaves_mounted (hs : t.isSubtree = true) (fragment : String) :
    (Tree.mapping [(.path fragment, t)]).leaves = t.leaves.map (.below fragment) := by
  have hbranch : (Tree.mapping [(.path fragment, t)]).leaves =
      (t.leavesUnder ⟨fragment, none⟩).map (.below "") := by
    rw [leaves, leavesUnder_of_isSubtree rfl]
    simp [branches, Key.steps, Key.readings, Except.toOption]
  rw [hbranch, leavesUnder_path hs, Leaf.map_below_below, String.empty_append]

theorem defects_mounted (hs : t.isSubtree = true) (fragment : String) :
    (Tree.mapping [(.path fragment, t)]).defects (limit + 1) = (t.defects limit).map (.below fragment) := by
  -- the branch itself lies one level deep, which is never too deep
  have hbranch : (Tree.mapping [(.path fragment, t)]).defects (limit + 1) =
      (t.defectsUnder (limit + 1) 1 ⟨fragment, none⟩).map (.below "") := by
    rw [defects, defectsUnder_of_isSubtree rfl (.inr rfl)]
    simp [branches, branchDefects, Key.readings, Reading.elim]
  rw [hbranch, defectsUnder_succ, defectsUnder_path hs, Defect.map_below_below, String.empty_append,
    defects]

/-- A tree that is mounted below a fragment, with one level more, gives what it gives by itself with the fragment
behind the root path; only the limit that an error of depth names is the higher one. -/
theorem endpoints_mounted (hs : t.isSubtree = true) (fragment root : String) (limit : Nat) :
    (Tree.mapping [(.path fragment, t)]).endpoints (limit + 1) root =
      (t.endpoints limit (root ++ fragment)).mapError .addLevel := by
  have herrors : (t.defects limit).map (Defect.error (limit + 1) root ∘ .below fragment) =
      (t.defects limit).map (StructureError.addLevel ∘ Defect.error limit (root ++ fragment)) :=
    List.map_congr_left fun d _ => by
      rw [Function.comp_apply, Function.comp_apply, Defect.error_below, Defect.error_succ]
  have hleaves : t.leaves.map (Leaf.endpoint root ∘ .below fragment) =
      t.leaves.map (Leaf.endpoint (root ++ fragment)) :=
    List.map_congr_left fun l _ => l.endpoint_below root fragment
  rw [endpoints_eq_outcome rfl, endpoints_eq_outcome hs, mapError_outcome, defects_mounted hs,
    leaves_mounted hs, List.map_map, List.map_map, List.map_map, herrors, hleaves]

/-- Mounted, the tree names three levels where two were too few, and its other defects are reported as before. -/
theorem endpoints_mounted_flawedTree :
    let view : Handler := { serial := 0, name := "view", call := fun _ => "" }
    let t := flawedTree view
    t.isSubtree = true ∧
      t.endpoints 2 "/api/v1" = .error (.tooDeep "/api/v1/a/b" 2) ∧
      (Tree.mapping [(.path "/v1", t)]).endpoints 3 "/api" = .error (.tooDeep "/api/v1/a/b" 3) ∧
      (Tree.mapping [(.path "/v1", t)]).endpoints 4 "/api" = t.endpoints 3 "/api/v1" := by
  intro view t
  have hs : t.isSubtree = true := rfl
  have hdeep : t.endpoints 2 "/api/v1" = .error (.tooDeep "/api/v1/a/b" 2) := rfl
  have howned : t.endpoints 3 "/api/v1" = .error (.methodsOwnSubtree "/api/v1/a/GET, POST") := rfl
  refine ⟨hs, hdeep, ?_, ?_⟩
  · exact (endpoints_mounted hs "/v1" "/api" 2).trans (congrArg (Except.mapError _) hdeep)
  · exact ((endpoints_mounted hs "/v1" "/api" 3).trans (congrArg (Except.mapError _) howned)).trans howned.symm

end Tree
end RouteTree
