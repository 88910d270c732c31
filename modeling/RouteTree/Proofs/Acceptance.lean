import RouteTree.Proofs.Endpoints

/-!
# Which trees can be flattened

`Tree.WellFormed limit t` says without any traversal what a tree must be like: it has branches, none of
its keys mixes fragments and methods, no branch whose key asks for methods holds a sub-tree, and nothing
lies too deep. The branches and alternatives of a tree are given by `Tree.Occurs`, each with its depth
and with the key that it stands under. Exactly the well-formed trees are flattened
(`Tree.endpoints_ok_iff_wellFormed`): as every key has a reading, the visit meets every occurrence.
-/

namespace RouteTree.Tree

/-- `t.Occurs depth key value`: in `t` the value `value` stands under the key `key`, as a branch or as an
alternative among those of a branch, `depth` levels deep. -/
inductive Occurs (t : Tree) : Nat → Key → Tree → Prop where
  /-- A branch of the root. -/
  | root {key : Key} {value : Tree} : (key, value) ∈ t.branches → Occurs t 1 key value
  /-- A branch of a sub-tree. -/
  | branch {depth : Nat} {key key' : Key} {value value' : Tree} :
    Occurs t depth key value → (key', value') ∈ value.branches → Occurs t (depth + 1) key' value'
  /-- An alternative, which keeps the key of its sequence. -/
  | alternative {depth : Nat} {key : Key} {value item : Tree} :
    Occurs t depth key value → item ∈ value.alternatives → Occurs t (depth + 1) key item

/-- The tree can be flattened with `limit` levels. -/
structure WellFormed (limit : Nat) (t : Tree) : Prop where
  isSubtree : t.isSubtree = true
  unmixed : ∀ depth key value, t.Occurs depth key value → ¬ key.Mixes
  unowned : ∀ depth key value, t.Occurs depth key value →
    (∃ step ∈ key.steps, step.methods ≠ none) → value.barsMethods = false
  depth_le : ∀ depth key value, t.Occurs depth key value → depth ≤ limit

variable {t value item : Tree} {limit depth : Nat} {key : Key} {step : Step} {root : String}

theorem branchDefects_eq_nil_iff {b : Key × Tree} :
    branchDefects limit depth b = [] ↔
      depth ≤ limit ∧ ¬ b.1.Mixes ∧ ∀ s ∈ b.1.steps, b.2.defectsUnder limit depth s = [] := by
  unfold branchDefects
  split
  · exact iff_of_false (by simp) fun h => by omega
  · rename_i hd
    rw [List.flatMap_eq_nil_iff, ← Key.mixed_mem_readings_iff]
    constructor
    · refine fun h => ⟨by omega, ?_, fun s hs => h _ (Key.mem_steps.1 hs)⟩
      rintro ⟨keys, hk⟩
      exact List.cons_ne_nil _ _ (h _ hk)
    · rintro ⟨-, hm, hs⟩ (keys | s) hr
      · exact absurd ⟨keys, hr⟩ hm
      · exact hs s (Key.mem_steps.2 hr)

theorem alternativeDefects_eq_nil_iff :
    alternativeDefects limit depth step item = [] ↔
      depth ≤ limit ∧ item.defectsUnder limit depth step = [] := by
  unfold alternativeDefects
  split
  · exact iff_of_false (by simp) fun h => by omega
  · exact (and_iff_right (by omega)).symm

theorem defectsUnder_eq_nil_iff :
    value.defectsUnder limit depth step = [] ↔
      (step.methods ≠ none → value.barsMethods = false) ∧
      (∀ b ∈ value.branches, branchDefects limit (depth + 1) b = []) ∧
      ∀ item ∈ value.alternatives, alternativeDefects limit (depth + 1) step item = [] := by
  induction value using shapeInduct with
  | leaf h => simp [defectsUnder_leaf, barsMethods, branches, alternatives]
  | subtree t hs _ =>
    rcases t.admitted_or_barred step with hb | ⟨m, hb, hm⟩
    · rw [defectsUnder_of_isSubtree hs hb, List.map_eq_nil_iff, List.flatMap_eq_nil_iff,
        alternatives_eq_nil hs]
      exact ⟨fun h => ⟨hb.resolve_right, h, fun _ hi => absurd hi List.not_mem_nil⟩, fun h => h.2.1⟩
    · rw [defectsUnder_of_barsMethods hb hm]
      simp [hb, hm]
  | sequence items ha _ =>
    rw [defectsUnder_sequence ha, List.flatMap_eq_nil_iff, branches, alternatives, if_neg ha, if_neg ha]
    simp [barsMethods, ha]

theorem steps_ne_nil (h : ¬ key.Mixes) : key.steps ≠ [] := by
  obtain ⟨reading, hr⟩ := List.exists_mem_of_ne_nil _ (Key.readings_ne_nil key)
  cases reading with
  | error keys => exact absurd ((Key.mixed_mem_readings_iff key).1 ⟨keys, hr⟩) h
  | ok s => exact List.ne_nil_of_mem (Key.mem_steps.2 hr)

/-- Whatever occurs in a tree without defects has none itself, under any step of its key. -/
theorem Occurs.branchDefects_eq_nil (h : t.defects limit = []) (ho : t.Occurs depth key value) :
    branchDefects limit depth (key, value) = [] := by
  induction ho with
  | root hb => exact (defectsUnder_eq_nil_iff.1 h).2.1 _ hb
  | branch _ hb ih =>
    obtain ⟨-, hm, hs⟩ := branchDefects_eq_nil_iff.1 ih
    -- any step of the key will do, but there has to be one for the visit to come here
    obtain ⟨s, hmem⟩ := List.exists_mem_of_ne_nil _ (steps_ne_nil hm)
    exact (defectsUnder_eq_nil_iff.1 (hs s hmem)).2.1 _ hb
  | alternative _ hi ih =>
    obtain ⟨-, hm, hs⟩ := branchDefects_eq_nil_iff.1 ih
    have hitem := fun s hmem => alternativeDefects_eq_nil_iff.1 ((defectsUnder_eq_nil_iff.1 (hs s hmem)).2.2 _ hi)
    obtain ⟨s, hmem⟩ := List.exists_mem_of_ne_nil _ (steps_ne_nil hm)
    exact branchDefects_eq_nil_iff.2 ⟨(hitem s hmem).1, hm, fun s hmem => (hitem s hmem).2⟩

theorem WellFormed.defectsUnder_eq_nil (h : t.WellFormed limit) (ho : t.Occurs depth key value)
    (hs : step ∈ key.steps) : value.defectsUnder limit depth step = [] := by
  induction value using partsInduct generalizing depth key step with
  | parts value ihb iha =>
    refine defectsUnder_eq_nil_iff.2
      ⟨fun hm => h.unowned _ _ _ ho ⟨step, hs, hm⟩, fun b hb => ?_, fun item hi => ?_⟩
    · have hob : t.Occurs (depth + 1) b.1 b.2 := .branch ho hb
      exact branchDefects_eq_nil_iff.2
        ⟨h.depth_le _ _ _ hob, h.unmixed _ _ _ hob, fun s hmem => ihb b hb hob hmem⟩
    · have hoi : t.Occurs (depth + 1) key item := .alternative ho hi
      exact alternativeDefects_eq_nil_iff.2 ⟨h.depth_le _ _ _ hoi, iha item hi hoi hs⟩

theorem defects_eq_nil_iff_wellFormed (hs : t.isSubtree = true) :
    t.defects limit = [] ↔ t.WellFormed limit := by
  constructor
  · intro h
    have hocc := fun depth key value (ho : t.Occurs depth key value) =>
      branchDefects_eq_nil_iff.1 (ho.branchDefects_eq_nil h)
    refine ⟨hs, fun depth key value ho => (hocc depth key value ho).2.1, ?_,
      fun depth key value ho => (hocc depth key value ho).1⟩
    rintro depth key value ho ⟨s, hmem, hm⟩
    exact (defectsUnder_eq_nil_iff.1 ((hocc depth key value ho).2.2 s hmem)).1 hm
  · intro h
    refine defectsUnder_eq_nil_iff.2 ⟨fun hm => absurd rfl hm, fun b hb => ?_, ?_⟩
    · have hob : t.Occurs 1 b.1 b.2 := .root hb
      exact branchDefects_eq_nil_iff.2
        ⟨h.depth_le _ _ _ hob, h.unmixed _ _ _ hob, fun s hmem => h.defectsUnder_eq_nil hob hmem⟩
    · rw [alternatives_eq_nil hs]
      simp

/-- Exactly the well-formed trees are flattened. -/
theorem endpoints_ok_iff_wellFormed :
    (∃ m, t.endpoints limit root = .ok m) ↔ t.WellFormed limit := by
  by_cases hs : t.isSubtree = true
  · rw [← defects_eq_nil_iff_wellFormed hs, endpoints_eq_outcome hs]
    cases t.defects limit <;> simp [outcome]
  · obtain ⟨found, hf⟩ := exists_notTraversable limit root hs
    exact iff_of_false (by simp [hf]) fun h => hs h.isSubtree

end RouteTree.Tree
