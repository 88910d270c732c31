import RouteTree.Proofs.Endpoints

/-!
# Trees without branches

A tree has no branches to start from if it is a handler or a sequence that holds something else than pairs
(`Tree.Unbranched`). That is found at the root and nowhere else: the same sequence is one of alternatives
below a branch, and a handler there is a leaf. So a visit, whatever else is wrong, never ends for want of
branches (`Tree.visit_ne_notTraversable`), and whether a tree is refused for it can be told without looking
below its root.
-/

namespace RouteTree

theorem Defect.error_ne_notTraversable (limit : Nat) (root : String) (d : Defect) (found : Obstacle) :
    d.error limit root ≠ .notTraversable found := by
  cases d <;> simp [error]

namespace Tree

/-- The tree has no branches, and `text` says what it is instead. -/
inductive Unbranched : Tree → String → Prop where
  | handler (h : Handler) : Unbranched (.leaf h) ("handler '" ++ h.name ++ "'")
  /-- The first element that is no pair counts. -/
  | element {before after : List Tree} {item : Tree} :
    (∀ other ∈ before, ∃ key value, other = .pair key value) → (∀ key value, item ≠ .pair key value) →
    Unbranched (.sequence (before ++ item :: after)) ("sequence containing a " ++ item.form.text)

variable {t : Tree}

theorem isPair_iff : t.isPair = true ↔ ∃ key value, t = .pair key value := by
  cases t <;> simp [isPair, form]

theorem exists_obstacle?_iff {text : String} :
    (∃ found, t.obstacle? = some found ∧ found.text = text) ↔ t.Unbranched text := by
  cases t with
  | mapping _ =>
    refine iff_of_false (by simp [obstacle?]) fun h => ?_
    cases h
  | pair _ _ =>
    refine iff_of_false (by simp [obstacle?]) fun h => ?_
    cases h
  | leaf h =>
    constructor
    · rintro ⟨found, hf, rfl⟩
      cases hf
      exact .handler h
    · rintro ⟨⟩
      exact ⟨.handler h.name, rfl, rfl⟩
  | sequence items =>
    constructor
    · rintro ⟨found, hf, rfl⟩
      obtain ⟨item, hfirst, rfl⟩ := Option.map_eq_some_iff.1 hf
      obtain ⟨hitem, before, after, rfl, hbefore⟩ := List.find?_eq_some_iff_append.1 hfirst
      refine .element (fun other ho => isPair_iff.1 (by simpa using hbefore other ho)) fun key value h => ?_
      rw [h] at hitem
      cases hitem
    · intro h
      cases h with
      | @element before after item hbefore hitem =>
        have hfirst : (before ++ item :: after).find? (fun t => !t.isPair) = some item := by
          refine List.find?_eq_some_iff_append.2 ⟨?_, before, after, rfl, fun other ho => ?_⟩
          · rw [Bool.not_eq_true', ← Bool.not_eq_true, isPair_iff]
            rintro ⟨key, value, h⟩
            exact hitem key value h
          · simp [isPair_iff.2 (hbefore other ho)]
        exact ⟨.element item.form, by rw [obstacle?, hfirst]; rfl, rfl⟩

/-- No visit of a value ends for want of branches. -/
theorem visit_ne_notTraversable (value : Tree) (limit : Nat) (base : String) (depth : Nat) (step : Step)
    (found : Obstacle) : value.visit limit base depth step ≠ .error (.notTraversable found) := by
  rw [visit_eq_outcome]
  cases value.defectsUnder limit depth step with
  | nil =>
    intro h
    cases h
  | cons d rest =>
    intro h
    exact d.error_ne_notTraversable limit base found (Except.error.inj h)

theorem endpoints_eq_notTraversable_iff {limit : Nat} {root : String} {found : Obstacle} :
    t.endpoints limit root = .error (.notTraversable found) ↔ t.obstacle? = some found := by
  cases ho : t.obstacle? with
  | some other =>
    rw [endpoints_of_obstacle ho]
    simp
  | none =>
    rw [endpoints, ho]
    refine iff_of_false (visit_ne_notTraversable _ _ _ _ _ _) fun h => ?_
    cases h

/-- A tree is refused for want of branches if its root has none, and the error says what the root is instead;
no visit of a value, whatever it holds, ends so. -/
theorem endpoints_notTraversable_iff_unbranched (t : Tree) (limit : Nat) (root : String) :
    (∀ text, (∃ found, t.endpoints limit root = .error (.notTraversable found) ∧ found.text = text) ↔
      t.Unbranched text) ∧
      ∀ (value : Tree) (base : String) (depth : Nat) (step : Step) (found : Obstacle),
        value.visit limit base depth step ≠ .error (.notTraversable found) := by
  refine ⟨fun text => ?_, fun value base depth step found =>
    value.visit_ne_notTraversable limit base depth step found⟩
  simp only [endpoints_eq_notTraversable_iff]
  exact exists_obstacle?_iff

end Tree
end RouteTree
