import RouteTree.Tree.Endpoints

/-!
# The shape of a tree

To a visit a tree is one of three things: a handler, a sub-tree with its branches
(`Tree.branches`), or a sequence of alternatives (`Tree.alternatives`). A sub-tree can be a mapping,
a pair or a sequence of pairs, and after `Tree.visit_of_isSubtree` it does not matter which, except
that only an empty sequence of pairs can stand under methods (`Tree.barsMethods`). Trees are taken
apart in these three shapes by `Tree.shapeInduct`.
-/

namespace RouteTree.Tree

def pair? : Tree → Option (Key × Tree)
  | .pair key value => some (key, value)
  | .mapping _ | .sequence _ | .leaf _ => none

/-- The branches of a sub-tree. -/
def branches : Tree → List (Key × Tree)
  | .mapping entries => entries
  | .pair key value => [(key, value)]
  | .sequence items => if items.all isPair then items.filterMap pair? else []
  | .leaf _ => []

/-- The elements of a sequence that holds anything but pairs. -/
def alternatives : Tree → List Tree
  | .sequence items => if items.all isPair then [] else items
  | .mapping _ | .pair _ _ | .leaf _ => []

/-- Is the tree a sub-tree that must not stand under methods? Only the empty sequence is none. -/
def barsMethods : Tree → Bool
  | .mapping _ | .pair _ _ => true
  | .sequence items => items.all isPair && !items.isEmpty
  | .leaf _ => false

variable {t value item : Tree} {key : Key} {items : List Tree}

/-- A tree can stand under the methods of a step, if there are any, or it is a sub-tree that bars them. -/
theorem admitted_or_barred (t : Tree) (step : Step) :
    (t.barsMethods = false ∨ step.methods = none) ∨ ∃ m, t.barsMethods = true ∧ step.methods = some m := by
  cases step.methods with
  | none => exact .inl (.inr rfl)
  | some m =>
    cases t.barsMethods with
    | false => exact .inl (.inl rfl)
    | true => exact .inr ⟨m, rfl, rfl⟩

theorem mem_of_pair? (h : item.pair? = some (key, value)) : item = .pair key value := by
  cases item with
  | pair k v => cases h; rfl
  | mapping _ => cases h
  | sequence _ => cases h
  | leaf _ => cases h

theorem sizeOf_branch {b : Key × Tree} (h : b ∈ t.branches) : sizeOf b.2 < sizeOf t := by
  obtain ⟨key, value⟩ := b
  cases t with
  | mapping entries =>
    have hlt : sizeOf (key, value) < sizeOf entries := List.sizeOf_lt_of_mem h
    simp only [Prod.mk.sizeOf_spec, Tree.mapping.sizeOf_spec] at hlt ⊢
    omega
  | pair k v =>
    obtain ⟨rfl, rfl⟩ := Prod.mk.inj (List.mem_singleton.1 h)
    simp only [Tree.pair.sizeOf_spec]
    omega
  | sequence items =>
    simp only [branches] at h
    split at h
    · obtain ⟨item, hi, hp⟩ := List.mem_filterMap.1 h
      have hlt := List.sizeOf_lt_of_mem hi
      rw [mem_of_pair? hp] at hlt
      simp only [Tree.pair.sizeOf_spec, Tree.sequence.sizeOf_spec] at hlt ⊢
      omega
    · cases h
  | leaf _ => cases h

theorem sizeOf_alternative (h : item ∈ t.alternatives) : sizeOf item < sizeOf t := by
  cases t with
  | sequence items =>
    simp only [alternatives] at h
    split at h
    · cases h
    · have hlt := List.sizeOf_lt_of_mem h
      simp only [Tree.sequence.sizeOf_spec]
      omega
  | mapping _ => cases h
  | pair _ _ => cases h
  | leaf _ => cases h

/-- Trees by induction on what they hold. -/
@[elab_as_elim]
theorem partsInduct {P : Tree → Prop}
    (parts : ∀ t : Tree, (∀ b ∈ t.branches, P b.2) → (∀ item ∈ t.alternatives, P item) → P t) (t : Tree) :
    P t :=
  parts t
    (fun b hb => have := sizeOf_branch hb; partsInduct parts b.2)
    (fun item hi => have := sizeOf_alternative hi; partsInduct parts item)
termination_by sizeOf t

/-- Trees by induction on their shape. -/
@[elab_as_elim]
theorem shapeInduct {P : Tree → Prop} (leaf : ∀ h, P (.leaf h))
    (subtree : ∀ t : Tree, t.isSubtree = true → (∀ b ∈ t.branches, P b.2) → P t)
    (sequence : ∀ items : List Tree, ¬ items.all isPair = true → (∀ item ∈ items, P item) →
      P (.sequence items)) (t : Tree) : P t := by
  induction t using partsInduct with
  | parts t ihb iha =>
    by_cases hs : t.isSubtree = true
    · exact subtree t hs ihb
    · cases t with
      | leaf h => exact leaf h
      | sequence items =>
        have hs : ¬ items.all isPair = true := hs
        rw [alternatives, if_neg hs] at iha
        exact sequence items hs iha
      | mapping _ => exact absurd rfl hs
      | pair _ _ => exact absurd rfl hs

theorem alternatives_eq_nil (hs : t.isSubtree = true) : t.alternatives = [] := by
  cases t with
  | sequence items => exact if_pos hs
  | mapping _ => rfl
  | pair _ _ => rfl
  | leaf _ => rfl

/-! ### Visits by shape -/

/-- The visit of one branch. -/
def visitBranch (limit : Nat) (route : String) (depth : Nat) (b : Key × Tree) :
    Except StructureError EndpointMap :=
  within limit depth route (b.1.visitSteps (b.2.visit limit route depth))

variable (limit : Nat) (base route : String) (depth : Nat) (step : Step)

theorem visitEntries_eq_mapM (entries : List (Key × Tree)) :
    visitEntries limit entries route depth = entries.mapM (visitBranch limit route depth) := by
  induction entries with
  | nil => rfl
  | cons b entries ih => rw [visitEntries, ih, List.mapM_cons]; rfl

theorem visitPairs_eq_mapM (h : items.all isPair = true) :
    visitPairs limit items route depth = (items.filterMap pair?).mapM (visitBranch limit route depth) := by
  induction items with
  | nil => rfl
  | cons item items ih =>
    rw [List.all_cons, Bool.and_eq_true] at h
    cases item with
    | pair key value =>
      have hcons : (Tree.pair key value :: items).filterMap pair? = (key, value) :: items.filterMap pair? := rfl
      rw [visitPairs, ih h.2, hcons, List.mapM_cons]
      rfl
    | mapping _ => cases h.1
    | sequence _ => cases h.1
    | leaf _ => cases h.1

theorem visitAlternatives_eq_mapM (items : List Tree) :
    visitAlternatives limit items base depth step =
      items.mapM fun item => within limit depth base (item.visit limit base depth step) := by
  induction items with
  | nil => rfl
  | cons item items ih => rw [visitAlternatives, ih, List.mapM_cons]

theorem visit_of_barsMethods {m : Methods} (hb : t.barsMethods = true) (hm : step.methods = some m) :
    t.visit limit base depth step = .error (.ownedSubtree (base ++ step.fragment) m) := by
  cases t with
  | mapping entries => rw [visit, hm]; rfl
  | pair key value => rw [visit, hm]; rfl
  | sequence items =>
    obtain ⟨ha, he⟩ := Bool.and_eq_true_iff.1 hb
    cases items with
    | nil => cases he
    | cons item items => simp only [visit, ha, hm, ↓reduceIte]; rfl
  | leaf _ => cases hb

theorem visit_of_isSubtree (hs : t.isSubtree = true) (hb : t.barsMethods = false ∨ step.methods = none) :
    t.visit limit base depth step =
      (return .concat (← t.branches.mapM (visitBranch limit (base ++ step.fragment) (depth + 1)))) := by
  cases t with
  | mapping entries =>
    obtain hb | hm := hb
    · cases hb
    · rw [visit, hm, visitEntries_eq_mapM]; rfl
  | pair key value =>
    obtain hb | hm := hb
    · cases hb
    · rw [visit, hm]; simp [branches, visitBranch]
  | sequence items =>
    have hall : items.all isPair = true := hs
    simp only [visit, branches, hall, ↓reduceIte, ← visitPairs_eq_mapM _ _ _ hall]
    split
    · rename_i m hm
      obtain hb | hn := hb
      · simp [barsMethods, hall] at hb
      · rw [hm] at hn; cases hn
    · rfl
  | leaf _ => cases hs

theorem visit_sequence (h : ¬ items.all isPair = true) :
    (Tree.sequence items).visit limit base depth step =
      (return .concat (← items.mapM fun item =>
        within limit (depth + 1) base (item.visit limit base (depth + 1) step))) := by
  simp only [visit, h, Bool.false_eq_true, ↓reduceIte, visitAlternatives_eq_mapM]

end RouteTree.Tree
