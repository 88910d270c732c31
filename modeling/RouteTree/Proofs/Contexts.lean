import RouteTree.Proofs.Endpoints

/-!
# Trees with a hole

A change somewhere in a tree is two ways to fill a hole in it: `Tree.Context` is a tree with a hole, and
`Context.fill` puts a tree there. If both fillings pass for the same from above (`Alike`: as elements of a
sequence, under methods, and as roots), the two trees are read through the same steps and differ only in what
they hold at the hole. So whatever relates the leaves of the fillings under every step relates the leaves of
the whole trees, as long as it is kept when lists are appended and moved below a fragment (`Partwise`); and
likewise for defects.
-/

namespace RouteTree

/-- The relation holds between two wholes if it holds between their parts, one by one. -/
structure Partwise {α : Type} (R : List α → List α → Prop) (below : String → α → α) : Prop where
  refl (xs : List α) : R xs xs
  append {xs ys xs' ys' : List α} : R xs ys → R xs' ys' → R (xs ++ xs') (ys ++ ys')
  map_below {xs ys : List α} (fragment : String) : R xs ys →
    R (xs.map (below fragment)) (ys.map (below fragment))

namespace Partwise
variable {α β : Type} {R : List α → List α → Prop} {below : String → α → α} {f g : β → List α}

theorem flatMap (hR : Partwise R below) {bs : List β} (h : ∀ b ∈ bs, R (f b) (g b)) :
    R (bs.flatMap f) (bs.flatMap g) := by
  induction bs with
  | nil => exact hR.refl []
  | cons b bs ih =>
    rw [List.flatMap_cons, List.flatMap_cons]
    exact hR.append (h b (List.mem_cons_self ..)) (ih fun b hb => h b (List.mem_cons_of_mem _ hb))

theorem flatMap_middle (hR : Partwise R below) (before after : List β) {b c : β} (h : R (f b) (f c)) :
    R ((before ++ b :: after).flatMap f) ((before ++ c :: after).flatMap f) := by
  rw [List.flatMap_append, List.flatMap_append, List.flatMap_cons, List.flatMap_cons]
  exact hR.append (hR.refl _) (hR.append h (hR.refl _))

end Partwise

namespace Tree

/-- A tree with a hole in it. -/
inductive Context where
  | hole
  | pair (key : Key) (c : Context)
  | mapping (before : List (Key × Tree)) (key : Key) (c : Context) (after : List (Key × Tree))
  | sequence (before : List Tree) (c : Context) (after : List Tree)

/-- The tree that has `t` in the hole. -/
def Context.fill : Context → Tree → Tree
  | .hole, t => t
  | .pair key c, t => .pair key (c.fill t)
  | .mapping before key c after, t => .mapping (before ++ (key, c.fill t) :: after)
  | .sequence before c after, t => .sequence (before ++ c.fill t :: after)

/-- What is above two trees cannot tell them apart. -/
structure Alike (t u : Tree) : Prop where
  form : t.form = u.form
  obstacle : t.obstacle? = u.obstacle?
  bars : t.barsMethods = u.barsMethods

/-- The leaves of a branch. -/
def branchLeaves (b : Key × Tree) : List Leaf := b.1.steps.flatMap b.2.leavesUnder

variable {t u value value' : Tree} {items : List Tree} {key : Key} {limit depth : Nat} {step : Step}
  {R : List Leaf → List Leaf → Prop} {S : List Defect → List Defect → Prop}

/-! ### Pairs in a sequence -/

/-- What the branches of a sequence of pairs give is what its elements give, each a sub-tree by itself. -/
theorem flatMap_branches_sequence {α : Type} {f : Key × Tree → List α} {g : Tree → List α}
    (hfg : ∀ key value, g (.pair key value) = f (key, value)) (ha : items.all isPair = true) :
    (Tree.sequence items).branches.flatMap f = items.flatMap g := by
  rw [branches, if_pos ha]
  induction items with
  | nil => rfl
  | cons item items ih =>
    rw [List.all_cons, Bool.and_eq_true] at ha
    cases item with
    | pair key value =>
      have hcons : (Tree.pair key value :: items).filterMap pair? = (key, value) :: items.filterMap pair? := rfl
      rw [hcons, List.flatMap_cons, List.flatMap_cons, ih ha.2, hfg]
    | mapping _ => cases ha.1
    | sequence _ => cases ha.1
    | leaf _ => cases ha.1

/-- A pair adds nothing to the route of its sequence. -/
theorem branchLeaves_sequence (ha : items.all isPair = true) :
    (Tree.sequence items).branches.flatMap branchLeaves =
      items.flatMap fun item => item.leavesUnder ⟨"", none⟩ := by
  have hempty : Leaf.below "" = id := by
    funext l
    simp [Leaf.below]
  refine flatMap_branches_sequence (fun key value => ?_) ha
  rw [leavesUnder_of_isSubtree rfl, branches, List.flatMap_singleton, hempty, List.map_id]
  rfl

theorem branchDefects_sequence (ha : items.all isPair = true) :
    (Tree.sequence items).branches.flatMap (branchDefects limit (depth + 1)) =
      items.flatMap fun item => item.defectsUnder limit depth ⟨"", none⟩ := by
  have hempty : Defect.below "" = id := by
    funext d
    cases d <;> simp [Defect.below]
  refine flatMap_branches_sequence (fun key value => ?_) ha
  rw [defectsUnder_of_isSubtree rfl (.inr rfl), branches, List.flatMap_singleton, hempty, List.map_id]

/-! ### What is related -/

namespace Alike

theorem isPair_eq (h : Alike t u) : t.isPair = u.isPair := by
  rw [isPair, isPair, h.form]

theorem isSubtree_eq (h : Alike t u) : t.isSubtree = u.isSubtree := by
  rw [Bool.eq_iff_iff, ← obstacle?_eq_none_iff, ← obstacle?_eq_none_iff, h.obstacle]

theorem all_isPair_eq (h : Alike t u) (before after : List Tree) :
    (before ++ t :: after).all isPair = (before ++ u :: after).all isPair := by
  rw [List.all_append, List.all_append, List.all_cons, List.all_cons, h.isPair_eq]

theorem sequence (h : Alike t u) (before after : List Tree) :
    Alike (.sequence (before ++ t :: after)) (.sequence (before ++ u :: after)) := by
  refine ⟨rfl, ?_, ?_⟩
  · -- the first element that is no pair may be the one that changes, and then its form is named
    simp only [obstacle?, List.find?_append, List.find?_cons, h.isPair_eq]
    cases before.find? fun item => !item.isPair with
    | some item => rfl
    | none =>
      cases u.isPair with
      | true => rfl
      | false => simp [h.form]
  · simp only [barsMethods, h.all_isPair_eq before after]
    cases before <;> rfl

theorem fill (h : Alike t u) (c : Context) : Alike (c.fill t) (c.fill u) := by
  induction c with
  | hole => exact h
  | pair key c _ => exact ⟨rfl, rfl, rfl⟩
  | mapping before key c after _ => exact ⟨rfl, rfl, rfl⟩
  | sequence before c after ih => exact ih.sequence before after

theorem leavesUnder_subtree (h : Alike t u) (hR : Partwise R .below) (hs : t.isSubtree = true)
    (hb : R (t.branches.flatMap branchLeaves) (u.branches.flatMap branchLeaves)) (step : Step) :
    R (t.leavesUnder step) (u.leavesUnder step) := by
  rw [leavesUnder_of_isSubtree hs, leavesUnder_of_isSubtree (h.isSubtree_eq ▸ hs)]
  exact hR.map_below _ hb

theorem defectsUnder_subtree (h : Alike t u) (hS : Partwise S .below) (hs : t.isSubtree = true)
    (hb : S (t.branches.flatMap (branchDefects limit (depth + 1)))
      (u.branches.flatMap (branchDefects limit (depth + 1)))) (step : Step) :
    S (t.defectsUnder limit depth step) (u.defectsUnder limit depth step) := by
  have hs' : u.isSubtree = true := h.isSubtree_eq ▸ hs
  rcases t.admitted_or_barred step with ha | ⟨m, ha, hm⟩
  · rw [defectsUnder_of_isSubtree hs ha, defectsUnder_of_isSubtree hs' (h.bars ▸ ha)]
    exact hS.map_below _ hb
  · rw [defectsUnder_of_barsMethods ha hm, defectsUnder_of_barsMethods (h.bars ▸ ha) hm]
    exact hS.refl _

end Alike

theorem branchLeaves_related (hR : Partwise R .below)
    (h : ∀ step, R (value.leavesUnder step) (value'.leavesUnder step)) :
    R (branchLeaves (key, value)) (branchLeaves (key, value')) :=
  hR.flatMap fun step _ => h step

theorem branchDefects_related (hS : Partwise S .below)
    (h : ∀ step, S (value.defectsUnder limit depth step) (value'.defectsUnder limit depth step)) :
    S (branchDefects limit depth (key, value)) (branchDefects limit depth (key, value')) := by
  unfold branchDefects
  split
  · exact hS.refl _
  · refine hS.flatMap fun reading _ => ?_
    cases reading with
    | error keys => exact hS.refl _
    | ok step => exact h step

theorem alternativeDefects_related (hS : Partwise S .below)
    (h : S (t.defectsUnder limit depth step) (u.defectsUnder limit depth step)) :
    S (alternativeDefects limit depth step t) (alternativeDefects limit depth step u) := by
  unfold alternativeDefects
  split
  · exact hS.refl _
  · exact h

namespace Context

theorem leavesUnder_fill (hR : Partwise R .below) (h : Alike t u)
    (ht : ∀ step, R (t.leavesUnder step) (u.leavesUnder step)) (c : Context) (step : Step) :
    R ((c.fill t).leavesUnder step) ((c.fill u).leavesUnder step) := by
  induction c generalizing step with
  | hole => exact ht step
  | pair key c ih =>
    refine (h.fill (.pair key c)).leavesUnder_subtree hR rfl ?_ step
    exact hR.flatMap_middle [] [] (branchLeaves_related hR ih)
  | mapping before key c after ih =>
    refine (h.fill (.mapping before key c after)).leavesUnder_subtree hR rfl ?_ step
    exact hR.flatMap_middle before after (branchLeaves_related hR ih)
  | sequence before c after ih =>
    have hall := (h.fill c).all_isPair_eq before after
    by_cases ha : (before ++ c.fill t :: after).all isPair = true
    · -- the hole is in a pair, and what stands in it is a branch of the sequence
      refine (h.fill (.sequence before c after)).leavesUnder_subtree hR ha ?_ step
      rw [fill, fill, branchLeaves_sequence ha, branchLeaves_sequence (hall ▸ ha)]
      exact hR.flatMap_middle before after (ih _)
    · rw [fill, fill, leavesUnder_sequence ha, leavesUnder_sequence (hall ▸ ha)]
      exact hR.flatMap_middle before after (ih step)

theorem defectsUnder_fill (hS : Partwise S .below) (h : Alike t u)
    (ht : ∀ depth step, S (t.defectsUnder limit depth step) (u.defectsUnder limit depth step)) (c : Context)
    (depth : Nat) (step : Step) :
    S ((c.fill t).defectsUnder limit depth step) ((c.fill u).defectsUnder limit depth step) := by
  induction c generalizing depth step with
  | hole => exact ht depth step
  | pair key c ih =>
    refine (h.fill (.pair key c)).defectsUnder_subtree hS rfl ?_ step
    exact hS.flatMap_middle [] [] (branchDefects_related hS (ih _))
  | mapping before key c after ih =>
    refine (h.fill (.mapping before key c after)).defectsUnder_subtree hS rfl ?_ step
    exact hS.flatMap_middle before after (branchDefects_related hS (ih _))
  | sequence before c after ih =>
    have hall := (h.fill c).all_isPair_eq before after
    by_cases ha : (before ++ c.fill t :: after).all isPair = true
    · refine (h.fill (.sequence before c after)).defectsUnder_subtree hS ha ?_ step
      rw [fill, fill, branchDefects_sequence ha, branchDefects_sequence (hall ▸ ha)]
      exact hS.flatMap_middle before after (ih depth _)
    · rw [fill, fill, defectsUnder_sequence ha, defectsUnder_sequence (hall ▸ ha)]
      exact hS.flatMap_middle before after (alternativeDefects_related hS (ih _ step))

end Context

end Tree

end RouteTree
