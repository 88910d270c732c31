import RouteTree.Proofs.Readings
import RouteTree.Proofs.Shape

/-!
# The leaves and the defects of a tree

What there is to find in a tree is defined here without visiting it. `Tree.leaves` lists the handlers
as they are reached: depth first, from left to right, and the value of a branch once for every step of
its key. `Tree.defects` lists what is wrong in the same order, without stopping at a defect and without
looking below one. Neither knows the root path, which only comes in where a leaf is turned into an
endpoint (`Leaf.endpoint`) and a defect into an error (`Defect.error`). The handler of a leaf is one that
the tree holds somewhere (`Tree.Holds`).
-/

namespace RouteTree

/-- A handler as it is reached: by the fragments on the way as one text, and by the methods that the
last key on the way asks for. -/
structure Leaf where
  path : String
  methods : Option Methods
  view : Handler

namespace Leaf

/-- The leaf of a sub-tree that hangs below `fragment`. -/
def below (fragment : String) (l : Leaf) : Leaf := { l with path := fragment ++ l.path }

theorem map_below_below (r s : String) (ls : List Leaf) :
    (ls.map (below s)).map (below r) = ls.map (below (r ++ s)) := by
  rw [List.map_map]
  refine List.map_congr_left fun l _ => ?_
  simp [below, String.append_assoc]

/-- The endpoint of a leaf: the options are those of its handler, the methods those of its key if there
are any. -/
def endpoint (root : String) (l : Leaf) : Endpoint where
  route := root ++ l.path
  view := l.view
  options :=
    let own := l.view.options.getD {}
    match l.methods with
    | some m => { own with methods := some m }
    | none => own

theorem endpoint_below (root fragment : String) (l : Leaf) :
    (l.below fragment).endpoint root = l.endpoint (root ++ fragment) := by
  simp [below, endpoint, String.append_assoc]

end Leaf

/-- What is wrong with a branch or an alternative. -/
inductive Defect where
  /-- It lies too deep; `path` leads to what holds it. -/
  | tooDeep (path : String)
  /-- Its key is a flat mixture, or holds one. -/
  | mixedKey (keys : List Key)
  /-- It is a sub-tree under methods; `path` leads to it. -/
  | methodsOwnSubtree (path : String) (m : Methods)

namespace Defect

/-- The defect of a sub-tree that hangs below `fragment`. -/
def below (fragment : String) : Defect → Defect
  | .tooDeep path => .tooDeep (fragment ++ path)
  | .mixedKey keys => .mixedKey keys
  | .methodsOwnSubtree path m => .methodsOwnSubtree (fragment ++ path) m

theorem map_below_below (r s : String) (ds : List Defect) :
    (ds.map (below s)).map (below r) = ds.map (below (r ++ s)) := by
  rw [List.map_map]
  refine List.map_congr_left fun d _ => ?_
  cases d <;> simp [below, String.append_assoc]

/-- The error that reports a defect. -/
def error (limit : Nat) (root : String) : Defect → StructureError
  | .tooDeep path => .tooDeep (root ++ path) limit
  | .mixedKey keys => .mixedKey (keys.map Key.form)
  | .methodsOwnSubtree path m =>
    .methodsOwnSubtree (root ++ path ++ "/" ++ ", ".intercalate m.tokens)

theorem error_below (limit : Nat) (root fragment : String) (d : Defect) :
    (d.below fragment).error limit root = d.error limit (root ++ fragment) := by
  cases d <;> simp [below, error, String.append_assoc]

end Defect

namespace Tree

/-- The leaves of the value of a branch, read under one step of its key. A sub-tree lengthens the path
by the fragment of the step, alternatives are all read under the step itself. -/
def leavesUnder (t : Tree) (step : Step) : List Leaf :=
  match t with
  | .leaf h => [⟨step.fragment, step.methods, h⟩]
  | t =>
    if t.isSubtree then
      (t.branches.attach.flatMap fun ⟨(key, value), _⟩ =>
        key.steps.flatMap fun s => value.leavesUnder s).map (.below step.fragment)
    else
      t.alternatives.attach.flatMap fun ⟨item, _⟩ => item.leavesUnder step
termination_by sizeOf t
decreasing_by
  · exact sizeOf_branch ‹_›
  · exact sizeOf_alternative ‹_›

/-- The leaves of a tree in their order. -/
def leaves (t : Tree) : List Leaf := t.leavesUnder ⟨"", none⟩

/-- The defects of the value of a branch that lies `depth` levels deep, read under one step of its key.
-/
def defectsUnder (limit : Nat) (t : Tree) (depth : Nat) (step : Step) : List Defect :=
  match step.methods, t.barsMethods with
  | some m, true => [.methodsOwnSubtree step.fragment m]
  | _, _ =>
    if t.isSubtree then
      (t.branches.attach.flatMap fun ⟨(key, value), _⟩ =>
        if limit < depth + 1 then [.tooDeep ""]
        else key.readings.flatMap (Reading.elim (fun keys => [.mixedKey keys])
          fun s => value.defectsUnder limit (depth + 1) s)).map (.below step.fragment)
    else
      t.alternatives.attach.flatMap fun ⟨item, _⟩ =>
        if limit < depth + 1 then [.tooDeep ""] else item.defectsUnder limit (depth + 1) step
termination_by sizeOf t
decreasing_by
  · exact sizeOf_branch ‹_›
  · exact sizeOf_alternative ‹_›

/-- The defects of a tree in their order, for a tree with `limit` levels. -/
def defects (limit : Nat) (t : Tree) : List Defect := t.defectsUnder limit 0 ⟨"", none⟩

/-- The defects of a branch that lies `depth` levels deep. -/
def branchDefects (limit depth : Nat) (b : Key × Tree) : List Defect :=
  if limit < depth then [.tooDeep ""]
  else b.1.readings.flatMap (Reading.elim (fun keys => [.mixedKey keys]) (b.2.defectsUnder limit depth))

/-- The defects of an alternative that lies `depth` levels deep. -/
def alternativeDefects (limit depth : Nat) (step : Step) (item : Tree) : List Defect :=
  if limit < depth then [.tooDeep ""] else item.defectsUnder limit depth step

variable {t : Tree} {items : List Tree} {limit depth : Nat} {step : Step} {m : Methods}

theorem leavesUnder_leaf (h : Handler) :
    (Tree.leaf h).leavesUnder step = [⟨step.fragment, step.methods, h⟩] := by
  rw [leavesUnder]

theorem leavesUnder_of_isSubtree (hs : t.isSubtree = true) :
    t.leavesUnder step =
      (t.branches.flatMap fun b => b.1.steps.flatMap b.2.leavesUnder).map (.below step.fragment) := by
  cases t with
  | leaf h => cases hs
  | _ =>
    rw [leavesUnder, if_pos hs, List.flatMap_subtype (g := fun b => b.1.steps.flatMap b.2.leavesUnder)
      fun _ _ => rfl, List.unattach_attach]
    intro h hleaf
    cases hleaf

theorem leavesUnder_sequence (ha : ¬ items.all isPair = true) :
    (Tree.sequence items).leavesUnder step = items.flatMap fun item => item.leavesUnder step := by
  have hs : ¬ (Tree.sequence items).isSubtree = true := ha
  rw [leavesUnder, if_neg hs, List.flatMap_subtype (g := fun item => item.leavesUnder step) fun _ _ => rfl,
    List.unattach_attach, alternatives, if_neg ha]
  intro h hleaf
  cases hleaf

theorem defectsUnder_leaf (h : Handler) : (Tree.leaf h).defectsUnder limit depth step = [] := by
  rw [defectsUnder]
  split
  · rename_i hb
    cases hb
  · rfl

theorem defectsUnder_of_barsMethods (hb : t.barsMethods = true) (hm : step.methods = some m) :
    t.defectsUnder limit depth step = [.methodsOwnSubtree step.fragment m] := by
  rw [defectsUnder, hm, hb]

theorem defectsUnder_of_isSubtree (hs : t.isSubtree = true)
    (hb : t.barsMethods = false ∨ step.methods = none) :
    t.defectsUnder limit depth step =
      (t.branches.flatMap (branchDefects limit (depth + 1))).map (.below step.fragment) := by
  rw [defectsUnder]
  split
  · rename_i m hm hbar
    rcases hb with hb | hb
    · rw [hb] at hbar; cases hbar
    · rw [hm] at hb; cases hb
  · rw [if_pos hs, List.flatMap_subtype (g := branchDefects limit (depth + 1)) fun _ _ => rfl,
      List.unattach_attach]

theorem defectsUnder_sequence (ha : ¬ items.all isPair = true) :
    (Tree.sequence items).defectsUnder limit depth step =
      items.flatMap (alternativeDefects limit (depth + 1) step) := by
  have hs : ¬ (Tree.sequence items).isSubtree = true := ha
  rw [defectsUnder]
  split
  · rename_i hbar
    exact absurd (Bool.and_eq_true_iff.1 hbar).1 ha
  · rw [if_neg hs, List.flatMap_subtype (g := alternativeDefects limit (depth + 1) step) fun _ _ => rfl,
      List.unattach_attach, alternatives, if_neg ha]

/-! ### The handlers of a tree -/

/-- The handler stands somewhere in the tree. -/
inductive Holds (h : Handler) : Tree → Prop
  | leaf : Holds h (.leaf h)
  | pair {key : Key} {value : Tree} : Holds h value → Holds h (.pair key value)
  | mapping {entries : List (Key × Tree)} {b : Key × Tree} :
    b ∈ entries → Holds h b.2 → Holds h (.mapping entries)
  | sequence {items : List Tree} {item : Tree} : item ∈ items → Holds h item → Holds h (.sequence items)

theorem Holds.of_branch {h : Handler} {b : Key × Tree} (hb : b ∈ t.branches) (hh : Holds h b.2) :
    Holds h t := by
  cases t with
  | mapping entries => exact .mapping hb hh
  | pair key value =>
    rw [branches, List.mem_singleton] at hb
    subst hb
    exact .pair hh
  | sequence items =>
    simp only [branches] at hb
    split at hb
    · obtain ⟨item, hi, hp⟩ := List.mem_filterMap.1 hb
      rw [mem_of_pair? hp] at hi
      exact .sequence hi (.pair hh)
    · cases hb
  | leaf _ => cases hb

theorem holds_of_mem_leavesUnder {l : Leaf} (hl : l ∈ t.leavesUnder step) : Holds l.view t := by
  induction t using shapeInduct generalizing step l with
  | leaf h =>
    rw [leavesUnder_leaf, List.mem_singleton] at hl
    subst hl
    exact .leaf
  | subtree t hs ih =>
    rw [leavesUnder_of_isSubtree hs] at hl
    obtain ⟨l', hl', rfl⟩ := List.mem_map.1 hl
    obtain ⟨b, hb, hstep⟩ := List.mem_flatMap.1 hl'
    obtain ⟨s, -, hvalue⟩ := List.mem_flatMap.1 hstep
    have hview : Holds l'.view b.2 := ih b hb hvalue
    exact .of_branch hb hview
  | sequence items ha ih =>
    rw [leavesUnder_sequence ha] at hl
    obtain ⟨item, hi, hitem⟩ := List.mem_flatMap.1 hl
    exact .sequence hi (ih item hi hitem)

end Tree
end RouteTree
