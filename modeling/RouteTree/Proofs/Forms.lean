import RouteTree.Proofs.Endpoints
import Mathlib.Data.List.Forall2

/-!
# The form of a sub-tree

The same branches can be written as a mapping, as a sequence of pairs and, if there is but one, as a pair.
`Tree.Interchangeable` relates trees that differ in such choices alone, made at any number of places at
once. Two restrictions keep the choice free. A pair must not take the place of an element of a sequence,
for its neighbours might be pairs, and the sequence would turn from alternatives into a sub-tree; no other
exchange touches what a sequence is (`Interchangeable.isPair_eq`). And the empty sequence, which alone can
stand under methods, is exchanged with the empty mapping only at the root, above which there are none.

Interchangeable trees have the same shape, with branches or alternatives that correspond, and so by
induction on the shape a visit gives the same for both (`Interchangeable.visit_eq`).
-/

namespace RouteTree.Tree

theorem mapM_congr_of_forall₂ {α β γ ε : Type} {R : α → β → Prop} {f : α → Except ε γ} {g : β → Except ε γ}
    {xs : List α} {ys : List β} (h : List.Forall₂ R xs ys) (hfg : ∀ x ∈ xs, ∀ y, R x y → f x = g y) :
    xs.mapM f = ys.mapM g := by
  induction h with
  | nil => rfl
  | cons hxy _ ih =>
    rw [List.mapM_cons, List.mapM_cons, hfg _ (List.mem_cons_self ..) _ hxy,
      ih fun x hx => hfg x (List.mem_cons_of_mem _ hx)]

/-- Where a tree stands: it is the whole tree, the value of a branch, or an element of a sequence. -/
inductive Position where
  | root | value | element
deriving DecidableEq, Repr

/-- At a position, `t` may be taken for any other way to write the branches `bs`. -/
inductive Spells : Position → List (Key × Tree) → Tree → Prop where
  | mapping {p : Position} (bs : List (Key × Tree)) : Spells p bs (.mapping bs)
  | pairs {p : Position} {bs : List (Key × Tree)} : bs ≠ [] ∨ p = .root → Spells p bs (.ofPairs bs)
  | pair {p : Position} (key : Key) (value : Tree) : p ≠ .element → Spells p [(key, value)] (.pair key value)

/-- At a position, two trees differ only in how sub-trees are written in them. -/
inductive Interchangeable : Position → Tree → Tree → Prop where
  | leaf {p : Position} (h : Handler) : Interchangeable p (.leaf h) (.leaf h)
  | pair {p : Position} {key : Key} {v w : Tree} :
    Interchangeable .value v w → Interchangeable p (.pair key v) (.pair key w)
  | sequence {p : Position} {xs ys : List Tree} :
    List.Forall₂ (Interchangeable .element) xs ys → Interchangeable p (.sequence xs) (.sequence ys)
  /-- Branches with the same keys, in any two ways to write them. -/
  | subtree {p : Position} {bs cs : List (Key × Tree)} {t u : Tree} :
    bs.map (·.1) = cs.map (·.1) →
    List.Forall₂ (Interchangeable .value) (bs.map (·.2)) (cs.map (·.2)) →
    Spells p bs t → Spells p cs u → Interchangeable p t u

/-- Branches with one key and with values that may be exchanged. -/
def Corresponds (b c : Key × Tree) : Prop := b.1 = c.1 ∧ Interchangeable .value b.2 c.2

variable {p : Position} {t u v w : Tree} {bs cs : List (Key × Tree)} {xs ys : List Tree} {key : Key}

theorem isPair_eq_isSome (t : Tree) : t.isPair = t.pair?.isSome := by
  cases t <;> rfl

namespace Spells

theorem isSubtree (h : Spells p bs t) : t.isSubtree = true := by
  cases h with
  | mapping => rfl
  | pairs => simp [ofPairs, Tree.isSubtree, isPair, form]
  | pair => rfl

theorem branches (h : Spells p bs t) : t.branches = bs := by
  cases h with
  | mapping => rfl
  | pairs hne =>
    have hall : (bs.map fun b => Tree.pair b.1 b.2).all isPair = true := by simp [isPair, form]
    have hpair : pair? ∘ (fun b : Key × Tree => Tree.pair b.1 b.2) = some := rfl
    show (if _ then _ else _) = bs
    rw [if_pos hall, List.filterMap_map, hpair, List.filterMap_some]
  | pair => rfl

/-- Only at the root there is a sub-tree whose form matters to methods. -/
theorem barsMethods (h : Spells p bs t) (hp : p ≠ .root) : t.barsMethods = true := by
  cases h with
  | mapping => rfl
  | pairs hne => simp [ofPairs, Tree.barsMethods, isPair, form, hne.resolve_right hp]
  | pair => rfl

theorem pair?_eq_none (h : Spells .element bs t) : t.pair? = none := by
  cases h with
  | mapping => rfl
  | pairs => rfl
  | pair _ _ hp => exact absurd rfl hp

end Spells

theorem corresponds_of_spelled (hk : bs.map (·.1) = cs.map (·.1))
    (hv : List.Forall₂ (Interchangeable .value) (bs.map (·.2)) (cs.map (·.2))) :
    List.Forall₂ Corresponds bs cs := by
  induction bs generalizing cs with
  | nil =>
    cases cs with
    | nil => exact .nil
    | cons c cs => cases hk
  | cons b bs ih =>
    cases cs with
    | nil => cases hk
    | cons c cs =>
      obtain ⟨hbc, hk⟩ := List.cons.inj hk
      cases hv with
      | cons hv hvs => exact .cons ⟨hbc, hv⟩ (ih hk hvs)

namespace Interchangeable

theorem refl (p : Position) : (t : Tree) → Interchangeable p t t
  | .leaf h => .leaf h
  | .pair _ v => .pair (refl .value v)
  | .sequence xs => .sequence (List.forall₂_same.2 fun x _ => refl .element x)
  | .mapping bs => by
    refine .subtree rfl (List.forall₂_map_left_iff.2 (List.forall₂_map_right_iff.2 ?_)) (.mapping bs) (.mapping bs)
    refine List.forall₂_same.2 fun b hb => ?_
    have hlt : sizeOf b.2 < 1 + sizeOf bs := by
      rw [← Tree.mapping.sizeOf_spec]
      exact sizeOf_branch hb
    exact refl .value b.2
termination_by t => sizeOf t

/-- Elements are pairs together, and then their keys are the same. -/
theorem pair? (h : Interchangeable .element t u) : Option.Rel Corresponds t.pair? u.pair? := by
  cases h with
  | leaf => exact .none
  | pair hv => exact .some ⟨rfl, hv⟩
  | sequence => exact .none
  | subtree _ _ ht hu =>
    rw [ht.pair?_eq_none, hu.pair?_eq_none]
    exact .none

theorem isPair_eq (h : Interchangeable .element t u) : t.isPair = u.isPair := by
  cases h with
  | leaf => rfl
  | pair => rfl
  | sequence => rfl
  | subtree _ _ ht hu =>
    rw [isPair_eq_isSome, isPair_eq_isSome, ht.pair?_eq_none, hu.pair?_eq_none]

theorem all_isPair_eq (h : List.Forall₂ (Interchangeable .element) xs ys) : xs.all isPair = ys.all isPair := by
  induction h with
  | nil => rfl
  | cons hxy _ ih => rw [List.all_cons, List.all_cons, hxy.isPair_eq, ih]

theorem isSubtree_eq (h : Interchangeable p t u) : t.isSubtree = u.isSubtree := by
  cases h with
  | leaf => rfl
  | pair => rfl
  | sequence hxs => exact all_isPair_eq hxs
  | subtree _ _ ht hu => rw [ht.isSubtree, hu.isSubtree]

theorem branches (h : Interchangeable p t u) : List.Forall₂ Corresponds t.branches u.branches := by
  cases h with
  | leaf => exact .nil
  | pair hv => exact .cons ⟨rfl, hv⟩ .nil
  | @sequence _ xs ys hxs =>
    simp only [Tree.branches, ← all_isPair_eq hxs]
    split
    · exact List.rel_filterMap (fun _ _ hxy => hxy.pair?) hxs
    · exact .nil
  | subtree hk hv ht hu =>
    rw [ht.branches, hu.branches]
    exact corresponds_of_spelled hk hv

theorem barsMethods_eq (h : Interchangeable p t u) (hp : p ≠ .root) : t.barsMethods = u.barsMethods := by
  cases h with
  | leaf => rfl
  | pair => rfl
  | @sequence _ xs ys hxs =>
    have hempty : xs.isEmpty = ys.isEmpty := by cases hxs <;> rfl
    simp only [Tree.barsMethods, all_isPair_eq hxs, hempty]
  | subtree _ _ ht hu => rw [ht.barsMethods hp, hu.barsMethods hp]

theorem visitBranch_eq {b c : Key × Tree} {limit depth : Nat} {route : String} (hk : b.1 = c.1)
    (hv : ∀ step, b.2.visit limit route depth step = c.2.visit limit route depth step) :
    visitBranch limit route depth b = visitBranch limit route depth c := by
  rw [visitBranch, visitBranch, hk, funext hv]

/-- Interchangeable trees are visited alike. At the root this is said of visits without methods only, for
there an empty mapping may have become an empty sequence. -/
theorem visit_eq {step : Step} (h : Interchangeable p t u) (limit : Nat) (base : String) (depth : Nat)
    (hp : p = .root → step.methods = none) :
    t.visit limit base depth step = u.visit limit base depth step := by
  induction t using shapeInduct generalizing p u base depth step with
  | leaf view =>
    cases h with
    | leaf => rfl
    | subtree _ _ ht _ => cases ht
  | subtree t hs ih =>
    have hs' : u.isSubtree = true := h.isSubtree_eq ▸ hs
    rcases t.admitted_or_barred step with hb | ⟨m, hb, hm⟩
    · have hb' : u.barsMethods = false ∨ step.methods = none := by
        by_cases hroot : p = .root
        · exact .inr (hp hroot)
        · exact h.barsMethods_eq hroot ▸ hb
      -- what is exchanged further down does not stand at the root, where alone the step matters
      rw [visit_of_isSubtree limit base depth step hs hb, visit_of_isSubtree limit base depth step hs' hb',
        mapM_congr_of_forall₂ h.branches fun b hmem c hbc => visitBranch_eq hbc.1 fun s =>
          ih b hmem hbc.2 _ _ fun hroot => nomatch hroot]
    · have hb' : u.barsMethods = true := by
        rw [← h.barsMethods_eq fun hroot => ?_, hb]
        rw [hp hroot] at hm
        cases hm
      rw [visit_of_barsMethods limit base depth step hb hm, visit_of_barsMethods limit base depth step hb' hm]
  | sequence items ha ih =>
    cases h with
    | @sequence _ _ ys hxs =>
      have ha' : ¬ ys.all isPair = true := all_isPair_eq hxs ▸ ha
      rw [visit_sequence limit base depth step ha, visit_sequence limit base depth step ha',
        mapM_congr_of_forall₂ hxs fun item hmem item' hi => by
          rw [ih item hmem hi _ _ fun hroot => nomatch hroot]]
    | subtree _ _ ht _ => exact absurd ht.isSubtree ha

end Interchangeable

/-- Trees that differ only in how their sub-trees are written are flattened alike, unless neither has branches
to start from; then the element that stands in the way may itself be written in another form. -/
theorem endpoints_interchangeable (h : Interchangeable .root t u) (limit : Nat) (root : String) :
    t.endpoints limit root = u.endpoints limit root ∨
      ∃ found found', t.endpoints limit root = .error (.notTraversable found) ∧
        u.endpoints limit root = .error (.notTraversable found') := by
  by_cases hs : t.isSubtree = true
  · have hs' : u.isSubtree = true := h.isSubtree_eq ▸ hs
    refine .inl ?_
    rw [endpoints, endpoints, (obstacle?_eq_none_iff t).2 hs, (obstacle?_eq_none_iff u).2 hs']
    exact h.visit_eq limit root 0 fun _ => rfl
  · have hs' : ¬ u.isSubtree = true := h.isSubtree_eq ▸ hs
    obtain ⟨found, hf⟩ := exists_notTraversable limit root hs
    obtain ⟨found', hf'⟩ := exists_notTraversable limit root hs'
    exact .inr ⟨found, found', hf, hf'⟩

/-- A tree with sub-trees at the top, below branches and among alternatives. -/
def spelledTree (list create : Handler) : Tree := .mapping
  [(.path "/a", .ofPairs [(.methods .get, .leaf list), (.methods ⟨["POST"]⟩, .leaf create)]),
   (.any [.path "/b", .path "/c"], .sequence [.leaf list, .mapping [(.path "/d", .leaf create)]]),
   (.path "/e", .mapping [(.path "/f", .leaf list)]),
   (.path "/g", .sequence [.pair (.path "/h") (.mapping [])])]

/-- The same tree with all but the last of these sub-trees in another form. -/
def respelledTree (list create : Handler) : Tree := .ofPairs
  [(.path "/a", .mapping [(.methods .get, .leaf list), (.methods ⟨["POST"]⟩, .leaf create)]),
   (.any [.path "/b", .path "/c"], .sequence [.leaf list, .ofPairs [(.path "/d", .leaf create)]]),
   (.path "/e", .pair (.path "/f") (.leaf list)),
   (.path "/g", .sequence [.pair (.path "/h") (.mapping [])])]

/-- Four exchanges at once leave the endpoints as they are. -/
theorem endpoints_respelledTree :
    let list : Handler := { serial := 0, name := "list", call := fun _ => "" }
    let create : Handler := { serial := 1, name := "create", call := fun _ => "" }
    Interchangeable .root (spelledTree list create) (respelledTree list create) ∧
      ∃ m, (spelledTree list create).endpoints 3 "/api" = .ok m ∧
        (respelledTree list create).endpoints 3 "/api" = .ok m := by
  intro list create
  have hmethods : Interchangeable .value
      (.ofPairs [(.methods .get, .leaf list), (.methods ⟨["POST"]⟩, .leaf create)])
      (.mapping [(.methods .get, .leaf list), (.methods ⟨["POST"]⟩, .leaf create)]) := by
    refine .subtree ?_ ?_ (.pairs (.inl (List.cons_ne_nil _ _))) (.mapping _)
    · rfl
    · exact .cons (.leaf list) (.cons (.leaf create) .nil)
  have hnested : Interchangeable .element
      (.mapping [(.path "/d", .leaf create)]) (.ofPairs [(.path "/d", .leaf create)]) :=
    .subtree rfl (.cons (.leaf create) .nil) (.mapping _) (.pairs (.inl (List.cons_ne_nil _ _)))
  have halternatives : Interchangeable .value
      (.sequence [.leaf list, .mapping [(.path "/d", .leaf create)]])
      (.sequence [.leaf list, .ofPairs [(.path "/d", .leaf create)]]) :=
    .sequence (.cons (.leaf list) (.cons hnested .nil))
  have hsingle : Interchangeable .value (.mapping [(.path "/f", .leaf list)]) (.pair (.path "/f") (.leaf list)) :=
    .subtree rfl (.cons (.leaf list) .nil) (.mapping _) (.pair _ _ (by decide))
  have h : Interchangeable .root (spelledTree list create) (respelledTree list create) := by
    unfold spelledTree respelledTree
    refine .subtree ?_ ?_ (.mapping _) (.pairs (.inr rfl))
    · rfl
    · exact .cons hmethods (.cons halternatives (.cons hsingle (.cons (.refl _ _) .nil)))
  obtain ⟨m, hm⟩ : ∃ m, (spelledTree list create).endpoints 3 "/api" = .ok m := ⟨_, rfl⟩
  refine ⟨h, m, hm, ?_⟩
  rcases endpoints_interchangeable h 3 "/api" with heq | ⟨found, _, hf, -⟩
  · rw [← heq, hm]
  · rw [hm] at hf
    cases hf

end RouteTree.Tree
