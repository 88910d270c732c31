import RouteTree.Proofs.Contexts
import RouteTree.Proofs.Forms

/-!
# Key sequences as branches

A branch whose key is a sequence, neither of methods alone nor a flat mixture, stands for the branches that have
the elements of the sequence as their keys, one after the other with the same value; and a sequence of one key,
whatever it is, stands for that key. Either can be taken for the other at any place of a tree
(`Tree.endpoints_desugared`).

The leaves are the same. The defects need not be: what lies too deep is found once for the sequence and once
for each of its elements. But they begin alike (`Tree.head?_branchDefects_any`), and a visit reports no other.
-/

namespace RouteTree

theorem outcome_congr {errors errors' : List StructureError} (h : errors.head? = errors'.head?)
    (es : List Endpoint) : outcome errors es = outcome errors' es := by
  cases errors with
  | nil =>
    rw [List.head?_eq_none_iff.1 h.symm]
  | cons e rest =>
    obtain ⟨rest', rfl⟩ := List.head?_eq_some_iff.1 h.symm
    rfl

/-- Defects are told apart by the first one, which is the one that is reported. -/
theorem partwise_head? : Partwise (fun ds ds' : List Defect => ds.head? = ds'.head?) Defect.below where
  refl _ := rfl
  append h h' := by rw [List.head?_append, List.head?_append, h, h']
  map_below _ h := by rw [List.head?_map, List.head?_map, h]

theorem partwise_eq {α : Type} (below : String → α → α) : Partwise (· = ·) below where
  refl _ := rfl
  append h h' := by rw [h, h']
  map_below _ h := by rw [h]

namespace Key
variable {keys : List Key}

theorem readings_any_singleton (key : Key) : readings (.any [key]) = key.readings := by
  cases key with
  | path fragment => rfl
  | methods m =>
    rw [readings_any_methods rfl]
    rfl
  | any keys =>
    rw [readings_any (by simp [form]) (by simp [flatMixture, form]), List.flatMap_singleton]

end Key

namespace Tree
variable {t u value : Tree} {keys : List Key} {bs cs before after : List (Key × Tree)} {limit depth : Nat}
  {root : String}

/-- Fillings with the same leaves, and with defects that begin alike, are flattened alike. -/
theorem endpoints_fill_congr (h : Alike t u) (hl : ∀ step, t.leavesUnder step = u.leavesUnder step)
    (hd : ∀ depth step, (t.defectsUnder limit depth step).head? = (u.defectsUnder limit depth step).head?)
    (c : Context) (root : String) : (c.fill t).endpoints limit root = (c.fill u).endpoints limit root := by
  have hfill := h.fill c
  cases ho : (c.fill t).obstacle? with
  | some found => rw [endpoints_of_obstacle ho, endpoints_of_obstacle (hfill.obstacle ▸ ho)]
  | none =>
    have hs := (obstacle?_eq_none_iff _).1 ho
    have hleaves := c.leavesUnder_fill (partwise_eq _) h hl ⟨"", none⟩
    have hdefects := c.defectsUnder_fill partwise_head? h hd 0 ⟨"", none⟩
    rw [endpoints_eq_outcome hs, endpoints_eq_outcome (hfill.isSubtree_eq ▸ hs), leaves, leaves, hleaves]
    refine outcome_congr ?_ _
    rw [List.head?_map, List.head?_map, defects, defects, hdefects]

theorem branchLeaves_any (hm : ¬ keys.all (·.form == .methods) = true) (hf : ¬ Key.flatMixture keys = true) :
    branchLeaves (.any keys, value) = (keys.map (·, value)).flatMap branchLeaves := by
  rw [branchLeaves, Key.steps_any hm hf, List.flatMap_assoc, List.flatMap_map]
  rfl

theorem head?_branchDefects_any (hm : ¬ keys.all (·.form == .methods) = true)
    (hf : ¬ Key.flatMixture keys = true) :
    (branchDefects limit depth (.any keys, value)).head? =
      ((keys.map (·, value)).flatMap (branchDefects limit depth)).head? := by
  by_cases hd : limit < depth
  · -- every one of the branches lies too deep, and there is at least one
    obtain ⟨key, rest, rfl⟩ := List.exists_cons_of_ne_nil fun hnil : keys = [] => hm (hnil ▸ rfl)
    simp [branchDefects, hd]
  · have hany : branchDefects limit depth (.any keys, value) =
        (keys.map (·, value)).flatMap (branchDefects limit depth) := by
      simp only [branchDefects, if_neg hd, Key.readings_any hm hf, List.flatMap_assoc, List.flatMap_map]
    rw [hany]

theorem branchLeaves_any_singleton (key : Key) (value : Tree) :
    branchLeaves (.any [key], value) = branchLeaves (key, value) := by
  rw [branchLeaves, branchLeaves, Key.steps, Key.readings_any_singleton]
  rfl

theorem branchDefects_any_singleton (limit depth : Nat) (key : Key) (value : Tree) :
    branchDefects limit depth (.any [key], value) = branchDefects limit depth (key, value) := by
  rw [branchDefects, branchDefects, Key.readings_any_singleton]

theorem endpoints_fill_branches {write : List (Key × Tree) → Tree} (hw : write = .mapping ∨ write = .ofPairs)
    (hbs : bs ≠ []) (hcs : cs ≠ []) (hl : bs.flatMap branchLeaves = cs.flatMap branchLeaves)
    (hd : ∀ depth, (bs.flatMap (branchDefects limit depth)).head? = (cs.flatMap (branchDefects limit depth)).head?)
    (c : Context) (root : String) :
    (c.fill (write bs)).endpoints limit root = (c.fill (write cs)).endpoints limit root := by
  have hspells : ∀ {bs}, bs ≠ [] → Spells .value bs (write bs) := by
    intro bs hne
    rcases hw with rfl | rfl
    · exact .mapping bs
    · exact .pairs (.inl hne)
  have hb := hspells hbs
  have hc := hspells hcs
  have halike : Alike (write bs) (write cs) := by
    refine ⟨?_, ?_, ?_⟩
    · rcases hw with rfl | rfl <;> rfl
    · rw [(obstacle?_eq_none_iff _).2 hb.isSubtree, (obstacle?_eq_none_iff _).2 hc.isSubtree]
    · rw [hb.barsMethods (by decide), hc.barsMethods (by decide)]
  refine endpoints_fill_congr halike (fun step => ?_) (fun depth step => ?_) c root
  · refine halike.leavesUnder_subtree (partwise_eq _) hb.isSubtree ?_ step
    rw [hb.branches, hc.branches, hl]
  · refine halike.defectsUnder_subtree partwise_head? hb.isSubtree ?_ step
    rw [hb.branches, hc.branches, hd]

/-- A branch with a key sequence and the branches that it stands for are flattened alike, wherever they stand in a
tree. -/
theorem endpoints_desugared (c : Context) {write : List (Key × Tree) → Tree}
    (hw : write = .mapping ∨ write = .ofPairs) (before after : List (Key × Tree)) (value : Tree) (limit : Nat)
    (root : String) :
    (∀ keys : List Key, (∃ key ∈ keys, key.form ≠ .methods) → Key.flatMixture keys = false →
      (c.fill (write (before ++ (.any keys, value) :: after))).endpoints limit root =
        (c.fill (write (before ++ keys.map (·, value) ++ after))).endpoints limit root) ∧
      ∀ key : Key, (c.fill (write (before ++ (.any [key], value) :: after))).endpoints limit root =
        (c.fill (write (before ++ (key, value) :: after))).endpoints limit root := by
  refine ⟨fun keys hkey hflat => ?_, fun key => ?_⟩
  · have hm : ¬ keys.all (·.form == .methods) = true := by simpa using hkey
    have hf : ¬ Key.flatMixture keys = true := by simp [hflat]
    have hne : keys ≠ [] := by
      rintro rfl
      simp at hkey
    refine endpoints_fill_branches hw (by simp) (by simp [hne]) ?_ (fun depth => ?_) c root
    · simp only [List.flatMap_append, List.flatMap_cons, branchLeaves_any hm hf, List.append_assoc]
    · simp only [List.flatMap_append, List.flatMap_cons, List.head?_append,
        head?_branchDefects_any hm hf, Option.or_assoc]
  · refine endpoints_fill_branches hw (by simp) (by simp) ?_ (fun depth => ?_) c root
    · simp only [List.flatMap_append, List.flatMap_cons, branchLeaves_any_singleton]
    · simp only [List.flatMap_append, List.flatMap_cons, branchDefects_any_singleton]

/-- In a sequence of alternatives, a key that is read in three ways, two of them at one route with a branch before. -/
theorem endpoints_desugared_among_alternatives :
    let list : Handler := { serial := 0, name := "list", call := fun _ => "" }
    let create : Handler := { serial := 1, name := "create", call := fun _ => "" }
    let keys : List Key := [.path "/x", .any [.methods .get, .methods ⟨["PUT"]⟩], .path "/x"]
    let c : Context := .mapping [(.path "/a/x", .leaf list)] (.path "/a") (.sequence [.leaf list] .hole []) []
    (∃ key ∈ keys, key.form ≠ .methods) ∧ Key.flatMixture keys = false ∧
      (∃ m, (c.fill (.ofPairs [(.any keys, .leaf create)])).endpoints 3 "/api" = .ok m ∧
        (c.fill (.ofPairs (keys.map (·, .leaf create)))).endpoints 3 "/api" = .ok m) ∧
      (c.fill (.ofPairs [(.any keys, .leaf create)])).endpoints 2 "/api" = .error (.tooDeep "/api/a" 2) ∧
      (c.fill (.ofPairs (keys.map (·, .leaf create)))).endpoints 2 "/api" = .error (.tooDeep "/api/a" 2) ∧
      (c.fill (.ofPairs [(.any [.methods .get], .leaf create)])).endpoints 3 "/api" =
        (c.fill (.ofPairs [(.methods .get, .leaf create)])).endpoints 3 "/api" := by
  intro list create keys c
  have hkey : ∃ key ∈ keys, key.form ≠ .methods := ⟨.path "/x", by simp [keys], by decide⟩
  have hflat : Key.flatMixture keys = false := by decide
  obtain ⟨hthree, hsingle⟩ := endpoints_desugared c (.inr rfl) [] [] (.leaf create) 3 "/api"
  obtain ⟨htwo, -⟩ := endpoints_desugared c (.inr rfl) [] [] (.leaf create) 2 "/api"
  have hdeep : (c.fill (.ofPairs [(.any keys, .leaf create)])).endpoints 2 "/api" = .error (.tooDeep "/api/a" 2) :=
    rfl
  obtain ⟨m, hm⟩ : ∃ m, (c.fill (.ofPairs [(.any keys, .leaf create)])).endpoints 3 "/api" = .ok m := ⟨_, rfl⟩
  exact ⟨hkey, hflat, ⟨m, hm, (hthree keys hkey hflat).symm.trans hm⟩, hdeep,
    (htwo keys hkey hflat).symm.trans hdeep, hsingle _⟩

end Tree

end RouteTree
