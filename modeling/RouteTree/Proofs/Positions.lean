import RouteTree.EndpointMap
import Mathlib.Data.List.Nodup

/-!
# A list with the positions of its names

Endpoint maps and registries both keep their entries in a list and the position of every name in a
map beside it. `Indexes positions names` says that the map and the list agree. It makes the names
distinct, it determines the map, and it is kept when a new name is put at the end; an entry that is
changed where the map points to is changed by its name (`modify_eq_map`).
-/

namespace RouteTree

theorem getElem?_insert_of_ne {β : Type} {m : Std.ExtTreeMap String β} {k k' : String} (hk : k ≠ k') (y : β) :
    (m.insert k y)[k']? = m[k']? := by
  rw [Std.ExtTreeMap.getElem?_insert, if_neg fun hc => hk (Std.compare_eq_iff_eq.1 hc)]

/-- `positions` holds the place of every one of `names`, and nothing else. -/
def Indexes (positions : Std.ExtTreeMap String Nat) (names : List String) : Prop :=
  ∀ (name : String) (i : Nat), positions[name]? = some i ↔ names[i]? = some name

namespace Indexes
variable {positions positions' : Std.ExtTreeMap String Nat} {names : List String} {name : String}

theorem empty : Indexes ∅ [] := by
  intro name i
  simp

theorem nodup (h : Indexes positions names) : names.Nodup := by
  rw [List.nodup_iff_injective_getElem]
  rintro ⟨i, hi⟩ ⟨j, hj⟩ hij
  have h1 := (h names[i] i).2 (List.getElem?_eq_getElem hi)
  have h2 := (h names[i] j).2 (by rw [List.getElem?_eq_getElem hj]; exact congrArg some hij.symm)
  rw [h1] at h2
  exact Fin.ext (Option.some.inj h2)

theorem eq_none_iff (h : Indexes positions names) : positions[name]? = none ↔ name ∉ names := by
  rw [List.mem_iff_getElem?, not_exists, Option.eq_none_iff_forall_ne_some]
  exact forall_congr' fun i => not_congr (h name i)

theorem exists_iff (h : Indexes positions names) : (∃ i, positions[name]? = some i) ↔ name ∈ names := by
  rw [List.mem_iff_getElem?]
  exact exists_congr (h name)

/-- The list determines the map. -/
theorem unique (h : Indexes positions names) (h' : Indexes positions' names) : positions = positions' := by
  refine Std.ExtTreeMap.ext_getElem? fun name => Option.ext fun i => ?_
  rw [h name i, h' name i]

theorem snoc (h : Indexes positions names) (hn : name ∉ names) :
    Indexes (positions.insert name names.length) (names ++ [name]) := by
  intro other i
  rw [List.getElem?_append]
  by_cases ho : name = other
  · subst ho
    have hlt : ∀ i : Nat, names[i]? ≠ some name := fun i hi => hn (List.mem_of_getElem? hi)
    rw [Std.ExtTreeMap.getElem?_insert_self]
    split
    · exact iff_of_false (fun hi => by have := Option.some.inj hi; omega) (hlt i)
    · rw [List.getElem?_singleton]
      split <;> simp <;> omega
  · rw [getElem?_insert_of_ne ho, h other i]
    split
    · rfl
    · rename_i hi
      rw [List.getElem?_eq_none (Nat.le_of_not_lt hi), List.getElem?_singleton]
      split <;> simp [ho]

end Indexes

/-- Where names are distinct, changing the entry at a name's position changes the entry of that name
and no other. -/
theorem modify_eq_map {α : Type} (key : α → String) (f : α → α) {l : List α} {name : String} {i : Nat}
    (hl : (l.map key).Nodup) (hi : (l.map key)[i]? = some name) :
    l.modify i f = l.map fun a => if key a = name then f a else a := by
  induction l generalizing i with
  | nil => simp
  | cons a l ih =>
    rw [List.map_cons, List.nodup_cons] at hl
    cases i with
    | zero =>
      obtain rfl : key a = name := by simpa using hi
      have hrest : ∀ b ∈ l, key b ≠ key a := fun b hb hab => hl.1 (hab ▸ List.mem_map_of_mem hb)
      rw [List.modify_zero_cons, List.map_cons, if_pos rfl]
      rw [List.map_congr_left fun b hb => if_neg (hrest b hb), List.map_id']
    | succ i =>
      have hi' : (l.map key)[i]? = some name := by simpa using hi
      have hne : key a ≠ name := fun hab => hl.1 (hab ▸ List.mem_of_getElem? hi')
      rw [List.modify_succ_cons, List.map_cons, if_neg hne, ih hl.2 hi']

end RouteTree
