import RouteTree.ViewOptions
import Mathlib.Data.Finset.Dedup
import Mathlib.Data.List.Sort
import Mathlib.Data.String.Basic

/-!
# When two views collide

Sorting a list of tokens and dropping neighbours that repeat leaves the same list for the same set of
tokens, so `Methods.sameSet` compares sets (`Methods.sameSet_iff`). Hence what a view collides on can be
collected in a `Signature`, with the methods as a set and the guards as names, and two views collide
exactly if their signatures are equal (`ViewOptions.collides_iff`).
-/

namespace RouteTree

namespace Methods

/-! ### Neighbours that repeat -/

theorem eraseReps_loop (a : String) (l acc : List String) :
    List.eraseRepsBy.loop (· == ·) a l acc = acc.reverse ++ (a :: l).eraseReps := by
  induction l generalizing a acc with
  | nil => simp [List.eraseReps, List.eraseRepsBy, List.eraseRepsBy.loop]
  | cons b l ih =>
    rw [List.eraseReps, List.eraseRepsBy, List.eraseRepsBy.loop, List.eraseRepsBy.loop]
    split
    · rw [ih, ih]; rfl
    · rw [ih, ih]; simp

theorem eraseReps_cons_cons (a b : String) (l : List String) :
    (a :: b :: l).eraseReps = if a = b then (a :: l).eraseReps else a :: (b :: l).eraseReps := by
  rw [List.eraseReps, List.eraseRepsBy, List.eraseRepsBy.loop]
  split
  · rename_i hab
    rw [eraseReps_loop, if_pos (by simpa using hab)]; rfl
  · rename_i hab
    rw [eraseReps_loop, if_neg (by simpa using hab)]; rfl

theorem mem_eraseReps (l : List String) (x : String) : x ∈ l.eraseReps ↔ x ∈ l := by
  cases l with
  | nil => rfl
  | cons a l =>
    induction l generalizing a with
    | nil => rfl
    | cons b l ih =>
      rw [eraseReps_cons_cons]
      split
      · rename_i hab
        rw [ih, hab]; simp
      · simp only [List.mem_cons, ih]

theorem pairwise_eraseReps {l : List String} (h : l.Pairwise (· ≤ ·)) : l.eraseReps.Pairwise (· < ·) := by
  cases l with
  | nil => exact List.Pairwise.nil
  | cons a l =>
    induction l generalizing a with
    | nil => exact List.pairwise_singleton ..
    | cons b l ih =>
      obtain ⟨ha, hbl⟩ := List.pairwise_cons.1 h
      rw [eraseReps_cons_cons]
      split
      · exact ih a (List.pairwise_cons.2 ⟨fun c hc => ha c (List.mem_cons_of_mem _ hc), hbl.tail⟩)
      · rename_i hab
        refine List.pairwise_cons.2 ⟨fun c hc => ?_, ih b hbl⟩
        have hlt : a < b := lt_of_le_of_ne (ha b (List.mem_cons_self ..)) hab
        rcases List.mem_cons.1 ((mem_eraseReps ..).1 hc) with rfl | hc
        · exact hlt
        · exact lt_of_lt_of_le hlt ((List.pairwise_cons.1 hbl).1 c hc)

/-! ### Method lists as sets -/

variable {a b : Methods}

theorem mem_canonical (a : Methods) (token : String) : token ∈ a.canonical ↔ token ∈ a.tokens := by
  rw [canonical, mem_eraseReps, List.mem_mergeSort]

theorem pairwise_canonical (a : Methods) : a.canonical.Pairwise (· < ·) :=
  pairwise_eraseReps (List.pairwise_mergeSort' (· ≤ ·) a.tokens)

theorem sameSet_iff : a.sameSet b = true ↔ ∀ token, token ∈ a.tokens ↔ token ∈ b.tokens := by
  rw [sameSet, beq_iff_eq]
  constructor
  · intro h token
    rw [← mem_canonical a, h, mem_canonical]
  · intro h
    refine (pairwise_canonical a).eq_of_mem_iff (pairwise_canonical b) fun token => ?_
    rw [mem_canonical, mem_canonical, h]

theorem sameSet_iff_toFinset : a.sameSet b = true ↔ a.tokens.toFinset = b.tokens.toFinset := by
  rw [sameSet_iff, Finset.ext_iff]
  simp only [List.mem_toFinset]

end Methods

/-- The part of the options of a view on which it collides with others. -/
structure Signature where
  methods : Option (Finset String)
  accept : Option String
  /-- The names of the guards in order. -/
  guards : Option (List String)
  extra : TextMap
deriving DecidableEq

namespace ViewOptions

def signature (o : ViewOptions) : Signature where
  methods := o.methods.map fun m => m.tokens.toFinset
  accept := o.accept
  guards := o.guards.map fun gs => gs.map Guard.name
  extra := o.extra

theorem guards_beq_iff (gs gs' : List Guard) : (gs == gs') = true ↔ gs.map Guard.name = gs'.map Guard.name := by
  induction gs generalizing gs' with
  | nil => cases gs' <;> simp
  | cons g gs ih =>
    cases gs' with
    | nil => simp
    | cons g' gs' =>
      rw [List.cons_beq_cons, Bool.and_eq_true, ih, Guard.beq_iff, List.map_cons, List.map_cons, List.cons.injEq]

/-- Two views collide exactly if they agree in all that is compared. -/
theorem collides_iff (a b : ViewOptions) : a.collides b = true ↔ a.signature = b.signature := by
  have hguards : (a.guards == b.guards) = true ↔
      (a.guards.map fun gs => gs.map Guard.name) = b.guards.map fun gs => gs.map Guard.name := by
    cases a.guards <;> cases b.guards <;> simp [guards_beq_iff]
  simp only [collides, Bool.and_eq_true, beq_iff_eq, hguards, signature, Signature.mk.injEq, and_assoc]
  refine and_congr_left fun _ => ?_
  cases a.methods <;> cases b.methods <;> simp [Methods.sameSet_iff_toFinset]

end ViewOptions

end RouteTree
