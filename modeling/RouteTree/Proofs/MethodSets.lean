import RouteTree.Proofs.Signature

/-!
# Method lists as sets

`Methods.sameSet` compares what the lists contain (`Methods.sameSet_iff_contains`), and a list that is put together
contains what its parts do. So all that holds of unions holds of method lists up to `sameSet`.
-/

namespace RouteTree.Methods

variable {a a' b b' : Methods}

theorem contains_iff (m : Methods) (token : String) : m.contains token = true ↔ token ∈ m.tokens :=
  List.contains_iff_mem

theorem contains_append (a b : Methods) (token : String) :
    (a ++ b).contains token = (a.contains token || b.contains token) := by
  rw [Bool.eq_iff_iff, Bool.or_eq_true, contains_iff, contains_iff, contains_iff]
  exact List.mem_append

theorem sameSet_iff_contains : a.sameSet b = true ↔ ∀ token, a.contains token = b.contains token := by
  rw [sameSet_iff]
  refine forall_congr' fun token => ?_
  rw [Bool.eq_iff_iff, contains_iff, contains_iff]

theorem sameSet_equivalence : Equivalence fun a b : Methods => a.sameSet b = true := by
  simp only [sameSet_iff_contains]
  exact ⟨fun _ _ => rfl, fun hab token => (hab token).symm, fun hab hbc token => (hab token).trans (hbc token)⟩

theorem sameSet_congr (h : a.sameSet a' = true) (b : Methods) : a.sameSet b = a'.sameSet b := by
  rw [sameSet_iff_contains] at h
  rw [Bool.eq_iff_iff, sameSet_iff_contains, sameSet_iff_contains]
  simp only [h]

theorem sameSet_of_perm (h : a.tokens.Perm a'.tokens) : a.sameSet a' = true :=
  sameSet_iff.2 fun _ => h.mem_iff

theorem sameSet_of_repeated {before after : List String} {token : String} (h : token ∈ before ++ after) :
    sameSet ⟨before ++ token :: after⟩ ⟨before ++ after⟩ = true := by
  refine sameSet_iff.2 fun other => ?_
  show other ∈ before ++ token :: after ↔ other ∈ before ++ after
  rw [List.perm_middle.mem_iff, List.mem_cons]
  exact ⟨fun hor => hor.elim (fun heq => heq ▸ h) id, .inr⟩

theorem sameSet_append (ha : a.sameSet a' = true) (hb : b.sameSet b' = true) : (a ++ b).sameSet (a' ++ b') = true := by
  rw [sameSet_iff_contains] at ha hb ⊢
  intro token
  rw [contains_append, contains_append, ha, hb]

theorem sameSet_append_comm (a b : Methods) : (a ++ b).sameSet (b ++ a) = true :=
  sameSet_of_perm List.perm_append_comm

theorem sameSet_append_self (a : Methods) : (a ++ a).sameSet a = true := by
  refine sameSet_iff_contains.2 fun token => ?_
  rw [contains_append, Bool.or_self]

/-- Lists are the same exactly if they contain the same. So it does not matter in which order and how often a list has
its methods, and to be the same is an equivalence with which lists can be put together, in either order and with
themselves. Equal lists are the same, but not only these. -/
theorem sameSet_by_contents :
    (∀ a b : Methods, a.sameSet b = true ↔ ∀ token, a.contains token = b.contains token) ∧
    (Equivalence fun a b : Methods => a.sameSet b = true) ∧
    (∀ a b : Methods, (a == b) = true → a.sameSet b = true) ∧
    (∃ a b : Methods, (a == b) = false ∧ a.sameSet b = true) ∧
    (∀ a a' b : Methods, a.tokens.Perm a'.tokens → a.sameSet b = a'.sameSet b) ∧
    (∀ (before : List String) (token : String) (after : List String) (b : Methods), token ∈ before ++ after →
      sameSet ⟨before ++ token :: after⟩ b = sameSet ⟨before ++ after⟩ b) ∧
    (∀ a a' b b' : Methods, a.sameSet a' = true → b.sameSet b' = true → (a ++ b).sameSet (a' ++ b') = true) ∧
    (∀ a b : Methods, (a ++ b).sameSet (b ++ a) = true) ∧
    ∀ a : Methods, (a ++ a).sameSet a = true := by
  refine ⟨fun _ _ => sameSet_iff_contains, sameSet_equivalence, fun a b h => ?_, ?_,
    fun _ _ b h => sameSet_congr (sameSet_of_perm h) b, fun _ _ _ b h => sameSet_congr (sameSet_of_repeated h) b,
    fun _ _ _ _ => sameSet_append, sameSet_append_comm, sameSet_append_self⟩
  · rw [eq_of_beq h]
    exact sameSet_equivalence.refl b
  · exact ⟨⟨["GET", "POST"]⟩, ⟨["POST", "GET"]⟩, by decide, sameSet_of_perm (.swap ..)⟩

/-- The same methods in another order, one of them twice, before others. -/
theorem sameSet_by_contents_turned :
    let a : Methods := ⟨["GET", "POST"]⟩
    let turned : Methods := ⟨["POST", "GET"]⟩
    let repeated : Methods := ⟨["POST", "GET", "POST"]⟩
    let others : Methods := ⟨["", "get"]⟩
    a.tokens.Perm turned.tokens ∧ repeated.sameSet a = true ∧ (repeated ++ others).sameSet (a ++ others) = true ∧
      a.sameSet others = false := by
  intro a turned repeated others
  obtain ⟨hcontains, hequiv, hequal, -, hperm, hrepeated, happend, -, -⟩ := sameSet_by_contents
  have hturned : a.tokens.Perm turned.tokens := .swap ..
  have hsame : repeated.sameSet a = true := by
    have hdropped : repeated.sameSet a = turned.sameSet a := hrepeated ["POST", "GET"] "POST" [] a (by decide)
    rw [hdropped, ← hperm a turned a hturned]
    exact hequal a a (by decide)
  have hdifferent : ¬ a.sameSet others = true := fun h => absurd ((hcontains a others).1 h "GET") (by decide)
  exact ⟨hturned, hsame, happend repeated a others others hsame (hequiv.refl others), Bool.not_eq_true _ ▸ hdifferent⟩

end RouteTree.Methods
