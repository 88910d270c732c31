import RouteTree.Proofs.Layering

/-!
# Updates one after another

What a list of updates leaves behind has its layers in the opposite order, the last update on top and the base at the
bottom (`ViewOptions.foldl_update_layered`). Layers determine the options, so the laws of `update` are those of lists of
layers: appending is associative, the empty list is neutral, and a layer is not seen below itself.
-/

namespace RouteTree

instance : ReflBEq Guard where
  rfl := (Guard.beq_iff _ _).2 rfl

namespace ViewOptions

variable {o k : ViewOptions} {layers : List ViewOptions}

instance : ReflBEq ViewOptions where
  rfl {o} := by
    show (o.methods == o.methods && (o.guards == o.guards && (o.accept == o.accept &&
      (o.renderer == o.renderer && o.extra == o.extra)))) = true
    simp only [BEq.rfl, Bool.and_self]

theorem findSome?_cons_cons_self {β : Type} (f : ViewOptions → Option β) (o : ViewOptions) (layers : List ViewOptions) :
    (o :: o :: layers).findSome? f = (o :: layers).findSome? f := by
  cases h : f o <;> simp [h]

/-- A layer is not seen below itself. -/
theorem Layered.of_repeated {top : ViewOptions} (h : o.Layered (top :: top :: layers)) : o.Layered (top :: layers) where
  methods := h.methods.trans (findSome?_cons_cons_self ..)
  guards := h.guards.trans (findSome?_cons_cons_self ..)
  accept := h.accept.trans (findSome?_cons_cons_self ..)
  renderer := h.renderer.trans (findSome?_cons_cons_self ..)
  extra key := (h.extra key).trans (findSome?_cons_cons_self ..)

theorem update_assoc (a b c : ViewOptions) : (a.update b).update c = a.update (b.update c) := by
  -- the options of `c` lie on top and those of `a` at the bottom, whatever is put together first
  have hleft : ((a.update b).update c).Layered [c, b, a] :=
    ((Layered.singleton a).update (.singleton b)).update (.singleton c)
  have hright : (a.update (b.update c)).Layered [c, b, a] :=
    (Layered.singleton a).update ((Layered.singleton b).update (.singleton c))
  exact hleft.unique hright

theorem update_empty (o : ViewOptions) : o.update {} = o :=
  ((Layered.singleton o).update .nil).unique (.singleton o)

theorem empty_update (o : ViewOptions) : update {} o = o :=
  (Layered.nil.update (.singleton o)).unique (.singleton o)

theorem update_update_self (a b : ViewOptions) : (a.update b).update b = a.update b := by
  have htwice : ((a.update b).update b).Layered [b, b, a] :=
    ((Layered.singleton a).update (.singleton b)).update (.singleton b)
  exact htwice.of_repeated.unique ((Layered.singleton a).update (.singleton b))

theorem isEmpty_iff_update_eq : k.isEmpty = true ↔ ∀ base, update base k = base := by
  constructor
  · intro h base
    rw [isEmpty_iff.1 h, update_empty]
  · intro h
    rw [isEmpty_iff, ← empty_update k]
    exact h {}

theorem isEmpty_iff_update_beq : k.isEmpty = true ↔ ∀ base, (update base k == base) = true := by
  constructor
  · intro h base
    rw [isEmpty_iff_update_eq.1 h]
    exact BEq.rfl
  · intro h
    have hsame := h {}
    rwa [empty_update] at hsame

/-- Later updates lie on top. -/
theorem foldl_update_layered (base : ViewOptions) (overlays : List ViewOptions) :
    (overlays.foldl update base).Layered (overlays.reverse ++ [base]) := by
  induction overlays using List.reverseRecOn with
  | nil => exact .singleton base
  | append_singleton overlays overlay ih =>
    rw [List.foldl_append, List.reverse_append]
    exact ih.update (.singleton overlay)

/-- Options under `update` are a monoid with the empty options as its unit, in which an update made twice is one made
once. What changes no base is empty. After any list of updates every option is as the last of them has it that specifies
it, and as the base has it if none does. -/
theorem update_rightBiased :
    (∀ a b c : ViewOptions, (a.update b).update c = a.update (b.update c)) ∧
    (∀ a : ViewOptions, a.update {} = a ∧ update {} a = a) ∧
    (∀ a b : ViewOptions, (a.update b).update b = a.update b) ∧
    (∀ k : ViewOptions, (k.isEmpty = true ↔ ∀ base : ViewOptions, base.update k = base) ∧
      (k.isEmpty = true ↔ ∀ base : ViewOptions, (base.update k == base) = true)) ∧
    ∀ (base : ViewOptions) (overlays : List ViewOptions),
      (overlays.foldl update base).Layered (overlays.reverse ++ [base]) :=
  ⟨update_assoc, fun a => ⟨update_empty a, empty_update a⟩, update_update_self,
    fun _ => ⟨isEmpty_iff_update_eq, isEmpty_iff_update_beq⟩, foldl_update_layered⟩

end ViewOptions

end RouteTree
