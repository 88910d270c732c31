import RouteTree.Proofs.Plans
import Mathlib.Logic.Relation

/-!
# Kinds as a forest

A supply hands out kinds one after another, each of them below none or below a kind that it has handed out before
(`KindSupply.HandedOut`). So the kinds form a forest whose serial numbers grow away from the roots (`Kind.Forest`, which
every declaration keeps), and `isUnder` is the order of this forest: it follows the parents, of which a kind has at most
one, and on the way the serial numbers go down. Hence a service that selects views by their kinds selects no fewer of
them if the kinds that it selects by are replaced by kinds that cover them (`Kind.Forest.exists_isUnder_of_covered`).
-/

namespace RouteTree

namespace Kind

/-- `p` is the parent of `k`. -/
def Extends (k p : Kind) : Prop := k.parent? = some p

variable {issued : Nat} {kinds : List Kind} {a b c k : Kind}

theorem isSame_iff : a.isSame b = true ↔ a.serial = b.serial := beq_iff_eq

/-- A kind is under another if the two are the same or its parent is under the other. -/
theorem isUnder_iff : k.isUnder a = true ↔ k.isSame a = true ∨ ∃ p, k.Extends p ∧ p.isUnder a = true := by
  obtain ⟨tag, ancestors⟩ := k
  cases ancestors <;> simp [isUnder, lineage, Extends, parent?, isSame, serial]

theorem isUnder_of_isSame (h : k.isSame a = true) : k.isUnder a = true := isUnder_iff.2 (.inl h)

theorem isUnder_of_reaches (hab : Relation.ReflTransGen Extends a b) (hbc : b.isUnder c = true) :
    a.isUnder c = true := by
  induction hab using Relation.ReflTransGen.head_induction_on with
  | refl => exact hbc
  | head hp _ ih => exact isUnder_iff.2 (.inr ⟨_, hp, ih⟩)

/-- Kinds with all their parents, told apart by serial numbers below `issued`, which are smaller for parents. -/
structure Forest (issued : Nat) (kinds : List Kind) : Prop where
  serial_lt : ∀ k ∈ kinds, k.serial < issued
  nodup : (kinds.map serial).Nodup
  parent : ∀ k ∈ kinds, ∀ p, k.Extends p → p ∈ kinds ∧ p.serial < k.serial

namespace Forest

theorem eq_of_isSame (h : Forest issued kinds) (ha : a ∈ kinds) (hb : b ∈ kinds) (hab : a.isSame b = true) : a = b :=
  List.inj_on_of_nodup_map h.nodup ha hb (isSame_iff.1 hab)

theorem reaches_of_isUnder (h : Forest issued kinds) (ha : a ∈ kinds) (hb : b ∈ kinds) (hab : a.isUnder b = true) :
    Relation.ReflTransGen Extends a b := by
  obtain ⟨tag, ancestors⟩ := a
  -- the ancestors get fewer from a kind to its parent
  induction ancestors generalizing tag with
  | nil =>
    rcases isUnder_iff.1 hab with hsame | ⟨p, hp, -⟩
    · rw [h.eq_of_isSame ha hb hsame]
    · cases hp
  | cons parent ancestors ih =>
    rcases isUnder_iff.1 hab with hsame | ⟨p, hp, hpb⟩
    · rw [h.eq_of_isSame ha hb hsame]
    · obtain rfl : ⟨parent, ancestors⟩ = p := Option.some.inj hp
      exact .head hp (ih parent (h.parent _ ha _ hp).1 hpb)

theorem isUnder_iff_reaches (h : Forest issued kinds) (ha : a ∈ kinds) (hb : b ∈ kinds) :
    a.isUnder b = true ↔ Relation.ReflTransGen Extends a b :=
  ⟨h.reaches_of_isUnder ha hb, fun hab => isUnder_of_reaches hab (isUnder_of_isSame (isSame_iff.2 rfl))⟩

theorem serial_le_of_reaches (h : Forest issued kinds) (ha : a ∈ kinds) (hab : Relation.ReflTransGen Extends a b) :
    b.serial ≤ a.serial := by
  have hmem : b ∈ kinds ∧ b.serial ≤ a.serial := by
    induction hab with
    | refl => exact ⟨ha, le_refl _⟩
    | tail _ hp ih =>
      obtain ⟨hb, hle⟩ := ih
      obtain ⟨hmem, hlt⟩ := h.parent _ hb _ hp
      exact ⟨hmem, hlt.le.trans hle⟩
  exact hmem.2

theorem isUnder_trans (h : Forest issued kinds) (ha : a ∈ kinds) (hb : b ∈ kinds) (hab : a.isUnder b = true)
    (hbc : b.isUnder c = true) : a.isUnder c = true :=
  isUnder_of_reaches (h.reaches_of_isUnder ha hb hab) hbc

theorem isUnder_antisymm (h : Forest issued kinds) (ha : a ∈ kinds) (hb : b ∈ kinds) (hab : a.isUnder b = true)
    (hba : b.isUnder a = true) : a.isSame b = true := by
  have hle := h.serial_le_of_reaches ha (h.reaches_of_isUnder ha hb hab)
  have hge := h.serial_le_of_reaches hb (h.reaches_of_isUnder hb ha hba)
  exact isSame_iff.2 (Nat.le_antisymm hge hle)

/-- A kind has one parent at most, so the ancestors of a kind lie on one line. -/
theorem isUnder_total (h : Forest issued kinds) (hk : k ∈ kinds) (ha : a ∈ kinds) (hb : b ∈ kinds)
    (hka : k.isUnder a = true) (hkb : k.isUnder b = true) : a.isUnder b = true ∨ b.isUnder a = true := by
  have hone : Relator.RightUnique Extends := fun k p q hp hq => Option.some.inj (hp.symm.trans hq)
  rw [h.isUnder_iff_reaches ha hb, h.isUnder_iff_reaches hb ha]
  exact Relation.ReflTransGen.total_of_right_unique hone (h.reaches_of_isUnder hk ha hka)
    (h.reaches_of_isUnder hk hb hkb)

end Forest

end Kind

/-! ### Kinds from a supply -/

namespace KindSupply
open Kind (Forest)

/-- The kinds that a supply has handed out, with the latest first: each is below none or below an earlier one. -/
inductive HandedOut : KindSupply → List Kind → Prop
  | start : HandedOut ⟨0⟩ []
  | declare {s : KindSupply} {kinds : List Kind} (name : String) (parent? : Option Kind) :
    HandedOut s kinds → (∀ p, parent? = some p → p ∈ kinds) →
      HandedOut (s.declare name parent?).2 ((s.declare name parent?).1 :: kinds)

variable {s : KindSupply} {kinds : List Kind} {parent? : Option Kind}

theorem parent?_declare (s : KindSupply) (name : String) (parent? : Option Kind) :
    (s.declare name parent?).1.parent? = parent? := by
  cases parent? <;> rfl

theorem forest_declare (h : Forest s.issued kinds) (name : String) (hparent : ∀ p, parent? = some p → p ∈ kinds) :
    Forest (s.declare name parent?).2.issued ((s.declare name parent?).1 :: kinds) := by
  have hnew : s.issued ∉ kinds.map Kind.serial := by
    intro hmem
    obtain ⟨k, hk, hserial⟩ := List.mem_map.1 hmem
    exact (h.serial_lt k hk).ne hserial
  constructor
  case serial_lt =>
    exact List.forall_mem_cons.2 ⟨Nat.lt_succ_self _, fun k hk => Nat.lt_succ_of_lt (h.serial_lt k hk)⟩
  case nodup => exact List.nodup_cons.2 ⟨hnew, h.nodup⟩
  case parent =>
    refine List.forall_mem_cons.2 ⟨fun p hp => ?_, fun k hk p hp => ?_⟩
    · have hmem := hparent p ((parent?_declare s name parent?).symm.trans hp)
      exact ⟨List.mem_cons_of_mem _ hmem, h.serial_lt p hmem⟩
    · obtain ⟨hmem, hlt⟩ := h.parent k hk p hp
      exact ⟨List.mem_cons_of_mem _ hmem, hlt⟩

theorem HandedOut.forest (h : s.HandedOut kinds) : Forest s.issued kinds := by
  induction h with
  | start => exact ⟨nofun, List.nodup_nil, nofun⟩
  | declare name parent? _ hparent ih => exact forest_declare ih name hparent

theorem HandedOut.declare_root (h : s.HandedOut kinds) (name : String) :
    (s.declare name none).2.HandedOut ((s.declare name none).1 :: kinds) :=
  h.declare name none nofun

theorem HandedOut.declare_below (h : s.HandedOut kinds) (name : String) {p : Kind} (hp : p ∈ kinds) :
    (s.declare name (some p)).2.HandedOut ((s.declare name (some p)).1 :: kinds) :=
  h.declare name (some p) fun _ hq => Option.some.inj hq ▸ hp

theorem handedOut_initial :
    initial.HandedOut [Kind.apiView, Kind.functionView, Kind.simpleView, Kind.baseView] := by
  have hbase : HandedOut ⟨1⟩ [Kind.baseView] := HandedOut.start.declare_root "BaseView"
  have hsimple : HandedOut ⟨2⟩ [Kind.simpleView, Kind.baseView] :=
    hbase.declare_below "SimpleView" (List.mem_singleton_self _)
  have hfunction : HandedOut ⟨3⟩ [Kind.functionView, Kind.simpleView, Kind.baseView] :=
    hsimple.declare_below "FunctionView" (by simp)
  exact hfunction.declare_below "ApiView" (List.mem_cons_self ..)

end KindSupply

/-! ### What services select by kind -/

section
variable {issued : Nat} {kinds chosen chosen' : List Kind} {view : Handler}

/-- Where all of the chosen kinds are under others, what is under one of them is under one of the others. -/
theorem Kind.Forest.exists_isUnder_of_covered (h : Forest issued kinds) (hview : view.kind ∈ kinds)
    (hsub : chosen ⊆ kinds) (hcovered : ∀ k ∈ chosen, ∃ k' ∈ chosen', k.isUnder k' = true) :
    (∃ k ∈ chosen, view.kind.isUnder k = true) → ∃ k' ∈ chosen', view.kind.isUnder k' = true := by
  rintro ⟨k, hk, hunder⟩
  obtain ⟨k', hk', hkk'⟩ := hcovered k hk
  exact ⟨k', hk', h.isUnder_trans hview (hsub hk) hunder hkk'⟩

namespace Catchall
variable {c c' : Catchall} {gs : List (String × List Endpoint)}

theorem targets_of_strict (h : { c with strict := true }.targets view = true) :
    { c with strict := false }.targets view = true := by
  rcases targets_iff.1 h with hall | ⟨kind, hkind, hsame⟩
  · exact targets_iff.2 (.inl hall)
  · exact targets_iff.2 (.inr ⟨kind, hkind, Kind.isUnder_of_isSame hsame⟩)

theorem targets_of_covered (h : Kind.Forest issued kinds) (hview : view.kind ∈ kinds) (hsub : chosen ⊆ kinds)
    (hne : chosen ≠ []) (hcovered : ∀ k ∈ chosen, ∃ k' ∈ chosen', k.isUnder k' = true)
    (ht : { c with targetKinds := chosen, strict := false }.targets view = true) :
    { c with targetKinds := chosen', strict := false }.targets view = true := by
  rcases targets_iff.1 ht with hall | hsome
  · exact absurd hall hne
  · exact targets_iff.2 (.inr (h.exists_isUnder_of_covered hview hsub hcovered hsome))

/-- A catchall that targets more views makes the same calls and others between them. -/
theorem calls_sublist (standard : Methods) (handler : Handler)
    (hoptions : ∀ es, c.optionsOn standard handler es = c'.optionsOn standard handler es)
    (htargets : ∀ g ∈ gs, ∀ e ∈ g.2, c.targets e.view = true → c'.targets e.view = true) :
    (c.calls standard handler gs).Sublist (c'.calls standard handler gs) := by
  induction gs with
  | nil => exact .refl _
  | cons g gs ih =>
    obtain ⟨hg, hgs⟩ := List.forall_mem_cons.1 htargets
    rw [calls, calls, List.filter_cons, List.filter_cons]
    by_cases hc : (g.2.any fun e => c.targets e.view) = true
    · obtain ⟨e, he, ht⟩ := List.any_eq_true.1 hc
      have hc' : (g.2.any fun e => c'.targets e.view) = true := List.any_eq_true.2 ⟨e, he, hg e he ht⟩
      rw [if_pos hc, if_pos hc', List.map_cons, List.map_cons, hoptions]
      exact (ih hgs).cons_cons _
    · rw [if_neg hc]
      split
      · exact (ih hgs).cons _
      · exact ih hgs

end Catchall

end

namespace KindSupply
open Registry (Call)

/-- Kinds from a supply are all different, and `isUnder` orders them as a forest: a kind is under those to which its
parents lead, and these lie on one line. A strict catchall makes only calls that it would make without being strict.
Where kinds are all under others, a catchall for the others makes all calls of one for these kinds, and a documenter that
skips the others skips all views that it would skip for these kinds. -/
theorem isUnder_orders_forest {s : KindSupply} {kinds : List Kind} (h : s.HandedOut kinds) :
    kinds.Pairwise (fun a b => a.isSame b = false) ∧
    (∀ a ∈ kinds, ∀ b ∈ kinds, a.isUnder b = true ↔ Relation.ReflTransGen (fun k p => k.parent? = some p) a b) ∧
    (∀ a ∈ kinds, a.isUnder a = true) ∧
    (∀ a ∈ kinds, ∀ b ∈ kinds, ∀ c ∈ kinds, a.isUnder b = true → b.isUnder c = true → a.isUnder c = true) ∧
    (∀ a ∈ kinds, ∀ b ∈ kinds, a.isUnder b = true → b.isUnder a = true → a.isSame b = true) ∧
    (∀ k ∈ kinds, ∀ a ∈ kinds, ∀ b ∈ kinds,
      k.isUnder a = true → k.isUnder b = true → a.isUnder b = true ∨ b.isUnder a = true) ∧
    ∀ (m : EndpointMap) (standard : Methods) (handler : Handler),
      let calls (c : Catchall) : List Call := c.calls standard handler m.groups
      (∀ (c : Catchall) (σ : Type) (r : Router σ), c.register standard r handler m = r.perform (calls c)) ∧
      (∀ c : Catchall, (calls { c with strict := true }).Sublist (calls { c with strict := false })) ∧
      ((∀ g ∈ m.groups, ∀ e ∈ g.2, e.view.kind ∈ kinds) → ∀ chosen chosen' : List Kind, chosen ⊆ kinds →
        (∀ k ∈ chosen, ∃ k' ∈ chosen', k.isUnder k' = true) →
          (chosen ≠ [] → ∀ c : Catchall, (calls { c with targetKinds := chosen, strict := false }).Sublist
            (calls { c with targetKinds := chosen', strict := false })) ∧
          ∀ d : Documenter, ∀ g ∈ m.groups, ∀ e ∈ g.2, { d with skippedKinds := chosen }.skips e.view = true →
            { d with skippedKinds := chosen' }.skips e.view = true) := by
  have hforest := h.forest
  refine ⟨?apart, fun a ha b hb => hforest.isUnder_iff_reaches ha hb, ?refl,
    fun a ha b hb c _ => hforest.isUnder_trans ha hb, fun a ha b hb => hforest.isUnder_antisymm ha hb,
    fun k hk a ha b hb => hforest.isUnder_total hk ha hb, fun m standard handler => ⟨?register, ?strict, ?covered⟩⟩
  case apart =>
    refine (List.pairwise_map.1 hforest.nodup).imp fun hne => ?_
    rw [← Bool.not_eq_true, Kind.isSame_iff]
    exact hne
  case refl => exact fun a _ => Kind.isUnder_of_isSame (Kind.isSame_iff.2 rfl)
  case register => exact fun c σ r => c.register_eq_perform r standard handler m
  case strict =>
    intro c
    exact Catchall.calls_sublist standard handler (fun _ => rfl) fun _ _ _ _ => Catchall.targets_of_strict
  case covered =>
    intro hviews chosen chosen' hsub hcovered
    refine ⟨fun hne c => ?_, fun d g hg e he hskips => ?_⟩
    · refine Catchall.calls_sublist standard handler (fun _ => rfl) fun g hg e he => ?_
      exact Catchall.targets_of_covered hforest (hviews g hg e he) hsub hne hcovered
    · have hunder := hforest.exists_isUnder_of_covered (hviews g hg e he) hsub hcovered
      exact List.any_eq_true.2 (hunder (List.any_eq_true.1 hskips))

/-- Two kinds of one name, of which only one is below a built-in kind. -/
theorem isUnder_orders_forest_namesakes :
    let plain := initial.declare "Custom" none
    let derived := plain.2.declare "Custom" (some .apiView)
    let kinds := [derived.1, plain.1, .apiView, .functionView, .simpleView, .baseView]
    let view (kind : Kind) : Handler := { serial := 0, name := "view", call := fun _ => "", kind }
    let m := EndpointMap.ofList
      [⟨"/page", view .simpleView, {}⟩, ⟨"/plain", view plain.1, {}⟩, ⟨"/derived", view derived.1, {}⟩]
    let calls (targetKinds : List Kind) (strict : Bool) : List Call :=
      Catchall.calls { targetKinds, strict } .standard (view .simpleView) m.groups
    derived.2.HandedOut kinds ∧ plain.1.name = derived.1.name ∧ plain.1.isSame derived.1 = false ∧
      derived.1.isUnder .baseView = true ∧ plain.1.isUnder derived.1 = false ∧
      ((calls [.apiView, .simpleView] true).Sublist (calls [.apiView, .simpleView] false) ∧
        (calls [.apiView, .simpleView] true).length = 1 ∧ (calls [.apiView, .simpleView] false).length = 2) ∧
      (calls [derived.1] false).Sublist (calls [.functionView] false) ∧
      ∃ d : Documenter, { d with skippedKinds := [derived.1] }.skips (view derived.1) = true ∧
        { d with skippedKinds := [.functionView] }.skips (view derived.1) = true := by
  intro plain derived kinds view m calls
  have h : derived.2.HandedOut kinds :=
    (handedOut_initial.declare_root "Custom").declare_below "Custom" (by simp)
  have hgroups : m.groups = [("/page", [⟨"/page", view .simpleView, {}⟩]),
      ("/plain", [⟨"/plain", view plain.1, {}⟩]), ("/derived", [⟨"/derived", view derived.1, {}⟩])] := by
    rw [(EndpointMap.groups_ofList _).groups]
    simp [routesOf, atRoute, List.eraseDups_cons]
  have hviews : ∀ g ∈ m.groups, ∀ e ∈ g.2, e.view.kind ∈ kinds := by
    simp [hgroups, kinds, view]
  have hsub : [derived.1] ⊆ kinds := by simp [kinds]
  obtain ⟨-, -, -, htrans, -, -, hservices⟩ := isUnder_orders_forest h
  obtain ⟨-, hstrict, hcovered⟩ := hservices m .standard (view .simpleView)
  obtain ⟨hcalls, hskips⟩ := hcovered hviews [derived.1] [.functionView] hsub (by decide)
  have hlengths : (calls [.apiView, .simpleView] true).length = 1 ∧
      (calls [.apiView, .simpleView] false).length = 2 := by
    simp only [calls, hgroups]
    exact ⟨rfl, rfl⟩
  refine ⟨h, rfl, rfl, ?_, rfl, ⟨?_, hlengths⟩, ?_, {}, rfl, ?_⟩
  · exact htrans derived.1 (by simp [kinds]) .functionView (by simp [kinds]) .baseView (by simp [kinds]) rfl rfl
  · exact hstrict { targetKinds := [.apiView, .simpleView] }
  · exact hcalls (by simp) {}
  · have hgroup : ("/derived", [⟨"/derived", view derived.1, {}⟩]) ∈ m.groups := by simp [hgroups]
    exact hskips {} _ hgroup _ (List.mem_singleton_self _) rfl

end KindSupply

end RouteTree
