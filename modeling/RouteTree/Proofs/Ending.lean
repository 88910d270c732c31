import Mathlib.Data.List.Chain
import RouteTree.Proofs.Resolving

/-!
# Texts that come to an end

To get the text of a value a documenter asks for the texts of the parts of what takes its place (`Documenter.Asks`),
which need not be parts of the value, and need not become smaller. The text comes to an end if no chain of values that
ask for each other goes on for ever (`Documenter.ends_valueText`). If nothing is replaced by a value with more nodes,
then every value that is asked for has fewer nodes than the one it is asked for by, whatever becomes of their
constructors. So no chain is longer than its first value has nodes, and this many levels are enough
(`Documenter.textWithin_nodes`).

`Documenter.textWithin` is the text within a bound on the levels, and ends with nothing where it runs into the bound.
More levels make no difference to what it ends with otherwise, hence the text of a value is what it gives for bounds
that are large enough (`Documenter.valueText_eq_some_iff`). Where every value is put into another one no bound is, and
there is no text (`Documenter.valueText_endless`).
-/

namespace RouteTree

/-! ### Computations that need not end -/

section
variable {α β ε : Type} {t t' : ExceptT ε Option α} {k k' : α → ExceptT ε Option β} {f g : β → ExceptT ε Option α}
  {xs : List β}

/-- The computation ends, with a result or with an error. -/
def Ends (t : ExceptT ε Option α) : Prop := ∃ outcome, t.run = some outcome

/-- What `t` ends with `t'` ends with, too. -/
def Approximates (t t' : ExceptT ε Option α) : Prop := ∀ outcome, t.run = some outcome → t'.run = some outcome

theorem Ends.bind (ht : Ends t) (hk : ∀ a, Ends (k a)) : Ends (t >>= k) := by
  obtain ⟨outcome, h⟩ := ht
  rw [Ends, ExceptT.run_bind, h]
  cases outcome with
  | error e => exact ⟨.error e, rfl⟩
  | ok a => exact hk a

theorem Ends.mapM (h : ∀ x ∈ xs, Ends (f x)) : Ends (xs.mapM f) := by
  induction xs with
  | nil => exact ⟨.ok [], rfl⟩
  | cons x xs ih =>
    rw [List.mapM_cons]
    refine (h x (List.mem_cons_self ..)).bind fun a => ?_
    exact (ih fun y hy => h y (List.mem_cons_of_mem _ hy)).bind fun as => ⟨.ok (a :: as), rfl⟩

theorem Approximates.refl (t : ExceptT ε Option α) : Approximates t t := fun _ h => h

theorem Approximates.bind (ht : Approximates t t') (hk : ∀ a, Approximates (k a) (k' a)) :
    Approximates (t >>= k) (t' >>= k') := by
  intro outcome h
  rw [ExceptT.run_bind] at h ⊢
  cases hrun : t.run with
  | none =>
    rw [hrun] at h
    cases h
  | some first =>
    rw [hrun] at h
    rw [ht first hrun]
    cases first with
    | error e => exact h
    | ok a => exact hk a outcome h

theorem Approximates.mapM (h : ∀ x ∈ xs, Approximates (f x) (g x)) : Approximates (xs.mapM f) (xs.mapM g) := by
  induction xs with
  | nil => exact .refl _
  | cons x xs ih =>
    rw [List.mapM_cons, List.mapM_cons]
    refine (h x (List.mem_cons_self ..)).bind fun a => ?_
    exact (ih fun y hy => h y (List.mem_cons_of_mem _ hy)).bind fun as => .refl _

theorem mapM_congr (h : ∀ x ∈ xs, f x = g x) : xs.mapM f = xs.mapM g := by
  induction xs with
  | nil => rfl
  | cons x xs ih =>
    rw [List.mapM_cons, List.mapM_cons, h x (List.mem_cons_self ..), ih fun y hy => h y (List.mem_cons_of_mem _ hy)]

end

namespace Documenter
variable {d : Documenter} {v w part : DocValue} {bound bound' : Nat}
  {textOf textOf' : DocValue → Option (Except TextError String)}

/-! ### One level -/

/-- The text of `v` made from those that `textOf` gives to the parts of what takes its place. -/
def textFrom (d : Documenter) (textOf : DocValue → Option (Except TextError String)) (v : DocValue) :
    Option (Except TextError String) :=
  match d.replaced v with
  | .inl content => some (.ok content)
  | .inr w => (w.parts.mapM (m := TextM) textOf >>= d.assemble w).run

theorem valueText_eq_textFrom (d : Documenter) (v : DocValue) : d.valueText v = d.textFrom d.valueText v := by
  rw [valueText]
  rfl

theorem textFrom_congr (h : ∀ w, d.replaced v = .inr w → ∀ part ∈ w.parts, textOf part = textOf' part) :
    d.textFrom textOf v = d.textFrom textOf' v := by
  unfold textFrom
  split
  · rfl
  · rw [mapM_congr (h _ ‹_›)]

theorem textFrom_approximates
    (h : ∀ w, d.replaced v = .inr w → ∀ part ∈ w.parts, Approximates (textOf part) (textOf' part)) :
    Approximates (d.textFrom textOf v) (d.textFrom textOf' v) := by
  unfold textFrom
  split
  · exact .refl _
  · exact (Approximates.mapM (h _ ‹_›)).bind fun texts => .refl _

theorem ends_textFrom (h : ∀ w, d.replaced v = .inr w → ∀ part ∈ w.parts, Ends (textOf part)) :
    Ends (d.textFrom textOf v) := by
  unfold textFrom
  split
  · exact ⟨_, rfl⟩
  · rename_i w hw
    exact (Ends.mapM (h w hw)).bind fun texts => (d.assemble_reports w texts).ends

/-! ### More levels -/

/-- The text of a value that is nested, as replaced, in at most `bound` levels. -/
def textWithin (d : Documenter) : (bound : Nat) → DocValue → Option (Except TextError String)
  | 0, _ => none
  | bound + 1, v => d.textFrom (d.textWithin bound) v

/-- What a text within a bound ends with it ends with under every larger bound. -/
theorem textWithin_approximates (hb : bound ≤ bound') (v : DocValue) :
    Approximates (d.textWithin bound v) (d.textWithin bound' v) := by
  induction bound generalizing v bound' with
  | zero => intro outcome h; cases h
  | succ bound ih =>
    obtain ⟨more, rfl⟩ : ∃ more, bound' = more + 1 := ⟨bound' - 1, by omega⟩
    exact textFrom_approximates fun _ _ part _ => ih (by omega) part

theorem textWithin_approximates_valueText (bound : Nat) (v : DocValue) :
    Approximates (d.textWithin bound v) (d.valueText v) := by
  induction bound generalizing v with
  | zero => intro outcome h; cases h
  | succ bound ih =>
    rw [valueText_eq_textFrom]
    exact textFrom_approximates fun _ _ part _ => ih part

/-- One bound is enough for what several texts end with. -/
theorem exists_bound (h : ∀ v outcome, textOf v = some outcome → ∃ bound, d.textWithin bound v = some outcome)
    (vs : List DocValue) : ∃ bound, ∀ v ∈ vs, Approximates (textOf v) (d.textWithin bound v) := by
  induction vs with
  | nil => exact ⟨0, nofun⟩
  | cons v vs ih =>
    obtain ⟨others, hothers⟩ := ih
    obtain ⟨first, hfirst⟩ : ∃ first, Approximates (textOf v) (d.textWithin first v) := by
      cases hv : textOf v with
      | none => exact ⟨0, nofun⟩
      | some outcome =>
        obtain ⟨first, hfirst⟩ := h v outcome hv
        exact ⟨first, fun _ hsome => hfirst.trans hsome⟩
    refine ⟨max first others, List.forall_mem_cons.2 ⟨fun outcome hv => ?_, fun w hw outcome houtcome => ?_⟩⟩
    · exact textWithin_approximates (Nat.le_max_left ..) v outcome (hfirst outcome hv)
    · exact textWithin_approximates (Nat.le_max_right ..) w outcome (hothers w hw outcome houtcome)

/-- The text of a value is the one within a bound, if there is a bound that is large enough. -/
theorem valueText_eq_some_iff {outcome : Except TextError String} :
    d.valueText v = some outcome ↔ ∃ bound, d.textWithin bound v = some outcome := by
  constructor
  · -- `valueText` is the least solution of its equation, so what holds of a text made from texts holds of it
    refine valueText.partial_correctness d (fun v outcome => ∃ bound, d.textWithin bound v = some outcome) ?_ v outcome
    intro textOf ih v outcome h
    have hparts : ∃ bound, ∀ w, d.replaced v = .inr w →
        ∀ part ∈ w.parts, Approximates (textOf part) (d.textWithin bound part) := by
      cases d.replaced v with
      | inl content => exact ⟨0, nofun⟩
      | inr w =>
        obtain ⟨bound, hbound⟩ := exists_bound ih w.parts
        exact ⟨bound, fun _ hw => Sum.inr.inj hw ▸ hbound⟩
    obtain ⟨bound, hbound⟩ := hparts
    exact ⟨bound + 1, textFrom_approximates hbound outcome h⟩
  · rintro ⟨bound, h⟩
    exact textWithin_approximates_valueText bound v outcome h

/-! ### The values that are asked for -/

/-- The text of `v` is made from the text of `part`. -/
def Asks (d : Documenter) (part v : DocValue) : Prop := ∃ w, d.replaced v = .inr w ∧ part ∈ w.parts

theorem NonGrowing.length_lt (hd : d.NonGrowing) (h : d.Asks part v) : part.nodes.length < v.nodes.length := by
  obtain ⟨w, hw, hpart⟩ := h
  rw [DocValue.length_nodes, DocValue.length_nodes]
  exact hd.size_part_lt hw hpart

theorem NonGrowing.wellFounded_asks (hd : d.NonGrowing) : WellFounded d.Asks :=
  Subrelation.wf hd.length_lt (measure fun v : DocValue => v.nodes.length).wf

theorem NonGrowing.length_chain_le (hd : d.NonGrowing) {chain : List DocValue}
    (h : (v :: chain).IsChain fun asking asked => d.Asks asked asking) :
    (v :: chain).length ≤ v.nodes.length := by
  induction chain generalizing v with
  | nil =>
    rw [DocValue.nodes_eq]
    simp
  | cons part chain ih =>
    obtain ⟨hpart, hchain⟩ := List.isChain_cons_cons.1 h
    have := hd.length_lt hpart
    have := ih hchain
    rw [List.length_cons]
    omega

/-- The text comes to an end where chains of values that ask for each other do, even if they become larger on the
way. -/
theorem ends_valueText (h : Acc d.Asks v) : Ends (d.valueText v) := by
  induction h with
  | intro v _ ih =>
    rw [valueText_eq_textFrom]
    exact ends_textFrom fun w hw part hpart => ih part ⟨w, hw, hpart⟩

example : (withTransform {} fun
    | .type "User" => .map [("address", .type "Address")]
    | .type "Address" => .map [("geo", .type "Geo")]
    | .type "Geo" => .map [("lat", .type "float")]
    | v => v).valueText (.type "User") = some (.ok (
      "\x7b\n    address: \x7b\n        geo: \x7b\n            lat: float\n        \x7d\n    \x7d\n\x7d")) := by
  cbv

/-! ### The levels that are enough -/

theorem textWithin_eq_valueText (hd : d.NonGrowing) (hb : v.nodes.length ≤ bound) :
    d.textWithin bound v = d.valueText v := by
  induction bound generalizing v with
  | zero =>
    rw [DocValue.nodes_eq] at hb
    cases hb
  | succ bound ih =>
    rw [textWithin, valueText_eq_textFrom]
    refine textFrom_congr fun w hw part hpart => ih ?_
    have := hd.length_lt ⟨w, hw, hpart⟩
    omega

/-- As many levels as the value has nodes are enough to lay it out or to find a node that has no textual form, and
more levels change nothing. -/
theorem textWithin_nodes (hd : d.NonGrowing) (v : DocValue) :
    (∀ chain, (v :: chain).IsChain (fun asking asked => d.Asks asked asking) →
      (v :: chain).length ≤ v.nodes.length) ∧
    d.textWithin v.nodes.length v ≠ none ∧
    ((∃ text, d.textWithin v.nodes.length v = some (.ok text)) ∨
      ∃ name, d.textWithin v.nodes.length v = some (.error (.noText name))) ∧
    (∀ bound, v.nodes.length ≤ bound → d.textWithin bound v = d.textWithin v.nodes.length v) ∧
    d.valueText v = d.textWithin v.nodes.length v := by
  have hvalue := textWithin_eq_valueText (v := v) hd (Nat.le_refl _)
  have hreports := valueText_reports hd v
  rw [hvalue]
  refine ⟨fun chain => hd.length_chain_le, ?_, ?_, fun bound => textWithin_eq_valueText hd, rfl⟩
  · exact Option.ne_none_iff_exists'.2 (ends_valueText (hd.wellFounded_asks.apply v))
  · generalize (d.resolve hd v).opaqueNames = names, d.valueText v = r at hreports
    cases hreports with
    | ok text => exact .inl ⟨text, rfl⟩
    | error name rest => exact .inr ⟨name, rfl⟩

/-- A documenter that turns lists of one item into lists of equal items and back, and shows rows by their fields. -/
def turningDocumenter : Documenter where
  transform := some fun
    | .list [item] => .listOf item
    | .listOf inner => .list [inner]
    | v => v
  substitutes := [(.listOf (.type "Row"), .transform fun _ => .map [("id", .type "int")])]

theorem nonGrowing_turningDocumenter : turningDocumenter.NonGrowing where
  transform f hf v := by
    obtain rfl := Option.some.inj hf
    simp only [DocValue.length_nodes]
    split
    · simp [DocValue.size, DocValue.sizeItems]
    · simp [DocValue.size, DocValue.sizeItems]
    · exact Nat.le_refl _
  substitute v f hf := by
    have hmem := mem_of_substitute? hf
    obtain ⟨rfl, rfl⟩ : v = .listOf (.type "Row") ∧ f = fun _ => .map [("id", .type "int")] := by
      simpa [turningDocumenter] using hmem
    simp [DocValue.nodes_eq, DocValue.parts]

/-- The rows are turned, replaced and then laid out within four levels, one for each node, and with more of them. -/
theorem textWithin_nodes_turningDocumenter :
    let v : DocValue := .list [.listOf (.listOf (.type "Row"))]
    turningDocumenter.NonGrowing ∧ v.nodes.length = 4 ∧ turningDocumenter.textWithin 4 v ≠ none ∧
      turningDocumenter.textWithin 7 v = turningDocumenter.textWithin 4 v := by
  intro v
  have hv : v.nodes.length = 4 := by simp [v, DocValue.nodes_eq, DocValue.parts]
  obtain ⟨-, hne, -, hmore, -⟩ := textWithin_nodes nonGrowing_turningDocumenter v
  rw [hv] at hne hmore
  exact ⟨nonGrowing_turningDocumenter, hv, hne, hmore 7 (by decide)⟩

/-! ### Without a bound -/

/-- `textOf` is the text of each value made from those of the values it asks for. -/
def Solves (d : Documenter) (textOf : DocValue → Option (Except TextError String)) : Prop :=
  ∀ v, textOf v = d.textFrom textOf v

/-- The texts are the only ones that can be made from those of the values asked for. -/
theorem solves_iff_eq_valueText (hd : d.NonGrowing) : d.Solves textOf ↔ textOf = d.valueText := by
  refine ⟨fun h => funext fun v => ?_, fun h => h ▸ d.valueText_eq_textFrom⟩
  induction v using hd.wellFounded_asks.induction with
  | h v ih =>
    rw [h v, valueText_eq_textFrom]
    exact textFrom_congr fun w hw part hpart => ih part ⟨w, hw, hpart⟩

/-- Where every value becomes one that has parts, no number of levels is enough. -/
theorem textWithin_endless (h : ∀ v, ∃ w, d.replaced v = .inr w ∧ w.parts ≠ []) (bound : Nat) (v : DocValue) :
    d.textWithin bound v = none := by
  induction bound generalizing v with
  | zero => rfl
  | succ bound ih =>
    obtain ⟨w, hw, hparts⟩ := h v
    obtain ⟨part, rest, hw'⟩ := List.exists_cons_of_ne_nil hparts
    rw [textWithin, textFrom, hw]
    simp only [hw', List.mapM_cons, ih]
    rfl

theorem valueText_endless (h : ∀ v, ∃ w, d.replaced v = .inr w ∧ w.parts ≠ []) (v : DocValue) :
    d.valueText v = none := by
  refine Option.eq_none_iff_forall_ne_some.2 fun outcome houtcome => ?_
  obtain ⟨bound, hbound⟩ := valueText_eq_some_iff.1 houtcome
  rw [textWithin_endless h] at hbound
  cases hbound

theorem valueText_wrapping (v : DocValue) : (withTransform {} fun v => .list [v]).valueText v = none :=
  valueText_endless (fun v => ⟨.list [v], rfl, List.cons_ne_nil v []⟩) v

end Documenter

end RouteTree
