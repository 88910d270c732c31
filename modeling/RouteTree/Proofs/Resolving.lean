import RouteTree.Proofs.Printing

/-!
# What is left of a value when all is replaced

`Documenter.resolve` replaces a value and then its parts, from the top down, and lays out nothing. It ends if
nothing is replaced by a value with more nodes (`Documenter.NonGrowing`), for then the parts of what takes the place
of a value have fewer nodes than the value. What has no textual form in the resolved value is all that can go wrong
with a text: a value has a text if its resolved value has no such node, and otherwise the first of them is reported
(`Documenter.valueText_resolved`). Nodes that were replaced on the way are not in the resolved value, and those that
came in their place are.

The texts of all parts are asked for from left to right and put together if there are all of them, so what is
reported for a value is what is reported for the first of them (`Reports`).
-/

namespace RouteTree

/-- There is a result and nothing is wrong, or the first of `names` is reported as having no text. -/
inductive Reports {α : Type} : List String → Option (Except TextError α) → Prop where
  | ok (a : α) : Reports [] (some (.ok a))
  | error (name : String) (rest : List String) : Reports (name :: rest) (some (.error (.noText name)))

namespace Reports
variable {α β : Type} {names rest : List String}

/-- Of two computations in a row the second one is asked only if the first one has a result. -/
theorem bind {r : TextM α} {f : α → TextM β} (h : Reports names r.run) (hf : ∀ a, Reports rest (f a).run) :
    Reports (names ++ rest) (r >>= f).run := by
  rw [ExceptT.run_bind]
  generalize r.run = outcome at h ⊢
  cases h with
  | ok a => exact hf a
  | error name others => exact .error name _

theorem mapM {f : β → TextM α} {namesOf : β → List String} {xs : List β}
    (h : ∀ x ∈ xs, Reports (namesOf x) (f x).run) : Reports (xs.flatMap namesOf) (xs.mapM f).run := by
  induction xs with
  | nil => exact .ok []
  | cons x xs ih =>
    have hxs := ih fun y hy => h y (List.mem_cons_of_mem _ hy)
    have hnil : xs.flatMap namesOf = xs.flatMap namesOf ++ [] := (List.append_nil _).symm
    rw [List.mapM_cons, List.flatMap_cons, hnil]
    exact (h x (List.mem_cons_self ..)).bind fun a => hxs.bind fun as => .ok (a :: as)

theorem ends {r : Option (Except TextError α)} (h : Reports names r) : ∃ outcome, r = some outcome := by
  cases h with
  | ok a => exact ⟨.ok a, rfl⟩
  | error name rest => exact ⟨.error (.noText name), rfl⟩

theorem exists_ok_iff {r : Option (Except TextError α)} (h : Reports names r) :
    (∃ a, r = some (.ok a)) ↔ names = [] := by
  cases h with
  | ok a => exact iff_of_true ⟨a, rfl⟩ rfl
  | error name rest => simp

theorem eq_error_iff {r : Option (Except TextError α)} (h : Reports names r) {e : TextError} :
    r = some (.error e) ↔ ∃ name, e = .noText name ∧ ∃ rest, names = name :: rest := by
  cases h with
  | ok a => simp
  | error name rest => simp [eq_comm]

end Reports

namespace DocValue
variable {v w : DocValue} {name : String}

/-- The name of the type of a value without textual form. -/
def typeName? : DocValue → Option String
  | .value name => some name
  | .type _ | .text _ | .flag _ | .list _ | .map _ | .listOf _ => none

theorem typeName?_eq_some_iff : v.typeName? = some name ↔ v = .value name := by
  cases v <;> simp [typeName?]

theorem typeName?_eq_none_iff : v.typeName? = none ↔ ∀ name, v ≠ .value name := by
  cases v <;> simp [typeName?]

/-- The nodes of a value, depth first and from left to right. -/
def nodes (v : DocValue) : List DocValue := v :: v.parts.attach.flatMap fun ⟨part, _⟩ => part.nodes
termination_by v.size
decreasing_by exact size_lt_of_mem_parts ‹_›

theorem nodes_eq (v : DocValue) : v.nodes = v :: v.parts.flatMap nodes := by
  rw [nodes, List.flatMap_subtype (g := nodes) fun _ _ => rfl, List.unattach_attach]

theorem size_eq (v : DocValue) : v.size = 1 + sizeItems v.parts := by
  have hentries : ∀ entries, sizeEntries entries = sizeItems (entries.map (·.2)) := by
    intro entries
    induction entries with
    | nil => rfl
    | cons e entries ih => rw [sizeEntries, ih, List.map_cons, sizeItems]
  cases v with
  | list items => rw [size, parts]
  | map entries => rw [size, hentries, parts]
  | listOf inner => rw [size, parts, sizeItems, sizeItems, Nat.add_zero]
  | type _ => rfl
  | text _ => rfl
  | flag _ => rfl
  | value _ => rfl

theorem length_flatMap_nodes {items : List DocValue} (h : ∀ v ∈ items, v.nodes.length = v.size) :
    (items.flatMap nodes).length = sizeItems items := by
  induction items with
  | nil => rfl
  | cons v items ih =>
    rw [List.flatMap_cons, List.length_append, h v (List.mem_cons_self ..), sizeItems,
      ih fun w hw => h w (List.mem_cons_of_mem _ hw)]

theorem length_nodes (v : DocValue) : v.nodes.length = v.size := by
  have hparts : ∀ part ∈ v.parts, part.nodes.length = part.size := fun part hpart => length_nodes part
  rw [nodes_eq, size_eq, List.length_cons, length_flatMap_nodes hparts, Nat.add_comm]
termination_by v.size
decreasing_by exact size_lt_of_mem_parts hpart

/-- The types of the nodes without textual form, in the order of the nodes. -/
def opaqueNames (v : DocValue) : List String := v.nodes.filterMap typeName?

theorem opaqueNames_eq (v : DocValue) : v.opaqueNames = v.typeName?.toList ++ v.parts.flatMap opaqueNames := by
  have hparts : (v.parts.flatMap nodes).filterMap typeName? = v.parts.flatMap opaqueNames :=
    List.filterMap_flatMap
  rw [opaqueNames, nodes_eq, List.filterMap_cons, hparts]
  cases v.typeName? <;> rfl

theorem opaqueNames_eq_nil_iff : v.opaqueNames = [] ↔ ∀ name, .value name ∉ v.nodes := by
  rw [opaqueNames, List.filterMap_eq_nil_iff]
  constructor
  · intro h name hmem
    cases h _ hmem
  · intro h w hw
    exact typeName?_eq_none_iff.2 fun name hname => h name (hname ▸ hw)

theorem opaqueNames_eq_cons_iff : (∃ rest, v.opaqueNames = name :: rest) ↔
    ∃ before after, v.nodes = before ++ .value name :: after ∧ ∀ other, .value other ∉ before := by
  simp only [opaqueNames, List.filterMap_eq_cons_iff]
  constructor
  · rintro ⟨rest, before, w, after, hnodes, hbefore, hw, -⟩
    obtain rfl := typeName?_eq_some_iff.1 hw
    exact ⟨before, after, hnodes, fun other hother => by cases hbefore _ hother⟩
  · rintro ⟨before, after, hnodes, hbefore⟩
    refine ⟨_, before, _, after, hnodes, fun w hw => ?_, rfl, rfl⟩
    exact typeName?_eq_none_iff.2 fun other hother => hbefore other (hother ▸ hw)

/-- The value with other parts, as many as it has. -/
def withParts : DocValue → List DocValue → DocValue
  | .list _, parts => .list parts
  | .map entries, parts => .map ((entries.map (·.1)).zip parts)
  | .listOf _, part :: _ => .listOf part
  | v, _ => v

theorem parts_withParts (v : DocValue) (f : DocValue → DocValue) :
    (v.withParts (v.parts.map f)).parts = v.parts.map f := by
  cases v with
  | list items => rfl
  | map entries =>
    show ((entries.map (·.1)).zip ((entries.map (·.2)).map f)).map (·.2) = _
    rw [List.map_snd_zip (by simp)]
    rfl
  | listOf inner => rfl
  | type _ => rfl
  | text _ => rfl
  | flag _ => rfl
  | value _ => rfl

theorem typeName?_withParts (v : DocValue) (ws : List DocValue) : (v.withParts ws).typeName? = v.typeName? := by
  cases v with
  | listOf inner => cases ws <;> rfl
  | list _ => rfl
  | map _ => rfl
  | type _ => rfl
  | text _ => rfl
  | flag _ => rfl
  | value _ => rfl

end DocValue

namespace Documenter
variable {d : Documenter} {v w : DocValue}

/-- Whatever the texts of its parts are, a value has a text if it has a textual form. -/
theorem assemble_reports (d : Documenter) (w : DocValue) (texts : List String) :
    Reports w.typeName?.toList (d.assemble w texts).run := by
  cases w with
  | listOf inner =>
    rw [assemble]
    split
    · exact .ok _
    · exact .ok _
  | type _ => exact .ok _
  | text _ => exact .ok _
  | flag _ => exact .ok _
  | list _ => exact .ok _
  | map _ => exact .ok _
  | value name => exact .error name []

/-! ### What takes the place of a value -/

/-- No value is replaced by one with more nodes. -/
structure NonGrowing (d : Documenter) : Prop where
  transform : ∀ f, d.transform = some f → ∀ v, (f v).nodes.length ≤ v.nodes.length
  substitute : ∀ v f, d.substitute? v = some (.transform f) → (f v).nodes.length ≤ v.nodes.length

theorem mem_of_substitute? {r : Substitute} (h : d.substitute? v = some r) : (v, r) ∈ d.substitutes := by
  obtain ⟨before, after, hsub, -⟩ := List.lookup_eq_some_iff.1 h
  rw [hsub]
  exact List.mem_append_right _ (List.mem_cons_self ..)

theorem NonGrowing.size_le (hd : d.NonGrowing) (h : d.replaced v = .inr w) : w.size ≤ v.size := by
  rw [← w.length_nodes, ← v.length_nodes]
  unfold replaced at h
  split at h
  · cases h
  · obtain rfl := Sum.inr.inj h
    exact hd.substitute v _ ‹_›
  · obtain rfl := Sum.inr.inj h
    cases ht : d.transform with
    | none => exact Nat.le_refl _
    | some f => exact hd.transform f ht v

theorem NonGrowing.size_part_lt (hd : d.NonGrowing) (h : d.replaced v = .inr w) {part : DocValue}
    (hpart : part ∈ w.parts) : part.size < v.size :=
  Nat.lt_of_lt_of_le (DocValue.size_lt_of_mem_parts hpart) (hd.size_le h)

/-- The value that is left when `v` and then all its parts are replaced. -/
def resolve (d : Documenter) (hd : d.NonGrowing) (v : DocValue) : DocValue :=
  match _h : d.replaced v with
  | .inl content => .text content
  | .inr w => w.withParts (w.parts.attach.map fun ⟨part, _⟩ => d.resolve hd part)
termination_by v.size
decreasing_by exact hd.size_part_lt _h ‹_›

variable {hd : d.NonGrowing}

theorem resolve_of_text {content : String} (h : d.replaced v = .inl content) :
    d.resolve hd v = .text content := by
  rw [resolve]
  split
  · rename_i h'
    obtain rfl := Sum.inl.inj (h.symm.trans h')
    rfl
  · rename_i h'
    cases h.symm.trans h'

theorem resolve_of_value (h : d.replaced v = .inr w) :
    d.resolve hd v = w.withParts (w.parts.map (d.resolve hd)) := by
  rw [resolve]
  split
  · rename_i h'
    cases h.symm.trans h'
  · rename_i h'
    obtain rfl := Sum.inr.inj (h.symm.trans h')
    rw [List.map_subtype (g := d.resolve hd) fun _ _ => rfl, List.unattach_attach]

/-- Whether the node itself comes first or last makes no difference, for without textual form it has no parts. -/
theorem opaqueNames_resolve (h : d.replaced v = .inr w) : (d.resolve hd v).opaqueNames =
    (w.parts.flatMap fun part => (d.resolve hd part).opaqueNames) ++ w.typeName?.toList := by
  rw [resolve_of_value h, DocValue.opaqueNames_eq, DocValue.typeName?_withParts, DocValue.parts_withParts,
    List.flatMap_map]
  cases hname : w.typeName? with
  | none => simp
  | some name =>
    obtain rfl := DocValue.typeName?_eq_some_iff.1 hname
    rfl

/-- What is reported are the nodes without textual form that are left of the value. -/
theorem valueText_reports (hd : d.NonGrowing) (v : DocValue) :
    Reports (d.resolve hd v).opaqueNames (d.valueText v) := by
  -- not on the structure of `v`, for the parts whose texts are asked for are parts of another value
  cases h : d.replaced v with
  | inl content =>
    rw [valueText_of_text h, resolve_of_text h, DocValue.opaqueNames_eq]
    exact .ok content
  | inr w =>
    have hparts : ∀ part ∈ w.parts, Reports (d.resolve hd part).opaqueNames (d.valueText part) :=
      fun part hpart => valueText_reports hd part
    rw [valueText_of_value h, opaqueNames_resolve h]
    exact (Reports.mapM hparts).bind (d.assemble_reports w)
termination_by v.size
decreasing_by exact hd.size_part_lt h hpart

/-- A value has a text if no node without textual form is left of it, and otherwise the first of these nodes is
reported. -/
theorem valueText_resolved (hd : d.NonGrowing) (v : DocValue) :
    ((∃ text, d.valueText v = some (.ok text)) ↔ ∀ name, .value name ∉ (d.resolve hd v).nodes) ∧
      ∀ e, d.valueText v = some (.error e) ↔ ∃ name before after, e = .noText name ∧
        (d.resolve hd v).nodes = before ++ .value name :: after ∧ ∀ other, .value other ∉ before := by
  have h := valueText_reports hd v
  refine ⟨h.exists_ok_iff.trans DocValue.opaqueNames_eq_nil_iff, fun e => ?_⟩
  rw [h.eq_error_iff]
  simp only [DocValue.opaqueNames_eq_cons_iff, ← exists_and_left]

/-- A documenter that takes values out of their wrappers, hides one value, and replaces two others. -/
def curtDocumenter : Documenter where
  transform := some fun
    | .listOf inner => inner
    | v => v
  substitutes :=
    [(.list [.value "Secret"], .text "hidden"), (.listOf (.value "Row"), .transform fun _ => .list []),
      (.type "Key", .transform fun _ => .value "Opaque")]

theorem nonGrowing_curtDocumenter : curtDocumenter.NonGrowing where
  transform f hf v := by
    obtain rfl := Option.some.inj hf
    cases v with
    | listOf inner =>
      rw [(DocValue.listOf inner).nodes_eq]
      simp [DocValue.parts]
    | _ => exact Nat.le_refl _
  substitute v f hf := by
    have hmem := mem_of_substitute? hf
    simp only [curtDocumenter, List.mem_cons, List.not_mem_nil, or_false, Prod.mk.injEq] at hmem
    rcases hmem with ⟨-, hr⟩ | ⟨rfl, hr⟩ | ⟨rfl, hr⟩
    · cases hr
    · cases hr
      simp [DocValue.nodes_eq, DocValue.parts]
    · cases hr
      simp [DocValue.nodes_eq, DocValue.parts]

/-- The values that are hidden or replaced are not reported, and of the two that are left the one that comes in by a
substitute stands first. -/
theorem valueText_resolved_curtDocumenter :
    let v : DocValue := .map
      [("a", .list [.value "Secret"]), ("b", .listOf (.value "Row")), ("c", .listOf (.list [.type "Key"])),
        ("d", .value "Late")]
    let left : DocValue := .map
      [("a", .text "hidden"), ("b", .list []), ("c", .list [.value "Opaque"]), ("d", .value "Late")]
    curtDocumenter.NonGrowing ∧ curtDocumenter.resolve nonGrowing_curtDocumenter v = left ∧
      curtDocumenter.valueText v = some (.error (.noText "Opaque")) := by
  intro v left
  have hroot : curtDocumenter.replaced v = .inr v := rfl
  have hsecret : curtDocumenter.replaced (.list [.value "Secret"]) = .inl "hidden" := rfl
  have hrow : curtDocumenter.replaced (.listOf (.value "Row")) = .inr (.list []) := rfl
  have hkeys : curtDocumenter.replaced (.listOf (.list [.type "Key"])) = .inr (.list [.type "Key"]) := rfl
  have hkey : curtDocumenter.replaced (.type "Key") = .inr (.value "Opaque") := rfl
  have hlate : curtDocumenter.replaced (.value "Late") = .inr (.value "Late") := rfl
  have hv : curtDocumenter.resolve nonGrowing_curtDocumenter v = left := by
    rw [resolve_of_value hroot]
    simp [v, left, DocValue.parts, DocValue.withParts, resolve_of_text hsecret, resolve_of_value hrow,
      resolve_of_value hkeys, resolve_of_value hkey, resolve_of_value hlate]
  have hnodes : left.nodes = [left, .text "hidden", .list [], .list [.value "Opaque"]] ++
      .value "Opaque" :: [.value "Late"] := by
    simp [left, DocValue.nodes_eq, DocValue.parts]
  have hfirst : ∀ other, .value other ∉ [left, .text "hidden", .list [], .list [.value "Opaque"]] := by
    simp [left]
  exact ⟨nonGrowing_curtDocumenter, hv, ((valueText_resolved nonGrowing_curtDocumenter v).2 _).2
    ⟨"Opaque", _, _, rfl, (congrArg DocValue.nodes hv).trans hnodes, hfirst⟩⟩

end Documenter

end RouteTree
