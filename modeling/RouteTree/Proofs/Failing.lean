import RouteTree.Proofs.Documenting
import RouteTree.Proofs.Ending

/-!
# Where documenting fails

Documenting is one walk over the fields that are shown: route by route, view by view and field by field. The records
of the views are filed under labels, where one may take the place of another, but by then their fields have had their
texts. So the whole fails as the first of the fields that has no text (`Documenter.ofEndpoints_fails`).

`failure?` keeps of a computation what went wrong, if only that it does not end. Of computations in a row it is the
first failure that counts (`failure?_bind`), and hence of a fold that runs on results the first failure in the list
(`failure?_foldlM`).
What is not shown is taken out of the declarations by `Handler.pruned`, which makes no difference.
-/

namespace RouteTree

/-! ### The first failure -/

/-- What kept a computation from having a result, if anything did: an error, or that it never ends (`none`). -/
def failure? {ε α : Type} (r : ExceptT ε Option α) : Option (Option ε) :=
  match r.run with
  | some (.ok _) => none
  | some (.error e) => some (some e)
  | none => some none

section
variable {α β ε σ : Type} {r : ExceptT ε Option α} {e : ε}

theorem failure?_eq_some_some_iff : failure? r = some (some e) ↔ r.run = some (.error e) := by
  unfold failure?
  split <;> simp_all

theorem failure?_eq_none_iff : failure? r = none ↔ ∃ a, r.run = some (.ok a) := by
  unfold failure?
  split <;> simp_all

theorem failure?_ne_some_none_iff : failure? r ≠ some none ↔ Ends r := by
  unfold failure? Ends
  split <;> simp_all

theorem failure?_pure (a : α) : failure? (pure a : ExceptT ε Option α) = none := rfl

theorem failure?_bind {f : α → ExceptT ε Option β} {next : Option (Option ε)} (h : ∀ a, failure? (f a) = next) :
    failure? (r >>= f) = (failure? r).or next := by
  unfold failure? at h ⊢
  rw [ExceptT.run_bind]
  cases r.run with
  | none => rfl
  | some outcome =>
    cases outcome with
    | error e => rfl
    | ok a => exact h a

theorem failure?_map (f : α → β) : failure? (f <$> r) = failure? r := by
  rw [← bind_pure_comp, failure?_bind fun a => failure?_pure (f a), Option.or_none]

theorem failure?_foldlM (f : α → ExceptT ε Option β) (step : σ → α → β → σ) (xs : List α) (s : σ) :
    failure? (xs.foldlM (fun s x => do return step s x (← f x)) s) = xs.findSome? fun x => failure? (f x) := by
  induction xs generalizing s with
  | nil => rfl
  | cons x xs ih =>
    rw [List.foldlM_cons, failure?_bind ih, bind_pure_comp, failure?_map, List.findSome?_cons]
    cases failure? (f x) <;> rfl

theorem findSome?_toList (o : Option α) (f : α → Option β) : o.toList.findSome? f = o.bind f := by
  cases o <;> simp

theorem findSome?_flatMap (g : α → List β) (f : β → Option σ) (xs : List α) :
    (xs.flatMap g).findSome? f = xs.findSome? fun x => (g x).findSome? f := by
  induction xs with
  | nil => rfl
  | cons x xs ih =>
    rw [List.flatMap_cons, List.findSome?_append, ih, List.findSome?_cons]
    cases (g x).findSome? f <;> rfl

end

/-! ### The fields that are shown -/

namespace DocValue

instance (v : DocValue) : Decidable v.Blank := decidable_of_iff _ v.isEmpty_iff_blank

theorem notNamed_notNamed (v : DocValue) (names : List String) :
    (v.notNamed names).notNamed names = v.notNamed names := by
  cases v <;> simp [notNamed]

end DocValue

/-- What is declared, unless it is blank. -/
def shownOf (declared : Option DocValue) : Option DocValue := declared.filter fun v => ¬ v.Blank

/-- What a handler declares, without entries under supplied names and then without blanks. -/
def Handler.shown (view : Handler) : Declarations where
  required := shownOf (view.io.required.map (·.notNamed view.suppliedNames))
  optional := shownOf (view.io.optional.map (·.notNamed view.suppliedNames))
  unlimited := shownOf view.io.unlimited
  returns := shownOf view.io.returns

/-- The values of the fields in their order. -/
def Declarations.values (io : Declarations) : List DocValue :=
  io.required.toList ++ io.optional.toList ++ io.unlimited.toList ++ io.returns.toList

/-- The handler as if it declared only what is shown. -/
def Handler.pruned (view : Handler) : Handler := { view with io := view.shown }

def Endpoint.pruned (e : Endpoint) : Endpoint := { e with view := e.view.pruned }

theorem shownOf_some (v : DocValue) : shownOf (some v) = if v.Blank then none else some v := by
  unfold shownOf
  rw [Option.filter_some]
  split <;> split <;> simp_all

theorem shownOf_shownOf (declared : Option DocValue) : shownOf (shownOf declared) = shownOf declared := by
  unfold shownOf
  rw [Option.filter_filter]
  simp

theorem shownOf_map_notNamed (declared : Option DocValue) (names : List String) :
    (shownOf (declared.map (·.notNamed names))).map (·.notNamed names) =
      shownOf (declared.map (·.notNamed names)) := by
  cases declared with
  | none => rfl
  | some v =>
    rw [Option.map_some, shownOf_some]
    split
    · rfl
    · rw [Option.map_some, DocValue.notNamed_notNamed]

theorem Handler.shown_pruned (view : Handler) : view.pruned.shown = view.shown := by
  unfold pruned
  rw [shown]
  simp only [shown, shownOf_map_notNamed, shownOf_shownOf]

namespace Documenter
variable {d : Documenter} {m : EndpointMap} {es : List Endpoint}

/-- The values that are shown of the endpoints of `m`: of all its endpoints in order that are not hidden, all fields
in order. -/
def shownValues (d : Documenter) (m : EndpointMap) : List DocValue :=
  (d.visible m.toList).flatMap fun e => e.view.shown.values

/-- The map as if nothing else was in it than what is shown. -/
def pruned (d : Documenter) (m : EndpointMap) : EndpointMap :=
  .ofList ((d.visible m.toList).map Endpoint.pruned)

/-! ### One view -/

theorem field_eq (d : Documenter) (declared : Option DocValue) :
    d.field declared = match shownOf declared with
      | none => pure none
      | some v => some <$> ExceptT.mk (d.valueText v) := by
  cases declared with
  | none => rfl
  | some v =>
    rw [shownOf_some, field]
    by_cases hb : v.Blank
    · rw [if_pos hb, if_pos (v.isEmpty_iff_blank.2 hb)]
    · rw [if_neg hb, if_neg (mt v.isEmpty_iff_blank.1 hb), bind_pure_comp]

theorem failure?_field (d : Documenter) (declared : Option DocValue) :
    failure? (d.field declared) = (shownOf declared).bind fun v => failure? (d.valueText v) := by
  rw [field_eq]
  cases shownOf declared with
  | none => rfl
  | some v => exact failure?_map some

theorem viewDoc_eq (d : Documenter) (view : Handler) : d.viewDoc view = do
    let required ← d.field view.shown.required
    let optional ← d.field view.shown.optional
    let unlimited ← d.field view.shown.unlimited
    let returns ← d.field view.shown.returns
    return { description := view.description.getD "", required, optional, unlimited, returns } := by
  have hfield : ∀ declared, d.field (shownOf declared) = d.field declared := by
    intro declared
    rw [field_eq, shownOf_shownOf, ← field_eq]
  simp only [viewDoc, Handler.shown, hfield, DocValue.dropKeys_eq_notNamed]

theorem failure?_viewDoc (d : Documenter) (view : Handler) :
    failure? (d.viewDoc view) = view.shown.values.findSome? fun v => failure? (d.valueText v) := by
  unfold viewDoc Declarations.values Handler.shown
  simp only [List.findSome?_append, findSome?_toList, ← failure?_field, ← DocValue.dropKeys_eq_notNamed]
  refine (failure?_bind fun required => failure?_bind fun optional => failure?_bind fun unlimited =>
    failure?_bind fun returns => failure?_pure _).trans ?_
  simp [Option.or_assoc]

theorem viewDoc_pruned (d : Documenter) (view : Handler) : d.viewDoc view.pruned = d.viewDoc view := by
  rw [viewDoc_eq, viewDoc_eq, Handler.shown_pruned]
  rfl

/-! ### All views -/

theorem failure?_routeDoc (d : Documenter) (es : List Endpoint) :
    failure? (d.routeDoc es) =
      ((d.visible es).flatMap fun e => e.view.shown.values).findSome? fun v => failure? (d.valueText v) := by
  rw [routeDoc_eq_foldlM, findSome?_flatMap]
  simp only [← failure?_viewDoc]
  exact failure?_foldlM (fun e : Endpoint => d.viewDoc e.view) (fun (views : RouteDoc) e => views.insert (d.labelOf e))
    _ _

theorem failure?_ofEndpoints (d : Documenter) (m : EndpointMap) :
    failure? (d.ofEndpoints m) = (d.shownValues m).findSome? fun v => failure? (d.valueText v) := by
  have hvalues : d.shownValues m =
      m.groups.flatMap fun g => (d.visible g.2).flatMap fun e => e.view.shown.values := by
    unfold shownValues visible EndpointMap.toList
    rw [List.filter_flatMap, List.flatMap_assoc]
  rw [hvalues, findSome?_flatMap]
  simp only [← failure?_routeDoc]
  exact failure?_foldlM (fun g : String × List Endpoint => d.routeDoc g.2)
    (fun (doc : Documentation) g views => if views.isEmpty then doc else doc.insert g.1 views) _ _

theorem routeDoc_pruned (d : Documenter) (es : List Endpoint) :
    d.routeDoc (es.map Endpoint.pruned) = d.routeDoc es := by
  unfold routeDoc
  rw [List.foldlM_map]
  simp only [Endpoint.pruned, viewDoc_pruned]
  rfl

theorem groups_pruned (hm : m.Coherent) :
    (d.pruned m).groups = (d.withoutHidden m).groups.map fun g => (g.1, g.2.map Endpoint.pruned) := by
  have hpruned : d.pruned m =
      .ofList (((d.visibleGroups m.groups).map fun g => (g.1, g.2.map Endpoint.pruned)).flatMap Prod.snd) := by
    rw [pruned, EndpointMap.toList, ← flatMap_visibleGroups, List.map_flatMap, List.flatMap_map]
  rw [hpruned, withoutHidden_groups hm]
  refine EndpointMap.groups_ofList_flatMap ?_ ?_
  · rw [List.map_map]
    exact nodup_visibleGroups hm.positions.nodup
  · intro g hg
    obtain ⟨visible, hvisible, rfl⟩ := List.mem_map.1 hg
    obtain ⟨es, hes, heq, hne⟩ := mem_visibleGroups.1 hvisible
    rw [heq] at hne
    refine ⟨mt List.map_eq_nil_iff.1 hne, ?_⟩
    intro changed hchanged
    obtain ⟨e, he, rfl⟩ := List.mem_map.1 hchanged
    rw [← heq] at he
    exact hm.route_eq _ hes e (mem_visible.1 he).1

theorem ofEndpoints_pruned (hm : m.Coherent) : d.ofEndpoints (d.pruned m) = d.ofEndpoints m := by
  rw [← ofEndpoints_withoutHidden hm, ofEndpoints, groups_pruned hm, List.foldlM_map]
  simp only [routeDoc_pruned]
  rfl

theorem mem_shownValues {v : DocValue} : v ∈ d.shownValues m ↔
    ∃ g ∈ m.groups, ∃ e ∈ g.2, ¬ d.Hides e.view ∧ v ∈ e.view.shown.values := by
  simp only [shownValues, EndpointMap.toList, List.mem_flatMap, mem_visible]
  constructor
  · rintro ⟨e, ⟨⟨g, hg, he⟩, hh⟩, hv⟩
    exact ⟨g, hg, e, he, hh, hv⟩
  · rintro ⟨g, hg, e, he, hh, hv⟩
    exact ⟨e, ⟨⟨g, hg, he⟩, hh⟩, hv⟩

theorem ofEndpoints_eq_error_iff {err : TextError} :
    (d.ofEndpoints m).run = some (.error err) ↔ ∃ before v after, d.shownValues m = before ++ v :: after ∧
      (∀ w ∈ before, ∃ text, d.valueText w = some (.ok text)) ∧ d.valueText v = some (.error err) := by
  rw [← failure?_eq_some_some_iff, failure?_ofEndpoints, List.findSome?_eq_some_iff]
  simp only [failure?_eq_some_some_iff, failure?_eq_none_iff, and_comm]
  rfl

theorem ends_ofEndpoints (h : ∀ v ∈ d.shownValues m, Ends (d.valueText v)) : Ends (d.ofEndpoints m) := by
  rw [← failure?_ne_some_none_iff, failure?_ofEndpoints]
  intro hnone
  obtain ⟨v, hmem, hv⟩ := List.exists_of_findSome?_eq_some hnone
  exact failure?_ne_some_none_iff.2 (h v hmem) hv

/-- Where the texts of all that is shown come to an end, the documentation fails if one of them does. -/
theorem exists_error_ofEndpoints_iff (h : ∀ v ∈ d.shownValues m, Ends (d.valueText v)) :
    (∃ err, (d.ofEndpoints m).run = some (.error err)) ↔
      ∃ v ∈ d.shownValues m, ∃ err, d.valueText v = some (.error err) := by
  constructor
  · rintro ⟨err, herr⟩
    obtain ⟨before, v, after, hvalues, -, hv⟩ := ofEndpoints_eq_error_iff.1 herr
    exact ⟨v, by simp [hvalues], err, hv⟩
  · rintro ⟨v, hmem, err, hv⟩
    obtain ⟨outcome, houtcome⟩ := ends_ofEndpoints h
    cases outcome with
    | error err => exact ⟨err, houtcome⟩
    | ok doc =>
      have hnone := failure?_eq_none_iff.2 ⟨doc, houtcome⟩
      rw [failure?_ofEndpoints, List.findSome?_eq_none_iff] at hnone
      cases (failure?_eq_some_some_iff.2 hv).symm.trans (hnone v hmem)

/-- The documentation fails if something that is shown has no text, and then as the first that has none. Whatever is
hidden, blank or supplied could as well not be there. -/
theorem ofEndpoints_fails (hd : d.NonGrowing) (hm : m.Built) :
    (∃ outcome, (d.ofEndpoints m).run = some outcome) ∧
      ((∃ err, (d.ofEndpoints m).run = some (.error err)) ↔ ∃ g ∈ m.groups, ∃ e ∈ g.2, ¬ d.Hides e.view ∧
        ∃ v ∈ e.view.shown.values, ∃ err, d.valueText v = some (.error err)) ∧
      (∀ err, (d.ofEndpoints m).run = some (.error err) ↔ ∃ before v after, d.shownValues m = before ++ v :: after ∧
        (∀ w ∈ before, ∃ text, d.valueText w = some (.ok text)) ∧ d.valueText v = some (.error err)) ∧
      (∀ err, (d.ofEndpoints m).run = some (.error err) → ∃ name, err = .noText name) ∧
      d.ofEndpoints (d.pruned m) = d.ofEndpoints m := by
  have hends : ∀ v ∈ d.shownValues m, Ends (d.valueText v) := fun v _ => ends_valueText (hd.wellFounded_asks.apply v)
  refine ⟨ends_ofEndpoints hends, ?_, fun err => ofEndpoints_eq_error_iff, ?_,
    ofEndpoints_pruned (EndpointMap.built_iff_coherent.1 hm)⟩
  · rw [exists_error_ofEndpoints_iff hends]
    simp only [mem_shownValues]
    constructor
    · rintro ⟨v, ⟨g, hg, e, he, hh, hv⟩, herr⟩
      exact ⟨g, hg, e, he, hh, v, hv, herr⟩
    · rintro ⟨g, hg, e, he, hh, v, hv, herr⟩
      exact ⟨v, ⟨g, hg, e, he, hh, hv⟩, herr⟩
  · intro err herr
    obtain ⟨-, v, -, -, -, hv⟩ := ofEndpoints_eq_error_iff.1 herr
    obtain ⟨name, rfl, -⟩ := (valueText_reports hd v).eq_error_iff.1 hv
    exact ⟨name, rfl⟩

/-- On `/a` the first view fails although the second one has its label, and it fails with what it returns, for all
that it requires is supplied and the other part of what it may be given has a text. The hidden view ahead of it and
the one on `/c` would fail, too. -/
theorem ofEndpoints_fails_replaced_view :
    let internal : Kind := ⟨⟨4, "Internal"⟩, Kind.apiView.lineage⟩
    let d := curtDocumenter.skipping Kind.apiView
    let secret : Handler :=
      { serial := 0, name := "secret", call := fun _ => "", kind := internal, io.required := some (.value "Hidden") }
    let old : Handler :=
      { serial := 1, name := "old", call := fun _ => "", suppliedNames := ["user"]
        io.required := some (.map [("user", .value "User")])
        io.optional := some (.map [("user", .value "User"), ("page", .list [.value "Secret"])])
        io.unlimited := some (.list [])
        io.returns := some (.type "Key") }
    let new : Handler := { serial := 2, name := "new", call := fun _ => "" }
    let late : Handler :=
      { serial := 3, name := "late", call := fun _ => "", io.required := some (.value "Late") }
    let m := EndpointMap.ofList
      [⟨"/b", secret, {}⟩, ⟨"/a", old, {}⟩, ⟨"/c", late, {}⟩, ⟨"/a", new, { methods := some ⟨[]⟩ }⟩]
    d.NonGrowing ∧ m.Built ∧
      d.shownValues m = [.map [("page", .list [.value "Secret"])], .type "Key", .value "Late"] ∧
      (d.ofEndpoints m).run = some (.error (.noText "Opaque")) ∧
      (d.ofEndpoints (d.pruned m)).run = some (.error (.noText "Opaque")) := by
  intro internal d secret old new late m
  have hd : d.NonGrowing := ⟨nonGrowing_curtDocumenter.transform, nonGrowing_curtDocumenter.substitute⟩
  have hm : m.Built := EndpointMap.built_ofList _
  have hgroups : m.groups = [("/b", [⟨"/b", secret, {}⟩]),
      ("/a", [⟨"/a", old, {}⟩, ⟨"/a", new, { methods := some ⟨[]⟩ }⟩]), ("/c", [⟨"/c", late, {}⟩])] := by
    rw [(EndpointMap.groups_ofList _).groups]
    simp [routesOf, atRoute, List.eraseDups_cons]
  have hvalues : d.shownValues m = [.map [("page", .list [.value "Secret"])], .type "Key", .value "Late"] := by
    rw [shownValues, EndpointMap.toList, hgroups]
    rfl
  have hpage : ∃ text, d.valueText (.map [("page", .list [.value "Secret"])]) = some (.ok text) := by
    have hsecret : d.valueText (.list [.value "Secret"]) = some (.ok "hidden") := valueText_of_text rfl
    rw [valueText_of_value (w := .map [("page", .list [.value "Secret"])]) rfl]
    simp only [DocValue.parts, List.map_cons, List.map_nil, List.mapM_cons, List.mapM_nil, hsecret]
    exact ⟨_, rfl⟩
  have hkey : d.valueText (.type "Key") = some (.error (.noText "Opaque")) :=
    valueText_of_value (w := .value "Opaque") rfl
  obtain ⟨-, -, hfirst, -, hpruned⟩ := ofEndpoints_fails hd hm
  have herr := (hfirst (.noText "Opaque")).2 ⟨[_], .type "Key", [.value "Late"], hvalues, by simpa using hpage, hkey⟩
  exact ⟨hd, hm, hvalues, herr, hpruned ▸ herr⟩

end Documenter

end RouteTree
