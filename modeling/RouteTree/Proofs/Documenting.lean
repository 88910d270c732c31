import RouteTree.Documentation.OfTree
import RouteTree.Proofs.Coherence
import Mathlib.Data.List.Induction

/-!
# What the documentation of endpoints says

Endpoints are documented one after another, and each puts its record under its label, in the place of what
was there before. So a label shows the last of its endpoints (`getElem?_filed`), and hidden endpoints leave
no trace: they can be taken away before (`ofEndpoints_withoutHidden`). `Documenter.Describes` says what the
result is, and `Documenter.Records` what the record of a view is.
-/

namespace RouteTree

/-! ### Filing under keys -/

section
variable {α β ε σ : Type} {xs : List α} {k : String} {x : α}

/-- What `value` makes of the elements under their keys; of several with one key the last stays. -/
def filed (key : α → String) (value : α → β) (xs : List α) : Std.ExtTreeMap String β :=
  xs.foldl (fun m x => m.insert (key x) (value x)) ∅

variable {key : α → String} {value : α → β}

theorem getElem?_foldl_insert_of_ne (m : Std.ExtTreeMap String β) (h : ∀ x ∈ xs, key x ≠ k) :
    (xs.foldl (fun m x => m.insert (key x) (value x)) m)[k]? = m[k]? := by
  induction xs generalizing m with
  | nil => rfl
  | cons x xs ih =>
    rw [List.foldl_cons, ih _ fun y hy => h y (List.mem_cons_of_mem _ hy),
      getElem?_insert_of_ne (h x (List.mem_cons_self ..))]

/-- The last element with its key is the one that stays. -/
theorem getElem?_filed {before after : List α} (h : ∀ y ∈ after, key y ≠ key x) :
    (filed key value (before ++ x :: after))[key x]? = some (value x) := by
  rw [filed, List.foldl_append, List.foldl_cons, getElem?_foldl_insert_of_ne _ h,
    Std.ExtTreeMap.getElem?_insert_self]

theorem exists_last (hx : x ∈ xs) (key : α → String) :
    ∃ before y after, xs = before ++ y :: after ∧ key y = key x ∧ ∀ z ∈ after, key z ≠ key x := by
  -- From the back: the last element is the one, or has another key and comes after it.
  induction xs using List.reverseRecOn with
  | nil => cases hx
  | append_singleton xs y ih =>
    by_cases hy : key y = key x
    · exact ⟨xs, y, [], rfl, hy, fun _ hz => absurd hz List.not_mem_nil⟩
    · rcases List.mem_append.1 hx with hx | hx
      · obtain ⟨before, z, after, rfl, hz, hafter⟩ := ih hx
        refine ⟨before, z, after ++ [y], by simp, hz, fun w hw => ?_⟩
        rcases List.mem_append.1 hw with hw | hw
        · exact hafter w hw
        · rw [List.mem_singleton.1 hw]
          exact hy
      · exact absurd (congrArg key (List.mem_singleton.1 hx).symm) hy

theorem exists_filed_iff (value : α → β) :
    (∃ y, (filed key value xs)[k]? = some y) ↔ ∃ x ∈ xs, key x = k := by
  constructor
  · rintro ⟨y, hy⟩
    by_contra hnone
    have hne : ∀ x ∈ xs, key x ≠ k := fun x hx hk => hnone ⟨x, hx, hk⟩
    rw [filed, getElem?_foldl_insert_of_ne _ hne, Std.ExtTreeMap.getElem?_empty] at hy
    cases hy
  · rintro ⟨x, hx, rfl⟩
    obtain ⟨before, y, after, rfl, hy, hafter⟩ := exists_last hx key
    exact ⟨value y, hy ▸ getElem?_filed (hy ▸ hafter)⟩

theorem getElem?_filed_eq_some_iff (hd : (xs.map key).Nodup) {y : β} :
    (filed key value xs)[k]? = some y ↔ ∃ x ∈ xs, key x = k ∧ value x = y := by
  have hfound : ∀ x ∈ xs, (filed key value xs)[key x]? = some (value x) := by
    intro x hx
    obtain ⟨before, after, rfl⟩ := List.append_of_mem hx
    rw [List.map_append, List.map_cons] at hd
    refine getElem?_filed fun z hz hzx => ?_
    exact (List.nodup_cons.1 (List.nodup_append'.1 hd).2.1).1 (hzx ▸ List.mem_map_of_mem hz)
  constructor
  · intro hy
    obtain ⟨x, hx, rfl⟩ := (exists_filed_iff _).1 ⟨y, hy⟩
    rw [hfound x hx] at hy
    exact ⟨x, hx, rfl, Option.some.inj hy⟩
  · rintro ⟨x, hx, rfl, rfl⟩
    exact hfound x hx

theorem isEmpty_filed : (filed key value xs).isEmpty = true ↔ xs = [] := by
  constructor
  · intro h
    cases xs with
    | nil => rfl
    | cons x xs =>
      obtain ⟨y, hy⟩ := (exists_filed_iff value).2 ⟨x, List.mem_cons_self .., rfl⟩
      rw [Std.ExtTreeMap.isEmpty_iff.1 h, Std.ExtTreeMap.getElem?_empty] at hy
      cases hy
  · rintro rfl
    rfl

/-! ### Work that can fail -/

variable {f : α → ExceptT ε Option β} {step : σ → α → β → σ} {s r : σ}

theorem run_bind_eq_ok_iff {t : ExceptT ε Option α} {y : β} :
    (t >>= f).run = some (.ok y) ↔ ∃ x, t.run = some (.ok x) ∧ (f x).run = some (.ok y) := by
  rw [ExceptT.run_bind]
  cases t.run with
  | none => simp
  | some outcome => cases outcome <;> simp

theorem bind_congr_of_ok {t : ExceptT ε Option α} {g : α → ExceptT ε Option β}
    (h : ∀ x, t.run = some (.ok x) → f x = g x) : t >>= f = t >>= g := by
  refine ExceptT.ext ?_
  rw [ExceptT.run_bind, ExceptT.run_bind]
  cases hrun : t.run with
  | none => rfl
  | some outcome =>
    cases outcome with
    | error e => rfl
    | ok x => exact congrArg ExceptT.run (h x hrun)

theorem run_foldlM_of_forall_ok {g : α → β} (h : ∀ x ∈ xs, (f x).run = some (.ok (g x))) :
    (xs.foldlM (fun s x => do return step s x (← f x)) s).run =
      some (.ok (xs.foldl (fun s x => step s x (g x)) s)) := by
  induction xs generalizing s with
  | nil => rfl
  | cons x xs ih =>
    have hfirst : (do return step s x (← f x)).run = some (Except.ok (step s x (g x))) :=
      run_bind_eq_ok_iff.2 ⟨_, h x (List.mem_cons_self ..), rfl⟩
    rw [List.foldlM_cons, List.foldl_cons, run_bind_eq_ok_iff]
    exact ⟨_, hfirst, ih fun y hy => h y (List.mem_cons_of_mem _ hy)⟩

theorem exists_ok_of_foldlM (h : (xs.foldlM (fun s x => do return step s x (← f x)) s).run = some (.ok r)) :
    ∀ x ∈ xs, ∃ y, (f x).run = some (.ok y) := by
  induction xs generalizing s with
  | nil => exact fun _ hx => absurd hx List.not_mem_nil
  | cons x xs ih =>
    rw [List.foldlM_cons, run_bind_eq_ok_iff] at h
    obtain ⟨s', hfirst, hrest⟩ := h
    obtain ⟨y, hy, -⟩ := run_bind_eq_ok_iff.1 hfirst
    exact List.forall_mem_cons.2 ⟨⟨y, hy⟩, ih hrest⟩

end

/-! ### What is documented -/

/-- An empty text, list or map, or a flag that is off. -/
def DocValue.Blank (v : DocValue) : Prop := v = .text "" ∨ v = .flag false ∨ v = .list [] ∨ v = .map []

theorem DocValue.isEmpty_iff_blank (v : DocValue) : v.isEmpty = true ↔ v.Blank := by
  cases v <;> simp [isEmpty, Blank]

/-- Of a map the entries under other names; every other value is kept as it is. -/
def DocValue.notNamed (names : List String) : DocValue → DocValue
  | .map entries => .map (entries.filter fun entry => entry.1 ∉ names)
  | v => v

theorem DocValue.dropKeys_eq_notNamed (v : DocValue) (names : List String) :
    v.dropKeys names = v.notNamed names := by
  cases v <;> simp [dropKeys, notNamed]

namespace Documenter

/-- The kind of the view is one of the skipped ones, or below one. -/
def Hides (d : Documenter) (view : Handler) : Prop :=
  ∃ kind ∈ d.skippedKinds, ∃ tag ∈ view.kind.lineage, tag.serial = kind.serial

variable {d : Documenter} {view : Handler} {record : ViewDoc} {e : Endpoint} {es : List Endpoint}
  {m : EndpointMap}

theorem skips_iff_hides : d.skips view = true ↔ d.Hides view := by
  simp [skips, Hides, Kind.isUnder]

instance : Decidable (d.Hides view) := decidable_of_iff _ skips_iff_hides

/-- The label of an endpoint: its methods, or those of the settings if it has none or an empty list. -/
def labelOf (d : Documenter) (e : Endpoint) : String :=
  match e.options.methods with
  | none | some ⟨[]⟩ => ", ".intercalate d.settings.requestMethods
  | some m => ", ".intercalate m.tokens

/-- What is shown for what is declared: nothing for nothing, or for a blank, and else the text of it. -/
def Shows (d : Documenter) (declared : Option DocValue) : (shown : Option String) → Prop
  | none => ∀ v, declared = some v → v.Blank
  | some text => ∃ v, declared = some v ∧ ¬ v.Blank ∧ d.valueText v = some (.ok text)

/-- `record` says about `view` what is to be said. -/
structure Records (d : Documenter) (view : Handler) (record : ViewDoc) : Prop where
  description : record.description = match view.description with
    | some text => text
    | none => ""
  required : d.Shows (view.io.required.map (·.notNamed view.suppliedNames)) record.required
  optional : d.Shows (view.io.optional.map (·.notNamed view.suppliedNames)) record.optional
  unlimited : d.Shows view.io.unlimited record.unlimited
  returns : d.Shows view.io.returns record.returns

/-- `doc` says about the endpoints of `m` what is to be said, and nothing else. -/
structure Describes (d : Documenter) (m : EndpointMap) (doc : Documentation) : Prop where
  /-- The routes with an endpoint that is not hidden. -/
  routes : ∀ route, route ∈ doc.routes ↔ ∃ es, (route, es) ∈ m.groups ∧ ∃ e ∈ es, ¬ d.Hides e.view
  /-- On each of them the labels of the endpoints that are not hidden. -/
  labels : ∀ route label, (∃ record, doc.view? route label = some record) ↔
    ∃ es, (route, es) ∈ m.groups ∧ ∃ e ∈ es, ¬ d.Hides e.view ∧ d.labelOf e = label
  /-- Under each label the record of the last of its endpoints. -/
  records : ∀ route before e after, (route, before ++ e :: after) ∈ m.groups → ¬ d.Hides e.view →
    (∀ e' ∈ after, ¬ d.Hides e'.view → d.labelOf e' ≠ d.labelOf e) →
      ∃ record, doc.view? route (d.labelOf e) = some record ∧ d.Records e.view record

/-- The endpoints that are not hidden. -/
def visible (d : Documenter) (es : List Endpoint) : List Endpoint := es.filter fun e => ¬ d.Hides e.view

/-- The map without hidden endpoints, and without the routes that then have none. -/
def withoutHidden (d : Documenter) (m : EndpointMap) : EndpointMap := .ofList (d.visible m.toList)

theorem mem_visible : e ∈ d.visible es ↔ e ∈ es ∧ ¬ d.Hides e.view := by
  rw [visible, List.mem_filter, decide_eq_true_iff]

theorem visible_cons_of_hides (h : d.Hides e.view) : d.visible (e :: es) = d.visible es :=
  List.filter_cons_of_neg (by simpa using h)

theorem visible_cons (h : ¬ d.Hides e.view) : d.visible (e :: es) = e :: d.visible es :=
  List.filter_cons_of_pos (by simpa using h)

theorem visible_append_cons {before after : List Endpoint} (h : ¬ d.Hides e.view) :
    d.visible (before ++ e :: after) = d.visible before ++ e :: d.visible after := by
  rw [visible, List.filter_append]
  exact congrArg _ (visible_cons h)

theorem visible_visible (es : List Endpoint) : d.visible (d.visible es) = d.visible es :=
  List.filter_eq_self.2 fun _ he => (List.mem_filter.1 he).2

theorem label_documentedMethods (e : Endpoint) :
    (documentedMethods d.settings.defaultMethods e).label = d.labelOf e := by
  unfold documentedMethods labelOf
  cases e.options.methods with
  | none => rfl
  | some m =>
    obtain ⟨tokens⟩ := m
    cases tokens <;> rfl

/-! ### One view -/

theorem shows_none : d.Shows none none := by
  intro v hv
  cases hv

theorem shows_none_of_blank {v : DocValue} (h : v.Blank) : d.Shows (some v) none := by
  intro w hw
  exact Option.some.inj hw ▸ h

theorem field_eq_ok_iff {declared : Option DocValue} {shown : Option String} :
    (d.field declared).run = some (.ok shown) ↔ d.Shows declared shown := by
  cases declared with
  | none => cases shown <;> simp [field, Shows]
  | some v =>
    by_cases hb : v.isEmpty = true
    · have hblank := v.isEmpty_iff_blank.1 hb
      cases shown <;> simp [field, Shows, hb, hblank]
    · have hblank := mt v.isEmpty_iff_blank.2 hb
      rw [field, if_neg hb, run_bind_eq_ok_iff]
      cases shown <;> simp [Shows, hblank]

theorem viewDoc_eq_ok_iff : (d.viewDoc view).run = some (.ok record) ↔ d.Records view record := by
  simp only [viewDoc, run_bind_eq_ok_iff, field_eq_ok_iff, DocValue.dropKeys_eq_notNamed]
  constructor
  · rintro ⟨required, hrequired, optional, hoptional, unlimited, hunlimited, returns, hreturns, h⟩
    cases h
    refine ⟨?_, hrequired, hoptional, hunlimited, hreturns⟩
    cases view.description <;> rfl
  · intro h
    refine ⟨_, h.required, _, h.optional, _, h.unlimited, _, h.returns, congrArg (some ∘ Except.ok) ?_⟩
    have hdescription : record.description = view.description.getD "" := by
      rw [h.description]
      cases view.description <;> rfl
    rw [← hdescription]

theorem Records.unique {record' : ViewDoc} (h : d.Records view record) (h' : d.Records view record') :
    record = record' :=
  Except.ok.inj (Option.some.inj ((viewDoc_eq_ok_iff.2 h).symm.trans (viewDoc_eq_ok_iff.2 h')))

/-! ### One route -/

/-- The record of a view that can be documented. -/
def recordOf (d : Documenter) (view : Handler) : ViewDoc :=
  ((d.viewDoc view).run.bind Except.toOption).getD {}

theorem viewDoc_eq_recordOf (h : ∃ record, (d.viewDoc view).run = some (.ok record)) :
    (d.viewDoc view).run = some (.ok (d.recordOf view)) := by
  obtain ⟨record, h⟩ := h
  rw [recordOf, h]
  rfl

/-- The records of a route whose views can be documented. -/
def routeRecords (d : Documenter) (es : List Endpoint) : RouteDoc :=
  filed d.labelOf (fun e => d.recordOf e.view) (d.visible es)

theorem routeDoc_eq_foldlM (es : List Endpoint) :
    d.routeDoc es = (d.visible es).foldlM (fun (views : RouteDoc) e => do
      return views.insert (d.labelOf e) (← d.viewDoc e.view)) ∅ := by
  simp only [routeDoc, label_documentedMethods]
  generalize (∅ : RouteDoc) = views
  induction es generalizing views with
  | nil => rfl
  | cons e es ih =>
    rw [List.foldlM_cons]
    by_cases hh : d.Hides e.view
    · rw [visible_cons_of_hides hh, if_pos (skips_iff_hides.2 hh)]
      exact ih views
    · rw [visible_cons hh, List.foldlM_cons, if_neg (mt skips_iff_hides.1 hh)]
      simp only [bind_assoc, pure_bind, ih]

theorem routeRecords_visible (es : List Endpoint) : d.routeRecords (d.visible es) = d.routeRecords es := by
  rw [routeRecords, routeRecords, visible_visible]

theorem getElem?_routeRecords {before after : List Endpoint} (hh : ¬ d.Hides e.view)
    (hafter : ∀ e' ∈ after, ¬ d.Hides e'.view → d.labelOf e' ≠ d.labelOf e) :
    (d.routeRecords (before ++ e :: after))[d.labelOf e]? = some (d.recordOf e.view) := by
  -- `e` is the last with its label among the endpoints that are left, too
  rw [routeRecords, visible_append_cons hh]
  refine getElem?_filed fun e' he' => ?_
  obtain ⟨hmem, hh'⟩ := mem_visible.1 he'
  exact hafter e' hmem hh'

theorem routeDoc_visible (es : List Endpoint) : d.routeDoc (d.visible es) = d.routeDoc es := by
  rw [routeDoc_eq_foldlM, visible_visible, ← routeDoc_eq_foldlM]

theorem routeDoc_eq_ok {views : RouteDoc} (h : (d.routeDoc es).run = some (.ok views)) :
    views = d.routeRecords es ∧ ∀ e ∈ d.visible es, d.Records e.view (d.recordOf e.view) := by
  rw [routeDoc_eq_foldlM] at h
  have hrecords := fun e he => viewDoc_eq_recordOf (exists_ok_of_foldlM h e he)
  refine ⟨?_, fun e he => viewDoc_eq_ok_iff.1 (hrecords e he)⟩
  rw [run_foldlM_of_forall_ok hrecords] at h
  exact (Except.ok.inj (Option.some.inj h)).symm

theorem routeDoc_of_records (h : ∀ e ∈ d.visible es, ∃ record, d.Records e.view record) :
    (d.routeDoc es).run = some (.ok (d.routeRecords es)) := by
  rw [routeDoc_eq_foldlM]
  refine run_foldlM_of_forall_ok fun e he => viewDoc_eq_recordOf ?_
  obtain ⟨record, hrecord⟩ := h e he
  exact ⟨record, viewDoc_eq_ok_iff.2 hrecord⟩

/-! ### All routes -/

/-- The groups with an endpoint that is not hidden, without the hidden ones. -/
def visibleGroups (d : Documenter) (gs : List (String × List Endpoint)) : List (String × List Endpoint) :=
  (gs.map fun g => (g.1, d.visible g.2)).filter fun g => !g.2.isEmpty

theorem visibleGroups_cons (g : String × List Endpoint) (gs : List (String × List Endpoint)) :
    d.visibleGroups (g :: gs) =
      if d.visible g.2 = [] then d.visibleGroups gs else (g.1, d.visible g.2) :: d.visibleGroups gs := by
  unfold visibleGroups
  rw [List.map_cons, List.filter_cons]
  cases d.visible g.2 <;> rfl

theorem mem_visibleGroups {gs : List (String × List Endpoint)} {g : String × List Endpoint} :
    g ∈ d.visibleGroups gs ↔ ∃ es, (g.1, es) ∈ gs ∧ d.visible es = g.2 ∧ d.visible es ≠ [] := by
  rw [visibleGroups, List.mem_filter, List.mem_map]
  constructor
  · rintro ⟨⟨⟨route, es⟩, hmem, rfl⟩, hne⟩
    exact ⟨es, hmem, rfl, by simpa using hne⟩
  · rintro ⟨es, hmem, hes, hne⟩
    exact ⟨⟨(g.1, es), hmem, Prod.ext rfl hes⟩, by simpa [← hes] using hne⟩

theorem nodup_visibleGroups {gs : List (String × List Endpoint)} (hd : (gs.map Prod.fst).Nodup) :
    ((d.visibleGroups gs).map Prod.fst).Nodup := by
  have hfst : (gs.map fun g => (g.1, d.visible g.2)).map Prod.fst = gs.map Prod.fst := by
    rw [List.map_map]
    rfl
  exact (hfst ▸ hd).sublist (List.filter_sublist.map Prod.fst)

/-- Hidden endpoints do not count, and neither do routes that have no others. -/
theorem ofEndpoints_eq_foldlM (m : EndpointMap) :
    d.ofEndpoints m = (d.visibleGroups m.groups).foldlM (fun (doc : Documentation) g => do
      return doc.insert g.1 (← d.routeDoc g.2)) .empty := by
  rw [ofEndpoints]
  generalize Documentation.empty = doc
  induction m.groups generalizing doc with
  | nil => rfl
  | cons g gs ih =>
    rw [List.foldlM_cons, visibleGroups_cons]
    by_cases hv : d.visible g.2 = []
    · -- all of the group are hidden, and without a view its route is not put in
      have hnone : d.routeDoc g.2 = pure ∅ := by
        rw [routeDoc_eq_foldlM, hv]
        rfl
      rw [if_pos hv]
      simp only [hnone, pure_bind]
      exact ih doc
    · rw [if_neg hv, List.foldlM_cons, routeDoc_visible]
      simp only [bind_assoc, pure_bind]
      refine bind_congr_of_ok fun views hviews => ?_
      -- the group has a view at least, so that its route is put in
      have hne : views.isEmpty = false := by
        rw [(routeDoc_eq_ok hviews).1, Bool.eq_false_iff]
        exact mt isEmpty_filed.1 hv
      rw [hne]
      exact ih _

theorem ofEndpoints_eq_ok {doc : Documentation} (h : (d.ofEndpoints m).run = some (.ok doc)) :
    doc.byRoute = filed Prod.fst (fun g => d.routeRecords g.2) (d.visibleGroups m.groups) ∧
      ∀ g ∈ d.visibleGroups m.groups, ∀ e ∈ d.visible g.2, d.Records e.view (d.recordOf e.view) := by
  rw [ofEndpoints_eq_foldlM] at h
  have hviews : ∀ g ∈ d.visibleGroups m.groups, (d.routeDoc g.2).run = some (.ok (d.routeRecords g.2)) := by
    intro g hg
    obtain ⟨views, hv⟩ := exists_ok_of_foldlM h g hg
    exact (routeDoc_eq_ok hv).1 ▸ hv
  refine ⟨?_, fun g hg => (routeDoc_eq_ok (hviews g hg)).2⟩
  rw [run_foldlM_of_forall_ok hviews] at h
  obtain rfl := Except.ok.inj (Option.some.inj h)
  exact (List.foldl_hom Documentation.byRoute fun _ _ => rfl).symm

theorem ofEndpoints_ok_iff :
    (∃ doc, (d.ofEndpoints m).run = some (.ok doc)) ↔
      ∀ g ∈ m.groups, ∀ e ∈ g.2, ¬ d.Hides e.view → ∃ record, d.Records e.view record := by
  constructor
  · rintro ⟨doc, hdoc⟩ g hg e he hh
    have hvisible := mem_visible.2 ⟨he, hh⟩
    have hgroup : (g.1, d.visible g.2) ∈ d.visibleGroups m.groups :=
      mem_visibleGroups.2 ⟨g.2, hg, rfl, List.ne_nil_of_mem hvisible⟩
    exact ⟨_, (ofEndpoints_eq_ok hdoc).2 _ hgroup e (mem_visible.2 ⟨hvisible, hh⟩)⟩
  · intro h
    rw [ofEndpoints_eq_foldlM]
    refine ⟨_, run_foldlM_of_forall_ok fun g hg => routeDoc_of_records fun e he => ?_⟩
    obtain ⟨es, hes, hvisible, -⟩ := mem_visibleGroups.1 hg
    obtain ⟨hmem, hh⟩ := mem_visible.1 he
    exact h _ hes e (mem_visible.1 (hvisible ▸ hmem)).1 hh

theorem route?_eq_some_iff (hm : m.Coherent) {doc : Documentation} (h : (d.ofEndpoints m).run = some (.ok doc))
    {route : String} {views : RouteDoc} :
    doc.route? route = some views ↔
      ∃ es, (route, es) ∈ m.groups ∧ d.visible es ≠ [] ∧ d.routeRecords es = views := by
  rw [Documentation.route?, (ofEndpoints_eq_ok h).1,
    getElem?_filed_eq_some_iff (nodup_visibleGroups hm.positions.nodup)]
  constructor
  · rintro ⟨g, hg, rfl, rfl⟩
    obtain ⟨es, hes, hvisible, hne⟩ := mem_visibleGroups.1 hg
    exact ⟨es, hes, hne, hvisible ▸ (routeRecords_visible es).symm⟩
  · rintro ⟨es, hes, hne, rfl⟩
    exact ⟨(route, d.visible es), mem_visibleGroups.2 ⟨es, hes, rfl, hne⟩, rfl, routeRecords_visible es⟩

theorem visible_ne_nil_iff : d.visible es ≠ [] ↔ ∃ e ∈ es, ¬ d.Hides e.view := by
  simp only [← mem_visible]
  exact ⟨List.exists_mem_of_ne_nil _, fun ⟨_, he⟩ => List.ne_nil_of_mem he⟩

theorem mem_routes_iff {doc : Documentation} {route : String} :
    route ∈ doc.routes ↔ ∃ views, doc.route? route = some views := by
  rw [Documentation.routes, Std.ExtTreeMap.mem_keys, Std.ExtTreeMap.mem_iff_isSome_getElem?,
    Option.isSome_iff_exists]
  rfl

theorem describes_of_ofEndpoints (hm : m.Coherent) {doc : Documentation} (h : (d.ofEndpoints m).run = some (.ok doc)) :
    d.Describes m doc where
  routes route := by
    rw [mem_routes_iff]
    simp only [route?_eq_some_iff hm h, visible_ne_nil_iff]
    constructor
    · rintro ⟨_, es, hes, he, rfl⟩
      exact ⟨es, hes, he⟩
    · rintro ⟨es, hes, he⟩
      exact ⟨_, es, hes, he, rfl⟩
  labels route label := by
    simp only [Documentation.view?, Option.bind_eq_some_iff, route?_eq_some_iff hm h]
    constructor
    · rintro ⟨record, _, ⟨es, hes, -, rfl⟩, hrecord⟩
      obtain ⟨e, he, hlabel⟩ := (exists_filed_iff _).1 ⟨record, hrecord⟩
      obtain ⟨hmem, hh⟩ := mem_visible.1 he
      exact ⟨es, hes, e, hmem, hh, hlabel⟩
    · rintro ⟨es, hes, e, he, hh, hlabel⟩
      have hvisible := mem_visible.2 ⟨he, hh⟩
      obtain ⟨record, hrecord⟩ := (exists_filed_iff fun e => d.recordOf e.view).2 ⟨e, hvisible, hlabel⟩
      exact ⟨record, _, ⟨es, hes, List.ne_nil_of_mem hvisible, rfl⟩, hrecord⟩
  records route before e after hes hh hafter := by
    have hmem : e ∈ d.visible (before ++ e :: after) := mem_visible.2 ⟨by simp, hh⟩
    have hne := List.ne_nil_of_mem hmem
    refine ⟨d.recordOf e.view, ?_, ?_⟩
    · have hroute := (route?_eq_some_iff hm h).2 ⟨_, hes, hne, rfl⟩
      rw [Documentation.view?, hroute, Option.bind_some]
      exact getElem?_routeRecords hh hafter
    · have hgroup : (route, d.visible (before ++ e :: after)) ∈ d.visibleGroups m.groups :=
        mem_visibleGroups.2 ⟨_, hes, rfl, hne⟩
      exact (ofEndpoints_eq_ok h).2 _ hgroup e (mem_visible.2 ⟨hmem, hh⟩)

/-! ### Without the hidden endpoints -/

theorem visibleGroups_visibleGroups (gs : List (String × List Endpoint)) :
    d.visibleGroups (d.visibleGroups gs) = d.visibleGroups gs := by
  induction gs with
  | nil => rfl
  | cons g gs ih =>
    rw [visibleGroups_cons]
    split
    · exact ih
    · rw [visibleGroups_cons, visible_visible, if_neg ‹_›, ih]

theorem flatMap_visibleGroups (gs : List (String × List Endpoint)) :
    (d.visibleGroups gs).flatMap Prod.snd = d.visible (gs.flatMap Prod.snd) := by
  induction gs with
  | nil => rfl
  | cons g gs ih =>
    have happend : d.visible (g.2 ++ gs.flatMap Prod.snd) = d.visible g.2 ++ d.visible (gs.flatMap Prod.snd) :=
      List.filter_append ..
    rw [visibleGroups_cons, List.flatMap_cons, happend, ← ih]
    split
    · rename_i hv
      rw [hv, List.nil_append]
    · rw [List.flatMap_cons]

theorem withoutHidden_groups (hm : m.Coherent) : (d.withoutHidden m).groups = d.visibleGroups m.groups := by
  rw [withoutHidden, EndpointMap.toList, ← flatMap_visibleGroups]
  refine EndpointMap.groups_ofList_flatMap (nodup_visibleGroups hm.positions.nodup) fun g hg => ?_
  obtain ⟨es, hes, hvisible, hne⟩ := mem_visibleGroups.1 hg
  exact ⟨hvisible ▸ hne, fun e he => hm.route_eq _ hes e (mem_visible.1 (hvisible ▸ he)).1⟩

theorem ofEndpoints_withoutHidden (hm : m.Coherent) : d.ofEndpoints (d.withoutHidden m) = d.ofEndpoints m := by
  rw [ofEndpoints_eq_foldlM, withoutHidden_groups hm, visibleGroups_visibleGroups, ← ofEndpoints_eq_foldlM]

/-- Documentation says of every endpoint that is not hidden what is to be said, if there is something to be
said of each. Hidden ones make no difference, not even to what goes wrong. -/
theorem ofEndpoints_describes (d : Documenter) (hm : m.Built) :
    ((∃ doc, (d.ofEndpoints m).run = some (.ok doc)) ↔
        ∀ g ∈ m.groups, ∀ e ∈ g.2, ¬ d.Hides e.view → ∃ record, d.Records e.view record) ∧
      (∀ doc, (d.ofEndpoints m).run = some (.ok doc) → d.Describes m doc) ∧
      (d.withoutHidden m).groups =
        (m.groups.map fun g => (g.1, g.2.filter fun e => ¬ d.Hides e.view)).filter (fun g => !g.2.isEmpty) ∧
      d.ofEndpoints (d.withoutHidden m) = d.ofEndpoints m := by
  have h := EndpointMap.built_iff_coherent.1 hm
  exact ⟨ofEndpoints_ok_iff, fun _ => describes_of_ofEndpoints h, withoutHidden_groups h,
    ofEndpoints_withoutHidden h⟩

/-- On `/a` one view takes the place of another, and that it is supplied with the only thing that it requires
goes without saying. The hidden view has no text, which does not matter, and on `/b` there is no other. -/
theorem describes_hidden_views :
    let internal : Kind := ⟨⟨4, "Internal"⟩, Kind.apiView.lineage⟩
    let d := (default : Documenter).skipping Kind.apiView
    let old : Handler := { serial := 0, name := "old", call := fun _ => "", description := some "Old." }
    let new : Handler :=
      { serial := 1, name := "new", call := fun _ => "", suppliedNames := ["user"]
        io.required := some (.map [("user", .value "User")])
        io.optional := some (.text "page")
        io.returns := some (.list []) }
    let secret : Handler :=
      { serial := 2, name := "secret", call := fun _ => "", kind := internal
        io.unlimited := some (.value "Key") }
    let m := EndpointMap.ofList
      [⟨"/b", secret, {}⟩, ⟨"/a", old, {}⟩, ⟨"/a", new, { methods := some ⟨[]⟩ }⟩, ⟨"/a", secret, {}⟩]
    m.Built ∧ ∃ doc, (d.ofEndpoints m).run = some (.ok doc) ∧ d.Describes m doc ∧
      (∀ route, route ∈ doc.routes ↔ route = "/a") ∧
      doc.view? "/a" "GET, POST, PUT, DELETE, HEAD" = some { description := "", optional := some "page" } ∧
      (d.ofEndpoints (d.withoutHidden m)).run = some (.ok doc) := by
  intro internal d old new secret m
  have hm : m.Built := EndpointMap.built_ofList _
  have hgroups : m.groups = [("/b", [⟨"/b", secret, {}⟩]),
      ("/a", [⟨"/a", old, {}⟩, ⟨"/a", new, { methods := some ⟨[]⟩ }⟩, ⟨"/a", secret, {}⟩])] := by
    rw [(EndpointMap.groups_ofList _).groups]
    simp [routesOf, atRoute, List.eraseDups_cons]
  have hold : ¬ d.Hides old := mt skips_iff_hides.2 (by rintro ⟨⟩)
  have hnew : ¬ d.Hides new := mt skips_iff_hides.2 (by rintro ⟨⟩)
  have hsecret : d.Hides secret := skips_iff_hides.1 rfl
  have holdRecord : d.Records old { description := "Old." } := ⟨rfl, shows_none, shows_none, shows_none, shows_none⟩
  have hpage : d.Shows (some (.text "page")) (some "page") :=
    ⟨_, rfl, by simp [DocValue.Blank], valueText_of_value (w := .text "page") rfl⟩
  have hmap : d.Shows (some (.map [])) none := shows_none_of_blank (by simp [DocValue.Blank])
  have hlist : d.Shows (some (.list [])) none := shows_none_of_blank (by simp [DocValue.Blank])
  have hnewRecord : d.Records new { description := "", optional := some "page" } :=
    ⟨rfl, hmap, hpage, shows_none, hlist⟩
  obtain ⟨hok, hdescribes, -, hwithout⟩ := ofEndpoints_describes d hm
  obtain ⟨doc, hdoc⟩ : ∃ doc, (d.ofEndpoints m).run = some (.ok doc) := by
    have hrecords : (∃ record, d.Records old record) ∧ ∃ record, d.Records new record :=
      ⟨⟨_, holdRecord⟩, ⟨_, hnewRecord⟩⟩
    rw [hok, hgroups]
    simpa [hsecret, hold, hnew] using hrecords
  have hd := hdescribes doc hdoc
  refine ⟨hm, doc, hdoc, hd, fun route => ?_, ?_, hwithout ▸ hdoc⟩
  · rw [hd.routes, hgroups]
    constructor
    · rintro ⟨es, hes, e, he, hh⟩
      rcases List.mem_cons.1 hes with hes | hes
      · obtain ⟨-, rfl⟩ := Prod.mk.inj hes
        rw [List.mem_singleton.1 he] at hh
        exact absurd hsecret hh
      · exact (Prod.mk.inj (List.mem_singleton.1 hes)).1
    · rintro rfl
      exact ⟨_, List.mem_cons_of_mem _ (List.mem_singleton_self _), _, List.mem_cons_self .., hold⟩
  · obtain ⟨record, hview, hrecord⟩ := hd.records "/a" [⟨"/a", old, {}⟩]
      ⟨"/a", new, { methods := some ⟨[]⟩ }⟩ [⟨"/a", secret, {}⟩] (by simp [hgroups]) hnew (by simp [hsecret])
    rw [hrecord.unique hnewRecord] at hview
    exact hview

end Documenter

end RouteTree
