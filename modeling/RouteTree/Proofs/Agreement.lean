import RouteTree.Proofs.ByteOrder
import RouteTree.Proofs.Documenting
import RouteTree.Proofs.Guarding
import Mathlib

/-!
# Registration and documentation agree

A tree is flattened once to be registered and once to be documented. With the same settings both begin with
the same groups, from which the registry keeps a list of views in their order, and the documentation a map
that is sorted and shows the last view of each label. `Documenter.Matches` says how the two are related where
no kind is skipped: the groups can be told from the registry (`groups_eq_endpoints`), and the documentation
describes them.
-/

namespace RouteTree

/-- `doc` documents the views in `table`, under the labels of `d`. -/
structure Documenter.Matches (d : Documenter) (table : Registry) (doc : Documentation) : Prop where
  /-- The routes are in the order of their bytes, and none comes twice. -/
  sorted : doc.routes.Pairwise fun route route' => Text.bytes route < Text.bytes route'
  /-- They are the routes of the registry. -/
  routes : doc.routes.Perm table.names
  /-- Every view is documented under its label. -/
  labels : ∀ r ∈ table.routes, ∀ e ∈ r.endpoints, ∃ record, doc.view? r.name (d.labelOf e) = some record
  /-- Everything documented is said of a view, the last one of its route that has the label. -/
  records : ∀ route label record, doc.view? route label = some record →
    ∃ r ∈ table.routes, r.name = route ∧ ∃ before e after, r.endpoints = before ++ e :: after ∧
      d.labelOf e = label ∧ (∀ e' ∈ after, d.labelOf e' ≠ label) ∧ d.Records e.view record

theorem Documentation.routes_sorted (doc : Documentation) :
    doc.routes.Pairwise fun route route' => Text.bytes route < Text.bytes route' :=
  Std.ExtTreeMap.ordered_keys.imp fun h => Text.bytes_lt_iff.2 (compare_lt_iff_lt.1 h)

theorem Documentation.routes_nodup (doc : Documentation) : doc.routes.Nodup := by
  refine doc.routes_sorted.imp fun hlt heq => ?_
  subst heq
  exact List.lt_irrefl _ hlt

namespace Documenter
variable {d : Documenter} {t : Tree} {table : Registry} {doc : Documentation} {m : EndpointMap}

theorem document_eq_ok_iff :
    (d.document t).run = some (.ok doc) ↔
      ∃ m, d.settings.endpoints t "" = .ok m ∧ (d.ofEndpoints m).run = some (.ok doc) := by
  rw [document]
  cases d.settings.endpoints t "" with
  | error e => simp
  | ok m =>
    have hrun : ((d.ofEndpoints m).adapt ServiceError.text).run = (d.ofEndpoints m).run.map (.mapError .text) := rfl
    rw [hrun]
    cases hm : (d.ofEndpoints m).run with
    | none => simp [hm]
    | some outcome => cases outcome <;> simp [Except.mapError, hm]

theorem not_hides (hskip : d.skippedKinds = []) (view : Handler) : ¬ d.Hides view := by
  rintro ⟨kind, hk, -⟩
  rw [hskip] at hk
  cases hk

/-- What describes the groups of the registry matches it. -/
theorem Describes.matches (hskip : d.skippedKinds = []) (h : d.Describes m doc) (hm : m.Coherent)
    (hgroups : m.groups = table.routes.map fun r => (r.name, r.endpoints)) : d.Matches table doc := by
  have hmem : ∀ {route es}, (route, es) ∈ m.groups ↔ ∃ r ∈ table.routes, r.name = route ∧ r.endpoints = es := by
    intro route es
    rw [hgroups, List.mem_map]
    simp only [Prod.mk.injEq]
  have hnames : table.names = m.routes := by
    rw [EndpointMap.routes, hgroups, List.map_map]
    rfl
  refine ⟨doc.routes_sorted, ?_, fun r hr e he => ?_, fun route label record hview => ?_⟩
  · rw [hnames, List.perm_ext_iff_of_nodup doc.routes_nodup hm.positions.nodup]
    intro route
    rw [h.routes, EndpointMap.routes, List.mem_map]
    constructor
    · rintro ⟨es, hes, -⟩
      exact ⟨(route, es), hes, rfl⟩
    · rintro ⟨g, hg, rfl⟩
      -- a group is not empty, and none of its endpoints is hidden
      obtain ⟨e, he⟩ := List.exists_mem_of_ne_nil _ (hm.nonempty g hg)
      exact ⟨g.2, hg, e, he, not_hides hskip e.view⟩
  · exact (h.labels _ _).2 ⟨r.endpoints, hmem.2 ⟨r, hr, rfl, rfl⟩, e, he, not_hides hskip e.view, rfl⟩
  · obtain ⟨es, hes, e, he, -, rfl⟩ := (h.labels _ _).1 ⟨record, hview⟩
    obtain ⟨r, hr, rfl, rfl⟩ := hmem.1 hes
    obtain ⟨before, last, after, hsplit, hlabel, hafter⟩ := exists_last he d.labelOf
    rw [← hlabel] at hview hafter
    obtain ⟨record', hview', hrecords⟩ := h.records r.name before last after (hsplit ▸ hes)
      (not_hides hskip last.view) fun e' he' _ => hafter e' he'
    obtain rfl : record = record' := Option.some.inj (hview.symm.trans hview')
    exact ⟨r, hr, rfl, before, last, after, hsplit, hlabel, hlabel ▸ hafter, hrecords⟩

/-- Where a tree is registered on an empty registry and documented, with one settings and without skipping
kinds, the documentation matches the registry. -/
theorem document_matches (hskip : d.skippedKinds = [])
    (hr : d.settings.registerTree Registry.router t "" .empty = .ok () table)
    (hd : (d.document t).run = some (.ok doc)) :
    d.Matches table doc := by
  obtain ⟨m, hm, -, hroutes⟩ := exists_groups_of_registerTree hr
  obtain ⟨m', hm', hdoc⟩ := document_eq_ok_iff.1 hd
  obtain rfl : m = m' := Except.ok.inj (hm.symm.trans hm')
  have hcoherent := (Settings.groups_of_endpoints hm).coherent
  exact (describes_of_ofEndpoints hcoherent hdoc).matches hskip hcoherent (groups_eq_endpoints hm hroutes)

/-- On `/b` stand two views, and the route that comes first by its bytes stands last. -/
def turnedTree (old new : Handler) : Tree := .mapping
  [(.path "/b", .sequence [.leaf old, .leaf new]), (.path "/a", .leaf old)]

/-- No methods and an empty list of them make two views, but have one label. -/
theorem document_matches_turnedTree :
    let old : Handler := { serial := 0, name := "old", call := fun _ => "", description := some "Old." }
    let new : Handler :=
      { serial := 1, name := "new", call := fun _ => "", options := some { methods := some ⟨[]⟩ }
        description := some "New.", io.returns := some (.text "page") }
    let d : Documenter := {}
    ∃ table doc, d.settings.registerTree Registry.router (turnedTree old new) "" .empty = .ok () table ∧
      (d.document (turnedTree old new)).run = some (.ok doc) ∧ d.Matches table doc ∧
      table.names = ["/b", "/a"] ∧ doc.routes = ["/a", "/b"] ∧
      doc.view? "/b" "GET, POST, PUT, DELETE, HEAD" = some { description := "New.", returns := some "page" } := by
  intro old new d
  have hr : ∃ table, d.settings.registerTree Registry.router (turnedTree old new) "" .empty = .ok () table ∧
      table.names = ["/b", "/a"] := by
    refine ⟨?table, ?registered, ?names⟩
    case registered => cbv; rfl
    case names => rfl
  have hd : ∃ doc, (d.document (turnedTree old new)).run = some (.ok doc) ∧ doc.routes = ["/a", "/b"] ∧
      doc.view? "/b" "GET, POST, PUT, DELETE, HEAD" = some { description := "New.", returns := some "page" } := by
    refine ⟨?doc, ?documented, ?routes, ?view⟩
    case documented => cbv; rfl
    case routes => rfl
    case view => rfl
  obtain ⟨table, hr, hnames⟩ := hr
  obtain ⟨doc, hd, hroutes, hview⟩ := hd
  exact ⟨table, doc, hr, hd, document_matches rfl hr hd, hnames, hroutes, hview⟩

end Documenter

end RouteTree
