import RouteTree.Proofs.Piecewise
import Mathlib

/-!
# Serving the documentation on a registry

The two views of a documentation are the group of one route. They have the same methods, but only one of them has
something to accept, whatever that is, hence they do not collide with each other; and on a route that is not there
yet they meet no other view. So nothing can go wrong but the documentation itself, which is made before the registry
is called (`Documenter.registerViews_after`).
-/

namespace RouteTree
open Registry (Call after)

namespace Documenter
variable {σ : Type} {d : Documenter} {t : Tree} {table : Registry} {doc : Documentation} {path : String} {serial : Nat}

/-- Two views, of which one answers every request with the outline and the other one with JSON. -/
structure Serves (d : Documenter) (doc : Documentation) (outline json : ViewEntry) : Prop where
  outlineOptions : outline.options = { methods := some ⟨["GET"]⟩ }
  outlineText : ∀ args, outline.view.call args = doc.outlineText
  jsonOptions : json.options =
    { methods := some ⟨["GET"]⟩
      accept := some d.settings.documentation.jsonAccept
      renderer := some d.settings.documentation.jsonRenderer }
  jsonText : ∀ args, json.view.call args = doc.jsonText

/-- The views that are served as a group of endpoints. -/
def served (d : Documenter) (path : String) (serial : Nat) (doc : Documentation) : String × List Endpoint :=
  (path, [⟨path, d.outlineView serial doc, outlineOptions⟩,
    ⟨path, d.jsonView (serial + 1) doc, jsonOptions d.settings.documentation⟩])

theorem serves_served (d : Documenter) (path : String) (serial : Nat) (doc : Documentation) :
    ∃ outline json, d.Serves doc outline json ∧ (d.served path serial doc).2.map Endpoint.entry = [outline, json] :=
  ⟨_, _, ⟨rfl, fun _ => rfl, rfl, fun _ => rfl⟩, rfl⟩

theorem Serves.nodup_signatures {outline json : ViewEntry} (h : d.Serves doc outline json) :
    (Registry.signatures [outline, json]).Nodup := by
  have hne : outline.options.signature ≠ json.options.signature := by
    intro heq
    have haccept := congrArg Signature.accept heq
    simp [ViewOptions.signature, h.outlineOptions, h.jsonOptions] at haccept
  simpa [Registry.signatures] using hne

theorem perform_served (ht : table.Sound) (hpath : path ∉ table.names) (serial : Nat) (doc : Documentation) :
    Registry.router.perform (groupCalls (d.served path serial doc)) table =
      .ok () (table.grow (d.served path serial doc)) := by
  obtain ⟨outline, json, hserves, hentries⟩ := d.serves_served path serial doc
  refine ht.perform_groupCalls ((Registry.forall_not_clashes_iff (ht.nodup_signatures path)).2 ?_)
  rw [ht.views_unknown hpath]
  exact hentries ▸ hserves.nodup_signatures

/-- At a new path all depends on what becomes of the documentation. -/
theorem registerViews_on (ht : table.Sound) (hpath : path ∉ table.names) :
    ((d.registerViews Registry.router t path serial).map fun service => service table) =
      (d.document t).run.map fun
        | .ok doc => .ok () (table.grow (d.served path serial doc))
        | .error err => .error err table := by
  cases hdoc : (d.document t).run with
  | none => rw [registerViews_of_endless hdoc]; rfl
  | some result =>
    rw [registerViews_of_run hdoc]
    cases result with
    | error err => rfl
    | ok doc => exact congrArg some (Service.ofRouter_eq_ok_iff.2 (perform_served ht hpath serial doc))

/-- Serving the documentation of a tree at a new path succeeds if there is a documentation. Then the registry has one
route more, with the two views, and otherwise it is as it was. It comes to an end if the documentation does. -/
theorem registerViews_after (calls : List Call) (d : Documenter) (t : Tree) (path : String) (serial : Nat)
    (hpath : path ∉ (after calls).names) :
    let table := after calls
    let outcome := (d.registerViews Registry.router t path serial).map fun service => service table
    ((∃ table', outcome = some (.ok () table')) ↔ ∃ doc, (d.document t).run = some (.ok doc)) ∧
      (∀ table', outcome = some (.ok () table') → ∃ doc outline json,
        (d.document t).run = some (.ok doc) ∧ d.Serves doc outline json ∧
        table'.routes = table.routes ++ [⟨path, path, [outline, json]⟩] ∧
        ∀ name, table'.route? name =
          if name = path then some ⟨path, path, [outline, json]⟩ else table.route? name) ∧
      (∀ err table', outcome = some (.error err table') → (d.document t).run = some (.error err) ∧ table' = table) ∧
      (outcome = none ↔ (d.document t).run = none) := by
  intro table outcome
  have ht : table.Sound := Registry.sound_after calls
  have houtcome : outcome = _ := registerViews_on ht hpath
  rw [houtcome]
  cases (d.document t).run with
  | none => simp
  | some result =>
    cases result with
    | error err => simp [eq_comm]
    | ok doc =>
      obtain ⟨outline, json, hserves, hentries⟩ := d.serves_served path serial doc
      have hnew : (d.served path serial doc).1 ∉ table.names := hpath
      refine ⟨iff_of_true ⟨_, rfl⟩ ⟨_, rfl⟩, ?_, nofun, by simp⟩
      rintro table' ⟨⟩
      refine ⟨doc, outline, json, rfl, hserves, ?_, ?_⟩
      · rw [ht.grow_routes, if_neg hnew, Registry.joined_cons, if_pos rfl, List.nil_append, hentries]
        rfl
      · intro name
        rw [ht.route?_grow, ht.views_unknown hnew, List.nil_append, hentries]
        rfl

/-- Not even with an empty media type do the views collide. Users are replaced by larger and larger values, but not for
ever. A documentation that cannot be made leaves the registry as it is. -/
theorem registerViews_after_empty_media_type :
    let view : Handler := { serial := 0, name := "view", call := fun _ => "", io.returns := some (.type "User") }
    let mute : Handler := { serial := 1, name := "mute", call := fun _ => "", io.returns := some (.value "Key") }
    let d : Documenter :=
      { settings.documentation.jsonAccept := "", settings.documentation.jsonRenderer := ""
        transform := some fun
          | .type "User" => .map [("address", .type "Address")]
          | .type "Address" => .map [("place", .map [("lat", .type "float"), ("lon", .type "float")])]
          | v => v }
    let calls : List Call := [.addRoute "/x" "/old", .addView "/x" view { methods := some .get }]
    let served (handler : Handler) :=
      (d.registerViews Registry.router (.mapping [(.path "/a", .leaf handler)]) "/x/doc" 2).map
        fun service => service (after calls)
    (∃ table', served view = some (.ok () table') ∧
      table'.names = ["/x", "/x/doc"] ∧ table'.views "/x" = (after calls).views "/x" ∧
      (table'.views "/x/doc").map (fun v => (v.options.accept, v.options.renderer)) =
        [(none, none), (some "", some "")]) ∧
    ∃ err, served mute = some (.error err (after calls)) := by
  intro view mute d calls served
  have hpath : "/x/doc" ∉ (after calls).names := by decide
  constructor
  · obtain ⟨hok, hserved, -⟩ := registerViews_after calls d (.mapping [(.path "/a", .leaf view)]) "/x/doc" 2 hpath
    have hdoc : ∃ doc, (d.document (.mapping [(.path "/a", .leaf view)])).run = some (.ok doc) := by
      have hsome : (d.document (.mapping [(.path "/a", .leaf view)])).run.any Except.isOk = true := by
        set_option maxRecDepth 1000 in cbv
      obtain ⟨outcome, houtcome, hokay⟩ := Option.any_eq_true _ _ |>.1 hsome
      cases outcome with
      | error err => cases hokay
      | ok doc => exact ⟨doc, houtcome⟩
    obtain ⟨table', htable'⟩ := hok.2 hdoc
    obtain ⟨doc, outline, json, -, hserves, hroutes, hroute⟩ := hserved table' htable'
    refine ⟨table', htable', ?_, ?_, ?_⟩
    · rw [Registry.names, hroutes, List.map_append]
      rfl
    · rw [Registry.views, hroute, if_neg (by decide), Registry.views]
    · rw [Registry.views, hroute, if_pos rfl]
      simp [hserves.outlineOptions, hserves.jsonOptions, d]
  · obtain ⟨hok, -, herror, hendless⟩ :=
      registerViews_after calls d (.mapping [(.path "/a", .leaf mute)]) "/x/doc" 2 hpath
    have hdoc : (d.document (.mapping [(.path "/a", .leaf mute)])).run = some (.error (.text (.noText "Key"))) := by
      cbv
    cases houtcome : served mute with
    | none =>
      rw [hendless.1 houtcome] at hdoc
      cases hdoc
    | some outcome =>
      cases outcome with
      | ok u table' =>
        obtain ⟨doc, hdoc'⟩ := hok.1 ⟨table', houtcome⟩
        cases hdoc.symm.trans hdoc'
      | error err table' =>
        obtain ⟨-, rfl⟩ := herror err table' houtcome
        exact ⟨err, rfl⟩

end Documenter

end RouteTree
