import RouteTree.Proofs.Documenting

/-!
# Labels that tell methods apart

Views are documented under labels, and of several views with one label the last one stays. No view is lost if their
methods can be told from the labels. Tokens that are not empty and have no comma can be read back: cut at its commas, a
label falls into the first token and the others, each behind a blank (`Methods.splitOn_label`). So different lists of
such tokens have different labels (`Methods.label_injective`), and every view keeps its place
(`Documenter.ofEndpoints_keeps_views`).
-/

namespace RouteTree

namespace Methods
variable {m m' : Methods}

/-- The tokens can be told apart in a label: none is empty, and none has a comma. -/
def Separable (m : Methods) : Prop := ∀ token ∈ m.tokens, token ≠ "" ∧ ',' ∉ token.toList

instance : Decidable m.Separable := inferInstanceAs (Decidable (∀ token ∈ m.tokens, _))

/-- What a label with these tokens falls into at its commas. -/
def pieces : List String → List (List Char)
  | [] => [[]]
  | token :: tokens => token.toList :: tokens.map fun token => ' ' :: token.toList

theorem toList_label (token : String) (tokens : List String) :
    (label ⟨token :: tokens⟩).toList = [','].intercalate (pieces (token :: tokens)) := by
  rw [label, String.toList_intercalate]
  induction tokens generalizing token with
  | nil => simp [pieces]
  | cons next tokens ih =>
    -- the blank behind a comma goes to the token that follows
    have hblank : ∀ rest : List (List Char),
        [','].intercalate ((' ' :: next.toList) :: rest) = ' ' :: [','].intercalate (next.toList :: rest) := by
      intro rest
      cases rest <;> simp
    have hnext := ih next
    simp only [pieces, List.map_cons] at hnext ⊢
    rw [List.intercalate_cons_cons, List.intercalate_cons_cons, hblank, hnext, List.append_assoc, List.append_assoc]
    rfl

theorem splitOn_label (h : m.Separable) : m.label.toList.splitOn ',' = pieces m.tokens := by
  obtain ⟨tokens⟩ := m
  cases tokens with
  | nil => rfl
  | cons token tokens =>
    rw [toList_label]
    refine List.splitOn_intercalate _ (fun piece hpiece => ?_) (by simp [pieces])
    rcases List.mem_cons.1 hpiece with rfl | hpiece
    · exact (h token (List.mem_cons_self ..)).2
    · obtain ⟨later, hlater, rfl⟩ := List.mem_map.1 hpiece
      simpa using (h later (List.mem_cons_of_mem _ hlater)).2

theorem eq_of_pieces_eq (h : m.Separable) (h' : m'.Separable) (hp : pieces m.tokens = pieces m'.tokens) :
    m = m' := by
  obtain ⟨tokens⟩ := m
  obtain ⟨tokens'⟩ := m'
  have hne : ∀ {token : String} {tokens : List String}, Separable ⟨token :: tokens⟩ →
      pieces [] ≠ pieces (token :: tokens) := by
    intro token tokens ht heq
    have hempty : [] = token.toList := (List.cons.inj heq).1
    exact (ht token (List.mem_cons_self ..)).1 (String.toList_eq_nil_iff.1 hempty.symm)
  cases tokens with
  | nil =>
    cases tokens' with
    | nil => rfl
    | cons token' tokens' => exact absurd hp (hne h')
  | cons token tokens =>
    cases tokens' with
    | nil => exact absurd hp.symm (hne h)
    | cons token' tokens' =>
      obtain ⟨hfirst, hothers⟩ := List.cons.inj hp
      have hinj : Function.Injective fun token : String => ' ' :: token.toList :=
        fun a b hab => String.toList_inj.1 (List.cons.inj hab).2
      rw [String.toList_inj.1 hfirst, List.map_injective_iff.2 hinj hothers]

/-- Different lists of tokens that are not empty and have no comma have different labels. -/
theorem label_injective (h : m.Separable) (h' : m'.Separable) (hlabel : m.label = m'.label) : m = m' := by
  refine eq_of_pieces_eq h h' ?_
  rw [← splitOn_label h, ← splitOn_label h', hlabel]

end Methods

/-! ### Filing without loss -/

section
variable {α β : Type} {key : α → String} {value : α → β} {xs : List α}

theorem size_filed (hd : (xs.map key).Nodup) : (filed key value xs).size = xs.length := by
  -- from the back, as the last element is filed last
  induction xs using List.reverseRecOn with
  | nil => rfl
  | append_singleton xs x ih =>
    rw [List.map_append, List.map_singleton] at hd
    obtain ⟨hxs, -, hx⟩ := List.nodup_append'.1 hd
    have hnew : (filed key value xs).contains (key x) = false := by
      rw [Bool.eq_false_iff]
      intro hc
      obtain ⟨y, hy⟩ := Option.isSome_iff_exists.1
        (Std.ExtTreeMap.mem_iff_isSome_getElem?.1 (Std.ExtTreeMap.mem_iff_contains.2 hc))
      obtain ⟨z, hz, hzx⟩ := (exists_filed_iff value).1 ⟨y, hy⟩
      exact hx (List.mem_map_of_mem hz) (hzx ▸ List.mem_singleton_self _)
    have hlast : filed key value (xs ++ [x]) = (filed key value xs).insert (key x) (value x) := by
      rw [filed, List.foldl_append]
      rfl
    rw [hlast, Std.ExtTreeMap.size_insert, hnew, ih hxs, List.length_append]
    rfl

end

namespace Documenter
variable {d : Documenter} {m : EndpointMap} {doc : Documentation} {route : String} {es : List Endpoint}

theorem nodup_labels (hdistinct : (es.map (documentedMethods d.settings.defaultMethods)).Nodup)
    (hseparable : ∀ e ∈ es, (documentedMethods d.settings.defaultMethods e).Separable) :
    (es.map d.labelOf).Nodup := by
  have hlabels : es.map d.labelOf =
      (es.map (documentedMethods d.settings.defaultMethods)).map Methods.label := by
    simp [label_documentedMethods]
  rw [hlabels]
  refine hdistinct.map_on fun m hm m' hm' => ?_
  obtain ⟨e, he, rfl⟩ := List.mem_map.1 hm
  obtain ⟨e', he', rfl⟩ := List.mem_map.1 hm'
  exact Methods.label_injective (hseparable e he) (hseparable e' he')

theorem size_route (hm : m.Coherent) (h : (d.ofEndpoints m).run = some (.ok doc)) (hes : (route, es) ∈ m.groups)
    (hd : ((d.visible es).map d.labelOf).Nodup) :
    (doc.route? route).elim 0 (·.size) = (d.visible es).length := by
  cases hroute : doc.route? route with
  | some views =>
    obtain ⟨es', hes', -, rfl⟩ := (route?_eq_some_iff hm h).1 hroute
    have hsame := List.inj_on_of_nodup_map hm.positions.nodup hes' hes rfl
    obtain rfl : es' = es := congrArg Prod.snd hsame
    exact size_filed hd
  | none =>
    cases hnil : d.visible es with
    | nil => rfl
    | cons e rest =>
      have hsome := (route?_eq_some_iff hm h).2 ⟨es, hes, by simp [hnil], rfl⟩
      rw [hroute] at hsome
      cases hsome

/-- Lists of tokens without commas have different labels if they are different. So where all views that are shown on a
route have other methods, none of them takes the place of another: there are as many records as views, and under the
label of each view is its own. -/
theorem ofEndpoints_keeps_views (hm : m.Built) (h : (d.ofEndpoints m).run = some (.ok doc))
    (hes : (route, es) ∈ m.groups)
    (hdistinct : ((d.visible es).map (documentedMethods d.settings.defaultMethods)).Nodup)
    (hseparable : ∀ e ∈ d.visible es, (documentedMethods d.settings.defaultMethods e).Separable) :
    (∀ a b : Methods, a.Separable → b.Separable → a.label = b.label → a = b) ∧
    (doc.route? route).elim 0 (·.size) = (d.visible es).length ∧
    ∀ e ∈ d.visible es, ∃ record,
      doc.view? route (documentedMethods d.settings.defaultMethods e).label = some record ∧
        d.Records e.view record := by
  have hcoherent := EndpointMap.built_iff_coherent.1 hm
  have hlabels := nodup_labels hdistinct hseparable
  refine ⟨fun a b => Methods.label_injective, size_route hcoherent h hes hlabels, fun e he => ?_⟩
  obtain ⟨hmem, hshown⟩ := mem_visible.1 he
  obtain ⟨before, after, rfl⟩ := List.append_of_mem hmem
  rw [label_documentedMethods]
  refine (describes_of_ofEndpoints hcoherent h).records route before e after hes hshown fun e' he' hshown' hsame => ?_
  rw [visible_append_cons hshown, List.map_append, List.map_cons] at hlabels
  have hlast := (List.nodup_cons.1 (List.nodup_append'.1 hlabels).2.1).1
  exact hlast (hsame ▸ List.mem_map_of_mem (mem_visible.2 ⟨he', hshown'⟩))

/-- Blanks are told apart from those behind the commas. The view without a list has the standard methods, as has another
one that is hidden. -/
theorem ofEndpoints_keeps_views_blank_token :
    let d := ({ settings.requestMethods := ["GET"] } : Documenter).skipping Kind.apiView
    let view : Handler := { serial := 0, name := "view", call := fun _ => "", description := some "A view." }
    let other : Handler := { serial := 1, name := "other", call := fun _ => "", description := some "Another view." }
    let secret : Handler := { serial := 2, name := "secret", call := fun _ => "", kind := .apiView }
    let es : List Endpoint := [
      ⟨"/x", view, { methods := some ⟨["GET", "POST"]⟩ }⟩, ⟨"/x", other, { methods := some ⟨["GET", " POST"]⟩ }⟩,
      ⟨"/x", view, {}⟩, ⟨"/x", secret, { methods := some ⟨["GET"]⟩ }⟩]
    ∃ doc, (d.ofEndpoints (.ofList es)).run = some (.ok doc) ∧ (doc.route? "/x").elim 0 (·.size) = 3 ∧
      ∃ record, doc.view? "/x" "GET,  POST" = some record ∧ d.Records other record := by
  intro d view other secret es
  have hgroups : ("/x", es) ∈ (EndpointMap.ofList es).groups := by
    rw [(EndpointMap.groups_ofList es).groups]
    simp [routesOf, atRoute, List.eraseDups_cons, es]
  have hvisible : d.visible es = es.take 3 := by rfl
  have hdistinct : ((d.visible es).map (documentedMethods d.settings.defaultMethods)).Nodup := by
    rw [hvisible]
    decide
  have hseparable : ∀ e ∈ d.visible es, (documentedMethods d.settings.defaultMethods e).Separable := by
    rw [hvisible]
    decide
  obtain ⟨doc, hdoc⟩ : ∃ doc, (d.ofEndpoints (.ofList es)).run = some (.ok doc) := by
    refine ⟨?doc, ?documented⟩
    case documented => cbv; rfl
  obtain ⟨-, hsize, hrecords⟩ := ofEndpoints_keeps_views (EndpointMap.built_ofList es) hdoc hgroups hdistinct hseparable
  refine ⟨doc, hdoc, hsize, ?_⟩
  exact hrecords ⟨"/x", other, { methods := some ⟨["GET", " POST"]⟩ }⟩ (by simp [hvisible, es])

end Documenter

end RouteTree
