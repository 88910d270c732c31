import RouteTree.Proofs.Agreement
import RouteTree.Proofs.Layering

/-!
# The methods that a catchall covers

An endpoint mentions the methods of its list, or the standard ones if it has none (`Endpoint.mentioned`). A catchall
covers what the endpoints of its route mention, each method once and in the order of the first mentions
(`FirstMentions`). An empty list mentions nothing, but is documented like no list. So the methods that an endpoint is
documented with are those that it mentions, or the standard ones (`Documenter.mem_documentedMethods`), and a catchall
answers all of them unless an empty list stands beside others that do not make up for it
(`Catchall.forall_answers_iff`). A call that is not refused puts its view behind those of its route
(`Registry.Sound.views_accepts`), so this holds of every catchall that has been registered
(`Catchall.answers_documented_iff`).
-/

namespace RouteTree
open Registry (Call after)

/-! ### First mentions -/

/-- The elements of `l`, each once, in the order in which `l` has them for the first time. -/
structure FirstMentions (l firsts : List String) : Prop where
  mem_iff : ∀ a, a ∈ firsts ↔ a ∈ l
  ordered : firsts.Pairwise fun a b => l.idxOf a < l.idxOf b

namespace FirstMentions
variable {l firsts : List String} {a : String}

theorem nil : FirstMentions [] [] := ⟨fun _ => Iff.rfl, .nil⟩

theorem nodup (h : FirstMentions l firsts) : firsts.Nodup :=
  h.ordered.imp fun hab heq => (heq ▸ hab).ne rfl

/-- More elements behind do not move the first mentions. -/
theorem ordered_append (h : FirstMentions l firsts) (l' : List String) :
    firsts.Pairwise fun a b => (l ++ l').idxOf a < (l ++ l').idxOf b := by
  refine h.ordered.imp_of_mem fun ha hb hab => ?_
  rwa [List.idxOf_append_of_mem ((h.mem_iff _).1 ha), List.idxOf_append_of_mem ((h.mem_iff _).1 hb)]

theorem snoc_of_mem (h : FirstMentions l firsts) (ha : a ∈ l) : FirstMentions (l ++ [a]) firsts := by
  refine ⟨fun b => ?_, h.ordered_append [a]⟩
  rw [h.mem_iff, List.mem_append, List.mem_singleton]
  exact ⟨.inl, fun hb => hb.elim id fun hba => hba ▸ ha⟩

theorem snoc_of_not_mem (h : FirstMentions l firsts) (ha : a ∉ l) :
    FirstMentions (l ++ [a]) (firsts ++ [a]) := by
  refine ⟨fun b => ?_, List.pairwise_append.2 ⟨h.ordered_append [a], List.pairwise_singleton .., ?_⟩⟩
  · simp only [List.mem_append, h.mem_iff]
  · intro b hb c hc
    obtain rfl := List.mem_singleton.1 hc
    have hbl := (h.mem_iff b).1 hb
    rw [List.idxOf_append_of_mem hbl, List.idxOf_append_of_notMem ha]
    exact Nat.lt_add_right _ (List.idxOf_lt_length_iff.2 hbl)

theorem eraseDups (l : List String) : FirstMentions l l.eraseDups := by
  -- from the back: the last element is the one that has been mentioned before or has not
  induction l using List.reverseRecOn with
  | nil => exact nil
  | append_singleton l a ih =>
    rw [List.eraseDups_append]
    by_cases ha : a ∈ l
    · have hnone : [a].removeAll l = [] := by simp [List.removeAll, ha]
      rw [hnone, List.eraseDups_nil, List.append_nil]
      exact ih.snoc_of_mem ha
    · have hone : [a].removeAll l = [a] := by simp [List.removeAll, ha]
      rw [hone]
      exact ih.snoc_of_not_mem ha

end FirstMentions

/-! ### What the endpoints of a route mention -/

namespace Endpoint

/-- The methods that an endpoint mentions: those of its list, and the standard ones if it has no list. -/
def mentioned (standard : List String) (e : Endpoint) : List String :=
  match e.options.methods with
  | some m => m.tokens
  | none => standard

theorem mentioned_eq (standard : Methods) (e : Endpoint) :
    e.mentioned standard.tokens = (e.options.methods.getD standard).tokens := by
  unfold mentioned
  cases e.options.methods <;> rfl

theorem mem_mentioned_iff {standard : List String} {e : Endpoint} {token : String} :
    token ∈ e.mentioned standard ↔
      (∃ m, e.options.methods = some m ∧ token ∈ m.tokens) ∨ e.options.methods = none ∧ token ∈ standard := by
  unfold mentioned
  cases e.options.methods <;> simp

theorem exists_mentioned_iff {standard : List String} {es : List Endpoint} {token : String} :
    (∃ e ∈ es, token ∈ e.mentioned standard) ↔
      (∃ e ∈ es, ∃ m, e.options.methods = some m ∧ token ∈ m.tokens) ∨
        (∃ e ∈ es, e.options.methods = none) ∧ token ∈ standard := by
  simp only [mem_mentioned_iff]
  constructor
  · rintro ⟨e, he, hlisted | ⟨hnone, htoken⟩⟩
    · exact .inl ⟨e, he, hlisted⟩
    · exact .inr ⟨⟨e, he, hnone⟩, htoken⟩
  · rintro (⟨e, he, hlisted⟩ | ⟨⟨e, he, hnone⟩, htoken⟩)
    · exact ⟨e, he, .inl hlisted⟩
    · exact ⟨e, he, .inr ⟨hnone, htoken⟩⟩

end Endpoint

namespace Catchall

theorem coveredMethods_eq (s : Settings) (es : List Endpoint) :
    coveredMethods s.defaultMethods es = ⟨(es.map (·.mentioned s.requestMethods)).flatten.eraseDups⟩ := by
  have hmentioned : ∀ e : Endpoint, e.mentioned s.requestMethods = (e.options.methodsOr s.defaultMethods).tokens :=
    Endpoint.mentioned_eq s.defaultMethods
  simp only [coveredMethods, hmentioned, ← List.flatMap_def]

theorem mem_covered (s : Settings) (es : List Endpoint) (token : String) :
    token ∈ (coveredMethods s.defaultMethods es).tokens ↔ ∃ e ∈ es, token ∈ e.mentioned s.requestMethods := by
  simp only [mem_coveredMethods, ← Endpoint.mentioned_eq]
  rfl

theorem baseOptions_methods (standard : Methods) (handler : Handler) (es : List Endpoint) :
    (baseOptions standard handler es).methods =
      if (coveredMethods standard es).tokens = [] then none else some (coveredMethods standard es) := by
  simp only [baseOptions, Methods.isEmpty, List.isEmpty_iff]

/-- A catchall covers the methods that its route mentions, in the order of their first mention, and it names no methods
if there are none. Endpoints that come later only add to them, and no more counts of the endpoints than what each of
them mentions. -/
theorem coveredMethods_mentioned (s : Settings) (handler : Handler) (es : List Endpoint) :
    let covered (s : Settings) (es : List Endpoint) := (coveredMethods s.defaultMethods es).tokens
    (covered s es).Nodup ∧
    (∀ token, token ∈ covered s es ↔
      (∃ e ∈ es, ∃ m, e.options.methods = some m ∧ token ∈ m.tokens) ∨
        (∃ e ∈ es, e.options.methods = none) ∧ token ∈ s.requestMethods) ∧
    FirstMentions (es.map (·.mentioned s.requestMethods)).flatten (covered s es) ∧
    (baseOptions s.defaultMethods handler es).methods =
      (if covered s es = [] then none else some ⟨covered s es⟩) ∧
    (∀ later, covered s es <+: covered s (es ++ later)) ∧
    ∀ (s' : Settings) (es' : List Endpoint),
      es'.map (·.mentioned s'.requestMethods) = es.map (·.mentioned s.requestMethods) →
        covered s' es' = covered s es := by
  intro covered
  have hfirst : FirstMentions (es.map (·.mentioned s.requestMethods)).flatten (covered s es) := by
    show FirstMentions _ (coveredMethods _ _).tokens
    rw [coveredMethods_eq]
    exact .eraseDups _
  refine ⟨hfirst.nodup, fun token => ?_, hfirst, baseOptions_methods _ _ _, fun later => ?_,
    fun s' es' h => ?_⟩
  · exact (mem_covered s es token).trans Endpoint.exists_mentioned_iff
  · show (coveredMethods _ _).tokens <+: (coveredMethods _ _).tokens
    rw [coveredMethods_eq, coveredMethods_eq, List.map_append, List.flatten_append, List.eraseDups_append]
    exact List.prefix_append ..
  · show (coveredMethods _ _).tokens = (coveredMethods _ _).tokens
    rw [coveredMethods_eq, coveredMethods_eq, h]

/-- Lists with repetitions, an empty one and none at all, where the standard methods have repetitions too. Under other
settings the same methods are covered if they are mentioned in the same places. -/
theorem coveredMethods_mentioned_mixed_lists :
    let view : Handler := { serial := 0, name := "view", call := fun _ => "" }
    let s : Settings := { requestMethods := ["GET", "PUT", "GET"] }
    let listed : Endpoint := ⟨"/x", view, { methods := some ⟨["POST", "GET", "POST"]⟩ }⟩
    let unlisted : Endpoint := ⟨"/x", view, {}⟩
    let empty : Endpoint := ⟨"/x", view, { methods := some ⟨[]⟩ }⟩
    let spelled : Endpoint := ⟨"/x", view, { methods := some ⟨["GET", "PUT", "GET"]⟩ }⟩
    (coveredMethods s.defaultMethods [listed, empty, unlisted]).tokens = ["POST", "GET", "PUT"] ∧
      (coveredMethods s.defaultMethods [listed, empty]).tokens <+:
        (coveredMethods s.defaultMethods [listed, empty, unlisted]).tokens ∧
      (coveredMethods ⟨[]⟩ [listed, unlisted, spelled]).tokens = ["POST", "GET", "PUT"] := by
  intro view s listed unlisted empty spelled
  obtain ⟨-, -, -, -, hlater, -⟩ := coveredMethods_mentioned s view [listed, empty]
  obtain ⟨-, -, -, -, -, hsame⟩ := coveredMethods_mentioned s view [listed, empty, unlisted]
  have hcovered : (coveredMethods s.defaultMethods [listed, empty, unlisted]).tokens = ["POST", "GET", "PUT"] := by
    decide
  exact ⟨hcovered, hlater [unlisted], (hsame { requestMethods := [] } [listed, unlisted, spelled] rfl).trans hcovered⟩

end Catchall

/-! ### What is documented -/

theorem Documenter.mem_documentedMethods (s : Settings) (e : Endpoint) (token : String) :
    token ∈ (documentedMethods s.defaultMethods e).tokens ↔
      token ∈ e.mentioned s.requestMethods ∨ e.options.methods = some ⟨[]⟩ ∧ token ∈ s.requestMethods := by
  unfold documentedMethods Endpoint.mentioned
  cases e.options.methods with
  | none => simp [Settings.defaultMethods]
  | some m =>
    obtain ⟨tokens⟩ := m
    cases tokens <;> simp [Methods.isEmpty, Option.filter, Settings.defaultMethods]

/-- The methods that a view is registered with let a request with this one pass: there are none, or it is one of them.
-/
def ViewOptions.Answers (o : ViewOptions) (token : String) : Prop := ∀ m, o.methods = some m → token ∈ m.tokens

namespace Catchall
variable {c : Catchall} {s : Settings} {handler : Handler} {es : List Endpoint} {token : String}

/-- Where nothing is laid over its methods, a catchall answers those that it covers, or all if there are none. -/
theorem optionsOn_answers_iff (s : Settings) (es : List Endpoint) (hmiddle : (c.middleOptions handler).methods = none)
    (hadditional : c.additional.methods = none) :
    (c.optionsOn s.defaultMethods handler es).Answers token ↔
      (∀ e ∈ es, e.mentioned s.requestMethods = []) ∨ ∃ e ∈ es, token ∈ e.mentioned s.requestMethods := by
  have hmethods : (c.optionsOn s.defaultMethods handler es).methods =
      (baseOptions s.defaultMethods handler es).methods := by
    simp [optionsOn, ViewOptions.update, hmiddle, hadditional]
  have hnone : (coveredMethods s.defaultMethods es).tokens = [] ↔ ∀ e ∈ es, e.mentioned s.requestMethods = [] := by
    simp only [List.eq_nil_iff_forall_not_mem, mem_covered, not_exists, not_and]
    exact ⟨fun h e he token => h token e he, fun h token e he => h e he token⟩
  rw [ViewOptions.Answers, hmethods, baseOptions_methods, ← hnone, ← mem_covered]
  split
  · exact iff_of_true (fun m hm => by cases hm) (.inl ‹_›)
  · rename_i hcovered
    simp [hcovered]

/-- Everything that the endpoints are documented with is answered, unless one of them has an empty list. Then it is
exactly if no endpoint mentions a method, or if the standard methods are mentioned by others. -/
theorem forall_answers_iff (s : Settings) (es : List Endpoint) (hmiddle : (c.middleOptions handler).methods = none)
    (hadditional : c.additional.methods = none) :
    (∀ e ∈ es, ∀ token ∈ (Documenter.documentedMethods s.defaultMethods e).tokens,
      (c.optionsOn s.defaultMethods handler es).Answers token) ↔
    ((∃ e ∈ es, e.options.methods = some ⟨[]⟩) →
      (∀ e ∈ es, e.mentioned s.requestMethods = []) ∨
        ∀ token ∈ s.requestMethods, ∃ e ∈ es, token ∈ e.mentioned s.requestMethods) := by
  simp only [optionsOn_answers_iff s es hmiddle hadditional, Documenter.mem_documentedMethods]
  constructor
  · rintro h ⟨e, he, hempty⟩
    by_cases hnone : ∀ e ∈ es, e.mentioned s.requestMethods = []
    · exact .inl hnone
    · exact .inr fun token htoken => (h e he token (.inr ⟨hempty, htoken⟩)).resolve_left hnone
  · rintro h e he token (htoken | ⟨hempty, htoken⟩)
    · exact .inr ⟨e, he, htoken⟩
    · exact (h ⟨e, he, hempty⟩).imp_right fun hall => hall token htoken

end Catchall

/-! ### What is registered -/

namespace Registry

/-- The view that a call adds to `route`. -/
def Call.viewOn? (route : String) : Call → Option ViewEntry
  | .addRoute .. => none
  | .addView name view options => if name = route then some ⟨view, options⟩ else none

variable {t t' : Registry} {route : String} {call : Call} {calls : List Call}

/-- A call that is not refused puts its view behind those of its route. -/
theorem Sound.views_on (h : t.Sound) (hc : call.on router t = .ok () t') :
    t'.views route = t.views route ++ (call.viewOn? route).toList := by
  cases call with
  | addRoute name pattern =>
    obtain rfl : t.addRoute name pattern = t' := by cases hc; rfl
    rw [views, h.route?_addRoute, Call.viewOn?, Option.toList_none, List.append_nil]
    split
    · rename_i hname
      rw [hname]
      rfl
    · rfl
  | addView name view options =>
    have hadd : t.addView name view options = .ok t' := by
      cases hadd : t.addView name view options with
      | error refusal => rw [on_addView_of_error hadd] at hc; cases hc
      | ok t₁ => rw [on_addView_of_ok hadd] at hc; cases hc; rfl
    rcases h.addView_cases name view options with ⟨e, he⟩ | ⟨r, hr, hname, -, hok⟩
    · rw [he] at hadd
      cases hadd
    · rw [hok] at hadd
      cases hadd
      rw [views, h.route?_map_name (fun r => { r with views := r.views ++ [⟨view, options⟩] }), Call.viewOn?]
      by_cases hsame : route = name
      · subst hsame
        rw [if_pos rfl, if_pos rfl, views, h.route?_eq_some_iff.2 ⟨hr, hname⟩]
        rfl
      · rw [if_neg hsame, if_neg (Ne.symm hsame)]
        exact (List.append_nil _).symm

/-- After calls that were not refused a route has the views that they add behind those that it had. -/
theorem Sound.views_accepts (h : t.Sound) (ha : router.Accepts t calls t') :
    t'.views route = t.views route ++ calls.filterMap (Call.viewOn? route) := by
  induction ha with
  | nil => exact (List.append_nil _).symm
  | @cons t t₁ t' call calls hc ha ih =>
    rw [ih (h.accepts (.cons hc (.nil _))), h.views_on hc, List.append_assoc]
    congr 1
    rw [List.filterMap_cons]
    cases call.viewOn? route <;> rfl

end Registry

namespace Catchall
variable {c : Catchall} {standard : Methods} {handler : Handler} {gs : List (String × List Endpoint)} {route : String}
  {es : List Endpoint}

theorem filterMap_calls (hd : (gs.map Prod.fst).Nodup) (hes : (route, es) ∈ gs)
    (htargeted : (es.any fun e => c.targets e.view) = true) :
    (c.calls standard handler gs).filterMap (Call.viewOn? route) = [⟨handler, c.optionsOn standard handler es⟩] := by
  have hother : ∀ gs : List (String × List Endpoint), route ∉ gs.map Prod.fst →
      (c.calls standard handler gs).filterMap (Call.viewOn? route) = [] := by
    intro gs hroute
    refine List.filterMap_eq_nil_iff.2 fun call hcall => ?_
    obtain ⟨g, hg, rfl⟩ := List.mem_map.1 hcall
    exact if_neg fun hname : g.1 = route =>
      hroute (hname ▸ List.mem_map_of_mem (List.mem_of_mem_filter hg))
  have happend : ∀ gs gs', c.calls standard handler (gs ++ gs') =
      c.calls standard handler gs ++ c.calls standard handler gs' := by
    simp [calls]
  obtain ⟨before, later, rfl⟩ := List.append_of_mem hes
  rw [List.map_append, List.map_cons, List.nodup_middle, List.nodup_cons, List.mem_append, not_or] at hd
  have hone : c.calls standard handler ((route, es) :: later) =
      .addView route handler (c.optionsOn standard handler es) :: c.calls standard handler later := by
    rw [calls, List.filter_cons, if_pos htargeted]
    rfl
  rw [happend, hone, List.filterMap_append, hother before hd.1.1, List.nil_append, List.filterMap_cons,
    hother later hd.1.2, Call.viewOn?, if_pos rfl]

theorem views_registerCatchall {s : Settings} {t : Tree} {m : EndpointMap} {table table' : Registry} (h : table.Sound)
    (hm : s.endpoints t c.root = .ok m) (hok : s.registerCatchall Registry.router t handler c table = .ok () table')
    (hes : (route, es) ∈ m.groups) (htargeted : (es.any fun e => c.targets e.view) = true) :
    table'.views route = table.views route ++ [⟨handler, c.optionsOn s.defaultMethods handler es⟩] := by
  rw [Settings.registerCatchall_of_endpoints hm, Service.ofRouter_eq_ok_iff, register_eq_perform,
    Router.perform_eq_ok_iff] at hok
  rw [h.views_accepts hok, filterMap_calls (Settings.groups_of_endpoints hm).routes_nodup hes htargeted]

/-- A catchall with no methods laid over its own that has been registered answers everything that the views of its route
are documented with, unless one of them has an empty list. Then it does so exactly if no view mentions a method, or if
the standard methods are mentioned by other views. -/
theorem answers_documented_iff (calls : List Call) (s : Settings) (t : Tree) (handler : Handler) (c : Catchall)
    (hmiddle : (c.middleOptions handler).methods = none) (hadditional : c.additional.methods = none)
    {m : EndpointMap} (hm : s.endpoints t c.root = .ok m) {table' : Registry}
    (hok : s.registerCatchall Registry.router t handler c (after calls) = .ok () table')
    {route : String} {es : List Endpoint} (hes : (route, es) ∈ m.groups)
    (htargeted : (es.any fun e => c.targets e.view) = true) :
    ∃ options, table'.views route = (after calls).views route ++ [⟨handler, options⟩] ∧
      ((∀ e ∈ es, ∀ token ∈ (Documenter.documentedMethods s.defaultMethods e).tokens, options.Answers token) ↔
        ((∃ e ∈ es, e.options.methods = some ⟨[]⟩) →
          (∀ e ∈ es, e.mentioned s.requestMethods = []) ∨
            ∀ token ∈ s.requestMethods, ∃ e ∈ es, token ∈ e.mentioned s.requestMethods)) :=
  ⟨_, views_registerCatchall (Registry.sound_after calls) hm hok hes htargeted,
    forall_answers_iff s es hmiddle hadditional⟩

/-- An empty list does no harm beside a view without a list, nor beside other empty ones. -/
theorem answers_documented_beside_empty_list :
    let view : Handler := { serial := 0, name := "view", call := fun _ => "" }
    let fallback : Handler := { serial := 1, name := "fallback", call := fun _ => "" }
    let c : Catchall := { options := some { accept := some "text/html" } }
    let s : Settings := { requestMethods := ["GET", "HEAD"] }
    let t : Tree := .mapping
      [(.path "/x", .mapping
          [(.any [], .leaf view), (.methods ⟨["POST", "POST"]⟩, .leaf view), (.path "", .leaf view)]),
        (.path "/y", .mapping [(.any [], .leaf view)])]
    let listed : Endpoint := ⟨"/x", view, { methods := some ⟨["POST", "POST"]⟩ }⟩
    let unlisted : Endpoint := ⟨"/x", view, {}⟩
    let empty (route : String) : Endpoint := ⟨route, view, { methods := some ⟨[]⟩ }⟩
    let calls : List Call := [.addRoute "/x" "/x", .addRoute "/y" "/y"]
    (c.middleOptions fallback).methods = none ∧ c.additional.methods = none ∧
    ∃ m table', s.endpoints t c.root = .ok m ∧
      s.registerCatchall Registry.router t fallback c (after calls) = .ok () table' ∧
      ("/x", [empty "/x", listed, unlisted]) ∈ m.groups ∧ ("/y", [empty "/y"]) ∈ m.groups ∧
      (∃ options, table'.views "/x" = [⟨fallback, options⟩] ∧
        ∀ e ∈ [empty "/x", listed, unlisted], ∀ token ∈ (Documenter.documentedMethods s.defaultMethods e).tokens,
          options.Answers token) ∧
      ∃ options, table'.views "/y" = [⟨fallback, options⟩] ∧
        ∀ e ∈ [empty "/y"], ∀ token ∈ (Documenter.documentedMethods s.defaultMethods e).tokens,
          options.Answers token := by
  intro view fallback c s t listed unlisted empty calls
  obtain ⟨m, hm⟩ : ∃ m, s.endpoints t c.root = .ok m := ⟨_, rfl⟩
  have hgroups : m.groups = [("/x", [empty "/x", listed, unlisted]), ("/y", [empty "/y"])] := by
    have hleaves : t.leaves = [⟨"/x", some ⟨[]⟩, view⟩, ⟨"/x", some ⟨["POST", "POST"]⟩, view⟩,
        ⟨"/x", none, view⟩, ⟨"/y", some ⟨[]⟩, view⟩] := by
      simp [t, Tree.leaves, Tree.leavesUnder, Tree.isSubtree, Tree.branches, Key.steps, Key.readings,
        Except.toOption, Leaf.below]
    rw [(Settings.groups_of_endpoints hm).groups, hleaves]
    simp [routesOf, atRoute, List.eraseDups_cons, Leaf.endpoint, c, view, listed, unlisted, empty]
  obtain ⟨table', hok⟩ : ∃ table', s.registerCatchall Registry.router t fallback c (after calls) = .ok () table' := by
    refine ⟨?table', ?registered⟩
    case registered => cbv; rfl
  have hx : ("/x", [empty "/x", listed, unlisted]) ∈ m.groups := by simp [hgroups]
  have hy : ("/y", [empty "/y"]) ∈ m.groups := by simp [hgroups]
  obtain ⟨options, hviews, hanswers⟩ := answers_documented_iff calls s t fallback c rfl rfl hm hok hx rfl
  obtain ⟨options', hviews', hanswers'⟩ := answers_documented_iff calls s t fallback c rfl rfl hm hok hy rfl
  refine ⟨rfl, rfl, m, table', hm, hok, hx, hy, ⟨options, hviews, hanswers.2 fun _ => .inr ?_⟩,
    ⟨options', hviews', hanswers'.2 fun _ => .inl ?_⟩⟩
  · intro token htoken
    exact ⟨unlisted, by simp, htoken⟩
  · simp [Endpoint.mentioned, empty]

/-- Beside a view with a list an empty list loses its methods: the view is documented with them, and a catchall behind
it does not answer them. -/
theorem not_answers_documented_empty_list :
    let any : Handler := { serial := 0, name := "any", call := fun _ => "" }
    let post : Handler := { serial := 1, name := "post", call := fun _ => "" }
    let fallback : Handler := { serial := 2, name := "fallback", call := fun _ => "" }
    let tree : Tree := .mapping
      [(.path "/x", .mapping [(.any [], .leaf any), (.methods ⟨["POST"]⟩, .leaf post)])]
    let s : Settings := { requestMethods := ["GET"] }
    let d : Documenter := { settings := s }
    ∃ table table' doc, s.registerTree Registry.router tree "" .empty = .ok () table ∧
      s.registerCatchall Registry.router tree fallback {} table = .ok () table' ∧
      (d.document tree).run = some (.ok doc) ∧ (∃ record, doc.view? "/x" "GET" = some record) ∧
      ∃ catchall, table'.views "/x" =
          [⟨any, { methods := some ⟨[]⟩ }⟩, ⟨post, { methods := some ⟨["POST"]⟩ }⟩, ⟨fallback, catchall⟩] ∧
        ¬ catchall.Answers "GET" := by
  intro any post fallback tree s d
  refine ⟨?table, ?table', ?doc, ?registered, ?guarded, ?documented, ?shown, ?options, ?views, ?answers⟩
  case registered =>
    dsimp only [tree, s]
    cbv
    rfl
  case guarded =>
    dsimp only [tree, s]
    cbv
    rfl
  case documented =>
    dsimp only [tree, s, d]
    cbv
    rfl
  case shown => exact ⟨_, rfl⟩
  case views => rfl
  case answers => exact fun h => absurd (h _ rfl) (by decide)

end Catchall

end RouteTree
