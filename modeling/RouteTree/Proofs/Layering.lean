import RouteTree.Proofs.Guarding

/-!
# Options in layers

`ViewOptions.Layered o layers` says that every option of `o`, and every extra option by itself, has the value that
the first of the layers gives it which specifies it, and that it is unspecified if none does. An update puts the
layers of the overlay in front of those of the base (`Layered.update`), and the layers determine what lies under them
(`Layered.unique`). The options of a catchall have three layers (`Catchall.optionsOn_layered`).
-/

namespace RouteTree

namespace ViewOptions

/-- Every option of `o` has its value from the first of the layers that specifies it. -/
structure Layered (o : ViewOptions) (layers : List ViewOptions) : Prop where
  methods : o.methods = layers.findSome? (·.methods)
  guards : o.guards = layers.findSome? (·.guards)
  accept : o.accept = layers.findSome? (·.accept)
  renderer : o.renderer = layers.findSome? (·.renderer)
  extra : ∀ key : String, o.extra[key]? = layers.findSome? (·.extra[key]?)

variable {o o' base overlay : ViewOptions} {layers layers' : List ViewOptions}

theorem Layered.unique (h : o.Layered layers) (h' : o'.Layered layers) : o = o' := by
  have hextra : o.extra = o'.extra := Std.ExtTreeMap.ext_getElem? fun {key} => (h.extra key).trans (h'.extra key).symm
  cases o
  cases o'
  cases h.methods.trans h'.methods.symm
  cases h.guards.trans h'.guards.symm
  cases h.accept.trans h'.accept.symm
  cases h.renderer.trans h'.renderer.symm
  cases hextra
  rfl

theorem Layered.nil : ({} : ViewOptions).Layered [] :=
  ⟨rfl, rfl, rfl, rfl, fun _ => Std.ExtTreeMap.getElem?_empty⟩

theorem Layered.singleton (o : ViewOptions) : o.Layered [o] := by
  constructor <;> simp

/-- The layers of an overlay come before those of its base. -/
theorem Layered.update (h : base.Layered layers) (h' : overlay.Layered layers') :
    (base.update overlay).Layered (layers' ++ layers) := by
  constructor
  · rw [List.findSome?_append, ← h.methods, ← h'.methods]
    rfl
  · rw [List.findSome?_append, ← h.guards, ← h'.guards]
    rfl
  · rw [List.findSome?_append, ← h.accept, ← h'.accept]
    rfl
  · rw [List.findSome?_append, ← h.renderer, ← h'.renderer]
    rfl
  · intro key
    rw [List.findSome?_append, ← h.extra, ← h'.extra]
    exact Std.ExtTreeMap.getElem?_union

theorem isEmpty_iff : o.isEmpty = true ↔ o = {} := by
  obtain ⟨methods, guards, accept, renderer, extra⟩ := o
  have hnone : ∀ {α : Type} [BEq α] (a : Option α), (a == none) = true ↔ a = none := by
    intro α _ a
    cases a <;> simp
  show (methods == none && (guards == none && (accept == none && (renderer == none && extra == ∅)))) = true ↔ _
  simp only [Bool.and_eq_true, hnone, beq_iff_eq, mk.injEq]

end ViewOptions

namespace Catchall
variable {c : Catchall} {standard : Methods} {handler : Handler} {es : List Endpoint}

theorem mem_coveredMethods (token : String) : token ∈ (coveredMethods standard es).tokens ↔
    ∃ e ∈ es, token ∈ (e.options.methods.getD standard).tokens := by
  rw [coveredMethods, List.mem_eraseDups, List.mem_flatMap]
  rfl

theorem middleOptions_layered_of_some {given : ViewOptions} (hgiven : c.options = some given) (hne : given ≠ {}) :
    (c.middleOptions handler).Layered [given] := by
  unfold middleOptions
  rw [hgiven]
  have hfull : ¬ given.isEmpty = true := fun h => hne (ViewOptions.isEmpty_iff.1 h)
  simp only [hfull]
  exact .singleton given

theorem middleOptions_layered_of_none (hnone : ∀ given, c.options = some given → given = {}) :
    (c.middleOptions handler).Layered handler.options.toList := by
  have hown : c.middleOptions handler = handler.options.getD {} := by
    unfold middleOptions
    split
    · rename_i given hgiven
      rw [if_pos (ViewOptions.isEmpty_iff.2 (hnone given hgiven))]
    · rfl
  rw [hown]
  cases handler.options with
  | none => exact .nil
  | some own => exact .singleton own

/-- The options of a catchall are layered: the additional ones lie on top and what the route needs at the bottom.
Between them are the given ones, if these specify anything, and then the handler's own options do not count at all. -/
theorem optionsOn_layered (c : Catchall) (standard : Methods) (handler : Handler) (es : List Endpoint) :
    let options := c.optionsOn standard handler es
    let covered := coveredMethods standard es
    let base : ViewOptions :=
      { methods := if covered.tokens = [] then none else some covered
        guards := some [handler.catchallGuard.getD ⟨"catchall", fun _ => true⟩] }
    (∀ given, c.options = some given → given ≠ {} →
      options.Layered [c.additional, given, base] ∧
        ∀ own, c.optionsOn standard { handler with options := own } es = options) ∧
    ((∀ given, c.options = some given → given = {}) →
      options.Layered (c.additional :: handler.options.toList ++ [base])) ∧
    options.guards ≠ none ∧
    ∀ token, token ∈ covered.tokens ↔ ∃ e ∈ es, token ∈ (e.options.methods.getD standard).tokens := by
  intro options covered base
  have hbase : (baseOptions standard handler es).Layered [base] := by
    have heq : baseOptions standard handler es = base := by
      simp only [baseOptions, Methods.isEmpty, List.isEmpty_iff]
      rfl
    exact heq ▸ .singleton base
  have hoptions : ∀ {layers : List ViewOptions}, (c.middleOptions handler).Layered layers →
      options.Layered (c.additional :: (layers ++ [base])) := fun hmiddle =>
    (hbase.update hmiddle).update (.singleton c.additional)
  refine ⟨fun given hgiven hne => ?_, fun hnone => ?_, c.optionsOn_guards_ne_none standard handler es,
    mem_coveredMethods⟩
  · refine ⟨hoptions (middleOptions_layered_of_some hgiven hne), fun own => ?_⟩
    have hmiddle : c.middleOptions { handler with options := own } = c.middleOptions handler :=
      (middleOptions_layered_of_some hgiven hne).unique (middleOptions_layered_of_some hgiven hne)
    show ((baseOptions standard handler es).update (c.middleOptions { handler with options := own })).update _ = _
    rw [hmiddle]
    rfl
  · exact hoptions (middleOptions_layered_of_none hnone)

/-- Options without any specified one leave the handler its own, and others hide them, even those that they do not
specify. Empty lists are specified. -/
theorem optionsOn_layered_hidden_options :
    let own : ViewOptions := { methods := some ⟨[]⟩, accept := some "text/html" }
    let handler : Handler := { serial := 0, name := "fallback", call := fun _ => "", options := some own }
    let given : ViewOptions := { guards := some [], extra := .ofList [("a", "given"), ("b", "given")] }
    let additional : ViewOptions := { extra := .ofList [("a", "additional")] }
    let on (options : Option ViewOptions) : ViewOptions :=
      optionsOn { options, additional } ⟨["GET"]⟩ handler [⟨"/x", handler, {}⟩]
    ((on (some given)).methods = some ⟨["GET"]⟩ ∧ (on (some given)).accept = none ∧
      (on (some given)).guards = some [] ∧
      (on (some given)).extra["a"]? = some "additional" ∧ (on (some given)).extra["b"]? = some "given") ∧
    (on (some {})).methods = some ⟨[]⟩ ∧ (on (some {})).accept = some "text/html" ∧
      (on (some {})).guards.map (fun gs => gs.map Guard.name) = some ["catchall"] := by
  intro own handler given additional on
  have hcovered : coveredMethods ⟨["GET"]⟩ [⟨"/x", handler, {}⟩] = ⟨["GET"]⟩ := by decide
  have hne : given ≠ {} := by
    intro h
    have hguards := congrArg ViewOptions.guards h
    cases hguards
  obtain ⟨hhidden, -, -, -⟩ := optionsOn_layered { options := some given, additional } ⟨["GET"]⟩ handler
    [⟨"/x", handler, {}⟩]
  obtain ⟨-, hown, -, -⟩ := optionsOn_layered { options := some {}, additional } ⟨["GET"]⟩ handler
    [⟨"/x", handler, {}⟩]
  obtain ⟨h, -⟩ := hhidden given rfl hne
  have h' := hown fun given' hgiven' => by cases hgiven'; rfl
  rw [hcovered] at h h'
  refine ⟨⟨h.methods, h.accept, h.guards, ?_, ?_⟩, h'.methods, h'.accept, ?_⟩
  · rw [h.extra]
    rfl
  · rw [h.extra]
    rfl
  · rw [h'.guards]
    rfl

end Catchall

end RouteTree
