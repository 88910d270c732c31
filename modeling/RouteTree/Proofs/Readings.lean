import RouteTree.Proofs.Grouping
import RouteTree.Tree.Endpoints

/-!
# Readings of a key

A key is read as a list of steps, `Key.readings`, in which a mixture of fragments and methods stands
for itself. A visit of the key merges what its steps give, or fails with the first error among them
(`Key.visitSteps_eq_outcome`); no key is without a reading (`Key.readings_ne_nil`), and one fails to
be read exactly where it mixes (`Key.mixed_mem_readings_iff`).

`outcome` is the form in which a visit is described here: by the errors on its way, of which the
first counts, and by the endpoints that it finds if there is none. Outcomes of parts make an outcome
of the whole by appending both lists (`concat_outcome`).
-/

namespace RouteTree

/-- The result of a visit that meets `errors` and finds `es`. -/
def outcome (errors : List StructureError) (es : List Endpoint) : Except StructureError EndpointMap :=
  match errors with
  | [] => .ok (.ofList es)
  | e :: _ => .error e

theorem outcome_eq_ok_iff {errors : List StructureError} {es : List Endpoint} {m : EndpointMap} :
    outcome errors es = .ok m ↔ errors = [] ∧ m = .ofList es := by
  cases errors <;> simp [outcome, eq_comm]

theorem mapError_outcome (f : StructureError → StructureError) (errors : List StructureError)
    (es : List Endpoint) : (outcome errors es).mapError f = outcome (errors.map f) es := by
  cases errors <;> rfl

section
variable {α : Type} {visit : α → Except StructureError EndpointMap} {errors : α → List StructureError}
  {found : α → List Endpoint} {xs : List α}

theorem mapM_outcome (h : ∀ x ∈ xs, visit x = outcome (errors x) (found x)) :
    xs.mapM visit = match xs.flatMap errors with
      | [] => .ok (xs.map fun x => .ofList (found x))
      | e :: _ => .error e := by
  induction xs with
  | nil => rfl
  | cons x xs ih =>
    rw [List.mapM_cons, h x (List.mem_cons_self ..), ih fun y hy => h y (List.mem_cons_of_mem _ hy),
      List.flatMap_cons]
    cases errors x with
    | cons e rest => rfl
    | nil =>
      simp only [outcome, List.nil_append]
      cases xs.flatMap errors <;> rfl

/-- The parts of a visit are merged in order, and its first error is the first error of a part. -/
theorem concat_outcome (h : ∀ x ∈ xs, visit x = outcome (errors x) (found x)) :
    (return .concat (← xs.mapM visit)) = outcome (xs.flatMap errors) (xs.flatMap found) := by
  rw [mapM_outcome h]
  cases xs.flatMap errors with
  | cons e rest => rfl
  | nil =>
    show Except.ok (EndpointMap.concat (xs.map fun x => .ofList (found x))) = .ok _
    have hmap : (xs.map fun x => EndpointMap.ofList (found x)) = (xs.map found).map .ofList := by
      rw [List.map_map]; rfl
    rw [hmap, EndpointMap.concat_map_ofList, List.flatMap_def]

end

/-- A step, or a flat mixture of keys in its place. -/
abbrev Reading := Except (List Key) Step

def Reading.elim {α : Type} (mixed : List Key → α) (step : Step → α) : Reading → α
  | .error keys => mixed keys
  | .ok s => step s

namespace Key

/-- Keys by induction, a sequence after its elements. -/
@[elab_as_elim, induction_eliminator]
theorem induct {P : Key → Prop} (path : ∀ fragment, P (.path fragment)) (methods : ∀ m, P (.methods m))
    (any : ∀ keys, (∀ key ∈ keys, P key) → P (.any keys)) : ∀ key, P key
  | .path fragment => path fragment
  | .methods m => methods m
  | .any keys => any keys fun key _ => induct path methods any key

/-- Do path fragments and methods stand side by side in a sequence that holds no further sequence? -/
def flatMixture (keys : List Key) : Bool :=
  keys.any (·.form == .path) && keys.any (·.form == .methods) && !keys.any (·.form == .any)

mutual

/-- The readings of a key in their order. Methods and nothing else, even none at all, are one reading
that asks for all of them; a flat mixture has no reading and is left as it is; any other sequence is
read key by key. -/
def readings : Key → List Reading
  | .path fragment => [.ok ⟨fragment, none⟩]
  | .methods m => [.ok ⟨"", some m⟩]
  | .any keys =>
    if keys.all (·.form == .methods) then [.ok ⟨"", some ⟨(keys.filterMap methods?).flatMap (·.tokens)⟩⟩]
    else if flatMixture keys then [.error keys]
    else readingsOf keys

def readingsOf : List Key → List Reading
  | [] => []
  | key :: keys => key.readings ++ readingsOf keys

end

/-- The steps that a key stands for. -/
def steps (key : Key) : List Step := key.readings.filterMap (·.toOption)

/-- Somewhere in the key stands a flat mixture. -/
inductive Mixes : Key → Prop where
  | here {keys : List Key} : flatMixture keys = true → Mixes (.any keys)
  | inside {keys : List Key} {key : Key} : key ∈ keys → Mixes key → Mixes (.any keys)

variable {key : Key} {keys : List Key}

theorem readingsOf_eq (keys : List Key) : readingsOf keys = keys.flatMap readings := by
  induction keys with
  | nil => rfl
  | cons key keys ih => rw [readingsOf, ih, List.flatMap_cons]

theorem readings_any_methods (h : keys.all (·.form == .methods) = true) :
    readings (.any keys) = [.ok ⟨"", some (Methods.sum (keys.filterMap methods?))⟩] := by
  have hsum : (⟨(keys.filterMap methods?).flatMap (·.tokens)⟩ : Methods) =
      Methods.sum (keys.filterMap methods?) := by
    rw [← Methods.tokens_sum]
  rw [readings, if_pos h, hsum]

theorem not_methods_of_flatMixture (h : flatMixture keys = true) :
    ¬ keys.all (·.form == .methods) = true := by
  simp only [flatMixture, Bool.and_eq_true, List.any_eq_true, beq_iff_eq] at h
  obtain ⟨⟨⟨key, hk, hp⟩, -⟩, -⟩ := h
  rw [List.all_eq_true]
  intro hall
  have hkm := beq_iff_eq.1 (hall key hk)
  rw [hp] at hkm
  cases hkm

theorem readings_any_mixture (h : flatMixture keys = true) : readings (.any keys) = [.error keys] := by
  rw [readings, if_neg (not_methods_of_flatMixture h), if_pos h]

theorem readings_any (hm : ¬ keys.all (·.form == .methods) = true) (hf : ¬ flatMixture keys = true) :
    readings (.any keys) = keys.flatMap readings := by
  rw [readings, if_neg hm, if_neg hf, readingsOf_eq]

/-- A sequence that is not of methods alone is a mixture unless it is all fragments or holds a
sequence. -/
theorem flatMixture_iff (hm : ¬ keys.all (·.form == .methods) = true) :
    flatMixture keys = true ↔ ¬ (keys.all (·.form == .path) || keys.any (·.form == .any)) = true := by
  have hforms : ∀ key : Key, key.form = .path ∨ key.form = .methods ∨ key.form = .any := by
    rintro (_ | _ | _) <;> simp [form]
  simp only [flatMixture, Bool.and_eq_true, Bool.or_eq_true, Bool.not_eq_true', List.any_eq_true,
    List.any_eq_false, List.all_eq_true, beq_iff_eq, not_or, not_forall, not_exists, not_and] at hm ⊢
  obtain ⟨other, ho, hom⟩ := hm
  constructor
  · rintro ⟨⟨-, key, hk, hkm⟩, hany⟩
    exact ⟨⟨key, hk, by rw [hkm]; decide⟩, hany⟩
  · rintro ⟨⟨key, hk, hkp⟩, hany⟩
    refine ⟨⟨⟨other, ho, ?_⟩, key, hk, ?_⟩, hany⟩
    · rcases hforms other with h | h | h
      · exact h
      · exact absurd h hom
      · exact absurd h (hany other ho)
    · rcases hforms key with h | h | h
      · exact absurd h hkp
      · exact h
      · exact absurd h (hany key hk)

/-- Every key can be read in some way or mixes: no branch escapes a visit. -/
theorem readings_ne_nil (key : Key) : key.readings ≠ [] := by
  induction key with
  | path fragment => simp [readings]
  | methods m => simp [readings]
  | any keys ih =>
    by_cases hm : keys.all (·.form == .methods) = true
    · simp [readings_any_methods hm]
    by_cases hf : flatMixture keys = true
    · simp [readings_any_mixture hf]
    rw [readings_any hm hf]
    cases keys with
    | nil => simp at hm
    | cons key keys =>
      intro hnil
      rw [List.flatMap_cons, List.append_eq_nil_iff] at hnil
      exact ih key (List.mem_cons_self ..) hnil.1

theorem mixed_mem_readings_iff (key : Key) : (∃ keys, .error keys ∈ key.readings) ↔ key.Mixes := by
  induction key with
  | path fragment =>
    refine iff_of_false (by simp [readings]) fun h => ?_
    cases h
  | methods m =>
    refine iff_of_false (by simp [readings]) fun h => ?_
    cases h
  | any keys ih =>
    by_cases hm : keys.all (·.form == .methods) = true
    · refine iff_of_false (by simp [readings_any_methods hm]) fun h => ?_
      cases h with
      | here h => exact not_methods_of_flatMixture h hm
      | @inside _ key hk h =>
        have hkm := beq_iff_eq.1 (List.all_eq_true.1 hm key hk)
        cases h <;> cases hkm
    by_cases hf : flatMixture keys = true
    · exact iff_of_true ⟨keys, by simp [readings_any_mixture hf]⟩ (.here hf)
    rw [readings_any hm hf]
    constructor
    · rintro ⟨found, hfound⟩
      obtain ⟨key, hk, hr⟩ := List.mem_flatMap.1 hfound
      exact .inside hk ((ih key hk).1 ⟨found, hr⟩)
    · intro h
      cases h with
      | here h => exact absurd h hf
      | inside hk h =>
        obtain ⟨found, hr⟩ := (ih _ hk).2 h
        exact ⟨found, List.mem_flatMap.2 ⟨_, hk, hr⟩⟩

theorem mem_steps {step : Step} : step ∈ key.steps ↔ .ok step ∈ key.readings := by
  rw [steps, List.mem_filterMap]
  constructor
  · rintro ⟨_ | s, hr, hs⟩
    · cases hs
    · obtain rfl := Option.some.inj hs
      exact hr
  · exact fun h => ⟨_, h, rfl⟩

theorem steps_any_methods (h : keys.all (·.form == .methods) = true) :
    steps (.any keys) = [⟨"", some (Methods.sum (keys.filterMap methods?))⟩] := by
  rw [steps, readings_any_methods h]
  rfl

theorem steps_any (hm : ¬ keys.all (·.form == .methods) = true) (hf : ¬ flatMixture keys = true) :
    steps (.any keys) = keys.flatMap steps := by
  rw [steps, readings_any hm hf, List.filterMap_flatMap]
  rfl

theorem visitEach_eq_mapM (visit : Step → Except StructureError EndpointMap) (keys : List Key) :
    visitEach visit keys = keys.mapM (visitSteps visit) := by
  induction keys with
  | nil => rfl
  | cons key keys ih => rw [visitEach, ih, List.mapM_cons]

/-- A key is visited reading by reading. -/
theorem visitSteps_eq_outcome {visit : Step → Except StructureError EndpointMap}
    {errors : Step → List StructureError} {found : Step → List Endpoint}
    (h : ∀ step, visit step = outcome (errors step) (found step)) (key : Key) :
    key.visitSteps visit = outcome
      (key.readings.flatMap (Reading.elim (fun keys => [.mixedKey (keys.map form)]) errors))
      (key.steps.flatMap found) := by
  induction key with
  | path fragment => simp [visitSteps, readings, steps, Except.toOption, Reading.elim, h]
  | methods m => simp [visitSteps, readings, steps, Except.toOption, Reading.elim, h]
  | any keys ih =>
    rw [visitSteps]
    by_cases hm : keys.all (·.form == .methods) = true
    · rw [if_pos hm, readings_any_methods hm, steps_any_methods hm, h]
      simp [Reading.elim]
    rw [if_neg hm]
    by_cases hf : flatMixture keys = true
    · rw [if_neg ((flatMixture_iff hm).1 hf), readings_any_mixture hf]
      rfl
    · rw [if_pos (not_not.1 fun hn => hf ((flatMixture_iff hm).2 hn)), visitEach_eq_mapM, concat_outcome ih,
        readings_any hm hf, steps_any hm hf, List.flatMap_assoc, List.flatMap_assoc]

end Key

end RouteTree
