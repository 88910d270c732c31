import RouteTree.Proofs.Registrations
import RouteTree.Router.Service

/-!
# Calls of any router

A service that is written for any router makes calls one after another and ends with the first refusal:
it performs a list of calls (`Router.perform`). What comes of that is said by two relations, which step
through the states of the router and know nothing of services: `Router.Accepts`, for calls that all
succeed, and `Router.RefusesAfter`, for a refusal that comes behind them. `Router.recorded` is the router
with a log of all calls it is asked for, so that there is something to show which ones were made.
-/

namespace RouteTree
open Registry (Call)

/-- The call as a call of any router. -/
def Registry.Call.on {σ : Type} (r : Router σ) : Call → EStateM Refusal σ Unit
  | .addRoute name pattern => r.addRoute name pattern
  | .addView route view options => r.addView route view options

namespace Router
variable {σ : Type} (r : Router σ)

/-- Makes the calls in order, up to the first refusal. -/
def perform (calls : List Call) : EStateM Refusal σ Unit := calls.forM (Call.on r)

/-- From the state `s` all the calls succeed one after another, which leads to the state `s'`. -/
inductive Accepts : σ → List Call → σ → Prop
  | nil (s : σ) : Accepts s [] s
  | cons {s s₁ s' : σ} {call : Call} {calls : List Call} :
    call.on r s = .ok () s₁ → Accepts s₁ calls s' → Accepts s (call :: calls) s'

/-- From the state `s` the calls `before` succeed, and then `call` is refused for `e`, which leaves the
state `s'`. -/
def RefusesAfter (s : σ) (before : List Call) (call : Call) (e : Refusal) (s' : σ) : Prop :=
  ∃ s₁, r.Accepts s before s₁ ∧ call.on r s₁ = .error e s'

/-- Makes a call and puts it into the log, whatever the answer. -/
def logged (call : Call) : EStateM Refusal (σ × List Call) Unit := fun (s, log) =>
  match call.on r s with
  | .ok _ s' => .ok () (s', log ++ [call])
  | .error e s' => .error e (s', log ++ [call])

/-- The router with a log of its calls. -/
def recorded : Router (σ × List Call) where
  addRoute name pattern := r.logged (.addRoute name pattern)
  addView route view options := r.logged (.addView route view options)

variable {r} {s s' s₁ : σ} {call : Call} {calls before rest log log' : List Call} {e : Refusal}

/-! ### Performing calls -/

theorem perform_nil (s : σ) : r.perform [] s = .ok () s := rfl

theorem perform_cons (call : Call) (calls : List Call) :
    r.perform (call :: calls) = (call.on r >>= fun _ => r.perform calls) := rfl

theorem perform_append (calls rest : List Call) :
    r.perform (calls ++ rest) = (r.perform calls >>= fun _ => r.perform rest) := by
  induction calls with
  | nil => rfl
  | cons call calls ih => rw [List.cons_append, perform_cons, perform_cons, ih, bind_assoc]

theorem perform_cons_of_ok (h : call.on r s = .ok () s₁) :
    r.perform (call :: calls) s = r.perform calls s₁ := by
  simp only [perform_cons, bind, EStateM.bind, h]

theorem perform_cons_of_error (h : call.on r s = .error e s') :
    r.perform (call :: calls) s = .error e s' := by
  simp only [perform_cons, bind, EStateM.bind, h]

theorem perform_append_of_ok (h : r.perform calls s = .ok () s₁) :
    r.perform (calls ++ rest) s = r.perform rest s₁ := by
  simp only [perform_append, bind, EStateM.bind, h]

theorem perform_append_of_error (h : r.perform calls s = .error e s') :
    r.perform (calls ++ rest) s = .error e s' := by
  simp only [perform_append, bind, EStateM.bind, h]

theorem perform_eq_ok_iff : r.perform calls s = .ok () s' ↔ r.Accepts s calls s' := by
  constructor
  · intro h
    induction calls generalizing s with
    | nil =>
      cases h
      exact .nil _
    | cons call calls ih =>
      cases hc : call.on r s with
      | ok u s₁ => exact .cons hc (ih (perform_cons_of_ok hc ▸ h))
      | error e s₁ => rw [perform_cons_of_error hc] at h; cases h
  · intro h
    induction h with
    | nil s => rfl
    | cons hc _ ih => rw [perform_cons_of_ok hc, ih]

theorem perform_eq_error_iff :
    r.perform calls s = .error e s' ↔
      ∃ before call after, calls = before ++ call :: after ∧ r.RefusesAfter s before call e s' := by
  constructor
  · intro h
    induction calls generalizing s with
    | nil => cases h
    | cons call calls ih =>
      cases hc : call.on r s with
      | ok u s₁ =>
        obtain ⟨before, refused, after, rfl, s₂, ha, hr⟩ := ih (perform_cons_of_ok hc ▸ h)
        exact ⟨call :: before, refused, after, rfl, s₂, .cons hc ha, hr⟩
      | error e' s₁ =>
        rw [perform_cons_of_error hc] at h
        cases h
        exact ⟨[], call, calls, rfl, s, .nil s, hc⟩
  · rintro ⟨before, call, after, rfl, s₁, ha, hc⟩
    rw [perform_append_of_ok (perform_eq_ok_iff.2 ha), perform_cons_of_error hc]

/-! ### The log -/

theorem on_recorded (call : Call) : call.on r.recorded = r.logged call := by
  cases call <;> rfl

theorem on_recorded_eq_ok_iff :
    call.on r.recorded (s, log) = .ok () (s', log') ↔
      call.on r s = .ok () s' ∧ log' = log ++ [call] := by
  rw [on_recorded, logged]
  cases call.on r s <;> simp [eq_comm]

theorem on_recorded_eq_error_iff :
    call.on r.recorded (s, log) = .error e (s', log') ↔
      call.on r s = .error e s' ∧ log' = log ++ [call] := by
  rw [on_recorded, logged]
  cases call.on r s <;> simp [eq_comm, and_assoc]

theorem recorded_accepts_iff :
    r.recorded.Accepts (s, log) calls (s', log') ↔ r.Accepts s calls s' ∧ log' = log ++ calls := by
  constructor
  · intro h
    induction calls generalizing s log with
    | nil =>
      cases h
      exact ⟨.nil _, (List.append_nil _).symm⟩
    | cons call calls ih =>
      obtain _ | @⟨_, ⟨s₁, log₁⟩, _, _, _, hc, ha⟩ := h
      obtain ⟨hc', rfl⟩ := on_recorded_eq_ok_iff.1 hc
      obtain ⟨ha', rfl⟩ := ih ha
      exact ⟨.cons hc' ha', List.append_assoc ..⟩
  · rintro ⟨h, rfl⟩
    induction h generalizing log with
    | nil s => rw [List.append_nil]; exact .nil _
    | @cons s s₁ s' call calls hc _ ih =>
      have ih := @ih (log ++ [call])
      rw [List.append_assoc] at ih
      exact .cons (on_recorded_eq_ok_iff.2 ⟨hc, rfl⟩) ih

theorem recorded_refusesAfter_iff :
    r.recorded.RefusesAfter (s, log) before call e (s', log') ↔
      r.RefusesAfter s before call e s' ∧ log' = log ++ (before ++ [call]) := by
  constructor
  · rintro ⟨⟨s₁, log₁⟩, ha, hc⟩
    obtain ⟨ha', rfl⟩ := recorded_accepts_iff.1 ha
    obtain ⟨hc', rfl⟩ := on_recorded_eq_error_iff.1 hc
    exact ⟨⟨s₁, ha', hc'⟩, List.append_assoc ..⟩
  · rintro ⟨⟨s₁, ha, hc⟩, rfl⟩
    exact ⟨(s₁, log ++ before), recorded_accepts_iff.2 ⟨ha, rfl⟩,
      on_recorded_eq_error_iff.2 ⟨hc, (List.append_assoc ..).symm⟩⟩

end Router

end RouteTree
