import RouteTree.Documentation.Views
import RouteTree.Proofs.Calls
import RouteTree.Proofs.Endpoints
import RouteTree.Router.Catchall
import RouteTree.Router.Routes

/-!
# What services ask of a router

Before a service calls the router for the first time it has a plan: the list of all the calls that it is
going to make, or the reason why it makes none. The plan is found without the router. The plans of the three
services are given here in terms of the leaves of the tree, and `Follows` says what it is to follow a plan:
the calls are made in order until one is refused, and its refusal is what the service fails with.
-/

namespace RouteTree
open Registry (Call)

/-! ### Plans -/

/-- Endpoints under their routes, in the order of their first appearance. -/
def groupsOf (es : List Endpoint) : List (String × List Endpoint) :=
  (routesOf es).map fun route => (route, atRoute es route)

/-- The route of a group, then its views. -/
def groupCalls (g : String × List Endpoint) : List Call :=
  .addRoute g.1 g.1 :: g.2.map fun e => .addView g.1 e.view e.options

/-- One view on the route of every group that `c` targets. -/
def Catchall.calls (c : Catchall) (standard : Methods) (handler : Handler)
    (gs : List (String × List Endpoint)) : List Call :=
  (gs.filter fun g => g.2.any fun e => c.targets e.view).map fun g =>
    .addView g.1 handler (c.optionsOn standard handler g.2)

theorem Catchall.targets_iff {c : Catchall} {view : Handler} :
    c.targets view = true ↔ c.targetKinds = [] ∨
      ∃ kind ∈ c.targetKinds, (if c.strict then view.kind.isSame kind else view.kind.isUnder kind) = true := by
  rw [targets, Bool.or_eq_true, List.isEmpty_iff, List.any_eq_true]

namespace Settings

/-- The endpoints that a tree has below `root` if it can be flattened, grouped. -/
def groupsBelow (s : Settings) (t : Tree) (root : String) :
    Except ServiceError (List (String × List Endpoint)) :=
  match s.endpoints t root with
  | .error e => .error (.tree e)
  | .ok _ => .ok (groupsOf (t.leaves.map (Leaf.endpoint root)))

def treePlan (s : Settings) (t : Tree) (root : String) : Except ServiceError (List Call) :=
  (s.groupsBelow t root).map fun gs => gs.flatMap groupCalls

def catchallPlan (s : Settings) (t : Tree) (handler : Handler) (c : Catchall) :
    Except ServiceError (List Call) :=
  (s.groupsBelow t c.root).map fun gs => c.calls s.defaultMethods handler gs

end Settings

/-- The route of the documentation `doc`, then its two views. -/
def Documenter.viewCalls (d : Documenter) (path : String) (serial : Nat) (doc : Documentation) : List Call :=
  [.addRoute path path,
    .addView path (d.outlineView serial doc) outlineOptions,
    .addView path (d.jsonView (serial + 1) doc) (jsonOptions d.settings.documentation)]

/-- There is no plan if the work on the documentation does not end. -/
def Documenter.viewsPlan (d : Documenter) (t : Tree) (path : String) (serial : Nat) :
    Option (Except ServiceError (List Call)) :=
  (d.document t).run.map fun result => result.map (d.viewCalls path serial)

/-! ### Following a plan -/

/-- A result without the log. -/
def unlogged {σ ε α : Type} : EStateM.Result ε (σ × List Call) α → EStateM.Result ε σ α
  | .ok a s => .ok a s.1
  | .error e s => .error e s.1

/-- Makes the calls of a plan, or fails with the reason for having none. -/
def Router.carryOut {σ : Type} (r : Router σ) (plan : Except ServiceError (List Call)) : Service σ Unit := do
  let calls ← .ofExcept id plan
  .ofRouter (r.perform calls)

/-- On every router the service makes the calls of the plan, until one is refused. -/
structure Follows (service : (σ : Type) → Router σ → Service σ Unit)
    (plan : Except ServiceError (List Call)) : Prop where
  /-- Without a plan it makes no call. -/
  unplanned : ∀ e, plan = .error e → ∀ (σ : Type) (r : Router σ) (s : σ),
    service _ r.recorded (s, []) = .error e (s, [])
  /-- It succeeds if no call is refused, and has made all calls then. -/
  ok_iff : ∀ calls, plan = .ok calls → ∀ (σ : Type) (r : Router σ) (s s' : σ) (made : List Call),
    service _ r.recorded (s, []) = .ok () (s', made) ↔ r.Accepts s calls s' ∧ made = calls
  /-- It fails if a call is refused, with this refusal, and has made no later call then. -/
  error_iff : ∀ calls, plan = .ok calls →
    ∀ (σ : Type) (r : Router σ) (s s' : σ) (made : List Call) (err : ServiceError),
      service _ r.recorded (s, []) = .error err (s', made) ↔
        ∃ before call after e, calls = before ++ call :: after ∧ r.RefusesAfter s before call e s' ∧
          made = before ++ [call] ∧ err = .router e
  /-- Nothing depends on the log. -/
  unlogged : ∀ (σ : Type) (r : Router σ) (s : σ), service _ r s = unlogged (service _ r.recorded (s, []))

/-- The same for a service that need not end: it has no effect at all on a router unless it has a plan. -/
structure FollowsIfAny (service : (σ : Type) → Router σ → Option (Service σ Unit))
    (plan? : Option (Except ServiceError (List Call))) : Prop where
  endless : plan? = none → ∀ (σ : Type) (r : Router σ), service σ r = none
  ends : ∀ plan, plan? = some plan → ∃ planned : (σ : Type) → Router σ → Service σ Unit,
    (∀ (σ : Type) (r : Router σ), service σ r = some (planned σ r)) ∧ Follows planned plan

namespace Service
variable {σ α : Type} {calls : EStateM Refusal σ α} {s s' : σ} {a : α} {err : ServiceError}

theorem ofRouter_eq_ok_iff : ofRouter calls s = .ok a s' ↔ calls s = .ok a s' := by
  unfold ofRouter EStateM.adaptExcept
  cases calls s <;> simp

theorem ofRouter_eq_error_iff :
    ofRouter calls s = .error err s' ↔ ∃ e, calls s = .error e s' ∧ err = .router e := by
  unfold ofRouter EStateM.adaptExcept
  cases calls s <;> simp [eq_comm, and_comm]

end Service

theorem unlogged_perform {σ : Type} (r : Router σ) (calls : List Call) (s : σ) (log : List Call) :
    unlogged (r.recorded.perform calls (s, log)) = r.perform calls s := by
  induction calls generalizing s log with
  | nil => rfl
  | cons call calls ih =>
    cases hc : call.on r s with
    | ok u s₁ =>
      have hlogged : call.on r.recorded (s, log) = .ok () (s₁, log ++ [call]) :=
        Router.on_recorded_eq_ok_iff.2 ⟨hc, rfl⟩
      rw [Router.perform_cons_of_ok hlogged, Router.perform_cons_of_ok hc, ih]
    | error e s₁ =>
      have hlogged : call.on r.recorded (s, log) = .error e (s₁, log ++ [call]) :=
        Router.on_recorded_eq_error_iff.2 ⟨hc, rfl⟩
      rw [Router.perform_cons_of_error hlogged, Router.perform_cons_of_error hc]
      rfl

theorem Service.unlogged_ofRouter {σ α : Type} {logged : EStateM Refusal (σ × List Call) α}
    {calls : EStateM Refusal σ α} {s : σ} {log : List Call} (h : unlogged (logged (s, log)) = calls s) :
    unlogged (Service.ofRouter logged (s, log)) = Service.ofRouter calls s := by
  unfold Service.ofRouter EStateM.adaptExcept
  rw [← h]
  cases logged (s, log) <;> rfl

/-- A service that performs the calls of a plan follows the plan. -/
theorem follows_of_perform {service : (σ : Type) → Router σ → Service σ Unit}
    {plan : Except ServiceError (List Call)}
    (h : ∀ (σ : Type) (r : Router σ), service σ r = r.carryOut plan) : Follows service plan := by
  cases plan with
  | error e =>
    refine ⟨fun e' he σ r s => ?_, nofun, nofun, fun σ r s => ?_⟩
    · cases he
      rw [h]; rfl
    · rw [h, h]; rfl
  | ok calls =>
    have hs : ∀ (σ : Type) (r : Router σ), service σ r = Service.ofRouter (r.perform calls) := h
    refine ⟨nofun, fun _ hc σ r s s' made => ?_, fun _ hc σ r s s' made err => ?_, fun σ r s => ?_⟩
    · cases hc
      rw [hs, Service.ofRouter_eq_ok_iff, Router.perform_eq_ok_iff, Router.recorded_accepts_iff,
        List.nil_append]
    · cases hc
      simp only [hs, Service.ofRouter_eq_error_iff, Router.perform_eq_error_iff,
        Router.recorded_refusesAfter_iff, List.nil_append]
      constructor
      · rintro ⟨e, ⟨before, call, after, hc, hr, rfl⟩, rfl⟩
        exact ⟨before, call, after, e, hc, hr, rfl, rfl⟩
      · rintro ⟨before, call, after, e, hc, hr, rfl, rfl⟩
        exact ⟨e, ⟨before, call, after, hc, hr, rfl⟩, rfl⟩
    · rw [hs, hs]
      exact (Service.unlogged_ofRouter (unlogged_perform r calls s [])).symm

/-! ### The three services -/

section
variable {σ : Type} (r : Router σ)

theorem forM_addView_eq_perform (route : String) (es : List Endpoint) :
    es.forM (fun e => r.addView route e.view e.options) =
      r.perform (es.map fun e => .addView route e.view e.options) := by
  induction es with
  | nil => rfl
  | cons e es ih =>
    rw [List.map_cons, Router.perform_cons, ← ih]
    rfl

theorem EndpointMap.register_eq_perform (m : EndpointMap) :
    m.register r = r.perform (m.groups.flatMap groupCalls) := by
  rw [EndpointMap.register]
  induction m.groups with
  | nil => rfl
  | cons g gs ih =>
    rw [List.flatMap_cons, Router.perform_append, ← ih]
    show (r.addRoute g.1 g.1 >>= fun _ => g.2.forM _) >>= _ = _
    rw [forM_addView_eq_perform]
    rfl

theorem Catchall.register_eq_perform (c : Catchall) (standard : Methods) (handler : Handler) (m : EndpointMap) :
    c.register standard r handler m = r.perform (c.calls standard handler m.groups) := by
  rw [Catchall.register, Catchall.calls]
  induction m.groups with
  | nil => rfl
  | cons g gs ih =>
    show (if g.2.any (fun e => c.targets e.view) = true then r.addView g.1 handler _ else pure ()) >>= _ = _
    rw [List.filter_cons]
    split
    · rw [List.map_cons]
      show _ = r.addView g.1 handler _ >>= fun _ => r.perform _
      rw [← ih]
    · exact (pure_bind ..).trans ih

end

theorem Settings.groups_of_endpoints {s : Settings} {t : Tree} {root : String} {m : EndpointMap}
    (h : s.endpoints t root = .ok m) : m.Groups (t.leaves.map (Leaf.endpoint root)) := by
  obtain ⟨-, -, rfl⟩ := Tree.endpoints_eq_ok_iff.1 h
  exact EndpointMap.groups_ofList _

theorem Settings.registerTree_of_endpoints {σ : Type} {s : Settings} {t : Tree} {root : String} {m : EndpointMap}
    (hm : s.endpoints t root = .ok m) (r : Router σ) :
    s.registerTree r t root = Service.ofRouter (m.register r) := by
  rw [Settings.registerTree, hm]
  rfl

theorem Settings.registerCatchall_of_endpoints {σ : Type} {s : Settings} {t : Tree} {c : Catchall} {m : EndpointMap}
    (hm : s.endpoints t c.root = .ok m) (r : Router σ) (handler : Handler) :
    s.registerCatchall r t handler c = Service.ofRouter (c.register s.defaultMethods r handler m) := by
  rw [Settings.registerCatchall, hm]
  rfl

theorem Settings.registerTree_eq_ok_iff {σ : Type} {s : Settings} {r : Router σ} {t : Tree} {root : String}
    {before after : σ} :
    s.registerTree r t root before = .ok () after ↔
      ∃ m, s.endpoints t root = .ok m ∧ Service.ofRouter (m.register r) before = .ok () after := by
  constructor
  · intro h
    cases hm : s.endpoints t root with
    | error e =>
      rw [Settings.registerTree, hm] at h
      cases h
    | ok m => exact ⟨m, rfl, Settings.registerTree_of_endpoints hm r ▸ h⟩
  · rintro ⟨m, hm, h⟩
    rw [Settings.registerTree_of_endpoints hm]
    exact h

theorem follows_treePlan (s : Settings) (t : Tree) (root : String) :
    Follows (fun _ r => s.registerTree r t root) (s.treePlan t root) := by
  refine follows_of_perform fun σ r => ?_
  rw [Settings.registerTree, Settings.treePlan, Settings.groupsBelow]
  cases hm : s.endpoints t root with
  | error e => rfl
  | ok m =>
    show Service.ofRouter (m.register r) = Service.ofRouter (r.perform _)
    rw [EndpointMap.register_eq_perform, (Settings.groups_of_endpoints hm).groups]
    rfl

theorem follows_catchallPlan (s : Settings) (t : Tree) (handler : Handler) (c : Catchall) :
    Follows (fun _ r => s.registerCatchall r t handler c) (s.catchallPlan t handler c) := by
  refine follows_of_perform fun σ r => ?_
  rw [Settings.registerCatchall, Settings.catchallPlan, Settings.groupsBelow]
  cases hm : s.endpoints t c.root with
  | error e => rfl
  | ok m =>
    show Service.ofRouter (c.register s.defaultMethods r handler m) = Service.ofRouter (r.perform _)
    rw [Catchall.register_eq_perform, (Settings.groups_of_endpoints hm).groups]
    rfl

theorem Documenter.registerViews_of_run {σ : Type} {d : Documenter} {t : Tree}
    {result : Except ServiceError Documentation} (h : (d.document t).run = some result) (r : Router σ) (path : String)
    (serial : Nat) :
    d.registerViews r t path serial = some (r.carryOut (result.map (d.viewCalls path serial))) := by
  rw [registerViews, h]
  cases result with
  | error e => rfl
  | ok doc =>
    refine congrArg some ?_
    show Service.ofRouter _ = Service.ofRouter (r.perform _)
    simp [Router.perform, Call.on, viewCalls]

theorem Documenter.registerViews_of_endless {σ : Type} {d : Documenter} {t : Tree} (h : (d.document t).run = none)
    (r : Router σ) (path : String) (serial : Nat) : d.registerViews r t path serial = none := by
  rw [registerViews, h]
  rfl

theorem follows_viewsPlan (d : Documenter) (t : Tree) (path : String) (serial : Nat) :
    FollowsIfAny (fun _ r => d.registerViews r t path serial) (d.viewsPlan t path serial) := by
  rw [Documenter.viewsPlan]
  cases hrun : (d.document t).run with
  | none => exact ⟨fun _ _ r => d.registerViews_of_endless hrun r path serial, nofun⟩
  | some result =>
    refine ⟨nofun, ?_⟩
    rintro plan ⟨⟩
    exact ⟨_, fun _ r => d.registerViews_of_run hrun r path serial, follows_of_perform fun _ _ => rfl⟩

/-- On every router the three services do what their plans say, and no plan depends on the router. -/
theorem services_follow_plans (s : Settings) (d : Documenter) (t : Tree) (root path : String) (serial : Nat)
    (handler : Handler) (c : Catchall) :
    Follows (fun _ r => s.registerTree r t root) (s.treePlan t root) ∧
      Follows (fun _ r => s.registerCatchall r t handler c) (s.catchallPlan t handler c) ∧
      FollowsIfAny (fun _ r => d.registerViews r t path serial) (d.viewsPlan t path serial) :=
  ⟨follows_treePlan s t root, follows_catchallPlan s t handler c, follows_viewsPlan d t path serial⟩

end RouteTree
