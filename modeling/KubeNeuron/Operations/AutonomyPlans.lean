import KubeNeuron.Operations.AutonomyEffects

/-!
# The lifecycle of a plan

The requests of operators (a new plan, its simulation, its approvals, pause, resume, rollback) and
the reconcile pass that walks over all plans, expires them, runs their batches and measures their
bakes.

`autonomyProgram` is the program that serves a request. The pass lists the plans page by page; it is
given a number of pages, since a program is finite, and a pass that lists more pages is one with a
larger number.
-/

namespace KubeNeuron.Operations

open Lib KubeNeuron.Types Accelerator Decision Store

/-! ## Writes of a plan and its rollout -/

def updateAutonomyRollout (id : Str) (state : PlanState) (reason : Str) : Op Rollout := do
  let rollout ← getAutonomyRollout id
  saveAutonomyRollout { rollout with state, reason }

variable (m : Manager) (plan : Plan)

/-- The rollout of a plan, if it has one, follows the plan's state. -/
def followPlan (reason : Str) : Op Unit := do
  if plan.rolloutID = [] then
    return ()
  let _ ← updateAutonomyRollout plan.rolloutID plan.state reason
  return ()

/-- `transitionAutonomyPlan`. That the rollout does not follow is not reported. -/
def transitionAutonomyPlan (planID : Str) (target : PlanState) (reason : Str)
    (expectedVersion : Int) : Op Plan := do
  let plan ← getAutonomyPlan planID
  demand (expectedVersion ≤ 0 || expectedVersion = plan.version) Err.conflict
  demand (!plan.state.terminal)
    (Err.invalidState
      (lit "plan " ++ m.quote planID ++ lit " is already terminal (" ++ plan.state.text ++
      lit ")"))
  demand (trimSpace reason ≠ [])
    (Err.plain (toLower m.lower target.text ++ lit " reason is required"))
  let plan ← saveAutonomyPlan { plan with state := target }
  let _ ← (followPlan plan reason).attempt
  audit (toLower m.lower target.text)
  return plan

/-- Move a plan on, unless it has changed since it was listed. -/
def moveAutonomyPlan (expected : Plan) (state : PlanState) (reason : Str) : Op Unit := do
  let plan ← getAutonomyPlan expected.id
  demand (plan.version = expected.version && plan.state = expected.state && !plan.state.terminal &&
    plan.state ≠ .paused) Err.conflict
  let plan ← saveAutonomyPlan { plan with state }
  followPlan plan reason
  audit (lit "reconcile")

/-! ## Batches -/

/-- Run the first batch. -/
def admitAutonomyCanary : Op Unit := do
  demand m.lists (Err.plain (lit "node inventory lister is unavailable"))
  let nodes ← listNodes
  let names ← Prog.ofExcept (selectedNodes plan nodes)
  demand (plan.rollout.canaryNodes ≤ names.length)
    (Err.plain (lit "canary requires " ++ intText plan.rollout.canaryNodes ++
      lit " eligible selector nodes, found " ++ natText names.length))
  let selected := (sortStrings names).take plan.rollout.canaryNodes.toNat
  let rollout ← admitAutonomyTargets m plan selected
  let time ← now
  let _ ← saveAutonomyRollout { rollout with
    canaryNodes := selected
    bakeEffectIDs := latestAutonomyEffectIDs rollout.observations selected.length
    state := .baking
    bakeStartedAt := some time
    bakeMeasuredAt := none }
  moveAutonomyPlan plan .baking (lit "all canary gates satisfied")

/-- One bounded batch of an expansion towards a target. -/
def expandTowards (rollout : Rollout) (target : Int) : Op Unit := do
  let nodes ← listNodes
  let used := usedNodes rollout
  let names ← Prog.ofExcept (selectedNodes plan nodes)
  let available := sortStrings (names.filter fun n => n ∉ used)
  let need : Int := target - used.length
  if need ≤ 0 then
    moveAutonomyPlan plan .baking (lit "expansion target already recorded; starting bake")
  else
    demand (need ≤ available.length)
      (Err.plain
        (lit "expansion requires " ++ intText need ++ lit " additional selector nodes, found " ++
        natText available.length))
    let selected := available.take (min need plan.guardrails.maxConcurrentNodes).toNat
    let rollout ← admitAutonomyTargets m plan selected
    let time ← now
    let rollout ← saveAutonomyRollout { rollout with
      expandedNodes := rollout.expandedNodes ++ selected
      bakeEffectIDs := latestAutonomyEffectIDs rollout.observations selected.length
      state := .baking
      bakeStartedAt := some time
      bakeMeasuredAt := none }
    moveAutonomyPlan plan .baking
      (lit "expanded to " ++ natText (rollout.canaryNodes.length + rollout.expandedNodes.length) ++
        lit " selected nodes; starting bake")

/-- Run the next batch. -/
def admitAutonomyExpansion : Op Unit := do
  demand m.lists (Err.plain (lit "node inventory lister is unavailable"))
  let rollout ← getAutonomyRollout plan.rolloutID
  match nextAutonomyExpansionTarget plan rollout with
  | none => moveAutonomyPlan plan .enabled (lit "all bounded expansion steps completed")
  | some target => expandTowards m plan rollout target

/-! ## The bake -/

/-- The observation of an effect: the last one recorded for it. -/
def observationOf (observations : List Observation) (id : EffectID) : Option Observation :=
  observations.reverse.find? fun o => o.effectID = some id

/-- The measurement of one effect, and whether it counts as a failure. -/
def measureEffect (observations : List Observation) (id : EffectID) :
    Op (BakeMeasurement × Bool) := do
  match observationOf observations id with
  | none =>
    .fail (Err.plain (lit "hardware-qualified rollout is missing observation for effect " ++
      m.quote (m.effectText id)))
  | some observation =>
    match ← (loadAutonomyEffect id).attempt with
    | .error e =>
      .fail (e.wrap (lit "load autonomy effect " ++ m.quote (m.effectText id) ++ lit ": "))
    | .ok effect =>
      let time ← now
      if effect.state ≠ .accepted ∧ effect.state ≠ .completed then
        let summary := lit "effect is not in a successful terminal state: " ++ effect.state.text
        return (⟨observation.node, effect.id, summary, time⟩, true)
      let snapshot ← buildAutonomySnapshot m plan observation.node effect.id.targetDeviceID false
      match ← (captureDecision m snapshot).attempt with
      | .error e =>
        .fail (e.wrap (lit "capture bake measurement for node " ++ observation.node ++ lit ": "))
      | .ok captured =>
        if !captured.decision.permitted then
          return (⟨observation.node, effect.id, captured.decision.humanSummary, time⟩, true)
        if snapshot.report.all fun r => r.observedAt ≤ effect.updatedAt then
          return (⟨observation.node, effect.id,
            lit "post-effect accelerator evidence was not observed after effect completion",
            time⟩, true)
        return (⟨observation.node, effect.id,
          lit "post-effect evidence passed the shared evaluator", time⟩, false)

/-- The loop of `measureAutonomyBake`. -/
def measureEffects (m : Manager) (plan : Plan) (observations : List Observation) :
    List EffectID → Op (List BakeMeasurement × Int)
  | [] => .done ([], 0)
  | id :: rest => do
      let (measurement, failed) ← measureEffect m plan observations id
      let (measurements, failures) ← measureEffects m plan observations rest
      return (measurement :: measurements, failures + if failed then 1 else 0)

def measureAutonomyBake (rollout : Rollout) : Op (List BakeMeasurement × Int) := do
  if !rollout.hardwareQualified then
    return ([], 0)
  demand (rollout.bakeEffectIDs ≠ [])
    (Err.plain (lit "hardware-qualified rollout has no effects in the current bake interval"))
  measureEffects m plan rollout.observations rollout.bakeEffectIDs

/-! ## The reconcile pass -/

/-- A step of the walk over the plans: the plan that somebody else changed meanwhile is left to the
next pass, any other error ends the walk. -/
def unlessConflict {α : Type} (p : Op α) : Op Unit := do
  match ← p.attempt with
  | .ok _ => return ()
  | .error e => if e.cause = .conflict then return () else .fail e

/-- A transition that the pass makes. -/
def systemTransition (target : PlanState) (reason : Str) : Op Unit :=
  unlessConflict (transitionAutonomyPlan m plan.id target reason plan.version)

/-- The walk's case of a plan in its canary. -/
def reconcileCanary : Op Unit := do
  match ← (admitAutonomyCanary m plan).attempt with
  | .ok _ => return ()
  | .error e =>
    match ← (getAutonomyRollout plan.rolloutID).attempt with
    | .error _ => systemTransition m plan .paused e.text
    | .ok rollout =>
      if plan.guardrails.errorBudget < rollout.failures then
        systemTransition m plan .rolledBack (lit "canary exceeded error budget: " ++ e.text)
      else systemTransition m plan .paused e.text

/-- The end of a bake that was measured: back, on to the next batch, or done. -/
def finishBake (rollout : Rollout) : Op Unit :=
  if plan.guardrails.errorBudget < rollout.failures then
    systemTransition m plan .rolledBack (lit "bake measurements exceeded error budget")
  else
    let target : PlanState :=
      if (nextAutonomyExpansionTarget plan rollout).isSome then .expanding else .enabled
    unlessConflict (moveAutonomyPlan plan target (lit "bake completed"))

def measureBake (rollout : Rollout) : Op Unit := do
  match ← (measureAutonomyBake m plan rollout).attempt with
  | .error e => systemTransition m plan .paused (lit "bake measurement unavailable: " ++ e.text)
  | .ok (measurements, failures) =>
    let time ← now
    let rollout ← saveAutonomyRollout { rollout with
      bakeMeasurements := rollout.bakeMeasurements ++ measurements
      failures := rollout.failures + failures
      bakeMeasuredAt := some time }
    finishBake m plan rollout

/-- The walk's case of a plan that bakes. -/
def reconcileBaking : Op Unit := do
  let rollout ← getAutonomyRollout plan.rolloutID
  if plan.guardrails.errorBudget < rollout.failures then
    systemTransition m plan .rolledBack (lit "canary exceeded error budget")
  else
    match rollout.bakeStartedAt with
    | none => return ()
    | some startedAt =>
      let time ← now
      if time < startedAt + plan.rollout.bakeDuration then return ()
      else if rollout.bakeMeasuredAt.isNone then measureBake m plan rollout
      else finishBake m plan rollout

/-- The body of the walk: what one pass does with one plan. -/
def reconcilePlan : Op Unit := do
  if plan.state.terminal then
    return ()
  let time ← now
  if plan.expiresAt ≤ time then
    systemTransition m plan .expired (lit "plan expiry elapsed")
  else
    match plan.state with
    | .canary => reconcileCanary m plan
    | .baking => reconcileBaking m plan
    | .expanding => unlessConflict (admitAutonomyExpansion m plan)
    | _ => return ()

/-- The walk over one page. -/
def reconcilePage (m : Manager) : List Plan → Op Unit
  | [] => .done ()
  | plan :: rest => do
      reconcilePlan m plan
      reconcilePage m rest

/-- `ListAutonomyPlansWithOptions`, a full page after the cursor. -/
def listAutonomyPlans (cursor : Option (Int × Str)) : Op (List Plan) :=
  .call (.listPlans cursor) .ofExcept

/-- The last plan of a page comes after the cursor. -/
def cursorAdvanced (cursor : Option (Int × Str)) (last : Plan) : Bool :=
  cursor.all fun c => c.1 < last.createdAt || (last.createdAt = c.1 && c.2 < last.id)

/-- `ReconcileAutonomy`, for a number of pages. -/
def reconcileAutonomy (m : Manager) : Nat → Option (Int × Str) → Op Unit
  | 0, _ => .done ()
  | pages + 1, cursor => do
      let plans ← listAutonomyPlans cursor
      reconcilePage m plans
      match plans.getLast? with
      | none => return ()
      | some last =>
        if plans.length < AutonomyStore.pageLimit then return ()
        else
          demand (cursorAdvanced cursor last)
            (Err.plain (lit ("operations: inventory snapshot is incomplete or stale: " ++
              "autonomy reconciliation cursor did not advance")))
          reconcileAutonomy m pages (some (last.createdAt, last.id))

/-! ## A new plan -/

/-- The texts that a request has to fill. -/
def requireTexts (texts : List Str) (message : Str) : Op Unit :=
  demand (texts.all fun t => trimSpace t ≠ []) (Err.plain message)

def getSimulation (id : Str) : Op Simulation := .call (.getSimulation id) .ofExcept

/-- `PutOperationalIdempotency`. -/
def putKey (r : KeyRecord) : Op (KeyRecord × Bool) := .call (.putKey r) .ofExcept

def scopedIdempotencyKey (operation key : Str) : Str := operation ++ lit ":" ++ key

def defaultAutonomyPlanTTL : Int := 24 * hour

/-- The plan that a request asks for. -/
def draftPlan (id : Str) (request : PlanRequest) (time : Int) : Plan :=
  { id, version := 1, state := .draft, selector := request.selector,
    allowedActions := request.allowedActions, targetDeviceID := [], evidence := request.evidence,
    guardrails := request.guardrails, rollout := request.rollout, approvals := request.approvals,
    approvalRecords := [], simulationID := [], configDigest := m.planDigest request,
    rolloutID := [],
    expiresAt := request.expiresAt, tenant := request.tenant, cluster := request.cluster,
    createdAt := time }

def Plan.simulatedBy (simulation : Simulation) : Plan :=
  { plan with
    targetDeviceID := trimSpace simulation.deviceID
    state := .simulated
    simulationID := simulation.id
    configDigest := simulation.decision.configDigest }

/-- The simulation that a request names, checked before a key is reserved. -/
def requestedSimulation (id : Str) : Op (Option Simulation) := do
  if id = [] then
    return none
  match ← (getSimulation id).attempt with
  | .error e => .fail (e.wrap (lit "autonomy plan simulation: "))
  | .ok simulation =>
    Prog.ofExcept (validateSimulationForAutonomy m.quote plan simulation)
    return some simulation

/-- `CreateAutonomyPlan`. A time that JSON cannot hold is refused when the payload is written. -/
def createAutonomyPlan (actor key : Str) (request : PlanRequest) : Op Plan := do
  requireTexts [actor, key] (lit "actor and idempotency key are required")
  let time ← now
  let expiresAt :=
    if zeroTime request.expiresAt then time + defaultAutonomyPlanTTL else request.expiresAt
  let resolved := normalizeAutonomyRequest m.lower { request with expiresAt }
  Prog.ofExcept ((validateAutonomyRequest m.lower resolved time).mapError Err.plain)
  let draft := draftPlan m [] resolved time
  let simulation ← requestedSimulation m draft resolved.simulationID
  let id ← newID (lit "autonomy")
  let digest := RequestDigest.create { resolved with expiresAt := request.expiresAt }
  let (record, created) ← putKey ⟨actor, scopedIdempotencyKey (lit "create") key, digest, id⟩
  if !created then
    demand (record.digest = digest) Err.keyConflict
    getAutonomyPlan record.resourceID
  else
    let draft := draftPlan m id resolved time
    let plan := simulation.elim draft draft.simulatedBy
    demand (fourDigitYear plan.expiresAt)
      (Err.plain (lit "Time.MarshalJSON: year outside of range [0,9999]"))
    Prog.call (.createPlan plan) .ofExcept
    audit (lit "create")
    return plan

/-! ## Changes of a plan -/

def attachSimulation (planID simulationID : Str) (expectedVersion : Int) : Op Plan := do
  let plan ← getAutonomyPlan planID
  demand (expectedVersion ≤ 0 || expectedVersion = plan.version) Err.conflict
  demand (plan.state = .draft)
    (Err.invalidState (lit "plan " ++ m.quote planID ++ lit " is " ++ plan.state.text))
  let simulation ← getSimulation simulationID
  Prog.ofExcept (validateSimulationForAutonomy m.quote plan simulation)
  let plan ← saveAutonomyPlan (plan.simulatedBy simulation)
  audit (lit "attach-simulation")
  return plan

/-- What the approvals that a plan has say about another one: it stands already, it is refused, or
nothing. -/
def approvalStanding (m : Manager) (plan : Plan) (actor role : Str) :
    List Approval → Option (Except Err Unit)
  | [] => none
  | a :: rest =>
    if a.role = role then
      if a.actor = actor ∧ a.configDigest = plan.configDigest then some (.ok ())
      else some (.error
        (Err.invalidState (lit "role " ++ m.quote role ++ lit " is already approved")))
    else if plan.approvals.distinctSubjects = true ∧ a.actor = actor then
      some (.error (Err.invalidState
        (lit "actor " ++ m.quote actor ++ lit " may not satisfy multiple approval roles")))
    else approvalStanding m plan actor role rest

def createAutonomyRollout : Op Rollout := do
  let id ← newID (lit "rollout")
  let rollout : Rollout :=
    { id, version := 1, planID := plan.id, state := .canary, canaryNodes := [], expandedNodes := [],
      observations := [], bakeMeasurements := [], bakeStartedAt := none, bakeMeasuredAt := none,
      bakeEffectIDs := [], actionWindowAt := none, actionsThisHour := 0, failures := 0,
      hardwareQualified := m.executes, reason := [], expiresAt := plan.expiresAt }
  Prog.call (.createRollout rollout) .ofExcept
  audit (lit "create")
  return rollout

def Plan.approvedBy (actor role : Str) : Plan :=
  { plan with
    approvalRecords := plan.approvalRecords ++ [⟨actor, role, plan.configDigest⟩]
    state := .awaitingApproval }

/-- The plan that enters its canary once all roles have approved. -/
def startIfApproved : Op Plan := do
  if allRolesApproved plan then
    let rollout ← createAutonomyRollout m { plan with state := .canary }
    return { plan with state := .canary, rolloutID := rollout.id }
  else
    return plan

def approveAutonomyPlan (actor planID role : Str) (expectedVersion : Int) : Op Plan := do
  let plan ← getAutonomyPlan planID
  demand (expectedVersion ≤ 0 || expectedVersion = plan.version) Err.conflict
  demand (plan.state = .simulated || plan.state = .awaitingApproval)
    (Err.invalidState (lit "plan " ++ m.quote planID ++ lit " is " ++ plan.state.text))
  demand (plan.approvals.requiredRoles.contains role)
    (Err.plain
      (lit "approval role " ++ m.quote role ++ lit " is not required by plan " ++ m.quote planID))
  match approvalStanding m plan actor role plan.approvalRecords with
  | some (.ok _) => return plan
  | some (.error e) => .fail e
  | none =>
    let plan ← startIfApproved m (plan.approvedBy actor role)
    let plan ← saveAutonomyPlan plan
    audit (lit "approve")
    return plan

def pauseAutonomyPlan (planID reason : Str) (expectedVersion : Int) : Op Plan :=
  transitionAutonomyPlan m planID .paused reason expectedVersion

def rollbackAutonomyPlan (planID reason : Str) (expectedVersion : Int) : Op Plan :=
  transitionAutonomyPlan m planID .rolledBack reason expectedVersion

def resumeAutonomyPlan (planID reason : Str) (expectedVersion : Int) : Op Plan := do
  let plan ← getAutonomyPlan planID
  demand (expectedVersion ≤ 0 || expectedVersion = plan.version) Err.conflict
  demand (plan.state = .paused)
    (Err.invalidState (lit "plan " ++ m.quote planID ++ lit " is " ++ plan.state.text))
  let time ← now
  demand (time < plan.expiresAt)
    (Err.invalidState (lit "plan " ++ m.quote planID ++ lit " has expired"))
  demand (allRolesApproved plan)
    (Err.invalidState
      (lit "plan " ++ m.quote planID ++ lit " no longer has all required approvals"))
  demand (trimSpace reason ≠ []) (Err.plain (lit "resume reason is required"))
  let plan ← saveAutonomyPlan { plan with state := .canary }
  followPlan plan (lit "resumed: " ++ reason)
  audit (lit "resume")
  return plan

/-! ## Keyed requests -/

/-- A change that an operator asks for. -/
inductive Change where
  | attach (simulationID : Str)
  | approve (role : Str)
  | pause (reason : Str)
  | resume (reason : Str)
  | rollback (reason : Str)

/-- The name of the operation in keys and digests. -/
def Change.action : Change → Str
  | .attach _ => lit "attach-simulation"
  | .approve _ => lit "approve"
  | .pause _ => lit "pause"
  | .resume _ => lit "resume"
  | .rollback _ => lit "rollback"

/-- The arguments in the digest. -/
def Change.params : Change → List (Str × Str)
  | .attach simulationID => [(lit "simulation_id", simulationID)]
  | .approve role => [(lit "role", role)]
  | .pause reason | .resume reason | .rollback reason => [(lit "reason", reason)]

/-- The function that makes the change. -/
def Change.apply (actor planID : Str) (expectedVersion : Int) : Change → Op Plan
  | .attach simulationID => attachSimulation m planID simulationID expectedVersion
  | .approve role => approveAutonomyPlan m actor planID role expectedVersion
  | .pause reason => pauseAutonomyPlan m planID reason expectedVersion
  | .resume reason => resumeAutonomyPlan m planID reason expectedVersion
  | .rollback reason => rollbackAutonomyPlan m planID reason expectedVersion

/-- `reserveAutonomyMutation`: the plan when the key was used before, nothing when it is reserved
now. -/
def reserveAutonomyMutation (actor planID key : Str) (expectedVersion : Int) (change : Change) :
    Op (Option Plan) := do
  requireTexts [actor, planID, key] (lit "actor, plan ID, and idempotency key are required")
  let digest := RequestDigest.change planID change.action expectedVersion change.params
  let storageKey := scopedIdempotencyKey change.action key
  let existing : Except Err KeyRecord ←
    (Prog.call (.getKey actor storageKey) .ofExcept : Op KeyRecord).attempt
  match existing with
  | .ok record =>
    demand (record.digest = digest && record.resourceID = planID) Err.keyConflict
    return some (← getAutonomyPlan planID)
  | .error e =>
    demand (e.cause = .notFound) e
    let current ← getAutonomyPlan planID
    demand (expectedVersion ≤ 0 || expectedVersion = current.version) Err.conflict
    let (record, created) ← putKey ⟨actor, storageKey, digest, planID⟩
    if created then
      return none
    else
      demand (record.digest = digest && record.resourceID = planID) Err.keyConflict
      return some (← getAutonomyPlan planID)

/-- The keyed variants of the changes: `AttachSimulationRequest`, `ApproveAutonomyPlanRequest`,
`PauseAutonomyPlanRequest`, `ResumeAutonomyPlanRequest` and `RollbackAutonomyPlanRequest`. -/
def changeRequest (actor planID key : Str) (expectedVersion : Int) (change : Change) :
    Op Plan := do
  match ← reserveAutonomyMutation actor planID key expectedVersion change with
  | some plan => return plan
  | none => change.apply m actor planID expectedVersion

/-! ## Requests -/

/-- What the manager is asked to do. -/
inductive AutonomyRequest where
  | reconcile (pages : Nat)
  | create (actor key : Str) (request : PlanRequest)
  | change (actor planID : Str) (expectedVersion : Int) (c : Change)
  | keyed (actor planID key : Str) (expectedVersion : Int) (c : Change)

/-- The result is returned to the caller, who is not part of the model. -/
def discard {α : Type} (p : Op α) : Op Unit := do
  let _ ← p
  return ()

def autonomyProgram : AutonomyRequest → Op Unit
  | .reconcile pages => reconcileAutonomy m pages none
  | .create actor key request => discard (createAutonomyPlan m actor key request)
  | .change actor planID expectedVersion c => discard (c.apply m actor planID expectedVersion)
  | .keyed actor planID key expectedVersion c =>
    discard (changeRequest m actor planID key expectedVersion c)

/-- The system: all requests that are being served, on one store. -/
abbrev AutonomySystem : Type :=
  System AutonomyStore AutonomyCall AutonomyCall.Answer Err AutonomyRequest

abbrev AutonomyOp : Type := SystemOp AutonomyRequest CallInput StoreEvent

/-- The step function of the system. -/
def autonomyNext : AutonomySystem → AutonomyOp → Option AutonomySystem :=
  systemNext (autonomyProgram m) autonomyPerform autonomyEnv

/-- The system before the first request. -/
def AutonomySystem.start (clock : Int) : AutonomySystem := ⟨AutonomyStore.empty clock, [], []⟩

end KubeNeuron.Operations
