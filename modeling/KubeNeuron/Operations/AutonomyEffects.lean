import KubeNeuron.Operations.AutonomyStore

/-!
# Admitting the nodes of a batch

The part of `autonomy.go` that leads to the executor: `admitAutonomyTargets` takes the nodes of a
batch one after another, captures a decision for each, spends a slot of the hourly budget, and hands
over to `executeAutonomyEffect`, which records the effect, claims its dispatch, checks the plan once
more and calls the executor.
-/

namespace KubeNeuron.Operations

open Lib KubeNeuron.Types Accelerator Decision

/-- A function of the manager: a program over the autonomy calls. -/
abbrev Op (α : Type) : Type := Prog AutonomyCall AutonomyCall.Answer Err α

/-- The dependencies of the `Manager` that the autonomy code looks at: whether it has an executor,
an inventory lister and a window resolver, and the functions its texts and decisions are made
with. -/
structure Manager where
  executes : Bool
  lists : Bool
  resolvesWindows : Bool
  quote : Str → Str
  lower : Str → Str
  digests : Decision.Digests
  planDigest : PlanRequest → Str
  effectText : EffectID → Str

/-! ## Calls as programs -/

/-- `m.now()`. -/
def now : Op Int := .call .now .done

def newID (kind : Str) : Op Str := .call (.newID kind) .done

/-- `getAutonomyPlan` and `loadAutonomyPlan`. -/
def getAutonomyPlan (id : Str) : Op Plan := .call (.getPlan id) .ofExcept

def audit (action : Str) : Op Unit := .call (.audit action) .ofExcept

def loadAutonomyEffect (id : EffectID) : Op Effect := .call (.getEffect id) .ofExcept

/-- `CreateOperationalResource` of an effect. -/
def createEffect (effect : Effect) : Op Unit := .call (.createEffect effect) .ofExcept

def listNodes : Op (List (Option Decision.Node)) := .call .listNodes .ofExcept

/-- `m.autonomyMaintenanceWindowActive`. -/
def windowActive (node : Str) (windows : List Str) : Op Bool :=
  .call (.windowActive node windows) .ofExcept

def buildSnapshot (node : Str) (request : Decision.Request) : Op Decision.Snapshot :=
  .call (.buildSnapshot node request) .ofExcept

/-- End with an error unless the condition holds. -/
def demand (ok : Bool) (e : Err) : Op Unit := if ok then .done () else .fail e

variable (m : Manager) (plan : Plan)

/-- `saveAutonomyPlan`: the plan is written over the version it was read at. -/
def saveAutonomyPlan : Op Plan := do
  Prog.call (.updatePlan plan plan.version) .ofExcept
  return { plan with version := plan.version + 1 }

def saveAutonomyEffect (effect : Effect) : Op Effect := do
  Prog.call (.updateEffect effect effect.version) .ofExcept
  return { effect with version := effect.version + 1 }

def getAutonomyRollout (id : Str) : Op Rollout := do
  demand (id ≠ []) (Err.plain (lit "autonomy rollout is missing"))
  Prog.call (.getRollout id) .ofExcept

/-- `saveAutonomyRollout`: the row is read again, and has to be the one the caller has seen. -/
def saveAutonomyRollout (rollout : Rollout) : Op Rollout := do
  let row : Rollout ← Prog.call (.getRollout rollout.id) .ofExcept
  demand (0 < rollout.version && row.version = rollout.version) Err.conflict
  Prog.call (.updateRollout rollout row.version) .ofExcept
  return { rollout with version := row.version + 1 }

/-! ## Fresh evidence -/

structure Captured where
  id : Str
  snapshot : Decision.Snapshot
  decision : Decision.Result

def captureDecision (snapshot : Decision.Snapshot) : Op Captured := do
  let time ← now
  let snapshot :=
    if zeroTime snapshot.evaluatedAt then { snapshot with evaluatedAt := time } else snapshot
  let id ← newID (lit "decision")
  let decision := Decision.evaluate m.quote m.lower m.digests snapshot
  Prog.call (.createDecision id decision) .ofExcept
  audit (lit "capture")
  return ⟨id, snapshot, decision⟩

def autonomyDecisionRequest (node targetDeviceID : Str) : Op (Decision.Request × Bool) := do
  let approved := allRolesApproved plan
  let action := plan.allowedActions.headD (.other [])
  let request : Decision.Request :=
    { cls := .autonomous, acceleratorAction := action, scope := scopeForAutonomyAction action,
      targetDeviceID, approvalRequired := true, approvalGranted := approved,
      maintenanceRequired := false, allowDuringMaintenance := false,
      elevatedAuthorizationGranted := false, disruptionBudgetApproved := false }
  if plan.guardrails.maintenanceWindows = [] then
    return (request, false)
  demand m.resolvesWindows
    (Err.unavailable (lit "autonomy maintenance-window resolver is unavailable"))
  match ← (windowActive node plan.guardrails.maintenanceWindows).attempt with
  | .error e =>
    .fail (e.wrap (lit "resolve autonomy maintenance window for node " ++ node ++ lit ": "))
  | .ok active =>
    let windowed := { request with
      maintenanceRequired := true
      allowDuringMaintenance := true
      elevatedAuthorizationGranted := approved
      disruptionBudgetApproved := approved }
    return (windowed, active)

def buildAutonomySnapshot (node targetDeviceID : Str)
    (budgetExhausted : Bool) : Op Decision.Snapshot := do
  let (request, maintenanceActive) ← autonomyDecisionRequest m plan node targetDeviceID
  match ← (buildSnapshot node request).attempt with
  | .error e => .fail (e.wrap (lit "capture autonomy node " ++ node ++ lit ": "))
  | .ok snapshot =>
    demand (operationalNodeScopeMatches snapshot.node plan.tenant plan.cluster)
      (Err.invalidState
        (lit "node " ++ m.quote snapshot.node.name ++
          lit " is outside requested tenant/cluster scope"))
    return { snapshot with
      maintenanceActive :=
        if plan.guardrails.maintenanceWindows = [] then snapshot.maintenanceActive
        else maintenanceActive
      request
      requiredConfigDigest := plan.configDigest
      evidenceMaxAge := plan.evidence.maxAge
      requiredEvidenceSources := plan.evidence.requiredSources
      limits := { snapshot.limits with
        maxConcurrentNodes := plan.guardrails.maxConcurrentNodes
        maxActionsPerHour := plan.guardrails.maxActionsPerHour }
      autonomyBudgetExhausted := budgetExhausted }

/-! ## The hand-over to the executor -/

def ensureAutonomyEffectEnvelope (expected : Plan) : Op Unit := do
  let current ← getAutonomyPlan expected.id
  demand (current.version = expected.version && current.state = expected.state &&
      (current.state = .canary || current.state = .expanding))
    (Err.invalidState
      (lit "autonomy plan " ++ m.quote expected.id ++ lit " is no longer active (" ++
      current.state.text ++ lit ")"))
  demand (current.rolloutID = expected.rolloutID)
    (Err.invalidState
      (lit "autonomy plan " ++ m.quote expected.id ++ lit " rollout binding changed"))
  demand (current.configDigest = expected.configDigest)
    (Err.invalidState
      (lit "autonomy plan " ++ m.quote expected.id ++ lit " configuration binding changed"))
  let time ← now
  demand (time < current.expiresAt)
    (Err.invalidState (lit "autonomy plan " ++ m.quote expected.id ++ lit " has expired"))
  demand (allRolesApproved current)
    (Err.invalidState
      (lit "autonomy plan " ++ m.quote expected.id ++ lit " no longer has required approvals"))

/-- `blockAutonomyEffect`. The record is written as `blocked` even if the audit fails. -/
def blockAutonomyEffect (effect : Effect) (reason : Str) : Op Effect := do
  let time ← now
  let effect ← saveAutonomyEffect { effect with
    state := .blocked, summary := reason, updatedAt := time }
  audit (lit "block-effect")
  return effect

/-- The record and the error that `executeAutonomyEffect` returns, either of which can be
missing. -/
abbrev Dispatched : Type := Option Effect × Option Err

/-- The effect's dispatch is blocked for a reason, which is also the error. -/
def refuseDispatch (effect : Effect) (e : Err) : Op Dispatched := do
  match ← (blockAutonomyEffect effect e.text).attempt with
  | .error blockErr => return (some effect, some blockErr)
  | .ok blocked => return (some blocked, some e)

/-- What an executor's answer makes of the record. Only the three terminal states are taken over. -/
def recordOutcome (effect : Effect) (time : Int) : Except Str EffectResult → Effect
  | .error text => { effect with state := .failed, summary := text, updatedAt := time }
  | .ok result =>
    let reported := trimSpace result.state
    let recorded : EffectState × Str :=
      if reported = [] ∨ reported = lit "accepted" then (.accepted, result.summary)
      else if reported = lit "completed" then (.completed, result.summary)
      else if reported = lit "failed" then (.failed, result.summary)
      else
        (.failed,
          if trimSpace result.summary = [] then
            lit "executor returned an unsupported nonterminal effect state"
          else result.summary)
    { effect with
      state := recorded.1, summary := recorded.2, reference := result.reference, updatedAt := time }

/-- The error an executor's answer is returned as. -/
def outcomeError : Except Str EffectResult → Option Err
  | .error text => some (Err.plain text)
  | .ok _ => none

/-- The request an effect is handed over with. -/
def effectRequest (effect : Effect) : EffectRequest :=
  ⟨effect.id, effect.scope, effect.decisionSnapshotID, effect.decision, effect.deadline⟩

/-- The call of the executor and the record of its answer. -/
def callExecutor (effect : Effect) : Op Dispatched := do
  let result ← Prog.ask (.execute (effectRequest effect))
  let time ← now
  let ended := recordOutcome effect time result
  match ← (saveAutonomyEffect ended).attempt with
  | .error saveErr => return (some ended, some saveErr)
  | .ok saved =>
    match ← (audit (lit "execute-effect")).attempt with
    | .error auditErr => return (some saved, some auditErr)
    | .ok _ => return (some saved, outcomeError result)

/-- The end of `executeAutonomyEffect`, once the dispatch is claimed: the fence, the deadline, the
call. -/
def dispatchClaimed (effect : Effect) : Op Dispatched := do
  match ← (audit (lit "dispatch-effect")).attempt with
  | .error auditErr => return (some effect, some auditErr)
  | .ok _ =>
    match ← (ensureAutonomyEffectEnvelope m plan).attempt with
    | .error e => refuseDispatch effect e
    | .ok _ =>
      let time ← now
      if time < effect.deadline then callExecutor effect
      else
        refuseDispatch effect (Err.invalidState
          (lit "autonomy effect " ++ m.quote (m.effectText effect.id) ++
            lit " decision evidence has expired"))

/-- The claim of a recorded effect's dispatch. An effect past its admission is not dispatched
again. -/
def claimEffect (effect : Effect) : Op Dispatched :=
  match effect.state with
  | .accepted | .completed | .simulationOnly => .done (some effect, none)
  | .failed | .blocked =>
    .done (some effect, some (Err.plain
      (lit "previous effect attempt is " ++ effect.state.text ++ lit ": " ++ effect.summary)))
  | .executing =>
    .done (some effect, some (Err.plain
      (lit "previous effect dispatch is uncertain since " ++
        (effect.dispatchStartedAt.elim (lit "an unknown time") ts))))
  | .other text =>
    .done (some effect, some (Err.plain
      (lit "autonomy effect " ++ m.quote (m.effectText effect.id) ++
      lit " has unsupported state " ++
        m.quote text)))
  | .admitted => do
      let time ← now
      let claim := { effect with
        state := .executing, dispatchStartedAt := some time, updatedAt := time }
      match ← (saveAutonomyEffect claim).attempt with
      | .error saveErr => return (some claim, some saveErr)
      | .ok claimed => dispatchClaimed m plan claimed

/-- The record that an effect is admitted with. It is kept until the plan expires, which is later
than the deadline of the decision. -/
def admittedEffect (id : EffectID) (captured : Captured) (time : Int) : Effect :=
  { id, version := 1, scope := scopeForAutonomyAction id.action, decisionSnapshotID := captured.id,
    decision := captured.decision, deadline := captured.decision.expiresAt, state := .admitted,
    summary := [], reference := [], dispatchStartedAt := none, updatedAt := time,
    expiresAt := plan.expiresAt }

/-- The record of an effect that was not found: it is created, unless somebody else just did. -/
def admitEffect (id : EffectID) (captured : Captured) : Op Dispatched := do
  let time ← now
  let effect := admittedEffect plan id captured time
  match ← (createEffect effect).attempt with
  | .ok _ =>
    match ← (audit (lit "admit-effect")).attempt with
    | .error auditErr => return (some effect, some auditErr)
    | .ok _ => claimEffect m plan effect
  | .error createErr =>
    if createErr.cause ≠ .conflict then
      return (some effect, some createErr)
    match ← (loadAutonomyEffect id).attempt with
    | .error e => return (none, some e)
    | .ok existing => claimEffect m plan existing

def executeAutonomyEffect (rollout : Rollout) (captured : Captured) : Op Dispatched := do
  let targetDeviceID := trimSpace plan.targetDeviceID
  if trimSpace captured.snapshot.request.targetDeviceID ≠ targetDeviceID then
    return (none, some (Err.invalidState
      (lit "autonomy effect target device no longer matches its frozen plan")))
  let id := autonomyEffectID plan rollout.id captured.snapshot.node.name
    (plan.allowedActions.headD (.other [])) targetDeviceID
  match ← (loadAutonomyEffect id).attempt with
  | .ok effect => claimEffect m plan effect
  | .error e =>
    if e.cause = .notFound then admitEffect m plan id captured
    else return (none, some e)

/-! ## A batch -/

/-- The error that ends a batch when an effect did. -/
def batchError (node : Str) (effect : Effect) : Option Err → Err
  | some e => e.wrap (lit "autonomy effect for node " ++ node ++ lit ": ")
  | none => Err.plain (lit "autonomy effect for node " ++ node ++ lit " failed: " ++ effect.summary)

/-- The loop of `admitAutonomyTargets`. `observations` are those of the nodes already taken. -/
def admitNodes (m : Manager) (plan : Plan) (targetDeviceID : Str) :
    List Str → Rollout → List Observation → Op Rollout
  | [], rollout, observations =>
    .done { rollout with observations := rollout.observations ++ observations }
  | node :: rest, rollout, observations => do
      ensureAutonomyEffectEnvelope m plan
      let exhausted : Bool := plan.guardrails.maxActionsPerHour ≤ rollout.actionsThisHour
      let snapshot ← buildAutonomySnapshot m plan node targetDeviceID exhausted
      let captured ← captureDecision m snapshot
      if !captured.decision.permitted then
        let _ ← (saveAutonomyRollout { rollout with
          observations := rollout.observations ++ observations ++ [⟨node, none⟩] }).attempt
        .fail (Err.plain
          (lit "autonomy node " ++ node ++ lit " is " ++ captured.decision.humanSummary))
      else if !m.executes then
        -- without an executor the rollout is a visible simulation
        admitNodes m plan targetDeviceID rest rollout (observations ++ [⟨node, none⟩])
      else
        demand (!exhausted) (Err.plain (lit "autonomy action budget is exhausted"))
        let rollout ← saveAutonomyRollout { rollout with
          actionsThisHour := rollout.actionsThisHour + 1 }
        match ← executeAutonomyEffect m plan rollout captured with
        | (none, _) =>
          .fail (Err.plain (lit "autonomy effect for node " ++ node ++ lit " returned no record"))
        | (some effect, executeErr) =>
          let observations := observations ++ [⟨node, some effect.id⟩]
          if executeErr.isSome ∨ effect.state = .failed then
            let _ ← (saveAutonomyRollout { rollout with
              failures := rollout.failures + 1
              observations := rollout.observations ++ observations }).attempt
            .fail (batchError node effect executeErr)
          else admitNodes m plan targetDeviceID rest rollout observations

def hour : Int := 3600000000000

/-- The rollout with its hourly window restarted when the window is over. -/
def Rollout.openWindow (rollout : Rollout) (time : Int) : Rollout :=
  if rollout.actionWindowAt.all fun start => start + hour ≤ time then
    { rollout with actionsThisHour := 0, actionWindowAt := some time }
  else rollout

def admitAutonomyTargets (selected : List Str) : Op Rollout := do
  let rollout ← getAutonomyRollout plan.rolloutID
  let time ← now
  let targetDeviceID := trimSpace plan.targetDeviceID
  demand (scopeForAutonomyAction (plan.allowedActions.headD (.other [])) ≠ .physicalDevice ||
      targetDeviceID ≠ [])
    (Err.invalidState (lit "physical-device autonomy plan " ++ m.quote plan.id ++
      lit " has no frozen target device"))
  admitNodes m plan targetDeviceID selected (rollout.openWindow time) []

end KubeNeuron.Operations
