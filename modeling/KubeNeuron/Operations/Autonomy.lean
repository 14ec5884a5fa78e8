import KubeNeuron.Decision.Evaluate
import KubeNeuron.Lib.Names

/-!
# Autonomy plans

A plan lets the controller repeat one accelerator action over a bounded set of nodes: a first batch
(the canary), a bake interval, and batches of growing size. This file has the records of a plan, of
its rollout and of its effects, and the functions of `autonomy.go` that compute on them without a
store.

An effect's ID is a truncated hash of six texts; it is kept as the six texts. The fields of an
effect record that repeat a part of the ID are read off it.
-/

namespace KubeNeuron.Operations

open Lib KubeNeuron.Types Accelerator Decision

/-! ## Errors -/

/-- The error values that callers ask for with `errors.Is`. -/
inductive Cause where
  | plain
  | notFound
  | conflict
  | keyConflict
  | invalidState
  | unavailable
  deriving DecidableEq

/-- An error: its cause and its text. -/
structure Err where
  cause : Cause
  text : Str

namespace Err

/-- `fmt.Errorf` without `%w`. -/
def plain (text : Str) : Err := ⟨.plain, text⟩

/-- `store.ErrNotFound`. -/
def notFound : Err := ⟨.notFound, lit "store: not found"⟩

/-- `store.ErrOperationalConflict`. -/
def conflict : Err := ⟨.conflict, lit "store: operational resource conflict"⟩

/-- `ErrIdempotencyConflict`. -/
def keyConflict : Err :=
  ⟨.keyConflict, lit "operations: idempotency key was reused for a different request"⟩

/-- `fmt.Errorf("%w: …", ErrInvalidState, …)`. -/
def invalidState (text : Str) : Err :=
  ⟨.invalidState, lit "operations: invalid lifecycle transition: " ++ text⟩

/-- `fmt.Errorf("%w: …", ErrUnavailable, …)`. -/
def unavailable (text : Str) : Err :=
  ⟨.unavailable, lit "operations: durable workflow store is unavailable: " ++ text⟩

/-- `fmt.Errorf("…: %w", err)`. -/
def wrap (before : Str) (e : Err) : Err := ⟨e.cause, before ++ e.text⟩

end Err

/-! ## Records -/

/-- `AutonomyPlanState`. -/
inductive PlanState where
  | draft
  | simulated
  | awaitingApproval
  | canary
  | baking
  | expanding
  | enabled
  | paused
  | rolledBack
  | expired
  deriving DecidableEq

namespace PlanState

def text : PlanState → Str
  | .draft => lit "Draft"
  | .simulated => lit "Simulated"
  | .awaitingApproval => lit "AwaitingApproval"
  | .canary => lit "Canary"
  | .baking => lit "Baking"
  | .expanding => lit "Expanding"
  | .enabled => lit "Enabled"
  | .paused => lit "Paused"
  | .rolledBack => lit "RolledBack"
  | .expired => lit "Expired"

def terminal (s : PlanState) : Bool := s = .rolledBack ∨ s = .expired

end PlanState

/-- `AutonomyEvidenceRequirements`. -/
structure EvidenceRequirements where
  maxAge : Int
  requiredSources : List Str
  deriving DecidableEq

/-- `AutonomyGuardrails`. -/
structure Guardrails where
  maintenanceWindows : List Str
  maxConcurrentNodes : Int
  maxActionsPerHour : Int
  errorBudget : Int
  noActiveIncident : Bool
  deriving DecidableEq

/-- `AutonomyRolloutPolicy`. -/
structure RolloutPolicy where
  canaryNodes : Int
  bakeDuration : Int
  expansionSteps : List Int
  deriving DecidableEq

/-- `AutonomyApprovalRequirements`. -/
structure ApprovalRequirements where
  requiredRoles : List Str
  distinctSubjects : Bool
  deriving DecidableEq

/-- `AutonomyApproval`. -/
structure Approval where
  actor : Str
  role : Str
  configDigest : Str

/-- `GPUAutonomyPlan`, with the version of its row. -/
structure Plan where
  id : Str
  version : Nat
  state : PlanState
  selector : StrMap
  allowedActions : List AcceleratorAction
  targetDeviceID : Str
  evidence : EvidenceRequirements
  guardrails : Guardrails
  rollout : RolloutPolicy
  approvals : ApprovalRequirements
  approvalRecords : List Approval
  simulationID : Str
  configDigest : Str
  rolloutID : Str
  expiresAt : Int
  tenant : Str
  cluster : Str
  createdAt : Int

/-- `AutonomyPlanRequest`, without its key. -/
structure PlanRequest where
  selector : StrMap
  policyRef : Str
  profileRef : Str
  allowedActions : List AcceleratorAction
  evidence : EvidenceRequirements
  guardrails : Guardrails
  rollout : RolloutPolicy
  approvals : ApprovalRequirements
  simulationID : Str
  expiresAt : Int
  tenant : Str
  cluster : Str
  deriving DecidableEq

/-- The texts that `autonomyEffectID` hashes. -/
structure EffectID where
  planID : Str
  rolloutID : Str
  node : Str
  action : AcceleratorAction
  targetDeviceID : Str
  configDigest : Str
  deriving DecidableEq

inductive EffectState where
  | admitted
  | executing
  | accepted
  | completed
  | failed
  | blocked
  | simulationOnly
  | other (text : Str)
  deriving DecidableEq

/-- The spelling of an effect's state. -/
def EffectState.text : EffectState → Str
  | .admitted => lit "admitted"
  | .executing => lit "executing"
  | .accepted => lit "accepted"
  | .completed => lit "completed"
  | .failed => lit "failed"
  | .blocked => lit "blocked"
  | .simulationOnly => lit "simulation-only"
  | .other text => text

/-- `AutonomyEffectRecord`, with the version and the expiry of its row. -/
structure Effect where
  id : EffectID
  version : Nat
  scope : TargetScope
  decisionSnapshotID : Str
  decision : Decision.Result
  deadline : Int
  state : EffectState
  summary : Str
  reference : Str
  dispatchStartedAt : Option Int
  updatedAt : Int
  expiresAt : Int

/-- `AutonomyEffectRequest`. -/
structure EffectRequest where
  effectID : EffectID
  scope : TargetScope
  decisionSnapshotID : Str
  decision : Decision.Result
  deadline : Int

/-- `AutonomyEffectResult`. -/
structure EffectResult where
  state : Str
  summary : Str
  reference : Str

/-- `AutonomyObservation`: the node and the effect, if one was admitted. -/
structure Observation where
  node : Str
  effectID : Option EffectID

/-- `AutonomyBakeMeasurement`. -/
structure BakeMeasurement where
  node : Str
  effectID : EffectID
  summary : Str
  time : Int

/-- `AutonomyRollout`, with the version and the expiry of its row. -/
structure Rollout where
  id : Str
  version : Nat
  planID : Str
  state : PlanState
  canaryNodes : List Str
  expandedNodes : List Str
  observations : List Observation
  bakeMeasurements : List BakeMeasurement
  bakeStartedAt : Option Int
  bakeMeasuredAt : Option Int
  bakeEffectIDs : List EffectID
  actionWindowAt : Option Int
  actionsThisHour : Int
  failures : Int
  hardwareQualified : Bool
  reason : Str
  expiresAt : Int

/-- What a plan reads of a `RemediationSimulation`. -/
structure Simulation where
  id : Str
  decision : Decision.Result
  action : AcceleratorAction
  scope : TargetScope
  deviceID : Str
  tenant : Str
  cluster : Str

/-! ## Validation of a request -/

def cut (sep : Str) : Str → Option (Str × Str)
  | [] => if sep = [] then some ([], []) else none
  | b :: s =>
    if sep.isPrefixOf (b :: s) then some ([], (b :: s).drop sep.length)
    else (cut sep s).map fun r => (b :: r.1, r.2)

def immutableReference (value : Str) : Bool :=
  let value := trimSpace value
  let named (r : Str × Str) : Bool := trimSpace r.1 ≠ [] && trimSpace r.2 ≠ []
  value ≠ [] &&
    match cut (lit "@sha256:") value with
    | some r => named r
    | none => (cut (lit "#") value).any named

/-- `validAutonomyEvidenceSource`, of a source that was normalized. -/
def validAutonomyEvidenceSource (lower : Str → Str) (source : Str) : Bool :=
  toLower lower (trimSpace source) ∈ [lit "agent", lit "controller", lit "dcgm"]

def validAutonomyAction : AcceleratorAction → Bool
  | .other _ => false
  | _ => true

def scopeForAutonomyAction (action : AcceleratorAction) : TargetScope :=
  if action = .resetDevice then .physicalDevice else .node

/-- Each step is larger than the one before, the first than `previous`. -/
def increasingFrom (previous : Int) : List Int → Bool
  | [] => true
  | target :: rest => previous < target && increasingFrom target rest

def validateAutonomyRequest (lower : Str → Str) (request : PlanRequest) (now : Int) :
    Except Str Unit := do
  require (request.selector.entries ≠ [])
    (lit "autonomy selector is required and cannot select every node")
  require (request.selector.entries.all fun e => trimSpace e.1 ≠ [] && trimSpace e.2 ≠ [])
    (lit "autonomy selector contains an empty key or value")
  require (immutableReference request.policyRef && immutableReference request.profileRef)
    (lit "autonomy policy_ref and profile_ref must name immutable revisions (name@sha256:digest or name#generation)")
  require (request.allowedActions.length = 1)
    (lit "autonomy requires exactly one allowed action per plan; create a separate bounded plan for another action")
  require (request.allowedActions.all validAutonomyAction)
    (lit "autonomy allowed_actions must be nonempty and unique")
  require (0 < request.evidence.maxAge && request.evidence.requiredSources ≠ [])
    (lit "autonomy evidence.max_age and required_sources are required")
  require (request.evidence.requiredSources.all (validAutonomyEvidenceSource lower) &&
      request.evidence.requiredSources.Nodup)
    (lit "autonomy evidence.required_sources must be supported, nonempty, and unique")
  require (0 < request.guardrails.maxConcurrentNodes && 0 < request.guardrails.maxActionsPerHour &&
      0 ≤ request.guardrails.errorBudget)
    (lit "autonomy guardrail limits must be positive (error budget nonnegative)")
  require request.guardrails.noActiveIncident
    (lit "autonomy guardrails.no_active_incident must be true")
  require ((request.guardrails.maintenanceWindows.map trimSpace).all (· ≠ []) &&
      (request.guardrails.maintenanceWindows.map trimSpace).Nodup)
    (lit "autonomy guardrails.maintenance_windows must be nonempty and unique")
  require (0 < request.rollout.canaryNodes && 0 < request.rollout.bakeDuration)
    (lit "autonomy rollout.canary_nodes and bake_duration must be positive")
  require (request.rollout.canaryNodes ≤ request.guardrails.maxConcurrentNodes)
    (lit "autonomy rollout.canary_nodes cannot exceed guardrails.max_concurrent_nodes")
  require (increasingFrom request.rollout.canaryNodes request.rollout.expansionSteps)
    (lit "autonomy rollout.expansion_steps must be strictly increasing and greater than canary_nodes")
  require (2 ≤ request.approvals.requiredRoles.length)
    (lit "autonomy requires at least two approval roles")
  require (request.approvals.requiredRoles.all (fun role => trimSpace role ≠ []) &&
      request.approvals.requiredRoles.Nodup)
    (lit "autonomy approval roles must be nonempty and unique")
  require request.approvals.distinctSubjects
    (lit "autonomy approvals must require distinct subjects")
  require (!zeroTime request.expiresAt && now < request.expiresAt)
    (lit "autonomy expires_at must be in the future")

/-- `normalizeAutonomyRequest`. The one allowed action needs no sorting. -/
def normalizeAutonomyRequest (lower : Str → Str) (request : PlanRequest) : PlanRequest :=
  { request with
    policyRef := trimSpace request.policyRef
    profileRef := trimSpace request.profileRef
    tenant := trimSpace request.tenant
    cluster := trimSpace request.cluster
    evidence := { request.evidence with
      requiredSources :=
        sortStrings (request.evidence.requiredSources.map fun s => toLower lower (trimSpace s)) }
    approvals := { request.approvals with
      requiredRoles := sortStrings (request.approvals.requiredRoles.map trimSpace) }
    guardrails := { request.guardrails with
      maintenanceWindows := sortStrings (request.guardrails.maintenanceWindows.map trimSpace) } }

/-- `validateSimulationForAutonomy`, of the plan's actions, device and scope. -/
def validateSimulationForAutonomy (quote : Str → Str) (plan : Plan) (simulation : Simulation) :
    Except Err Unit :=
  let refuse (ok : Bool) (text : Str) : Except Err Unit :=
    if ok then .ok () else .error (Err.invalidState text)
  let named : Str := lit "simulation " ++ quote simulation.id
  let action : AcceleratorAction := plan.allowedActions.headD (.other [])
  let device : Str := trimSpace simulation.deviceID
  do
    refuse simulation.decision.permitted
      (lit "autonomy plan simulation " ++ quote simulation.id ++ lit " is blocked")
    refuse (plan.allowedActions.length = 1 && simulation.action = action)
      (named ++ lit " action " ++ quote simulation.action.text ++
        lit " does not match plan action " ++
        quote action.text)
    refuse (simulation.scope = scopeForAutonomyAction action)
      (named ++ lit " scope " ++ quote simulation.scope.text ++
        lit " does not match plan action scope " ++ quote (scopeForAutonomyAction action).text)
    refuse (simulation.scope ≠ .physicalDevice || device ≠ [])
      (lit "device-scoped simulation " ++ quote simulation.id ++ lit " has no target device")
    refuse (trimSpace plan.targetDeviceID = [] || trimSpace plan.targetDeviceID = device)
      (named ++ lit " target device does not match the plan")
    refuse (simulation.tenant = plan.tenant && simulation.cluster = plan.cluster)
      (named ++ lit " tenant/cluster scope does not match the plan")
    refuse (trimSpace simulation.decision.configDigest ≠ [])
      (named ++ lit " has no configuration digest")

/-! ## Functions of a plan and its rollout -/

def allRolesApproved (plan : Plan) : Bool :=
  plan.approvals.requiredRoles.all fun role =>
    plan.approvalRecords.any fun a => a.configDigest = plan.configDigest && a.role = role

def labelsMatch (selector labels : StrMap) : Bool :=
  selector.entries.all fun e => StrMap.get labels e.1 = e.2

def operationalNodeScopeMatches (node : Decision.Node) (tenant cluster : Str) : Bool :=
  (trimSpace tenant = [] || StrMap.get node.labels (lit "kubeneuron.io/tenant") =
    trimSpace tenant) &&
    (trimSpace cluster = [] ||
      StrMap.get node.labels (lit "kubeneuron.io/cluster") = trimSpace cluster)

/-- The nodes that both batches of a rollout have used. -/
def usedNodes (rollout : Rollout) : List Str :=
  (rollout.canaryNodes ++ rollout.expandedNodes).dedup

def nextAutonomyExpansionTarget (plan : Plan) (rollout : Rollout) : Option Int :=
  plan.rollout.expansionSteps.find? fun target => (usedNodes rollout).length < target

def latestAutonomyEffectIDs (observations : List Observation) (count : Nat) : List EffectID :=
  (observations.drop (observations.length - count)).filterMap Observation.effectID

def autonomyEffectID (plan : Plan) (rolloutID node : Str) (action : AcceleratorAction)
    (targetDeviceID : Str) : EffectID :=
  ⟨plan.id, rolloutID, node, action, targetDeviceID, plan.configDigest⟩

/-- The loop that picks the nodes of a plan out of the inventory, in the order of the inventory. A
missing node is passed over, a node without a name is an error. -/
def selectedNodes (plan : Plan) : List (Option Decision.Node) → Except Err (List Str)
  | [] => .ok []
  | none :: rest => selectedNodes plan rest
  | some node :: rest =>
    if trimSpace node.name = [] then
      .error (Err.plain (lit "autonomy inventory contains a node without a name"))
    else
      (selectedNodes plan rest).map fun names =>
        if labelsMatch plan.selector node.labels &&
            operationalNodeScopeMatches node plan.tenant plan.cluster then node.name :: names
        else names

end KubeNeuron.Operations
