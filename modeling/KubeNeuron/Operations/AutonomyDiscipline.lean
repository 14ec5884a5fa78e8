import KubeNeuron.Operations.AutonomyPlans

/-!
# What the autonomy code may do next

For each call that writes a row or reaches the executor, what the process has seen and done before
it. Plans and rollouts are written over the version that was read, in the ways `PlanWrite` and
`RolloutWrite` list; an effect is created, claimed, and ended by the process that claimed it. The
executor is called only right after the claim, the fence and the deadline check (`Fenced`).
-/

namespace KubeNeuron.Operations

open Lib KubeNeuron.Types Accelerator Decision Store

abbrev AutonomyEvent : Type := Event AutonomyCall AutonomyCall.Answer

/-- The calls a process has made, newest first. -/
abbrev History : Type := List AutonomyEvent

/-! ## Reading a history -/

/-- The plan was in a page that the process has listed. -/
def Listed (h : History) (plan : Plan) : Prop :=
  ∃ cursor plans, (⟨.listPlans cursor, .ok plans⟩ : AutonomyEvent) ∈ h ∧ plan ∈ plans

/-- The last inventory that was read. -/
def lastNodes : History → Option (List (Option Decision.Node))
  | [] => none
  | ⟨.listNodes, .ok nodes⟩ :: _ => some nodes
  | _ :: h => lastNodes h

/-- The history before the last inventory was read. -/
def beforeNodes : History → History
  | [] => []
  | ⟨.listNodes, .ok _⟩ :: h => h
  | _ :: h => beforeNodes h

def lastRollout : History → Option Rollout
  | [] => none
  | ⟨.getRollout _, .ok rollout⟩ :: _ => some rollout
  | _ :: h => lastRollout h

/-- The effects handed to the executor since the last inventory was read. -/
def dispatchedSince : History → List EffectID
  | [] => []
  | ⟨.listNodes, .ok _⟩ :: _ => []
  | ⟨.execute request, _⟩ :: h => request.effectID :: dispatchedSince h
  | _ :: h => dispatchedSince h

/-- A rollout as the process knows it: as it was read, or as the process wrote it. -/
inductive KnownRollout (h : History) : Rollout → Prop
  | read {id : Str} {rollout : Rollout}
      (hread : (⟨.getRollout id, .ok rollout⟩ : AutonomyEvent) ∈ h) : KnownRollout h rollout
  | wrote {rollout : Rollout} {v : Nat}
      (hwrote : (⟨.updateRollout rollout v, .ok ()⟩ : AutonomyEvent) ∈ h) :
      KnownRollout h { rollout with version := v + 1 }

/-- The rollout that the plan names was read, and has this identifier. -/
def RolloutOf (h : History) (plan : Plan) (id : Str) : Prop :=
  ∃ rollout, (⟨.getRollout plan.rolloutID, .ok rollout⟩ : AutonomyEvent) ∈ h ∧ rollout.id = id

/-- The nodes that an expansion may still use, in order. -/
def availableNodes (rollout : Rollout) (names : List Str) : List Str :=
  sortStrings (names.filter fun n => n ∉ usedNodes rollout)

/-- The batch that the pass is working on, computed from the last inventory. -/
inductive BatchOf (plan : Plan) (h : History) : List Str → Prop
  | canary {nodes : List (Option Decision.Node)} {names : List Str} (hstate : plan.state = .canary)
      (hnodes : lastNodes h = some nodes) (hnames : selectedNodes plan nodes = .ok names)
      (hsize : plan.rollout.canaryNodes ≤ names.length) :
      BatchOf plan h ((sortStrings names).take plan.rollout.canaryNodes.toNat)
  | expansion {nodes : List (Option Decision.Node)} {names : List Str} {rollout : Rollout}
      {target : Int} (hstate : plan.state = .expanding) (hnodes : lastNodes h = some nodes)
      (hnames : selectedNodes plan nodes = .ok names)
      (hrollout : lastRollout (beforeNodes h) = some rollout)
      (hread : (⟨.getRollout plan.rolloutID, .ok rollout⟩ : AutonomyEvent) ∈ h)
      (htarget : nextAutonomyExpansionTarget plan rollout = some target)
      (hsize : target - (usedNodes rollout).length ≤ (availableNodes rollout names).length) :
      BatchOf plan h ((availableNodes rollout names).take
        (min (target - (usedNodes rollout).length) plan.guardrails.maxConcurrentNodes).toNat)

/-! ## Writes -/

/-- The rollout with its hourly budget at some value. -/
def Rollout.spent (rollout : Rollout) (window : Option Int) (actions : Int) : Rollout :=
  { rollout with actionWindowAt := window, actionsThisHour := actions }

/-- The rollout with a batch recorded, whose bake starts. -/
def Rollout.recorded (rollout : Rollout) (canaryNodes expandedNodes : List Str)
    (observations : List Observation) (bakeEffectIDs : List EffectID) (time : Int) : Rollout :=
  { rollout with
    canaryNodes, expandedNodes, observations, bakeEffectIDs
    state := .baking
    bakeStartedAt := some time
    bakeMeasuredAt := none }

/-- The ways in which a rollout is written, from the one the process knows. -/
inductive RolloutWrite (h : History) (known : Rollout) : Rollout → Prop
  | follow (state : PlanState) (reason : Str) : RolloutWrite h known { known with state, reason }
  | spend (window : Option Int) (actions : Int) : RolloutWrite h known (known.spent window actions)
  | observe (window : Option Int) (actions : Int) (observations : List Observation) :
      RolloutWrite h known { known.spent window actions with observations }
  | fail (window : Option Int) (actions : Int) (observations : List Observation) :
      RolloutWrite h known { known.spent window actions with
        observations, failures := known.failures + 1 }
  | canary {plan : Plan} {selected : List Str} {ids : List EffectID} (window : Option Int)
      (actions : Int) (observations : List Observation) (time : Int) (hlisted : Listed h plan)
      (hstate : plan.state = .canary) (hof : RolloutOf h plan known.id)
      (hbatch : BatchOf plan h selected)
      (hids : ∀ k ∈ dispatchedSince h, k ∈ ids) :
      RolloutWrite h known
        ((known.spent window actions).recorded selected known.expandedNodes observations ids time)
  | expand {plan : Plan} {selected : List Str} {ids : List EffectID} (window : Option Int)
      (actions : Int) (observations : List Observation) (time : Int) (hlisted : Listed h plan)
      (hstate : plan.state = .expanding) (hof : RolloutOf h plan known.id)
      (hbatch : BatchOf plan h selected)
      (hids : ∀ k ∈ dispatchedSince h, k ∈ ids) :
      RolloutWrite h known
        ((known.spent window actions).recorded known.canaryNodes (known.expandedNodes ++ selected)
          observations ids time)
  | measure {plan : Plan} {startedAt checkedAt : Int} (measurements : List BakeMeasurement)
      (failures : Int) (time : Int) (hlisted : Listed h plan) (hstate : plan.state = .baking)
      (hof : RolloutOf h plan known.id)
      (hstarted : known.bakeStartedAt = some startedAt) (hunmeasured : known.bakeMeasuredAt = none)
      (hchecked : (⟨.now, checkedAt⟩ : AutonomyEvent) ∈ h)
      (helapsed : startedAt + plan.rollout.bakeDuration ≤ checkedAt) (hfailures : 0 ≤ failures)
      (hall : known.hardwareQualified = true → ∀ k ∈ known.bakeEffectIDs, ∃ effect b,
        (⟨.getEffect k, .ok effect⟩ : AutonomyEvent) ∈ h ∧ b ∈ measurements ∧
          b.effectID = effect.id) :
      RolloutWrite h known { known with
        bakeMeasurements := known.bakeMeasurements ++ measurements
        failures := known.failures + failures
        bakeMeasuredAt := some time }

/-- The plan that a pass read again is the one it listed. -/
structure Unchanged (h : History) (old expected : Plan) : Prop where
  listed : Listed h expected
  version : old.version = expected.version
  state : old.state = expected.state

/-- The ways in which a plan is written, from the one that was read. -/
inductive PlanWrite (h : History) (old : Plan) : Plan → Prop
  | attach (simulation : Simulation) (hstate : old.state = .draft) :
      PlanWrite h old (old.simulatedBy simulation)
  | approve {m : Manager} (actor role : Str)
      (hstate : old.state = .simulated ∨ old.state = .awaitingApproval)
      (hstanding : approvalStanding m old actor role old.approvalRecords = none)
      (hopen : allRolesApproved (old.approvedBy actor role) = false) :
      PlanWrite h old (old.approvedBy actor role)
  | start {m : Manager} {rollout : Rollout} (actor role : Str)
      (hstate : old.state = .simulated ∨ old.state = .awaitingApproval)
      (hstanding : approvalStanding m old actor role old.approvalRecords = none)
      (happroved : allRolesApproved (old.approvedBy actor role) = true)
      (hrollout : (⟨.createRollout rollout, .ok ()⟩ : AutonomyEvent) ∈ h)
      (hplan : rollout.planID = old.id) :
      PlanWrite h old { old.approvedBy actor role with state := .canary, rolloutID := rollout.id }
  | transition (target : PlanState) (hold : old.state.terminal = false)
      (htarget : target = .paused ∨ target = .rolledBack ∨ target = .expired) :
      PlanWrite h old { old with state := target }
  | resume (hstate : old.state = .paused) (happroved : allRolesApproved old = true) :
      PlanWrite h old { old with state := .canary }
  | bake {expected : Plan} {recorded : Rollout} {id : Str} {v : Nat} {h' : History}
      (hunchanged : Unchanged h old expected)
      (hstate : expected.state = .canary ∨ expected.state = .expanding)
      (hlast : h = ⟨.getPlan id, .ok old⟩ :: ⟨.updateRollout recorded v, .ok ()⟩ :: h')
      (hrecorded : recorded.bakeMeasuredAt = none) (hof : RolloutOf h expected recorded.id) :
      PlanWrite h old { old with state := .baking }
  | finish {expected : Plan} {known : Rollout} (target : PlanState)
      (hunchanged : Unchanged h old expected) (hstate : expected.state = .baking)
      (hknown : KnownRollout h known) (hof : RolloutOf h expected known.id)
      (hmeasured : known.bakeMeasuredAt.isSome = true)
      (hbudget : known.failures ≤ expected.guardrails.errorBudget)
      (htarget : target = .expanding ∨
        target = .enabled ∧ nextAutonomyExpansionTarget expected known = none) :
      PlanWrite h old { old with state := target }
  | complete {expected : Plan} {known : Rollout} (hunchanged : Unchanged h old expected)
      (hstate : expected.state = .expanding) (hknown : KnownRollout h known)
      (hof : RolloutOf h expected known.id)
      (hdone : nextAutonomyExpansionTarget expected known = none) :
      PlanWrite h old { old with state := .enabled }

/-- The fence: what the plan read last has to be for an effect of the plan that was listed. -/
structure Envelope (expected current : Plan) (time : Int) : Prop where
  version : current.version = expected.version
  state : current.state = expected.state
  active : current.state = .canary ∨ current.state = .expanding
  rollout : current.rolloutID = expected.rolloutID
  digest : current.configDigest = expected.configDigest
  unexpired : time < current.expiresAt
  approved : allRolesApproved current = true

/-- The effect is for a node of the batch that the pass is working on. -/
structure EffectFor (h : History) (plan : Plan) (id : EffectID) : Prop where
  listed : Listed h plan
  planID : id.planID = plan.id
  configDigest : id.configDigest = plan.configDigest
  targetDeviceID : id.targetDeviceID = trimSpace plan.targetDeviceID
  action : id.action = plan.allowedActions.headD (.other [])
  rollout : RolloutOf h plan id.rolloutID
  batch : ∃ selected node request snapshot, BatchOf plan h selected ∧ node ∈ selected ∧
    (⟨.buildSnapshot node request, .ok snapshot⟩ : AutonomyEvent) ∈ h ∧ id.node = snapshot.node.name

/-- An effect that the process has read or created. -/
inductive KnownEffect (h : History) (id : EffectID) : Effect → Prop
  | read {effect : Effect} (hread : (⟨.getEffect id, .ok effect⟩ : AutonomyEvent) ∈ h) :
      KnownEffect h id effect
  | created {effect : Effect} (hcreated : (⟨.createEffect effect, .ok ()⟩ : AutonomyEvent) ∈ h)
      (hid : effect.id = id) : KnownEffect h id effect

def Effect.claimedAt (effect : Effect) (time : Int) : Effect :=
  { effect with state := .executing, dispatchStartedAt := some time, updatedAt := time }

/-- The calls after the claim of an effect that lead to the executor, newest first. -/
def fenceCalls (planID : Str) (current : Plan) (effect : Effect)
    (checkedAt fencedAt : Int) : History :=
  [⟨.now, checkedAt⟩, ⟨.now, fencedAt⟩, ⟨.getPlan planID, .ok current⟩,
    ⟨.audit (lit "dispatch-effect"), .ok ()⟩, ⟨.updateEffect effect effect.version, .ok ()⟩]

/-- The last calls of the process were the claim of the effect, the fence and the deadline check. -/
structure Fenced (h : History) (request : EffectRequest) (plan : Plan) (id : EffectID)
    (admitted : Effect)
    (current : Plan) (claimedAt checkedAt fencedAt : Int) (before : History) : Prop where
  last : h = fenceCalls plan.id current (admitted.claimedAt claimedAt) checkedAt fencedAt ++ before
  known : KnownEffect before id admitted
  state : admitted.state = .admitted
  request : request = effectRequest (admitted.claimedAt claimedAt)
  target : EffectFor before plan id
  envelope : Envelope plan current fencedAt
  deadline : checkedAt < admitted.deadline

/-- The process has claimed the effect and has not written an effect since. -/
def HoldsClaim (h : History) (effect : Effect) : Prop :=
  ∃ after before, h = after ++
    (⟨.updateEffect effect effect.version, .ok ()⟩ : AutonomyEvent) :: before ∧
    effect.state = .executing ∧ ∀ e ∈ after, ∀ f v, e.call ≠ .updateEffect f v

/-- The states a claimed effect ends in. -/
def EffectState.ended (s : EffectState) : Prop :=
  s = .accepted ∨ s = .completed ∨ s = .failed ∨ s = .blocked

/-- The ways in which an effect is written. -/
inductive EffectWrite (h : History) : Effect → Nat → Prop
  | claim {id : EffectID} {effect : Effect} (time : Int) (hknown : KnownEffect h id effect)
      (hstate : effect.state = .admitted) : EffectWrite h (effect.claimedAt time) effect.version
  | finish {claimed ended : Effect} (hholds : HoldsClaim h claimed) (hid : ended.id = claimed.id)
      (hstate : ended.state.ended) (hdecision : ended.decision = claimed.decision)
      (hdeadline : ended.deadline = claimed.deadline)
      (hexpiry : ended.expiresAt = claimed.expiresAt) :
      EffectWrite h ended (claimed.version + 1)

/-- The identifier was made by the last call, or by the one before a key was put. -/
inductive JustMade : History → Str → Prop
  | made {h : History} {kind id : Str} : JustMade (⟨.newID kind, id⟩ :: h) id
  | keyed {h : History} {kind id : Str} {r : KeyRecord} {a : Except Err (KeyRecord × Bool)} :
      JustMade (⟨.putKey r, a⟩ :: ⟨.newID kind, id⟩ :: h) id

/-- A new plan: a valid request under a new identifier. -/
structure NewPlan (h : History) (plan : Plan) : Prop where
  id : JustMade h plan.id
  version : plan.version = 1
  state : plan.state = .draft ∨ plan.state = .simulated
  records : plan.approvalRecords = []
  rollout : plan.rolloutID = []
  dated : fourDigitYear plan.expiresAt = true
  roles : 2 ≤ plan.approvals.requiredRoles.length
  unique : plan.approvals.requiredRoles.Nodup
  distinct : plan.approvals.distinctSubjects = true
  canary : 0 < plan.rollout.canaryNodes
  concurrent : plan.rollout.canaryNodes ≤ plan.guardrails.maxConcurrentNodes
  steps : increasingFrom plan.rollout.canaryNodes plan.rollout.expansionSteps = true

/-- A new rollout of a plan that was read. -/
structure NewRollout (m : Manager) (h : History) (rollout : Rollout) : Prop where
  id : JustMade h rollout.id
  plan : ∃ id old, (⟨.getPlan id, .ok old⟩ : AutonomyEvent) ∈ h ∧ rollout.planID = old.id
  version : rollout.version = 1
  canaryNodes : rollout.canaryNodes = []
  expandedNodes : rollout.expandedNodes = []
  effects : rollout.bakeEffectIDs = []
  failures : rollout.failures = 0
  qualified : rollout.hardwareQualified = m.executes
  unmeasured : rollout.bakeMeasuredAt = none

/-- A new effect of a listed plan, with an eligible decision. -/
structure NewEffect (h : History) (effect : Effect) : Prop where
  version : effect.version = 1
  state : effect.state = .admitted
  permitted : effect.decision.permitted = true
  deadline : effect.deadline = effect.decision.expiresAt
  target : ∃ plan, EffectFor h plan effect.id ∧ effect.expiresAt = plan.expiresAt

/-- What the process must have done for the call to be its next one. -/
def discipline (m : Manager) (h : History) : AutonomyCall → Prop
  | .createPlan plan => NewPlan h plan
  | .updatePlan plan v =>
    ∃ id old, (⟨.getPlan id, .ok old⟩ : AutonomyEvent) ∈ h ∧ plan.id = old.id ∧ v = old.version ∧
      PlanWrite h old plan
  | .createRollout rollout => NewRollout m h rollout
  | .updateRollout rollout v =>
    ∃ row h' known, h = ⟨.getRollout rollout.id, .ok row⟩ :: h' ∧ row.version = rollout.version ∧
      v = rollout.version ∧ KnownRollout h' known ∧ RolloutWrite h' known rollout
  | .createEffect effect => NewEffect h effect
  | .updateEffect effect v => EffectWrite h effect v
  | .execute request =>
    ∃ plan id admitted current claimedAt checkedAt fencedAt before,
      Fenced h request plan id admitted current claimedAt checkedAt fencedAt before
  | _ => True

end KubeNeuron.Operations
