import KubeNeuron.Controller.WalkInvariant

/-!
# What step goroutines do

A goroutine first decides whether its step is carried out or simulated (`executeStep`): the mode
pinned at its admission and the configuration installed now must both allow it. Then it makes the
calls of its step one by one. Each read of the configuration, each call and each look at the queue
is an operation of its own, and so are the janitors that act on the platform without a step.
-/

namespace KubeNeuron.Controller

open Lib KubeNeuron.Types Store Playbooks

/-! ## The calls of a step -/

/-- The calls that change something on the platform. -/
inductive PlatformCall where
  | requestCheckpoint
  | cordonForOwner
  | releaseCordonOwners
  | drain
  | evictWorkload
  | quiesceAcceleratorStack
  | restoreAcceleratorStack
  | recycleNode
  | replaceNode
  deriving DecidableEq

/-- The calls of a step goroutine. -/
inductive Call where
  | platform (call : PlatformCall)
  | agent (type : Str)
  /-- `pinAcceleratorEvidence` -/
  | pin
  /-- `forgetPinnedAcceleratorEvidence` -/
  | forgetPin
  /-- A read of the agent's heartbeat. -/
  | healthy
  | notify
  deriving DecidableEq

/-- The call reaches the platform or an agent. -/
def Call.sideEffect : Call → Bool
  | .platform _ | .agent _ => true
  | _ => false

/-- The call is made in a loop over workloads, of which there may be none. -/
def Call.loops : Call → Bool
  | .platform .requestCheckpoint | .platform .evictWorkload => true
  | _ => false

/-- The action that stops the holders of the device on the host. -/
def actionQuiesceAcceleratorHost : Str := lit "quiesce_accelerator_host"

/-- `executePlatformStep`: the calls of a platform operation, none for an unknown one. -/
def platformCalls (op : Str) : Option (List Call) :=
  if op = lit "cordon" then some [.platform .cordonForOwner]
  else if op = lit "uncordon" then some [.platform .releaseCordonOwners]
  else if op = lit "drain" then some [.platform .requestCheckpoint, .platform .drain]
  else if op = opQuiesceAcceleratorStack then
    -- the pin comes first: a quiesce without an owner would be taken for an abandoned one
    some [.pin, .platform .quiesceAcceleratorStack, .agent actionQuiesceAcceleratorHost]
  else if op = lit "restore_accelerator_stack" then
    -- the marker of the platform stays until the host is restored
    some [.agent actionRestoreAcceleratorHost, .platform .restoreAcceleratorStack, .forgetPin]
  else if op = lit "recycle_node" then some [.platform .recycleNode]
  else if op = lit "replace_node" then some [.platform .replaceNode]
  else if op = lit "evict_gpu_workload" then
    some [.platform .requestCheckpoint, .platform .evictWorkload]
  else none

/-- The calls of a registered action. -/
def stepCalls (d : Definition) : Option (List Call) :=
  match d.kind with
  | .platform => platformCalls d.op
  | .agent => some [.agent d.op]
  | .verify => some [.healthy]
  | .notify => some [.notify]

/-! ## The action of an agent call -/

/-- The text an action ID is a digest of. -/
def actionText (inc : Incident) : Str :=
  inc.id ++ lit "|" ++ intText inc.stepIndex ++ lit "|" ++ intText inc.attempt

def hexDigits (b : UInt8) : Str := [hexByte (b.toNat / 16), hexByte (b.toNat % 16)]

/-- An ID: the first eight bytes of a digest, in hexadecimal. -/
def shortDigest (sha : Str → Str) (text : Str) : Str :=
  ((sha text).take 8).flatMap hexDigits

def actionID (sha : Str → Str) (inc : Incident) : Str :=
  shortDigest sha (actionText inc)

/-- The text the ID of a janitor's restore is a digest of. -/
def restoreText (node : Str) (attempt : Nat) : Str :=
  node ++ lit "|restore-accelerator-host|" ++ natText attempt

/-- `effectiveStepTimeout`: thirty minutes when the step has none. -/
def effectiveStepTimeout (step : Step) : Int :=
  if step.timeout > 0 then step.timeout else 30 * 60 * 1000000000

/-- The parameters `executeAgentStep` sends. -/
def agentParams (op : Str) (step : Step) (inc : Incident) (bootID : Str) : StrMap :=
  let params := step.params
  let params :=
    if inc.target.gpuUUID ≠ [] then
      (params.insert (lit "gpu_uuid") inc.target.gpuUUID).insert (lit "gpu_index")
        (intText inc.target.gpuIndex)
    else params
  let params :=
    if op = actionQuiesceAcceleratorHost ∨ op = actionRestoreAcceleratorHost then
      params.insert (lit "host_state_key") inc.target.node
    else params
  if op = lit "reboot" ∧ bootID ≠ [] then params.insert (lit "boot_id") bootID else params

def agentAction (sha : Str → Str) (op : Str) (step : Step) (inc : Incident)
    (bootID : Str) : Action :=
  ⟨actionID sha inc, inc.id, op, agentParams op step inc bootID,
    Int64.ofInt (effectiveStepTimeout step)⟩

/-! ## The world -/

/-- What a goroutine went by when it decided: its step, the configuration that admitted it, the one
installed now, and whether the incident has a pin and the platform records the quiesce. -/
structure Dispatch where
  inc : Incident
  step : Step
  admitted : RuntimeConfig
  live : RuntimeConfig
  pinned : Bool
  marked : Bool

def Dispatch.simulates (d : Dispatch) (action : Definition) : Bool :=
  (d.admitted.effectiveDryRun d.inc || d.live.dryRun.getD true) &&
    (!action.compensating || !(d.pinned && d.marked))

/-- Where a step goroutine is. -/
inductive Stage where
  | admitted
  | failed
  | simulated
  | acting (d : Dispatch) (calls : List Call)
  /-- An agent action is queued. -/
  | waiting (d : Dispatch) (a : Action) (calls : List Call)

/-- `executeStep`, up to its first call. -/
def executeStep (d : Dispatch) : Stage :=
  match byWire d.step.action with
  | none => .failed
  | some action =>
    if d.simulates action then .simulated
    else
      match stepCalls action with
      | none => .failed
      | some calls => .acting d calls

def Stage.reports : Stage → Outcome → Bool
  | .failed, .failed _ | .simulated, .ok _ | .acting _ [], .ok _ => true
  | _, _ => false

/-- Something that was done to the platform or asked of an agent. -/
inductive SideEffect where
  | step (d : Dispatch) (call : Call)
  /-- The mark on the node of an incident was placed or taken off. -/
  | taint (inc : Incident) (cfg : RuntimeConfig)
  /-- The hold of a finished remediation was released. -/
  | uncordon (owner node : Str)
  /-- A stack that nobody drives was restored. -/
  | restore (node : Str)

def SideEffect.incident? : SideEffect → Option Str
  | .step d _ => some d.inc.id
  | .taint inc _ => some inc.id
  | .uncordon owner _ => some owner
  | .restore _ => none

/-- An agent action as a goroutine asked for it: its copy of the incident, its step, and the boot ID
the node was registered with. -/
structure Requested where
  inc : Incident
  step : Step
  bootID : Str
  node : Str
  action : Action

/-- A result a goroutine accepted as success, with the row it was read from. -/
structure Accepted where
  inc : Incident
  node : Str
  action : Action
  row : ActionRow

/-- The process with its goroutines and the platform. `stages` goes with the running goroutines,
`pins` and `cordons` pair an incident with a node, `quiesced` are the nodes the platform records as
quiesced. The rest is history: `named` are the texts IDs were made of. -/
structure StepWorld where
  process : WalkWorld
  stages : List Stage
  pins : List (Str × Str)
  quiesced : List Str
  cordons : List (Str × Str)
  effects : List SideEffect
  requested : List Requested
  accepted : List Accepted
  named : List Str

/-- A process that has just started. -/
def StepWorld.start (r : Records) (cfg : RuntimeConfig) : StepWorld :=
  ⟨.start r cfg, [], [], [], [], [], [], [], []⟩

/-! ## Operations -/

/-- How a call ends. A failing call may have taken effect. -/
inductive CallOutcome where
  | ok
  /-- The loop goes on. -/
  | again
  /-- The loop has ended. -/
  | skip
  | error (landed : Bool)

/-- The statements of agents, operators and retention on the queue. -/
inductive QueueOp where
  | deadLetter (c : ClaimCall)
  | lease (c : ClaimCall)
  | complete (c : CompleteCall)
  | cancel (actionID : Str) (now : Nat)
  | safetyStop (now : Nat)
  | discard (actionID : Str)
  | prune (now : Nat) (retention : Int)

/-- The queue after a statement. -/
def QueueOp.run (db : Database) : QueueOp → Database
  | .deadLetter c => deadLetterExhausted c db
  | .lease c => (leaseCandidate c db).1
  | .complete c =>
    (marshalActionResult c.localOffset c.res).elim db fun blob => c.update blob db
  | .cancel actionID now => cancelPendingAction actionID now db
  | .safetyStop now => cancelPendingActionsForSafetyStop now db
  | .discard actionID => discardCompletedAction actionID db
  | .prune now retention => pruneData now retention db

inductive StepOp where
  | walk (op : WalkOp)
  | dispatch (i : Nat) (readable : Bool)
  | call (i : Nat) (outcome : CallOutcome)
  | enqueue (i : Nat) (now : Nat) (refused gateDryRun : Bool)
  | collect (i : Nat)
  | giveUp (i : Nat)
  | taint (inc : Incident) (cfg : RuntimeConfig)
  | uncordonAbandoned (node owner : Str)
  | restoreHost (node : Str) (params : StrMap) (attempt now : Nat)
  | restoreStack (node : Str)
  | expirePin (id : Str)
  /-- The platform's records change by other hands. -/
  | markers (quiesced : List Str)
  /-- An agent registers with a boot ID. -/
  | register (node bootID : Str)
  | queue (op : QueueOp)

namespace WalkWorld

/-- The process after a change of the action queue. -/
def onQueue (w : WalkWorld) (f : Database → Database) : WalkWorld :=
  let db := w.writers.records.db
  { w with
    writers := { w.writers with
      records := { w.writers.records with
        db := { db with actions := (f db).actions, inserted := (f db).inserted } } } }

/-- The process after an agent registered. -/
def onRegistration (w : WalkWorld) (node bootID : Str) : WalkWorld :=
  let nodes := w.writers.records.nodes
  { w with
    writers := { w.writers with
      records := { w.writers.records with
        nodes :=
          if nodes.any fun n => n.name = node then
            updateWhere (fun n => n.name = node) (fun n => { n with bootID }) nodes
          else nodes ++ [⟨node, bootID, false⟩] } } }

end WalkWorld

variable (sha : Str → Str) (lo : Int → Int) (w : StepWorld)

/-- The stages after an operation of the process. -/
def StepWorld.staged : WalkOp → List Stage
  | .launch => .admitted :: w.stages
  | .stepCommit i _ _ => w.stages.eraseIdx i
  | .restart _ => []
  | _ => w.stages

/-- The pins after an operation of the process. They are in its memory. -/
def StepWorld.pinned : WalkOp → List (Str × Str)
  | .restart _ => []
  | _ => w.pins

/-- A goroutine reports what its stage says, and a signal opens incidents in the mode that is
installed. -/
def StepWorld.permits : WalkOp → Bool
  | .stepDone i outcome => (w.stages[i]?).any fun stage => stage.reports outcome
  | .ingest env _ _ => env.dryRun = w.process.live.dryRun.getD true
  | _ => true

/-- An operation of the process. -/
def StepWorld.walkNext (op : WalkOp) : Option StepWorld :=
  if w.permits op then
    (Controller.walkNext sha w.process op).map fun process =>
      { w with process, stages := w.staged op, pins := w.pinned op }
  else none

/-- What the goroutine of an incident goes by now. -/
def StepWorld.dispatchOf (r : Running) (readable : Bool) : Dispatch :=
  ⟨r.inc, r.step, r.cfg, w.process.live, w.pins.contains (r.inc.id, r.inc.target.node),
    readable && w.quiesced.contains r.inc.target.node⟩

/-- A call that took effect. -/
def StepWorld.land (inc : Incident) : Call → StepWorld
  | .pin =>
    { w with pins := (inc.id, inc.target.node) :: w.pins.filter fun pin => pin.1 ≠ inc.id }
  | .forgetPin => { w with pins := w.pins.filter fun pin => pin.1 ≠ inc.id }
  | .platform .quiesceAcceleratorStack => { w with quiesced := inc.target.node :: w.quiesced }
  | .platform .restoreAcceleratorStack =>
    { w with quiesced := w.quiesced.filter fun node => node ≠ inc.target.node }
  | .platform .cordonForOwner => { w with cordons := (inc.id, inc.target.node) :: w.cordons }
  | .platform .releaseCordonOwners =>
    { w with cordons := w.cordons.filter fun hold => hold ≠ (inc.id, inc.target.node) }
  | _ => w

/-- A call was made: it is remembered when it reaches the platform, whatever its outcome. -/
def StepWorld.make (d : Dispatch) (c : Call) (landed : Bool) : StepWorld :=
  let w := if landed then w.land d.inc c else w
  if c.sideEffect then { w with effects := .step d c :: w.effects } else w

/-- One call of a goroutine, agent calls apart. -/
def StepWorld.callNext (i : Nat) (d : Dispatch) (c : Call) (rest : List Call) :
    CallOutcome → Option StepWorld
  | .ok => some { w.make d c true with stages := w.stages.set i (.acting d rest) }
  | .again =>
    if c.loops then some { w.make d c true with stages := w.stages.set i (.acting d (c :: rest)) }
    else none
  | .skip => if c.loops then some { w with stages := w.stages.set i (.acting d rest) } else none
  | .error landed => some { w.make d c landed with stages := w.stages.set i .failed }

/-- An agent call. It may be refused before it reaches the queue, and the actuator simulates it when
the gate's own flag says so; a restore is never simulated there. -/
def StepWorld.enqueueNext (i now : Nat) (refused gateDryRun : Bool) (d : Dispatch) (type : Str)
    (rest : List Call) : StepWorld :=
  if refused then { w with stages := w.stages.set i .failed }
  else if gateDryRun && type ≠ actionRestoreAcceleratorHost then
    { w with stages := w.stages.set i (.acting d rest) }
  else
    let node := d.inc.target.node
    let bootID := (getNode node w.process.records).elim [] NodeRow.bootID
    let a := agentAction sha type d.step d.inc bootID
    { w with
      process := w.process.onQueue (enqueueAction node a now)
      stages := w.stages.set i (.waiting d a rest)
      effects := .step d (.agent type) :: w.effects
      requested := ⟨d.inc, d.step, bootID, node, a⟩ :: w.requested
      named := actionText d.inc :: w.named }

/-- One look of `Execute` at the row of its action. -/
def StepWorld.collectNext (i : Nat) (d : Dispatch) (a : Action) (rest : List Call) :
    Option StepWorld :=
  let failed := some { w with stages := w.stages.set i .failed }
  match w.process.records.db.actions.find? fun r => r.id = a.id with
  | none => failed
  | some row =>
    match scanAction lo row with
    | none => failed
    | some queued =>
      if queued.cancelled || queued.dead then failed
      else if queued.done then
        if queued.result.any ActionResult.ok then
          some { w with
            stages := w.stages.set i (.acting d rest)
            accepted := ⟨d.inc, d.inc.target.node, a, row⟩ :: w.accepted }
        else failed
      else none

/-- A stack is abandoned when no active incident has a pin for its node. -/
def StepWorld.abandoned (node : Str) : Bool :=
  w.quiesced.contains node &&
    !w.pins.any fun pin =>
      pin.2 = node && (getIncident pin.1 w.process.records.db).any active

def stepNext : StepOp → Option StepWorld
  | .walk op => w.walkNext sha op
  | .dispatch i readable =>
    match w.process.running[i]?, w.stages[i]? with
    | some ⟨inc, step, cfg, .executing⟩, some .admitted =>
      let d := w.dispatchOf ⟨inc, step, cfg, .executing⟩ readable
      some { w with stages := w.stages.set i (executeStep d) }
    | _, _ => none
  | .call i outcome =>
    match w.stages[i]? with
    | some (.acting _ (.agent _ :: _)) => none
    | some (.acting d (c :: rest)) => w.callNext i d c rest outcome
    | _ => none
  | .enqueue i now refused gateDryRun =>
    match w.stages[i]? with
    | some (.acting d (.agent type :: rest)) =>
      some (w.enqueueNext sha i now refused gateDryRun d type rest)
    | _ => none
  | .collect i =>
    match w.stages[i]? with
    | some (.waiting d a rest) => w.collectNext lo i d a rest
    | _ => none
  | .giveUp i =>
    match w.stages[i]? with
    | some (.waiting _ _ _) => some { w with stages := w.stages.set i .failed }
    | _ => none
  | .taint inc cfg =>
    if inc ∈ w.process.writers.held ∧ cfg.effectiveDryRun inc = false then
      some { w with effects := .taint inc cfg :: w.effects }
    else none
  | .uncordonAbandoned node owner =>
    if (owner, node) ∈ w.cordons then
      some { w with
        cordons := w.cordons.filter fun hold => hold ≠ (owner, node)
        effects := .uncordon owner node :: w.effects }
    else none
  | .restoreHost node params attempt now =>
    if w.abandoned node then
      some { w with
        process := w.process.onQueue (enqueueAction node
          ⟨shortDigest sha (restoreText node attempt), [], actionRestoreAcceleratorHost, params,
            Int64.ofInt (2 * 60 * 1000000000)⟩ now)
        effects := .restore node :: w.effects
        named := restoreText node attempt :: w.named }
    else none
  | .restoreStack node =>
    if w.abandoned node then
      some { w with
        quiesced := w.quiesced.filter fun other => other ≠ node
        pins := w.pins.filter fun pin => pin.2 ≠ node
        effects := .restore node :: w.effects }
    else none
  | .expirePin id => some { w with pins := w.pins.filter fun pin => pin.1 ≠ id }
  | .markers quiesced => some { w with quiesced }
  | .register node bootID => some { w with process := w.process.onRegistration node bootID }
  | .queue op => some { w with process := w.process.onQueue fun db => op.run db }

/-! ## What one operation does -/

/-- What a goroutine that has decided went by. -/
def Stage.dispatch? : Stage → Option Dispatch
  | .acting d _ | .waiting d _ _ => some d
  | _ => none

/-- The calls a goroutine has before it. -/
def Stage.calls : Stage → List Call
  | .acting _ calls | .waiting _ _ calls => calls
  | _ => []

/-- The ways in which an operation changes the world, with what it checked. -/
inductive StepEffect (sha : Str → Str) (lo : Int → Int) (w : StepWorld) :
    StepOp → StepWorld → Prop where
  | walked (op : WalkOp) (process : WalkWorld) (hpermits : w.permits op = true)
      (hstep : WalkStep sha w.process op process) :
      StepEffect sha lo w (.walk op)
        { w with process, stages := w.staged op, pins := w.pinned op }
  | dispatched (i : Nat) (readable : Bool) (r : Running)
      (hrunning : w.process.running[i]? = some r) :
      StepEffect sha lo w (.dispatch i readable)
        { w with stages := w.stages.set i (executeStep (w.dispatchOf r readable)) }
  /-- A goroutine goes on, or fails, without a call. -/
  | turned {op : StepOp} (i : Nat) (before after : Stage) (hstage : w.stages[i]? = some before)
      (hafter : ∀ d ∈ after.dispatch?, before.dispatch? = some d)
      (hcalls : ∀ c ∈ after.calls, c ∈ before.calls)
      (hwaits : ∀ d a rest, after ≠ .waiting d a rest) :
      StepEffect sha lo w op { w with stages := w.stages.set i after }
  | called (i : Nat) (outcome : CallOutcome) (d : Dispatch) (c : Call) (rest : List Call)
      (landed : Bool) (after : Stage) (hstage : w.stages[i]? = some (.acting d (c :: rest)))
      (hafter : ∀ d' ∈ after.dispatch?, d' = d) (hcalls : ∀ c' ∈ after.calls, c' ∈ c :: rest)
      (hwaits : ∀ d a rest, after ≠ .waiting d a rest) :
      StepEffect sha lo w (.call i outcome)
        { w.make d c landed with stages := w.stages.set i after }
  | requested (i now : Nat) (refused gateDryRun : Bool) (d : Dispatch) (type : Str)
      (rest : List Call) (bootID : Str)
      (hstage : w.stages[i]? = some (.acting d (.agent type :: rest)))
      (hboot : bootID = (getNode d.inc.target.node w.process.records).elim [] NodeRow.bootID) :
      StepEffect sha lo w (.enqueue i now refused gateDryRun)
        { w with
          process := w.process.onQueue (enqueueAction d.inc.target.node
            (agentAction sha type d.step d.inc bootID) now)
          stages := w.stages.set i (.waiting d (agentAction sha type d.step d.inc bootID) rest)
          effects := .step d (.agent type) :: w.effects
          requested := ⟨d.inc, d.step, bootID, d.inc.target.node,
            agentAction sha type d.step d.inc bootID⟩ :: w.requested
          named := actionText d.inc :: w.named }
  | accepted (i : Nat) (d : Dispatch) (a : Action) (rest : List Call) (row : ActionRow)
      (queued : QueuedAction) (hstage : w.stages[i]? = some (.waiting d a rest))
      (hrow : w.process.records.db.actions.find? (fun r => r.id = a.id) = some row)
      (hscan : scanAction lo row = some queued) (hdone : queued.done = true)
      (hok : queued.result.any ActionResult.ok = true) :
      StepEffect sha lo w (.collect i)
        { w with
          stages := w.stages.set i (.acting d rest)
          accepted := ⟨d.inc, d.inc.target.node, a, row⟩ :: w.accepted }
  | tainted (inc : Incident) (cfg : RuntimeConfig) (hheld : inc ∈ w.process.writers.held)
      (hmode : cfg.effectiveDryRun inc = false) :
      StepEffect sha lo w (.taint inc cfg) { w with effects := .taint inc cfg :: w.effects }
  | uncordoned (node owner : Str) (hhold : (owner, node) ∈ w.cordons) :
      StepEffect sha lo w (.uncordonAbandoned node owner)
        { w with
          cordons := w.cordons.filter fun hold => hold ≠ (owner, node)
          effects := .uncordon owner node :: w.effects }
  | restoredHost (node : Str) (params : StrMap) (attempt now : Nat) :
      StepEffect sha lo w (.restoreHost node params attempt now)
        { w with
          process := w.process.onQueue (enqueueAction node
            ⟨shortDigest sha (restoreText node attempt), [], actionRestoreAcceleratorHost, params,
              Int64.ofInt (2 * 60 * 1000000000)⟩ now)
          effects := .restore node :: w.effects
          named := restoreText node attempt :: w.named }
  | restoredStack (node : Str) :
      StepEffect sha lo w (.restoreStack node)
        { w with
          quiesced := w.quiesced.filter fun other => other ≠ node
          pins := w.pins.filter fun pin => pin.2 ≠ node
          effects := .restore node :: w.effects }
  | unpinned (id : Str) :
      StepEffect sha lo w (.expirePin id) { w with pins := w.pins.filter fun pin => pin.1 ≠ id }
  | marked (quiesced : List Str) : StepEffect sha lo w (.markers quiesced) { w with quiesced }
  | registered (node bootID : Str) :
      StepEffect sha lo w (.register node bootID)
        { w with process := w.process.onRegistration node bootID }
  | queued (op : QueueOp) :
      StepEffect sha lo w (.queue op)
        { w with process := w.process.onQueue fun db => op.run db }

variable {sha : Str → Str} {lo : Int → Int} {w w' : StepWorld} {i : Nat} {op : StepOp}

variable {d : Dispatch} {rest : List Call}

theorem effect_of_callNext {outcome : CallOutcome} {c : Call}
    (hg : w.stages[i]? = some (.acting d (c :: rest)))
    (h : w.callNext i d c rest outcome = some w') : StepEffect sha lo w (.call i outcome) w' := by
  have hacting : ∀ (calls : List Call), ∀ d' ∈ (Stage.acting d calls).dispatch?, d' = d :=
    fun calls d' hd' => (Option.some.inj hd').symm
  have hw : ∀ (calls : List Call) d' a rest', Stage.acting d calls ≠ .waiting d' a rest' := by
    intro calls d' a rest' heq
    cases heq
  cases outcome with
  | ok =>
    cases h
    exact .called i .ok d c rest true (.acting d rest) hg (hacting rest)
      (fun c' hc' => List.mem_cons_of_mem c hc') (hw rest)
  | again =>
    obtain ⟨-, rfl⟩ := guarded h
    exact .called i .again d c rest true (.acting d (c :: rest)) hg (hacting _)
      (fun c' hc' => hc') (hw _)
  | skip =>
    obtain ⟨-, rfl⟩ := guarded h
    refine .turned i (.acting d (c :: rest)) (.acting d rest) hg ?_ ?_ (hw rest)
    · intro d' hd'
      exact hd'
    · intro c' hc'
      exact List.mem_cons_of_mem c hc'
  | error landed =>
    cases h
    refine .called i (.error landed) d c rest landed .failed hg ?_ ?_ ?_
    · intro d' hd'
      cases hd'
    · intro c' hc'
      cases hc'
    · intro d' a rest' heq
      cases heq

theorem effect_of_failed {before : Stage} (hg : w.stages[i]? = some before) :
    StepEffect sha lo w op { w with stages := w.stages.set i .failed } := by
  refine .turned i before .failed hg ?_ ?_ ?_
  · intro d hd
    cases hd
  · intro c hc
    cases hc
  · intro d a rest heq
    cases heq

theorem effect_of_collectNext {a : Action} (hg : w.stages[i]? = some (.waiting d a rest)) :
    w.collectNext lo i d a rest = some w' → StepEffect sha lo w (.collect i) w' := by
  fun_cases w.collectNext lo i d a rest with
  | case4 row hr queued hs _ hd hok =>
    rintro ⟨⟩
    exact .accepted i d a rest row queued hg hr hs hd hok
  | case6 => rintro ⟨⟩
  | _ =>
    intro h
    cases Option.some.inj h
    exact effect_of_failed hg

/-- **Every operation is one of these.** -/
theorem stepEffect_of_next : stepNext sha lo w op = some w' → StepEffect sha lo w op w' := by
  fun_cases stepNext sha lo w op with
  | case1 op =>
    intro h
    rw [StepWorld.walkNext] at h
    split_ifs at h with hperm
    obtain ⟨process, hp, rfl⟩ := Option.map_eq_some_iff.1 h
    exact .walked op process hperm (walkStep_of_next hp)
  | case2 i readable inc step cfg _ hr =>
    rintro ⟨⟩
    exact .dispatched i readable ⟨inc, step, cfg, .executing⟩ hr
  | case5 i outcome d c rest _ hg => exact effect_of_callNext hg
  | case7 i now refused gateDryRun d type rest hg =>
    rintro ⟨⟩
    fun_cases w.enqueueNext sha i now refused gateDryRun d type rest with
    | case1 => exact effect_of_failed hg
    | case2 =>
      refine .turned i _ (.acting d rest) hg ?_ ?_ ?_
      · intro d' hd'
        exact hd'
      · intro c hc
        exact .tail _ hc
      · intro d' a rest' heq
        cases heq
    | case3 => exact .requested i now _ _ d type rest _ hg rfl
  | case9 i d a rest hg => exact effect_of_collectNext hg
  | case11 i d a rest hg =>
    rintro ⟨⟩
    exact effect_of_failed hg
  | case13 inc cfg hm =>
    rintro ⟨⟩
    exact .tainted inc cfg hm.1 hm.2
  | case15 node owner hh =>
    rintro ⟨⟩
    exact .uncordoned node owner hh
  | case17 node params attempt now =>
    rintro ⟨⟩
    exact .restoredHost node params attempt now
  | case19 node =>
    rintro ⟨⟩
    exact .restoredStack node
  | case21 id =>
    rintro ⟨⟩
    exact .unpinned id
  | case22 quiesced =>
    rintro ⟨⟩
    exact .marked quiesced
  | case23 node bootID =>
    rintro ⟨⟩
    exact .registered node bootID
  | case24 op =>
    rintro ⟨⟩
    exact .queued op
  | _ => rintro ⟨⟩

/-! ## What an operation keeps -/

theorem StepWorld.make_process (w : StepWorld) (d : Dispatch) (c : Call) (landed : Bool) :
    (w.make d c landed).process = w.process := by
  have hland : (w.land d.inc c).process = w.process := by
    unfold StepWorld.land
    split <;> rfl
  rw [StepWorld.make]
  cases landed with
  | false =>
    cases c.sideEffect with
    | false | true => rfl
  | true =>
    cases c.sideEffect with
    | false | true => exact hland

theorem StepEffect.process (h : StepEffect sha lo w op w') :
    (∃ wop, op = .walk wop ∧ w.permits wop = true ∧ WalkStep sha w.process wop w'.process) ∨
      (∃ f, w'.process = w.process.onQueue f) ∨
      (∃ node bootID, w'.process = w.process.onRegistration node bootID) ∨
      w'.process = w.process := by
  cases h with
  | walked op _ hp hs => exact .inl ⟨op, rfl, hp, hs⟩
  | requested | restoredHost => exact .inr (.inl ⟨_, rfl⟩)
  | queued op => exact .inr (.inl ⟨fun db => op.run db, rfl⟩)
  | registered node bootID => exact .inr (.inr (.inl ⟨node, bootID, rfl⟩))
  | called _ _ d c _ landed =>
    exact .inr (.inr (.inr (StepWorld.make_process w d c landed)))
  | _ => exact .inr (.inr (.inr rfl))

theorem StepEffect.threads (h : StepEffect sha lo w op w') (hi : ThreadInv w.process) :
    ThreadInv w'.process := by
  have hw := hi.writers
  rcases h.process with ⟨_, -, -, hs⟩ | ⟨_, hp⟩ | ⟨_, _, hp⟩ | hp
  · exact hi.step hs
  · rw [hp]
    exact { hi with writers := ⟨hw.ids, hw.trails, hw.heldStamp, hw.rowStamp, hw.fence⟩ }
  · rw [hp]
    exact { hi with writers := ⟨hw.ids, hw.trails, hw.heldStamp, hw.rowStamp, hw.fence⟩ }
  · rw [hp]
    exact hi

theorem StepWorld.mem_staged {op : WalkOp} {stage : Stage}
    (h : stage ∈ w.staged op) : stage ∈ w.stages ∨ stage = .admitted := by
  unfold StepWorld.staged at h
  split at h
  · exact (List.mem_cons.1 h).symm
  · exact .inl (List.mem_of_mem_eraseIdx h)
  · cases h
  · exact .inl h

/-! ## The goroutines -/

/-- The operations that neither start nor end a goroutine nor turn it to its write. -/
def WalkOp.plain : WalkOp → Bool
  | .launch | .stepDone _ _ | .stepCancel _ _ _ | .stepCommit _ _ _ | .restart _ => false
  | _ => true

/-- What an operation of the process does to the goroutines. -/
inductive Goroutines (w : WalkWorld) : WalkOp → List Running → Prop where
  | same {op : WalkOp} (hplain : op.plain = true) : Goroutines w op w.running
  | launched (p : Pass) (step : Step) (hpass : w.pass = some p)
      (hphase : p.phase = .launching step) :
      Goroutines w .launch (⟨p.inc, step, p.cfg, .executing⟩ :: w.running)
  | finished (i : Nat) (outcome : Outcome) (r : Running) (m : Move) (cancel : Bool)
      (hrunning : w.running[i]? = some r) (hphase : r.phase = .executing)
      (hplan : afterStep r.cfg r.inc r.step outcome = .move m cancel) :
      Goroutines w (.stepDone i outcome)
        (w.running.set i { r with phase := if cancel then .cancelling m else .writing m })
  | cancelled (i : Nat) (r : Running) (m : Move) (updatedAt now : Nat)
      (hrunning : w.running[i]? = some r) (hphase : r.phase = .cancelling m) :
      Goroutines w (.stepCancel i updatedAt now) (w.running.set i { r with phase := .writing m })
  | wrote (i : Nat) (r : Running) (m : Move) (now : Int) (fault : Bool)
      (hrunning : w.running[i]? = some r) (hphase : r.phase = .writing m) :
      Goroutines w (.stepCommit i now fault) (w.running.eraseIdx i)
  | ended (cfg : RuntimeConfig) : Goroutines w (.restart cfg) []

theorem SideOp.plain {w : WalkWorld} {op : WalkOp} {sop : Option WriterOp} (h : SideOp w op sop) :
    op.plain = true := by
  have haside : ∀ op : WalkOp, op.aside = true → op.plain = true := by
    intro op h
    unfold WalkOp.aside at h
    split at h
    all_goals first | rfl | cases h
  cases h with
  | idle h | read h | decide _ h => exact haside op h
  | _ => rfl

theorem WalkStep.goroutines {w w' : WalkWorld} {op : WalkOp}
    (h : WalkStep sha w op w') : Goroutines w op w'.running := by
  cases h with
  | turned _ _ _ ht => exact .same (by cases ht <;> rfl)
  | side sop _ _ _ _ hop =>
    have hr : (w.writeIf sop).running = w.running := by
      cases sop with
      | none | some => rfl
    rw [hr]
    exact .same hop.plain
  | launched p step hp hph => exact .launched p step hp hph
  | stepTurned i outcome r m cancel hr hph hl =>
    exact .finished i outcome r m cancel hr hph hl
  | stepCancelled i r m updatedAt now hr hph =>
    exact .cancelled i r m updatedAt now hr hph
  | stepWrote i r m now fault hr hph => exact .wrote i r m now fault hr hph
  | restarted cfg => exact .ended cfg
  | _ => exact .same rfl

theorem StepWorld.staged_plain {op : WalkOp} (h : op.plain = true) : w.staged op = w.stages := by
  cases op <;> first | rfl | cases h

/-- A goroutine in this stage still has something to do. -/
def Stage.busy : Stage → Bool
  | .admitted | .acting _ (_ :: _) | .waiting _ _ _ => true
  | _ => false

theorem Stage.reports_of_busy {stage : Stage} (h : stage.busy = true) (outcome : Outcome) :
    stage.reports outcome = false := by
  unfold Stage.busy at h
  split at h
  · rfl
  · rfl
  · rfl
  · cases h

theorem stages_of_next (h : stepNext sha lo w op = some w') (hop : ∀ wop, op ≠ .walk wop) :
    w'.stages = w.stages ∨ ∃ i before after, w.stages[i]? = some before ∧ before.busy = true ∧
      w'.stages = w.stages.set i after := by
  revert h
  fun_cases stepNext sha lo w op with
  | case1 wop => exact absurd rfl (hop wop)
  | case2 i _ _ _ _ hg | case11 i _ _ _ hg =>
    rintro ⟨⟩
    exact .inr ⟨i, _, _, hg, rfl, rfl⟩
  | case5 i outcome d c rest _ hg =>
    fun_cases w.callNext i d c rest outcome with
    | case3 | case5 => rintro ⟨⟩
    | _ =>
      rintro ⟨⟩
      exact .inr ⟨i, _, _, hg, rfl, rfl⟩
  | case7 i now refused gateDryRun d type rest hg =>
    rintro ⟨⟩
    rw [StepWorld.enqueueNext]
    split_ifs <;> exact .inr ⟨i, _, _, hg, rfl, rfl⟩
  | case9 i d a rest hg =>
    fun_cases w.collectNext lo i d a rest with
    | case6 => rintro ⟨⟩
    | _ =>
      intro h
      cases Option.some.inj h
      exact .inr ⟨i, _, _, hg, rfl, rfl⟩
  | case13 | case15 | case17 | case19 | case21 | case22 | case23 | case24 =>
    rintro ⟨⟩
    exact .inl rfl
  | _ => rintro ⟨⟩

end KubeNeuron.Controller
