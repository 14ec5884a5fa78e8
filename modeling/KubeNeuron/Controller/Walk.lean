import KubeNeuron.Controller.Writers

/-!
# The decisions of the walk

What one advance of an incident decides, as functions of the copy it works on, the configuration it
pinned and what it reads besides (`Tick`). The verdicts that read the platform, the reports, the
node labels and the safety gate are fields of a `Tick`: nothing is assumed about them.
-/

namespace KubeNeuron.Controller

open Lib KubeNeuron.Types Store Playbooks

/-! ## Configuration -/

/-- One installed snapshot of the runtime configuration. `dryRun` is the flag of its safety limits,
absent when it has none; `observePolicy` gives the threshold and window of a class and vendor. -/
structure RuntimeConfig where
  engine : Engine
  dryRun : Option Bool
  observePolicy : Str → Str → Int × Int
  verifyQuiet : Int
  approvalTTL : Int

namespace RuntimeConfig

/-- `effectiveDryRun`: a snapshot without limits executes nothing. -/
def effectiveDryRun (cfg : RuntimeConfig) (inc : Incident) : Bool :=
  inc.dryRun || cfg.dryRun.getD true

/-- `verifyEvidenceDeadline`: three quiet windows, a product that wraps, and at least ten
minutes. -/
def verifyEvidenceDeadline (cfg : RuntimeConfig) : Int :=
  max (Int64.ofInt (3 * cfg.verifyQuiet)).toInt 600000000000

end RuntimeConfig

/-! ## What an advance reads besides -/

/-- A check that can let a step pass, hold it or refuse it. -/
inductive Verdict where
  | proceed
  | hold
  | refuse (reason : Str)

/-- Why a reset playbook cannot work: for good, or because processes hold the device. -/
inductive Infeasible where
  | forever (reason : Str)
  | held (reason : Str)

/-- A step against the declared blast radius. -/
inductive Confinement where
  | inScope
  | outOfScope (reason : Str)
  | unresolved (reason : Str)
  deriving DecidableEq

/-- The evidence for an accelerator step. -/
inductive AcceleratorVerdict where
  | allowed
  | unattributed (reason : Str)
  | denied (reason : Str)
  deriving DecidableEq

/-- The safety gate's answer. A global pause is told apart from every other denial. -/
inductive GateVerdict where
  | allowed
  | paused
  | denied
  deriving DecidableEq

/-- The clock and the verdicts one advance meets. `quote` is the quoting of `%q`. -/
structure Tick where
  now : Int
  flapping : Bool
  inWindow : Bool
  coolingDown : Bool
  infeasible : Option Infeasible
  arming : Step → Verdict
  unrecyclable : Step → Option Str
  evidence : Bool × Str
  confinement : Confinement
  accelerator : AcceleratorVerdict
  gate : GateVerdict
  quiesced : Bool
  quote : Str → Str

/-! ## Plans -/

/-- What an advance decides. A transition that hands over or escalates cancels the pending actions
of the incident first. -/
inductive Plan where
  | hold
  | move (m : Move) (cancel : Bool)
  | park (p : Park)
  | start (step : Step) (actor : Str)

variable (sha : Str → Str) (cfg : RuntimeConfig) (t : Tick) (inc : Incident)

/-- A transition of the system that leaves the progress as it is. -/
def systemMove (dest : IncidentState) (action result : Str) : Move :=
  ⟨inc, .of inc, dest, lit "system", action, result, StrMap.empty⟩

def quarantine (reason : Str) : Plan :=
  .move (systemMove inc .needsHuman (lit "quarantine") reason) true

def maxEscalationAttempts : Int := 8

def escalate (reason : Str) : Plan :=
  if inc.attempt ≥ maxEscalationAttempts then
    quarantine inc (reason ++ lit "; escalation cap reached (" ++ intText inc.attempt ++
      lit " attempts) — stopping automation and handing off to a human")
  else
    match cfg.engine.escalation inc.playbook with
    | none => quarantine inc (reason ++ lit "; no escalation playbook")
    | some next =>
      .move
        { systemMove inc .evaluating (lit "escalate")
            (reason ++ lit "; escalating " ++ inc.playbook ++ lit " -> " ++ next.name ++
              lit " (attempt " ++ intText (inc.attempt + 1) ++ lit ")") with
          progress := ⟨next.name, 0, inc.attempt + 1, inc.remediationSlotHeld⟩ }
        true

/-! ## The states of the walk -/

def advanceOpen : Plan :=
  if t.flapping then quarantine inc (lit "flap threshold reached: automation stopped")
  else
    match cfg.engine.playbook inc.playbook with
    | none => .move (systemMove inc .observing (lit "observe") []) false
    | some book =>
      if isObservePlaybook book then .move (systemMove inc .observing (lit "observe") []) false
      else .move (systemMove inc .evaluating (lit "evaluate") []) false

/-- The playbook `advanceObserving` binds to an incident that never had one. -/
def lateBinding : Option Str :=
  if inc.playbook = [] then (cfg.engine.selectFor inc.cls inc.vendor).map (·.name) else none

/-- `advanceObserving` after the late bind. -/
def advanceObserving : Plan :=
  let policy := cfg.observePolicy inc.cls inc.vendor
  if policy.1 > 0 && inc.signalSeen ≥ policy.1 && (cfg.engine.playbook inc.playbook).isSome then
    .move (systemMove inc .evaluating (lit "observe-threshold")
      (intText inc.signalSeen ++ lit " signals >= threshold " ++ intText policy.1)) false
  else if t.now - inc.updatedAt ≥ policy.2 then
    .move (systemMove inc .resolved (lit "observe-quiet")
      (lit "no recurrence within " ++ durationText policy.2)) false
  else .hold

/-- The first verdict on the steps of a playbook that does not let them pass. -/
def firstUnarmed (t : Tick) : List Step → Verdict
  | [] => .proceed
  | s :: steps =>
    match t.arming s with
    | .proceed => firstUnarmed t steps
    | v => v

/-- The checks of `advanceEvaluating` before the first step of a playbook. -/
def beforeFirstStep (book : Playbook) : Option Plan :=
  if t.coolingDown then some .hold
  else
    match t.infeasible with
    | some (.forever reason) => some (quarantine inc reason)
    | some (.held reason) => some (escalate cfg inc reason)
    | none =>
      if cfg.effectiveDryRun inc then none
      else
        match firstUnarmed t book.steps with
        | .proceed => none
        | .hold => some .hold
        | .refuse reason => some (escalate cfg inc reason)

/-- `advanceEvaluating` at a step. -/
def evaluateStep (step : Step) : Plan :=
  match t.unrecyclable step with
  | some reason => escalate cfg inc reason
  | none =>
    match t.arming step with
    | .hold => .hold
    | .refuse reason => escalate cfg inc reason
    | .proceed =>
      if step.needsApproval then
        .park (parkForApproval sha inc step (lit "step requires human approval"))
      else .start step (lit "system")

/-- `advanceEvaluating` after the node was found not to be paused. -/
def advanceEvaluating : Plan :=
  if t.inWindow then .hold
  else
    match cfg.engine.playbook inc.playbook with
    | none =>
      .move (systemMove inc .observing (lit "observe") (lit "no playbook bound; observing")) false
    | some book =>
      match if inc.stepIndex = 0 then beforeFirstStep cfg t inc book else none with
      | some plan => plan
      | none =>
        match cfg.engine.nextStep inc.playbook inc.stepIndex with
        | .unknown =>
          quarantine inc (lit "incident " ++ inc.id ++ lit " references unknown playbook " ++
            t.quote inc.playbook)
        | .done =>
          -- the state machine has no such edge
          .move (systemMove inc .verifying (lit "verify")
            (lit "playbook steps complete; verifying quiet window")) false
        | .step step => evaluateStep sha cfg t inc step

def advanceVerifying : Plan :=
  if inc.updatedAt > inc.stateChangedAt then
    escalate cfg inc (lit "verification failed: signal recurred during quiet window")
  else if t.now - inc.stateChangedAt < cfg.verifyQuiet then .hold
  else if !cfg.effectiveDryRun inc && !t.evidence.1 then
    if t.now - inc.stateChangedAt < cfg.verifyEvidenceDeadline then .hold
    else
      .move (systemMove inc .needsHuman (lit "verify-evidence")
        (lit "verification evidence unavailable: " ++ t.evidence.2)) false
  else
    let depth := if cfg.effectiveDryRun inc then [] else t.evidence.2
    .move (systemMove inc .resolved (lit "resolve")
      (lit "healthy: quiet for " ++ durationText cfg.verifyQuiet ++
        if depth = [] then [] else lit "; " ++ depth)) false

def recoverOrphanedExecution : Plan :=
  .move (systemMove inc .evaluating (lit "recover")
    (lit "controller restarted mid-step; re-evaluating (idempotent action IDs)")) false

/-! ## Approvals -/

/-- `advanceAwaitingApproval` of a park that predates approval rounds. -/
def migratePark : Plan :=
  match cfg.engine.nextStep inc.playbook inc.stepIndex with
  | .step step => .park (parkForApproval sha inc step
      (lit "re-parking: this park predates approval rounds; a fresh approval is required"))
  | _ => quarantine inc (lit "parked step no longer exists")

/-- The expiry check at the end of `advanceAwaitingApproval`. -/
def expireApproval : Plan :=
  if t.now - inc.stateChangedAt > cfg.approvalTTL then
    .move (systemMove inc .expired (lit "approval-ttl")
      (lit "no decision within " ++ durationText cfg.approvalTTL)) false
  else .hold

/-- What follows from the decision of the round: a plan, or, for an approval, the step whose request
is to be compared. -/
inductive Resume where
  | plan (p : Plan)
  | compare (step : Step) (decision : Approval)

/-- `advanceAwaitingApproval` from the decision it read. -/
def advanceAwaitingApproval : Option Approval → Resume
  | none => .plan (expireApproval cfg t inc)
  | some d =>
    match cfg.engine.nextStep inc.playbook inc.stepIndex with
    | .step step =>
      match d.decision with
      | .approved => .compare step d
      | .rejected =>
        .plan (.move ⟨inc, .of inc, .needsHuman, d.actor, firstNonBlank d.stepName step.name,
          lit "approval rejected", StrMap.empty⟩ false)
      | .requested => .plan (expireApproval cfg t inc)
    | _ => .plan (quarantine inc (lit "approved step no longer exists"))

/-- `requestMismatch`: why the step is not the one the round asked about. -/
def requestMismatch (sha quote : Str → Str) (request : Approval) (playbook : Str)
    (step : Step) : Option Str :=
  if request.playbookName ≠ playbook then
    some (lit "approval was requested under playbook " ++ quote request.playbookName ++
      lit " but the incident now runs " ++ quote playbook)
  else if request.stepName ≠ step.name then
    some (lit "approval was requested for step " ++ quote request.stepName ++
      lit " but the current step is " ++ quote step.name)
  else if request.stepAction ≠ step.action then
    some (lit "approval was requested for action " ++ quote request.stepAction ++
      lit " but the current step runs " ++ quote step.action)
  else if request.stepHash ≠ stepContentHash sha playbook step then
    some (lit "the requested step's content changed at this index")
  else none

/-- `advanceAwaitingApproval` from the request of an approved round. -/
def honourApproval (step : Step) (decision : Approval) : Option Approval → Plan
  | none => .park (parkForApproval sha inc step
      (lit "re-parking: this park predates approval rounds and has no request record; a fresh approval is required"))
  | some request =>
    match requestMismatch sha t.quote request inc.playbook step with
    | some reason =>
      .park (parkForApproval sha inc step (lit "not executing approved step: " ++ reason))
    | none => if t.inWindow then .hold else .start step decision.actor

/-- The request of a round names the step under the playbook, with its content. -/
structure NamesStep (sha : Str → Str) (request : Approval) (book : Str)
    (step : Step) : Prop where
  playbook : request.playbookName = book
  name : request.stepName = step.name
  action : request.stepAction = step.action
  content : request.stepHash = stepContentHash sha book step

/-! ## Admission and outcome of a step -/

/-- The answer of `startStep` before the transition. -/
inductive Admission where
  | plan (p : Plan)
  | admitted

/-- The pause exception: a reversal of a quiesce this incident owns. -/
def pauseBypass (step : Step) : Bool :=
  (byWire step.action).any Definition.compensating && t.quiesced

/-- The checks of `startStep` under the runtime lock, up to the gate's answer. -/
def admitStep (step : Step) : Admission :=
  let late := t.now - inc.stateChangedAt ≥ cfg.verifyEvidenceDeadline
  match t.confinement with
  | .outOfScope reason => .plan (quarantine inc reason)
  | .unresolved reason =>
    if late then
      .plan (quarantine inc
        (reason ++ lit "; still unresolvable past the confinement deadline"))
    else .plan .hold
  | .inScope =>
    match t.accelerator with
    | .unattributed reason => .plan (quarantine inc reason)
    | .denied reason =>
      if late then
        .plan (quarantine inc
          (lit "accelerator reset evidence still unavailable past the evidence deadline: " ++
            reason))
      else .plan .hold
    | .allowed =>
      match t.gate with
      | .allowed => .admitted
      | .paused => if pauseBypass t step then .admitted else .plan .hold
      | .denied => .plan .hold

/-- The transition of `startStep`. The slot is held from here. -/
def executingMove (step : Step) (actor : Str) : Move :=
  ⟨inc, { Progress.of inc with slotHeld := true }, .executing, actor, step.name,
    lit "step-start: " ++ step.action, step.params⟩

/-- How a step ended. -/
inductive Outcome where
  | failed (err : Str)
  | ok (output : Str)

/-- `runStep` after the step: the next state is computed with the engine that admitted the step. -/
def afterStep (step : Step) : Outcome → Plan
  | .failed err =>
    if stepIsIdleGuard step then
      quarantine inc (step.name ++ lit " did not clear the device (" ++ err ++
        lit "); automation stops here rather than escalating to a more destructive step")
    else escalate cfg inc (lit "step " ++ step.name ++ lit " failed: " ++ err)
  | .ok output =>
    let finished := cfg.engine.nextStep inc.playbook (inc.stepIndex + 1) = .done
    .move
      ⟨inc, { Progress.of inc with stepIndex := inc.stepIndex + 1 },
        if finished then .verifying else .evaluating, lit "system", step.name,
        firstNonBlank output
          (if finished then lit "playbook complete; verifying quiet window"
          else lit "step complete; evaluating next step"),
        step.params⟩
      false

/-! ## Janitors and operators -/

def quiesceStepIndex (book : Playbook) : Option Nat :=
  book.steps.findIdx? fun s => s.action = lit "platform." ++ opQuiesceAcceleratorStack

/-- The index `rewindIncidentsToQuiesce` sends an incident back to, when it is past it. -/
def rewindIndex : Option Int :=
  ((cfg.engine.playbook inc.playbook).bind quiesceStepIndex).bind fun i =>
    if inc.stepIndex ≤ i then none else some i

/-- The transition `resolveIncidentsOnVanishedNodes` takes next: an orphaned execution goes through
`evaluating`, which has an edge to `resolved`. -/
def closeVanished : Move :=
  if inc.state = .executing then
    systemMove inc .evaluating (lit "node-replaced")
      (lit "node deleted while a step was orphaned mid-flight; abandoning it to close the incident")
  else
    systemMove inc .resolved (lit "node-replaced")
      (lit "node " ++ inc.target.node ++
        lit " no longer exists; the incident cannot be remediated and is closed as replaced")

def manualResolve (actor reason : Str) : Move :=
  ⟨inc, .of inc, .resolved, actor, lit "manual-resolve",
    firstNonBlank reason (lit "manually resolved"), StrMap.empty⟩

end KubeNeuron.Controller
