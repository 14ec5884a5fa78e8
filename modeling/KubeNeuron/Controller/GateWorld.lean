import KubeNeuron.Controller.WalkInvariant
import KubeNeuron.Safety.Gate

/-!
# The walk and its gate

`GateWorld` puts the safety gate of the process beside `WalkWorld`: the answer of the gate in an
admission is the one `Gate` computes, and its reservations are handed back where the code does so,
each by an operation of its own (`handBack`). A process that has just started rebuilds the gate from
the incidents that hold a slot, while operators and signals are already served.
-/

namespace KubeNeuron.Controller

open Lib KubeNeuron.Types Store Playbooks Safety

/-! ## The world -/

/-- How far the rebuild of the gate has come. -/
inductive Rebuild where
  | waiting
  | seeding (rest : List Incident)
  | done
  deriving DecidableEq

/-- A reservation that is about to be handed back. -/
inductive HandBack where
  /-- `ReleaseRemediation` -/
  | slot (target : Target)
  /-- `StepDone` -/
  | step (target : Target) (action : Str)
  /-- `releaseRecoveredSlot` -/
  | recovered (id : Str)

/-- A reservation for an incident that was found executing by the rebuild. -/
structure RecoveredSlot where
  id : Str
  target : Target
  action : Str

/-- A process with its gate. `pins` are the incidents with the node whose accelerator stack each of
them has quiesced. -/
structure GateWorld where
  process : WalkWorld
  gate : Gate
  pins : List (Str × Str)
  rebuild : Rebuild
  recovered : List RecoveredSlot
  releasing : List HandBack

/-- A process that has just started. -/
def GateWorld.start (r : Records) (cfg : RuntimeConfig) (limits : Limits) : GateWorld :=
  ⟨.start r cfg, .new limits, [], .waiting, [], []⟩

/-- The operations of a process with a gate. -/
inductive GateOp where
  | walk (op : WalkOp)
  | handBack (i : Nat) (now : Int)
  | rebuildList
  | rebuildSeed
  /-- A step goroutine quiesces the accelerator stack of its node. -/
  | pin (i : Nat)
  | unpin (id : Str)
  | setPaused (paused : Bool)
  | applyLimits (limits : Limits)
  | recordCooldown (now : Int) (target : Target) (action : Str) (cooldown : Int)
  /-- A new process takes over. The pause and the cooldowns are the ones it finds stored. -/
  | restart (cfg : RuntimeConfig) (limits : Limits) (paused : Bool) (cooldownUntil : KeyMap Int)

/-! ## Transitions -/

/-- The transition an operation writes. -/
def WalkWorld.transition? (w : WalkWorld) : WalkOp → Option Move
  | .commit _ _ =>
    w.pass.bind fun p =>
      match p.phase with
      | .writing m => some m
      | .admitted step actor => some (executingMove p.inc step actor)
      | _ => none
  | .stepCommit i _ _ =>
    (w.running[i]?).bind fun r =>
      match r.phase with
      | .writing m => some m
      | _ => none
  | .closerCommit _ _ => w.closing.head?.map closeVanished
  | .operatorResolve i actor reason _ _ =>
    (w.operators[i]?).map fun inc => manualResolve inc actor reason
  | _ => none

/-- The transition halts an incident that holds a slot: the caller's copy and the row both say
so. -/
def WalkWorld.releases (w : WalkWorld) (m : Move) : Bool :=
  m.dest.halted && m.progress.slotHeld &&
    (getIncident m.snap.id w.records.db).any Incident.remediationSlotHeld

/-- What `transition` hands back after its commit. -/
def WalkWorld.afterCommit (w : WalkWorld) (m : Move) : List HandBack :=
  (if m.snap.state = .executing then [.recovered m.snap.id] else []) ++
    if w.releases m then [.slot m.snap.target] else []

/-- What `startStep` hands back when its transition did not commit. -/
def WalkWorld.afterFailedStart (w : WalkWorld) : WalkOp → List HandBack
  | .commit _ _ =>
    match w.pass with
    | some ⟨inc, _, _, _, .admitted step _⟩ =>
      .step inc.target (gateAction step) ::
        if inc.remediationSlotHeld then [] else [.slot inc.target]
    | _ => []
  | _ => []

def WalkWorld.afterStepGoroutine (w : WalkWorld) : WalkOp → List HandBack
  | .stepCommit i _ _ =>
    (w.running[i]?).toList.map fun r => .step r.inc.target (gateAction r.step)
  | _ => []

/-- What an operation that leads from `w` to `w'` has to hand back. -/
def WalkWorld.owes (w : WalkWorld) (op : WalkOp) (w' : WalkWorld) : List HandBack :=
  w.afterStepGoroutine op ++
    if w.writers.stamps.length < w'.writers.stamps.length then
      (w.transition? op).elim [] w.afterCommit
    else w.afterFailedStart op

/-! ## Operations -/

section

variable (lower : Str → Str) (w : GateWorld)

/-- The gate's answer to a step: a remediation that holds its slot asks only for the step. -/
def GateWorld.ask (p : Pass) (step : Step) (now : Int) : Except DenialKind Gate :=
  if p.inc.remediationSlotHeld then w.gate.allowHeld lower now p.inc.target (gateAction step)
  else w.gate.allow lower now p.inc.target (gateAction step)

def verdictOf : DenialKind → GateVerdict
  | .globalPause => .paused
  | .cooldown | .concurrency => .denied

/-- The gate after an admission. The verdict of the tick must be the gate's own, and the quiesce
that lets a reversal pass a pause must be one of this incident. The gate is asked last. -/
def GateWorld.admission (t : Tick) : Option Gate :=
  match w.process.pass with
  | some p =>
    match p.phase with
    | .locked step _ =>
      if t.quiesced && !w.pins.contains (p.inc.id, p.inc.target.node) then none
      else if t.confinement = .inScope && t.accelerator = .allowed then
        match w.ask lower p step t.now with
        | .ok g => if t.gate = .allowed then some g else none
        | .error kind => if t.gate = verdictOf kind then some w.gate else none
      else some w.gate
    | _ => none
  | none => none

/-- The operations that are served before the rebuild is done. -/
def WalkOp.servedEarly : WalkOp → Bool
  | .install _ | .operatorRead _ | .operatorResolve .. | .decideOpen .. | .decideRequest _
  | .decideCheck _ | .decideRecord .. | .ingest .. | .acknowledge .. | .pauses _ => true
  | _ => false

/-- An operation of the walk and its surroundings. -/
def GateWorld.walkNext (sha : Str → Str) (op : WalkOp) : Option GateWorld :=
  if w.rebuild ≠ .done && !op.servedEarly then none
  else
    (Controller.walkNext sha w.process op).bind fun process =>
      match op with
      | .restart _ => none
      | .admission t => (w.admission lower t).map fun gate => { w with process, gate }
      | op => some { w with process, releasing := w.process.owes op process ++ w.releasing }

def GateWorld.give (now : Int) : HandBack → GateWorld
  | .slot target => { w with gate := w.gate.releaseRemediation lower target }
  | .step target action => { w with gate := w.gate.stepDone lower now target action 0 }
  | .recovered id =>
    match w.recovered.find? fun s => s.id = id with
    | some s =>
      { w with
        gate := w.gate.stepDone lower now s.target s.action 0
        recovered := w.recovered.filter fun s => s.id ≠ id }
    | none => w

/-- The action class of the step an executing incident is at. -/
def recoveredAction (cfg : RuntimeConfig) (inc : Incident) : Str :=
  match cfg.engine.nextStep inc.playbook inc.stepIndex with
  | .step step => gateAction step
  | _ => []

/-- One turn of the loop of `RebuildGateOccupancy`. -/
def GateWorld.seed (inc : Incident) : GateWorld :=
  let gate := w.gate.occupyRemediation lower inc.target
  if inc.state = .executing then
    let action := recoveredAction w.process.live inc
    { w with
      gate := gate.occupyStep lower inc.target action
      recovered := ⟨inc.id, inc.target, action⟩ :: w.recovered.filter fun s => s.id ≠ inc.id }
  else { w with gate }

/-- The incidents whose slots are rebuilt. -/
def holdsSlot (inc : Incident) : Bool := active inc && inc.remediationSlotHeld

/-- One operation of a process with a gate. -/
def gateNext (sha : Str → Str) : GateOp → Option GateWorld
  | .walk op => w.walkNext lower sha op
  | .handBack i now =>
    (w.releasing[i]?).map fun h =>
      { w.give lower now h with releasing := w.releasing.eraseIdx i }
  | .rebuildList =>
    match w.rebuild with
    | .waiting =>
      some { w with rebuild := .seeding (w.process.records.db.incidents.filter holdsSlot) }
    | _ => none
  | .rebuildSeed =>
    match w.rebuild with
    | .seeding (inc :: rest) => some { w.seed lower inc with rebuild := .seeding rest }
    | .seeding [] => some { w with rebuild := .done }
    | _ => none
  | .pin i =>
    match w.process.running[i]? with
    | some ⟨inc, step, _, .executing⟩ =>
      if step.action = lit "platform." ++ opQuiesceAcceleratorStack then
        some { w with pins := (inc.id, inc.target.node) :: w.pins }
      else none
    | _ => none
  | .unpin id => some { w with pins := w.pins.filter fun pin => pin.1 ≠ id }
  | .setPaused paused => some { w with gate := { w.gate with paused } }
  | .applyLimits limits => some { w with gate := { w.gate with limits } }
  | .recordCooldown now target action cooldown =>
    some { w with gate := w.gate.recordCooldown lower now target action cooldown }
  | .restart cfg limits paused cooldownUntil =>
    (Controller.walkNext sha w.process (.restart cfg)).map fun process =>
      ⟨process, { Gate.new limits with paused, cooldownUntil }, [], .waiting, [], []⟩

end

end KubeNeuron.Controller
