import KubeNeuron.Controller.Walk
import KubeNeuron.Controller.WriterRuns

/-!
# The walk among the other writers

One controller process on a store: the reconcile walk, the goroutines of the steps it started, the
two janitors that write incidents, operators, and the humans who decide approvals, while signals
arrive, nodes are paused, the configuration is replaced, and the process restarts. Each operation of
`walkNext` is one store call, one lock or one piece of local work.
-/

namespace KubeNeuron.Controller

open Lib KubeNeuron.Types Store Playbooks

/-! ## Threads -/

/-- Where the walk is with its incident. -/
inductive Phase where
  /-- The configuration is pinned. -/
  | picked
  /-- The node of an evaluating incident was read and is not known to be paused. -/
  | cleared
  /-- The late bind of an observing incident committed. -/
  | bound
  | binding (book : Str)
  /-- An approval was read; the request of its round comes next. -/
  | comparing (step : Step) (decision : Approval)
  | starting (step : Step) (actor : Str)
  /-- From here to the launch the runtime lock is held. -/
  | locked (step : Step) (actor : Str)
  | admitted (step : Step) (actor : Str)
  | launching (step : Step)
  | cancelling (m : Move)
  | writing (m : Move)
  | parking (p : Park)

/-- The advance of one incident: the walk's copy and the configuration it pinned. `readAt` remembers
how many approval rows there were when the decision was read. -/
structure Pass where
  inc : Incident
  cfg : RuntimeConfig
  gen : Nat
  readAt : Nat
  phase : Phase

/-- The pass holds the runtime lock. -/
def Pass.locks (p : Pass) : Bool :=
  match p.phase with
  | .locked .. | .admitted .. | .launching .. => true
  | _ => false

/-- Where a step goroutine is. -/
inductive RunPhase where
  | executing
  | cancelling (m : Move)
  | writing (m : Move)

/-- A step goroutine: the copy of the incident it owns, its step, and the configuration that
admitted it. -/
structure Running where
  inc : Incident
  step : Step
  cfg : RuntimeConfig
  phase : RunPhase

/-- A human decision under way: the round it is for, its request once that was read, and whether
the incident was then found to be waiting. -/
structure Deciding where
  id : Str
  epoch : Int
  request : Option Approval
  waiting : Bool

/-- What a committed write was. -/
inductive Mark where
  | signal (id : Str)
  | entered (id : Str) (state : IncidentState)
  deriving DecidableEq

/-- One controller process and its store. `gen` counts the installed configurations; `listedAt` is
the length of `log` when the walk last listed the incidents. -/
structure WalkWorld where
  writers : WriterWorld
  gen : Nat
  live : RuntimeConfig
  todo : List Incident
  pass : Option Pass
  running : List Running
  janitor : Option (RuntimeConfig × List Incident)
  closing : List Incident
  operators : List Incident
  deciding : List Deciding
  log : List Mark
  listedAt : Nat

namespace WalkWorld

/-- A process that has just started. -/
def start (r : Records) (cfg : RuntimeConfig) : WalkWorld :=
  ⟨.start r, 0, cfg, [], none, [], none, [], [], [], [], 0⟩

def records (w : WalkWorld) : Records := w.writers.records

/-- `isInFlight`. -/
def inFlight (w : WalkWorld) (id : Str) : Bool := w.running.any fun r => r.inc.id = id

end WalkWorld

/-- The states the walk advances. -/
def active (inc : Incident) : Bool := !inc.state.halted

/-- The states the rewind janitor looks at. -/
def rewindable (inc : Incident) : Bool :=
  [.evaluating, .executing, .awaitingApproval].contains inc.state

/-- What a write left: a mark when it committed. -/
def marks (before after : WriterWorld) : WriterOp → List Mark
  | .move m _ _ =>
    if before.stamps.length < after.stamps.length then [.entered m.snap.id m.dest] else []
  | .park p _ _ =>
    if before.stamps.length < after.stamps.length then [.entered p.snap.id .awaitingApproval]
    else []
  | .ingest _ _ _ => (after.joined.take (after.joined.length - before.joined.length)).map .signal
  | _ => []

namespace WalkWorld

/-- Carry out a store operation. -/
def write (w : WalkWorld) (op : WriterOp) : WalkWorld :=
  { w with
    writers := w.writers.apply op
    log := marks w.writers (w.writers.apply op) op ++ w.log }

/-- The copy a write left, when it committed. -/
def leftBy (w : WalkWorld) (op : WriterOp) : Option Incident :=
  if w.writers.stamps.length < (w.writers.apply op).stamps.length then
    (w.writers.apply op).held.head?
  else none

/-- The walk turns to a phase, or ends its pass. -/
def turn (w : WalkWorld) (p : Option Pass) : WalkWorld := { w with pass := p }

end WalkWorld

/-- The phase a plan leads to; none when the walk holds position. -/
def Pass.follow (p : Pass) : Plan → Option Pass
  | .hold => none
  | .move m true => some { p with phase := .cancelling m }
  | .move m false => some { p with phase := .writing m }
  | .park k => some { p with phase := .parking k }
  | .start step actor => some { p with phase := .starting step actor }

/-! ## Operations -/

/-- The operations of the process and its environment. -/
inductive WalkOp where
  | list
  | pick
  | readNode (fault : Bool)
  | plan (t : Tick)
  | readDecision (t : Tick) (fault : Bool)
  | readRequest (t : Tick) (fault : Bool)
  | lock
  | admission (t : Tick)
  | cancelPending (updatedAt now : Nat)
  | commit (now : Int) (fault : Bool)
  | launch
  | stepDone (i : Nat) (outcome : Outcome)
  | stepCancel (i : Nat) (updatedAt now : Nat)
  | stepCommit (i : Nat) (now : Int) (fault : Bool)
  | install (cfg : RuntimeConfig)
  | janitorList (node : Str)
  | janitorPin
  | janitorSkip
  | janitorRewind (now : Int) (fault : Bool)
  | closerList
  | closerSkip
  | closerCommit (now : Int) (fault : Bool)
  | operatorRead (id : Str)
  | operatorResolve (i : Nat) (actor reason : Str) (now : Int) (fault : Bool)
  | decideOpen (id : Str) (expectedEpoch : Int)
  | decideRequest (i : Nat)
  | decideCheck (i : Nat)
  | decideRecord (i : Nat) (decision : ApprovalDecision) (actor channel : Str) (now : Int)
  | ingest (env : IngestEnv) (sig : Signal) (fault : Bool)
  | acknowledge (a : Ack) (now : Int) (fault : Bool)
  | pauses (paused : List Str)
  | restart (cfg : RuntimeConfig)

variable (sha : Str → Str) (w : WalkWorld)

/-- The plan of an incident whose state needs no read of its own first. -/
def planOf (p : Pass) (t : Tick) : Option (Option Pass) :=
  match p.phase, p.inc.state with
  | .picked, .open => some (p.follow (advanceOpen p.cfg t p.inc))
  | .picked, .observing =>
    match lateBinding p.cfg p.inc with
    | some book => some (some { p with phase := .binding book })
    | none => some (p.follow (advanceObserving p.cfg t p.inc))
  | .bound, .observing => some (p.follow (advanceObserving p.cfg t p.inc))
  | .cleared, .evaluating => some (p.follow (advanceEvaluating sha p.cfg t p.inc))
  | .picked, .awaitingApproval =>
    if p.inc.approvalEpoch = 0 then some (p.follow (migratePark sha p.cfg p.inc)) else none
  | .picked, .executing => some (p.follow (recoverOrphanedExecution p.inc))
  | .picked, .verifying => some (p.follow (advanceVerifying p.cfg t p.inc))
  | _, _ => none

/-- The walk writes what it has decided. A start that commits is launched next; a bind that commits
goes on with the window test; every other write ends the pass. -/
def commitPass (p : Pass) (now : Int) (fault : Bool) : Option WalkWorld :=
  match p.phase with
  | .writing m => some ((w.write (.move m now fault)).turn none)
  | .parking k => some ((w.write (.park k now fault)).turn none)
  | .binding book =>
    let op := .bind p.inc book now fault
    some ((w.write op).turn ((w.leftBy op).map fun inc => { p with inc, phase := .bound }))
  | .admitted step actor =>
    let op := .move (executingMove p.inc step actor) now fault
    some ((w.write op).turn
      ((w.leftBy op).map fun inc => { p with inc, phase := .launching step }))
  | _ => none

/-- One operation on the walk's pass. -/
def passNext (p : Pass) : WalkOp → Option WalkWorld
  | .readNode fault =>
    match p.phase, p.inc.state with
    | .picked, .evaluating =>
      if !fault && nodeIsPaused p.inc.target.node w.records then some (w.turn none)
      else some (w.turn (some { p with phase := .cleared }))
    | _, _ => none
  | .plan t => (planOf sha p t).map w.turn
  | .readDecision t fault =>
    match p.phase, p.inc.state with
    | .picked, .awaitingApproval =>
      if p.inc.approvalEpoch = 0 then none
      else if fault then some (w.turn none)
      else
        let p := { p with readAt := w.records.approvals.length }
        match advanceAwaitingApproval p.cfg t p.inc
            (latestApprovalDecision p.inc.id p.inc.approvalEpoch w.records.approvals) with
        | .plan plan => some (w.turn (p.follow plan))
        | .compare step d => some (w.turn (some { p with phase := .comparing step d }))
    | _, _ => none
  | .readRequest t fault =>
    match p.phase with
    | .comparing step d =>
      let request :=
        if fault then none
        else getApprovalRequest p.inc.id p.inc.approvalEpoch w.records.approvals
      some (w.turn (p.follow (honourApproval sha t p.inc step d request)))
    | _ => none
  | .lock =>
    match p.phase with
    | .starting step actor =>
      -- a pass that pinned a superseded configuration retries on the next tick
      if p.gen = w.gen then some (w.turn (some { p with phase := .locked step actor }))
      else some (w.turn none)
    | _ => none
  | .admission t =>
    match p.phase with
    | .locked step actor =>
      match admitStep p.cfg t p.inc step with
      | .plan plan => some (w.turn (p.follow plan))
      | .admitted => some (w.turn (some { p with phase := .admitted step actor }))
    | _ => none
  | .cancelPending updatedAt now =>
    match p.phase with
    | .cancelling m =>
      some ((w.write (.cancel p.inc.id updatedAt now)).turn
        (some { p with phase := .writing m }))
    | _ => none
  | .commit now fault => commitPass w p now fault
  | .launch =>
    match p.phase with
    | .launching step =>
      some { w with pass := none, running := ⟨p.inc, step, p.cfg, .executing⟩ :: w.running }
    | _ => none
  | _ => none

/-- One operation on a step goroutine. -/
def runningNext : WalkOp → Option WalkWorld
  | .stepDone i outcome =>
    match w.running[i]? with
    | some ⟨inc, step, cfg, .executing⟩ =>
      match afterStep cfg inc step outcome with
      | .move m true => some { w with running := w.running.set i ⟨inc, step, cfg, .cancelling m⟩ }
      | .move m false => some { w with running := w.running.set i ⟨inc, step, cfg, .writing m⟩ }
      | _ => none
    | _ => none
  | .stepCancel i updatedAt now =>
    match w.running[i]? with
    | some ⟨inc, step, cfg, .cancelling m⟩ =>
      some { w.write (.cancel inc.id updatedAt now) with
        running := w.running.set i ⟨inc, step, cfg, .writing m⟩ }
    | _ => none
  | .stepCommit i now fault =>
    match w.running[i]? with
    | some ⟨_, _, _, .writing m⟩ =>
      some { w.write (.move m now fault) with running := w.running.eraseIdx i }
    | _ => none
  | _ => none

/-- One operation of the janitors. The rewind janitor lists the incidents of a node it recovered;
the other one closes the incidents of nodes that are gone, and an incident that was executing is
closed by a second write from the copy the first one left. -/
def janitorNext : WalkOp → Option WalkWorld
  | .janitorPin => some { w with janitor := some (w.live, []) }
  | .janitorList node =>
    w.janitor.map fun j =>
      { w.write .read with
        janitor := some (j.1, w.records.db.incidents.filter fun inc =>
          inc.target.node = node && rewindable inc) }
  | .janitorSkip =>
    match w.janitor with
    | some (cfg, _ :: rest) => some { w with janitor := some (cfg, rest) }
    | _ => none
  | .janitorRewind now fault =>
    match w.janitor with
    | some (cfg, inc :: rest) =>
      match w.inFlight inc.id, rewindIndex cfg inc with
      | false, some index =>
        some { w.write (.rewind inc index now fault) with janitor := some (cfg, rest) }
      | _, _ => none
    | _ => none
  | .closerList =>
    some { w.write .read with
      closing := w.records.db.incidents.filter fun inc => !inc.state.terminal }
  | .closerSkip =>
    match w.closing with
    | _ :: rest => some { w with closing := rest }
    | _ => none
  | .closerCommit now fault =>
    match w.closing with
    | inc :: rest =>
      if w.inFlight inc.id then none
      else
        let op := .move (closeVanished inc) now fault
        if inc.state = .executing then
          some { w.write op with closing := (w.leftBy op).toList ++ rest }
        else some { w.write op with closing := rest }
    | _ => none
  | _ => none

/-- One operation of an operator: a manual resolution, or one of the store calls of
`DecideApproval`. -/
def operatorNext : WalkOp → Option WalkWorld
  | .operatorRead id =>
    (getIncident id w.records.db).map fun inc =>
      { w.write .read with operators := inc :: w.operators }
  | .operatorResolve i actor reason now fault =>
    (w.operators[i]?).map fun inc =>
      { w.write (.move (manualResolve inc actor reason) now fault) with
        operators := w.operators.eraseIdx i }
  | .decideOpen id expectedEpoch =>
    match getIncident id w.records.db with
    | some inc =>
      if inc.approvalEpoch = 0 then none
      else if expectedEpoch > 0 && expectedEpoch ≠ inc.approvalEpoch then none
      else some { w with deciding := ⟨id, inc.approvalEpoch, none, false⟩ :: w.deciding }
    | none => none
  | .decideRequest i =>
    (w.deciding[i]?).bind fun d =>
      (getApprovalRequest d.id d.epoch w.records.approvals).map fun request =>
        { w with deciding := w.deciding.set i { d with request := some request } }
  | .decideCheck i =>
    (w.deciding[i]?).bind fun d =>
      (getIncident d.id w.records.db).bind fun inc =>
        if inc.state = .awaitingApproval && d.request.isSome then
          some { w with deciding := w.deciding.set i { d with waiting := true } }
        else none
  | .decideRecord i decision actor channel now =>
    match w.deciding[i]? with
    | some ⟨id, _, some request, true⟩ =>
      if decision = .requested then none
      else
        some { w.write (.decide ⟨id, request.stepName, decision, actor, channel, now,
            request.playbookName, request.stepAction, request.stepHash, request.parkEpoch⟩) with
          deciding := w.deciding.eraseIdx i }
    | _ => none
  | _ => none

/-- One operation of the walk itself or of the environment. -/
def walkNext : WalkOp → Option WalkWorld
  | .list =>
    match w.pass, w.todo with
    | none, [] =>
      some { w.write .read with
        todo := w.records.db.incidents.filter active, listedAt := w.log.length }
    | _, _ => none
  | .pick =>
    match w.pass, w.todo with
    | none, inc :: rest =>
      if w.inFlight inc.id then some { w with todo := rest }
      else some { w with todo := rest, pass := some ⟨inc, w.live, w.gen, 0, .picked⟩ }
    | _, _ => none
  | .install cfg =>
    if w.pass.any Pass.locks then none else some { w with gen := w.gen + 1, live := cfg }
  | .ingest env sig fault => some (w.write (.ingest env sig fault))
  | .acknowledge a now fault => some (w.write (.acknowledge a now fault))
  | .pauses paused => some (w.write (.pauses paused))
  | .restart cfg =>
    some { w with
      gen := w.gen + 1, live := cfg, todo := [], pass := none, running := [], janitor := none
      closing := [], operators := [], deciding := [] }
  | .stepDone i outcome => runningNext w (.stepDone i outcome)
  | .stepCancel i updatedAt now => runningNext w (.stepCancel i updatedAt now)
  | .stepCommit i now fault => runningNext w (.stepCommit i now fault)
  | .janitorPin => janitorNext w .janitorPin
  | .janitorList node => janitorNext w (.janitorList node)
  | .janitorSkip => janitorNext w .janitorSkip
  | .janitorRewind now fault => janitorNext w (.janitorRewind now fault)
  | .closerList => janitorNext w .closerList
  | .closerSkip => janitorNext w .closerSkip
  | .closerCommit now fault => janitorNext w (.closerCommit now fault)
  | .operatorRead id => operatorNext w (.operatorRead id)
  | .operatorResolve i actor reason now fault =>
    operatorNext w (.operatorResolve i actor reason now fault)
  | .decideOpen id expectedEpoch => operatorNext w (.decideOpen id expectedEpoch)
  | .decideRequest i => operatorNext w (.decideRequest i)
  | .decideCheck i => operatorNext w (.decideCheck i)
  | .decideRecord i decision actor channel now =>
    operatorNext w (.decideRecord i decision actor channel now)
  | op => w.pass.bind fun p => passNext sha w p op

/-! ## A sample process -/

/-- A step that needs no approval. -/
def cordonStep : Step := ⟨lit "cordon", lit "platform.cordon", lit "none", 0, StrMap.empty⟩

def drainStep : Step := ⟨lit "drain", lit "platform.drain", lit "none", 0, StrMap.empty⟩

/-- A configuration whose one playbook, the one the sample incidents are bound to, has the given
steps. -/
def sampleConfig (steps : List Step) : RuntimeConfig :=
  ⟨⟨KeyMap.ofEntries [(lit "drain", ⟨lit "drain", lit "node", 0, steps, []⟩)], []⟩, some false,
    fun _ _ => (0, 100), 50, 1000⟩

/-- An advance that meets no obstacle. -/
def sampleTick (now : Int) : Tick :=
  ⟨now, false, false, false, none, fun _ => .proceed, fun _ => none, (true, []), .inScope, .allowed,
    .allowed, false, fun s => s⟩

/-- The clock and names of the ingest that opens the sample incident. -/
def openingIngest : IngestEnv :=
  ⟨fun s => s, false, fun _ => lit "drain", fun _ _ => lit "inc-1", 1, 1, 1⟩

/-- A signal opens the sample incident and the walk begins to evaluate it. -/
def openingOps : List WalkOp :=
  [.ingest openingIngest vendorSignal false, .list, .pick, .plan (sampleTick 2), .commit 2 false]

/-- The walk starts the step of an incident it evaluates. -/
def startOps (now : Int) : List WalkOp :=
  [.list, .pick, .readNode false, .plan (sampleTick now), .lock, .admission (sampleTick now),
    .commit now false, .launch]

def finishOps (now : Int) : List WalkOp := [.stepDone 0 (.ok (lit "ok")), .stepCommit 0 now false]

/-- The walk parks the sample incident, whose step only a human may start. -/
def parkOps (now : Int) : List WalkOp :=
  [.list, .pick, .readNode false, .plan (sampleTick now), .commit now false]

/-- A human approves the sample incident. -/
def approveOps (now : Int) : List WalkOp :=
  [.decideOpen (lit "inc-1") 0, .decideRequest 0, .decideCheck 0,
    .decideRecord 0 .approved (lit "alice") (lit "cli") now]

/-- The walk takes the approval up, as far as the admission of the step. -/
def resumeOps (now : Int) : List WalkOp :=
  [.list, .pick, .readDecision (sampleTick now) false, .readRequest (sampleTick now) false, .lock,
    .admission (sampleTick now)]

end KubeNeuron.Controller
