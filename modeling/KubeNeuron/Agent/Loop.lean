import KubeNeuron.Agent.JournalBacking

/-!
# The action loop of an agent

`Process` is one agent process: down, opening its journal, or at one of the points of the loop
(`Control`). A point stands between two effects, so that a crash can fall between any two, and
inside every append. `AgentWorld` adds the actions whose executor was invoked since the journal last
did not hold them.
-/

namespace KubeNeuron.Agent

open Lib KubeNeuron.Types

/-- An action with the lease it was delivered under. -/
structure ClaimedAction where
  action : Action
  leaseToken : Str
  leaseExpiresAt : GoTime

/-- The answer to a poll: the action the controller printed as JSON, the lease token header, and
what the lease expiry header parses to. -/
structure PollResponse where
  action : Action
  leaseToken : Str
  leaseExpiresAt : Option GoTime

/-- Take an action from the answer to a poll. The action is read from its JSON text. -/
def fetchAction (response : PollResponse) (now : GoTime) : Option ClaimedAction :=
  match response.leaseExpiresAt with
  | none => none
  | some leaseExpiresAt =>
    if response.leaseToken ≠ [] ∧ now.before leaseExpiresAt ∧ response.action.readBack.id ≠ [] then
      some ⟨response.action.readBack, response.leaseToken, leaseExpiresAt⟩
    else none

/-- The entry's lease still authorizes work. -/
def claimStillValid (e : Entry) (now : GoTime) : Bool :=
  e.leaseToken != [] && !e.leaseExpiresAt.isZero && now.before e.leaseExpiresAt

/-- The result reported for an action whose outcome is unknown. -/
def unknownActionResult (e : Entry) (now : GoTime) : ActionResult :=
  let timestamp := if e.updatedAt.isZero then now.utc else e.updatedAt
  { actionID := e.action.id
    ok := false
    output := []
    error := lit "action outcome is unknown after an interrupted agent; automatic retry refused"
    refusal := []
    startedAt := timestamp
    finishedAt := timestamp }

/-! ## The points of the loop -/

/-- Where the loop stands. `rest` lists the entries a recovery pass has still to visit; it is empty
when the action came from a poll. -/
inductive Control where
  | idle
  | recovering (rest : List Entry)
  | fetched (claimed : ClaimedAction)
  | recorded (claimed : ClaimedAction)
  | starting (claimed : ClaimedAction) (rest : List Entry)
  | executing (claimed : ClaimedAction) (rest : List Entry)
  | executed (claimed : ClaimedAction) (result : ActionResult) (rest : List Entry)
  | uncertain (claimed : ClaimedAction) (rest : List Entry)
  | reporting (entry : Entry) (result : ActionResult) (rest : List Entry)
  | acknowledged (actionID : Str) (rest : List Entry)

namespace Control

/-- One action is finished: a recovery pass goes on after a success and stops after a failure. -/
def proceed (rest : List Entry) (ok : Bool) : Control := if ok then .recovering rest else .idle

/-- Report an outcome, unless the lease changed under the action. -/
def report (claimed : ClaimedAction) (entry : Entry) (result : ActionResult) (rest : List Entry) :
    Control :=
  if entry.leaseToken = claimed.leaseToken ∧ entry.leaseExpiresAt.equal claimed.leaseExpiresAt then
    .reporting entry result rest
  else proceed rest false

/-- Resume a journaled action according to its state. -/
def process (now : GoTime) (entry : Entry) (rest : List Entry) : Control :=
  let claimed : ClaimedAction := ⟨entry.action, entry.leaseToken, entry.leaseExpiresAt⟩
  if !claimStillValid entry now then proceed rest false
  else
    match entry.state, entry.result with
    | .received, _ => .starting claimed rest
    | .outcomeKnown, none => proceed rest false
    | .outcomeKnown, some result => report claimed entry result rest
    | .outcomeUnknown, _ => report claimed entry (unknownActionResult entry now) rest
    | .running, _ => .uncertain claimed rest
    | .reported, _ => proceed rest true
    | .other _, _ => proceed rest false

/-- The journal operation the loop is about to call. -/
def operation : Control → Option JournalOp
  | .fetched c => some (.recordReceived c.action)
  | .recorded c => some (.setClaim c.action.id c.leaseToken c.leaseExpiresAt)
  | .starting c _ => some (.markRunning c.action.id)
  | .executed c result _ => some (.recordOutcome c.action.id result)
  | .uncertain c _ => some (.markOutcomeUnknown c.action.id)
  | .acknowledged id _ => some (.markReported id)
  | _ => none

/-- The loop after the operation returned an entry. -/
def succeed (now : GoTime) (entry : Entry) : Control → Control
  | .fetched c => .recorded c
  | .recorded _ => process now entry []
  | .starting c rest => .executing c rest
  | .executed c result rest => report c entry result rest
  | .uncertain c rest => report c entry (unknownActionResult entry now) rest
  | .acknowledged _ rest => proceed rest true
  | c => c

/-- The loop after the operation failed. An outcome that cannot be recorded is marked unknown. -/
def fail : Control → Control
  | .executed c _ rest => .uncertain c rest
  | _ => .idle

/-- The loop after the executor returned; without a result the outcome is unknown. -/
def returned (claimed : ClaimedAction) (rest : List Entry) : Option ActionResult → Control
  | none => .uncertain claimed rest
  | some result => .executed claimed result rest

end Control

/-! ## A process and its file -/

/-- The records of the complete lines of a file. -/
def lineRecords (lo : Int → Int) (file : Str) : List DiskRecord :=
  (splitAfter file).filterMap fun raw =>
    if raw.getLast? = some 0x0A then decodeRecord lo 0 raw.dropLast else none

/-- An agent process, with the local zone it runs in and the journal it has open. -/
inductive Process where
  | down (file : Str)
  | opening (lo : Int → Int) (journal : Journal) (ids : List Str)
  | up (lo : Int → Int) (journal : Journal) (control : Control)

namespace Process

/-- The journal file as it is on disk. -/
def file : Process → Str
  | .down file => file
  | .opening _ j _ => j.file
  | .up _ j _ => j.file

/-- The journal holds the action: its entry while the journal is open, a record in the file while no
process runs. -/
def holds : Process → Str → Bool
  | .down file, id => (lineRecords (fun _ => 0) file).any fun r => r.entry.action.id == id
  | .opening _ j _, id => j.holds id
  | .up _ j _, id => j.holds id

/-- A process starts and reads the journal file. -/
def start (lo : Int → Int) : Process → Option Process
  | .down file => (recoverJournal lo file).toOption.map fun j => .opening lo j j.interrupted
  | _ => none

/-- The next interrupted action is marked. -/
def mark (clock : Nat → GoTime) : Process → Option Process
  | .opening lo j (id :: ids) =>
    (j.markInterrupted lo clock id).toOption.map fun w => .opening lo w.commit ids
  | _ => none

/-- An interrupted action cannot be marked, so the process gives up. -/
def markFails (clock : Nat → GoTime) : Process → Option Process
  | .opening lo j (id :: _) =>
    match j.markInterrupted lo clock id with
    | .error r => some (.down r.journal.file)
    | .ok w => some (.down (w.torn 0).file)
  | _ => none

/-- The journal is open; the loop begins with a recovery pass. -/
def ready : Process → Option Process
  | .opening lo j [] => some (.up lo j (.recovering j.listRecoverable))
  | _ => none

/-- The ticker fires. -/
def tick : Process → Option Process
  | .up lo j .idle => some (.up lo j (.recovering j.listRecoverable))
  | _ => none

/-- The controller answers a poll. -/
def poll (response : PollResponse) (now : GoTime) : Process → Option Process
  | .up lo j .idle => (fetchAction response now).map fun c => .up lo j (.fetched c)
  | _ => none

/-- A recovery pass takes its next entry; an entry without a valid lease waits. The lease is
checked again, at a later time, before the action is resumed. -/
def visit (now later : GoTime) : Process → Option Process
  | .up lo j (.recovering []) => some (.up lo j .idle)
  | .up lo j (.recovering (e :: rest)) =>
    if claimStillValid e now then some (.up lo j (.process later e rest))
    else some (.up lo j (.recovering rest))
  | _ => none

/-- The pending journal operation succeeds. -/
def call (clock : Nat → GoTime) (now : GoTime) : Process → Option Process
  | .up lo j control =>
    control.operation.bind fun op =>
      (j.start lo clock op).toOption.bind fun p =>
        p.entry.map fun e => .up lo p.commit (control.succeed now e)
  | _ => none

/-- The pending journal operation is refused, or its append fails without writing. -/
def callFails (clock : Nat → GoTime) : Process → Option Process
  | .up lo j control =>
    control.operation.bind fun op =>
      match j.start lo clock op with
      | .error r => some (.up lo r.journal control.fail)
      | .ok (.write w) => some (.up lo (w.torn 0) control.fail)
      | .ok (.done _ _) => none
  | _ => none

/-- The executor is invoked and returns. -/
def execute (result : Option ActionResult) : Process → Option Process
  | .up lo j (.executing c rest) => some (.up lo j (.returned c rest result))
  | _ => none

/-- The result is posted; `ok` tells whether the controller acknowledged it. -/
def post (ok : Bool) : Process → Option Process
  | .up lo j (.reporting e _ rest) =>
    some (.up lo j (if ok then .acknowledged e.action.id rest else .proceed rest false))
  | _ => none

/-- The process dies in the middle of an append, after `n` bytes of its line. -/
def tear (clock : Nat → GoTime) (n : Nat) : Process → Option Process
  | .down _ => none
  | .opening lo j ids =>
    ids.head?.bind fun id =>
      (j.markInterrupted lo clock id).toOption.map fun w => .down (w.torn n).file
  | .up lo j control =>
    control.operation.bind fun op =>
      match j.start lo clock op with
      | .ok (.write w) => some (.down (w.torn n).file)
      | _ => none

end Process

/-- What can happen to an agent. -/
inductive AgentOp where
  | start (lo : Int → Int)
  | mark (clock : Nat → GoTime)
  | markFails (clock : Nat → GoTime)
  | ready
  | tick
  | poll (response : PollResponse) (now : GoTime)
  | visit (now later : GoTime)
  | call (clock : Nat → GoTime) (now : GoTime)
  | callFails (clock : Nat → GoTime)
  | execute (result : Option ActionResult)
  | post (ok : Bool)
  | crash
  | tear (clock : Nat → GoTime) (n : Nat)

def processNext (p : Process) : AgentOp → Option Process
  | .start lo => p.start lo
  | .mark clock => p.mark clock
  | .markFails clock => p.markFails clock
  | .ready => p.ready
  | .tick => p.tick
  | .poll response now => p.poll response now
  | .visit now later => p.visit now later
  | .call clock now => p.call clock now
  | .callFails clock => p.callFails clock
  | .execute result => p.execute result
  | .post ok => p.post ok
  | .crash => some (.down p.file)
  | .tear clock n => p.tear clock n

/-- The actions a step invokes the executor for. -/
def invoked (p : Process) : AgentOp → List Str
  | .execute _ =>
    match p with
    | .up _ _ (.executing c _) => [c.action.id]
    | _ => []
  | _ => []

/-- An agent, and the invocations of its executor for actions that the journal has held ever since.
-/
structure AgentWorld where
  process : Process
  ran : List Str

/-- One step. Invocations are forgotten once the journal no longer holds their action. -/
def agentNext (w : AgentWorld) (op : AgentOp) : Option AgentWorld :=
  (processNext w.process op).map fun p => ⟨p, (invoked w.process op ++ w.ran).filter p.holds⟩

/-- An agent that never ran. -/
def AgentWorld.initial : AgentWorld := ⟨.down [], []⟩

end KubeNeuron.Agent
