import KubeNeuron.Agent.Loop
import KubeNeuron.Store.ActionQueue

/-!
# The route of a result

A result leaves the executor, is journaled, is posted to the controller as a JSON body with its
refusal code in a header, is decoded there, stored with the action, and read by the step that waits
for it. Each section below is one of these stations. The refusal code is carried by the header and
by the store's own JSON shape, and by neither the body nor the journal.
-/

namespace KubeNeuron.Delivery

open Lib KubeNeuron.Types Store Agent

/-! ## The executor -/

/-- The refusal code of an idle guard that found the device busy. -/
def refusalNotIdle : Str := lit "not_idle"

/-- An error of the executor: its text, and whether it wraps the not-idle error. -/
structure ExecutorError where
  text : Str
  notIdle : Bool

/-- The result the executor builds from what its dispatch did. -/
def executorResult (actionID output : Str) (err : Option ExecutorError)
    (startedAt finishedAt : GoTime) : ActionResult :=
  { actionID
    ok := err.isNone
    output
    error := (err.map ExecutorError.text).getD []
    refusal := if err.any ExecutorError.notIdle then refusalNotIdle else []
    startedAt
    finishedAt }

/-- The executor can return the result. -/
def FromExecutor (r : ActionResult) : Prop :=
  ∃ actionID output err startedAt finishedAt,
    r = executorResult actionID output err startedAt finishedAt

/-! ## The agent's post -/

/-- The result the agent reports for a journaled action: the recorded one, or that of an unknown
outcome. -/
def reportedResult (now : GoTime) (e : Entry) : Option ActionResult :=
  match e.state with
  | .outcomeKnown => e.result
  | .outcomeUnknown => some (unknownActionResult e now)
  | _ => none

/-- The request that posts a result: the action ID in its path, its body, and its headers. -/
structure ResultRequest where
  pathID : Str
  body : Str
  leaseToken : Str
  bootID : Str
  refusal : Str

/-- Post a result. Without a lease token, or when a time has no JSON form, nothing is sent. -/
def postActionResult (lo : Int → Int) (pathID leaseToken bootID : Str)
    (result : ActionResult) : Option ResultRequest :=
  if leaseToken = [] then none
  else
    (result.toJson lo).map fun body =>
      { pathID, body := body.print, leaseToken, bootID, refusal := result.refusal }

/-! ## The controller's handler -/

def maxAgentEventBytes : Nat := 1024 * 1024

/-- The fields a result body may have. -/
def resultFields : List Str :=
  [lit "action_id", lit "ok", lit "output", lit "error", lit "started_at", lit "finished_at"]

/-- Decode a body that may hold no other field than those of a result. -/
def decodeActionResult (lo : Int → Int) (body : Str) : Option ActionResult :=
  match Json.parseJson body with
  | none => none
  | some (.obj ms) =>
    if ms.all fun m => m.1 ∈ resultFields then ActionResult.ofMembers lo 0 ms else none
  | some j => ActionResult.ofJson lo 0 j

inductive ResultStatus where
  | badRequest
  | requestEntityTooLarge
  | forbidden
  | serviceUnavailable

/-- The refusal code the handler takes from the header: only the one it knows. -/
def acceptedRefusal (header : Str) : Str :=
  if header = refusalNotIdle then header else []

/-- Handle a posted result up to the completion it asks the store for. `node` is the authenticated
node. -/
def handleActionResult (lo : Int → Int) (node : Str) (now : Nat) (req : ResultRequest)
    (db : Database) : Except ResultStatus CompleteCall :=
  if maxAgentEventBytes < req.body.length then .error .requestEntityTooLarge
  else
    match decodeActionResult lo req.body with
    | none => .error .badRequest
    | some res =>
      if req.pathID = [] ∨ res.actionID ≠ req.pathID then .error .badRequest
      else if req.leaseToken = [] then .error .badRequest
      else
        -- the controller reads the row first: another node's action is refused
        match db.actions.find? fun r => r.id = req.pathID with
        | none => .error .forbidden
        | some row =>
          match scanAction lo row with
          | none => .error .serviceUnavailable
          | some queued =>
            if queued.node ≠ node then .error .forbidden
            else
              .ok ⟨req.pathID, req.leaseToken, req.bootID,
                { res with refusal := acceptedRefusal req.refusal }, now, lo⟩

/-! ## The step that waits -/

/-- What the waiting step sees when it looks at its action. -/
inductive WaitOutcome where
  | waiting
  | failed
  | returned (result : ActionResult)

/-- One look of the waiting step. A result is returned also when it is not OK. -/
def pollAction (lo : Int → Int) (actionID : Str) (db : Database) : WaitOutcome :=
  match (db.actions.find? fun r => r.id = actionID).bind (scanAction lo) with
  | none => .failed
  | some queued =>
    if queued.cancelled ∨ queued.dead then .failed
    else if queued.done then
      match queued.result with
      | none => .failed
      | some result => .returned result
    else .waiting

end KubeNeuron.Delivery
