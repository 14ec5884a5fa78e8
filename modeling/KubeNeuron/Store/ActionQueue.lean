import KubeNeuron.Lib.Table
import KubeNeuron.Store.Tables

/-!
# The durable action queue

The `actions` table and every statement of the store that writes it, one definition a statement. A
statement is given the time its call captured before it was sent, which is not the time at which it
runs.
-/

namespace KubeNeuron.Store

open Lib KubeNeuron.Types

/-- The number of leases one action may be issued. -/
def maxActionAttempts : Nat := 8

/-! ## Stored results -/

/-- A result as the `result` column holds it: its JSON form and the refusal code. -/
def storedActionResult (lo : Int → Int) (r : ActionResult) : Option Json := do
  let startedAt ← marshalTime lo r.startedAt
  let finishedAt ← marshalTime lo r.finishedAt
  some (.obj (Json.members
    (r.slots startedAt finishedAt ++ [(lit "refusal", Json.omitEmpty r.refusal)])))

/-- The text of the `result` column. -/
def marshalActionResult (lo : Int → Int) (r : ActionResult) : Option Str :=
  (storedActionResult lo r).map Json.print

/-- Read a stored result. -/
def unmarshalActionResult (lo : Int → Int) (address : Nat) (blob : Str) :
    Option ActionResult := do
  match ← Json.parseJson blob with
  | .null => some ActionResult.zero
  | .obj ms =>
    let r ← ActionResult.ofMembers lo address ms
    let refusal ← Json.stringField (Json.get ms (lit "refusal"))
    some { r with refusal }
  | _ => none

/-! ## Enqueueing -/

/-- The text of the `params` column. -/
def paramsText (m : StrMap) : Str :=
  if m.entries = [] then lit "null" else (Json.obj m.toMembers).print

def insertedRow (serial : Nat) (node : Str) (a : Action) (now : Nat) : ActionRow :=
  { serial
    id := a.id
    node
    incidentID := a.incidentID
    type := a.type
    params := paramsText a.params
    timeoutNs := a.timeout.toInt
    state := .pending
    result := []
    createdAt := now
    updatedAt := now
    leaseToken := []
    leaseExpiresAtNs := 0
    attempts := 0
    executorBootID := [] }

/-- `INSERT INTO actions … ON CONFLICT(id) DO NOTHING`. -/
def enqueueAction (node : Str) (a : Action) (now : Nat) (db : Database) : Database :=
  if db.actions.any fun r => r.id = a.id then db
  else
    { db with
      actions := db.actions ++ [insertedRow db.inserted node a now]
      inserted := db.inserted + 1 }

/-! ## Claiming -/

/-- What a claim captured before its first statement. An empty `onlyType` is no filter. -/
structure ClaimCall where
  node : Str
  bootID : Str
  leaseDuration : Int
  onlyType : Str
  token : Str
  now : Nat
  deriving DecidableEq

/-- The row is not executing: pending, or leased with an expired lease. -/
def claimable (now : Nat) (r : ActionRow) : Bool :=
  r.state = .pending || (r.state = .leased && r.leaseExpiresAtNs ≤ now)

/-- The row holds its node: leased, and the lease has not expired. -/
def held (now : Nat) (r : ActionRow) : Bool := r.state = .leased && r.leaseExpiresAtNs > now

variable (c : ClaimCall)

/-- The rows a claim looks at: those of its node, and of its type when it has one. -/
def ClaimCall.selects (r : ActionRow) : Bool :=
  r.node = c.node && (c.onlyType = [] || r.type = c.onlyType)

/-- Tombstone a row: its lease is cleared. -/
def ActionRow.tombstone (state : ActionState) (updatedAt : Int) (r : ActionRow) : ActionRow :=
  { r with state, leaseToken := [], leaseExpiresAtNs := 0, updatedAt }

/-- The rows a claim dead-letters: not executing, with their attempts used up. -/
def ClaimCall.exhausts (r : ActionRow) : Bool :=
  c.selects r && maxActionAttempts ≤ r.attempts && claimable c.now r

/-- The first statement of a claim: dead-letter the rows whose attempts are used up. -/
def deadLetterExhausted (db : Database) : Database :=
  { db with actions := updateWhere c.exhausts (ActionRow.tombstone .dead c.now) db.actions }

/-- The order in which rows are handed out: by creation text, then by ID. -/
def rowBefore (r s : ActionRow) : Bool :=
  ts r.createdAt < ts s.createdAt || (ts r.createdAt = ts s.createdAt && r.id < s.id)

/-- The incident of the row has ended automation. -/
def incidentHalted (incidents : List Incident) (r : ActionRow) : Bool :=
  incidents.any fun inc => inc.id = r.incidentID && inc.state.halted

/-- The rows a claim may lease: claimable, with attempts left, of a node no row of which is held,
and of no halted incident. -/
def eligible (db : Database) (r : ActionRow) : Bool :=
  c.selects r && claimable c.now r && r.attempts < maxActionAttempts &&
    !(db.actions.any fun h => h.node = r.node && held c.now h) &&
    !incidentHalted db.incidents r

/-- The oldest eligible row. -/
def candidate (db : Database) : Option ActionRow :=
  firstBy rowBefore (db.actions.filter (eligible c db))

/-- The row under a new lease. It outlives the longer of the action's own deadline and the asked
duration by the reporting grace. -/
def ClaimCall.lease (r : ActionRow) : ActionRow :=
  { r with
    state := .leased
    leaseToken := c.token
    leaseExpiresAtNs := c.now +
      (if r.timeoutNs > c.leaseDuration then r.timeoutNs else c.leaseDuration) + agentResultGrace
    attempts := r.attempts + 1
    executorBootID := c.bootID
    updatedAt := c.now }

/-- The outer condition of the claim on the row it chose. -/
def ClaimCall.takes (id : Str) (r : ActionRow) : Bool :=
  r.id = id && claimable c.now r

/-- The second statement of a claim: lease the oldest eligible row and return it. -/
def leaseCandidate (db : Database) : Database × Option ActionRow :=
  match candidate c db with
  | none => (db, none)
  | some r =>
    ({ db with actions := updateWhere (c.takes r.id) c.lease db.actions },
      ((db.actions.filter (c.takes r.id)).head?).map c.lease)

/-! ## Completing -/

/-- What a completion captured before its statement. -/
structure CompleteCall where
  actionID : Str
  leaseToken : Str
  bootID : Str
  res : ActionResult
  now : Nat
  localOffset : Int → Int

/-- The completion may write the row: the row is leased under its token, the lease has not expired,
and the boot is the one that claimed the row, if one was recorded. -/
def CompleteCall.accepts (c : CompleteCall) (r : ActionRow) : Bool :=
  r.id = c.actionID && r.state = .leased && r.leaseToken = c.leaseToken &&
    r.leaseExpiresAtNs > c.now && (r.executorBootID = [] || r.executorBootID = c.bootID)

/-- A row with its result written. -/
def ActionRow.finish (blob : Str) (updatedAt : Int) (r : ActionRow) : ActionRow :=
  { r with state := .done, result := blob, leaseToken := [], leaseExpiresAtNs := 0, updatedAt }

def CompleteCall.update (c : CompleteCall) (blob : Str) (db : Database) : Database :=
  { db with actions := updateWhere c.accepts (ActionRow.finish blob c.now) db.actions }

/-- The row with the given ID, as long as it was never leased. -/
def pendingWithID (actionID : Str) (r : ActionRow) : Bool :=
  r.id = actionID && r.state = .pending

/-- The update of `CompleteAction`, which writes only a row that was never leased. -/
def completeAction (actionID blob : Str) (now : Nat) (db : Database) : Database :=
  { db with
    actions := updateWhere (pendingWithID actionID) (ActionRow.finish blob now) db.actions }

/-! ## Reading rows -/

/-- A queued action as callers see it. -/
structure QueuedAction where
  node : Str
  incidentID : Str
  action : Action
  done : Bool
  result : Option ActionResult
  leaseToken : Str
  leaseExpiresAt : GoTime
  attempts : Nat
  executorBootID : Str
  cancelled : Bool
  dead : Bool

def scanResult (lo : Int → Int) (r : ActionRow) : Option (Option ActionResult) :=
  if r.state = .done ∧ r.result ≠ [] then (unmarshalActionResult lo 0 r.result).map some
  else some none

/-- Read a row; a text that does not decode is reported as corrupt. The token is shown only while
the row is leased. -/
def scanAction (lo : Int → Int) (r : ActionRow) : Option QueuedAction := do
  let params ← StrMap.field (some (← Json.parseJson r.params))
  let result ← scanResult lo r
  let shown : Bool := r.state = .leased ∧ r.leaseExpiresAtNs > 0
  some
    { node := r.node
      incidentID := r.incidentID
      action := ⟨r.id, [], r.type, params, Int64.ofInt r.timeoutNs⟩
      done := r.state = .done
      result
      leaseToken := if shown then r.leaseToken else []
      leaseExpiresAt := if shown then ⟨r.leaseExpiresAtNs, .utc, none⟩ else GoTime.zero
      attempts := r.attempts
      executorBootID := r.executorBootID
      cancelled := r.state = .cancelled
      dead := r.state = .dead }

/-- How a completion ends. The last two are failures of the codec. -/
inductive CompleteOutcome where
  | ok
  | notFound
  | bootMismatch
  | leaseLost
  | unprintable
  | corrupt
  deriving DecidableEq

/-- The error of a completion that wrote nothing, from a second read of the row. -/
def CompleteCall.classify (c : CompleteCall) (db : Database) : CompleteOutcome :=
  match db.actions.find? fun r => r.id = c.actionID with
  | none => .notFound
  | some r =>
    match scanAction c.localOffset r with
    | none => .corrupt
    | some current =>
      if current.leaseToken = c.leaseToken ∧ current.leaseExpiresAt.ns > c.now ∧
          current.executorBootID ≠ [] ∧ current.executorBootID ≠ c.bootID then .bootMismatch
      else .leaseLost

/-- `CompleteClaimedAction`. The update runs on one state of the store and, when it wrote nothing,
the second read on a later one. -/
def completeClaimedAction (c : CompleteCall) (atUpdate atRead : Database) :
    Database × CompleteOutcome :=
  if c.leaseToken = [] then (atUpdate, .leaseLost)
  else
    match marshalActionResult c.localOffset c.res with
    | none => (atUpdate, .unprintable)
    | some blob =>
      (c.update blob atUpdate, if atUpdate.actions.any c.accepts then .ok else c.classify atRead)

/-! ## Cancelling, discarding and pruning -/

/-- `CancelPendingAction`: one row that was never leased. -/
def cancelPendingAction (actionID : Str) (now : Nat) (db : Database) : Database :=
  { db with
    actions := updateWhere (pendingWithID actionID) (ActionRow.tombstone .cancelled now)
      db.actions }

def idleOfIncident (incidentID : Str) (now : Nat) (r : ActionRow) : Bool :=
  r.incidentID = incidentID && claimable now r

/-- `CancelPendingActionsForIncident`. The time written and the time compared are two readings of
the clock. -/
def cancelPendingActionsForIncident (incidentID : Str) (updatedAt now : Nat) (db : Database) :
    Database :=
  { db with
    actions := updateWhere (idleOfIncident incidentID now)
      (ActionRow.tombstone .cancelled updatedAt) db.actions }

/-- The rows that are not executing, host restores excepted. -/
def idleNotRestore (now : Nat) (r : ActionRow) : Bool :=
  r.type ≠ actionRestoreAcceleratorHost && claimable now r

def cancelPendingActionsForSafetyStop (now : Nat) (db : Database) : Database :=
  { db with
    actions := updateWhere (idleNotRestore now) (ActionRow.tombstone .cancelled now) db.actions }

/-- `DiscardCompletedAction`: delete a terminal row. -/
def discardCompletedAction (actionID : Str) (db : Database) : Database :=
  { db with actions := deleteWhere (fun r => r.id = actionID && r.state.terminal) db.actions }

/-- The first transaction of `Prune`, on the action queue: delete old terminal rows. -/
def pruneData (now : Nat) (retention : Int) (db : Database) : Database :=
  { db with
    actions := deleteWhere (fun r => r.state.terminal && ts r.updatedAt < ts (now - retention))
      db.actions }

/-- An incident old enough to be pruned. -/
def terminalOld (now : Nat) (retention : Int) (inc : Incident) : Bool :=
  inc.state.terminal && ts inc.updatedAt < ts (now - retention)

/-- The second transaction of `Prune`: delete old terminal incidents with all their actions. -/
def pruneAudit (now : Nat) (retention : Int) (db : Database) : Database :=
  { db with
    actions := deleteWhere
      (fun r => db.incidents.any fun inc => terminalOld now retention inc && inc.id = r.incidentID)
      db.actions
    incidents := deleteWhere (terminalOld now retention) db.incidents }

/-! ## Every written row can be read -/

/-- **A stored result reads back with its refusal code.** -/
theorem unmarshalActionResult_marshal {lo lo' : Int → Int} {r : ActionResult} {blob : Str}
    (h : marshalActionResult lo r = some blob) (address : Nat) :
    unmarshalActionResult lo' address blob =
      some { r.readBack lo lo' address with refusal := toValid r.refusal } := by
  simp only [marshalActionResult, storedActionResult, Option.bind_eq_bind, Option.map_eq_some_iff,
    Option.bind_eq_some_iff] at h
  obtain ⟨_, ⟨s, hs, f, hf, hj⟩, rfl⟩ := h
  cases hj
  have hk : Json.RecordKeys
      ((r.slots s f ++ [(lit "refusal", Json.omitEmpty r.refusal)]).map Prod.fst) := by
    simp only [ActionResult.slots, List.map_cons, List.cons_append, List.nil_append]
    decide
  have hnums : Json.IntNums (.obj (Json.members
      (r.slots s f ++ [(lit "refusal", Json.omitEmpty r.refusal)]))) := by
    refine Json.intNumsMembers_members _ (List.forall_mem_append.2 ⟨?_, ?_⟩)
    · exact ActionResult.intNums_slots r s f
    · simpa using Json.intNums_omitEmpty r.refusal
  have hrefusal : Json.get (Json.readBackMembers (Json.members
      (r.slots s f ++ [(lit "refusal", Json.omitEmpty r.refusal)]))) (lit "refusal") =
        (Json.omitEmpty r.refusal).map Json.readBack :=
    Json.get_readBackMembers hk (by simp)
  simp only [unmarshalActionResult, Json.parseJson_print _ hnums, Json.readBack,
    Option.bind_eq_bind, Option.bind_some, ActionResult.ofMembers_slots hs hf lo' _ hk, hrefusal,
    Json.stringField_omitEmpty]

theorem field_paramsText (m : StrMap) :
    (Json.parseJson (paramsText m)).bind (fun j => StrMap.field (some j)) = some m.readBack := by
  by_cases hm : m.entries = []
  · have : m = StrMap.empty := KeyMap.ext hm
    subst this
    rfl
  have homit : m.omitEmpty = some (.obj m.toMembers) := by simp [StrMap.omitEmpty, hm]
  have hr := StrMap.field_omitEmpty m
  rw [homit, Option.map_some] at hr
  rw [paramsText, if_neg hm, Json.parseJson_print _ (StrMap.intNums_omitEmpty m _ homit),
    Option.bind_some, hr]

/-- The texts of a row decode. -/
def ActionRow.Readable (r : ActionRow) : Prop :=
  (∃ m, r.params = paramsText m) ∧
    (r.result = [] ∨ ∃ lo res, marshalActionResult lo res = some r.result)

/-- **A row that the queue wrote can be read.** -/
theorem scanAction_ok {r : ActionRow} (h : r.Readable) (lo : Int → Int) :
    ∃ q, scanAction lo r = some q ∧ q.executorBootID = r.executorBootID ∧
      (q.leaseToken = if r.state = .leased ∧ r.leaseExpiresAtNs > 0 then r.leaseToken else []) ∧
      q.leaseExpiresAt.ns =
        if r.state = .leased ∧ r.leaseExpiresAtNs > 0 then r.leaseExpiresAtNs
        else GoTime.zeroNs := by
  obtain ⟨⟨m, hm⟩, hr⟩ := h
  have hp := field_paramsText m
  rw [← hm] at hp
  obtain ⟨_, hj, hfield⟩ := Option.bind_eq_some_iff.1 hp
  have hu : ∃ o, scanResult lo r = some o := by
    rw [scanResult]
    split_ifs with hd
    · rcases hr with hn | ⟨_, _, hmar⟩
      · exact absurd hn hd.2
      · exact ⟨_, by rw [unmarshalActionResult_marshal hmar 0]; rfl⟩
    · exact ⟨none, rfl⟩
  obtain ⟨_, ho⟩ := hu
  simp only [scanAction, hj, hfield, ho, Option.bind_eq_bind, Option.bind_some]
  refine ⟨_, rfl, rfl, ?_, ?_⟩
  · simp
  by_cases hshown : r.state = .leased ∧ r.leaseExpiresAtNs > 0
  · simp [hshown]
  · simp only [hshown, if_false]
    rfl

end KubeNeuron.Store
