import KubeNeuron.Lib.Table
import KubeNeuron.Store.Tables

/-!
# The event archive and its workflow outbox

`archiveAndEnqueueEvent` inserts an event and its workflow item together. A claim is two statements,
as in the action queue. `processClaimedEvent` checks the lease before the callback and again by the
completion after it, and any failure rolls all of it back.
-/

namespace KubeNeuron.Store

open Lib KubeNeuron.Types

/-- The number of leases one workflow item may be issued. -/
def maxEventAttempts : Nat := 8

/-! ## Archiving -/

def archivedRow (id : Nat) (ev : AgentEvent) : EventRow :=
  { id
    eventID := ev.eventID
    node := ev.node
    gpuIndex := ev.gpuIndex
    gpuUUID := ev.gpuUUID
    xid := ev.xid
    raw := ev.raw
    timestamp := ev.timestamp
    faultJSON := faultText ev.fault
    pciAddr := ev.pciAddr }

/-- A workflow item as it is inserted. -/
def outboxRow (id eventRowID now : Nat) : OutboxRow :=
  { id
    eventRowID
    state := .pending
    attempts := 0
    leaseOwner := []
    leaseToken := []
    leaseExpiresAtNs := 0
    createdAt := now
    updatedAt := now
    completedAt := none }

/-- `ArchiveAndEnqueueEvent`, with whether the event was new. Only a nonempty event ID can conflict.
Row numbers start at one. -/
def archiveAndEnqueueEvent (ev : AgentEvent) (now : Nat) (db : Database) : Database × Bool :=
  if ev.eventID ≠ [] ∧ db.events.any fun e => e.eventID = ev.eventID then (db, false)
  else
    ({ db with
        events := db.events ++ [archivedRow (db.eventSeq + 1) ev]
        eventSeq := db.eventSeq + 1
        outbox := db.outbox ++ [outboxRow (db.outboxSeq + 1) (db.eventSeq + 1) now]
        outboxSeq := db.outboxSeq + 1 },
      true)

def EventRow.event (e : EventRow) : Option AgentEvent := do
  let fault ← readFault e.faultJSON
  some
    { eventID := e.eventID
      node := e.node
      gpuIndex := e.gpuIndex
      gpuUUID := e.gpuUUID
      pciAddr := e.pciAddr
      xid := e.xid
      fault
      raw := e.raw
      timestamp := e.timestamp }

/-! ## Claiming -/

/-- What a claim of a workflow item captured before its first statement. -/
structure EventClaim where
  workerID : Str
  leaseDuration : Int
  token : Str
  now : Nat
  deriving DecidableEq

/-- The item is not being processed: pending, or leased with an expired lease. -/
def OutboxRow.claimable (now : Nat) (o : OutboxRow) : Bool :=
  o.state = .pending || (o.state = .leased && o.leaseExpiresAtNs ≤ now)

/-- The items a claim dead-letters. -/
def EventClaim.exhausts (c : EventClaim) (o : OutboxRow) : Bool :=
  maxEventAttempts ≤ o.attempts && o.claimable c.now

/-- An item given up. -/
def OutboxRow.bury (updatedAt : Int) (o : OutboxRow) : OutboxRow :=
  { o with state := .dead, leaseOwner := [], leaseToken := [], leaseExpiresAtNs := 0, updatedAt }

/-- The first statement of a claim. -/
def deadLetterEvents (c : EventClaim) (db : Database) : Database :=
  { db with outbox := updateWhere c.exhausts (OutboxRow.bury c.now) db.outbox }

/-- The oldest item that is claimable and has attempts left. -/
def nextEvent (c : EventClaim) (db : Database) : Option OutboxRow :=
  firstBy
    (fun a b =>
      ts a.createdAt < ts b.createdAt || (ts a.createdAt = ts b.createdAt && a.id < b.id))
    (db.outbox.filter fun o => o.attempts < maxEventAttempts && o.claimable c.now)

/-- An item under a new lease. -/
def EventClaim.lease (c : EventClaim) (o : OutboxRow) : OutboxRow :=
  { o with
    state := .leased
    attempts := o.attempts + 1
    leaseOwner := c.workerID
    leaseToken := c.token
    leaseExpiresAtNs := c.now + c.leaseDuration
    updatedAt := c.now }

/-- The outer condition of the claim on the item it chose. -/
def EventClaim.takes (c : EventClaim) (id : Nat) (o : OutboxRow) : Bool :=
  o.id = id && o.claimable c.now

/-- The second statement of a claim, with the number of the item it leased. -/
def leaseEvent (c : EventClaim) (db : Database) : Database × Option Nat :=
  match nextEvent c db with
  | none => (db, none)
  | some o =>
    ({ db with outbox := updateWhere (c.takes o.id) c.lease db.outbox },
      ((db.outbox.filter (c.takes o.id)).head?).map (·.id))

/-! ## Processing -/

/-- The item is under the presented lease, and the lease has not expired. -/
def currentLease (outboxID : Nat) (leaseToken : Str) (now : Nat) (o : OutboxRow) : Bool :=
  o.id = outboxID && o.state = .leased && o.leaseToken = leaseToken && o.leaseExpiresAtNs > now

/-- An item whose work is committed. -/
def OutboxRow.complete (now : Nat) (o : OutboxRow) : OutboxRow :=
  { o with
    state := .done
    leaseOwner := []
    leaseToken := []
    leaseExpiresAtNs := 0
    completedAt := some now
    updatedAt := now }

/-- How the processing of an item fails. -/
inductive ProcessError (ε : Type) where
  | notFound
  | eventLeaseLost
  | callback (e : ε)

variable {ε α : Type}

/-- The error of a lease check that found no row. -/
def leaseError (outboxID : Nat) (db : Database) : ProcessError ε :=
  if db.outbox.any fun o => o.id = outboxID then .eventLeaseLost else .notFound

def requireCurrentEventLease (outboxID : Nat) (leaseToken : Str) (now : Nat) (db : Database) :
    Except (ProcessError ε) Unit :=
  if outboxID = 0 ∨ leaseToken = [] then .error .eventLeaseLost
  else if db.outbox.any (currentLease outboxID leaseToken now) then .ok ()
  else .error (leaseError outboxID db)

def completeClaimedEvent (outboxID : Nat) (leaseToken : Str) (now : Nat) (db : Database) :
    Except (ProcessError ε) Database :=
  if outboxID = 0 ∨ leaseToken = [] then .error .eventLeaseLost
  else if db.outbox.any (currentLease outboxID leaseToken now) then
    .ok { db with
      outbox := updateWhere (currentLease outboxID leaseToken now) (OutboxRow.complete now)
        db.outbox }
  else .error (leaseError outboxID db)

/-- `ProcessClaimedEvent`: what the transaction commits, or the error it rolls back with. The two
lease checks read the clock separately. -/
def processClaimedEvent (outboxID : Nat) (leaseToken : Str) (requiredAt completedAt : Nat)
    (fn : Database → Except ε (Database × α)) (db : Database) :
    Except (ProcessError ε) (Database × α) := do
  requireCurrentEventLease outboxID leaseToken requiredAt db
  match fn db with
  | .error e => .error (.callback e)
  | .ok (db', a) =>
    let db'' ← completeClaimedEvent outboxID leaseToken completedAt db'
    .ok (db'', a)

/-! ## What a committed transaction is -/

/-- **A committed transaction** is the callback followed by the completion of the item. -/
theorem processClaimedEvent_spec {outboxID : Nat} {leaseToken : Str}
    {requiredAt completedAt : Nat} {fn : Database → Except ε (Database × α)} {db db'' : Database}
    {a : α}
    (h : processClaimedEvent outboxID leaseToken requiredAt completedAt fn db = .ok (db'', a)) :
    ∃ db', fn db = .ok (db', a) ∧
      db'.outbox.any (currentLease outboxID leaseToken completedAt) = true ∧
      db'' = { db' with
        outbox := updateWhere (currentLease outboxID leaseToken completedAt)
          (OutboxRow.complete completedAt) db'.outbox } := by
  cases hq : requireCurrentEventLease (ε := ε) outboxID leaseToken requiredAt db with
  | error => simp [processClaimedEvent, hq, bind, Except.bind] at h
  | ok =>
    cases hfn : fn db with
    | error => simp [processClaimedEvent, hq, hfn, bind, Except.bind] at h
    | ok r =>
      obtain ⟨db', _⟩ := r
      cases hcomp : completeClaimedEvent (ε := ε) outboxID leaseToken completedAt db' with
      | error =>
        simp [processClaimedEvent, hq, hfn, hcomp, bind, Except.bind] at h
      | ok =>
        simp only [processClaimedEvent, hq, hfn, hcomp] at h
        obtain ⟨rfl, rfl⟩ := h
        rw [completeClaimedEvent] at hcomp
        split_ifs at hcomp with _ ha
        cases hcomp
        exact ⟨db', rfl, ha, rfl⟩

end KubeNeuron.Store
