import KubeNeuron.Types.Event

/-!
# The tables of the store

The rows of the tables the modelled statements read and write. Times are instants and integers are
unbounded.

A row of the action queue carries one column the schema does not have: `serial`, the number of the
insertion that made it. An action ID can be inserted again after its row was deleted, and the serial
tells the two rows apart.
-/

namespace KubeNeuron.Store

open Lib KubeNeuron.Types

/-- The states of a queued action. -/
inductive ActionState where
  | pending
  | leased
  | done
  | dead
  | cancelled
  deriving DecidableEq

/-- The three states from which an action makes no further progress. -/
def ActionState.terminal : ActionState → Bool
  | .done | .dead | .cancelled => true
  | _ => false

structure ActionRow where
  serial : Nat
  id : Str
  node : Str
  incidentID : Str
  type : Str
  params : Str
  timeoutNs : Int
  state : ActionState
  result : Str
  createdAt : Int
  updatedAt : Int
  leaseToken : Str
  leaseExpiresAtNs : Int
  attempts : Nat
  executorBootID : Str
  deriving DecidableEq

structure EventRow where
  id : Nat
  eventID : Str
  node : Str
  gpuIndex : Int
  gpuUUID : Str
  xid : Int
  raw : Str
  timestamp : Int
  faultJSON : Str
  pciAddr : Str
  deriving DecidableEq

/-- The states of a workflow item. -/
inductive OutboxState where
  | pending
  | leased
  | done
  | dead
  deriving DecidableEq

structure OutboxRow where
  id : Nat
  eventRowID : Nat
  state : OutboxState
  attempts : Nat
  leaseOwner : Str
  leaseToken : Str
  leaseExpiresAtNs : Int
  createdAt : Int
  updatedAt : Int
  completedAt : Option Int

/-- The modelled tables, and how many rows were ever inserted into those that number their rows. -/
structure Database where
  incidents : List Incident
  actions : List ActionRow
  inserted : Nat
  events : List EventRow
  eventSeq : Nat
  outbox : List OutboxRow
  outboxSeq : Nat

/-- The store before anything was written. -/
def Database.empty : Database := ⟨[], [], 0, [], 0, [], 0⟩

/-- How a store call ends. A call that fails may have taken effect. -/
inductive StoreFault where
  | none
  | failed (landed : Bool)
  deriving DecidableEq

end KubeNeuron.Store
