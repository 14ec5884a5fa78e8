import KubeNeuron.Lib.Process
import KubeNeuron.Operations.Autonomy
import KubeNeuron.Store.OperationalAudit

/-!
# The calls of the autonomy code

What the functions of `autonomy.go` ask of the world around them, one call each. A write that is
reported as failed may have been applied or not. `Prune` deletes rows in the background. Audit rows
and captured decisions are only written, so those calls have no effect on this store.
-/

namespace KubeNeuron.Operations

open Lib KubeNeuron.Types Accelerator Decision Store

/-! ## Keys -/

/-- What a request digest is computed from: the request for a new plan, or a change of a plan with
the version the caller has seen and the arguments of the change. -/
inductive RequestDigest where
  | create (request : PlanRequest)
  | change (planID action : Str) (expectedVersion : Int) (params : List (Str × Str))
  deriving DecidableEq

/-- `OperationalIdempotencyRecord` of the kind of the plans. -/
structure KeyRecord where
  actor : Str
  key : Str
  digest : RequestDigest
  resourceID : Str

/-! ## The store -/

/-- The rows of the autonomy resources, the keys with their expiry, and the time. `issued` are the
identifiers that were ever made. -/
structure AutonomyStore where
  plans : KeyMap Plan
  rollouts : KeyMap Rollout
  effects : EffectID → Option Effect
  keys : List (KeyRecord × Int)
  issued : List Str
  clock : Int

namespace AutonomyStore

/-- The empty store at some time. -/
def empty (clock : Int) : AutonomyStore :=
  ⟨KeyMap.empty, KeyMap.empty, fun _ => none, [], [], clock⟩

variable (s : AutonomyStore)

/-- `CreateOperationalResource` of a plan. -/
def createPlan (p : Plan) : AutonomyStore × Except Err Unit :=
  match s.plans.get? p.id with
  | some _ => (s, .error Err.conflict)
  | none => ({ s with plans := s.plans.insert p.id p }, .ok ())

/-- `UpdateOperationalResource` of a plan. -/
def updatePlan (p : Plan) (expected : Nat) : AutonomyStore × Except Err Unit :=
  match s.plans.get? p.id with
  | none => (s, .error Err.notFound)
  | some old =>
    if old.version = expected then
      ({ s with plans := s.plans.insert p.id { p with version := expected + 1 } }, .ok ())
    else (s, .error Err.conflict)

/-- `CreateOperationalResource` of a rollout. -/
def createRollout (r : Rollout) : AutonomyStore × Except Err Unit :=
  match s.rollouts.get? r.id with
  | some _ => (s, .error Err.conflict)
  | none => ({ s with rollouts := s.rollouts.insert r.id r }, .ok ())

/-- `UpdateOperationalResource` of a rollout. -/
def updateRollout (r : Rollout) (expected : Nat) : AutonomyStore × Except Err Unit :=
  match s.rollouts.get? r.id with
  | none => (s, .error Err.notFound)
  | some old =>
    if old.version = expected then
      ({ s with rollouts := s.rollouts.insert r.id { r with version := expected + 1 } }, .ok ())
    else (s, .error Err.conflict)

/-- The effects with the row of one of them written. -/
def setEffect (e : Effect) : EffectID → Option Effect :=
  fun k => if k = e.id then some e else s.effects k

/-- `CreateOperationalResource` of an effect. -/
def createEffect (e : Effect) : AutonomyStore × Except Err Unit :=
  match s.effects e.id with
  | some _ => (s, .error Err.conflict)
  | none => ({ s with effects := s.setEffect e }, .ok ())

/-- `UpdateOperationalResource` of an effect. -/
def updateEffect (e : Effect) (expected : Nat) : AutonomyStore × Except Err Unit :=
  match s.effects e.id with
  | none => (s, .error Err.notFound)
  | some old =>
    if old.version = expected then
      ({ s with effects := s.setEffect { e with version := expected + 1 } }, .ok ())
    else (s, .error Err.conflict)

/-- `GetOperationalIdempotency`. -/
def findKey (actor key : Str) : Option KeyRecord :=
  (s.keys.map (·.1)).find? fun r => r.actor = actor && r.key = key

/-- `PutOperationalIdempotency`. A key expires after a day. -/
def putKey (r : KeyRecord) : AutonomyStore × Except Err (KeyRecord × Bool) :=
  match s.findKey r.actor r.key with
  | some old => (s, .ok (old, false))
  | none => ({ s with keys := (r, s.clock + 86400000000000) :: s.keys }, .ok (r, true))

/-- The order of a listing: by the text of the creation time, then by ID. -/
def planBefore (p q : Plan) : Bool :=
  ts p.createdAt < ts q.createdAt || (ts p.createdAt = ts q.createdAt && p.id ≤ q.id)

def afterCursor (cursor : Option (Int × Str)) (p : Plan) : Bool :=
  cursor.all fun c => ts c.1 < ts p.createdAt || (ts p.createdAt = ts c.1 && c.2 < p.id)

def pageLimit : Nat := 500

/-- `ListOperationalResources` of the plans, a full page after the cursor. -/
def listPlans (cursor : Option (Int × Str)) : List Plan :=
  (((s.plans.entries.map Prod.snd).filter (afterCursor cursor)).insertionSort
    fun p q => planBefore p q = true).take pageLimit

/-- A row of the given state and expiry is deleted by a retention run with this cutoff. -/
def prunable (cutoff state : Str) (expiresAt : Int) : Bool :=
  ts expiresAt < cutoff && prunableStates.contains state

/-- `Prune`, of the keys, plans, rollouts and effects. -/
def prune (cutoff : Str) : AutonomyStore :=
  { s with
    keys := s.keys.filter fun r => cutoff ≤ ts r.2
    plans := s.plans.filter fun _ p => !prunable cutoff p.state.text p.expiresAt
    rollouts := s.rollouts.filter fun _ r => !prunable cutoff r.state.text r.expiresAt
    effects := fun k => (s.effects k).filter fun e => !prunable cutoff e.state.text e.expiresAt }

end AutonomyStore

/-! ## Calls -/

inductive AutonomyCall where
  | now
  | newID (kind : Str)
  | getPlan (id : Str)
  | createPlan (p : Plan)
  | updatePlan (p : Plan) (expected : Nat)
  | listPlans (cursor : Option (Int × Str))
  | getRollout (id : Str)
  | createRollout (r : Rollout)
  | updateRollout (r : Rollout) (expected : Nat)
  | getEffect (id : EffectID)
  | createEffect (e : Effect)
  | updateEffect (e : Effect) (expected : Nat)
  | getKey (actor key : Str)
  | putKey (r : KeyRecord)
  | getSimulation (id : Str)
  | createDecision (id : Str) (decision : Decision.Result)
  | audit (action : Str)
  | listNodes
  | windowActive (node : Str) (windows : List Str)
  | buildSnapshot (node : Str) (request : Decision.Request)
  | execute (request : EffectRequest)

@[reducible] def AutonomyCall.Answer : AutonomyCall → Type
  | .now => Int
  | .newID _ => Str
  | .getPlan _ => Except Err Plan
  | .createPlan _ => Except Err Unit
  | .updatePlan _ _ => Except Err Unit
  | .listPlans _ => Except Err (List Plan)
  | .getRollout _ => Except Err Rollout
  | .createRollout _ => Except Err Unit
  | .updateRollout _ _ => Except Err Unit
  | .getEffect _ => Except Err Effect
  | .createEffect _ => Except Err Unit
  | .updateEffect _ _ => Except Err Unit
  | .getKey _ _ => Except Err KeyRecord
  | .putKey _ => Except Err (KeyRecord × Bool)
  | .getSimulation _ => Except Err Simulation
  | .createDecision _ _ => Except Err Unit
  | .audit _ => Except Err Unit
  | .listNodes => Except Err (List (Option Decision.Node))
  | .windowActive _ _ => Except Err Bool
  | .buildSnapshot _ _ => Except Err Decision.Snapshot
  | .execute _ => Except Str EffectResult

/-- What the environment puts into a call: a store call that works, one that fails (`applied` tells
whether a write happened all the same), or the answer of a party outside the store. -/
inductive CallInput where
  | works
  | fails (applied : Bool) (text : Str)
  | fresh (uuid : Str)
  | simulation (s : Simulation)
  | nodes (l : List (Option Decision.Node))
  | window (active : Bool)
  | snapshot (s : Decision.Snapshot)
  | outcome (r : EffectResult)

variable {α : Type}

/-- A store call under an input. -/
def AutonomyStore.answer (s : AutonomyStore) (out : AutonomyStore × Except Err α) :
    CallInput → Option (AutonomyStore × Except Err α)
  | .works => some out
  | .fails applied text => some (if applied then out.1 else s, .error (Err.plain text))
  | _ => none

def found (row : Option α) : Except Err α := row.elim (.error Err.notFound) .ok

/-- The answer of a party outside the store. -/
def CallInput.simulation? : CallInput → Option (Except Err Simulation)
  | .simulation s => some (.ok s)
  | .works => some (.error Err.notFound)
  | .fails _ text => some (.error (Err.plain text))
  | _ => none

/-- The answer of the inventory. -/
def CallInput.nodes? : CallInput → Option (Except Err (List (Option Decision.Node)))
  | .nodes l => some (.ok l)
  | .fails _ text => some (.error (Err.plain text))
  | _ => none

/-- The answer of the window resolver. -/
def CallInput.window? : CallInput → Option (Except Err Bool)
  | .window active => some (.ok active)
  | .fails _ text => some (.error (Err.plain text))
  | _ => none

/-- The answer of the snapshot builder, which answers for the node it was asked about. -/
def CallInput.snapshot? (node : Str) : CallInput → Option (Except Err Decision.Snapshot)
  | .snapshot s => if s.node.name = node then some (.ok s) else none
  | .fails _ text => some (.error (Err.plain text))
  | _ => none

/-- The answer of the executor. -/
def CallInput.outcome? : CallInput → Option (Except Str EffectResult)
  | .outcome r => some (.ok r)
  | .fails _ text => some (.error text)
  | _ => none

/-- `newID`: a prefix and a UUID, different from all that were made. -/
def CallInput.fresh? (kind : Str) (issued : List Str) : CallInput → Option Str
  | .fresh uuid =>
    let id := kind ++ lit "-" ++ uuid
    if id ∈ issued then none else some id
  | _ => none

/-- A call of the autonomy code on an input of the environment. -/
def autonomyPerform (s : AutonomyStore) : (c : AutonomyCall) → CallInput →
    Option (AutonomyStore × c.Answer)
  | .now, _ => some (s, s.clock)
  | .newID kind, x =>
    (x.fresh? kind s.issued).map fun id => ({ s with issued := id :: s.issued }, id)
  | .getPlan id, x => s.answer (s, found (s.plans.get? id)) x
  | .createPlan p, x => s.answer (s.createPlan p) x
  | .updatePlan p expected, x => s.answer (s.updatePlan p expected) x
  | .listPlans cursor, x => s.answer (s, .ok (s.listPlans cursor)) x
  | .getRollout id, x => s.answer (s, found (s.rollouts.get? id)) x
  | .createRollout r, x => s.answer (s.createRollout r) x
  | .updateRollout r expected, x => s.answer (s.updateRollout r expected) x
  | .getEffect id, x => s.answer (s, found (s.effects id)) x
  | .createEffect e, x => s.answer (s.createEffect e) x
  | .updateEffect e expected, x => s.answer (s.updateEffect e expected) x
  | .getKey actor key, x => s.answer (s, found (s.findKey actor key)) x
  | .putKey r, x => s.answer (s.putKey r) x
  | .getSimulation _, x => x.simulation?.map fun a => (s, a)
  | .createDecision _ _, x => s.answer (s, .ok ()) x
  | .audit _, x => s.answer (s, .ok ()) x
  | .listNodes, x => x.nodes?.map fun a => (s, a)
  | .windowActive _ _, x => x.window?.map fun a => (s, a)
  | .buildSnapshot node _, x => (x.snapshot? node).map fun a => (s, a)
  | .execute _, x => x.outcome?.map fun a => (s, a)

/-- What changes the store besides the calls: time passes, and a retention run deletes rows. Such a
run takes its cutoff from the time it starts at. -/
inductive StoreEvent where
  | tick (nanoseconds : Nat)
  | prune (retention startedAt : Int)

/-- A change of the store by itself. -/
def autonomyEnv (s : AutonomyStore) : StoreEvent → Option AutonomyStore
  | .tick n => some { s with clock := s.clock + n }
  | .prune retention startedAt =>
    if 0 < retention ∧ startedAt ≤ s.clock then some (s.prune (ts (startedAt - retention)))
    else none

end KubeNeuron.Operations
