import KubeNeuron.Lib.GoTime

/-!
# Incidents

The incident record as the store keeps it. A stored time is an instant: the store writes every time
in UTC and reads it back without a monotonic reading, so only the instant survives. `ts` is the text
a time is stored as, and comparisons in SQL are comparisons of these texts.
-/

namespace KubeNeuron.Types

open Lib

/-- What an incident or a signal is about: a node, or a device on it. -/
structure Target where
  node : Str
  gpuUUID : Str
  gpuIndex : Int
  pciAddr : Str
  deriving DecidableEq

namespace Target

/-- The target names a device by UUID. -/
def isGPU (t : Target) : Bool := t.gpuUUID ≠ []

/-- The target has not been resolved to a UUID. -/
def isUnattributed (t : Target) : Bool := t.gpuUUID = []

/-- The targets agree, except that one with a bus address may have learnt its UUID. -/
structure SameDevice (a b : Target) : Prop where
  node : a.node = b.node
  pciAddr : a.pciAddr = b.pciAddr
  uuid : a.pciAddr = [] → a.gpuUUID = b.gpuUUID

theorem SameDevice.refl (t : Target) : t.SameDevice t := ⟨rfl, rfl, fun _ => rfl⟩

theorem SameDevice.trans {a b c : Target} (h : a.SameDevice b) (h' : b.SameDevice c) :
    a.SameDevice c := by
  refine ⟨h.node.trans h'.node, h.pciAddr.trans h'.pciAddr, fun hn => ?_⟩
  exact (h.uuid hn).trans (h'.uuid (h.pciAddr ▸ hn))

theorem SameDevice.symm {a b : Target} (h : a.SameDevice b) : b.SameDevice a := by
  refine ⟨h.node.symm, h.pciAddr.symm, fun hn => ?_⟩
  exact (h.uuid (h.pciAddr.trans hn)).symm

end Target

inductive IncidentState where
  | open
  | observing
  | evaluating
  | awaitingApproval
  | executing
  | verifying
  | needsHuman
  | resolved
  | expired
  deriving DecidableEq

namespace IncidentState

/-- The state ends the incident's life. -/
def terminal : IncidentState → Bool
  | .resolved | .expired => true
  | _ => false

/-- Automated remediation has ended. -/
def halted (s : IncidentState) : Bool := s.terminal || s == .needsHuman

end IncidentState

structure Incident where
  id : Str
  target : Target
  cls : Str
  state : IncidentState
  playbook : Str
  stepIndex : Int
  attempt : Int
  dryRun : Bool
  signalSeen : Int
  vendor : Str
  remediationSlotHeld : Bool
  approvalEpoch : Int
  openedAt : Int
  updatedAt : Int
  stateChangedAt : Int
  resolvedAt : Option Int
  version : Int
  deriving DecidableEq

/-- The text an instant is stored as. -/
def ts (ns : Int) : Str := formatRFC3339Nano (fun _ => 0) ⟨ns, .utc, none⟩

end KubeNeuron.Types
