import KubeNeuron.Lib.Run
import KubeNeuron.Types.Event

/-!
# Accelerator reports

`AcceleratorReport.validate` refuses a report that contradicts itself. A text on the wire that none
of the constants of the code spells is an `other`; `quote` is the quoting of `%q`.
-/

namespace KubeNeuron.Accelerator

open Lib KubeNeuron.Types

/-! ## Checks -/

/-- A check of a sequence of checks. -/
def require (ok : Bool) (err : Str) : Except Str Unit := if ok then .ok () else .error err

theorem require_bind_ok {ok : Bool} {err : Str} {f : Unit → Except Str Unit} {x : Unit} :
    (require ok err >>= f) = .ok x ↔ ok = true ∧ f () = .ok x := by
  cases ok with
  | true => exact ⟨fun h => ⟨rfl, h⟩, fun h => h.2⟩
  | false =>
    constructor
    · intro h
      cases h
    · rintro ⟨h, -⟩
      cases h

theorem require_ok {ok : Bool} {err : Str} {x : Unit} : require ok err = .ok x ↔ ok = true := by
  cases ok with
  | true => exact ⟨fun _ => rfl, fun _ => rfl⟩
  | false =>
    constructor
    · intro h
      cases h
    · intro h
      cases h

/-- The text has no white space at its ends, and is not empty. -/
def trimmed (s : Str) : Bool := trimSpace s ≠ [] && trimSpace s = s

/-! ## Words of a report -/

/-- `AcceleratorDeviceFamily`. -/
inductive DeviceFamily where
  | gpu
  | tpu
  | other (text : Str)
  deriving DecidableEq

/-- `AcceleratorDeviceKind`. -/
inductive DeviceKind where
  | physical
  | partition
  | other (text : Str)
  deriving DecidableEq

/-- `AcceleratorTopologySafety`. -/
inductive TopologySafety where
  | unknown
  | verifiedUnpartitioned
  | partitioned
  | unsafeTopology
  | other (text : Str)
  deriving DecidableEq

inductive AcceleratorAction where
  | evacuateWorkloads
  | quarantineNode
  | resetDevice
  | restartRuntime
  | rebootNode
  | collectDiagnostics
  | verifyHealth
  | replaceNode
  | other (text : Str)
  deriving DecidableEq

/-- `AcceleratorTargetScope`. -/
inductive TargetScope where
  | node
  | physicalDevice
  | partition
  | other (text : Str)
  deriving DecidableEq

/-- `AcceleratorReadiness`. -/
inductive Readiness where
  | ready
  | degraded
  | notReady
  | other (text : Str)
  deriving DecidableEq

def DeviceFamily.text : DeviceFamily → Str
  | .gpu => lit "gpu"
  | .tpu => lit "tpu"
  | .other text => text

/-- The family is one the protocol knows. -/
def DeviceFamily.valid : DeviceFamily → Bool
  | .other _ => false
  | _ => true

def DeviceKind.text : DeviceKind → Str
  | .physical => lit "physical"
  | .partition => lit "partition"
  | .other text => text

/-- The kind is one the protocol knows. -/
def DeviceKind.valid : DeviceKind → Bool
  | .other _ => false
  | _ => true

def TopologySafety.text : TopologySafety → Str
  | .unknown => lit "unknown"
  | .verifiedUnpartitioned => lit "verified-unpartitioned"
  | .partitioned => lit "partitioned"
  | .unsafeTopology => lit "unsafe"
  | .other text => text

/-- The topology safety is one the protocol knows. -/
def TopologySafety.valid : TopologySafety → Bool
  | .other _ => false
  | _ => true

def AcceleratorAction.text : AcceleratorAction → Str
  | .evacuateWorkloads => lit "evacuate-workloads"
  | .quarantineNode => lit "quarantine-node"
  | .resetDevice => lit "reset-device"
  | .restartRuntime => lit "restart-runtime"
  | .rebootNode => lit "reboot-node"
  | .collectDiagnostics => lit "collect-diagnostics"
  | .verifyHealth => lit "verify-health"
  | .replaceNode => lit "replace-node"
  | .other text => text

/-- The action is one the protocol knows. -/
def AcceleratorAction.valid : AcceleratorAction → Bool
  | .other _ => false
  | _ => true

def TargetScope.text : TargetScope → Str
  | .node => lit "node"
  | .physicalDevice => lit "physical-device"
  | .partition => lit "partition"
  | .other text => text

/-- The scope is one the protocol knows. -/
def TargetScope.valid : TargetScope → Bool
  | .other _ => false
  | _ => true

def Readiness.text : Readiness → Str
  | .ready => lit "ready"
  | .degraded => lit "degraded"
  | .notReady => lit "not-ready"
  | .other text => text

/-- The readiness is one the protocol knows. -/
def Readiness.valid : Readiness → Bool
  | .other _ => false
  | _ => true

/-! ## Reports -/

/-- `AgentAcceleratorDevice`. -/
structure AcceleratorDevice where
  id : Str
  kind : DeviceKind
  family : DeviceFamily
  parentID : Str
  deriving DecidableEq

/-- `AgentAcceleratorCapability`, and the part of an action policy with the same shape. -/
structure Capability where
  action : AcceleratorAction
  scopes : List TargetScope
  deriving DecidableEq

/-- `AgentAcceleratorReport`. Times are in nanoseconds since the epoch. -/
structure AcceleratorReport where
  node : Str
  nodeUID : Str
  vendor : Str
  observedAt : Int
  devices : List AcceleratorDevice
  driverVersion : Str
  runtimeVersion : Str
  topologySafety : TopologySafety
  capabilities : List Capability
  readiness : Readiness
  readinessReasons : List Str
  profileDigest : Str
  profileUID : Str
  profileGeneration : Int
  deriving DecidableEq

/-- `IsZero`. -/
def zeroTime (ns : Int) : Bool := ns = GoTime.zeroNs

variable (quote : Str → Str)

/-- The checks of one device, after the devices with the given names. -/
def validateDevice (seen : List Str) (d : AcceleratorDevice) : Except Str Unit := do
  require (trimSpace d.id ≠ []) (lit "accelerator report: device ID is required")
  require (!seen.contains d.id) (lit "accelerator report: duplicate device ID " ++ quote d.id)
  require d.kind.valid
    (lit "accelerator report: device " ++ quote d.id ++ lit " has invalid kind " ++
    quote d.kind.text)
  require d.family.valid (lit "accelerator report: device " ++ quote d.id ++
    lit " has invalid family " ++ quote d.family.text)
  require (!(d.kind = .physical && d.parentID ≠ []))
    (lit "accelerator report: physical device " ++ quote d.id ++ lit " cannot have a parent")
  require (!(d.kind = .partition && trimSpace d.parentID = []))
    (lit "accelerator report: partition " ++ quote d.id ++ lit " requires a physical parent")

/-- The checks of the devices, in order. -/
def validateDevices : List Str → List AcceleratorDevice → Except Str Unit
  | _, [] => .ok ()
  | seen, d :: ds => do
      validateDevice quote seen d
      validateDevices (d.id :: seen) ds

/-- The parents of the partitions among the devices. -/
def validateParents (devices : List AcceleratorDevice) :
    List AcceleratorDevice → Except Str Unit
  | [] => .ok ()
  | d :: ds => do
      require (d.kind ≠ .partition || (devices.find? fun p => p.id = d.parentID).any fun p =>
          p.kind = .physical && p.family = d.family)
        (lit "accelerator report: partition " ++ quote d.id ++
          lit " has an invalid physical parent " ++
          quote d.parentID)
      validateParents devices ds

/-- A topology that claims to have no partitions has none. -/
def validateUnpartitioned : List AcceleratorDevice → Except Str Unit
  | [] => .ok ()
  | d :: ds => do
      require (d.kind ≠ .partition)
        (lit "accelerator report: verified-unpartitioned topology contains partition " ++
          quote d.id)
      validateUnpartitioned ds

/-- The topology against the devices. -/
def validateTopology (r : AcceleratorReport) : Except Str Unit :=
  if r.topologySafety = .verifiedUnpartitioned then validateUnpartitioned quote r.devices
  else .ok ()

def validateScopes (topology : TopologySafety) (action : AcceleratorAction) :
    List TargetScope → List TargetScope → Except Str Unit
  | _, [] => .ok ()
  | seen, scope :: scopes => do
      require scope.valid (lit "accelerator report: capability " ++ quote action.text ++
        lit " has invalid scope " ++ quote scope.text)
      require (!seen.contains scope) (lit "accelerator report: duplicate capability " ++
        quote action.text ++ lit " for scope " ++ quote scope.text)
      require (!(action = .resetDevice && scope = .physicalDevice &&
          topology ≠ .verifiedUnpartitioned))
        (lit "accelerator report: physical device reset requires verified-unpartitioned topology")
      validateScopes topology action (scope :: seen) scopes

/-- The declared actions. An action may be declared in several parts. -/
def validateCapabilities (topology : TopologySafety) :
    List Capability → List Capability → Except Str Unit
  | _, [] => .ok ()
  | seen, c :: cs => do
      require c.action.valid (lit "accelerator report: invalid capability action " ++
        quote c.action.text)
      require (c.scopes ≠ []) (lit "accelerator report: capability " ++ quote c.action.text ++
        lit " has no scopes")
      validateScopes quote topology c.action
        ((seen.filter fun s => s.action = c.action).flatMap Capability.scopes) c.scopes
      validateCapabilities topology (c :: seen) cs

def validateReadiness (r : AcceleratorReport) : Except Str Unit := do
  if r.readiness = .ready then
    require (r.readinessReasons = [])
      (lit "accelerator report: ready report cannot include readiness reasons")
    require (trimSpace r.driverVersion ≠ [] && trimSpace r.runtimeVersion ≠ [])
      (lit "accelerator report: ready report requires driver and runtime versions")
  else
    require (r.readinessReasons ≠ [])
      (lit "accelerator report: non-ready report requires readiness reasons")
  require (r.readinessReasons.all fun reason => trimSpace reason ≠ [])
    (lit "accelerator report: readiness reasons must not be empty")

def validateAcknowledged (r : AcceleratorReport) : Except Str Unit :=
  if r.profileUID ≠ [] || r.profileGeneration ≠ 0 then do
    require (trimmed r.profileUID)
      (lit "accelerator report: profile UID is required when profile generation is set")
    require (0 < r.profileGeneration)
      (lit "accelerator report: profile generation must be positive when profile UID is set")
  else .ok ()

def AcceleratorReport.validate (r : AcceleratorReport) : Except Str Unit := do
  require (trimSpace r.node ≠ []) (lit "accelerator report: node is required")
  require (trimSpace r.node = r.node)
    (lit "accelerator report: node must not have leading or trailing whitespace")
  require (r.nodeUID = [] || trimmed r.nodeUID)
    (lit "accelerator report: node UID must not have leading or trailing whitespace")
  require (vendorValid r.vendor) (lit "accelerator report: unsupported vendor " ++ quote r.vendor)
  require (!zeroTime r.observedAt) (lit "accelerator report: observed_at is required")
  validateAcknowledged r
  require r.topologySafety.valid (lit "accelerator report: invalid topology safety " ++
    quote r.topologySafety.text)
  require r.readiness.valid (lit "accelerator report: invalid readiness " ++ quote r.readiness.text)
  validateReadiness r
  validateDevices quote [] r.devices
  validateParents quote r.devices r.devices
  validateTopology quote r
  validateCapabilities quote r.topologySafety [] r.capabilities

def reportDeclaresCapability (r : AcceleratorReport) (action : AcceleratorAction)
    (scope : TargetScope) : Bool :=
  r.capabilities.any fun c => c.action = action && c.scopes.contains scope

/-! ## What a valid report has -/

variable {devices : List AcceleratorDevice} {topology : TopologySafety}

variable {quote : Str → Str} {x : Unit}

theorem kind_of_validateDevices {seen : List Str}
    (h : validateDevices quote seen devices = .ok x) : ∀ d ∈ devices, d.kind.valid = true := by
  induction devices generalizing seen with
  | nil =>
    intro d hd
    cases hd
  | cons _ _ ih =>
    obtain ⟨_, hdev, ht⟩ := bind_ok_iff.1 h
    intro d' hd'
    obtain _ | ⟨_, hd'⟩ := hd'
    · simp only [validateDevice, require_bind_ok] at hdev
      exact hdev.2.2.1
    · exact ih ht d' hd'

theorem kind_of_validateUnpartitioned
    (h : validateUnpartitioned quote devices = .ok x) : ∀ d ∈ devices, d.kind ≠ .partition := by
  induction devices with
  | nil =>
    intro d hd
    cases hd
  | cons _ _ ih =>
    obtain ⟨hd, ht⟩ := require_bind_ok.1 h
    intro d' hd'
    obtain _ | ⟨_, hd'⟩ := hd'
    · exact of_decide_eq_true hd
    · exact ih ht d' hd'

theorem topology_of_validateScopes {seen scopes : List TargetScope}
    (h : validateScopes quote topology .resetDevice seen scopes = .ok x)
    (hscope : .physicalDevice ∈ scopes) : topology = .verifiedUnpartitioned := by
  induction scopes generalizing seen with
  | nil => cases hscope
  | cons _ _ ih =>
    simp only [validateScopes, require_bind_ok] at h
    obtain ⟨-, -, hreset, ht⟩ := h
    obtain _ | ⟨_, hscope⟩ := hscope
    · simpa using hreset
    · exact ih ht hscope

theorem topology_of_validateCapabilities {seen cs : List Capability}
    (h : validateCapabilities quote topology seen cs = .ok x) {c : Capability} (hc : c ∈ cs)
    (ha : c.action = .resetDevice) (hscope : .physicalDevice ∈ c.scopes) :
    topology = .verifiedUnpartitioned := by
  induction cs generalizing seen with
  | nil => cases hc
  | cons _ _ ih =>
    simp only [validateCapabilities, require_bind_ok] at h
    obtain ⟨-, -, h⟩ := h
    obtain ⟨_, hscopes, ht⟩ := bind_ok_iff.1 h
    obtain _ | ⟨_, hc⟩ := hc
    · rw [ha] at hscopes
      exact topology_of_validateScopes hscopes hscope
    · exact ih ht hc

/-- **A report that declares the reset of a physical device has physical devices only.** -/
theorem physical_of_validate {r : AcceleratorReport} (h : r.validate quote = .ok x)
    (hreset : reportDeclaresCapability r .resetDevice .physicalDevice = true) :
    ∀ d ∈ r.devices, d.kind = .physical := by
  simp only [AcceleratorReport.validate, require_bind_ok] at h
  obtain ⟨-, -, -, -, -, h⟩ := h
  obtain ⟨_, -, h⟩ := bind_ok_iff.1 h
  obtain ⟨-, h⟩ := require_bind_ok.1 h
  obtain ⟨-, h⟩ := require_bind_ok.1 h
  obtain ⟨_, -, h⟩ := bind_ok_iff.1 h
  obtain ⟨_, hdevices, h⟩ := bind_ok_iff.1 h
  obtain ⟨_, -, h⟩ := bind_ok_iff.1 h
  obtain ⟨_, hunp, hcaps⟩ := bind_ok_iff.1 h
  obtain ⟨_, hc, hdecl⟩ := List.any_eq_true.1 hreset
  simp only [Bool.and_eq_true, decide_eq_true_eq, List.contains_iff_mem] at hdecl
  have htopology := topology_of_validateCapabilities hcaps hc hdecl.1 hdecl.2
  rw [validateTopology, if_pos htopology] at hunp
  intro d hd
  have hv := kind_of_validateDevices hdevices d hd
  have hwhole := kind_of_validateUnpartitioned hunp d hd
  cases hkind : d.kind with
  | physical => rfl
  | partition => exact absurd hkind hwhole
  | other =>
    rw [hkind] at hv
    cases hv

end KubeNeuron.Accelerator
