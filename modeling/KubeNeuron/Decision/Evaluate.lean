import KubeNeuron.Accelerator.Profile
import Mathlib.Data.List.Dedup
import Mathlib.Data.List.Sort

/-!
# The shared evaluator

`Evaluate` decides about an operation from a snapshot, without a clock or a store. `Snapshot.judge`
is the chain of its gates, in the order of the source. The digests of a report and of a profile, the
quoting of `%q` and the lower-case table are parameters.
-/

namespace KubeNeuron.Decision

open Lib KubeNeuron.Types Accelerator

/-! ## Requests and snapshots -/

/-- The verdict of a decision. -/
inductive State where
  | eligible
  | observedOnly
  | blocked
  | unknown
  deriving DecidableEq

/-- Why a request is not eligible. -/
inductive ReasonCode where
  | evidenceStale
  | profileMismatch
  | driverUnsupported
  | noHealthyAgent
  | maintenanceWindowClosed
  | emergencyStopActive
  | incidentConflict
  | sharedOwnershipConflict
  | selectorExcluded
  | approvalMissing
  | autonomyBudgetExhausted
  | capabilityMissing
  | snapshotIncomplete
  | evidenceSourceMissing
  | configurationChanged
  deriving DecidableEq

inductive ActionClass where
  | observe
  | diagnostic
  | simulate
  | remediate
  | autonomous
  | other (text : Str)
  deriving DecidableEq

/-- `Request`. The action that was left out is the empty one. -/
structure Request where
  cls : ActionClass
  acceleratorAction : AcceleratorAction
  scope : TargetScope
  targetDeviceID : Str
  approvalRequired : Bool
  approvalGranted : Bool
  maintenanceRequired : Bool
  allowDuringMaintenance : Bool
  elevatedAuthorizationGranted : Bool
  disruptionBudgetApproved : Bool

/-- A piece of evidence, and when it was observed. -/
structure EvidenceRef where
  source : Str
  id : Str
  observedAt : Int
  digest : Str

structure Limits where
  deadline : Int
  evidenceExpiresAt : Int
  maxConcurrentNodes : Int
  maxActionsPerHour : Int
  retryLimit : Int

/-- The fields of a node that a decision reads. -/
structure Node where
  name : Str
  uid : Str
  labels : StrMap
  paused : Bool
  agentLastSeen : Int
  agentArming : Str

/-- All that a decision is computed from. -/
structure Snapshot where
  evaluatedAt : Int
  configDigest : Str
  requiredConfigDigest : Str
  node : Node
  report : Option AcceleratorReport
  profile : Option RuntimeProfile
  request : Request
  evidenceRefs : List EvidenceRef
  evidenceSources : List Str
  requiredEvidenceSources : List Str
  evidenceMaxAge : Int
  agentMaxAge : Int
  globalPaused : Bool
  emergencyStop : Bool
  maintenanceActive : Bool
  changeFreeze : Bool
  incidentConflict : Bool
  ownershipConflict : Bool
  selectorExcluded : Bool
  autonomyBudgetExhausted : Bool
  limits : Limits

/-- A decision with its reasons and its expiry. -/
structure Result where
  state : State
  reasonCodes : List ReasonCode
  humanSummary : Str
  evidenceRefs : List EvidenceRef
  requiredActions : List Str
  allowedActions : List AcceleratorAction
  limits : Limits
  configDigest : Str
  evaluatedAt : Int
  expiresAt : Int

def Result.permitted (r : Result) : Bool := r.state = .eligible

/-- The digests of the JSON of a report and of a profile. -/
structure Digests where
  report : AcceleratorReport → Str
  profile : RuntimeProfile → Str

/-! ## Texts -/

def State.text : State → Str
  | .eligible => lit "Eligible"
  | .observedOnly => lit "ObservedOnly"
  | .blocked => lit "Blocked"
  | .unknown => lit "Unknown"

def ReasonCode.text : ReasonCode → Str
  | .evidenceStale => lit "EvidenceStale"
  | .profileMismatch => lit "ProfileMismatch"
  | .driverUnsupported => lit "DriverUnsupported"
  | .noHealthyAgent => lit "NoHealthyAgent"
  | .maintenanceWindowClosed => lit "MaintenanceWindowClosed"
  | .emergencyStopActive => lit "EmergencyStopActive"
  | .incidentConflict => lit "IncidentConflict"
  | .sharedOwnershipConflict => lit "SharedOwnershipConflict"
  | .selectorExcluded => lit "SelectorExcluded"
  | .approvalMissing => lit "ApprovalMissing"
  | .autonomyBudgetExhausted => lit "AutonomyBudgetExhausted"
  | .capabilityMissing => lit "CapabilityMissing"
  | .snapshotIncomplete => lit "SnapshotIncomplete"
  | .evidenceSourceMissing => lit "EvidenceSourceMissing"
  | .configurationChanged => lit "ConfigurationChanged"

/-- The reasons in the order of `reasonOrder`. -/
def reasonOrder : List ReasonCode :=
  [.snapshotIncomplete, .emergencyStopActive, .maintenanceWindowClosed, .selectorExcluded,
    .sharedOwnershipConflict, .incidentConflict, .approvalMissing, .autonomyBudgetExhausted,
    .noHealthyAgent, .evidenceStale, .profileMismatch, .driverUnsupported, .capabilityMissing,
    .evidenceSourceMissing, .configurationChanged]

/-- `canonicalReasons`: without repetitions, in the order of the contract. -/
def canonicalReasons (reasons : List ReasonCode) : List ReasonCode :=
  reasonOrder.filter fun r => reasons.contains r

/-- What an operator can do about a reason; nothing about an incomplete snapshot. -/
def requiredAction : ReasonCode → Option Str
  | .evidenceStale | .noHealthyAgent => some (lit "refresh_evidence")
  | .evidenceSourceMissing => some (lit "restore_required_evidence_source")
  | .profileMismatch | .driverUnsupported | .capabilityMissing =>
    some (lit "review_runtime_profile")
  | .configurationChanged => some (lit "review_configuration_revision")
  | .maintenanceWindowClosed => some (lit "wait_for_maintenance_window")
  | .emergencyStopActive => some (lit "resume_automation_after_safety_review")
  | .incidentConflict | .sharedOwnershipConflict => some (lit "resolve_conflicting_ownership")
  | .selectorExcluded => some (lit "adjust_declared_scope")
  | .approvalMissing => some (lit "collect_required_approval")
  | .autonomyBudgetExhausted => some (lit "wait_for_autonomy_budget")
  | .snapshotIncomplete => none

/-- The texts, one after the other, with the separator between them. -/
def joinTexts (sep : Str) : List Str → Str
  | [] => []
  | [s] => s
  | s :: rest => s ++ sep ++ joinTexts sep rest

def summary (state : State) : List ReasonCode → Str
  | [] =>
    match state with
    | .eligible => lit "all captured safety, identity, and evidence requirements are satisfied"
    | .observedOnly =>
      lit "evidence is available for observation, but no action authority is configured"
    | s => s.text
  | reasons => state.text ++ lit ": " ++ joinTexts (lit ", ") (reasons.map ReasonCode.text)

def containsText (s part : Str) : Bool := s.tails.any part.isPrefixOf

/-- `reasonsForProfileError`: the code is read off the text of the error. -/
def reasonsForProfileError (err : Str) : List ReasonCode :=
  if containsText err (lit "older than max_report_age") ||
      containsText err (lit "observation is in the future") then [.evidenceStale]
  else if containsText err (lit "driver version") || containsText err (lit "runtime version") then
    [.driverUnsupported]
  else if containsText err (lit "not allowed") || containsText err (lit "does not declare") ||
      containsText err (lit "topology") || containsText err (lit "does not contain") then
    [.capabilityMissing]
  else [.profileMismatch]

/-! ## The gates -/

def tenMinutes : Int := 600000000000

namespace Snapshot

variable (quote lower : Str → Str) (s : Snapshot)

/-- The heartbeat is recent. Without a limit that is ten minutes. -/
def agentHealthy : Bool :=
  !zeroTime s.node.agentLastSeen && s.node.agentLastSeen ≤ s.evaluatedAt &&
    sub s.evaluatedAt s.node.agentLastSeen ≤ if s.agentMaxAge ≤ 0 then tenMinutes else s.agentMaxAge

/-- `evidenceMaxAge`. -/
def effectiveMaxAge : Int :=
  if 0 < s.evidenceMaxAge then s.evidenceMaxAge
  else
    match s.profile with
    | some p => if 0 < p.maxReportAge then p.maxReportAge else tenMinutes
    | none => tenMinutes

/-- `reportFresh`, for the report of the snapshot. -/
def reportFresh (report : AcceleratorReport) : Bool :=
  !zeroTime report.observedAt && report.observedAt ≤ s.evaluatedAt &&
    sub s.evaluatedAt report.observedAt ≤ s.effectiveMaxAge

/-- `evidenceSourceFresh`, for a source that was trimmed and lower-cased. -/
def evidenceSourceFresh (source : Str) : Bool :=
  (source = lit "agent" && s.agentHealthy) ||
    (s.report.any fun r => source = lit "accelerator-report/" ++ r.vendor && s.reportFresh r) ||
    s.evidenceRefs.any fun ref =>
      toLower lower (trimSpace ref.source) = source && !zeroTime ref.observedAt &&
        ref.observedAt ≤ s.evaluatedAt && sub s.evaluatedAt ref.observedAt ≤ s.effectiveMaxAge

/-- `missingEvidenceSources` is not empty. -/
def evidenceSourceMissing : Bool :=
  s.requiredEvidenceSources.any fun source =>
    let source := toLower lower (trimSpace source)
    source ≠ [] && !s.evidenceSourceFresh lower source

/-- `allowedActions`: what the profile allows and the report declares, at a common scope. -/
def allowedActions : List AcceleratorAction :=
  match s.profile, s.report with
  | some p, some r =>
    let actions := p.allowedActions.filter fun policy => r.capabilities.any fun c =>
      c.action = policy.action && policy.scopes.any c.scopes.contains
    (actions.map ActionPolicy.action).dedup.insertionSort fun a b => a.text ≤ b.text
  | _, _ => []

/-- The gates that need no evidence. -/
def heldBack (configDigest : Str) : Option ReasonCode :=
  if s.emergencyStop || s.globalPaused then some .emergencyStopActive
  else if s.changeFreeze then some .maintenanceWindowClosed
  else if s.request.maintenanceRequired && !s.maintenanceActive then some .maintenanceWindowClosed
  else if s.maintenanceActive && !s.request.allowDuringMaintenance then
    some .maintenanceWindowClosed
  else if s.selectorExcluded then some .selectorExcluded
  else if s.ownershipConflict then some .sharedOwnershipConflict
  else if s.incidentConflict then some .incidentConflict
  else if trimSpace s.requiredConfigDigest ≠ [] && configDigest ≠ s.requiredConfigDigest then
    some .configurationChanged
  else if s.request.cls = .autonomous && s.autonomyBudgetExhausted then
    some .autonomyBudgetExhausted
  else if s.request.approvalRequired && !s.request.approvalGranted then some .approvalMissing
  else if s.request.maintenanceRequired &&
      (!s.request.elevatedAuthorizationGranted || !s.request.disruptionBudgetApproved) then
    some .approvalMissing
  else none

/-- The gates about the request, for a profile that the report satisfies. -/
def judgeRequest (profile : RuntimeProfile) (report : AcceleratorReport) :
    State × List ReasonCode :=
  if s.request.cls = .other [] || s.request.cls = .observe then
    if s.allowedActions = [] then (.observedOnly, []) else (.eligible, [])
  else if s.request.acceleratorAction = .other [] then
    if s.request.cls = .diagnostic then (.eligible, []) else (.blocked, [.capabilityMissing])
  else
    match profile.checkAction quote s.evaluatedAt report s.request.acceleratorAction
      s.request.scope with
    | .error err => (.blocked, reasonsForProfileError err)
    | .ok _ =>
      -- a target is looked for by its name alone
      if s.request.targetDeviceID ≠ [] &&
          !report.devices.any fun d => d.id = s.request.targetDeviceID then
        (.blocked, [.capabilityMissing])
      else (.eligible, [])

/-- The chain of gates of `Evaluate`, for a complete snapshot. -/
def judge (configDigest : Str) : State × List ReasonCode :=
  match s.heldBack configDigest with
  | some reason => (.blocked, [reason])
  | none =>
    if !s.agentHealthy then (.unknown, [.noHealthyAgent])
    else
      match s.report with
      | none => (.unknown, [.evidenceStale])
      | some report =>
        if !s.reportFresh report then (.unknown, [.evidenceStale])
        else if s.evidenceSourceMissing lower then (.blocked, [.evidenceSourceMissing])
        else
          match s.profile with
          | none => (.observedOnly, [.profileMismatch])
          | some profile =>
            match profile.checkReport quote s.evaluatedAt report with
            | .error err => (.blocked, reasonsForProfileError err)
            | .ok _ => s.judgeRequest quote profile report

end Snapshot

/-! ## The result -/

def reportEvidence (digests : Digests) (r : AcceleratorReport) : EvidenceRef :=
  ⟨lit "accelerator-report/" ++ r.vendor, r.node ++ lit "/" ++ r.vendor, r.observedAt,
    digests.report r⟩

/-- `finalize`: the decision is good as long as its evidence is, and no longer than its deadline. -/
def finalize (result : Result) (state : State) (reasons : List ReasonCode)
    (s : Snapshot) : Result :=
  let reasonCodes := canonicalReasons reasons
  let expires := s.report.map fun r => r.observedAt + s.effectiveMaxAge
  let expiresAt := max result.evaluatedAt (expires.getD result.evaluatedAt)
  { result with
    state, reasonCodes
    requiredActions := reasonCodes.filterMap requiredAction
    humanSummary := summary state reasonCodes
    limits := { result.limits with
      evidenceExpiresAt := expires.getD result.limits.evidenceExpiresAt }
    expiresAt :=
      if !zeroTime result.limits.deadline &&
        (zeroTime expiresAt || result.limits.deadline < expiresAt)
      then result.limits.deadline
      else expiresAt }

def evaluate (quote lower : Str → Str) (digests : Digests) (s : Snapshot) : Result :=
  let result : Result := ⟨.unknown, [], [], [], [], [], s.limits, s.configDigest, s.evaluatedAt, 0⟩
  if zeroTime s.evaluatedAt || trimSpace s.node.name = [] || trimSpace s.node.uid = [] then
    finalize result .unknown [.snapshotIncomplete] s
  else
    let configDigest :=
      if s.configDigest = [] then (s.profile.map digests.profile).getD [] else s.configDigest
    let own := s.report.toList.filter fun r =>
      !s.evidenceRefs.any fun ref => ref.source = lit "accelerator-report/" ++ r.vendor
    let result := { result with
      configDigest
      evidenceRefs := s.evidenceRefs ++ own.map (reportEvidence digests)
      allowedActions := s.allowedActions }
    let verdict := s.judge quote lower configDigest
    finalize result verdict.1 verdict.2 s

/-! ## What an eligible request has passed -/

variable {quote lower : Str → Str} {digests : Digests} {s : Snapshot}

/-- The configuration digest that a decision is made under. -/
def Snapshot.decidedDigest (digests : Digests) (s : Snapshot) : Str :=
  if s.configDigest = [] then (s.profile.map digests.profile).getD [] else s.configDigest

/-- Every gate lets the snapshot pass. -/
structure Passes (quote lower : Str → Str) (digests : Digests) (s : Snapshot)
    (r : AcceleratorReport) (p : RuntimeProfile) : Prop where
  complete : ¬(zeroTime s.evaluatedAt || trimSpace s.node.name = [] || trimSpace s.node.uid = []) =
    true
  free : s.heldBack (s.decidedDigest digests) = none
  healthy : s.agentHealthy = true
  report : s.report = some r
  fresh : s.reportFresh r = true
  sources : s.evidenceSourceMissing lower = false
  profile : s.profile = some p
  checked : p.checkReport quote s.evaluatedAt r = .ok ()
  request : (s.judgeRequest quote p r).1 = .eligible

theorem eligible_iff : (evaluate quote lower digests s).state = .eligible ↔
    ∃ report profile, Passes quote lower digests s report profile := by
  constructor
  · intro h
    rw [evaluate] at h
    split at h
    · cases h
    rename_i hcomplete
    change (s.judge quote lower (s.decidedDigest digests)).1 = .eligible at h
    generalize hd : s.decidedDigest digests = digest at h
    rw [Snapshot.judge] at h
    split at h
    · cases h
    rename_i hf
    split at h
    · cases h
    rename_i hhealthy
    split at h
    · cases h
    rename_i report hreport
    split_ifs at h with hfr hsources
    split at h
    · cases h
    rename_i profile hp
    split at h
    · cases h
    rename_i hchecked
    exact ⟨report, profile, hcomplete, hd ▸ hf, by simpa using hhealthy,
      hreport, by simpa using hfr,
      by simpa using hsources, hp, hchecked, h⟩
  · rintro ⟨report, profile, h⟩
    rw [evaluate, if_neg h.complete]
    change (s.judge quote lower (s.decidedDigest digests)).1 = .eligible
    simp [Snapshot.judge, h.free, h.healthy, h.report, h.fresh, h.sources, h.profile,
      h.checked, h.request]

/-- When the gates about the request let it pass. -/
theorem judgeRequest_iff {p : RuntimeProfile} {r : AcceleratorReport} :
    (s.judgeRequest quote p r).1 = .eligible ↔
      if s.request.cls = .other [] || s.request.cls = .observe then s.allowedActions ≠ []
      else if s.request.acceleratorAction = .other [] then s.request.cls = .diagnostic
      else p.checkAction quote s.evaluatedAt r s.request.acceleratorAction s.request.scope =
        .ok () ∧
        (s.request.targetDeviceID ≠ [] → ∃ d ∈ r.devices, d.id = s.request.targetDeviceID) := by
  rw [Snapshot.judgeRequest]
  split
  · split <;> simp [*]
  split
  · split <;> simp [*]
  split
  · simp [*]
  · split_ifs with ht <;> simpa [*] using ht

/-- **What an eligible request for an action has passed.** The snapshot has a report and a profile,
the profile allows the action on the report at the instant of the decision, and a target the request
names is among the devices of the report. -/
theorem eligible_checks (h : (evaluate quote lower digests s).state = .eligible)
    (hclass : s.request.cls = .remediate ∨ s.request.cls = .autonomous)
    (ha : s.request.acceleratorAction ≠ .other []) :
    ∃ report profile, s.report = some report ∧ s.profile = some profile ∧
      profile.checkAction quote s.evaluatedAt report s.request.acceleratorAction s.request.scope =
        .ok () ∧
      (s.request.targetDeviceID ≠ [] → ∃ d ∈ report.devices, d.id = s.request.targetDeviceID) := by
  obtain ⟨report, profile, hp⟩ := eligible_iff.1 h
  refine ⟨report, profile, hp.report, hp.profile, ?_⟩
  have hobserve : ¬(s.request.cls = .other [] || s.request.cls = .observe) = true := by
    rcases hclass with hclass | hclass <;> rw [hclass] <;> decide
  have hq := judgeRequest_iff.1 hp.request
  rw [if_neg hobserve, if_neg ha] at hq
  exact hq

/-- A request to reset the device of the sample report. -/
def resetRequest : Request :=
  ⟨.remediate, .resetDevice, .physicalDevice, lit "GPU-1", false, false, false, false, false, false⟩

/-- Digests that tell nothing apart. -/
def noDigests : Digests := ⟨fun _ => [], fun _ => []⟩

end KubeNeuron.Decision
