import KubeNeuron.Controller.Confinement
import KubeNeuron.Decision.Evaluate

/-!
# The evaluator against the reset gate

`BuildDecisionSnapshot` captures what the shared evaluator decides from; `checkNVIDIAResetEvidence`
is the live gate of the walk, which also asks whether the report was made by the current node
object, and whether the target is a GPU. `eligible_reset_iff` says when an eligible request passes
it.
-/

namespace KubeNeuron.Controller

open Lib KubeNeuron.Types Accelerator Decision

/-! ## The live gate -/

def checkNVIDIAResetEvidence (quote : Str → Str) (now : Int) (profile : RuntimeProfile)
    (report : AcceleratorReport) (nodeUID : Str) (target : Target) : Except Str Unit := do
  require (report.nodeUID = nodeUID) (lit "accelerator report node UID does not match current node")
  profile.checkAction quote now report .resetDevice .physicalDevice
  require (report.devices.any fun d =>
      d.id = target.gpuUUID && d.kind = .physical && d.family = .gpu)
    (lit "report does not contain targeted physical NVIDIA GPU " ++ quote target.gpuUUID)

/-! ## The snapshot -/

/-- The answer of the store about action leases. -/
inductive LeaseAnswer where
  | unsupported
  | failed (err : Str)
  | active (b : Bool)

/-- The answer of the store about the reports of a node. -/
inductive ReportsAnswer where
  | unsupported
  | failed (err : Str)
  | listed (reports : List AcceleratorReport)

/-- What `BuildDecisionSnapshot` reads of a node: its row, its labels, the configuration, the gate,
the windows, the incidents, leases and reports. `labeler` is absent on a platform that cannot read
the labels of one node; a node that it does not find is `none`. -/
structure DecisionFacts where
  node : Except Str Decision.Node
  labeler : Option (Except Str (Option StrMap))
  now : Int
  sourceDigest : Str
  destructiveSelector : StrMap
  profiles : List RuntimeProfile
  gatePaused : Bool
  windowActive : Bool
  incidents : Except Str (List Incident)
  lease : LeaseAnswer
  reports : ReportsAnswer

/-- The verification's bound on the age of a heartbeat. -/
def verifyEvidenceMaxAge : Int := 300000000000

variable (quote : Str → Str) (reference : List Str → Str) (digests : Digests)
  (facts : DecisionFacts) (request : Decision.Request)

/-- `inventoryLabels`: a node that is gone has no labels. -/
def inventoryLabels (node : Decision.Node) : Except Str StrMap :=
  match facts.labeler with
  | none => .ok node.labels
  | some (.error err) =>
    .error (lit "operations: durable workflow store is unavailable: runtime contract coverage: load labels for node " ++
      quote node.name ++ lit ": " ++ err)
  | some (.ok none) => .ok StrMap.empty
  | some (.ok (some labels)) => .ok labels

def captureError {α : Type} : Except Str α → Except Str α
  | .ok a => .ok a
  | .error err => .error (lit "decision snapshot: " ++ err)

/-- The first text that is not blank. -/
def firstNonEmpty (a b : Str) : Str := if trimSpace a ≠ [] then a else b

/-- The evidence that is captured before the reports are read. -/
def baseEvidence (node : Decision.Node) : List Str × List EvidenceRef :=
  let controller : EvidenceRef :=
    ⟨lit "controller", lit "runtime-config/" ++ firstNonEmpty facts.sourceDigest (lit "unknown"),
      facts.now, reference [lit "controller", facts.sourceDigest, ts facts.now]⟩
  let agent : EvidenceRef :=
    ⟨lit "agent", lit "heartbeat/" ++ firstNonEmpty node.uid node.name, node.agentLastSeen,
      reference [lit "agent", node.name, node.uid, ts node.agentLastSeen, node.agentArming]⟩
  if zeroTime node.agentLastSeen then ([lit "controller"], [controller])
  else ([lit "controller", lit "agent"], [controller, agent])

/-- The snapshot before conflicts and reports are looked up. -/
def baseSnapshot (node : Decision.Node) : Snapshot :=
  let evidence := baseEvidence reference facts node
  { evaluatedAt := facts.now
    configDigest := facts.sourceDigest
    requiredConfigDigest := []
    node, report := none, profile := none, request
    evidenceRefs := evidence.2
    evidenceSources := evidence.1
    requiredEvidenceSources := []
    evidenceMaxAge := 0
    agentMaxAge := verifyEvidenceMaxAge
    globalPaused := facts.gatePaused
    emergencyStop := facts.gatePaused
    maintenanceActive := facts.windowActive
    changeFreeze := node.paused
    incidentConflict := false
    ownershipConflict := false
    selectorExcluded :=
      (request.cls = .remediate || request.cls = .autonomous) &&
        facts.destructiveSelector.entries ≠ [] &&
        !labelsMatchSelector facts.destructiveSelector node.labels
    autonomyBudgetExhausted := false
    limits := ⟨GoTime.zeroNs, GoTime.zeroNs, 0, 0, 0⟩ }

/-- The owners of the node, for a request that is more than an observation. -/
def withConflicts (s : Snapshot) : Except Str Snapshot :=
  if request.cls = .observe then .ok s
  else
    match facts.incidents with
    | .error err => .error (lit "decision snapshot: list node incidents: " ++ err)
    | .ok incidents =>
      let live := incidents.filter fun inc => !inc.state.terminal
      let held := live.any Incident.remediationSlotHeld
      match facts.lease with
      | .failed err => .error (lit "decision snapshot: inspect node action lease: " ++ err)
      | .unsupported => .ok { s with incidentConflict := live ≠ [], ownershipConflict := true }
      | .active b => .ok { s with incidentConflict := live ≠ [], ownershipConflict := held || b }

/-- The report a decision is about: a reset prefers the one of the vendor it has a contract with. -/
def selectReport (reports : List AcceleratorReport) : Option AcceleratorReport :=
  let sorted := reports.insertionSort fun a b => a.vendor ≤ b.vendor
  if request.acceleratorAction = .resetDevice then
    (sorted.find? fun r => r.vendor = lit "nvidia").or sorted.head?
  else sorted.head?

/-- The evidence of a report whose runtime was attested by a local probe. -/
def withProbe (nodeName : Str) (report : AcceleratorReport) (s : Snapshot) : Snapshot :=
  if (lit "dcgm-").isPrefixOf report.runtimeVersion then
    { s with
      evidenceSources := s.evidenceSources ++ [lit "dcgm"]
      evidenceRefs := s.evidenceRefs ++
        [⟨lit "dcgm", lit "accelerator-report/" ++ nodeName ++ lit "/" ++ report.vendor,
          report.observedAt,
          reference [lit "dcgm", nodeName, report.vendor, report.runtimeVersion,
            ts report.observedAt]⟩] }
  else s

/-- The profile that is selected for the report. -/
def withProfile (vendor : Str) (s : Snapshot) : Except Str Snapshot :=
  match resolveAcceleratorRuntimeProfile quote facts.profiles s.node.labels vendor with
  | .ok profile =>
    .ok { s with
      profile := some profile
      configDigest := if s.configDigest = [] then digests.profile profile else s.configDigest }
  -- no selection is left to the evaluator
  | .error (.noProfile _) | .error (.ambiguous _) => .ok s
  | .error (.invalid err) => .error (lit "decision snapshot: select runtime profile: " ++ err)

def withReport (nodeName : Str) (report : AcceleratorReport) (s : Snapshot) :
    Except Str Snapshot :=
  if !vendorValid report.vendor then .ok { s with report := some report }
  else
    withProfile quote digests facts report.vendor
      (withProbe reference nodeName report { s with report := some report })

def buildDecisionSnapshot (nodeName : Str) : Except Str Snapshot := do
  let node ← facts.node
  let labels ← captureError (inventoryLabels quote facts node)
  let s ← withConflicts facts request (baseSnapshot reference facts request { node with labels })
  match facts.reports with
  | .unsupported => .ok s
  | .failed err => .error (lit "decision snapshot: list accelerator reports: " ++ err)
  | .listed reports =>
    match selectReport request reports with
    | none => .ok s
    | some report => withReport quote reference digests facts nodeName report s

/-! ## What the snapshot keeps of the request -/

variable {quote lower : Str → Str} {reference : List Str → Str}
  {digests : Digests} {facts : DecisionFacts} {request : Decision.Request} {s s' : Snapshot}

theorem request_withConflicts (h : withConflicts facts request s = .ok s') :
    s'.request = s.request := by
  rw [withConflicts] at h
  split_ifs at h
  · cases h
    rfl
  split at h
  · cases h
  split at h
  all_goals cases h
  all_goals rfl

theorem request_withReport {nodeName : Str} {report : AcceleratorReport}
    (h : withReport quote reference digests facts nodeName report s = .ok s') :
    s'.request = s.request := by
  rw [withReport] at h
  split_ifs at h
  · cases h
    rfl
  -- neither the probe nor the profile touches the request
  rw [withProfile] at h
  split at h
  all_goals cases h
  all_goals
    rw [withProbe]
    split_ifs <;> rfl

theorem request_buildDecisionSnapshot {nodeName : Str}
    (h : buildDecisionSnapshot quote reference digests facts request nodeName = .ok s) :
    s.request = request := by
  obtain ⟨_, -, h⟩ := bind_ok_iff.1 h
  obtain ⟨_, -, h⟩ := bind_ok_iff.1 h
  obtain ⟨s0, hconflicts, h⟩ := bind_ok_iff.1 h
  have hbase : s0.request = request := request_withConflicts hconflicts
  split at h
  · cases h
    exact hbase
  · cases h
  split at h
  · cases h
    exact hbase
  · exact (request_withReport h).trans hbase

/-! ## The two gates -/

structure ResetRequest (request : Decision.Request) (target : Target) : Prop where
  cls : request.cls = .remediate ∨ request.cls = .autonomous
  action : request.acceleratorAction = .resetDevice
  scope : request.scope = .physicalDevice
  device : request.targetDeviceID = target.gpuUUID
  named : target.gpuUUID ≠ []

/-- **When an eligible reset passes the live gate.** An eligible request for the reset of a device
has a report and a profile, and the live gate accepts them exactly when the report was made by the
node object of the snapshot and lists the target as a GPU. -/
theorem eligible_reset_iff {quote lower : Str → Str}
    {reference : List Str → Str} {digests : Digests} {facts : DecisionFacts}
    {request : Decision.Request} {nodeName : Str} {target : Target}
    (hreset : ResetRequest request target) {s : Snapshot}
    (hbuild : buildDecisionSnapshot quote reference digests facts request nodeName = .ok s)
    (heligible : (evaluate quote lower digests s).state = .eligible) :
    ∃ report profile, s.report = some report ∧ s.profile = some profile ∧
      (checkNVIDIAResetEvidence quote s.evaluatedAt profile report s.node.uid target = .ok () ↔
        report.nodeUID = s.node.uid ∧
          ∃ d ∈ report.devices, d.id = target.gpuUUID ∧ d.family = .gpu) := by
  have hrequest := request_buildDecisionSnapshot hbuild
  obtain ⟨report, profile, hreport, hprofile, hcheck, -⟩ := eligible_checks heligible
    (by rw [hrequest]; exact hreset.cls) (by rw [hrequest, hreset.action]; decide)
  rw [hrequest, hreset.action, hreset.scope] at hcheck
  refine ⟨report, profile, hreport, hprofile, ?_⟩
  -- a report that declares the reset has no partitions
  obtain ⟨_, hchecked, hallowed⟩ := bind_ok_iff.1 hcheck
  simp only [require_bind_ok] at hallowed
  have hphysical :=
    physical_of_validate (RuntimeProfile.checkReport_iff.1 hchecked).1.2 hallowed.2.1
  rw [checkNVIDIAResetEvidence, require_bind_ok, hcheck, decide_eq_true_eq]
  refine and_congr_right fun _ => ?_
  show require _ _ = .ok () ↔ _
  rw [require_ok, List.any_eq_true]
  constructor
  · rintro ⟨d, hd, hfound⟩
    simp only [Bool.and_eq_true, decide_eq_true_eq] at hfound
    exact ⟨d, hd, hfound.1.1, hfound.2⟩
  rintro ⟨d, hd, hid, hfamily⟩
  refine ⟨d, hd, ?_⟩
  simp only [Bool.and_eq_true, decide_eq_true_eq]
  exact ⟨⟨hid, hphysical d hd⟩, hfamily⟩

/-! ## Two reports -/

/-- A quiet node with the sample profile and the given report. -/
def sampleFacts (report : AcceleratorReport) : DecisionFacts :=
  ⟨.ok ⟨lit "node-1", lit "uid-2", StrMap.empty, false, 100, []⟩,
    some (.ok (some (KeyMap.ofEntries [(lit "gpu", lit "yes")]))), 200, lit "digest", StrMap.empty,
    [sampleProfile], false, false, .ok [], .active false, .listed [report]⟩

/-- The device of the sample report. -/
def resetTarget : Target := ⟨lit "node-1", lit "GPU-1", 0, []⟩

def sampleSnapshot (report : AcceleratorReport) : Except Str Snapshot :=
  buildDecisionSnapshot id (fun _ => []) noDigests (sampleFacts report) resetRequest (lit "node-1")

/-- A report of the current node object that lists the target as a GPU passes both gates. -/
theorem current_gpu_passes :
    ∃ s report profile, sampleSnapshot (sampleReport (lit "uid-2") .gpu) = .ok s ∧
      (evaluate id id noDigests s).state = .eligible ∧ s.report = some report ∧
      s.profile = some profile ∧
      (checkNVIDIAResetEvidence id s.evaluatedAt profile report s.node.uid resetTarget = .ok () ↔
        report.nodeUID = s.node.uid ∧
          ∃ d ∈ report.devices, d.id = resetTarget.gpuUUID ∧ d.family = .gpu) := by
  obtain ⟨s, hs, heligible⟩ : ∃ s, (sampleSnapshot (sampleReport (lit "uid-2") .gpu)).toOption =
      some s ∧ (evaluate id id noDigests s).state = .eligible := by decide +kernel
  have hbuild := eq_ok_of_toOption hs
  have hreset : ResetRequest resetRequest resetTarget := ⟨.inl rfl, rfl, rfl, rfl, by decide⟩
  obtain ⟨report, profile, hreport, hprofile, hiff⟩ := eligible_reset_iff hreset hbuild heligible
  exact ⟨s, report, profile, hbuild, heligible, hreport, hprofile, hiff⟩

/-- The evaluator finds the reset eligible on a report of a node object that is gone, and on a
target that is a TPU; the live gate refuses both. -/
theorem eligible_reset_is_refused :
    [sampleReport (lit "uid-1") .gpu, sampleReport (lit "uid-2") .tpu].Forall fun report =>
      ∃ s, (sampleSnapshot report).toOption = some s ∧
        (evaluate id id noDigests s).state = .eligible ∧ s.report = some report ∧
        s.profile = some sampleProfile ∧ (checkNVIDIAResetEvidence id s.evaluatedAt sampleProfile
          report s.node.uid resetTarget).isOk = false := by
  decide +kernel

end KubeNeuron.Controller
