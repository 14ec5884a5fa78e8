import KubeNeuron.Accelerator.Profile
import Mathlib.Tactic.Tauto

/-!
# Coverage by the runtime contract

`AssessRuntimeContractCoverage` repeats the checks of `CheckReport` one by one, to name every
finding, and asks `CheckReport` itself last. The two gates agree, so the last question never rejects
a report by itself, and a node is fully covered just when there is no finding.
-/

namespace KubeNeuron.Accelerator

open Lib KubeNeuron.Types

/-- The reason codes, in the order of `runtimeContractReasonOrder`. -/
inductive ReasonCode where
  | evaluationTimeMissing | nodeIdentityMissing | vendorInvalid | profileInvalid | profileOverlap
  | profileNotFound | reportMissing | reportInvalid | reportNodeMismatch | reportVendorMismatch
  | reportProfileDigestMismatch | reportProfileRevisionMismatch | reportDriverVersionMismatch
  | reportRuntimeVersionMismatch | reportObservedInFuture | reportStale | reportNotReady
  | reportRejected
  | agentNeverSeen | agentHeartbeatInFuture | agentHeartbeatStale
  deriving DecidableEq

/-- How the profiles relate to the node. An exact selection identifies its profile. -/
inductive Selection where
  | exactly (profile : RuntimeProfile)
  | uncovered | ambiguous | invalid

inductive Attestation where
  | freshCompatible | missing | stale | mismatch | notApplicable
  deriving DecidableEq

inductive VerificationDepth where
  | full | reduced | unavailable
  deriving DecidableEq

structure CoverageInput where
  now : Int
  nodeName : Str
  nodeUID : Str
  nodeLabels : StrMap
  vendor : Str
  agentLastSeen : Int
  agentMaxAge : Int
  report : Option AcceleratorReport
  profiles : List RuntimeProfile

structure Coverage where
  selection : Selection
  attestation : Attestation
  verificationDepth : VerificationDepth
  reasons : List ReasonCode

/-- The code, unless the condition holds. -/
def finding (ok : Bool) (code : ReasonCode) : List ReasonCode := if ok then [] else [code]

def orderReasons (set : List ReasonCode) : List ReasonCode :=
  ((List.range 21).map ReasonCode.ofNat).filter set.contains

def verificationDepth (agentHealthy : Bool) : Selection → Attestation → VerificationDepth
  | .exactly _, .freshCompatible => if agentHealthy then .full else .unavailable
  | .exactly _, _ | .uncovered, _ => if agentHealthy then .reduced else .unavailable
  | .ambiguous, _ | .invalid, _ => .unavailable

namespace CoverageInput

variable (quote : Str → Str) (i : CoverageInput) (p : RuntimeProfile) (r : AcceleratorReport)

def inputFindings : List ReasonCode :=
  finding (!zeroTime i.now) .evaluationTimeMissing ++
    finding (trimSpace i.nodeName ≠ []) .nodeIdentityMissing ++
      finding (vendorValid i.vendor) .vendorInvalid

/-- The finding of `assessRuntimeContractHeartbeat`, if any. -/
def assessHeartbeat : List ReasonCode :=
  if zeroTime i.agentLastSeen then [.agentNeverSeen]
  else if i.now < i.agentLastSeen then [.agentHeartbeatInFuture]
  else finding (sub i.now i.agentLastSeen ≤
    if i.agentMaxAge ≤ 0 then 10 * 60 * 1000000000 else i.agentMaxAge) .agentHeartbeatStale

def select : Selection × List ReasonCode :=
  if i.inputFindings ≠ [] then (.invalid, [])
  else
    match resolveAcceleratorRuntimeProfile quote i.profiles i.nodeLabels i.vendor with
    | .ok p => (.exactly p, [])
    | .error (.ambiguous _) => (.ambiguous, [.profileOverlap])
    | .error (.noProfile _) => (.uncovered, [.profileNotFound])
    | .error (.invalid _) => (.invalid, [.profileInvalid])

/-- The findings that make the report a mismatch. -/
def mismatches : List ReasonCode :=
  finding (r.node = i.nodeName && r.nodeUID = i.nodeUID) .reportNodeMismatch ++
    finding (r.vendor = p.vendor) .reportVendorMismatch ++
    finding (r.profileDigest = p.profileDigest) .reportProfileDigestMismatch ++
    finding (r.profileUID = p.profileUID && r.profileGeneration = p.profileGeneration)
      .reportProfileRevisionMismatch ++
    finding (r.driverVersion = p.driverVersion) .reportDriverVersionMismatch ++
    finding (runtimeVersionSatisfies r.runtimeVersion p.runtimeVersion)
      .reportRuntimeVersionMismatch ++
    finding (r.readiness = .ready) .reportNotReady

/-- The findings that make the report stale. -/
def ages : List ReasonCode :=
  if i.now < r.observedAt then [.reportObservedInFuture]
  else finding (sub i.now r.observedAt ≤ p.maxReportAge) .reportStale

def assessAttestation : Attestation × List ReasonCode :=
  match i.report with
  | none => (.missing, [.reportMissing])
  | some r =>
    match r.validate quote with
    | .error _ => (.mismatch, [.reportInvalid])
    | .ok _ =>
      if i.mismatches p r ≠ [] then (.mismatch, i.mismatches p r ++ i.ages p r)
      else if i.ages p r ≠ [] then (.stale, i.ages p r)
      else
        match p.checkReport quote i.now r with
        | .error _ => (.mismatch, [.reportRejected])
        | .ok _ => (.freshCompatible, [])

/-- Without a selected profile there is nothing to attest. -/
def attest : Selection → Attestation × List ReasonCode
  | .exactly p => i.assessAttestation quote p
  | .uncovered | .ambiguous | .invalid => (.notApplicable, [])

def assessRuntimeContractCoverage : Coverage where
  selection := (i.select quote).1
  attestation := (i.attest quote (i.select quote).1).1
  verificationDepth := verificationDepth (!zeroTime i.now && i.assessHeartbeat = [])
    (i.select quote).1
    (i.attest quote (i.select quote).1).1
  reasons := orderReasons (i.inputFindings ++ (if zeroTime i.now then [] else i.assessHeartbeat) ++
    (i.select quote).2 ++ (i.attest quote (i.select quote).1).2)

end CoverageInput

variable {quote : Str → Str} {i : CoverageInput} {p : RuntimeProfile} {r : AcceleratorReport}
  {ok : Bool} {code : ReasonCode} {set : List ReasonCode}

@[simp] theorem finding_eq_nil : finding ok code = [] ↔ ok = true := by
  cases ok <;> simp [finding]

@[simp] theorem mem_finding {c : ReasonCode} : c ∈ finding ok code ↔ ok = false ∧ c = code := by
  cases ok <;> simp [finding]

@[simp] theorem mem_orderReasons : code ∈ orderReasons set ↔ code ∈ set := by
  have hall : code ∈ (List.range 21).map ReasonCode.ofNat := by cases code <;> decide
  simp [orderReasons, List.mem_filter, hall]

@[simp] theorem orderReasons_eq_nil : orderReasons set = [] ↔ set = [] := by
  simp [List.eq_nil_iff_forall_not_mem]

theorem verificationDepth_eq_full {selection : Selection} {attestation : Attestation} :
    verificationDepth ok selection attestation = .full ↔
      ok = true ∧ (∃ p, selection = .exactly p) ∧ attestation = .freshCompatible := by
  cases ok <;> cases selection <;> cases attestation <;> simp [verificationDepth]

/-- Every profile that is looked at is validated first. -/
theorem validate_of_resolveFrom {labels : StrMap} {vendor : Str} {matched : Option RuntimeProfile}
    {ps : List RuntimeProfile} (hm : ∀ m ∈ matched, m.validate quote = .ok ())
    (h : resolveFrom quote labels vendor matched ps = .ok p) : p.validate quote = .ok () := by
  fun_induction resolveFrom quote labels vendor matched ps with
  | case1 m =>
    cases h
    exact hm p rfl
  | case4 matched q qs _ hq _ ih => exact ih hm h
  | case6 q qs _ hq _ ih =>
    refine ih ?_ h
    rintro _ ⟨⟩
    exact hq
  | _ => cases h

theorem ages_eq_nil :
    i.ages p r = [] ↔ r.observedAt ≤ i.now ∧ sub i.now r.observedAt ≤ p.maxReportAge := by
  rw [CoverageInput.ages]
  split_ifs with h
  · simp [Int.not_le.2 h]
  · simp [Int.not_lt.1 h]

/-- **The findings agree with the gate.** -/
theorem findings_eq_nil_iff (hn : zeroTime i.now = false) (hp : p.validate quote = .ok ())
    (hr : r.validate quote = .ok ()) : i.mismatches p r = [] ∧ i.ages p r = [] ↔
      (r.node = i.nodeName ∧ r.nodeUID = i.nodeUID) ∧ p.checkReport quote i.now r = .ok () := by
  rw [RuntimeProfile.checkReport_iff, ages_eq_nil]
  simp only [CoverageInput.mismatches, RuntimeProfile.checkFacts, hp, hr, hn,
    List.append_eq_nil_iff, finding_eq_nil, require_bind_ok, require_ok, Bool.and_eq_true,
    decide_eq_true_eq]
  tauto

theorem assessAttestation_spec (hn : zeroTime i.now = false) (hp : p.validate quote = .ok ()) :
    ((i.assessAttestation quote p).1 = .freshCompatible ↔ ∃ r, i.report = some r ∧
      (r.node = i.nodeName ∧ r.nodeUID = i.nodeUID) ∧ p.checkReport quote i.now r = .ok ()) ∧
    ((i.assessAttestation quote p).1 = .freshCompatible ↔ (i.assessAttestation quote p).2 = []) ∧
    .reportRejected ∉ (i.assessAttestation quote p).2 := by
  have hages : ∀ r, .reportRejected ∉ i.ages p r := fun r => by
    rw [CoverageInput.ages]
    split_ifs <;> simp
  have hmism : ∀ r, .reportRejected ∉ i.mismatches p r :=
    fun r => by simp [CoverageInput.mismatches]
  fun_cases CoverageInput.assessAttestation quote i p with
  | case1 hreport => simp [hreport]
  | case2 r hreport err hv =>
    refine ⟨?_, by simp, by simp⟩
    simp only [reduceCtorEq, false_iff]
    rintro ⟨_, hs, -, hc⟩
    cases hreport.symm.trans hs
    cases hv.symm.trans (RuntimeProfile.checkReport_iff.1 hc).1.2
  | case3 r hreport _ hv | case4 r hreport _ hv | case5 r hreport _ hv | case6 r hreport _ hv =>
    have hgate := findings_eq_nil_iff (i := i) hn hp hv
    simp_all

/-- The inputs that the assessment needs: an instant, a node name and a known vendor. -/
def CoverageInput.Usable (i : CoverageInput) : Prop :=
  zeroTime i.now = false ∧ trimSpace i.nodeName ≠ [] ∧ vendorValid i.vendor = true

theorem inputFindings_eq_nil : i.inputFindings = [] ↔ i.Usable := by
  simp [CoverageInput.inputFindings, CoverageInput.Usable]

/-- A profile is selected exactly when the resolver finds it, for a usable input. -/
theorem select_eq_exactly : (i.select quote).1 = .exactly p ↔ i.Usable ∧
    resolveAcceleratorRuntimeProfile quote i.profiles i.nodeLabels i.vendor = .ok p := by
  rw [← inputFindings_eq_nil]
  fun_cases CoverageInput.select quote i <;> simp_all

/-- **Coverage agrees with the gate.** For every input: when the resolver finds one profile for a
usable input, that profile is selected, and the attestation is fresh and compatible just when there
is a report, for this node and this node object, that `CheckReport` of the profile accepts at the
instant; no report is rejected by that last question alone; and the depth is full just when there
are no reasons. -/
theorem assessRuntimeContractCoverage_agrees (quote : Str → Str) (i : CoverageInput) :
    (∀ p, i.Usable →
      resolveAcceleratorRuntimeProfile quote i.profiles i.nodeLabels i.vendor = .ok p →
      (i.assessRuntimeContractCoverage quote).selection = .exactly p ∧
      ((i.assessRuntimeContractCoverage quote).attestation = .freshCompatible ↔
        ∃ r, i.report = some r ∧
        (r.node = i.nodeName ∧ r.nodeUID = i.nodeUID) ∧ p.checkReport quote i.now r = .ok ())) ∧
    .reportRejected ∉ (i.assessRuntimeContractCoverage quote).reasons ∧
    ((i.assessRuntimeContractCoverage quote).verificationDepth = .full ↔
      (i.assessRuntimeContractCoverage quote).reasons = []) := by
  have hearly : .reportRejected ∉
      i.inputFindings ++ if zeroTime i.now then [] else i.assessHeartbeat := by
    simp only [CoverageInput.inputFindings, CoverageInput.assessHeartbeat]
    split_ifs <;> simp
  -- what is selected was found valid, at a time that is known
  have hspec : ∀ p, i.Usable →
      resolveAcceleratorRuntimeProfile quote i.profiles i.nodeLabels i.vendor = .ok p → _ :=
    fun p husable hres =>
      assessAttestation_spec husable.1 (validate_of_resolveFrom (by rintro _ ⟨⟩) hres)
  constructor
  · intro p husable hres
    have hsel := select_eq_exactly.2 ⟨husable, hres⟩
    simp only [CoverageInput.assessRuntimeContractCoverage, hsel, CoverageInput.attest]
    exact ⟨trivial, (hspec p husable hres).1⟩
  simp only [CoverageInput.assessRuntimeContractCoverage, mem_orderReasons, orderReasons_eq_nil,
    verificationDepth_eq_full, List.append_eq_nil_iff]
  fun_cases CoverageInput.select quote i with
  | case2 hin p hres =>
    have husable := inputFindings_eq_nil.1 (not_not.1 hin)
    obtain ⟨-, hnone, hrej⟩ := hspec p husable hres
    have hnow := husable.1
    constructor
    · simp_all [CoverageInput.attest]
    · simp_all [CoverageInput.attest]
  | _ => simp_all [CoverageInput.attest]

/-- A node with the sample profile and a report of its own. -/
def coveredNode : CoverageInput :=
  ⟨200, lit "node-1", lit "uid-2", KeyMap.ofEntries [(lit "gpu", lit "yes")], lit "nvidia", 100, 0,
    some (sampleReport (lit "uid-2") .gpu), [sampleProfile]⟩

/-- The sample profile is selected for the node, and its report is accepted. -/
theorem coveredNode_agrees :
    (coveredNode.assessRuntimeContractCoverage id).selection = .exactly sampleProfile ∧
      (coveredNode.assessRuntimeContractCoverage id).attestation = .freshCompatible := by
  obtain ⟨hsel, hiff⟩ := (assessRuntimeContractCoverage_agrees id coveredNode).1 sampleProfile
    ⟨by decide, by decide, by decide⟩ (eq_ok_of_toOption (by decide +kernel))
  exact ⟨hsel, hiff.2 ⟨_, rfl, ⟨rfl, rfl⟩, by decide +kernel⟩⟩

end KubeNeuron.Accelerator
