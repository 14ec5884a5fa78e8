import KubeNeuron.Controller.ResetGate
import KubeNeuron.Store.ActionSafety

/-!
# The evidence of a resolution

A remediated GPU resolves on a heartbeat and an accelerator report. `resolved_evidence_iff` says
when a resolution rests on both: `verifyRuntimeEvidence` does not ask which node object made the
report, and takes a read that fails for a report that does not exist.
-/

namespace KubeNeuron.Controller

open Lib KubeNeuron.Types Accelerator Store

/-! ## The check -/

/-- What `verifyRuntimeEvidence` reads. `node` is the row of the node when it can be read, and
`reread` the second read of it; `inventory` is the listing of the platform, and `stored` the reports
by node and vendor, of which a read fails when `unreadable`. -/
structure EvidenceFacts where
  now : Int
  node : Option Decision.Node
  reread : Option Decision.Node
  inventory : Option (List (Str × StrMap))
  profiles : List RuntimeProfile
  reportStore : Bool
  stored : Str → Str → Option AcceleratorReport
  unreadable : Bool

namespace EvidenceFacts

variable (quote : Str → Str) (facts : EvidenceFacts)

def nodeLabels (node : Str) : Option StrMap :=
  match facts.reread.filter fun n => n.labels.entries ≠ [] with
  | some n => some n.labels
  | none => facts.inventory.bind fun nodes => (nodes.find? fun n => n.1 = node).map Prod.snd

def acceleratorObservationProfile (node vendor : Str) :
    Except Str (Option RuntimeProfile) :=
  if node = [] || !vendorValid vendor then
    .error (lit "accelerator observation profile requires node and supported vendor")
  else
    match facts.nodeLabels node with
    | none => .error (lit "node labels are unavailable for runtime profile selection")
    | some labels =>
      match resolveAcceleratorRuntimeProfile quote facts.profiles labels vendor with
      | .ok profile => .ok (some profile)
      | .error (.noProfile _) => .ok none
      | .error (.ambiguous err) => .error err
      | .error (.invalid err) => .error err

/-- `verifyWithoutCurrentReport`: a missing report counts when nobody was told to make one. -/
def verifyWithoutCurrentReport (inc : Incident) (vendor absence : Str) : Bool × Str :=
  match facts.acceleratorObservationProfile quote inc.target.node vendor with
  | .error err =>
    (false, absence ++ lit "; cannot tell whether a runtime profile selects the node: " ++ err)
  | .ok (some _) => (false, absence)
  | .ok none =>
    (true, lit "verified on the agent heartbeat: no " ++ vendor ++
      lit " accelerator runtime profile selects the node, so its agent holds observation and no report can exist")

/-- An unknown vendor reads the NVIDIA report. -/
def reportVendor (inc : Incident) : Str :=
  if vendorValid inc.vendor then inc.vendor else lit "nvidia"

/-- The report lists the target as a physical GPU. -/
def lists (report : AcceleratorReport) (target : Target) : Bool :=
  report.devices.any fun d => d.id = target.gpuUUID && d.kind = .physical && d.family = .gpu

def verifyRuntimeEvidence (inc : Incident) : Bool × Str :=
  match facts.node with
  | none => (false, lit "node is not registered")
  | some node =>
    if zeroTime node.agentLastSeen || sub facts.now node.agentLastSeen > verifyEvidenceMaxAge then
      (false, lit "agent heartbeat is stale")
    else if !inc.target.isGPU then (true, [])
    -- NVIDIA is the one vendor with a runtime adapter
    else if vendorValid inc.vendor && inc.vendor ≠ lit "nvidia" then
      (true, lit "verified on the agent heartbeat: this build has no " ++ inc.vendor ++
        lit " runtime adapter")
    else if !facts.reportStore then (false, lit "accelerator report store is not configured")
    else
      match if facts.unreadable then none else facts.stored inc.target.node (reportVendor inc) with
      | none => facts.verifyWithoutCurrentReport quote inc (reportVendor inc)
          (lit "no " ++ reportVendor inc ++ lit " accelerator report for the node")
      | some report =>
        if sub facts.now report.observedAt > verifyEvidenceMaxAge then
          facts.verifyWithoutCurrentReport quote inc (reportVendor inc)
            (lit "accelerator report is stale")
        else if report.readiness ≠ .ready then
          (false, lit "accelerator runtime is " ++ report.readiness.text ++ lit ", not ready")
        else if lists report inc.target then (true, [])
        else (false,
          lit "GPU " ++ inc.target.gpuUUID ++ lit " is missing from the current inventory")

/-! ## What it rests on -/

/-- The report that is stored for the incident, when it is at most five minutes old. -/
def current (inc : Incident) : Option AcceleratorReport :=
  (facts.stored inc.target.node (reportVendor inc)).filter fun r =>
    facts.now - r.observedAt ≤ verifyEvidenceMaxAge

/-- No profile selects the node, by the labels that are found for it. -/
def Unselected (inc : Incident) : Prop :=
  ∃ labels ∈ facts.nodeLabels inc.target.node, ∀ p ∈ facts.profiles,
    p.vendor = reportVendor inc → p.matchesLabels labels = false

/-- The node was heard of in the last five minutes, and its current report attests the device; or
there is no current report and no profile asks for one. -/
def Attested (inc : Incident) : Prop :=
  ∃ node ∈ facts.node, facts.now - node.agentLastSeen ≤ verifyEvidenceMaxAge ∧
    ((∃ report ∈ facts.current inc, report.readiness = .ready ∧ report.nodeUID = node.uid ∧
        lists report inc.target = true) ∨
      (facts.current inc = none ∧ facts.Unselected inc))

/-- The current report was made by the node object that is stored, and one that cannot be read
attests the device. -/
def OwnReport (inc : Incident) : Prop :=
  ∀ report ∈ facts.current inc, (∀ node ∈ facts.node, report.nodeUID = node.uid) ∧
    (facts.unreadable = true → report.readiness = .ready ∧ lists report inc.target = true)

instance (inc : Incident) : Decidable (facts.Attested inc) :=
  inferInstanceAs (Decidable (∃ node ∈ facts.node, _ ∧ (_ ∨ _ ∧ ∃ labels ∈ _, _)))

variable {quote : Str → Str} {facts : EvidenceFacts} {inc : Incident}

theorem sub_le_iff (t u : Int) :
    sub t u > verifyEvidenceMaxAge ↔ ¬ t - u ≤ verifyEvidenceMaxAge := by
  simp only [sub, maxDuration, verifyEvidenceMaxAge]
  omega

/-- The resolver says that nothing is selected only when no profile selects the labels. -/
theorem unselected_of_resolve {labels : StrMap} {vendor err : Str} {profiles : List RuntimeProfile}
    {matched : Option RuntimeProfile}
    (h : resolveFrom quote labels vendor matched profiles = .error (.noProfile err)) :
    matched = none ∧ ∀ p ∈ profiles, p.vendor = vendor → p.matchesLabels labels = false := by
  fun_induction resolveFrom quote labels vendor matched profiles with
  | case2 => exact ⟨rfl, List.forall_mem_nil _⟩
  | case4 _ _ _ _ _ hskip ih =>
    refine ⟨(ih h).1, List.forall_mem_cons.2 ⟨fun hv => ?_, (ih h).2⟩⟩
    simpa [hv] using hskip
  -- a profile that has matched is kept to the end
  | case6 _ _ _ _ _ ih => cases (ih h).1
  | _ => cases h

theorem verifyWithoutCurrentReport_ok {absence : Str}
    (h : (facts.verifyWithoutCurrentReport quote inc (reportVendor inc) absence).1 = true) :
    facts.Unselected inc := by
  unfold verifyWithoutCurrentReport at h
  split at h
  · cases h
  · cases h
  rename_i hp
  revert hp
  fun_cases acceleratorObservationProfile quote facts inc.target.node (reportVendor inc) with
  | case4 _ labels hlab _ hr => exact fun _ => ⟨labels, hlab, (unselected_of_resolve hr).2⟩
  | _ => rintro ⟨⟩

/-- What a positive answer rests on: a heartbeat, and a current report that was read, is ready and
lists the device, or no profile where no current report could be read. -/
theorem verifyRuntimeEvidence_ok (hgpu : inc.target.isGPU = true)
    (hv : inc.vendor = lit "nvidia" ∨ vendorValid inc.vendor = false)
    (h : (facts.verifyRuntimeEvidence quote inc).1 = true) :
    ∃ node ∈ facts.node, facts.now - node.agentLastSeen ≤ verifyEvidenceMaxAge ∧
      ((facts.unreadable = false ∧ ∃ report ∈ facts.current inc,
          report.readiness = .ready ∧ lists report inc.target = true) ∨
        ((facts.unreadable = true ∨ facts.current inc = none) ∧ facts.Unselected inc)) := by
  have hadapter : (vendorValid inc.vendor && decide (inc.vendor ≠ lit "nvidia")) = false := by
    obtain hnvidia | hunk := hv
    · simp [hnvidia]
    · simp [hunk]
  unfold verifyRuntimeEvidence at h
  split at h
  · cases h
  rename_i node hn
  simp only [hgpu, hadapter, Bool.not_true, Bool.false_eq_true, if_false] at h
  split at h
  · cases h
  rename_i hstale
  rw [Bool.or_eq_true, decide_eq_true_eq, sub_le_iff, not_or, not_not] at hstale
  refine ⟨node, hn, hstale.2, ?_⟩
  split_ifs at h with hs hunr
  · exact .inr ⟨.inl hunr, verifyWithoutCurrentReport_ok h⟩
  unfold current
  split at h
  next h0 =>
    rw [h0]
    exact .inr ⟨.inr rfl, verifyWithoutCurrentReport_ok h⟩
  rename_i report hr
  rw [hr, Option.filter_some]
  split_ifs at h with hold hy hlists
  · rw [if_neg (by simpa [sub_le_iff] using hold)]
    exact .inr ⟨.inr rfl, verifyWithoutCurrentReport_ok h⟩
  · rw [if_pos (by simpa [sub_le_iff] using hold)]
    exact Or.inl ⟨by simpa using hunr, report, rfl, not_not.1 hy, hlists⟩

end EvidenceFacts

/-- **When a resolution rests on its evidence.** The move of a real incident on a GPU of NVIDIA or
of an unknown vendor from verification to resolution is attested exactly when the current report is
one of the stored node object, and a current report that cannot be read attests the device. -/
theorem resolved_evidence_iff {quote : Str → Str} {facts : EvidenceFacts}
    {cfg : RuntimeConfig} {t : Tick} {inc : Incident} {m : Move} {cancel : Bool}
    (hevidence : t.evidence = facts.verifyRuntimeEvidence quote inc)
    (hlive : cfg.effectiveDryRun inc = false) (hgpu : inc.target.isGPU = true)
    (hvendor : inc.vendor = lit "nvidia" ∨ vendorValid inc.vendor = false)
    (hmove : advanceVerifying cfg t inc = .move m cancel) (hdest : m.dest = .resolved) :
    facts.Attested inc ↔ facts.OwnReport inc := by
  have hok : (facts.verifyRuntimeEvidence quote inc).1 = true := by
    rw [← hevidence]
    by_contra hno
    rw [advanceVerifying, hlive] at hmove
    simp only [Bool.not_false, Bool.true_and, hno] at hmove
    split_ifs at hmove
    · exact (escalate_within cfg inc _).not_resolved (by decide) hmove hdest
    · cases hmove
      cases hdest
  obtain ⟨node, hnode, hseen, hcases⟩ := EvidenceFacts.verifyRuntimeEvidence_ok hgpu hvendor hok
  constructor
  · rintro ⟨node', hnode', -, ⟨report, hreport, hready, huid, hlists⟩ | ⟨hnone, -⟩⟩ report' hreport'
    · cases hreport.symm.trans hreport'
      cases hnode.symm.trans hnode'
      refine ⟨fun n hn => ?_, fun _ => ⟨hready, hlists⟩⟩
      cases hnode.symm.trans hn
      exact huid
    · rw [hnone] at hreport'
      cases hreport'
  · intro hown
    refine ⟨node, hnode, hseen, ?_⟩
    obtain ⟨-, report, hreport, hready, hlists⟩ | ⟨hmissing, hunselected⟩ := hcases
    · exact .inl ⟨report, hreport, hready, (hown report hreport).1 node hnode, hlists⟩
    cases hcurrent : facts.current inc with
    | none => exact .inr ⟨rfl, hunselected⟩
    | some report =>
      obtain ⟨huid, hattests⟩ := hown report hcurrent
      obtain hunreadable | hnone := hmissing
      · obtain ⟨hready, hlists⟩ := hattests hunreadable
        exact .inl ⟨report, rfl, hready, huid node hnode, hlists⟩
      · cases hcurrent.symm.trans hnone

/-- The sample node, which the sample profile selects, with a report of the given node object. -/
def verifiedNode (uid : Str) : EvidenceFacts :=
  { now := 200
    node := some ⟨lit "node-1", lit "uid-2", KeyMap.ofEntries [(lit "gpu", lit "yes")], false,
      100, []⟩
    reread := some ⟨lit "node-1", lit "uid-2", KeyMap.ofEntries [(lit "gpu", lit "yes")], false,
      100, []⟩
    inventory := none
    profiles := [sampleProfile]
    reportStore := true
    stored := fun _ _ => some (sampleReport uid .gpu)
    unreadable := false }

/-- A remediated incident on the device of the sample report. -/
def verifyingGPU : Incident :=
  { sampleIncident .verifying with target := resetTarget, vendor := lit "nvidia" }

def evidenceTick (facts : EvidenceFacts) : Tick :=
  { sampleTick 200 with evidence := facts.verifyRuntimeEvidence id verifyingGPU }

/-- The report of the stored node object attests the resolution. -/
theorem own_report_attests : (verifiedNode (lit "uid-2")).Attested verifyingGPU := by
  have hown : (verifiedNode (lit "uid-2")).OwnReport verifyingGPU := by
    rintro _ ⟨⟩
    refine ⟨?_, nofun⟩
    rintro _ ⟨⟩
    rfl
  exact (@resolved_evidence_iff id (verifiedNode (lit "uid-2")) (sampleConfig [])
    (evidenceTick (verifiedNode (lit "uid-2"))) verifyingGPU _ _ rfl rfl rfl
    (.inl rfl) rfl rfl).mpr hown

/-- **A report of a node object that is gone resolves the incident.** The machine was replaced under
its name, a profile asks for reports, and none was made since. -/
theorem foreign_report_resolves :
    ∃ m, advanceVerifying (sampleConfig [])
      (evidenceTick (verifiedNode (lit "uid-1"))) verifyingGPU =
        .move m false ∧ m.dest = .resolved ∧
          ¬(verifiedNode (lit "uid-1")).Attested verifyingGPU := by
  refine ⟨_, rfl, rfl, ?_⟩
  decide +kernel

end KubeNeuron.Controller
