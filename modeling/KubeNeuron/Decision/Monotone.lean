import KubeNeuron.Decision.Horizon

/-!
# Worse facts never help

A snapshot gets worse when a flag is raised, an approval is withdrawn or asked for, a source is
required, evidence is withdrawn or dated back, or the report loses a capability, a device or its
readiness. No such change makes a snapshot eligible (`not_eligible_of_worse`). An instant that is
dated back has to be a recorded one: the zero time stands for no instant at all, and what is before
it is one (`eligible_before_zero`).
-/

namespace KubeNeuron.Decision

open Lib KubeNeuron.Types Accelerator

variable {quote lower : Str → Str} {digests : Digests} {s s' : Snapshot} {t o o' : Int}
  {p : RuntimeProfile} {r r' : AcceleratorReport}

/-- The instant stays, or it is recorded and past and moves further into the past. -/
def Earlier (t old new : Int) : Prop := new = old ∨ zeroTime old = false ∧ old ≤ t ∧ new ≤ old

/-- The report loses capabilities, devices or its readiness, with any reasons for that, or was
observed earlier. -/
structure WorseReport (t : Int) (r r' : AcceleratorReport) : Prop where
  same : r' = { r with
    capabilities := r'.capabilities, devices := r'.devices, readiness := r'.readiness
    readinessReasons := r'.readinessReasons, observedAt := r'.observedAt }
  capabilities : ∀ c ∈ r'.capabilities, c ∈ r.capabilities
  devices : ∀ d ∈ r'.devices, d ∈ r.devices
  readiness : r'.readiness = r.readiness ∨ r'.readiness ≠ .ready
  observedAt : Earlier t r.observedAt r'.observedAt

/-- One change for the worse. -/
inductive Worse (s : Snapshot) : Snapshot → Prop
  | flags (stop pause freeze excluded owned conflict exhausted : Bool) : Worse s { s with
      emergencyStop := s.emergencyStop || stop
      globalPaused := s.globalPaused || pause
      changeFreeze := s.changeFreeze || freeze
      selectorExcluded := s.selectorExcluded || excluded
      ownershipConflict := s.ownershipConflict || owned
      incidentConflict := s.incidentConflict || conflict
      autonomyBudgetExhausted := s.autonomyBudgetExhausted || exhausted }
  | approvals (required maintenance granted elevated budget : Bool) : Worse s { s with
      request := { s.request with
        approvalRequired := s.request.approvalRequired || required
        maintenanceRequired := s.request.maintenanceRequired || maintenance
        approvalGranted := s.request.approvalGranted && granted
        elevatedAuthorizationGranted := s.request.elevatedAuthorizationGranted && elevated
        disruptionBudgetApproved := s.request.disruptionBudgetApproved && budget } }
  | sources (sources : List Str) (more : ∀ x ∈ s.requiredEvidenceSources, x ∈ sources) :
      Worse s { s with requiredEvidenceSources := sources }
  | refs (refs : List EvidenceRef) (fewer : ∀ x ∈ refs, ∃ y ∈ s.evidenceRefs,
      y.source = x.source ∧ Earlier s.evaluatedAt y.observedAt x.observedAt) :
      Worse s { s with evidenceRefs := refs }
  | heartbeat (o : Int) (past : Earlier s.evaluatedAt s.node.agentLastSeen o) :
      Worse s { s with node := { s.node with agentLastSeen := o } }
  | report (r r' : AcceleratorReport) (found : s.report = some r)
      (worse : WorseReport s.evaluatedAt r r') : Worse s { s with report := some r' }

/-! ## Evidence -/

theorem old_of_earlier {age : Int} (h : Earlier t o o') (hf : o' ≤ t ∧ sub t o' ≤ age) :
    o ≤ t ∧ sub t o ≤ age := by
  obtain rfl | ⟨-, ht, hle⟩ := h
  · exact hf
  · refine ⟨ht, Int.le_trans ?_ hf.2⟩
    simp only [sub, maxDuration]
    omega

theorem fresh_of_earlier {age : Int} (h : Earlier t o o')
    (hf : zeroTime o' = false ∧ o' ≤ t ∧ sub t o' ≤ age) :
    zeroTime o = false ∧ o ≤ t ∧ sub t o ≤ age := by
  refine ⟨?_, old_of_earlier h hf.2⟩
  obtain rfl | ⟨hz, -⟩ := h
  · exact hf.1
  · exact hz

theorem sourceMissing_of_worse (h : s'.evidenceSourceMissing lower = false)
    (ha : s'.agentHealthy = true → s.agentHealthy = true)
    (hr : ∀ r' ∈ s'.report, s'.reportFresh r' = true →
      ∃ r ∈ s.report, r.vendor = r'.vendor ∧ s.reportFresh r = true)
    (he : ∀ x ∈ s'.evidenceRefs, ∃ y ∈ s.evidenceRefs,
      y.source = x.source ∧ Earlier s.evaluatedAt y.observedAt x.observedAt)
    (hm : ∀ x ∈ s.requiredEvidenceSources, x ∈ s'.requiredEvidenceSources)
    (ht : s'.evaluatedAt = s.evaluatedAt) (hx : s'.effectiveMaxAge = s.effectiveMaxAge) :
    s.evidenceSourceMissing lower = false := by
  simp only [Snapshot.evidenceSourceMissing, Snapshot.evidenceSourceFresh, List.any_eq_false,
    Bool.and_eq_true, Bool.not_eq_true', not_and, Bool.not_eq_false, Bool.or_eq_true,
    Option.any_eq_true, List.any_eq_true, decide_eq_true_eq] at h ⊢
  intro x hmem hne
  obtain (⟨hsrc, hh⟩ | ⟨r', hr', hsrc, hf⟩) | ⟨e, hmem', ⟨⟨hsrc, hz⟩, hle⟩, hage⟩ :=
    h x (hm x hmem) hne
  · exact .inl (.inl ⟨hsrc, ha hh⟩)
  · obtain ⟨r, hr, hv, hf⟩ := hr r' hr' hf
    exact .inl (.inr ⟨r, hr, hv ▸ hsrc, hf⟩)
  · obtain ⟨y, hy, hs, hE⟩ := he e hmem'
    rw [ht] at hle hage
    rw [hx] at hage
    obtain ⟨hz, hle, hage⟩ := fresh_of_earlier hE ⟨hz, hle, hage⟩
    exact .inr ⟨y, hy, ⟨⟨hs ▸ hsrc, hz⟩, hle⟩, hage⟩

/-! ## The gates -/

theorem allowedActions_of_worse (hw : WorseReport t r r') (hp : s.profile = some p)
    (hr : s.report = some r) (h : s.allowedActions = []) :
    ({ s with report := some r' } : Snapshot).allowedActions = [] := by
  rw [List.eq_nil_iff_forall_not_mem] at h ⊢
  intro a hm
  apply h a
  simp only [Snapshot.allowedActions, hp, hr, List.mem_insertionSort, List.mem_dedup, List.mem_map,
    List.mem_filter, List.any_eq_true] at hm ⊢
  obtain ⟨policy, ⟨hin, c, hc, hscope⟩, ha⟩ := hm
  exact ⟨policy, ⟨hin, c, hw.capabilities c hc, hscope⟩, ha⟩

/-- What a worse report is good for, the report was good for. -/
theorem request_of_worse (hw : WorseReport t r r') (hp : s.profile = some p)
    (hr : s.report = some r)
    (hcheck : p.checkReport quote s.evaluatedAt r = .ok ())
    (h : (({ s with report := some r' } : Snapshot).judgeRequest quote p r').1 = .eligible) :
    (s.judgeRequest quote p r).1 = .eligible := by
  rw [judgeRequest_iff] at h ⊢
  split
  · rw [if_pos ‹_›] at h
    exact fun hn => h (allowedActions_of_worse hw hp hr hn)
  rw [if_neg ‹_›] at h
  split
  · rwa [if_pos ‹_›] at h
  rw [if_neg ‹_›] at h
  obtain ⟨hok, htarget⟩ := h
  obtain ⟨_, -, hok⟩ := bind_ok_iff.1 hok
  simp only [require_bind_ok, require_ok, reportDeclaresCapability, List.any_eq_true] at hok
  obtain ⟨hallow, ⟨c, hc, hscope⟩, htop⟩ := hok
  refine ⟨bind_ok_iff.2 ⟨(), hcheck, ?_⟩, fun hne => ?_⟩
  · simp only [require_bind_ok, require_ok, reportDeclaresCapability, List.any_eq_true]
    rw [hw.same] at htop
    exact ⟨hallow, ⟨c, hw.capabilities c hc, hscope⟩, htop⟩
  · -- a target among fewer devices is among the devices
    obtain ⟨d, hd, hid⟩ := htarget hne
    exact ⟨d, hw.devices d hd, hid⟩

theorem checkReport_of_worse (hw : WorseReport t r r') (hv : r.validate quote = .ok ())
    (h : p.checkReport quote t r' = .ok ()) : p.checkReport quote t r = .ok () := by
  obtain ⟨⟨hp, -⟩, hfacts⟩ := RuntimeProfile.checkReport_iff.1 h
  rw [RuntimeProfile.checkReport_iff]
  refine ⟨⟨hp, hv⟩, ?_⟩
  rw [hw.same] at hfacts
  simp only [RuntimeProfile.checkFacts, require_bind_ok, require_ok, decide_eq_true_eq] at hfacts ⊢
  obtain ⟨hn, hvend, hd, huid, hdriver, hruntime, hle, hage, hready⟩ := hfacts
  obtain ⟨hle, hage⟩ := old_of_earlier hw.observedAt ⟨hle, hage⟩
  have hready : r.readiness = .ready := hw.readiness.elim (fun h => h ▸ hready) (absurd hready)
  exact ⟨hn, hvend, hd, huid, hdriver, hruntime, hle, hage, hready⟩

theorem passes_of_worse (h : Worse s s') (hr : s.report = some r) (hv : r.validate quote = .ok ())
    (ha : Passes quote lower digests s' r' p) : Passes quote lower digests s r p := by
  have hf := ha.free
  cases h with
  | flags | approvals =>
    cases hr.symm.trans ha.report
    refine { ha with free := ?_ }
    simp only [Snapshot.heldBack, Snapshot.decidedDigest, ite_eq_iff, reduceCtorEq, and_false,
      false_or] at hf ⊢
    grind
  | sources _ hm =>
    cases hr.symm.trans ha.report
    exact { ha with
      sources := sourceMissing_of_worse ha.sources id (fun r' hr' hf => ⟨r', hr', rfl, hf⟩)
        (fun x hmem => ⟨x, hmem, rfl, .inl rfl⟩) hm rfl rfl }
  | refs _ he =>
    cases hr.symm.trans ha.report
    exact { ha with
      sources := sourceMissing_of_worse ha.sources id (fun r' hr' hf => ⟨r', hr', rfl, hf⟩) he
        (fun _ => id) rfl rfl }
  | heartbeat o hE =>
    cases hr.symm.trans ha.report
    have hh : Snapshot.agentHealthy { s with node := { s.node with agentLastSeen := o } } = true →
        s.agentHealthy = true := by
      simp only [Snapshot.agentHealthy, Bool.and_eq_true, Bool.not_eq_true',
        decide_eq_true_eq, and_assoc]
      exact fresh_of_earlier hE
    exact { ha with
      healthy := hh ha.healthy
      sources := sourceMissing_of_worse ha.sources hh (fun r' hr' hf => ⟨r', hr', rfl, hf⟩)
        (fun x hmem => ⟨x, hmem, rfl, .inl rfl⟩) (fun _ => id) rfl rfl }
  | report r0 r1 hr0 hw =>
    cases hr.symm.trans hr0
    cases ha.report
    have hfresh : Snapshot.reportFresh { s with report := some r' } r' = true →
        s.reportFresh r = true := by
      simp only [Snapshot.reportFresh, Bool.and_eq_true, Bool.not_eq_true',
        decide_eq_true_eq, and_assoc]
      exact fresh_of_earlier hw.observedAt
    have hcheck := checkReport_of_worse hw hv ha.checked
    refine { ha with
      report := hr, fresh := hfresh ha.fresh, checked := hcheck
      request := request_of_worse hw ha.profile hr hcheck ha.request
      sources := sourceMissing_of_worse ha.sources id (fun x hx hf => ?_)
        (fun x hmem => ⟨x, hmem, rfl, .inl rfl⟩) (fun _ => id) rfl rfl }
    cases hx
    exact ⟨r, hr, by rw [hw.same], hfresh hf⟩

/-- **Worse facts never make a snapshot eligible.** -/
theorem not_eligible_of_worse (h : Worse s s') (hr : s.report = some r)
    (hv : r.validate quote = .ok ())
    (hn : (evaluate quote lower digests s).state ≠ .eligible) :
    (evaluate quote lower digests s').state ≠ .eligible := by
  intro he
  obtain ⟨r', p, ha⟩ := eligible_iff.1 he
  exact hn (eligible_iff.2 ⟨r, p, passes_of_worse h hr hv ha⟩)

/-- The snapshot, with a heartbeat at the instant and no limit for its age. -/
abbrev seenAt (o : Int) : Snapshot :=
  { datedSnapshot maxDuration 0 with
    node := { (datedSnapshot maxDuration 0).node with agentLastSeen := o } }

/-- Under an emergency stop, a heartbeat that is dated back does not help. -/
theorem not_eligible_of_stopped :
    (evaluate id id noDigests { seenAt 90 with emergencyStop := true }).state ≠ .eligible :=
  not_eligible_of_worse (.heartbeat (s := { seenAt 100 with emergencyStop := true }) 90
    (.inr ⟨by decide, by decide, by decide⟩)) rfl (by decide +kernel) (by decide +kernel)

/-- The zero time is no heartbeat, and a nanosecond before it is an old one. -/
theorem eligible_before_zero : (sampleReport (lit "uid-2") .gpu).validate id = .ok () ∧
    (evaluate id id noDigests (seenAt GoTime.zeroNs)).state = .unknown ∧
    (evaluate id id noDigests (seenAt (GoTime.zeroNs - 1))).state = .eligible := by
  decide +kernel

end KubeNeuron.Decision
