import KubeNeuron.Decision.Evaluate

/-!
# How long a decision holds

The expiry of a decision comes from the age of its report and the deadline alone, while eligibility
also asks for a recent heartbeat, for a report within the limit of the profile, and for fresh
evidence of every required source. An eligible snapshot stays eligible until its expiry just when
the limits of those reach that far (`horizon_iff`): no other gate looks at the clock.
-/

namespace KubeNeuron.Decision

open Lib KubeNeuron.Types Accelerator

variable {quote lower : Str → Str} {digests : Digests} {s : Snapshot} {t now : Int}
  {p : RuntimeProfile} {r : AcceleratorReport} {x : Unit} {observed limit stop : Int}

/-- The same facts, evaluated at another instant. -/
abbrev Snapshot.atTime (s : Snapshot) (t : Int) : Snapshot := { s with evaluatedAt := t }

/-! ## The limits -/

/-- The end of the effective age of the report, or the deadline if that comes first. The zero time
is no limit, and nothing ends before the evaluation. -/
def Snapshot.horizon (s : Snapshot) (r : AcceleratorReport) : Int :=
  let aged := max s.evaluatedAt (r.observedAt + s.effectiveMaxAge)
  if zeroTime s.limits.deadline then aged
  else if zeroTime aged then s.limits.deadline
  else min s.limits.deadline aged

/-- What was observed is within its limit at every instant before `stop`. The largest duration, at
which an age is cut off, is no limit. -/
def Reaches (observed limit stop : Int) : Prop := maxDuration ≤ limit ∨ stop ≤ observed + limit + 1

/-- Some evidence of the source is within the effective age at the instant. -/
def Snapshot.evidenced (lower : Str → Str) (s : Snapshot) (source : Str) (t : Int) :
    Prop :=
  ∃ ref ∈ s.evidenceRefs, toLower lower (trimSpace ref.source) = source ∧
    zeroTime ref.observedAt = false ∧ ref.observedAt ≤ t ∧ sub t ref.observedAt ≤ s.effectiveMaxAge

/-- The limits of the facts reach the horizon of the report: that of the heartbeat, that of the
profile for the report, and for every other required source that of some evidence at each
instant. -/
structure Outlasts (lower : Str → Str) (s : Snapshot) (r : AcceleratorReport)
    (p : RuntimeProfile) : Prop where
  instant : ¬(s.evaluatedAt < GoTime.zeroNs ∧ GoTime.zeroNs < s.horizon r)
  agent : Reaches s.node.agentLastSeen (if s.agentMaxAge ≤ 0 then tenMinutes else s.agentMaxAge)
    (s.horizon r)
  profile : Reaches r.observedAt p.maxReportAge (s.horizon r)
  sources : ∀ source ∈ s.requiredEvidenceSources.map fun x => toLower lower (trimSpace x),
    source = [] ∨ source = lit "agent" ∨ source = lit "accelerator-report/" ++ r.vendor ∨
      ∀ t, s.evaluatedAt < t → t < s.horizon r → s.evidenced lower source t

theorem expiresAt_eq_horizon (hr : s.report = some r) :
    (evaluate quote lower digests s).expiresAt = s.horizon r := by
  rw [evaluate]
  split <;> simp only [finalize, hr, Option.map_some, Option.getD_some, Snapshot.horizon] <;>
    grind

theorem reaches_iff (h : sub now observed ≤ limit) :
    (∀ t, now < t → t < stop → sub t observed ≤ limit) ↔ Reaches observed limit stop := by
  simp only [sub, maxDuration, Reaches] at h ⊢
  constructor
  · intro hall
    by_cases hlast : now < stop - 1
    · have := hall (stop - 1) hlast (by omega)
      omega
    · omega
  · intro hreach t _ ht
    omega

/-! ## The gates at another instant -/

/-- Of what a profile asks of a report, only its age depends on the instant. -/
theorem checkReport_moved (h : p.checkReport quote now r = .ok x) :
    p.checkReport quote t r = .ok () ↔
      zeroTime t = false ∧ r.observedAt ≤ t ∧ sub t r.observedAt ≤ p.maxReportAge := by
  obtain ⟨hv, hfacts⟩ := RuntimeProfile.checkReport_iff.1 h
  rw [RuntimeProfile.checkReport_iff]
  simp only [RuntimeProfile.checkFacts, require_bind_ok, decide_eq_true_eq,
    Bool.not_eq_true'] at hfacts ⊢
  constructor
  · rintro ⟨-, hn, -, -, -, -, -, hp, hage, -⟩
    exact ⟨hn, hp, hage⟩
  · rintro ⟨hn, hp, hage⟩
    obtain ⟨-, hvend, hd, huid, hdriver, hruntime, -, -, hready⟩ := hfacts
    exact ⟨hv, hn, hvend, hd, huid, hdriver, hruntime, hp, hage, hready⟩

theorem judgeRequest_moved (h : (s.judgeRequest quote p r).1 = .eligible)
    (hcheck : p.checkReport quote t r = .ok ()) :
    ((s.atTime t).judgeRequest quote p r).1 = .eligible := by
  rw [judgeRequest_iff] at h ⊢
  -- without an action, the clock is not read
  split
  · rwa [if_pos ‹_›] at h
  rw [if_neg ‹_›] at h
  split
  · rwa [if_pos ‹_›] at h
  rw [if_neg ‹_›] at h
  obtain ⟨hok, htarget⟩ := h
  obtain ⟨_, -, hok⟩ := bind_ok_iff.1 hok
  exact ⟨bind_ok_iff.2 ⟨(), hcheck, hok⟩, htarget⟩

/-- Which gates look at the clock: a snapshot that passes is eligible at another instant just when
these let it pass there. -/
theorem eligible_atTime (h : Passes quote lower digests s r p) :
    (evaluate quote lower digests (s.atTime t)).state = .eligible ↔
      zeroTime t = false ∧ (s.atTime t).agentHealthy = true ∧ (s.atTime t).reportFresh r = true ∧
        sub t r.observedAt ≤ p.maxReportAge ∧ (s.atTime t).evidenceSourceMissing lower = false := by
  rw [eligible_iff]
  constructor
  · rintro ⟨r', p', h'⟩
    cases h.report.symm.trans h'.report
    cases h.profile.symm.trans h'.profile
    obtain ⟨hinst, -, hage⟩ := (checkReport_moved h.checked).1 h'.checked
    exact ⟨hinst, h'.healthy, h'.fresh, hage, h'.sources⟩
  · rintro ⟨hinst, hagent, hfresh, hage, hsources⟩
    have ht : r.observedAt ≤ t := by
      simp only [Snapshot.reportFresh, Bool.and_eq_true, decide_eq_true_eq] at hfresh
      exact hfresh.1.2
    have hcheck := (checkReport_moved h.checked).2 ⟨hinst, ht, hage⟩
    have hcomplete := h.complete
    refine ⟨r, p, { h with
      complete := ?_, healthy := hagent, fresh := hfresh, sources := hsources, checked := hcheck
      request := judgeRequest_moved h.request hcheck }⟩
    simp only [Bool.or_eq_true, not_or, Bool.not_eq_true, hinst] at hcomplete ⊢
    exact ⟨⟨trivial, hcomplete.1.2⟩, hcomplete.2⟩

theorem agentHealthy_moved (h : s.agentHealthy = true) (ht : s.evaluatedAt < t) :
    (s.atTime t).agentHealthy = true ↔ sub t s.node.agentLastSeen ≤
      if s.agentMaxAge ≤ 0 then tenMinutes else s.agentMaxAge := by
  simp only [Snapshot.agentHealthy, Bool.and_eq_true, decide_eq_true_eq] at h ⊢
  exact ⟨fun h' => h'.2, fun hage => ⟨⟨h.1.1, Int.le_trans h.1.2 (Int.le_of_lt ht)⟩, hage⟩⟩

theorem reportFresh_moved (h : s.reportFresh r = true) (ht : s.evaluatedAt < t) :
    (s.atTime t).reportFresh r = true ↔ sub t r.observedAt ≤ s.effectiveMaxAge := by
  simp only [Snapshot.reportFresh, Bool.and_eq_true, decide_eq_true_eq] at h ⊢
  exact ⟨fun h' => h'.2, fun hage => ⟨⟨h.1.1, Int.le_trans h.1.2 (Int.le_of_lt ht)⟩, hage⟩⟩

/-- With a healthy agent and a fresh report, the other sources need evidence of their own. -/
theorem sources_moved (hr : s.report = some r) (hagent : (s.atTime t).agentHealthy = true)
    (hfresh : (s.atTime t).reportFresh r = true) :
    (s.atTime t).evidenceSourceMissing lower = false ↔
      ∀ source ∈ s.requiredEvidenceSources.map fun x => toLower lower (trimSpace x),
        source = [] ∨ source = lit "agent" ∨ source = lit "accelerator-report/" ++ r.vendor ∨
          s.evidenced lower source t := by
  have heff : (s.atTime t).effectiveMaxAge = s.effectiveMaxAge := rfl
  simp [Snapshot.evidenceSourceMissing, Snapshot.evidenceSourceFresh, Snapshot.evidenced, hr,
    hagent, hfresh, heff, or_iff_not_imp_left, and_assoc]

/-- The effective age of the report never ends before the horizon. -/
theorem Outlasts.within (h : Outlasts lower s r p) (hnow : zeroTime s.evaluatedAt = false)
    (hfresh : s.reportFresh r = true) (ht : s.evaluatedAt < t) (hstop : t < s.horizon r) :
    sub t r.observedAt ≤ s.effectiveMaxAge := by
  have hinstant := h.instant
  simp only [Snapshot.reportFresh, Bool.and_eq_true, decide_eq_true_eq] at hfresh
  simp only [Snapshot.horizon, zeroTime, decide_eq_true_eq, decide_eq_false_iff_not, sub,
    maxDuration] at *
  grind

/-- **The expiry of an eligible decision is a horizon** just when the limits of the facts reach the
deadline or the end of the effective age of the report, whichever comes first. -/
theorem horizon_iff (h : (evaluate quote lower digests s).state = .eligible)
    (hr : s.report = some r) (hp : s.profile = some p) :
    (∀ t, s.evaluatedAt < t → t < (evaluate quote lower digests s).expiresAt →
        (evaluate quote lower digests (s.atTime t)).state = .eligible) ↔
      Outlasts lower s r p := by
  obtain ⟨_, _, ha⟩ := eligible_iff.1 h
  cases hr.symm.trans ha.report
  cases hp.symm.trans ha.profile
  have hnow : zeroTime s.evaluatedAt = false := by
    have hcomplete := ha.complete
    simp only [Bool.or_eq_true, not_or, Bool.not_eq_true] at hcomplete
    exact hcomplete.1.1
  have hheartbeat := ha.healthy
  have hreport := ha.checked
  simp only [Snapshot.agentHealthy, Bool.and_eq_true, decide_eq_true_eq] at hheartbeat
  rw [expiresAt_eq_horizon hr]
  constructor
  · intro hall
    have hat : ∀ t, s.evaluatedAt < t → t < s.horizon r → _ := fun t ht hstop =>
      (eligible_atTime ha).1 (hall t ht hstop)
    refine ⟨?_, (reaches_iff hheartbeat.2).1 fun t ht hstop => ?_,
      (reaches_iff ((checkReport_moved hreport).1 hreport).2.2).1 fun t ht hstop => ?_,
      fun source hmem => ?_⟩
    · rintro ⟨ht, hstop⟩
      exact absurd (hat _ ht hstop).1 (by decide)
    · exact (agentHealthy_moved ha.healthy ht).1 (hat t ht hstop).2.1
    · exact (hat t ht hstop).2.2.2.1
    · simp only [or_iff_not_imp_left]
      intro hne hagent hvendor t ht hstop
      obtain ⟨-, hhealthy, hfresh, -, hsources⟩ := hat t ht hstop
      have hsource := (sources_moved hr hhealthy hfresh).1 hsources source hmem
      simpa [hne, hagent, hvendor] using hsource
  · intro hout t ht hstop
    have hhealthy := (agentHealthy_moved ha.healthy ht).2
      ((reaches_iff hheartbeat.2).2 hout.agent t ht hstop)
    have hfresh := (reportFresh_moved ha.fresh ht).2 (hout.within hnow ha.fresh ht hstop)
    have hage := (reaches_iff ((checkReport_moved hreport).1 hreport).2.2).2 hout.profile t ht hstop
    refine (eligible_atTime ha).2 ⟨?_, hhealthy, hfresh, hage, ?_⟩
    · refine decide_eq_false fun hzero => hout.instant ?_
      subst hzero
      exact ⟨ht, hstop⟩
    · refine (sources_moved hr hhealthy hfresh).2 fun source hmem => ?_
      obtain hne | hagent | hvendor | hev := hout.sources source hmem
      · exact .inl hne
      · exact .inr (.inl hagent)
      · exact .inr (.inr (.inl hvendor))
      · exact .inr (.inr (.inr (hev t ht hstop)))

/-- A reset of the sample device, with limits for the age of the heartbeat and of the report. -/
def datedSnapshot (agentMaxAge evidenceMaxAge : Int) : Snapshot :=
  { evaluatedAt := 200, configDigest := lit "digest", requiredConfigDigest := []
    node := ⟨lit "node-1", lit "uid-2", StrMap.empty, false, 100, []⟩
    report := some (sampleReport (lit "uid-2") .gpu), profile := some sampleProfile
    request := resetRequest
    evidenceRefs := [], evidenceSources := [], requiredEvidenceSources := [lit "agent"]
    evidenceMaxAge, agentMaxAge
    globalPaused := false, emergencyStop := false, maintenanceActive := false, changeFreeze := false
    incidentConflict := false, ownershipConflict := false, selectorExcluded := false
    autonomyBudgetExhausted := false
    limits := ⟨GoTime.zeroNs, GoTime.zeroNs, 0, 0, 0⟩ }

/-- With a heartbeat that outlasts the report, the decision holds up to its expiry at 202. -/
theorem eligible_until_expiry :
    (evaluate id id noDigests ((datedSnapshot 300 102).atTime 201)).state = .eligible := by
  have hlimits : Outlasts id (datedSnapshot 300 102)
      (sampleReport (lit "uid-2") .gpu) sampleProfile :=
    ⟨by decide, .inr (by decide), .inr (by decide), fun _ hmem =>
      .inr (.inl ((List.mem_singleton.1 hmem).trans (by decide)))⟩
  exact (horizon_iff (by decide +kernel) rfl rfl).2 hlimits 201 (by decide) (by decide +kernel)

/-- The heartbeat is too old at 500, and the decision expires at 1100. -/
theorem eligible_past_heartbeat :
    (evaluate id id noDigests (datedSnapshot 300 0)).state = .eligible ∧
      (evaluate id id noDigests (datedSnapshot 300 0)).expiresAt = 1100 ∧
      (evaluate id id noDigests ((datedSnapshot 300 0).atTime 500)).state = .unknown := by
  decide +kernel

end KubeNeuron.Decision
