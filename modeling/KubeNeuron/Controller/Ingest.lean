import KubeNeuron.Store.Incidents

/-!
# Ingesting a signal

`ingestTx` is the incident mutation of one signal: it joins the open incident the signal belongs to,
promoting its target when the signal names the device, or opens a new incident. It runs inside a
transaction of the caller.

`ingestTx_spec` says what a committed mutation is: one signal counted for one incident, which is new
or was open (`Counted`).
-/

namespace KubeNeuron.Controller

open Lib KubeNeuron.Types Store

/-- What an ingest reads besides the store: the runtime configuration, the clock at its three uses,
and the name of a new incident, which is a digest of the signal and the time. -/
structure IngestEnv where
  lower : Str → Str
  dryRun : Bool
  playbook : Signal → Str
  incidentID : Signal → Nat → Str
  openedAt : Nat
  promotedAt : Nat
  updatedAt : Nat

def openedIncident (env : IngestEnv) (sig : Signal) : Incident :=
  { id := env.incidentID sig env.openedAt
    target := sig.target
    cls := sig.cls
    state := .open
    playbook := env.playbook sig
    stepIndex := 0
    attempt := 0
    dryRun := env.dryRun
    signalSeen := 1
    vendor := if vendorValid sig.vendor then sig.vendor else []
    remediationSlotHeld := false
    approvalEpoch := 0
    openedAt := env.openedAt
    updatedAt := env.openedAt
    stateChangedAt := env.openedAt
    resolvedAt := none
    version := 0 }

/-- The incident after one more signal. A vendor is only filled in, never replaced. -/
def attachSignal (env : IngestEnv) (sig : Signal) (inc : Incident) : Incident :=
  { inc with
    signalSeen := inc.signalSeen + 1
    updatedAt := env.updatedAt
    vendor :=
      if !vendorValid inc.vendor && vendorValid sig.vendor then sig.vendor else inc.vendor }

/-- The target a precise signal gives an unattributed incident. -/
def promotedTarget (sig : Signal) (inc : Incident) : Target :=
  ⟨inc.target.node, sig.target.gpuUUID, sig.target.gpuIndex, inc.target.pciAddr⟩

/-- The promotion step of an ingest: the incident as the caller holds it afterwards. -/
def promoteForSignal (env : IngestEnv) (sig : Signal) (inc : Incident) (db : Database) :
    Except PromoteError (Incident × Database) :=
  if inc.target.isUnattributed && sig.target.isGPU then
    promoteIncidentTarget env.lower inc (promotedTarget sig inc) env.promotedAt db
  else .ok (inc, db)

/-- `ingestTx`, with the ID of the incident the signal was classified to. -/
def ingestTx (env : IngestEnv) (sig : Signal) (db : Database) :
    Except PromoteError (Database × Str) :=
  match getOpenIncident env.lower sig.target sig.cls db with
  | none =>
    match createIncident env.lower (openedIncident env sig) db with
    | .error e => .error (.write e)
    | .ok db' => .ok (db', (openedIncident env sig).id)
  | some inc =>
    match promoteForSignal env sig inc db with
    | .error e => .error e
    | .ok (inc', db') =>
      match updateIncident (attachSignal env sig inc') db' with
      | .error e => .error (.write e)
      | .ok db'' => .ok (db'', inc'.id)

/-! ## What a committed ingest is -/

variable {env : IngestEnv} {sig : Signal} {inc : Incident} {db db' : Database}
  {p : Incident → Bool} {after before : List Incident}

theorem promoteForSignal_spec {inc' : Incident}
    (h : promoteForSignal env sig inc db = .ok (inc', db')) :
    inc'.id = inc.id ∧ inc'.signalSeen = inc.signalSeen ∧ ∃ incidents, db' = { db with incidents } ∧
        seenSignals incidents = seenSignals db.incidents := by
  rw [promoteForSignal] at h
  split_ifs at h
  · obtain ⟨-, rfl, rfl⟩ := promoteIncidentTarget_spec h
    exact ⟨rfl, rfl, _, rfl, map_updateWhere (f := promoted _ _) _ (fun _ => rfl) _⟩
  · cases h
    exact ⟨rfl, rfl, _, rfl, rfl⟩

theorem openIncident_some (h : openIncident p db = some inc) :
    (inc ∈ db.incidents ∧ inc.state.terminal = false) ∧ p inc = true := by
  obtain ⟨he, hm⟩ := List.mem_filter.1 (firstBy_mem h)
  simp only [Bool.and_eq_true, Bool.not_eq_true'] at hm
  exact ⟨⟨he, hm.2⟩, hm.1⟩

theorem openIncident_none (h : openIncident p db = none)
    {row : Incident} (hr : row ∈ db.incidents) (ho : row.state.terminal = false) :
    p row = false := by
  have hu := List.filter_eq_nil_iff.1 (firstBy_eq_none.1 h) row hr
  simpa [ho] using hu

variable {lower : Str → Str} {target : Target} {cls : Str}

/-- **What a lookup finds** is an open incident of the node and class: one of the UUID, one of the
address (without a UUID, when the target has one), or one that names no device. -/
theorem getOpenIncident_found (h : getOpenIncident lower target cls db = some inc) :
    (inc ∈ db.incidents ∧ inc.state.terminal = false) ∧ inc.target.node = target.node ∧
      inc.cls = cls ∧
      ((target.gpuUUID ≠ [] ∧ inc.target.gpuUUID = target.gpuUUID) ∨
        (inc.target.pciAddr = normalizePCIAddress lower target.pciAddr ∧
          normalizePCIAddress lower target.pciAddr ≠ []) ∨
        (target.gpuUUID = [] ∧ inc.target.gpuUUID = [] ∧ inc.target.pciAddr = [])) := by
  simp only [getOpenIncident] at h
  split_ifs at h with hu hpci hpci
  · rw [Option.or_none] at h
    obtain ⟨hr, hm⟩ := openIncident_some h
    simp only [Bool.and_eq_true, decide_eq_true_eq] at hm
    exact ⟨hr, hm.1.1, hm.1.2, .inl ⟨hu, hm.2⟩⟩
  -- the query that found the incident
  on_goal 1 => rcases Option.or_eq_some_iff.1 h with h | ⟨-, h⟩
  on_goal 3 => rcases Option.or_eq_some_iff.1 h with h | ⟨-, h⟩
  all_goals
    obtain ⟨hr, hm⟩ := openIncident_some h
    simp only [Bool.and_eq_true, decide_eq_true_eq] at hm
  · exact ⟨hr, hm.1.1, hm.1.2, .inl ⟨hu, hm.2⟩⟩
  · exact ⟨hr, hm.1.1.1, hm.1.1.2, .inr (.inl ⟨hm.2, hpci⟩)⟩
  · exact ⟨hr, hm.1.1, hm.1.2, .inr (.inl ⟨hm.2, hpci⟩)⟩
  all_goals
    have hn : target.gpuUUID = [] := Decidable.not_not.1 hu
    exact ⟨hr, hm.1.1.1, hm.1.1.2, .inr (.inr ⟨hn, hm.1.2, hm.2⟩)⟩

/-- **A lookup that finds nothing** rules out the open incidents of the UUID, and those of the
address unless both sides have a UUID. -/
theorem getOpenIncident_none (h : getOpenIncident lower target cls db = none) {row : Incident}
    (hr : row ∈ db.incidents) (ho : row.state.terminal = false)
    (hn : row.target.node = target.node) (hcls : row.cls = cls) :
    (target.gpuUUID ≠ [] → row.target.gpuUUID ≠ target.gpuUUID) ∧
      (normalizePCIAddress lower target.pciAddr ≠ [] →
        row.target.pciAddr = normalizePCIAddress lower target.pciAddr →
        target.gpuUUID ≠ [] ∧ row.target.gpuUUID ≠ []) := by
  simp only [getOpenIncident] at h
  split_ifs at h with hu hpci hpci
  · rw [Option.or_none] at h
    have hf := openIncident_none h hr ho
    exact ⟨fun _ => by simpa [hn, hcls] using hf, fun hs => absurd hpci hs⟩
  · obtain ⟨hf, hd⟩ := Option.or_eq_none_iff.1 h
    have hf := openIncident_none hf hr ho
    have hd := openIncident_none hd hr ho
    refine ⟨fun _ => by simpa [hn, hcls] using hf, fun _ ha => ⟨hu, fun h0 => ?_⟩⟩
    simp [hn, hcls, h0, ha] at hd
  · have hf := openIncident_none (Option.or_eq_none_iff.1 h).1 hr ho
    refine ⟨fun hs => absurd hs hu, fun _ ha => ?_⟩
    simp [hn, hcls, ha] at hf
  · exact ⟨fun hs => absurd hs hu, fun hs => absurd hs hpci⟩

/-- One signal was counted for the incident: it is new and has seen this signal only, or it was
there and has seen one more. -/
def Counted (id : Str) (before after : List Incident) : Prop :=
  (id ∉ before.map (·.id) ∧ seenSignals after = seenSignals before ++ [(id, 1)]) ∨
    (id ∈ before.map (·.id) ∧ seenSignals after = countSignal id (seenSignals before))

/-- **A committed ingest** counts its signal for one incident and changes nothing else. -/
theorem ingestTx_spec {id : Str}
    (hi : (db.incidents.map (·.id)).Nodup) (h : ingestTx env sig db = .ok (db', id)) :
    ∃ incidents, db' = { db with incidents } ∧ Counted id db.incidents incidents := by
  cases ho : getOpenIncident env.lower sig.target sig.cls db with
  | none =>
    simp only [ingestTx, ho] at h
    split at h
    · cases h
    rename_i created hcreate
    cases h
    obtain ⟨hn, rfl⟩ := insertIncident_spec hcreate
    refine ⟨_, rfl, .inl ⟨?_, ?_⟩⟩
    · intro hm
      obtain ⟨other, hh, heq⟩ := List.mem_map.1 hm
      exact hn other hh heq
    · simp [seenSignals, openedIncident]
  | some inc =>
    have hinc := (getOpenIncident_found ho).1.1
    simp only [ingestTx, ho] at h
    split at h
    · cases h
    rename_i inc' promotedDb hpromoted
    obtain ⟨hid, hs, incidents, rfl, he⟩ := promoteForSignal_spec hpromoted
    split at h
    · cases h
    rename_i updated hu
    cases h
    have hi' : (incidents.map (·.id)).Nodup := by
      rw [← map_fst_seenSignals, he, map_fst_seenSignals]
      exact hi
    have hm : (inc'.id, inc'.signalSeen) ∈ seenSignals incidents := by
      rw [he, hid, hs]
      exact mem_seenSignals hinc
    obtain ⟨rows, rfl, hc⟩ := seenSignals_updateIncident hi' hu hm
    refine ⟨rows, rfl, .inr ⟨hid ▸ List.mem_map_of_mem hinc, ?_⟩⟩
    have hone : inc'.signalSeen + 1 - inc'.signalSeen = 1 := by omega
    simpa [countSignal, attachSignal, he, hone] using hc

theorem Counted.nodup {id : Str} (h : Counted id before after)
    (hi : (before.map (·.id)).Nodup) : (after.map (·.id)).Nodup := by
  rw [← map_fst_seenSignals]
  rcases h with ⟨hn, hs⟩ | ⟨-, hs⟩
  · rw [hs, List.map_append, map_fst_seenSignals, List.map_singleton, ← List.concat_eq_append]
    exact List.Nodup.concat hn hi
  · rw [hs, map_fst_countSignal, map_fst_seenSignals]
    exact hi

theorem Counted.mem_ids {id : Str} (h : Counted id before after)
    {i : Str} (hi : i = id ∨ i ∈ before.map (·.id)) : i ∈ after.map (·.id) := by
  rw [← map_fst_seenSignals]
  rcases h with ⟨-, hs⟩ | ⟨hold, hs⟩
  · rw [hs, List.map_append, map_fst_seenSignals, List.mem_append]
    rcases hi with rfl | hi
    · exact Or.inr (by simp)
    · exact .inl hi
  rw [hs, map_fst_countSignal, map_fst_seenSignals]
  rcases hi with rfl | hi
  · exact hold
  · exact hi

end KubeNeuron.Controller
