import KubeNeuron.Controller.StepWorld

/-!
# The execution mode of side effects

A side effect is authorized when the configurations that admitted and that dispatched its step are
both enabled, or when it belongs to a reversal for which the incident holds a pin and the platform
records the node as quiesced. The invariant says the same of what leads to a side effect later:
goroutines that have decided to act, pins and holds on nodes (`effects_are_enabled`).
-/

namespace KubeNeuron.Controller

open Lib KubeNeuron.Types Store Playbooks RuntimeConfig

variable {sha : Str → Str} {w w' : StepWorld} {op : StepOp} {id : Str}
  {lo : Int → Int}

/-! ## Authorization -/

/-- The configuration carries steps out. -/
def RuntimeConfig.Enabled (cfg : RuntimeConfig) : Prop := cfg.dryRun = some false

instance (cfg : RuntimeConfig) : Decidable cfg.Enabled :=
  inferInstanceAs (Decidable (cfg.dryRun = some false))

theorem RuntimeConfig.enabled_iff {cfg : RuntimeConfig} :
    cfg.Enabled ↔ cfg.dryRun.getD true = false := by
  rw [RuntimeConfig.Enabled]
  cases cfg.dryRun with
  | none => decide
  | some => simp

/-- The step reverses a quiesce of its own incident that the platform still records. -/
def Dispatch.Reverses (d : Dispatch) : Prop :=
  (byWire d.step.action).any Definition.compensating = true ∧ d.pinned = true ∧ d.marked = true

/-- The step may act. -/
def Dispatch.Authorized (d : Dispatch) : Prop :=
  (d.admitted.Enabled ∧ d.live.Enabled) ∨ d.Reverses

/-- The side effect is one the execution mode allows. -/
def SideEffect.Authorized : SideEffect → Prop
  | .step d _ => d.Authorized
  | .taint _ cfg => cfg.Enabled
  | .uncordon _ _ | .restore _ => True

/-- The incident was opened in live mode. -/
def WalkWorld.OpenedLive (w : WalkWorld) (id : Str) : Prop :=
  ∃ row, getIncident id w.records.db = some row ∧ row.dryRun = false

theorem executeStep_authorized {d d' : Dispatch} (h : (executeStep d).dispatch? = some d') :
    d' = d ∧ ((d.admitted.Enabled ∧ d.live.Enabled ∧ d.inc.dryRun = false) ∨ d.Reverses) := by
  rw [executeStep] at h
  split at h
  · cases h
  rename_i action ha
  split_ifs at h with hsim
  · cases h
  split at h
  · cases h
  cases h
  refine ⟨rfl, ?_⟩
  rw [Dispatch.simulates, effectiveDryRun, Bool.and_eq_true, not_and_or] at hsim
  -- both modes are live, or the marker and the pin let a reversal pass
  rcases hsim with hl | hrev
  · left
    simp only [Bool.or_eq_true, not_or, Bool.not_eq_true] at hl
    exact ⟨enabled_iff.2 hl.1.2, enabled_iff.2 hl.2, hl.1.1⟩
  right
  simp only [Bool.or_eq_true, Bool.not_eq_true', not_or, Bool.not_eq_false,
    Bool.and_eq_true] at hrev
  rw [Dispatch.Reverses, ha]
  exact hrev

/-! ## The process -/

theorem WalkStep.row_kept {w w' : WalkWorld} {op : WalkOp}
    (h : WalkStep sha w op w') (hi : ThreadInv w) {row : Incident}
    (hr : getIncident id w.records.db = some row) :
    ∃ row', getIncident id w'.records.db = some row' ∧ row'.dryRun = row.dryRun := by
  rcases h.writers with ⟨he, -⟩ | ⟨_, ha, hp, -⟩
  · refine ⟨row, ?_, rfl⟩
    rw [WalkWorld.records, he]
    exact hr
  obtain ⟨row', hr', horig⟩ := (ha.effect hi).row_kept hr
  refine ⟨row', ?_, horig.dryRun⟩
  rw [WalkWorld.records, hp]
  exact hr'

theorem WalkStep.row_opened {w w' : WalkWorld} {op : WalkOp}
    (h : WalkStep sha w op w') (hi : ThreadInv w)
    (hb : getIncident id w.records.db = none) {row : Incident}
    (hf : getIncident id w'.records.db = some row) :
    ∃ env sig, op = .ingest env sig false ∧ row.dryRun = env.dryRun := by
  have hn : w'.records.db.incidents ≠ w.records.db.incidents := by
    intro he
    rw [getIncident, he, ← getIncident, hb] at hf
    cases hf
  rcases h.writers with ⟨he, -⟩ | ⟨wop, ha, hp, -⟩
  · exact absurd (by rw [WalkWorld.records, he]; rfl) hn
  rw [WalkWorld.records, hp] at hf hn
  have hr : ∀ {row0 row1 : Incident},
      Replaced w.writers.records.db (w.writers.apply wop).records.db row0 row1 → False := by
    intro row0 row1 hr
    rcases hr.cases hf with ⟨rfl, -⟩ | ⟨-, hold⟩
    · cases hb.symm.trans hr.found
    · cases hb.symm.trans hold
  cases ha.effect hi with
  | quiet rows => exact absurd rows hn
  | wrote _ _ _ replaced | revised _ _ replaced => exact (hr replaced).elim
  | opened row1 signal added =>
    obtain ⟨env, sig, rfl, hm⟩ := signal
    rcases added.cases hf with ⟨-, rfl⟩ | ⟨-, hold⟩
    · exact ⟨env, sig, ha.of_ingest hi, hm⟩
    · cases hb.symm.trans hold

theorem ThreadInv.running_live {w : WalkWorld} (hi : ThreadInv w) {inc : Incident}
    (hh : inc ∈ w.writers.held) (hm : inc.dryRun = false) : w.OpenedLive inc.id := by
  obtain ⟨row, hr, htrails⟩ := hi.writers.trails inc hh
  exact ⟨row, hr, htrails.origin.dryRun.symm.trans hm⟩

/-! ## The invariant -/

/-- What acts, and what can lead to an act, belongs to incidents opened in live mode. -/
structure ModeInv (w : StepWorld) : Prop where
  threads : ThreadInv w.process
  stages : ∀ stage ∈ w.stages, ∀ d ∈ stage.dispatch?,
    d.Authorized ∧ w.process.OpenedLive d.inc.id
  pins : ∀ pin ∈ w.pins, w.process.OpenedLive pin.1
  cordons : ∀ hold ∈ w.cordons, w.process.OpenedLive hold.1
  effects : ∀ e ∈ w.effects, e.Authorized ∧ ∀ id ∈ e.incident?, w.process.OpenedLive id

theorem modeInv_start {r : Records} (hi : (r.db.incidents.map (·.id)).Nodup)
    (cfg : RuntimeConfig) : ModeInv (.start r cfg) := by
  refine ⟨threadInv_start hi cfg, ?_, ?_, ?_, ?_⟩
  all_goals
    intro x hx
    cases hx

theorem ModeInv.mode_kept (hi : ModeInv w) (h : StepEffect sha lo w op w') {mode : Bool}
    (hr : ∃ row, getIncident id w.process.records.db = some row ∧ row.dryRun = mode) :
    ∃ row, getIncident id w'.process.records.db = some row ∧ row.dryRun = mode := by
  obtain ⟨row, hr, hm⟩ := hr
  rcases h.process with ⟨_, -, -, hs⟩ | ⟨_, hp⟩ | ⟨_, _, hp⟩ | hp
  · obtain ⟨row', hr', he⟩ := hs.row_kept hi.threads hr
    exact ⟨row', hr', he.trans hm⟩
  · exact ⟨row, hp ▸ hr, hm⟩
  · exact ⟨row, hp ▸ hr, hm⟩
  · exact ⟨row, hp ▸ hr, hm⟩

theorem ModeInv.extend (hi : ModeInv w) (h : StepEffect sha lo w op w')
    (hstages : ∀ stage ∈ w'.stages, stage ∈ w.stages ∨ ∀ d ∈ stage.dispatch?,
      d.Authorized ∧ w.process.OpenedLive d.inc.id)
    (hpins : ∀ pin ∈ w'.pins, pin ∈ w.pins ∨ w.process.OpenedLive pin.1)
    (hcordons : ∀ hold ∈ w'.cordons, hold ∈ w.cordons ∨ w.process.OpenedLive hold.1)
    (heffects : ∀ e ∈ w'.effects, e ∈ w.effects ∨
      (e.Authorized ∧ ∀ id ∈ e.incident?, w.process.OpenedLive id)) : ModeInv w' := by
  have hk : ∀ id, w.process.OpenedLive id → w'.process.OpenedLive id :=
    fun _ hl => hi.mode_kept h hl
  refine ⟨h.threads hi.threads, ?_, ?_, ?_, ?_⟩
  · intro stage hg d hd
    have hold : d.Authorized ∧ w.process.OpenedLive d.inc.id := by
      rcases hstages stage hg with hm | hn
      · exact hi.stages stage hm d hd
      · exact hn d hd
    exact ⟨hold.1, hk _ hold.2⟩
  · intro pin hp
    rcases hpins pin hp with hm | hn
    · exact hk _ (hi.pins pin hm)
    · exact hk _ hn
  · intro hold hh
    rcases hcordons hold hh with hm | hn
    · exact hk _ (hi.cordons hold hm)
    · exact hk _ hn
  intro e he
  have hold : e.Authorized ∧ ∀ id ∈ e.incident?, w.process.OpenedLive id := by
    rcases heffects e he with hm | hn
    · exact hi.effects e hm
    · exact hn
  exact ⟨hold.1, fun id hid => hk id (hold.2 id hid)⟩

theorem StepWorld.make_new (w : StepWorld) (d : Dispatch) (c : Call) (landed : Bool) :
    (∀ pin ∈ (w.make d c landed).pins, pin ∈ w.pins ∨ pin.1 = d.inc.id) ∧
      (∀ hold ∈ (w.make d c landed).cordons, hold ∈ w.cordons ∨ hold.1 = d.inc.id) ∧
      (∀ e ∈ (w.make d c landed).effects, e ∈ w.effects ∨ e = .step d c) := by
  have hland : (∀ pin ∈ (w.land d.inc c).pins, pin ∈ w.pins ∨ pin.1 = d.inc.id) ∧
      (∀ hold ∈ (w.land d.inc c).cordons, hold ∈ w.cordons ∨ hold.1 = d.inc.id) ∧
      (w.land d.inc c).effects = w.effects := by
    unfold StepWorld.land
    split
    · refine ⟨?_, fun _ => .inl, rfl⟩
      exact List.forall_mem_cons.2 ⟨.inr rfl, fun _ hp => .inl (List.mem_filter.1 hp).1⟩
    · exact ⟨fun pin h => .inl (List.mem_filter.1 h).1, fun _ => .inl, rfl⟩
    · exact ⟨fun _ => .inl, fun _ => .inl, rfl⟩
    · exact ⟨fun _ => .inl, fun _ => .inl, rfl⟩
    · refine ⟨fun _ => .inl, ?_, rfl⟩
      exact List.forall_mem_cons.2 ⟨.inr rfl, fun _ => .inl⟩
    · exact ⟨fun _ => .inl, fun hold h => .inl (List.mem_filter.1 h).1, rfl⟩
    · exact ⟨fun _ => .inl, fun _ => .inl, rfl⟩
  have hm : (∀ pin ∈ (if landed then w.land d.inc c else w).pins, pin ∈ w.pins ∨ pin.1 = d.inc.id) ∧
      (∀ hold ∈ (if landed then w.land d.inc c else w).cordons,
        hold ∈ w.cordons ∨ hold.1 = d.inc.id) ∧
      (if landed then w.land d.inc c else w).effects = w.effects := by
    split
    · exact hland
    · exact ⟨fun _ => .inl, fun _ => .inl, rfl⟩
  rw [StepWorld.make]
  split
  · refine ⟨hm.1, hm.2.1, ?_⟩
    exact List.forall_mem_cons.2 ⟨.inr rfl, fun _ he => .inl (hm.2.2 ▸ he)⟩
  · exact ⟨hm.1, hm.2.1, fun e he => .inl (hm.2.2 ▸ he)⟩

theorem effects_cons {new : SideEffect} {P : SideEffect → Prop} (hn : P new) :
    ∀ e ∈ new :: w.effects, e ∈ w.effects ∨ P e :=
  List.forall_mem_cons.2 ⟨.inr hn, fun _ => .inl⟩

theorem StepWorld.mem_pinned {op : WalkOp} {pin : Str × Str}
    (h : pin ∈ w.pinned op) : pin ∈ w.pins := by
  unfold StepWorld.pinned at h
  split at h
  · cases h
  · exact h

theorem ModeInv.decides (hi : ModeInv w) {r : Running} {i : Nat} {readable : Bool}
    (hr : w.process.running[i]? = some r) :
    ∀ d ∈ (executeStep (w.dispatchOf r readable)).dispatch?,
      d.Authorized ∧ w.process.OpenedLive d.inc.id := by
  intro d hd
  obtain ⟨rfl, ⟨ha, hl, hm⟩ | hrev⟩ := executeStep_authorized hd
  · have hh := (hi.threads.running r (List.mem_of_getElem? hr)).1
    exact ⟨.inl ⟨ha, hl⟩, hi.threads.running_live hh hm⟩
  · -- the pin stands for a step of this incident that was authorized before
    exact ⟨.inr hrev, hi.pins _ (List.contains_iff_mem.1 hrev.2.1)⟩

/-- **One operation keeps the invariant.** -/
theorem ModeInv.step (hi : ModeInv w) (h : StepEffect sha lo w op w') : ModeInv w' := by
  have hf := h
  cases h with
  | walked =>
    refine hi.extend hf ?_ ?_ ?_ ?_
    · intro stage hg
      rcases StepWorld.mem_staged hg with hmem | rfl
      · exact .inl hmem
      right
      intro d hd
      cases hd
    · intro pin hp
      exact .inl (StepWorld.mem_pinned hp)
    · intro hold hh
      exact .inl hh
    · intro e he
      exact .inl he
  | dispatched _ _ _ hr =>
    exact hi.extend hf (mem_set_or (hi.decides hr)) (fun _ => .inl) (fun _ => .inl) (fun _ => .inl)
  | turned _ before _ hg ha =>
    refine hi.extend hf (mem_set_or ?_) (fun _ => .inl) (fun _ => .inl) (fun _ => .inl)
    intro d hd
    exact hi.stages before (List.mem_of_getElem? hg) d (ha d hd)
  | called _ _ d c _ landed _ hg ha =>
    -- what the call leaves belongs to the incident of the goroutine that makes it
    have hd := hi.stages _ (List.mem_of_getElem? hg) d rfl
    obtain ⟨hpins, hcordons, heffects⟩ := w.make_new d c landed
    refine hi.extend hf (mem_set_or ?_) ?_ ?_ ?_
    · intro d' hd'
      rw [ha d' hd']
      exact hd
    · intro pin hp
      rcases hpins pin hp with hmem | heq
      · exact .inl hmem
      · exact .inr (heq ▸ hd.2)
    · intro hold hh
      rcases hcordons hold hh with hmem | heq
      · exact .inl hmem
      · exact .inr (heq ▸ hd.2)
    intro e he
    rcases heffects e he with hmem | rfl
    · exact .inl hmem
    refine .inr ⟨hd.1, ?_⟩
    intro id hid
    cases hid
    exact hd.2
  | requested _ _ _ _ d _ _ _ hg =>
    have hd := hi.stages _ (List.mem_of_getElem? hg) d rfl
    refine hi.extend hf (mem_set_or ?_) (fun _ => .inl) (fun _ => .inl) (effects_cons ⟨hd.1, ?_⟩)
    · intro d' hd'
      cases hd'
      exact hd
    · intro id hid
      cases hid
      exact hd.2
  | accepted _ d _ _ _ _ hg =>
    refine hi.extend hf (mem_set_or ?_) (fun _ => .inl) (fun _ => .inl) (fun _ => .inl)
    intro d' hd'
    cases hd'
    exact hi.stages _ (List.mem_of_getElem? hg) d rfl
  | tainted _ _ hheld hm =>
    refine hi.extend hf (fun _ => .inl) (fun _ => .inl) (fun _ => .inl) (effects_cons ?_)
    rw [effectiveDryRun, Bool.or_eq_false_iff] at hm
    refine ⟨enabled_iff.2 hm.2, ?_⟩
    intro id hid
    cases hid
    exact hi.threads.running_live hheld hm.1
  | uncordoned _ _ hh =>
    refine hi.extend hf (fun _ => .inl) (fun _ => .inl) (fun hold h => .inl (List.mem_filter.1 h).1)
      (effects_cons ⟨trivial, ?_⟩)
    intro id hid
    cases hid
    exact hi.cordons _ hh
  | restoredHost =>
    refine hi.extend hf (fun _ => .inl) (fun _ => .inl) (fun _ => .inl) (effects_cons ⟨trivial, ?_⟩)
    intro id hid
    cases hid
  | restoredStack =>
    refine hi.extend hf (fun _ => .inl) (fun pin h => .inl (List.mem_filter.1 h).1) (fun _ => .inl)
      (effects_cons ⟨trivial, ?_⟩)
    intro id hid
    cases hid
  | unpinned =>
    exact hi.extend hf (fun _ => .inl)
      (fun pin h => .inl (List.mem_filter.1 h).1) (fun _ => .inl) (fun _ => .inl)
  | _ =>
    exact hi.extend hf (fun _ => .inl) (fun _ => .inl) (fun _ => .inl) (fun _ => .inl)

/-! ## Incidents opened in dry-run mode -/

theorem ModeInv.opened_simulated (hi : ModeInv w) (h : StepEffect sha lo w op w')
    (hb : getIncident id w.process.records.db = none)
    (ha : getIncident id w'.process.records.db ≠ none) (hm : ¬w.process.live.Enabled) :
    ∃ row, getIncident id w'.process.records.db = some row ∧ row.dryRun = true := by
  obtain ⟨row, hr⟩ := Option.ne_none_iff_exists'.1 ha
  refine ⟨row, hr, ?_⟩
  rcases h.process with ⟨_, -, hperm, hs⟩ | ⟨_, hp⟩ | ⟨_, _, hp⟩ | hp
  · obtain ⟨_, _, rfl, he⟩ := hs.row_opened hi.threads hb hr
    rw [he]
    rw [enabled_iff, Bool.not_eq_false] at hm
    exact (of_decide_eq_true hperm).trans hm
  · rw [hp] at hr
    cases hb.symm.trans hr
  · rw [hp] at hr
    cases hb.symm.trans hr
  · rw [hp] at hr
    cases hb.symm.trans hr

/-- **Only enabled configurations act.** In every run, every side effect of a step was admitted and
dispatched under enabled configurations, the reversal of a recorded quiesce apart, and an incident
that was opened while the installed configuration was not enabled never has a side effect. -/
theorem effects_are_enabled {sha : Str → Str} {lo : Int → Int} {r : Records}
    (hids : (r.db.incidents.map (·.id)).Nodup) {cfg : RuntimeConfig} {before after : List StepOp}
    {op : StepOp} {w₁ w₂ w : StepWorld}
    (hbefore : exec (stepNext sha lo) (.start r cfg) before = some w₁)
    (hop : stepNext sha lo w₁ op = some w₂) (hafter : exec (stepNext sha lo) w₂ after = some w) :
    (∀ e ∈ w.effects, e.Authorized) ∧ ∀ id, getIncident id w₁.process.records.db = none →
        getIncident id w₂.process.records.db ≠ none → ¬w₁.process.live.Enabled →
        ∀ e ∈ w.effects, e.incident? ≠ some id := by
  have hstep : ∀ v op v', ModeInv v → stepNext sha lo v op = some v' → ModeInv v' :=
    fun _ _ _ hinv hnext => hinv.step (stepEffect_of_next hnext)
  have hinv₁ : ModeInv w₁ := exec_invariant hstep (modeInv_start hids cfg) hbefore
  have heffect := stepEffect_of_next hop
  have hinv₂ : ModeInv w₂ := hinv₁.step heffect
  have hinv : ModeInv w := exec_invariant hstep hinv₂ hafter
  refine ⟨fun e he => (hinv.effects e he).1, ?_⟩
  intro id hnone hsome hmode e he hid
  -- the row was opened in dry-run mode and kept it, while a side effect needs a live one
  obtain ⟨row, hrow, hdry⟩ : ∃ row, getIncident id w.process.records.db = some row ∧
      row.dryRun = true := by
    have hrun := exec_invariant (P := fun w : StepWorld => ModeInv w ∧
        ∃ row, getIncident id w.process.records.db = some row ∧ row.dryRun = true)
      (fun s a t hs hstep => ⟨hs.1.step (stepEffect_of_next hstep),
        hs.1.mode_kept (stepEffect_of_next hstep) hs.2⟩)
      ⟨hinv₂, hinv₁.opened_simulated heffect hnone hsome hmode⟩ hafter
    exact hrun.2
  obtain ⟨_, hrow', hlive⟩ := (hinv.effects e he).2 id hid
  cases hrow.symm.trans hrow'
  rw [hdry] at hlive
  cases hlive

/-- The opening of an incident on another node, in dry-run mode. -/
def simulatedIngest : IngestEnv :=
  ⟨fun s => s, true, fun _ => lit "drain", fun _ _ => lit "inc-2", 1, 1, 1⟩

/-- A reload enables the configuration, and the incident opened before it is started. -/
def reloadedOps : List WalkOp :=
  [.install (sampleConfig [cordonStep]), .list, .pick, .plan (sampleTick 2), .commit 2 false] ++
    startOps 3

/-- Its step ends, and an incident opened after the reload is started; the walk passes over the
first one each time. -/
def liveOps : List WalkOp :=
  finishOps 4 ++
    [.ingest openingIngest vendorSignal false, .list, .pick, .plan (sampleTick 5), .pick,
      .plan (sampleTick 5), .commit 5 false, .list, .pick, .plan (sampleTick 6)] ++
    (startOps 6).tail

/-- Both steps reach the executor. -/
def enabledOps : List StepOp :=
  reloadedOps.map .walk ++ [.dispatch 0 true] ++ liveOps.map .walk ++
    [.dispatch 0 true, .call 0 .ok]

/-- An incident is opened in dry-run mode and stays simulated when a reload enables the
configuration; one opened after the reload cordons its node. -/
theorem enabled_incident_cordons : ∃ w₁ w₂ w, exec (stepNext (fun s => s) (fun n => n))
        (.start .empty { sampleConfig [cordonStep] with dryRun := some true }) [] = some w₁ ∧
      stepNext (fun s => s) (fun n => n) w₁
        (.walk (.ingest simulatedIngest { vendorSignal with
          target := ⟨lit "n2", [], 0, []⟩ } false)) =
        some w₂ ∧
      exec (stepNext (fun s => s) (fun n => n)) w₂ enabledOps = some w ∧
      w.effects.map SideEffect.incident? = [some (lit "inc-1")] ∧
      (∀ e ∈ w.effects, e.Authorized) ∧ ∀ e ∈ w.effects, e.incident? ≠ some (lit "inc-2") := by
  simp only [exists_and_left]
  refine ⟨_, exec_nil _, reached (by decide +kernel) fun w₂ hopening (hrun :
    getIncident (lit "inc-2") w₂.process.records.db ≠ none ∧
    ∃ w, exec (stepNext (fun s => s) (fun n => n)) w₂ enabledOps = some w ∧
      w.effects.map SideEffect.incident? = [some (lit "inc-1")]) => ?_⟩
  obtain ⟨hopened, w, hrest, heffects⟩ := hrun
  obtain ⟨hauthorized, hquiet⟩ := effects_are_enabled (r := .empty) List.nodup_nil
      (exec_nil _) hopening hrest
  exact ⟨w, hrest, heffects, hauthorized, hquiet (lit "inc-2") rfl hopened (by decide)⟩

end KubeNeuron.Controller
