import KubeNeuron.Controller.ActionIdentity

/-!
# What an emergency stop does to the steps under way

The goroutine of a step whose row a stop cancelled fails its step like any other: the incident goes
up its ladder, unless the step is an idle guard or the ladder has no further rung. `StopWorld`
follows a goroutine from that failure to its write.
-/

namespace KubeNeuron.Controller

open Lib KubeNeuron.Types Store Playbooks

/-! ## Failure and the ladder -/

/-- The transition leaves playbook, step and attempt as the copy has them. -/
def Move.Keeps (inc : Incident) (m : Move) : Prop :=
  m.progress.playbook = inc.playbook ∧ m.progress.stepIndex = inc.stepIndex ∧
    m.progress.attempt = inc.attempt

/-- The failure of the step hands the incident over: the step is an idle guard, the incident has
used its escalations up, or its playbook escalates nowhere. -/
def Running.handsOver (r : Running) : Bool :=
  stepIsIdleGuard r.step || r.inc.attempt ≥ maxEscalationAttempts ||
    (r.cfg.engine.escalation r.inc.playbook).isNone

/-- **A failed step keeps the rung exactly when it hands over.** -/
theorem afterStep_failed_keeps_iff (r : Running) (err : Str) :
    (∃ m cancel, afterStep r.cfg r.inc r.step (.failed err) = .move m cancel ∧ m.Keeps r.inc) ↔
      r.handsOver = true := by
  have hquarantine reason :
      ∃ m cancel, quarantine r.inc reason = .move m cancel ∧ m.Keeps r.inc :=
    ⟨_, _, rfl, rfl, rfl, rfl⟩
  simp only [afterStep, Running.handsOver, Bool.or_eq_true, decide_eq_true_eq]
  by_cases hg : stepIsIdleGuard r.step = true
  · rw [if_pos hg]
    exact ⟨fun _ => .inl (.inl hg), fun _ => hquarantine _⟩
  rw [if_neg hg, escalate]
  by_cases hcap : r.inc.attempt ≥ maxEscalationAttempts
  · rw [if_pos hcap]
    exact ⟨fun _ => .inl (.inr hcap), fun _ => hquarantine _⟩
  rw [if_neg hcap]
  cases hn : r.cfg.engine.escalation r.inc.playbook with
  | none => exact ⟨fun _ => .inr rfl, fun _ => hquarantine _⟩
  | some =>
    constructor
    · rintro ⟨_, _, hp, -, -, ha⟩
      -- an escalation counts the attempt
      cases hp
      have hs : r.inc.attempt + 1 = r.inc.attempt := ha
      omega
    rintro ((h | h) | h)
    · exact absurd h hg
    · exact absurd h hcap
    · cases h

/-! ## The world -/

/-- The process with the history of its stops: the serials of the rows a stop cancelled before any
agent received them, for each goroutine whether its step failed on such a row, and, for each such
failure whose transition committed, the copy the step was started from and the incident that was
written. -/
structure StopWorld where
  steps : StepWorld
  revoked : List Nat
  struck : List Bool
  ended : List (Incident × Incident)

/-- A process that has just started. -/
def StopWorld.start (r : Records) (cfg : RuntimeConfig) : StopWorld := ⟨.start r cfg, [], [], []⟩

namespace StopWorld

variable (w : StopWorld)

/-- The rows a stop cancels before delivery. -/
def revokes : StepOp → List Nat
  | .queue (.safetyStop _) =>
    (w.steps.process.records.db.actions.filter fun r =>
      r.type ≠ actionRestoreAcceleratorHost && r.state = .pending).map ActionRow.serial
  | _ => []

/-- The goroutine finds its row cancelled by a stop. -/
def meets (i : Nat) : Bool :=
  match w.steps.stages[i]? with
  | some (.waiting _ a _) =>
    (w.steps.process.records.db.actions.find? fun r => r.id = a.id).any fun r =>
      w.revoked.contains r.serial && r.state = .cancelled
  | _ => false

/-- The goroutines that failed on such a row, in step with the goroutines. -/
def strike : StepOp → List Bool
  | .walk .launch => false :: w.struck
  | .walk (.stepCommit i _ _) => w.struck.eraseIdx i
  | .walk (.restart _) => []
  | .collect i => if w.meets i then w.struck.set i true else w.struck
  | _ => w.struck

/-- What the write of such a goroutine left. -/
def ends : StepOp → List (Incident × Incident)
  | .walk (.stepCommit i now fault) =>
    match w.steps.process.running[i]?, w.struck[i]? with
    | some ⟨inc, _, _, .writing m⟩, some true =>
      ((w.steps.process.leftBy (.move m now fault)).map fun after => (inc, after)).toList
    | _, _ => []
  | _ => []

end StopWorld

def stopNext (sha : Str → Str) (lo : Int → Int) (w : StopWorld) (op : StepOp) :
    Option StopWorld :=
  (stepNext sha lo w.steps op).map fun steps =>
    ⟨steps, w.revokes op ++ w.revoked, w.strike op, w.ends op ++ w.ended⟩

/-- A goroutine whose step failed on a row that a stop had cancelled hands its incident over. -/
def StopWorld.spares (w : StopWorld) : StepOp → Bool
  | .walk (.stepDone i _) =>
    w.struck[i]? ≠ some true || w.steps.process.running[i]?.all Running.handsOver
  | _ => true

open StopWorld

/-! ## The invariant -/

/-- A goroutine whose step failed on such a row: until it plans its write it can only report a
failure, and then its write keeps the rung. -/
def Running.Failing (r : Running) (stage : Option Stage) : Prop :=
  match r.phase with
  | .executing => stage = some .failed
  | .cancelling m => m.Keeps r.inc
  | .writing m => m.Keeps r.inc

/-- What the invariant says of a goroutine at its stage. -/
def Running.Kept (r : Running) (stage? : Option Stage) (struck : Option Bool) : Prop :=
  (∀ stage, stage? = some stage → stage.busy = true → r.phase = .executing) ∧
    (struck = some true → r.Failing stage?)

/-- The invariant of every run that meets the condition. -/
structure StopInv (w : StopWorld) : Prop where
  busy : ∀ (i : Nat) (r : Running) (stage : Stage), w.steps.process.running[i]? = some r →
    w.steps.stages[i]? = some stage → stage.busy = true → r.phase = .executing
  failing : ∀ (i : Nat) (r : Running), w.steps.process.running[i]? = some r →
    w.struck[i]? = some true → r.Failing w.steps.stages[i]?
  ended : ∀ pair ∈ w.ended, pair.2.playbook = pair.1.playbook ∧
    pair.2.attempt = pair.1.attempt ∧ pair.2.stepIndex = pair.1.stepIndex

theorem stopInv_start (r : Records) (cfg : RuntimeConfig) : StopInv (.start r cfg) where
  busy i r stage hr := by simp [start, StepWorld.start, WalkWorld.start] at hr
  failing i r hr := by simp [start, StepWorld.start, WalkWorld.start] at hr
  ended pair hp := absurd hp List.not_mem_nil

variable {sha : Str → Str} {lo : Int → Int} {w : StopWorld}

theorem stages_of_meets {i : Nat} {steps : StepWorld} (hmeets : w.meets i = true)
    (h : stepNext sha lo w.steps (.collect i) = some steps) :
    steps.stages = w.steps.stages.set i .failed := by
  simp only [meets] at hmeets
  split at hmeets
  next d a rest hg =>
    obtain ⟨row, hr, hcanc⟩ := Option.any_eq_true _ _ |>.mp hmeets
    simp only [Bool.and_eq_true, decide_eq_true_eq] at hcanc
    simp only [stepNext, hg, StepWorld.collectNext] at h
    split at h
    · exact congrArg StepWorld.stages (Option.some.inj h).symm
    rename_i found hf
    cases hr.symm.trans hf
    split at h
    · exact congrArg StepWorld.stages (Option.some.inj h).symm
    rename_i queued hs
    have hqueued : queued.cancelled = true := by
      simp only [scanAction, Option.bind_eq_bind, Option.bind_eq_some_iff, Option.some.injEq] at hs
      obtain ⟨-, -, -, -, -, -, rfl⟩ := hs
      exact decide_eq_true hcanc.2
    rw [hqueued, Bool.true_or] at h
    exact congrArg StepWorld.stages (Option.some.inj h).symm
  · cases hmeets

theorem StopInv.ends (hinv : StopInv w) (op : StepOp) :
    ∀ pair ∈ w.ends op, pair.2.playbook = pair.1.playbook ∧
      pair.2.attempt = pair.1.attempt ∧ pair.2.stepIndex = pair.1.stepIndex := by
  intro pair hp
  unfold StopWorld.ends at hp
  split at hp
  next i now fault =>
    split at hp
    next inc step cfg m hr hs =>
      obtain ⟨_, hl, rfl⟩ := Option.map_eq_some_iff.1 (Option.mem_toList.1 hp)
      obtain ⟨_, -, -, -, rfl⟩ := leftBy_move hl
      obtain ⟨hbook, hidx, ha⟩ : m.Keeps inc := hinv.failing i _ hr hs
      exact ⟨hbook, ha, hidx⟩
    · cases hp
  · cases hp

theorem StopWorld.strike_plain {op : WalkOp} (h : op.plain = true) :
    w.strike (.walk op) = w.struck := by
  cases op <;> first | rfl | cases h

section

variable (hinv : StopInv w)
include hinv

theorem StopInv.kept {i : Nat} {r : Running} (hr : w.steps.process.running[i]? = some r) :
    r.Kept w.steps.stages[i]? w.struck[i]? :=
  ⟨fun stage => hinv.busy i r stage hr, hinv.failing i r hr⟩

theorem StopInv.walked {op : WalkOp} {process : WalkWorld}
    (hspares : w.spares (.walk op) = true) (hm : w.steps.permits op = true)
    (h : Goroutines w.steps.process op process.running) (j : Nat) (r' : Running)
    (hr' : process.running[j]? = some r') :
    r'.Kept (w.steps.staged op)[j]? (w.strike (.walk op))[j]? := by
  generalize ha : process.running = running at h hr'
  cases h with
  | same hpl =>
    rw [StepWorld.staged_plain hpl, strike_plain hpl]
    exact hinv.kept hr'
  | launched =>
    cases j with
    | zero =>
      cases hr'
      exact ⟨fun _ _ _ => rfl, nofun⟩
    | succ => exact hinv.kept hr'
  | finished i outcome r m cancel hu hph hp =>
    rcases Nat.decEq i j with hne | rfl
    · rw [List.getElem?_set_ne hne] at hr'
      exact hinv.kept hr'
    obtain ⟨_, hg, hreports⟩ := (Option.any_eq_true _ _).1 hm
    refine ⟨fun stage' hg' hb => ?_, fun hs => ?_⟩
    · -- a goroutine that reports is not busy
      cases hg.symm.trans hg'
      rw [Stage.reports_of_busy hb] at hreports
      cases hreports
    -- its stage is the failed one, so what it reports is a failure
    have hfailed : w.steps.stages[i]? = some .failed := by
      have hf := hinv.failing i r hu hs
      rwa [Running.Failing, hph] at hf
    cases hg.symm.trans hfailed
    have hhands : r.handsOver = true := by
      have hs' : w.struck[i]? = some true := hs
      simpa [spares, hs', hu] using hspares
    cases outcome with
    | ok => cases hreports
    | failed =>
      obtain ⟨_, _, hp', hk⟩ := (afterStep_failed_keeps_iff _ _).2 hhands
      obtain ⟨rfl, -⟩ := Plan.move.inj (hp.symm.trans hp')
      obtain ⟨hlt, -⟩ := List.getElem?_eq_some_iff.1 hu
      rw [List.getElem?_set_self hlt] at hr'
      cases hr'
      cases cancel with
      | false | true => exact hk
  | cancelled i r m _ _ hu hph =>
    rcases Nat.decEq i j with hne | rfl
    · rw [List.getElem?_set_ne hne] at hr'
      exact hinv.kept hr'
    obtain ⟨hlt, -⟩ := List.getElem?_eq_some_iff.1 hu
    refine ⟨fun stage' hg' hb => ?_, fun hs => ?_⟩
    · cases hph.symm.trans (hinv.busy i r stage' hu hg' hb)
    have hk : m.Keeps r.inc := by
      have hf := hinv.failing i r hu hs
      rwa [Running.Failing, hph] at hf
    rw [List.getElem?_set_self hlt] at hr'
    cases hr'
    exact hk
  | wrote =>
    simp only [strike, StepWorld.staged, List.getElem?_eraseIdx] at hr' ⊢
    split_ifs at hr' ⊢
    all_goals exact hinv.kept hr'
  | ended => simp at hr'

theorem StopInv.moved {op : StepOp} {steps : StepWorld}
    (hop : ∀ wop, op ≠ .walk wop) (h : stepNext sha lo w.steps op = some steps) (j : Nat)
    (r : Running)
    (hr : w.steps.process.running[j]? = some r) : r.Kept steps.stages[j]? (w.strike op)[j]? := by
  -- a goroutine that had failed on a cancelled row before keeps its stage
  have hk : r.Kept steps.stages[j]? w.struck[j]? := by
    rcases stages_of_next h hop with he | ⟨i, before, _, hbef, hb', hs⟩
    · rw [he]
      exact hinv.kept hr
    rw [hs]
    rcases Nat.decEq i j with hne | rfl
    · rw [List.getElem?_set_ne hne]
      exact hinv.kept hr
    have hexec := hinv.busy i r before hr hbef hb'
    refine ⟨fun _ _ _ => hexec, fun hstruck => ?_⟩
    have hf := hinv.failing i r hr hstruck
    rw [Running.Failing, hexec, hbef] at hf
    cases hf
    cases hb'
  cases op with
  | walk wop => exact absurd rfl (hop wop)
  | collect i =>
    simp only [strike]
    split_ifs with hmeets
    · rcases Nat.decEq i j with hne | rfl
      · rw [List.getElem?_set_ne hne]
        exact hk
      -- it fails now
      refine ⟨hk.1, fun _ => ?_⟩
      obtain ⟨stage, hg, hw⟩ : ∃ stage, w.steps.stages[i]? = some stage ∧ stage.busy = true := by
        simp only [meets] at hmeets
        split at hmeets
        · next hg => exact ⟨_, hg, rfl⟩
        · cases hmeets
      obtain ⟨hlt, -⟩ := List.getElem?_eq_some_iff.1 hg
      rw [Running.Failing, hinv.busy i r stage hr hg hw, stages_of_meets hmeets h,
        List.getElem?_set_self hlt]
    · exact hk
  | _ => exact hk

/-- **One operation keeps the invariant.** -/
theorem StopInv.step {w' : StopWorld} {op : StepOp} (hspares : w.spares op = true)
    (h : stopNext sha lo w op = some w') : StopInv w' := by
  obtain ⟨steps, hsteps, rfl⟩ := Option.map_eq_some_iff.1 h
  have he := List.forall_mem_append.2 ⟨hinv.ends op, hinv.ended⟩
  by_cases hop : ∃ wop, op = .walk wop
  · obtain ⟨_, rfl⟩ := hop
    simp only [stepNext, StepWorld.walkNext] at hsteps
    split_ifs at hsteps with hm
    obtain ⟨_, hp, rfl⟩ := Option.map_eq_some_iff.1 hsteps
    have hkept := hinv.walked hspares hm (walkStep_of_next hp).goroutines
    exact ⟨fun i r stage hr => (hkept i r hr).1 stage, fun i r hr => (hkept i r hr).2, he⟩
  · have ho : ∀ wop, op ≠ .walk wop := fun wop heq => hop ⟨wop, heq⟩
    have hr : steps.process.running = w.steps.process.running := by
      rcases (stepEffect_of_next hsteps).process with
        ⟨wop, heq, -⟩ | ⟨f, hp⟩ | ⟨node, bootID, hp⟩ | hp
      · exact absurd heq (ho wop)
      · rw [hp]
        rfl
      · rw [hp]
        rfl
      · rw [hp]
    have hkept := hinv.moved ho hsteps
    rw [← hr] at hkept
    exact ⟨fun i r stage hr => (hkept i r hr).1 stage, fun i r hr => (hkept i r hr).2, he⟩

end

/-- **A stop does not move an incident whose step hands over.** In every run in which each step that
failed on an action a stop had cancelled before delivery is an idle guard, or belongs to an incident
that has no further rung, the transition after that failure leaves the playbook, the attempt and the
step index as they were when the step was started. -/
theorem stopped_steps_keep_rung {sha : Str → Str} {lo : Int → Int} {r : Records}
    {cfg : RuntimeConfig} {ops : List StepOp} {w : StopWorld}
    (hspares : Along (stopNext sha lo) (fun w op => w.spares op = true) (.start r cfg) ops)
    (h : exec (stopNext sha lo) (.start r cfg) ops = some w) :
    ∀ pair ∈ w.ended, pair.2.playbook = pair.1.playbook ∧
      pair.2.attempt = pair.1.attempt ∧ pair.2.stepIndex = pair.1.stepIndex := by
  have hinv : StopInv w :=
    exec_invariant_along (fun _ _ _ hinv hok hstep => hinv.step hok hstep) (stopInv_start r cfg)
      hspares h
  exact hinv.ended

/-! ## A stop during a step -/

/-- A ladder of two playbooks, the first of which has the given steps. -/
def ladderConfig (steps : List Step) : RuntimeConfig :=
  ⟨⟨KeyMap.ofEntries
      [(lit "drain", ⟨lit "drain", lit "node", 0, steps, lit "reset"⟩),
        (lit "reset", ⟨lit "reset", lit "node", 0, [deviceResetStep], []⟩)], []⟩,
    some false, fun _ _ => (0, 100), 50, 1000⟩

/-- The step of the sample incident is asked for; automation is paused and resumed before an agent
polls, and the goroutine finds its action cancelled. -/
def stoppedRun : List StepOp :=
  (openingOps ++ startOps 3).map .walk ++ askOps ++
    [.queue (.safetyStop 11), .queue (.safetyStop 12), .collect 0,
      .walk (.stepDone 0 (.failed (lit "cancelled before delivery"))), .walk (.stepCancel 0 13 13),
      .walk (.stepCommit 0 4 false)]

/-- An incident whose playbook is the last one is handed over on its rung. -/
theorem stopped_step_on_last_rung : ∃ w before after, exec (stopNext (fun s => s) (fun _ => 0))
        (.start .empty (sampleConfig [bundleStep])) stoppedRun = some w ∧
      w.ended = [(before, after)] ∧ after.state = .needsHuman ∧
        after.playbook = before.playbook := by
  simp only [exists_and_left]
  refine reached (by decide +kernel) fun w hexec (hrun : w.ended.length = 1 ∧
    ∀ pair ∈ w.ended, pair.2.state = .needsHuman) => ?_
  obtain ⟨⟨before, after⟩, hended⟩ := List.length_eq_one_iff.mp hrun.1
  have hmem : (before, after) ∈ w.ended := hended ▸ (.head _)
  exact ⟨before, after, hended, hrun.2 _ hmem,
    (stopped_steps_keep_rung (by decide +kernel) hexec _ hmem).1⟩

/-- **A stop and its resume move an incident up.** No agent ever received the action, and the
incident is on the next playbook with another attempt counted. -/
theorem stop_climbs_ladder :
    ∃ w, exec (stopNext (fun s => s) (fun _ => 0)) (.start .empty (ladderConfig [bundleStep]))
        stoppedRun = some w ∧
      (∀ r ∈ w.steps.process.records.db.actions, r.state = .cancelled ∧ r.attempts = 0) ∧
      ∃ pair ∈ w.ended, pair.1.playbook = lit "drain" ∧ pair.1.attempt = 0 ∧
        pair.2.playbook = lit "reset" ∧ pair.2.attempt = 1 ∧
        pair.2 ∈ w.steps.process.records.db.incidents := by
  decide +kernel

end KubeNeuron.Controller
