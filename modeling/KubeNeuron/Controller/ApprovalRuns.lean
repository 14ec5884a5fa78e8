import KubeNeuron.Controller.Rounds

/-!
# Approvals

The walk resumes a parked incident in two reads: the latest decision of the round, then the request
it answers. Between the first read and the commit of the start it looks at the decisions no more
(`rejected_step_starts`).
-/

namespace KubeNeuron.Controller

open Lib KubeNeuron.Types Store Playbooks

/-! ## What a pass has read -/

/-- Among the first `readAt` rows, the latest decision of the incident's round is the approval
`d`. -/
structure ApprovalRead (inc : Incident) (readAt : Nat) (approvals : List Approval) (d : Approval) :
    Prop where
  round : inc.approvalEpoch ≠ 0
  read : readAt ≤ approvals.length
  latest : latestApprovalDecision inc.id inc.approvalEpoch (approvals.take readAt) = some d
  decision : d.decision = .approved

/-- The step is the current one of the incident and, when it needs approval, an approval was read
and the round has a request that names it. -/
structure StepAuthorized (sha : Str → Str) (cfg : RuntimeConfig) (inc : Incident)
    (readAt : Nat) (approvals : List Approval) (step : Step) : Prop where
  current : cfg.engine.nextStep inc.playbook inc.stepIndex = .step step
  approved : step.needsApproval = true → ∃ d, ApprovalRead inc readAt approvals d ∧
    ∃ request ∈ roundRequests inc.id inc.approvalEpoch approvals,
      NamesStep sha request inc.playbook step

/-- What holds of the step the pass is about to start. -/
def Pass.Vetted (sha : Str → Str) (p : Pass) (approvals : List Approval) : Prop :=
  match p.phase with
  | .comparing step d =>
    p.cfg.engine.nextStep p.inc.playbook p.inc.stepIndex = .step step ∧
      ApprovalRead p.inc p.readAt approvals d
  | .starting step _ | .locked step _ | .admitted step _ =>
    StepAuthorized sha p.cfg p.inc p.readAt approvals step
  | _ => True

variable {inc : Incident} {sha : Str → Str} {p : Pass} {w w' : WalkWorld} {op : WalkOp}

variable {d : Approval} {cfg : RuntimeConfig} {p' : Pass}

theorem ApprovalRead.mono {readAt : Nat} {approvals : List Approval}
    (h : ApprovalRead inc readAt approvals d) (more : List Approval) :
    ApprovalRead inc readAt (approvals ++ more) d := by
  refine ⟨h.round, ?_, ?_, h.decision⟩
  · rw [List.length_append]
    exact Nat.le_add_right_of_le h.read
  · rw [List.take_append_of_le_length h.read]
    exact h.latest

theorem StepAuthorized.mono {readAt : Nat} {approvals : List Approval} {step : Step}
    (h : StepAuthorized sha cfg inc readAt approvals step) (more : List Approval) :
    StepAuthorized sha cfg inc readAt (approvals ++ more) step := by
  refine ⟨h.current, fun hneeds => ?_⟩
  obtain ⟨d, hr, request, hq, hnm⟩ := h.approved hneeds
  refine ⟨d, hr.mono more, request, ?_, hnm⟩
  rw [roundRequests_append]
  exact List.mem_append_left _ hq

theorem Pass.Vetted.mono {approvals : List Approval}
    (h : p.Vetted sha approvals) (more : List Approval) : p.Vetted sha (approvals ++ more) := by
  unfold Pass.Vetted at h ⊢
  split at h
  · exact h.imp_right fun hr => hr.mono more
  · exact h.mono more
  · exact h.mono more
  · exact h.mono more
  · trivial

/-! ## The decisions of the walk -/

theorem Plan.Within.not_start {plan : Plan} {dests : List IncidentState}
    (h : plan.Within inc dests) (hdests : .executing ∉ dests) (step : Step) (actor : Str) :
    plan ≠ .start step actor := by
  rintro rfl
  exact hdests h

theorem advanceEvaluating_start {t : Tick} {step : Step} {actor : Str}
    (h : advanceEvaluating sha cfg t inc = .start step actor) :
    cfg.engine.nextStep inc.playbook inc.stepIndex = .step step ∧ step.needsApproval = false := by
  revert h
  fun_cases advanceEvaluating sha cfg t inc with
  | case3 _ _ _ plan hb =>
    -- the checks before the first step start nothing
    split at hb
    · exact fun h => absurd h ((beforeFirstStep_within hb).not_start (by decide) step actor)
    · cases hb
  | case6 _ _ _ _ step' hs =>
    fun_cases evaluateStep sha cfg t inc step' with
    | case1 | case3 =>
      exact fun h => absurd h ((escalate_within cfg inc _).not_start (by decide) step actor)
    | case5 _ _ hneeds =>
      rintro ⟨⟩
      exact ⟨hs, Bool.eq_false_iff.2 hneeds⟩
    | _ => rintro ⟨⟩
  | _ => rintro ⟨⟩

theorem advanceAwaitingApproval_compare {t : Tick} {decision : Option Approval} {step : Step}
    (h : advanceAwaitingApproval cfg t inc decision = .compare step d) :
    decision = some d ∧ d.decision = .approved ∧
      cfg.engine.nextStep inc.playbook inc.stepIndex = .step step := by
  revert h
  fun_cases advanceAwaitingApproval cfg t inc decision with
  | case2 _ _ hs ha =>
    rintro ⟨⟩
    exact ⟨rfl, ha, hs⟩
  | _ => rintro ⟨⟩

theorem honourApproval_start {t : Tick}
    {step step' : Step} {request : Option Approval} {actor : Str}
    (h : honourApproval sha t inc step d request = .start step' actor) :
    step' = step ∧ ∃ r, request = some r ∧ NamesStep sha r inc.playbook step := by
  revert h
  fun_cases honourApproval sha t inc step d request with
  | case4 r h0 =>
    rintro ⟨⟩
    rw [requestMismatch] at h0
    split_ifs at h0 with hbook hn ha hhash
    exact ⟨rfl, r, rfl, Decidable.not_not.1 hbook, Decidable.not_not.1 hn,
      Decidable.not_not.1 ha, Decidable.not_not.1 hhash⟩
  | _ => rintro ⟨⟩

/-! ## The moves of a pass -/

theorem Pass.vetted_follow {approvals : List Approval} {plan : Plan} (h : p.follow plan = some p')
    (hs : ∀ step actor, plan = .start step actor →
      StepAuthorized sha p.cfg p.inc p.readAt approvals step) :
    p'.Vetted sha approvals := by
  revert h
  fun_cases Pass.follow p plan with
  | case1 => rintro ⟨⟩
  | case5 step actor =>
    rintro ⟨⟩
    exact hs step actor rfl
  | _ =>
    rintro ⟨⟩
    trivial

theorem Turn.vetted (h : Turn sha w p op (some p')) (hvetted : p.Vetted sha w.records.approvals) :
    p'.Vetted sha w.records.approvals := by
  -- the plans that start no step
  have hpl : ∀ {q : Pass} {plan : Plan} {dests : List IncidentState}, plan.Within q.inc dests →
      .executing ∉ dests → q.follow plan = some p' → p'.Vetted sha w.records.approvals :=
    fun hl hdests hf => Pass.vetted_follow hf fun step actor heq =>
      absurd heq (hl.not_start hdests step actor)
  unfold Pass.Vetted at hvetted
  generalize hp' : some p' = q at h
  cases h with
  | nodeClear =>
    cases hp'
    trivial
  | planned t _ hl =>
    subst hp'
    rcases planOf_follows hl with
      ⟨_, -, rfl⟩ | ⟨-, -, hf⟩ | ⟨_, _, hin, hs, -, -, hf⟩
    · trivial
    · apply Pass.vetted_follow hf
      intro step actor heq
      obtain ⟨hc, hneeds⟩ := advanceEvaluating_start heq
      refine ⟨hc, fun hneeds' => ?_⟩
      rw [hneeds] at hneeds'
      cases hneeds'
    · exact hpl hin hs hf
  | decided _ _ _ _ _ _ hl =>
    exact hpl (q := { p with readAt := w.records.approvals.length })
      (advanceAwaitingApproval_within hl) (by decide) hp'.symm
  | approved _ _ _ _ _ _ hep hl =>
    cases hp'
    obtain ⟨hlatest, ha, hc⟩ := advanceAwaitingApproval_compare hl
    refine ⟨hc, hep, Nat.le_refl _, ?_, ha⟩
    rw [List.take_length]
    exact hlatest
  | compared _ _ _ d hph =>
    rw [hph] at hvetted
    obtain ⟨hc, hr⟩ := hvetted
    apply Pass.vetted_follow hp'.symm
    intro step' actor heq
    obtain ⟨rfl, request, hq, hnm⟩ := honourApproval_start heq
    refine ⟨hc, fun _ => ⟨d, hr, request, ?_, hnm⟩⟩
    -- the request that was found is one of the round
    split at hq
    · cases hq
    · obtain ⟨hm, hid, hround, hd⟩ := getApprovalRequest_spec hq
      exact List.mem_filter.2 ⟨hm, by simp [hid, hround, hd]⟩
  | locked _ _ hph | admitted _ _ _ hph =>
    rw [hph] at hvetted
    cases hp'
    exact hvetted
  | refused _ _ _ _ _ hl =>
    exact hpl (admitStep_within hl) (by decide) hp'.symm
  | _ => cases hp'

/-! ## Runs -/

theorem WalkStep.approvals (h : WalkStep sha w op w') (hi : ThreadInv w) :
    ∃ more, w'.records.approvals = w.records.approvals ++ more := by
  have he : w'.records.approvals = w.records.approvals →
      ∃ more, w'.records.approvals = w.records.approvals ++ more :=
    fun heq => ⟨[], by rw [heq, List.append_nil]⟩
  rcases h.writers with ⟨heq, -⟩ | ⟨_, ha, hp, -⟩
  · exact he (congrArg (fun v => v.records.approvals) heq)
  have hf := ha.effect hi
  rw [← hp] at hf
  cases hf with
  | quiet _ approvals =>
    rcases approvals with heq | ⟨a, -, hm⟩
    · exact he heq
    · exact ⟨[a], hm⟩
  | wrote _ _ asked _ _ approvals => exact ⟨asked, approvals⟩
  | revised _ _ _ _ approvals | opened _ _ _ approvals => exact he approvals

theorem PassFrom.config {q : Pass} (h : PassFrom sha w op q) :
    (∃ p, w.pass = some p ∧ q.cfg = p.cfg ∧ q.gen = p.gen ∧
      (q.locks = true → p.locks = true ∨ p.gen = w.gen)) ∨ (q.cfg = w.live ∧ q.gen = w.gen) := by
  cases h with
  | kept hp => exact .inl ⟨q, hp, rfl, rfl, .inl⟩
  | picked _ _ hq =>
    subst hq
    exact .inr ⟨rfl, rfl⟩
  | turned p hp ht => exact .inl ⟨p, hp, ht.kept.cfg, ht.kept.gen, ht.kept.locks⟩
  | cancelled p _ hp _ hq =>
    subst hq
    exact .inl ⟨p, hp, rfl, rfl, nofun⟩
  | wrote p _ _ _ _ _ hp hwr _ hn =>
    left
    cases hwr with
    | move | park => cases hn
    | bind =>
      cases hn
      exact ⟨p, hp, rfl, rfl, nofun⟩
    | execute _ _ hph =>
      cases hn
      refine ⟨p, hp, rfl, rfl, fun _ => .inl ?_⟩
      rw [Pass.locks, hph]

theorem WalkStep.config (h : WalkStep sha w op w') : (w'.gen = w.gen ∧ w'.live = w.live) ∨
      (w'.gen = w.gen + 1 ∧ ∀ p, w'.pass = some p → w.pass = some p ∧ p.locks = false) := by
  cases h with
  | installed _ hlock =>
    refine .inr ⟨rfl, fun p hp => ⟨hp, ?_⟩⟩
    have ha : w.pass = some p := hp
    rw [ha] at hlock
    exact hlock
  | restarted =>
    refine .inr ⟨rfl, fun p hp => ?_⟩
    cases hp
  | side sop =>
    cases sop with
    | none | some => exact .inl ⟨rfl, rfl⟩
  | _ => exact .inl ⟨rfl, rfl⟩

/-- The configuration of the pass is the installed one as long as none was installed after it, and
that is so while the pass holds the lock. -/
structure PinInv (w : WalkWorld) : Prop where
  pinned : ∀ p, w.pass = some p → p.gen ≤ w.gen ∧ (p.gen = w.gen → p.cfg = w.live)
  locked : ∀ p, w.pass = some p → p.locks = true → p.gen = w.gen

theorem PinInv.step (hi : PinInv w) (h : WalkStep sha w op w') : PinInv w' := by
  rcases h.config with ⟨hgen, hl⟩ | ⟨hgen, hk⟩
  · refine ⟨fun q hq => ?_, fun q hq hlocks => ?_⟩
    · rw [hgen, hl]
      rcases (h.pass_from hq).config with ⟨p, hp, hcfg, hpgen, -⟩ | ⟨hcfg, hqgen⟩
      · rw [hcfg, hpgen]
        exact hi.pinned p hp
      · exact ⟨Nat.le_of_eq hqgen, fun _ => hcfg⟩
    rw [hgen]
    rcases (h.pass_from hq).config with ⟨p, hp, -, hpgen, htook⟩ | ⟨-, hqgen⟩
    · rw [hpgen]
      exact (htook hlocks).elim (hi.locked p hp) id
    · exact hqgen
  · -- a pass that outlives an install is behind it and does not hold the lock
    refine ⟨fun q hq => ?_, fun q hq hlocks => ?_⟩
    · have hle := (hi.pinned q (hk q hq).1).1
      exact ⟨by omega, fun heq => by omega⟩
    · rw [(hk q hq).2] at hlocks
      cases hlocks

/-- The pass has read what it needs for the step it is about to start. -/
structure ApprovalInv (sha : Str → Str) (w : WalkWorld) : Prop where
  threads : ThreadInv w
  pins : PinInv w
  vetted : ∀ p, w.pass = some p → p.Vetted sha w.records.approvals

theorem ApprovalInv.step
    (hi : ApprovalInv sha w) (h : WalkStep sha w op w') : ApprovalInv sha w' := by
  refine ⟨hi.threads.step h, hi.pins.step h, fun q hq => ?_⟩
  obtain ⟨more, hm⟩ := h.approvals hi.threads
  rw [hm]
  refine Pass.Vetted.mono ?_ more
  cases h.pass_from hq with
  | kept hp => exact hi.vetted q hp
  | picked _ _ hq | cancelled _ _ _ _ hq =>
    subst hq
    trivial
  | turned p hp ht => exact ht.vetted (hi.vetted p hp)
  | wrote _ _ _ _ _ _ _ hwr _ hn =>
    -- what is left to do after a write starts no step
    cases hwr with
    | move | park => cases hn
    | bind | execute =>
      cases hn
      trivial

/-- **A step that needs approval starts only on an approval of its round.** When an operation moves
an incident into `executing` and its current step needs approval, the walk has admitted that step
after it read an approval of the incident's current round, and the only request of the round names
the step. -/
theorem started_step_approved {sha : Str → Str} {r : Records} (hstart : BeforeRounds r)
    {cfg : RuntimeConfig} {ops : List WalkOp} {w w' : WalkWorld}
    (hrun : exec (walkNext sha) (.start r cfg) ops = some w)
    (hclose : ∀ op ∈ ops, op.closes = false) {op : WalkOp} (hstep : walkNext sha w op = some w')
    {id : Str} {row' : Incident} (hrow' : getIncident id w'.records.db = some row')
    (hstate : row'.state = .executing)
    (hnew : ∀ row, getIncident id w.records.db = some row → row.state ≠ .executing)
    {step : Step} (hcurrent : w.live.engine.nextStep row'.playbook row'.stepIndex = .step step)
    (hneeds : step.needsApproval = true) :
    ∃ p actor row d request, w.pass = some p ∧ p.phase = .admitted step actor ∧
      getIncident id w.records.db = some row ∧ row'.approvalEpoch = row.approvalEpoch ∧
      1 ≤ row'.approvalEpoch ∧
      latestApprovalDecision id row'.approvalEpoch (w.records.approvals.take p.readAt) = some d ∧
      d.decision = .approved ∧
      roundRequests id row'.approvalEpoch w.records.approvals = [request] ∧
      NamesStep sha request row'.playbook step := by
  have hinv : ApprovalInv sha w := by
    refine exec_invariant (fun _ _ _ hinv hnext => hinv.step (walkStep_of_next hnext)) ?_ hrun
    refine ⟨threadInv_start hstart.ids cfg, ⟨?_, ?_⟩, ?_⟩
    all_goals
      intro p hp
      cases hp
  have hrounds := roundsInv_exec hstart hclose hrun
  obtain ⟨p, _, row, hstarted⟩ :=
    (walkStep_of_next hstep).started hinv.threads hrow' hstate hnew
  obtain ⟨actor, _, hphase, -, rfl⟩ := hstarted.wrote
  have hpass := hstarted.pass
  have hid := getIncident_id hrow'
  -- the step the walk admitted is the current one of the installed configuration
  have hauthorized := hinv.vetted p hpass
  rw [Pass.Vetted, hphase] at hauthorized
  have hlive : p.cfg = w.live := by
    refine (hinv.pins.pinned p hpass).2 (hinv.pins.locked p hpass ?_)
    rw [Pass.locks, hphase]
  rw [hlive] at hauthorized
  have hsame := hauthorized.current.symm.trans hcurrent
  cases hsame
  obtain ⟨d, hread, request, hrequest, hnames⟩ := hauthorized.approved hneeds
  -- the copy of the walk is in the round of the row
  have hfound := hstarted.found
  rw [hid] at hfound
  have hcopy : p.inc.id = id := hstarted.id.symm.trans (getIncident_id hfound)
  have hopen : row.state.terminal = false := by
    rw [state_of_fenced hstarted.fence]
    exact open_of_canTransition hstarted.legal
  have hepoch : p.inc.approvalEpoch = row.approvalEpoch := by
    refine hrounds.copies p.inc (WalkWorld.mem_worked.mpr (.inl ⟨p, hpass, rfl⟩)) row ?_ hopen
    rw [hcopy]
    exact hfound
  obtain ⟨_, hcount⟩ := hrounds.rows id row hfound hopen
  have hround : 1 ≤ row.approvalEpoch := by
    have hne := hread.round
    omega
  rw [hcopy, hepoch] at hrequest
  have hlatest := hread.latest
  rw [hcopy, hepoch] at hlatest
  have hone := hcount row.approvalEpoch hround
  rw [if_pos (Int.le_refl _)] at hone
  obtain ⟨_, honly⟩ := List.length_eq_one_iff.mp hone
  rw [honly] at hrequest
  obtain rfl := List.mem_singleton.mp hrequest
  refine ⟨p, actor, row, d, request, hpass, hphase, hfound, hepoch, ?_, ?_, hread.decision,
    ?_, hnames⟩
  · exact hepoch ▸ hround
  · exact hepoch ▸ hlatest
  · exact hepoch ▸ honly

/-- The sample incident is approved, and its step starts. -/
theorem started_step_approved_of_approval :
    ∃ w w' row' p request, exec (walkNext id) (.start .empty (sampleConfig [resetStep]))
        (openingOps ++ parkOps 3 ++ approveOps 4 ++ resumeOps 5) = some w ∧
      walkNext id w (.commit 6 false) = some w' ∧
      getIncident (lit "inc-1") w'.records.db = some row' ∧ row'.state = .executing ∧
      w.pass = some p ∧ row'.approvalEpoch = 1 ∧
      roundRequests (lit "inc-1") 1 w.records.approvals = [request] ∧
      NamesStep id request row'.playbook resetStep := by
  simp only [exists_and_left]
  refine reached (by decide +kernel) fun w hw (hrun :
    (∀ row, getIncident (lit "inc-1") w.records.db = some row → row.state ≠ .executing) ∧
    ∃ w', walkNext id w (.commit 6 false) = some w' ∧
      ∃ row', getIncident (lit "inc-1") w'.records.db = some row' ∧ row'.state = .executing ∧
        row'.approvalEpoch = 1 ∧
        w.live.engine.nextStep row'.playbook row'.stepIndex = .step resetStep) => ?_
  obtain ⟨hnew, w', hw', row', hrow', hstate, hepoch, hcurrent⟩ := hrun
  obtain ⟨p, _, _, _, request, hpass, -, -, -, -, -, -, honly, hnames⟩ :=
    started_step_approved beforeRounds_empty hw (by decide +kernel) hw' hrow' hstate hnew hcurrent
      (by decide)
  rw [hepoch] at honly
  exact ⟨w', hw', row', hrow', hstate, p, hpass, hepoch, request, honly, hnames⟩

/-- A second human rejects the sample incident when the walk has read the approval of the first one:
the step starts although the latest decision of its round is a rejection. -/
theorem rejected_step_starts :
    ∃ w w' row' d, exec (walkNext id) (.start .empty (sampleConfig [resetStep]))
        (openingOps ++ parkOps 3 ++ approveOps 4 ++
          [.list, .pick, .readDecision (sampleTick 5) false] ++
          [.decideOpen (lit "inc-1") 1, .decideRequest 0, .decideCheck 0,
            .decideRecord 0 .rejected (lit "bob") (lit "cli") 5] ++
          [.readRequest (sampleTick 5) false, .lock, .admission (sampleTick 5)]) = some w ∧
      walkNext id w (.commit 6 false) = some w' ∧
      getIncident (lit "inc-1") w'.records.db = some row' ∧ row'.state = .executing ∧
      w.live.engine.nextStep row'.playbook row'.stepIndex = .step resetStep ∧
      resetStep.needsApproval = true ∧
      latestApprovalDecision (lit "inc-1") row'.approvalEpoch w.records.approvals = some d ∧
      d.decision = .rejected := by
  simp only [exists_and_left]
  decide +kernel

end KubeNeuron.Controller
