import KubeNeuron.Controller.StepWorld

/-!
# The identity of agent actions

The ID of an agent action is a digest of the incident, the step index and the attempt, not of what
the action does, and an enqueue whose ID is in the queue is ignored. As long as a step dispatched
again at one index and attempt is the same step on the same device, and the hash has no collision,
every accepted result is that of the action asked for (`accepted_results_match`).
-/

namespace KubeNeuron.Controller

open Lib KubeNeuron.Types Store Playbooks

variable {type : Str} {sha : Str → Str} {w w' : StepWorld}

/-! ## The texts of IDs -/

/-- What an action ID stands for. -/
def stepKey (inc : Incident) : Str × Int × Int := (inc.id, inc.stepIndex, inc.attempt)

theorem bar_not_mem_intText (i : Int) : (0x7C : UInt8) ∉ intText i := by
  intro hm
  have hdigit := mem_intText hm
  revert hdigit
  decide

theorem actionText_eq (inc : Incident) : actionText inc =
      (inc.id ++ 0x7C :: intText inc.stepIndex) ++ 0x7C :: intText inc.attempt := by
  have hbar : lit "|" = [0x7C] := by decide
  simp [actionText, hbar]

theorem restoreText_eq (node : Str) (attempt : Nat) : restoreText node attempt =
      (node ++ 0x7C :: lit "restore-accelerator-host") ++ 0x7C :: intText attempt := by
  have hbar : lit "|restore-accelerator-host|" =
      0x7C :: (lit "restore-accelerator-host" ++ [0x7C]) := by decide
  simp [restoreText, hbar, intText]

variable {inc inc' : Incident} {row : ActionRow}

theorem stepKey_of_actionText (h : actionText inc = actionText inc') :
    stepKey inc = stepKey inc' := by
  rw [actionText_eq, actionText_eq] at h
  obtain ⟨hh, ha⟩ :=
    append_sep_inj (bar_not_mem_intText _) (bar_not_mem_intText _) h
  obtain ⟨hid, hidx⟩ :=
    append_sep_inj (bar_not_mem_intText _) (bar_not_mem_intText _) hh
  rw [stepKey, stepKey, hid, intText_injective hidx, intText_injective ha]

theorem actionText_of_stepKey (h : stepKey inc = stepKey inc') :
    actionText inc = actionText inc' := by
  obtain ⟨hid, ht⟩ := Prod.mk.inj h
  obtain ⟨hidx, ha⟩ := Prod.mk.inj ht
  rw [actionText, actionText, hid, hidx, ha]

theorem restoreText_ne_actionText (node : Str) (attempt : Nat) (inc : Incident) :
    restoreText node attempt ≠ actionText inc := by
  intro h
  rw [restoreText_eq, actionText_eq] at h
  obtain ⟨hh, -⟩ := append_sep_inj (bar_not_mem_intText _) (bar_not_mem_intText _) h
  obtain ⟨-, hword⟩ := append_sep_inj (by decide) (bar_not_mem_intText _) hh
  have hm : 0x72 ∈ intText inc.stepIndex := by
    rw [← hword]
    decide
  have hdigit := mem_intText hm
  revert hdigit
  decide

/-! ## The action of a step -/

/-- A step with this action asks the agent for an action of this type. -/
def Asks (wire type : Str) : Prop :=
  ∃ action calls, byWire wire = some action ∧ stepCalls action = some calls ∧
    Call.agent type ∈ calls

theorem Asks.unique {wire type' : Str} (h : Asks wire type) (h' : Asks wire type') :
    type = type' := by
  obtain ⟨_, _, ha, hc, hm⟩ := h
  obtain ⟨_, _, ha', hc', hm'⟩ := h'
  cases ha.symm.trans ha'
  cases hc.symm.trans hc'
  unfold stepCalls at hc
  split at hc
  · rw [platformCalls] at hc
    split_ifs at hc <;> cases hc <;> simp_all
  all_goals
    cases hc
    simp_all

theorem Asks.reboot {wire : Str} (h : Asks wire (lit "reboot")) : wire = lit "agent.reboot" := by
  obtain ⟨action, calls, hact, hc, hm⟩ := h
  have ha : definitions.all fun d =>
      !((stepCalls d).any fun calls => calls.contains (.agent (lit "reboot"))) ||
        decide (d.wire = lit "agent.reboot") := by decide +kernel
  have hact' := List.all_eq_true.1 ha action (List.mem_of_find?_eq_some hact)
  have hwire : action.wire = wire := by simpa using List.find?_some hact
  rw [hc, Option.any_some, List.contains_iff_mem.2 hm] at hact'
  rw [← hwire]
  simpa using hact'

/-- What the row of an action says. -/
structure Content where
  id : Str
  node : Str
  incidentID : Str
  type : Str
  params : Str

/-- The columns of a row that its enqueue wrote for good. -/
def rowContent (r : ActionRow) : Content := ⟨r.id, r.node, r.incidentID, r.type, r.params⟩

def actionContent (node : Str) (a : Action) : Content :=
  ⟨a.id, node, a.incidentID, a.type, paramsText a.params⟩

/-! ## The queue -/

theorem content_of_updateWhere {p : ActionRow → Bool} {f : ActionRow → ActionRow}
    {rows : List ActionRow} (h : row ∈ updateWhere p f rows)
    (hf : ∀ r, rowContent (f r) = rowContent r) :
    ∃ row0 ∈ rows, rowContent row = rowContent row0 := by
  have hm : rowContent row ∈ rows.map rowContent :=
    map_updateWhere rowContent hf rows ▸ List.mem_map_of_mem h
  simpa [eq_comm] using hm

theorem QueueOp.run_content (op : QueueOp) (db : Database)
    (h : row ∈ (op.run db).actions) : ∃ row0 ∈ db.actions, rowContent row = rowContent row0 := by
  cases op with
  | deadLetter | cancel | safetyStop => exact content_of_updateWhere h fun _ => rfl
  | lease c =>
    have hl : row ∈ (leaseCandidate c db).1.actions := h
    unfold leaseCandidate at hl
    split at hl
    · exact ⟨row, hl, rfl⟩
    · exact content_of_updateWhere hl fun _ => rfl
  | complete c =>
    have hupdated : row ∈ ((marshalActionResult c.localOffset c.res).elim db
        fun blob => c.update blob db).actions := h
    generalize marshalActionResult c.localOffset c.res = blob at hupdated
    cases blob with
    | none => exact ⟨row, hupdated, rfl⟩
    | some => exact content_of_updateWhere hupdated fun _ => rfl
  | discard | prune => exact ⟨row, (mem_deleteWhere.1 h).1, rfl⟩

theorem mem_enqueueAction {node : Str} {a : Action} {now : Nat} {db : Database}
    (h : row ∈ (enqueueAction node a now db).actions) :
    row ∈ db.actions ∨ rowContent row = actionContent node a := by
  rw [enqueueAction] at h
  split_ifs at h
  · exact .inl h
  rcases List.mem_append.1 h with hm | hn
  · exact .inl hm
  · obtain rfl := List.mem_singleton.1 hn
    exact .inr rfl

theorem WalkStep.action_content {w w' : WalkWorld} {op : WalkOp}
    (h : WalkStep sha w op w') (hi : ThreadInv w)
    (hr : row ∈ w'.records.db.actions) :
    ∃ row0 ∈ w.records.db.actions, rowContent row = rowContent row0 := by
  rcases h.writers with ⟨he, -⟩ | ⟨wop, -, ha, -⟩
  · rw [WalkWorld.records, he] at hr
    exact ⟨row, hr, rfl⟩
  rw [WalkWorld.records, ha] at hr
  by_cases hcancel : ∃ id updatedAt now, wop = .cancel id updatedAt now
  · obtain ⟨_, _, _, rfl⟩ := hcancel
    exact content_of_updateWhere hr fun _ => rfl
  · rw [apply_frame.2 hi.writers fun id u n heq => hcancel ⟨id, u, n, heq⟩] at hr
    exact ⟨row, hr, rfl⟩

/-! ## The invariant -/

section

variable (sha : Str → Str) (w : StepWorld)

/-- A row was enqueued for a step, or it is a restore of the janitor. -/
def Provenance (content : Content) : Prop :=
  (∃ q ∈ w.requested, content = actionContent q.node q.action) ∨
    ∃ node attempt, restoreText node attempt ∈ w.named ∧
      content.id = shortDigest sha (restoreText node attempt)

/-- A goroutine has calls of its own step before it, and waits for an action it asked for. -/
structure Stage.Sound (stage : Stage) : Prop where
  calls : ∀ d ∈ stage.dispatch?, ∀ type, Call.agent type ∈ stage.calls → Asks d.step.action type
  waiting : ∀ d a rest, stage = .waiting d a rest →
    ∃ q ∈ w.requested, q.inc = d.inc ∧ q.action = a ∧ q.node = d.inc.target.node

/-- An accepted result was read from the row with the ID of an action that was asked for. -/
structure Accepted.Sound (acc : Accepted) : Prop where
  id : acc.row.id = acc.action.id
  row : Provenance sha w (rowContent acc.row)
  asked : ∃ q ∈ w.requested, q.inc = acc.inc ∧ q.action = acc.action ∧ q.node = acc.node

/-- Requests are what their step amounts to, and those of one index and attempt ask for the same. -/
structure IdentityInv : Prop where
  threads : ThreadInv w.process
  rows : ∀ row ∈ w.process.records.db.actions, Provenance sha w (rowContent row)
  requested : ∀ q ∈ w.requested, Asks q.step.action q.action.type ∧
    q.action = agentAction sha q.action.type q.step q.inc q.bootID ∧
    q.node = q.inc.target.node ∧ actionText q.inc ∈ w.named
  agree : ∀ q ∈ w.requested, ∀ q' ∈ w.requested, stepKey q.inc = stepKey q'.inc →
    actionContent q.node q.action = actionContent q'.node q'.action
  stages : ∀ stage ∈ w.stages, stage.Sound w
  accepted : ∀ acc ∈ w.accepted, acc.Sound sha w

end

structure HistoryGrows (w w' : StepWorld) : Prop where
  requested : ∀ q ∈ w.requested, q ∈ w'.requested
  named : ∀ text ∈ w.named, text ∈ w'.named

theorem HistoryGrows.asked {q : Requested} {text : Str}
    (hq : w'.requested = q :: w.requested) (hnamed : w'.named = text :: w.named) :
    HistoryGrows w w' :=
  ⟨fun _ h => hq ▸ .tail _ h, fun _ h => hnamed ▸ .tail _ h⟩

theorem Provenance.mono {content : Content}
    (h : Provenance sha w content) (hg : HistoryGrows w w') : Provenance sha w' content := by
  rcases h with ⟨q, hq, hc⟩ | ⟨node, attempt, hnamed, hid⟩
  · exact .inl ⟨q, hg.requested q hq, hc⟩
  · exact .inr ⟨node, attempt, hg.named _ hnamed, hid⟩

theorem Stage.Sound.mono {stage : Stage} (h : stage.Sound w)
    (hg : HistoryGrows w w') : stage.Sound w' := by
  refine ⟨h.calls, ?_⟩
  intro d a rest heq
  obtain ⟨q, hq, ht⟩ := h.waiting d a rest heq
  exact ⟨q, hg.requested q hq, ht⟩

theorem Accepted.Sound.mono {acc : Accepted}
    (h : acc.Sound sha w) (hg : HistoryGrows w w') : acc.Sound sha w' := by
  obtain ⟨q, hq, ht⟩ := h.asked
  exact ⟨h.id, h.row.mono hg, q, hg.requested q hq, ht⟩

theorem Stage.Sound.turn {before after : Stage} (h : before.Sound w)
    (ha : ∀ d ∈ after.dispatch?, before.dispatch? = some d)
    (hc : ∀ c ∈ after.calls, c ∈ before.calls)
    (hw : ∀ d a rest, after ≠ .waiting d a rest) : after.Sound w := by
  constructor
  · intro d hd type ht
    exact h.calls d (ha d hd) type (hc _ ht)
  · intro d a rest heq
    exact absurd heq (hw d a rest)

theorem Stage.Sound.of_none {stage : Stage} (hn : stage.dispatch? = none) : stage.Sound w := by
  constructor
  · intro d hd
    rw [hn] at hd
    cases hd
  · intro d a rest heq
    rw [heq] at hn
    cases hn

theorem executeStep_sound (w : StepWorld) (d : Dispatch) : (executeStep d).Sound w := by
  rw [executeStep]
  split
  · exact .of_none rfl
  rename_i action ha
  split_ifs
  · exact .of_none rfl
  split
  · exact .of_none rfl
  rename_i calls hc
  constructor
  · intro d' hd' type ht
    cases hd'
    exact ⟨action, calls, ha, hc, ht⟩
  · intro d' a rest heq
    cases heq

theorem StepWorld.make_history (w : StepWorld) (d : Dispatch) (c : Call) (landed : Bool) :
    (w.make d c landed).requested = w.requested ∧ (w.make d c landed).named = w.named ∧
      (w.make d c landed).accepted = w.accepted := by
  have hland : (w.land d.inc c).requested = w.requested ∧ (w.land d.inc c).named = w.named ∧
      (w.land d.inc c).accepted = w.accepted := by
    unfold StepWorld.land
    split <;> exact ⟨rfl, rfl, rfl⟩
  rw [StepWorld.make]
  cases landed with
  | false =>
    cases c.sideEffect with
    | false | true => exact ⟨rfl, rfl, rfl⟩
  | true =>
    cases c.sideEffect with
    | false | true => exact hland

theorem IdentityInv.keep (hi : IdentityInv sha w)
    (hthreads : ThreadInv w'.process) (hreq : w'.requested = w.requested)
    (hnamed : ∀ text ∈ w.named, text ∈ w'.named)
    (hr : ∀ row ∈ w'.process.records.db.actions,
      (∃ row0 ∈ w.process.records.db.actions, rowContent row = rowContent row0) ∨
        Provenance sha w' (rowContent row))
    (hstages : ∀ stage ∈ w'.stages, stage ∈ w.stages ∨ stage.Sound w)
    (haccepted : ∀ acc ∈ w'.accepted, acc ∈ w.accepted ∨ acc.Sound sha w) :
    IdentityInv sha w' := by
  have hgrows : HistoryGrows w w' := ⟨fun q hq => hreq ▸ hq, hnamed⟩
  refine ⟨hthreads, ?_, ?_, ?_, ?_, ?_⟩
  · intro row ho
    rcases hr row ho with ⟨row0, ho0, hcont⟩ | hw
    · rw [hcont]
      exact (hi.rows row0 ho0).mono hgrows
    · exact hw
  · intro q hq
    obtain ⟨hk, ha, hn, ht⟩ := hi.requested q (hreq ▸ hq)
    exact ⟨hk, ha, hn, hnamed _ ht⟩
  · intro q hq q' hq'
    exact hi.agree q (hreq ▸ hq) q' (hreq ▸ hq')
  · intro stage hg
    rcases hstages stage hg with hm | hs
    · exact (hi.stages stage hm).mono hgrows
    · exact hs.mono hgrows
  intro acc hc
  rcases haccepted acc hc with hm | hs
  · exact (hi.accepted acc hm).mono hgrows
  · exact hs.mono hgrows

/-! ## Steps that stay the same -/

/-- The step of a goroutine is the one that was asked for before: the same action with the same
parameters, on the same device, and for a reboot with the same boot ID. -/
def SameStep (q : Requested) (d : Dispatch) (bootID : Str) : Prop :=
  q.step.action = d.step.action ∧ q.step.params = d.step.params ∧
    q.inc.target.node = d.inc.target.node ∧ q.inc.target.gpuUUID = d.inc.target.gpuUUID ∧
    q.inc.target.gpuIndex = d.inc.target.gpuIndex ∧
    (d.step.action = lit "agent.reboot" → q.bootID = bootID)

instance (q : Requested) (d : Dispatch) (bootID : Str) : Decidable (SameStep q d bootID) :=
  inferInstanceAs (Decidable (_ ∧ _))

/-- A step that is dispatched again at one index and attempt of an incident is the same step. -/
def StepUnchanged (w : StepWorld) : StepOp → Prop
  | .enqueue i _ _ _ =>
    ∀ d ∈ (w.stages[i]?).bind Stage.dispatch?, ∀ q ∈ w.requested, stepKey q.inc = stepKey d.inc →
      SameStep q d ((getNode d.inc.target.node w.process.records).elim [] NodeRow.bootID)
  | _ => True

instance (w : StepWorld) (op : StepOp) : Decidable (StepUnchanged w op) := by
  unfold StepUnchanged
  split <;> infer_instance

theorem SameStep.content {q : Requested} {d : Dispatch}
    {bootID : Str} (h : SameStep q d bootID) (hk : stepKey q.inc = stepKey d.inc)
    (hasks : Asks q.step.action q.action.type)
    (ha : q.action = agentAction sha q.action.type q.step q.inc q.bootID)
    (hn : q.node = q.inc.target.node) (hasks' : Asks d.step.action type) :
    actionContent q.node q.action =
      actionContent d.inc.target.node (agentAction sha type d.step d.inc bootID) := by
  obtain ⟨he, hp, hsameNode, hu, hidx, hboot⟩ := h
  have ht : q.action.type = type := by
    rw [he] at hasks
    exact hasks.unique hasks'
  have hagent : agentParams type q.step q.inc q.bootID = agentParams type d.step d.inc bootID := by
    simp only [agentParams, hp, hsameNode, hu, hidx]
    by_cases hreboot : type = lit "reboot"
    · rw [hreboot] at hasks'
      rw [hboot hasks'.reboot]
    · simp only [hreboot, false_and, if_false]
  rw [ha, ht, hn, hsameNode]
  simp only [actionContent, agentAction, actionID, hagent, actionText_of_stepKey hk]
  rw [show q.inc.id = d.inc.id from (Prod.mk.inj hk).1]

/-- **One operation that meets the condition keeps the invariant.** -/
theorem IdentityInv.step {lo : Int → Int} {op : StepOp}
    (hi : IdentityInv sha w) (h : StepEffect sha lo w op w') (he : StepUnchanged w op) :
    IdentityInv sha w' := by
  have hthreads := h.threads hi.threads
  have ht : ∀ row ∈ w.process.records.db.actions,
      (∃ row0 ∈ w.process.records.db.actions, rowContent row = rowContent row0) ∨
        Provenance sha w (rowContent row) := fun row ho => .inl ⟨row, ho, rfl⟩
  cases h with
  | walked _ _ _ hs =>
    refine hi.keep hthreads rfl (fun _ h => h) ?_ ?_ (fun _ => .inl)
    · intro row ho
      exact .inl (hs.action_content hi.threads ho)
    intro stage hg
    rcases StepWorld.mem_staged hg with hm | rfl
    · exact .inl hm
    · exact .inr (.of_none rfl)
  | dispatched =>
    exact hi.keep hthreads rfl (fun _ h => h) ht (mem_set_or (executeStep_sound w _))
      (fun _ => .inl)
  | turned _ before _ hg hf hl hwaits =>
    refine hi.keep hthreads rfl (fun _ h => h) ht (mem_set_or ?_) (fun _ => .inl)
    exact (hi.stages before (List.mem_of_getElem? hg)).turn hf hl hwaits
  | called _ _ d c _ landed _ hg hf hl hwaits =>
    obtain ⟨hr, hnamed, haccepted⟩ := w.make_history d c landed
    refine hi.keep hthreads hr (fun _ h => hnamed ▸ h) ?_ (mem_set_or ?_)
      (fun acc h => .inl (haccepted ▸ h))
    · intro row ho
      simp only [StepWorld.make_process] at ho
      exact .inl ⟨row, ho, rfl⟩
    · refine (hi.stages _ (List.mem_of_getElem? hg)).turn (fun d' hd' => ?_) hl hwaits
      rw [hf d' hd']
      rfl
  | requested _ _ _ _ d type _ bootID hg hboot =>
    -- the only operation that asks: the new request agrees with those of its index and attempt
    have hl := (hi.stages _ (List.mem_of_getElem? hg)).calls d rfl
    have hasks : Asks d.step.action type := hl type (.head _)
    have hcont : ∀ q ∈ w.requested, stepKey q.inc = stepKey d.inc → actionContent q.node q.action =
          actionContent d.inc.target.node (agentAction sha type d.step d.inc bootID) := by
      intro q hq hk
      obtain ⟨hask, ha, hn, -⟩ := hi.requested q hq
      have hunc := he d (by rw [hg]; rfl) q hq hk
      rw [← hboot] at hunc
      exact hunc.content hk hask ha hn hasks
    refine ⟨hthreads, ?_, ?_, ?_, ?_, ?_⟩
    · intro row ho
      rcases mem_enqueueAction ho with hm | hw
      · exact (hi.rows row hm).mono (.asked rfl rfl)
      · exact .inl ⟨_, .head _, hw⟩
    · refine List.forall_mem_cons.2 ⟨⟨hasks, rfl, rfl, .head _⟩, fun q hq => ?_⟩
      obtain ⟨hask, ha, hn, hx⟩ := hi.requested q hq
      exact ⟨hask, ha, hn, .tail _ hx⟩
    · refine List.forall_mem_cons.2 ⟨List.forall_mem_cons.2 ⟨fun _ => rfl, fun q hq hk => ?_⟩,
        fun q hq => List.forall_mem_cons.2 ⟨hcont q hq, hi.agree q hq⟩⟩
      exact (hcont q hq hk.symm).symm
    · intro stage hm
      rcases List.mem_or_eq_of_mem_set hm with hm | rfl
      · exact (hi.stages stage hm).mono (.asked rfl rfl)
      constructor
      · intro d' hd' type' hy'
        cases hd'
        exact hl type' (.tail _ hy')
      · intro d' a rest' heq
        cases heq
        exact ⟨_, .head _, rfl, rfl, rfl⟩
    · exact fun acc hacc => (hi.accepted acc hacc).mono (.asked rfl rfl)
  | accepted _ d a rest row _ hg ho =>
    have hsound := hi.stages _ (List.mem_of_getElem? hg)
    refine hi.keep hthreads rfl (fun _ h => h) ht (mem_set_or ?_) ?_
    · exact hsound.turn (fun _ hd => hd) (fun _ hc => hc) (by simp)
    · refine List.forall_mem_cons.2 ⟨.inr ⟨?_, hi.rows row (List.mem_of_find?_eq_some ho),
        hsound.waiting d a rest rfl⟩, fun _ => .inl⟩
      simpa using List.find?_some ho
  | restoredHost node _ attempt =>
    refine hi.keep hthreads rfl (fun _ h => .tail _ h) ?_ (fun _ => .inl) (fun _ => .inl)
    intro row ho
    rcases mem_enqueueAction ho with hm | hw
    · exact .inl ⟨row, hm, rfl⟩
    right
    rw [hw]
    exact .inr ⟨node, attempt, .head _, rfl⟩
  | queued op =>
    refine hi.keep hthreads rfl (fun _ h => h) ?_ (fun _ => .inl) (fun _ => .inl)
    intro row ho
    exact .inl (op.run_content _ ho)
  | _ =>
    exact hi.keep hthreads rfl (fun _ h => h) ht (fun _ => .inl) (fun _ => .inl)

theorem identityInv_start (sha : Str → Str) (cfg : RuntimeConfig) :
    IdentityInv sha (.start .empty cfg) := by
  refine ⟨threadInv_start (r := .empty) List.nodup_nil cfg, ?_, ?_, ?_, ?_, ?_⟩
  all_goals
    intro x hx
    cases hx

theorem IdentityInv.agree_id (hi : IdentityInv sha w)
    (hsha : ∀ s ∈ w.named, ∀ t ∈ w.named, shortDigest sha s = shortDigest sha t → s = t)
    {q q' : Requested} (hq : q ∈ w.requested) (hq' : q' ∈ w.requested)
    (hid : q.action.id = q'.action.id) :
    actionContent q.node q.action = actionContent q'.node q'.action := by
  obtain ⟨-, ha, -, ht⟩ := hi.requested q hq
  obtain ⟨-, ha', -, ht'⟩ := hi.requested q' hq'
  apply hi.agree q hq q' hq'
  apply stepKey_of_actionText
  apply hsha _ ht _ ht'
  rw [ha, ha'] at hid
  exact hid

/-- **An accepted result is that of the action that was asked for.** In every run in which a step
dispatched again at one index and attempt of an incident is the same step, and as long as the
truncated hash has no collision, an accepted result was read from a row enqueued with the type,
parameters, node and incident of the accepting step's action, and two requests with one ID ask for
the same. -/
theorem accepted_results_match {sha : Str → Str} {lo : Int → Int} {cfg : RuntimeConfig}
    {ops : List StepOp} {w : StepWorld}
    (hrun : exec (stepNext sha lo) (.start .empty cfg) ops = some w)
    (hsame : Along (stepNext sha lo) StepUnchanged (.start .empty cfg) ops)
    (hsha : ∀ s ∈ w.named, ∀ t ∈ w.named, shortDigest sha s = shortDigest sha t → s = t) :
    (∀ acc ∈ w.accepted, acc.row.id = acc.action.id ∧ acc.row.type = acc.action.type ∧
        acc.row.params = paramsText acc.action.params ∧ acc.row.node = acc.node ∧
        acc.row.incidentID = acc.action.incidentID) ∧
      ∀ q ∈ w.requested, ∀ q' ∈ w.requested, q.action.id = q'.action.id →
        q.action.type = q'.action.type ∧
          paramsText q.action.params = paramsText q'.action.params ∧ q.node = q'.node := by
  have hinv : IdentityInv sha w :=
    exec_invariant_along (fun s a t hs hok hstep => hs.step (stepEffect_of_next hstep) hok)
      (identityInv_start sha cfg) hsame hrun
  constructor
  · intro acc hacc
    obtain ⟨hid, hrow, q, hq, _, haction, hnode⟩ := hinv.accepted acc hacc
    obtain ⟨-, hrequested, -, htext⟩ := hinv.requested q hq
    have hdigest : acc.row.id = shortDigest sha (actionText q.inc) := by
      rw [hid, ← haction, hrequested]
      rfl
    have hcontent : rowContent acc.row = actionContent acc.node acc.action := by
      rcases hrow with ⟨q', hq', hcontent⟩ | ⟨node, attempt, hnamed, hrestore⟩
      · rw [hcontent, ← hnode, ← haction]
        apply hinv.agree_id hsha hq' hq
        have hcontentID : acc.row.id = q'.action.id := congrArg Content.id hcontent
        rw [← hcontentID, hid, haction]
      · -- a row of the janitor has another ID
        have htexts := hsha _ hnamed _ htext (hrestore.symm.trans hdigest)
        exact absurd htexts (restoreText_ne_actionText node attempt q.inc)
    exact ⟨hid, congrArg Content.type hcontent, congrArg Content.params hcontent,
      congrArg Content.node hcontent, congrArg Content.incidentID hcontent⟩
  · intro q hq q' hq' hid
    have hcontent := hinv.agree_id hsha hq hq' hid
    exact ⟨congrArg Content.type hcontent, congrArg Content.params hcontent,
      congrArg Content.node hcontent⟩

/-! ## A step that is recovered after a restart -/

def bundleStep : Step := ⟨lit "bundle", lit "agent.collect_bundle", lit "none", 0, StrMap.empty⟩

def deviceResetStep : Step := ⟨lit "reset", lit "agent.gpu_reset", lit "none", 0, StrMap.empty⟩

/-- The ID of the first step of the sample incident, for a hash that changes nothing. -/
def firstActionID : Str := shortDigest (fun s => s) (lit "inc-1|0|0")

/-- A goroutine decides and asks the agent for the action of its step. -/
def askOps : List StepOp := [.dispatch 0 true, .enqueue 0 10 false false]

/-- The agent takes the action and completes it. -/
def answerOps : List StepOp :=
  [.queue (.lease ⟨lit "n1", [], 60000000000, [], lit "t1", 11⟩),
    .queue (.complete ⟨firstActionID, lit "t1", [],
      { ActionResult.zero with actionID := firstActionID, ok := true }, 12, fun _ => 0⟩)]

/-- The process restarts with a configuration, recovers the step and starts it again. -/
def recoverOps (cfg : RuntimeConfig) : List WalkOp :=
  [.restart cfg, .list, .pick, .plan (sampleTick 4), .commit 4 false] ++ startOps 5

/-- The step is asked for and completed; the process restarts before it sees the result, with a
playbook of the given step, and takes the result up. -/
def recoveredRun (step : Step) : List StepOp :=
  (openingOps ++ startOps 3).map .walk ++ askOps ++ answerOps ++
    (recoverOps (sampleConfig [step])).map .walk ++ askOps ++ [.collect 0]

/-- A restart under the same playbook takes the result up, and it is the right one. -/
theorem recovered_result_matches :
    ∃ w, exec (stepNext (fun s => s) (fun _ => 0)) (.start .empty (sampleConfig [bundleStep]))
        (recoveredRun bundleStep) = some w ∧
      Along (stepNext (fun s => s) (fun _ => 0)) StepUnchanged
        (.start .empty (sampleConfig [bundleStep])) (recoveredRun bundleStep) ∧
      w.accepted.length = 1 ∧ ∀ acc ∈ w.accepted, acc.row.type = acc.action.type := by
  refine reached (by decide +kernel) fun w hexec (hrun : w.accepted.length = 1 ∧
    ∀ s ∈ w.named, ∀ t ∈ w.named,
      shortDigest (fun s => s) s = shortDigest (fun s => s) t → s = t) => ?_
  refine ⟨by decide +kernel, hrun.1, ?_⟩
  intro acc hacc
  exact ((accepted_results_match hexec (by decide +kernel) hrun.2).1 acc hacc).2.1

/-- **The result of another action is accepted.** The process restarts after the agent collected a
bundle and before the controller saw the result. The playbook now has a device reset at that index:
its enqueue is ignored, and the reset counts as done. -/
theorem recovered_step_takes_other_result :
    ∃ w, exec (stepNext (fun s => s) (fun _ => 0)) (.start .empty (sampleConfig [bundleStep]))
        (recoveredRun deviceResetStep) = some w ∧
      (∀ s ∈ w.named, ∀ t ∈ w.named,
        shortDigest (fun s => s) s = shortDigest (fun s => s) t → s = t) ∧
      ∃ acc ∈ w.accepted, acc.row.id = acc.action.id ∧ acc.action.type = lit "gpu_reset" ∧
        acc.row.type = lit "collect_bundle" := by
  decide +kernel

end KubeNeuron.Controller
