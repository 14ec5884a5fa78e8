import KubeNeuron.Operations.AutonomyCopies

/-!
# What a call of the executor rests on

Between the claim of an effect and the call of the executor the pass reads the plan once more. The
results of this file say what that read finds, in every run: the plan as the pass has listed it,
active, unexpired and approved, and that neither a pause nor a rollback has been committed in
between.
-/

namespace KubeNeuron.Operations

open Lib KubeNeuron.Types Accelerator Decision Store

/-! ## The authority of a call -/

/-- What a call of the executor by process `i` rests on. The last calls of the process were the
claim of the effect (`effect`, written as executing), its audit, the read of the plan (`current`)
and two readings of the clock; `earlier` is what it had done before, and `plan` is the plan it had
listed. -/
structure Authority (i : Nat) (before : Trace) (request : EffectRequest) (plan current : Plan)
    (effect : Effect) (fencedAt checkedAt : Int) (earlier : History) : Prop where
  calls : own i before = ⟨.now, checkedAt⟩ :: ⟨.now, fencedAt⟩ :: ⟨.getPlan plan.id, .ok current⟩ ::
    ⟨.audit (lit "dispatch-effect"), .ok ()⟩ :: ⟨.updateEffect effect effect.version,
      .ok ()⟩ :: earlier
  claim : effect.state = .executing ∧ effect.id = request.effectID
  listed : Listed earlier plan ∧ request.effectID.planID = plan.id
  version : current.version = plan.version
  active : current.state = .canary ∨ current.state = .expanding
  unexpired : fencedAt < current.expiresAt
  approved : ∀ role ∈ current.approvals.requiredRoles, ∃ approval ∈ current.approvalRecords,
    approval.role = role ∧ approval.configDigest = current.configDigest
  apart : current.approvals.distinctSubjects = true → ∀ a ∈ current.approvalRecords,
    ∀ b ∈ current.approvalRecords, a.role ≠ b.role → a.actor ≠ b.actor
  eligible : request.decision.state = .eligible
  deadline : checkedAt < request.deadline ∧ request.deadline = request.decision.expiresAt

variable {m : Manager} {s : AutonomyStore} {tr : Trace} {i : Nat}

theorem approved_of_allRolesApproved {plan : Plan} (h : allRolesApproved plan = true) :
    ∀ role ∈ plan.approvals.requiredRoles, ∃ approval ∈ plan.approvalRecords,
      approval.role = role ∧ approval.configDigest = plan.configDigest := by
  intro role hrole
  have hy := List.all_eq_true.1 h role hrole
  obtain ⟨approval, hm, ha⟩ := List.any_eq_true.1 hy
  simp only [Bool.and_eq_true, decide_eq_true_eq] at ha
  exact ⟨approval, hm, ha.2, ha.1⟩

theorem Plan.ApprovedApart.actors {plan : Plan} (h : plan.ApprovedApart)
    (hd : plan.approvals.distinctSubjects = true) : ∀ a ∈ plan.approvalRecords,
      ∀ b ∈ plan.approvalRecords, a.role ≠ b.role → a.actor ≠ b.actor := by
  intro a ha b hb hrole
  have hf : plan.approvalRecords.Pairwise fun a b => a.role ≠ b.role → a.actor ≠ b.actor :=
    h.imp fun hab _ => hab.2 hd
  have hbef : plan.approvalRecords.Pairwise (flip fun a b => a.role ≠ b.role → a.actor ≠ b.actor) :=
    h.imp fun hab _ => (hab.2 hd).symm
  exact hf.forall_of_forall_of_flip (fun c _ hne => absurd rfl hne) hbef ha hb hrole

theorem authority_of_fenced {extra : Str → Plan → Prop} (hi : RowsInv m extra s tr)
    {request : EffectRequest} {plan current : Plan} {id : EffectID} {admitted : Effect}
    {claimedAt checkedAt fencedAt : Int} {before : History}
    (hf : Fenced (own i tr) request plan id admitted current claimedAt checkedAt fencedAt before) :
    Authority i tr request plan current
      (admitted.claimedAt claimedAt) fencedAt checkedAt before := by
  have hsuf : before <:+ own i tr := by
    rw [hf.last]
    exact List.suffix_append _ _
  have hr : ⟨i, ⟨.getPlan plan.id, .ok current⟩⟩ ∈ tr := by
    apply mem_own.1
    rw [hf.last]
    exact List.mem_append_left _ (.tail _ (.tail _ (.head _)))
  have hv := (hi.plans.copy (.inr (.read hr))).1
  obtain ⟨hs, hid⟩ := hi.effects.known (hf.known.mono hsuf)
  have hq := hf.request
  subst hq
  refine ⟨hf.last, ⟨rfl, rfl⟩, ⟨hf.target.listed, ?_⟩, hf.envelope.version, hf.envelope.active,
    hf.envelope.unexpired, approved_of_allRolesApproved hf.envelope.approved, hv.apart.actors, ?_,
    hf.deadline, hs.deadline⟩
  · rw [← hf.target.planID, ← hid]
    rfl
  · have hp := hs.permitted
    rw [Decision.Result.permitted, decide_eq_true_eq] at hp
    exact hp

/-- Every call of the executor in a trace has its authority. -/
def Authorised : Trace → Prop :=
  AtEach fun before e => ∀ request, e.event.call = .execute request →
    ∃ plan current effect fencedAt checkedAt earlier,
      Authority e.pid before request plan current effect fencedAt checkedAt earlier

theorem authorised_of_run {clock : Int} {ops : List AutonomyOp} {w : AutonomySystem}
    (h : exec (autonomyNext m) (AutonomySystem.start clock) ops = some w) :
    Steady m w ∧ RowsInv m (fun _ _ => False) w.store w.trace ∧ Authorised w.trace := by
  have hok : Along (autonomyNext m) (fun _ _ => True) (AutonomySystem.start clock) ops :=
    along_of_forall (fun _ _ => trivial) _
  refine exec_rows (P := fun _ tr => Authorised tr) ?_ ?_ (Disciplined.start _)
    (RowsInv.start m clock)
    trivial hok h
  · intro v i x c a s' _ hr hv hJ _
    refine ⟨fun request hc => ?_, hv⟩
    subst hc
    obtain ⟨plan, _, _, current, _, checkedAt, fencedAt, before, hf⟩ := hJ
    exact ⟨plan, current, _, fencedAt, checkedAt, before, authority_of_fenced hr hf⟩
  · intro v x s' _ _ hv _
    exact hv

/-! ## Pauses and rollbacks before the read -/

variable {w w' : AutonomySystem} {ops : List AutonomyOp}

theorem read_ahead {k : Str} {row : Plan} (hw : Steady m w)
    (hi : RowsInv m (fun _ _ => False) w.store w.trace) (ho : w.store.plans.get? k = some row)
    (h : exec (autonomyNext m) w ops = some w') {new : Trace}
    (hn : w'.trace = new ++ w.trace) {i : Nat}
    {current : Plan} (hr : (⟨i, ⟨.getPlan k, .ok current⟩⟩ : Entry _ _) ∈ new) :
    row.version ≤ current.version ∧ row.Follows current ∧
      (row.version = current.version → row = current) := by
  have hok : Along (autonomyNext m) (fun _ _ => True) w ops :=
    along_of_forall (fun _ _ => trivial) _
  have hnamed : RowsInv m (fun k' p => k' = k ∧ w.store.plans.get? k' = some p) w.store w.trace :=
    { hi with plans := hi.plans.name k }
  have hu := exec_rows (P := fun _ tr => ∀ new, tr = new ++ w.trace → ∀ i p,
    ⟨i, ⟨.getPlan k, .ok p⟩⟩ ∈ new → row.version ≤ p.version) ?_ ?_ hw hnamed ?_ hok h
  · have hc : PlanCopy (fun k' p => k' = k ∧ w.store.plans.get? k' = some p) w'.trace k row :=
      .inl ⟨rfl, ho⟩
    have hcur :
        PlanCopy (fun k' p => k' = k ∧ w.store.plans.get? k' = some p) w'.trace k current := by
      refine .inr (.read (i := i) ?_)
      rw [hn]
      exact List.mem_append_left _ hr
    have hle := hu.2.2 new hn i current hr
    exact ⟨hle, hu.2.1.plans.coherent.chain hc hcur hle⟩
  · -- a read finds the row, which the named copy is behind
    intro v j x c a s' _ hrows hv _ heff new hs l p hm
    cases new with
    | nil => cases hm
    | cons e new =>
      obtain ⟨he, ht⟩ := List.cons.inj hs
      obtain hh | hm := List.mem_cons.1 hm
      · rw [← hh] at he
        cases he
        cases heff with
        | quiet hqt => obtain ⟨_, ⟨⟩⟩ := hqt
        | getPlan hf => exact (hrows.plans.coherent.behind (.inl ⟨rfl, ho⟩) hf).1
      · exact hv new ht l p hm
  · intro v x s' _ _ hv _
    exact hv
  · intro new hs l p hm
    rw [List.self_eq_append_left.1 hs] at hm
    cases hm

theorem mem_of_append_eq {α : Type} {new old after rest : List α} {e : α}
    (h : new ++ old = after ++ e :: rest) (hs : old <:+ rest) : e ∈ new := by
  obtain ⟨c, rfl⟩ := hs
  have hnew : new ++ old = (after ++ e :: c) ++ old := by simpa using h
  simp [List.append_cancel_right hnew]

/-- In every run a call of the executor has its authority, and what was stored of the plan before
the fence read it is the plan that the fence found, or a version from before the pass listed the
plan that was not rolled back: a pause or a rollback that is committed before the read prevents the
call. -/
theorem execute_authorised (m : Manager) (clock : Int) (ops : List AutonomyOp) (w : AutonomySystem)
    (hrun : exec (autonomyNext m) (AutonomySystem.start clock) ops = some w) {i : Nat}
    {request : EffectRequest} {answer : Except Str EffectResult} {after before : Trace}
    (htrace : w.trace = after ++ ⟨i, ⟨.execute request, answer⟩⟩ :: before) :
    ∃ plan current effect fencedAt checkedAt earlier,
      Authority i before request plan current effect fencedAt checkedAt earlier ∧
      ∀ ops₁ ops₂ w₁ row, ops = ops₁ ++ ops₂ →
        exec (autonomyNext m) (AutonomySystem.start clock) ops₁ = some w₁ →
        own i w₁.trace <:+ ⟨.audit (lit "dispatch-effect"), .ok ()⟩ ::
          ⟨.updateEffect effect effect.version, .ok ()⟩ :: earlier →
        w₁.store.plans.get? plan.id = some row →
        row = current ∨
          row.version < plan.version ∧ row.state ≠ .rolledBack ∧
            ¬ Listed (own i w₁.trace) plan := by
  obtain ⟨-, -, hauthorised⟩ := authorised_of_run hrun
  rw [htrace] at hauthorised
  obtain ⟨plan, current, effect, fencedAt, checkedAt, earlier, hauthority⟩ :=
    hauthorised.split request rfl
  refine ⟨plan, current, effect, fencedAt, checkedAt, earlier, hauthority, ?_⟩
  intro ops₁ ops₂ w₁ row hops hrun₁ hbefore hrow
  rw [hops] at hrun
  obtain ⟨_, hrun₁', hrun₂⟩ := exec_append.mp hrun
  rw [hrun₁] at hrun₁'
  cases hrun₁'
  obtain ⟨hsteady, hinv, -⟩ := authorised_of_run hrun₁
  obtain ⟨new, hnew⟩ := exec_trace hrun₂
  -- the read of the fence lies in the part of the run after `w₁`
  have hread : ⟨i, ⟨.getPlan plan.id, .ok current⟩⟩ ∈ new := by
    apply mem_own.mp
    have hown := congrArg (own i) (hnew.symm.trans htrace)
    rw [own_append, own_append, own_cons_self, hauthority.calls] at hown
    have hsplit : own i new ++ own i w₁.trace =
        (own i after ++ [⟨.execute request, answer⟩, ⟨.now, checkedAt⟩, ⟨.now, fencedAt⟩]) ++
          ⟨.getPlan plan.id, .ok current⟩ :: ⟨.audit (lit "dispatch-effect"), .ok ()⟩ ::
            ⟨.updateEffect effect effect.version, .ok ()⟩ :: earlier := by
      rw [hown, List.append_assoc]
      rfl
    exact mem_of_append_eq hsplit hbefore
  obtain ⟨hle, hfollows, heq⟩ := read_ahead hsteady hinv hrow hrun₂ hnew hread
  obtain heq' | hlt := Nat.eq_or_lt_of_le hle
  · exact .inl (heq heq')
  rw [hauthority.version] at hlt
  refine .inr ⟨hlt, fun hstate => ?_, fun hlisted => ?_⟩
  · have hfinal := hfollows.final (by rw [hstate]; rfl)
    have hactive := hauthority.active
    rw [hfinal, hstate] at hactive
    rcases hactive with ⟨⟨⟩⟩ | ⟨⟨⟩⟩
  obtain ⟨_, _, hmem, hplan⟩ := hlisted
  have hcopy : PlanCopy (fun _ _ => False) w₁.trace plan.id plan :=
    .inr (.listed (mem_own.mp hmem) hplan rfl)
  have hahead := (hinv.plans.coherent.behind hcopy hrow).1
  omega

/-! ## A run with one call -/

/-- A manager with an executor and an inventory, and without windows. -/
def labManager : Manager :=
  ⟨true, true, false, id, id, ⟨fun _ => [], fun _ => []⟩, fun _ => [], fun _ => []⟩

/-- A runtime profile that allows nodes to be rebooted. -/
def labProfile : RuntimeProfile :=
  ⟨lit "lab", KeyMap.ofEntries [(lit "gpu", lit "yes")], lit "nvidia",
    lit "sha256:" ++ List.replicate 64 0x61, lit "550.1", lit "dcgm-4.6", lit "profile-1", 1,
    10000000000,
    [⟨.rebootNode, [.node], false⟩]⟩

/-- A node that plans for the label select. -/
def labNode (name : Str) (time : Int) : Decision.Node :=
  ⟨name, name ++ lit "-uid", KeyMap.ofEntries [(lit "gpu", lit "yes")], false, time, []⟩

def labReport (name : Str) (time : Int) : AcceleratorReport :=
  ⟨name, name ++ lit "-uid", lit "nvidia", time, [⟨lit "GPU-1", .physical, .gpu, []⟩], lit "550.1",
    lit "dcgm-4.6.1", .verifiedUnpartitioned, [⟨.rebootNode, [.node]⟩], .ready, [],
    labProfile.profileDigest, lit "profile-1", 1⟩

/-- A snapshot of the node with fresh evidence. -/
def labSnapshot (name : Str) (time : Int) : Decision.Snapshot :=
  { evaluatedAt := time, configDigest := lit "digest", requiredConfigDigest := [],
    node := labNode name time, report := some (labReport name time), profile := some labProfile,
    request := ⟨.observe, .rebootNode, .node, [], false, false, false, false, false, false⟩,
    evidenceRefs := [], evidenceSources := [], requiredEvidenceSources := [], evidenceMaxAge := 0,
    agentMaxAge := 0, globalPaused := false, emergencyStop := false, maintenanceActive := false,
    changeFreeze := false, incidentConflict := false, ownershipConflict := false,
    selectorExcluded := false, autonomyBudgetExhausted := false,
    limits := ⟨GoTime.zeroNs, 0, 0, 0, 0⟩ }

/-- A plan for a canary of one node and an expansion to two. -/
def labRequest (expiresAt : Int) : PlanRequest :=
  { selector := KeyMap.ofEntries [(lit "gpu", lit "yes")], policyRef := lit "p#1",
    profileRef := lit "q#1",
    allowedActions := [.rebootNode], evidence := ⟨10000000000, [lit "agent"]⟩,
    guardrails := ⟨[], 1, 10, 0, true⟩, rollout := ⟨1, 10, [2]⟩,
    approvals := ⟨[lit "owner", lit "safety"], true⟩, simulationID := lit "sim", expiresAt,
    tenant := [], cluster := [] }

def labSimulation : Simulation :=
  ⟨lit "sim", ⟨.eligible, [], [], [], [], [], ⟨0, 0, 0, 0, 0⟩, lit "digest", 0, 0⟩,
    .rebootNode, .node, [],
    [], []⟩

/-- A request that arrives as process `i` and is served, with what the environment puts into its
calls. -/
def serve (i : Nat) (r : AutonomyRequest) (inputs : List CallInput) : List AutonomyOp :=
  .start r :: inputs.map (.step i)

/-- Store calls that work, and readings of the clock. -/
def working (n : Nat) : List CallInput := List.replicate n .works

/-- The plan is created, approved twice and in its canary: processes 0 to 2. -/
def labStart (expiresAt : Int) : List AutonomyOp :=
  serve 0 (.create (lit "dana") (lit "k") (labRequest expiresAt))
      (working 1 ++ [.simulation labSimulation, .fresh (lit "1")] ++ working 3) ++
    serve 1 (.change (lit "olga") (lit "autonomy-1") 0 (.approve (lit "owner"))) (working 3) ++
    serve 2 (.change (lit "sam") (lit "autonomy-1") 0 (.approve (lit "safety")))
      (working 1 ++ [.fresh (lit "1")] ++ working 4)

/-- The calls for one node of a batch up to the claim, the fence and the deadline check. -/
def labDispatch (name decision : Str) (time : Int) : List CallInput :=
  working 2 ++ [.snapshot (labSnapshot name time)] ++ working 1 ++ [.fresh decision] ++ working 14

/-- The executor accepts the effect, which is recorded. -/
def labAccepted : List CallInput := [.outcome ⟨[], [], []⟩] ++ working 3

/-- A pass takes up the plan and lists the nodes. -/
def labTakeUp (nodes : List Str) (time : Int) : List CallInput :=
  working 2 ++ [.nodes (nodes.map fun n => some (labNode n time))] ++ working 2

/-- A pass runs the canary: process 3. -/
def labCanary : List AutonomyOp :=
  serve 3 (.reconcile 1)
    (labTakeUp [lit "node-1"] 100 ++ labDispatch (lit "node-1") (lit "d1") 100 ++ labAccepted)

/-- The effect that a call hands to the executor. -/
def dispatchedBy : AutonomyCall → Option EffectID
  | .execute request => some request.effectID
  | _ => none

/-- In the sample run the executor is called, with its authority. -/
theorem lab_call_authorised : ∃ w i request answer after before,
      exec (autonomyNext labManager) (AutonomySystem.start 100)
        (labStart 100000000000 ++ labCanary) =
        some w ∧
      w.trace = after ++ (⟨i, ⟨.execute request, answer⟩⟩ : Entry _ _) :: before ∧
      ∃ plan current effect fencedAt checkedAt earlier,
        Authority i before request plan current effect fencedAt checkedAt earlier := by
  obtain ⟨w, hw, ⟨i, call, answer⟩, he, hcall⟩ : ∃ w, exec (autonomyNext labManager)
      (AutonomySystem.start 100) (labStart 100000000000 ++ labCanary) = some w ∧
        ∃ e ∈ w.trace, (dispatchedBy e.event.call).isSome := by decide +kernel
  cases call with
  | execute request =>
    obtain ⟨after, before, htrace⟩ := List.append_of_mem he
    obtain ⟨plan, current, effect, fencedAt, checkedAt, earlier, hauthority, -⟩ :=
      execute_authorised labManager 100 _ w hw htrace
    exact ⟨w, i, request, answer, after, before, hw, htrace, plan, current, effect,
      fencedAt, checkedAt,
      earlier, hauthority⟩
  | _ => cases hcall

/-- **Every stored row is sound.** In every run a plan has roles and limits in order and approvals
that are apart, and an effect has a decision that permits it and expires at its deadline. -/
theorem stored_rows_sound {m : Manager} {clock : Int} {ops : List AutonomyOp} {w : AutonomySystem}
    (hrun : exec (autonomyNext m) (AutonomySystem.start clock) ops = some w) :
    (∀ k p, w.store.plans.get? k = some p → p.Valid k) ∧
      ∀ k e, w.store.effects k = some e → e.Sound w.trace ∧ e.id = k := by
  obtain ⟨-, hinv, -⟩ := authorised_of_run hrun
  exact ⟨fun _ _ hp => (hinv.plans.row hp).1, fun _ _ he => hinv.effects.row he⟩

theorem lab_plan_valid : ∃ w p,
    exec (autonomyNext labManager) (AutonomySystem.start 100) (labStart 100000000000) = some w ∧
      w.store.plans.get? (lit "autonomy-1") = some p ∧ p.Valid (lit "autonomy-1") := by
  simp only [exists_and_left]
  refine reached (by decide +kernel)
    fun w hw (h : (w.store.plans.get? (lit "autonomy-1")).isSome) => ?_
  obtain ⟨p, hp⟩ := Option.isSome_iff_exists.1 h
  exact ⟨p, hp, (stored_rows_sound hw).1 _ p hp⟩

end KubeNeuron.Operations
