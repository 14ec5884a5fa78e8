import KubeNeuron.Controller.WalkInvariant

/-!
# Paused nodes

The walk reads the pause of a node when it begins to evaluate an incident of it, and at no other
place. An approved step is started without that read, and a read that fails counts as no pause.
-/

namespace KubeNeuron.Controller

open Lib KubeNeuron.Types Store Playbooks

/-! ## The condition -/

/-- The pass has passed the place where the pause of its node is, or should be, consulted, and may
still start a step. -/
def Pass.pending (p : Pass) : Bool :=
  match p.phase with
  | .cleared | .starting .. | .locked .. | .admitted .. => true
  | _ => false

/-- The reads of nodes succeed, the node of an approved step is not paused when the walk takes the
approval up, and no node is paused while a step of it may be about to start. -/
def PauseSeen (w : WalkWorld) : WalkOp → Prop
  | .readNode fault => fault = false
  | .readRequest _ _ => ∀ p ∈ w.pass, nodeIsPaused p.inc.target.node w.records = false
  | .pauses paused => ∀ p ∈ w.pass, p.pending = true → p.inc.target.node ∉ paused
  | _ => True

instance decidablePauseSeen (w : WalkWorld) (op : WalkOp) : Decidable (PauseSeen w op) := by
  unfold PauseSeen
  split <;> infer_instance

/-- A step that may be about to start is on a node that is not paused. -/
def PauseInv (w : WalkWorld) : Prop :=
  ∀ p, w.pass = some p → p.pending = true → nodeIsPaused p.inc.target.node w.records = false

/-! ## The moves of a pass -/

theorem Turn.pause_seen {sha : Str → Str} {w : WalkWorld} {p p' : Pass} {op : WalkOp}
    (h : Turn sha w p op (some p')) (ha : w.pass = some p) (hi : PauseInv w)
    (hs : PauseSeen w op) (hd : p'.pending = true) :
    nodeIsPaused p.inc.target.node w.records = false := by
  have hk : p.pending = true → nodeIsPaused p.inc.target.node w.records = false := hi p ha
  -- the decisions that start no step
  have hn : ∀ {q : Pass} {plan : Plan} {dests : List IncidentState}, plan.Within q.inc dests →
      .executing ∉ dests → q.follow plan = some p' →
      nodeIsPaused p.inc.target.node w.records = false := by
    intro q plan dests hl hdests hf
    revert hf
    fun_cases Pass.follow q plan with
    | case1 => rintro ⟨⟩
    | case5 => exact absurd hl hdests
    | _ =>
      rintro ⟨⟩
      cases hd
  generalize hp' : some p' = q at h
  cases h with
  | nodeClear _ _ _ hclear =>
    rcases hclear with rfl | hclear
    · cases hs
    · exact hclear
  | planned t _ hl =>
    subst hp'
    rcases planOf_follows hl with
      ⟨_, -, rfl⟩ | ⟨-, hph, -⟩ | ⟨_, _, hin, ht, -, -, hf⟩
    · cases hd
    · refine hk ?_
      rw [Pass.pending, hph]
    · exact hn hin ht hf
  | decided _ _ _ _ _ _ hl =>
    exact hn (q := { p with readAt := w.records.approvals.length })
      (advanceAwaitingApproval_within hl) (by decide) hp'.symm
  | approved =>
    cases hp'
    cases hd
  | compared => exact hs p ha
  | locked _ _ hph | admitted _ _ _ hph =>
    refine hk ?_
    rw [Pass.pending, hph]
  | refused _ _ _ _ _ hl =>
    exact hn (admitStep_within hl) (by decide) hp'.symm
  | _ => cases hp'

/-! ## Runs -/

theorem nodeIsPaused_write {w : WalkWorld} {op : WriterOp} (h : ∀ paused, op ≠ .pauses paused)
    (name : Str) : nodeIsPaused name (w.write op).records = nodeIsPaused name w.records := by
  rw [nodeIsPaused, nodeIsPaused, getNode, getNode]
  rw [show (w.write op).records.nodes = w.records.nodes from apply_frame.1 h]

theorem PauseInv.step {sha : Str → Str} {w w' : WalkWorld} {op : WalkOp}
    (hi : PauseInv w) (hs : PauseSeen w op) (h : WalkStep sha w op w') : PauseInv w' := by
  intro q hq hd
  cases h with
  | picked | cancelled =>
    cases hq
    cases hd
  | turned p p' hp ht =>
    obtain rfl : p' = some q := hq
    rw [ht.kept.inc]
    exact ht.pause_seen hp hi hs hd
  | wrote _ _ _ _ _ _ hwr =>
    obtain ⟨_, -, hn⟩ := Option.bind_eq_some_iff.1 hq
    cases hwr with
    | move | park => cases hn
    | bind | execute =>
      cases hn
      cases hd
  | launched | restarted => cases hq
  | stepWrote =>
    rw [← hi q hq hd]
    exact nodeIsPaused_write (by intro paused heq; cases heq) _
  | side sop _ _ _ _ hop =>
    cases sop with
    | none => exact hi q hq hd
    | some wop =>
      by_cases hpauses : ∃ paused, wop = .pauses paused
      · obtain ⟨_, rfl⟩ := hpauses
        cases hop
        exact nodeIsPaused_applyNodeConfigPauses w.records (hs q hq hd)
      · rw [← hi q hq hd]
        exact nodeIsPaused_write (fun paused heq => hpauses ⟨paused, heq⟩) _
  | _ => exact hi q hq hd

/-- **A paused node holds its incidents.** In every run that meets the condition, an operation that
moves an incident into `executing` finds the node of the incident not paused, and leaves it so. -/
theorem paused_node_holds {sha : Str → Str} {r : Records}
    (hids : (r.db.incidents.map (·.id)).Nodup) {cfg : RuntimeConfig} {ops : List WalkOp}
    {w w' : WalkWorld} (hrun : exec (walkNext sha) (.start r cfg) ops = some w)
    (hseen : Along (walkNext sha) PauseSeen (.start r cfg) ops) {op : WalkOp}
    (hstep : walkNext sha w op = some w') {id : Str} {row' : Incident}
    (hrow' : getIncident id w'.records.db = some row') (hstate : row'.state = .executing)
    (hnew : ∀ row, getIncident id w.records.db = some row → row.state ≠ .executing) :
    nodeIsPaused row'.target.node w.records = false ∧
      nodeIsPaused row'.target.node w'.records = false := by
  have hthreads := threadInv_exec hids hrun
  have hinv : PauseInv w :=
    exec_invariant_along (fun _ _ _ hinv hok hnext => hinv.step hok (walkStep_of_next hnext))
      (fun p hp => by cases hp) hseen hrun
  obtain ⟨p, _, _, hstarted⟩ := (walkStep_of_next hstep).started hthreads hrow' hstate hnew
  obtain ⟨_, _, hphase, hwriters, hwritten⟩ := hstarted.wrote
  -- the row keeps its target, and the walk's copy names the same node
  have hnode : row'.target.node = p.inc.target.node := by
    have hfound := hstarted.found
    rw [← getIncident_id hfound] at hfound
    have htrails := hthreads.writers.trails_row (hthreads.pass p hstarted.pass).1 hstarted.id hfound
    rw [hwritten, htrails.origin.device.node]
    rfl
  have hclear : nodeIsPaused row'.target.node w.records = false := by
    rw [hnode]
    refine hinv p hstarted.pass ?_
    rw [Pass.pending, hphase]
  refine ⟨hclear, ?_⟩
  rw [← hclear, nodeIsPaused, nodeIsPaused, getNode, WalkWorld.records, hwriters]
  rw [apply_frame.1 (by intro paused heq; cases heq)]
  rfl

/-- A node that was paused is released before its incident is approved, and another one is paused:
the approved step starts. -/
theorem paused_node_holds_of_other_node :
    ∃ w w' row', exec (walkNext id) (.start .empty (sampleConfig [resetStep]))
        (openingOps ++ parkOps 3 ++ [.pauses [lit "n1"]] ++ approveOps 4 ++ [.pauses [lit "n2"]] ++
          resumeOps 5) = some w ∧
      walkNext id w (.commit 6 false) = some w' ∧
      getIncident (lit "inc-1") w'.records.db = some row' ∧ row'.state = .executing ∧
      nodeIsPaused (lit "n2") w.records = true ∧
      nodeIsPaused row'.target.node w'.records = false := by
  simp only [exists_and_left]
  refine reached (by decide +kernel) fun w hw (hrun : nodeIsPaused (lit "n2") w.records = true ∧
    (∀ row, getIncident (lit "inc-1") w.records.db = some row → row.state ≠ .executing) ∧
    ∃ w', walkNext id w (.commit 6 false) = some w' ∧
      ∃ row', getIncident (lit "inc-1") w'.records.db = some row' ∧ row'.state = .executing) => ?_
  obtain ⟨hpaused, hnew, w', hw', row', hrow', hstate⟩ := hrun
  exact ⟨w', hw', row', hrow', hstate, hpaused,
    (paused_node_holds (by decide) hw (by decide +kernel) hw' hrow' hstate hnew).2⟩

/-- An incident waits for a human, who approves it. Then its node is paused. The next pass of the
walk starts the step on the paused node. -/
theorem approved_step_starts_on_paused_node :
    ∃ w, exec (walkNext id) (.start .empty (sampleConfig [resetStep]))
        (openingOps ++ parkOps 3 ++ approveOps 4 ++ [.pauses [lit "n1"]] ++ resumeOps 5) = some w ∧
      nodeIsPaused (lit "n1") w.records = true ∧
      (∃ row, getIncident (lit "inc-1") w.records.db = some row ∧ row.state = .awaitingApproval) ∧
      ∃ w', walkNext id w (.commit 6 false) = some w' ∧
        ∃ row', getIncident (lit "inc-1") w'.records.db = some row' ∧ row'.state = .executing ∧
          row'.target.node = lit "n1" ∧ nodeIsPaused (lit "n1") w'.records = true := by
  decide +kernel

end KubeNeuron.Controller
