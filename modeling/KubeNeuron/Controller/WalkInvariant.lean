import KubeNeuron.Controller.WalkSteps

/-!
# The copies of the threads

Every copy a thread of the process works on is one that the writers hold, and what a thread is about
to write is computed from its own copy. So each step of the process is at most one step of the
writers (`WalkStep.writers`), and the invariant of the writers holds in every run of the process.
-/

namespace KubeNeuron.Controller

open Lib KubeNeuron.Types Store Playbooks WalkWorld

variable {w w' : WalkWorld} {inc : Incident} {op : WalkOp} {p p' : Pass} {now : Int}
  {fault : Bool} {wop : WriterOp} {sha : Str → Str}

/-- A transition computed from a copy, which keeps the slot of the copy and starts no step. -/
def Move.From (inc : Incident) (m : Move) : Prop :=
  m.snap = inc ∧ m.progress.slotHeld = inc.remediationSlotHeld ∧
    m.dest ∉ [.awaitingApproval, .executing]

/-- What the pass is about to write is computed from its copy, and a step that is about to be
launched holds the slot. -/
def Pass.Aligned (p : Pass) : Prop :=
  match p.phase with
  | .cancelling m => m.From p.inc
  | .writing m => m.From p.inc
  | .parking k => k.snap = p.inc
  | .binding _ => p.inc.state = .observing
  | .launching _ => p.inc.remediationSlotHeld = true
  | _ => True

/-- What a step goroutine is about to write is computed from its copy. -/
def Running.Aligned (r : Running) : Prop :=
  match r.phase with
  | .executing => True
  | .cancelling m => m.From r.inc
  | .writing m => m.From r.inc

namespace WalkWorld

/-- The copies the walk holds: the one of its pass and the ones it still has to advance. -/
def walked (w : WalkWorld) : List Incident := (w.pass.map Pass.inc).toList ++ w.todo

theorem mem_walked : inc ∈ w.walked ↔ (∃ p, w.pass = some p ∧ p.inc = inc) ∨ inc ∈ w.todo := by
  rw [walked, List.mem_append, Option.mem_toList, Option.map_eq_some_iff]

/-- The copies of the walk and of its step goroutines. -/
def worked (w : WalkWorld) : List Incident := w.walked ++ w.running.map Running.inc

theorem mem_worked : inc ∈ w.worked ↔ (∃ p, w.pass = some p ∧ p.inc = inc) ∨ inc ∈ w.todo ∨
      ∃ r ∈ w.running, r.inc = inc := by
  rw [worked, List.mem_append, mem_walked, List.mem_map, or_assoc]

end WalkWorld

/-- The copies of all threads are held. -/
structure ThreadInv (w : WalkWorld) : Prop where
  writers : WriterInv w.writers
  todo : ∀ inc ∈ w.todo, inc ∈ w.writers.held
  pass : ∀ p, w.pass = some p → p.inc ∈ w.writers.held ∧ p.Aligned
  running : ∀ r ∈ w.running, r.inc ∈ w.writers.held ∧ r.Aligned
  janitor : ∀ inc ∈ rewindCopies w.janitor, inc ∈ w.writers.held ∧ rewindable inc = true
  closing : ∀ inc ∈ w.closing, inc ∈ w.writers.held ∧ inc.state.terminal = false
  operators : ∀ inc ∈ w.operators, inc ∈ w.writers.held

theorem ThreadInv.worked (hi : ThreadInv w) (h : inc ∈ w.worked) : inc ∈ w.writers.held := by
  rcases mem_worked.1 h with ⟨p, hp, rfl⟩ | ht | ⟨r, hr, rfl⟩
  · exact (hi.pass p hp).1
  · exact hi.todo inc ht
  · exact (hi.running r hr).1

/-! ## What a step writes -/

theorem mem_held_apply {w : WriterWorld} {op : WriterOp} (h : inc ∈ w.held) :
    inc ∈ (w.apply op).held := by
  have hs : ∀ {ε : Type} {fault : Bool} {outcome : Except ε (Records × Incident)},
      inc ∈ (w.settle fault outcome).held := by
    intro ε fault outcome
    unfold WriterWorld.settle
    split
    · exact .tail _ h
    · exact h
  cases op with
  | read => exact List.mem_append_right _ h
  | ingest | acknowledge =>
    simp only [WriterWorld.apply]
    split
    · exact h
    · exact h
  | decide | pauses | cancel => exact h
  | _ => exact hs

variable {next : Incident → Option Pass}

theorem PassWrite.snapshot {op : WriterOp} (h : PassWrite p now fault op next) (ha : p.Aligned) :
    op.snapshot? = some p.inc := by
  cases h with
  | move m hph =>
    rw [Pass.Aligned, hph] at ha
    exact congrArg some ha.1
  | park k hph =>
    rw [Pass.Aligned, hph] at ha
    exact congrArg some ha
  | bind | execute => rfl

theorem closeVanished_snap (inc : Incident) : (closeVanished inc).snap = inc := by
  rw [closeVanished]
  split
  · rfl
  · rfl

theorem SideOp.snapshot (h : SideOp w op (some wop)) (hi : ThreadInv w) :
    ∀ snap ∈ wop.snapshot?, snap ∈ w.writers.held := by
  intro snap hs
  cases h with
  | rewind _ inc _ _ _ _ hjanitor =>
    obtain rfl := Option.some.inj hs
    refine (hi.janitor inc ?_).1
    rw [hjanitor]
    exact .head _
  | close inc _ _ _ hc =>
    cases hs
    rw [closeVanished_snap]
    exact (hi.closing inc (hc ▸ (.head _))).1
  | resolve _ inc _ _ _ _ hops =>
    cases hs
    exact hi.operators inc (List.mem_of_getElem? hops)
  | _ => cases hs

/-- Who writes: the walk, a step goroutine, or somebody else. -/
inductive Author (w : WalkWorld) : WalkOp → WriterOp → Prop where
  | list : Author w .list .read
  | cancel {op : WalkOp} (id : Str) (updatedAt now : Nat) :
      Author w op (.cancel id updatedAt now)
  | pass {wop : WriterOp} (p : Pass) (now : Int) (fault : Bool) (next : Incident → Option Pass)
      (hpass : w.pass = some p) (hwrite : PassWrite p now fault wop next) :
      Author w (.commit now fault) wop
  | running (i : Nat) (r : Running) (m : Move) (now : Int) (fault : Bool)
      (hrunning : w.running[i]? = some r) (hphase : r.phase = .writing m) :
      Author w (.stepCommit i now fault) (.move m now fault)
  | side {op : WalkOp} {wop : WriterOp} (hop : SideOp w op (some wop)) : Author w op wop

/-- **A step of the process is at most one store operation**, which leaves its mark. -/
theorem WalkStep.writers (h : WalkStep sha w op w') : (w'.writers = w.writers ∧ w'.log = w.log) ∨
      ∃ wop, Author w op wop ∧ w'.writers = w.writers.apply wop ∧
        w'.log = marks w.writers (w.writers.apply wop) wop ++ w.log := by
  cases h with
  | listed => exact .inr ⟨.read, .list, rfl, rfl⟩
  | cancelled p _ updatedAt now =>
    exact .inr ⟨.cancel p.inc.id updatedAt now, .cancel _ _ _, rfl, rfl⟩
  | wrote p now fault wop next hp hwr =>
    exact .inr ⟨wop, .pass p now fault next hp hwr, rfl, rfl⟩
  | stepCancelled _ r _ updatedAt now =>
    exact .inr ⟨.cancel r.inc.id updatedAt now, .cancel _ _ _, rfl, rfl⟩
  | stepWrote i r m now fault hr hph =>
    exact .inr ⟨.move m now fault, .running i r m now fault hr hph, rfl, rfl⟩
  | side sop _ _ _ _ hop =>
    cases sop with
    | none => exact .inl ⟨rfl, rfl⟩
    | some wop => exact .inr ⟨wop, .side hop, rfl, rfl⟩
  | _ => exact .inl ⟨rfl, rfl⟩

theorem Author.snapshot (h : Author w op wop)
    (hi : ThreadInv w) : ∀ snap ∈ wop.snapshot?, snap ∈ w.writers.held := by
  intro snap hs
  cases h with
  | list | cancel => cases hs
  | pass p _ _ _ hp hwr =>
    obtain ⟨hh, ha⟩ := hi.pass p hp
    rw [hwr.snapshot ha] at hs
    cases hs
    exact hh
  | running _ r _ _ _ hr hph =>
    obtain ⟨hh, ha⟩ := hi.running r (List.mem_of_getElem? hr)
    rw [Running.Aligned, hph] at ha
    cases hs
    rw [ha.1]
    exact hh
  | side hop => exact hop.snapshot hi snap hs

theorem Author.effect (h : Author w op wop)
    (hi : ThreadInv w) : Effect w.writers wop (w.writers.apply wop) :=
  apply_effect hi.writers (h.snapshot hi)

/-- Who moves an incident: the walk, by a transition it planned or by the start of a step, a step
goroutine, or somebody beside the walk. -/
inductive Mover (w : WalkWorld) (m : Move) (now : Int) (fault : Bool) : WalkOp → Prop where
  | walk (p : Pass) (hpass : w.pass = some p) (hphase : p.phase = .writing m)
      (hfrom : m.From p.inc) : Mover w m now fault (.commit now fault)
  | start (p : Pass) (step : Step) (actor : Str) (hpass : w.pass = some p)
      (hphase : p.phase = .admitted step actor) (hm : m = executingMove p.inc step actor) :
      Mover w m now fault (.commit now fault)
  | running (i : Nat) (r : Running) (hrunning : w.running[i]? = some r)
      (hphase : r.phase = .writing m) (hfrom : m.From r.inc) :
      Mover w m now fault (.stepCommit i now fault)
  | close (inc : Incident) (rest : List Incident) (hclosing : w.closing = inc :: rest)
      (hm : m = closeVanished inc) : Mover w m now fault (.closerCommit now fault)
  | resolve (i : Nat) (inc : Incident) (actor reason : Str)
      (hoperators : w.operators[i]? = some inc) (hm : m = manualResolve inc actor reason) :
      Mover w m now fault (.operatorResolve i actor reason now fault)

/-- What a store operation of the process tells of its author. -/
def WriterOp.Authored (w : WalkWorld) (op : WalkOp) : WriterOp → Prop
  | .move m now fault => Mover w m now fault op
  | .bind snap _ _ _ => snap.state = .observing
  | .rewind snap _ _ _ => rewindable snap = true
  | .ingest env sig fault => op = .ingest env sig fault
  | .acknowledge a now fault => op = .acknowledge a now fault
  | _ => True

theorem Author.authored (h : Author w op wop) (hi : ThreadInv w) : wop.Authored w op := by
  cases h with
  | list | cancel => trivial
  | pass p _ _ _ hp hwr =>
    have ha := (hi.pass p hp).2
    cases hwr with
    | move _ hph =>
      rw [Pass.Aligned, hph] at ha
      exact .walk p hp hph ha
    | park => trivial
    | bind _ hph =>
      rw [Pass.Aligned, hph] at ha
      exact ha
    | execute step actor hph => exact .start p step actor hp hph rfl
  | running i r _ _ _ hr hph =>
    have ha := (hi.running r (List.mem_of_getElem? hr)).2
    rw [Running.Aligned, hph] at ha
    exact .running i r hr hph ha
  | side hs =>
    cases hs with
    | rewind _ inc _ _ _ _ hjanitor => exact (hi.janitor inc (hjanitor ▸ (.head _))).2
    | close inc rest _ _ hc => exact .close inc rest hc rfl
    | resolve i inc actor reason _ _ hops => exact .resolve i inc actor reason hops rfl
    | ingest | acknowledge => rfl
    | _ => trivial

theorem Author.mover {m : Move} (h : Author w op (.move m now fault)) (hi : ThreadInv w) :
    Mover w m now fault op := h.authored hi

theorem Author.of_ingest {env : IngestEnv} {sig : Signal} (h : Author w op (.ingest env sig fault))
    (hi : ThreadInv w) : op = .ingest env sig fault := h.authored hi

theorem Author.of_acknowledge {a : Ack} (h : Author w op (.acknowledge a now fault))
    (hi : ThreadInv w) : op = .acknowledge a now fault := h.authored hi

theorem Author.move_copy {m : Move} (h : Author w op (.move m now fault)) (hi : ThreadInv w) :
    m.snap ∈ w.worked ∨ m.dest = .resolved ∨
      op = .closerCommit now fault ∧ ∃ inc, m = closeVanished inc := by
  cases h.mover hi with
  | walk p hp _ hf => exact .inl (mem_worked.2 (.inl ⟨p, hp, hf.1.symm⟩))
  | start p _ _ hp _ hm =>
    rw [hm]
    exact .inl (mem_worked.2 (.inl ⟨p, hp, rfl⟩))
  | running _ r hu _ hf =>
    have hr := List.mem_of_getElem? hu
    exact .inl (mem_worked.2 (.inr (.inr ⟨r, hr, hf.1.symm⟩)))
  | close inc _ _ hm => exact .inr (.inr ⟨rfl, inc, hm⟩)
  | resolve _ _ _ _ _ hm =>
    rw [hm]
    exact .inr (.inl rfl)

theorem Author.rewrites_state (h : Author w op wop)
    (hi : ThreadInv w) {row copy : Incident} {asked : List Approval}
    (hrewrites : Rewrites wop row copy asked) :
    (∃ m now, wop = .move m now false ∧ copy = m.copy now row ∧ fenced m.snap row = true) ∨
      copy.state ∈ [.awaitingApproval, .observing, .evaluating, .executing] := by
  cases hrewrites with
  | move m now _ _ fence => exact .inl ⟨m, now, rfl, rfl, fence⟩
  | park => exact .inr (.head _)
  | bind snap =>
    have hst : snap.state = .observing := h.authored hi
    exact .inr (.tail _ (hst ▸ (.head _)))
  | rewind snap =>
    have hst : rewindable snap = true := h.authored hi
    rw [rewindable, List.contains_iff_mem] at hst
    have hs : [IncidentState.evaluating, .executing, .awaitingApproval] ⊆
        [.awaitingApproval, .observing, .evaluating, .executing] := by decide
    exact .inr (hs hst)

theorem WalkStep.writers_inv
    (h : WalkStep sha w op w') (hi : ThreadInv w) : WriterInv w'.writers := by
  rcases h.writers with ⟨he, -⟩ | ⟨_, ha, hp, -⟩
  · exact he ▸ hi.writers
  · rw [hp]
    exact hi.writers.effect (ha.effect hi)

/-! ## The invariant -/

/-- What a turn leaves as it was, and the phases that it leads to only from some others. -/
structure Kept (w : WalkWorld) (op : WalkOp) (p p' : Pass) : Prop where
  inc : p'.inc = p.inc
  cfg : p'.cfg = p.cfg
  gen : p'.gen = p.gen
  aligned : p'.Aligned
  locks : p'.locks = true → p.locks = true ∨ p.gen = w.gen
  launching : ∀ step, p'.phase ≠ .launching step
  admitted : ∀ step actor, p'.phase = .admitted step actor → ∃ t, op = .admission t

theorem Kept.of_unlocked (hinc : p'.inc = p.inc) (hcfg : p'.cfg = p.cfg) (hgen : p'.gen = p.gen)
    (ha : p'.Aligned) (hl : p'.locks = false) : Kept w op p p' := by
  refine ⟨hinc, hcfg, hgen, ha, fun h => ?_, fun step hph => ?_, fun step actor hph => ?_⟩
  · cases hl.symm.trans h
  · rw [Pass.locks, hph] at hl
    cases hl
  · rw [Pass.locks, hph] at hl
    cases hl

theorem Pass.kept_follow {plan : Plan} {dests : List IncidentState}
    (hp : plan.Within p.inc dests) (h : p.follow plan = some p') : Kept w op p p' := by
  revert h
  fun_cases Pass.follow p plan with
  | case1 => rintro ⟨⟩
  | case2 | case3 =>
    rintro ⟨⟩
    exact .of_unlocked rfl rfl rfl ⟨hp.1, hp.2.1, hp.2.2.2⟩ rfl
  | case4 =>
    rintro ⟨⟩
    exact .of_unlocked rfl rfl rfl hp.1 rfl
  | case5 =>
    rintro ⟨⟩
    exact .of_unlocked rfl rfl rfl trivial rfl

theorem Turn.kept (h : Turn sha w p op (some p')) : Kept w op p p' := by
  generalize hp' : some p' = q at h
  cases h with
  | nodePaused | unread | superseded => cases hp'
  | planned t _ hl =>
    subst hp'
    rcases planOf_follows hl with ⟨_, hst, rfl⟩ | ⟨-, -, hf⟩ | ⟨_, _, hin, -, -, -, hf⟩
    · exact .of_unlocked rfl rfl rfl hst rfl
    · exact Pass.kept_follow (advanceEvaluating_within sha p.cfg t p.inc) hf
    · exact Pass.kept_follow hin hf
  | decided t fault _ _ _ _ hl =>
    have hin := advanceAwaitingApproval_within hl
    have hk : Kept w (.readDecision t fault) { p with readAt := w.records.approvals.length } p' :=
      Pass.kept_follow hin hp'.symm
    exact { hk with }
  | compared t _ step d =>
    exact Pass.kept_follow (honourApproval_within sha t p.inc step d _) hp'.symm
  | refused _ _ _ _ _ hl => exact Pass.kept_follow (admitStep_within hl) hp'.symm
  | nodeClear | approved =>
    cases hp'
    exact .of_unlocked rfl rfl rfl trivial rfl
  | locked _ _ _ hgen =>
    cases hp'
    exact ⟨rfl, rfl, rfl, trivial, fun _ => .inr hgen, by simp, by simp⟩
  | admitted t _ _ hph =>
    cases hp'
    refine ⟨rfl, rfl, rfl, trivial, fun _ => .inl ?_, by simp, fun _ _ _ => ⟨t, rfl⟩⟩
    rw [Pass.locks, hph]

/-- A copy of the same incident and round, which holds the slot and is active if the other one
is. -/
structure Continues (c c' : Incident) : Prop where
  id : c.id = c'.id
  epoch : c.approvalEpoch = c'.approvalEpoch
  slot : c.remediationSlotHeld = true → c'.remediationSlotHeld = true
  active : active c = true → active c' = true

theorem Continues.refl (c : Incident) : Continues c c := ⟨rfl, rfl, fun h => h, fun h => h⟩

theorem PassWrite.next_kept
    {op : WriterOp} (h : PassWrite p now fault op next) (hl : w.leftBy op = some inc)
    (hn : next inc = some p') :
    p'.inc = inc ∧ p'.Aligned ∧ Continues p.inc p'.inc := by
  cases h with
  | move | park => cases hn
  | bind =>
    cases hn
    obtain rfl := leftBy_bind hl
    exact ⟨rfl, trivial, rfl, rfl, fun hs => hs, fun ha => ha⟩
  | execute =>
    cases hn
    obtain ⟨_, -, -, -, rfl⟩ := leftBy_move hl
    exact ⟨rfl, rfl, rfl, rfl, fun _ => rfl, fun _ => rfl⟩

theorem threadInv_start {r : Records} (hi : (r.db.incidents.map (·.id)).Nodup)
    (cfg : RuntimeConfig) : ThreadInv (.start r cfg) := by
  refine ⟨writerInv_start hi, ?_, ?_, ?_, ?_, ?_, ?_⟩
  all_goals
    intro x hx
    cases hx

theorem ThreadInv.step (hi : ThreadInv w) (h : WalkStep sha w op w') : ThreadInv w' := by
  have hh : ∀ {inc : Incident}, inc ∈ w.writers.held → inc ∈ w'.writers.held := by
    intro inc hinc
    rcases h.writers with ⟨he, -⟩ | ⟨_, -, ha, -⟩
    · exact he ▸ hinc
    · rw [ha]
      exact mem_held_apply hinc
  -- the copies the threads had are still held
  have hk : ThreadInv { w with writers := w'.writers } :=
    { writers := h.writers_inv hi
      todo := fun inc hinc => hh (hi.todo inc hinc)
      pass := fun p hp => (hi.pass p hp).imp_left hh
      running := fun r hr => (hi.running r hr).imp_left hh
      janitor := fun inc hinc => (hi.janitor inc hinc).imp_left hh
      closing := fun inc hinc => (hi.closing inc hinc).imp_left hh
      operators := fun inc hinc => hh (hi.operators inc hinc) }
  cases h with
  | listed =>
    refine { hk with todo := fun inc hinc => ?_ }
    exact mem_held_read (List.mem_filter.1 hinc).1
  | skipped _ _ _ hs =>
    refine { hk with todo := fun c hc => hk.todo c ?_ }
    show c ∈ w.todo
    rw [hs]
    exact .tail _ hc
  | picked inc _ _ hs =>
    have hd : ∀ c ∈ inc :: _, c ∈ w.writers.held := hs ▸ hk.todo
    refine { hk with todo := fun c hc => hd c (.tail _ hc), pass := fun p hp => ?_ }
    cases hp
    exact ⟨hd inc (.head _), trivial⟩
  | turned p p' hp ht =>
    refine { hk with pass := fun q hq => ?_ }
    obtain rfl : p' = some q := hq
    rw [ht.kept.inc]
    exact ⟨(hk.pass p hp).1, ht.kept.aligned⟩
  | cancelled p _ _ _ hp hph =>
    refine { hk with pass := fun q hq => ?_ }
    cases hq
    obtain ⟨hinc, ha⟩ := hk.pass p hp
    rw [Pass.Aligned, hph] at ha
    exact ⟨hinc, ha⟩
  | wrote _ _ _ _ _ _ hwr =>
    refine { hk with pass := fun q hq => ?_ }
    obtain ⟨_, hl, hn⟩ := Option.bind_eq_some_iff.1 hq
    obtain ⟨hinc, ha, -⟩ := hwr.next_kept hl hn
    rw [hinc]
    exact ⟨mem_held_leftBy hl, ha⟩
  | launched p _ hp =>
    refine { hk with pass := fun q hq => ?_, running := fun r hr => ?_ }
    · cases hq
    obtain _ | ⟨_, hold⟩ := hr
    · exact ⟨(hk.pass p hp).1, trivial⟩
    · exact hk.running r hold
  | stepTurned _ outcome r m cancel hr _ hplan =>
    refine { hk with running := fun q hq => ?_ }
    rcases List.mem_or_eq_of_mem_set hq with hold | rfl
    · exact hk.running q hold
    refine ⟨(hk.running r (List.mem_of_getElem? hr)).1, ?_⟩
    have hin := afterStep_within r.cfg r.inc r.step outcome
    rw [hplan] at hin
    have hf : m.From r.inc := ⟨hin.1, hin.2.1, hin.2.2.2⟩
    cases cancel with
    | true | false => exact hf
  | stepCancelled _ r _ _ _ hr hph =>
    refine { hk with running := fun q hq => ?_ }
    rcases List.mem_or_eq_of_mem_set hq with hold | rfl
    · exact hk.running q hold
    obtain ⟨hinc, ha⟩ := hk.running r (List.mem_of_getElem? hr)
    rw [Running.Aligned, hph] at ha
    exact ⟨hinc, ha⟩
  | stepWrote =>
    refine { hk with running := fun q hq => ?_ }
    exact hk.running q (List.mem_of_mem_eraseIdx hq)
  | installed => exact { hk with }
  | side sop janitor closing operators _ _ hcopies =>
    have hjanitor : ∀ inc ∈ rewindCopies janitor,
        inc ∈ (w.writeIf sop).writers.held ∧ rewindable inc = true :=
      fun inc hinc => (hcopies.janitor inc hinc).elim (hk.janitor inc) fun hw => hw
    have hclosing : ∀ inc ∈ closing, inc ∈ (w.writeIf sop).writers.held ∧
        inc.state.terminal = false :=
      fun inc hinc => (hcopies.closing inc hinc).elim (hk.closing inc) fun hw => hw
    have hops : ∀ inc ∈ operators, inc ∈ (w.writeIf sop).writers.held :=
      fun inc hinc => (hcopies.operators inc hinc).elim (hk.operators inc) fun hw => hw
    cases sop with
    | none | some =>
      exact { hk with janitor := hjanitor, closing := hclosing, operators := hops }
  | restarted =>
    refine ⟨hk.writers, ?_, ?_, ?_, ?_, ?_, ?_⟩
    all_goals
      intro x hx
      cases hx

/-- **In every run the threads work on copies that are held.** -/
theorem threadInv_exec {r : Records}
    (hi : (r.db.incidents.map (·.id)).Nodup) {cfg : RuntimeConfig} {ops : List WalkOp}
    (h : exec (walkNext sha) (.start r cfg) ops = some w) : ThreadInv w :=
  exec_invariant (fun _ _ _ hinv hs => hinv.step (walkStep_of_next hs)) (threadInv_start hi cfg) h

/-! ## Who works on which incident -/

/-- The walk holds one copy of an incident, and its pass is on an incident of which no step runs. -/
structure Exclusive (w : WalkWorld) : Prop where
  distinct : (w.walked.map (·.id)).Nodup
  idle : ∀ p, w.pass = some p → ∀ r ∈ w.running, r.inc.id ≠ p.inc.id

theorem exclusive_start (r : Records) (cfg : RuntimeConfig) : Exclusive (.start r cfg) := by
  refine ⟨List.nodup_nil, ?_⟩
  intro p hp
  cases hp

/-- What a step leaves of the copies of the walk and its goroutines: a listing takes the rows, a
launch hands the copy of the pass to a goroutine, and every other step goes on with copies it
had. -/
structure Handed (w w' : WalkWorld) (op : WalkOp) : Prop where
  walked : ∀ c' ∈ w'.walked,
    (op = .list ∧ c' ∈ w.records.db.incidents ∧ active c' = true) ∨ ∃ c ∈ w.walked, Continues c c'
  running : ∀ r' ∈ w'.running, (∃ r ∈ w.running, r.inc = r'.inc) ∨
    ∃ p step, w.pass = some p ∧ p.phase = .launching step ∧ p.inc = r'.inc
  exclusive : Exclusive w'

theorem Handed.worked (h : Handed w w' op) :
    ∀ c' ∈ w'.worked, (op = .list ∧ c' ∈ w.records.db.incidents ∧ active c' = true) ∨
      ∃ c ∈ w.worked, Continues c c' := by
  intro c' hc'
  rcases List.mem_append.1 hc' with hw | hu
  · rcases h.walked c' hw with hl | ⟨c, hc, hn⟩
    · exact .inl hl
    · exact .inr ⟨c, List.mem_append_left _ hc, hn⟩
  obtain ⟨r', hr', rfl⟩ := List.mem_map.1 hu
  right
  rcases h.running r' hr' with ⟨r, hr, heq⟩ | ⟨p, _, hp, -, heq⟩
  · rw [← heq]
    exact ⟨r.inc, mem_worked.2 (.inr (.inr ⟨r, hr, rfl⟩)), .refl _⟩
  · rw [← heq]
    exact ⟨p.inc, mem_worked.2 (.inl ⟨p, hp, rfl⟩), .refl _⟩

theorem Exclusive.handed_carry (he : Exclusive w) (ht : w'.todo = w.todo)
    (ha : ∀ p', w'.pass = some p' → ∃ p, w.pass = some p ∧ Continues p.inc p'.inc)
    (hu : ∀ r' ∈ w'.running, ∃ r ∈ w.running, r.inc = r'.inc) : Handed w w' op := by
  refine ⟨fun c' hc' => .inr ?_, fun r' hr' => .inl (hu r' hr'), ?_, fun p' hp' r' hr' => ?_⟩
  · rcases mem_walked.1 hc' with ⟨p', hp', rfl⟩ | hrest
    · obtain ⟨p, hp, hn⟩ := ha p' hp'
      exact ⟨p.inc, mem_walked.2 (.inl ⟨p, hp, rfl⟩), hn⟩
    · exact ⟨c', mem_walked.2 (.inr (ht ▸ hrest)), .refl _⟩
  · have hd := he.distinct
    rw [walked, ht]
    cases hp' : w'.pass with
    | none => exact hd.sublist ((List.sublist_append_right _ _).map _)
    | some p' =>
      obtain ⟨_, hp, hn⟩ := ha p' hp'
      rw [walked, hp] at hd
      show (p'.inc.id :: w.todo.map (·.id)).Nodup
      rw [← hn.id]
      exact hd
  · obtain ⟨p, hp, hn⟩ := ha p' hp'
    obtain ⟨r, hr, hi⟩ := hu r' hr'
    rw [← hn.id, ← hi]
    exact he.idle p hp r hr

/-- **What changes hands in a step.** -/
theorem Exclusive.handed (hx : Exclusive w) (hinv : ThreadInv w) (h : WalkStep sha w op w') :
    Handed w w' op := by
  have hd := hx.distinct
  -- the pass and the goroutines as they were
  have he : ∀ {op : WalkOp} {c'}, c' ∈ w.todo →
      (op = .list ∧ c' ∈ w.records.db.incidents ∧ active c' = true) ∨
        ∃ c ∈ w.walked, Continues c c' :=
    fun {_ c'} hc' => .inr ⟨c', mem_walked.2 (.inr hc'), .refl _⟩
  have ha : ∀ p', w.pass = some p' → ∃ p, w.pass = some p ∧ Continues p.inc p'.inc :=
    fun p' hp' => ⟨p', hp', .refl _⟩
  have hu : ∀ r' ∈ w.running, ∃ r ∈ w.running, r.inc = r'.inc := fun r' hr' => ⟨r', hr', rfl⟩
  have hs : ∀ {i : Nat} {r : Running} {phase : RunPhase}, w.running[i]? = some r →
      ∀ r' ∈ w.running.set i { r with phase }, ∃ r ∈ w.running, r.inc = r'.inc := by
    intro i r phase hr r' hr'
    rcases List.mem_or_eq_of_mem_set hr' with hold | rfl
    · exact ⟨r', hold, rfl⟩
    · exact ⟨r, List.mem_of_getElem? hr, rfl⟩
  cases h with
  | listed h0 =>
    refine ⟨fun c' hc' => ?_, fun r' hr' => .inl (hu r' hr'), ?_, hx.idle⟩
    · rcases mem_walked.1 hc' with ⟨_, hp, -⟩ | ho
      · cases h0.symm.trans hp
      · exact .inl ⟨rfl, List.mem_filter.1 ho⟩
    have hw : ({ w.write .read with
        todo := w.records.db.incidents.filter active, listedAt := w.log.length } :
        WalkWorld).walked = w.records.db.incidents.filter active := by
      show (w.pass.map Pass.inc).toList ++ _ = _
      rw [h0]
      rfl
    rw [hw]
    exact hinv.writers.ids.sublist (List.filter_sublist.map _)
  | skipped _ rest h0 hlist =>
    refine ⟨fun c' hc' => ?_, fun r' hr' => .inl (hu r' hr'), ?_, hx.idle⟩
    · rcases mem_walked.1 hc' with ⟨_, hp, -⟩ | hrest
      · cases h0.symm.trans hp
      · exact he (hlist ▸ .tail _ hrest)
    rw [walked, h0, hlist] at hd
    show (((w.pass.map Pass.inc).toList ++ rest).map (·.id)).Nodup
    rw [h0]
    exact (List.nodup_cons.1 hd).2
  | picked _ _ h0 hlist hi =>
    refine ⟨fun c' hc' => ?_, fun r' hr' => .inl (hu r' hr'), ?_, fun p hp r hr => ?_⟩
    · rcases mem_walked.1 hc' with ⟨_, hp, rfl⟩ | hrest
      · cases hp
        exact he (hlist ▸ (.head _))
      · exact he (hlist ▸ .tail _ hrest)
    · rw [walked, h0, hlist] at hd
      exact hd
    cases hp
    intro heq
    rw [inFlight, List.any_eq_false] at hi
    exact hi r hr (decide_eq_true heq)
  | turned p p' hp ht =>
    refine hx.handed_carry rfl (fun q hq => ?_) hu
    obtain rfl : p' = some q := hq
    rw [ht.kept.inc]
    exact ⟨p, hp, .refl _⟩
  | cancelled p _ _ _ hp =>
    refine hx.handed_carry rfl (fun q hq => ?_) hu
    cases hq
    exact ⟨p, hp, .refl _⟩
  | wrote p _ _ _ _ hp hwr =>
    refine hx.handed_carry rfl (fun q hq => ?_) hu
    obtain ⟨_, hl, hn⟩ := Option.bind_eq_some_iff.1 hq
    exact ⟨p, hp, (hwr.next_kept hl hn).2.2⟩
  | launched p step hp hph =>
    -- the copy of the pass becomes the copy of its goroutine
    refine ⟨fun c' hc' => ?_, fun r' hr' => ?_, ?_, fun q hq => by cases hq⟩
    · rcases mem_walked.1 hc' with ⟨_, hq, -⟩ | hrest
      · cases hq
      · exact he hrest
    · obtain _ | ⟨_, hr⟩ := hr'
      · exact .inr ⟨p, step, hp, hph, rfl⟩
      · exact .inl (hu r' hr)
    · exact hd.sublist ((List.sublist_append_right _ _).map _)
  | stepTurned _ _ _ _ _ hr | stepCancelled _ _ _ _ _ hr =>
    exact hx.handed_carry rfl ha (hs hr)
  | stepWrote =>
    refine hx.handed_carry rfl ha fun r' hr' => ?_
    exact ⟨r', List.mem_of_mem_eraseIdx hr', rfl⟩
  | installed => exact hx.handed_carry rfl ha hu
  | side sop =>
    cases sop with
    | none | some => exact hx.handed_carry rfl ha hu
  | restarted =>
    refine ⟨?_, ?_, List.nodup_nil, ?_⟩
    · intro c' hc'
      cases hc'
    · intro r' hr'
      cases hr'
    · intro p hp
      cases hp

theorem WalkStep.running_nodup (h : WalkStep sha w op w') (hx : Exclusive w)
    (hn : (w.running.map (·.inc.id)).Nodup) : (w'.running.map (·.inc.id)).Nodup := by
  cases h with
  | launched p step hp =>
    -- the walk took up no incident of which a step runs
    refine List.nodup_cons.2 ⟨fun hm => ?_, hn⟩
    obtain ⟨r, hr, hid⟩ := List.mem_map.1 hm
    exact hx.idle p hp r hr hid
  | stepTurned _ _ _ _ _ hr | stepCancelled _ _ _ _ _ hr =>
    convert hn using 1
    apply List.ext_getElem?
    grind
  | stepWrote => exact hn.sublist ((List.eraseIdx_sublist _ _).map _)
  | restarted => exact List.nodup_nil
  | side sop =>
    cases sop with
    | none | some => exact hn
  | _ => exact hn

/-- **One thread works on an incident.** In every run no two step goroutines are on one incident,
the walk holds one copy of it at most and is not at one whose step runs; and each of these copies is
of a stored incident, is not ahead of it, and with its version has its content. -/
theorem threads_work_apart {r : Records} (hids : (r.db.incidents.map (·.id)).Nodup)
    {cfg : RuntimeConfig}
    {ops : List WalkOp} (hrun : exec (walkNext sha) (.start r cfg) ops = some w) :
    (w.running.map (·.inc.id)).Nodup ∧ (w.walked.map (·.id)).Nodup ∧
      (∀ p, w.pass = some p → ∀ r ∈ w.running, r.inc.id ≠ p.inc.id) ∧
      ∀ inc ∈ w.worked, ∃ row, getIncident inc.id w.records.db = some row ∧ Trails inc row := by
  have hinv := exec_invariant
    (P := fun v => ThreadInv v ∧ Exclusive v ∧ (v.running.map (·.inc.id)).Nodup) ?_
    ⟨threadInv_start hids cfg, exclusive_start r cfg, List.nodup_nil⟩ hrun
  · obtain ⟨hthreads, hx, hn⟩ := hinv
    exact ⟨hn, hx.distinct, hx.idle,
      fun inc hinc => hthreads.writers.trails inc (hthreads.worked hinc)⟩
  · rintro v op v' ⟨hthreads, hx, hn⟩ hnext
    have hstep := walkStep_of_next hnext
    exact ⟨hthreads.step hstep, (hx.handed hthreads hstep).exclusive, hstep.running_nodup hx hn⟩

theorem started_step_runs_alone :
    ∃ w, exec (walkNext id) (.start .empty (sampleConfig [cordonStep])) (openingOps ++ startOps 3) =
      some w ∧ w.running.length = 1 ∧ (w.running.map (·.inc.id)).Nodup :=
  reached (by decide +kernel) fun _ hw hl =>
    ⟨hl, (threads_work_apart (r := .empty) List.nodup_nil hw).1⟩

theorem WalkStep.of_commit (h : WalkStep sha w (.commit now fault) w') :
    ∃ p wop next, w.pass = some p ∧ PassWrite p now fault wop next ∧
      w' = (w.write wop).turn ((w.leftBy wop).bind next) := by
  generalize hop : WalkOp.commit now fault = op at h
  cases h with
  | turned _ _ _ ht =>
    cases hop
    cases ht
  | wrote p _ _ wop next hp hwr =>
    cases hop
    exact ⟨p, wop, next, hp, hwr, rfl⟩
  | side sop janitor closing operators deciding hs hcopies =>
    cases hop
    cases hs <;> next haside => cases haside
  | _ => cases hop

theorem WalkStep.stamps_grow (h : WalkStep sha w op w') (hi : ThreadInv w) :
    ∃ more, w'.writers.stamps = more ++ w.writers.stamps := by
  rcases h.writers with ⟨he, -⟩ | ⟨_, ha, hp, -⟩
  · exact ⟨[], by rw [he, List.nil_append]⟩
  · rw [hp]
    exact (ha.effect hi).stamps_grow

inductive PassFrom (sha : Str → Str) (w : WalkWorld) (op : WalkOp) (q : Pass) : Prop where
  | kept (hpass : w.pass = some q)
  | picked (inc : Incident) (hinc : inc ∈ w.todo) (hq : q = ⟨inc, w.live, w.gen, 0, .picked⟩)
  | turned (p : Pass) (hpass : w.pass = some p) (hturn : Turn sha w p op (some q))
  | cancelled (p : Pass) (m : Move) (hpass : w.pass = some p) (hphase : p.phase = .cancelling m)
      (hq : q = { p with phase := .writing m })
  | wrote (p : Pass) (now : Int) (fault : Bool) (wop : WriterOp) (next : Incident → Option Pass)
      (inc : Incident) (hpass : w.pass = some p) (hwrite : PassWrite p now fault wop next)
      (hleft : w.leftBy wop = some inc) (hnext : next inc = some q)

theorem WalkStep.pass_from
    (h : WalkStep sha w op w') {q : Pass} (hq : w'.pass = some q) : PassFrom sha w op q := by
  cases h with
  | picked inc _ _ hd =>
    exact .picked inc (hd ▸ (.head _)) (Option.some.inj hq).symm
  | turned p p' hp ht =>
    obtain rfl : p' = some q := hq
    exact .turned p hp ht
  | cancelled p m _ _ hp hph =>
    exact .cancelled p m hp hph (Option.some.inj hq).symm
  | wrote p now fault wop next hp hwr =>
    obtain ⟨inc, hl, hn⟩ := Option.bind_eq_some_iff.1 hq
    exact .wrote p now fault wop next inc hp hwr hl hn
  | launched | restarted => cases hq
  | side sop =>
    cases sop with
    | none | some => exact .kept hq
  | _ => exact .kept hq

/-! ## Starting a step -/

/-- The walk starts a step: its pass was admitted, and the write that follows finds a row that
passes the fence of the walk's copy. -/
structure Started (w w' : WalkWorld) (p : Pass) (step : Step) (row row' : Incident) : Prop where
  pass : w.pass = some p
  found : getIncident row'.id w.records.db = some row
  id : row.id = p.inc.id
  legal : canTransition p.inc.state .executing = true
  fence : fenced p.inc row = true
  wrote : ∃ actor now, p.phase = .admitted step actor ∧
    w'.writers = w.writers.apply (.move (executingMove p.inc step actor) now false) ∧
    row' = writeIncident ((executingMove p.inc step actor).copy now row) row

theorem Author.executing {m : Move}
    (h : Author w op (.move m now fault)) (hi : ThreadInv w) (hd : m.dest = .executing) :
    ∃ p step actor, op = .commit now fault ∧ w.pass = some p ∧ p.phase = .admitted step actor ∧
      m = executingMove p.inc step actor := by
  have hpl : m.dest ∈ [.awaitingApproval, .executing] :=
    hd ▸ .tail _ (List.mem_singleton.2 rfl)
  cases h.mover hi with
  | walk _ _ _ hf | running _ _ _ _ hf => exact absurd hpl hf.2.2
  | start p step actor hp hph hm => exact ⟨p, step, actor, rfl, hp, hph, hm⟩
  | close _ _ _ hm =>
    rw [hm, closeVanished] at hd
    split_ifs at hd <;> cases hd
  | resolve _ _ _ _ _ hm =>
    rw [hm] at hd
    cases hd

/-- **An incident enters `executing` only when the walk starts a step of it.** -/
theorem WalkStep.started
    (h : WalkStep sha w op w') (hi : ThreadInv w) {id : Str} {row' : Incident}
    (hr' : getIncident id w'.records.db = some row') (hst : row'.state = .executing)
    (hn : ∀ row, getIncident id w.records.db = some row → row.state ≠ .executing) :
    ∃ p step row, Started w w' p step row row' := by
  rcases h.writers with ⟨he, -⟩ | ⟨_, ha, happ, -⟩
  · rw [records, he] at hr'
    exact absurd hst (hn row' hr')
  have heff := ha.effect hi
  rw [← happ] at heff
  have hpl : row'.state ∉ [.open, .awaitingApproval] := by
    rw [hst]
    decide
  obtain ⟨_, now, row, rfl, hd, hl, hf, hid, hfen, hr⟩ :=
    heff.entered hr' hpl (hst ▸ hn)
  rw [hst] at hd
  obtain ⟨p, step, actor, -, hp, hph, rfl⟩ := ha.executing hi hd
  refine ⟨p, step, row, hp, ?_, hid, hl, hfen, actor, now, hph, happ, hr⟩
  rw [getIncident_id hr']
  exact hf

end KubeNeuron.Controller
