import KubeNeuron.Controller.WalkWorld

/-!
# What one operation of the process does

`WalkStep` lists the ways in which one operation changes the world, with everything it checked.
`walkStep_of_next` reads it off `walkNext`, and the later modules reason about `WalkStep` alone. The
copies of the threads are copies the writers hold (`ThreadInv`).
-/

namespace KubeNeuron.Controller

open Lib KubeNeuron.Types Store Playbooks

variable {sha : Str → Str} {w w' : WalkWorld} {op : WalkOp} {inc : Incident}
  {plan : Plan} {t : Tick}

/-! ## The moves of a pass -/

/-- The moves of the walk's pass that write nothing, by the operation that makes them. -/
inductive Turn (sha : Str → Str) (w : WalkWorld) (p : Pass) :
    WalkOp → Option Pass → Prop where
  | nodePaused (fault : Bool) (hphase : p.phase = .picked) (hstate : p.inc.state = .evaluating) :
      Turn sha w p (.readNode fault) none
  | nodeClear (fault : Bool) (hphase : p.phase = .picked) (hstate : p.inc.state = .evaluating)
      (hclear : fault = true ∨ nodeIsPaused p.inc.target.node w.records = false) :
      Turn sha w p (.readNode fault) (some { p with phase := .cleared })
  | planned (t : Tick) (p' : Option Pass) (hplan : planOf sha p t = some p') :
      Turn sha w p (.plan t) p'
  | unread (t : Tick) (fault : Bool) (hphase : p.phase = .picked)
      (hstate : p.inc.state = .awaitingApproval) : Turn sha w p (.readDecision t fault) none
  | decided (t : Tick) (fault : Bool) (plan : Plan) (hphase : p.phase = .picked)
      (hstate : p.inc.state = .awaitingApproval) (hepoch : p.inc.approvalEpoch ≠ 0)
      (hplan : advanceAwaitingApproval p.cfg t p.inc
        (latestApprovalDecision p.inc.id p.inc.approvalEpoch w.records.approvals) = .plan plan) :
      Turn sha w p (.readDecision t fault)
        ({ p with readAt := w.records.approvals.length }.follow plan)
  | approved (t : Tick) (fault : Bool) (step : Step) (d : Approval) (hphase : p.phase = .picked)
      (hstate : p.inc.state = .awaitingApproval) (hepoch : p.inc.approvalEpoch ≠ 0)
      (hplan : advanceAwaitingApproval p.cfg t p.inc
        (latestApprovalDecision p.inc.id p.inc.approvalEpoch w.records.approvals) =
          .compare step d) :
      Turn sha w p (.readDecision t fault)
        (some { p with readAt := w.records.approvals.length, phase := .comparing step d })
  | compared (t : Tick) (fault : Bool) (step : Step) (d : Approval)
      (hphase : p.phase = .comparing step d) :
      Turn sha w p (.readRequest t fault) (p.follow (honourApproval sha t p.inc step d
        (if fault then none
        else getApprovalRequest p.inc.id p.inc.approvalEpoch w.records.approvals)))
  | superseded (step : Step) (actor : Str) (hphase : p.phase = .starting step actor) :
      Turn sha w p .lock none
  | locked (step : Step) (actor : Str) (hphase : p.phase = .starting step actor)
      (hgen : p.gen = w.gen) : Turn sha w p .lock (some { p with phase := .locked step actor })
  | refused (t : Tick) (step : Step) (actor : Str) (plan : Plan)
      (hphase : p.phase = .locked step actor)
      (hplan : admitStep p.cfg t p.inc step = .plan plan) : Turn sha w p (.admission t)
        (p.follow plan)
  | admitted (t : Tick) (step : Step) (actor : Str) (hphase : p.phase = .locked step actor)
      (hadmitted : admitStep p.cfg t p.inc step = .admitted) :
      Turn sha w p (.admission t) (some { p with phase := .admitted step actor })

/-- The write a pass is ready for, and how the pass goes on when it commits. -/
inductive PassWrite (p : Pass) (now : Int) (fault : Bool) :
    WriterOp → (Incident → Option Pass) → Prop where
  | move (m : Move) (hphase : p.phase = .writing m) :
      PassWrite p now fault (.move m now fault) fun _ => none
  | park (k : Park) (hphase : p.phase = .parking k) :
      PassWrite p now fault (.park k now fault) fun _ => none
  | bind (book : Str) (hphase : p.phase = .binding book) :
      PassWrite p now fault (.bind p.inc book now fault) fun inc =>
        some { p with inc, phase := .bound }
  | execute (step : Step) (actor : Str) (hphase : p.phase = .admitted step actor) :
      PassWrite p now fault (.move (executingMove p.inc step actor) now fault)
        fun inc => some { p with inc, phase := .launching step }

/-! ## Everybody else -/

/-- A store operation, when there is one. -/
def WalkWorld.writeIf (w : WalkWorld) : Option WriterOp → WalkWorld
  | none => w
  | some op => w.write op

/-- The copies the rewind janitor still has to look at. -/
def rewindCopies (janitor : Option (RuntimeConfig × List Incident)) : List Incident :=
  (janitor.map Prod.snd).getD []

/-- The copies the janitors and operators hold: each is one they held before, or one they have just
read or left. `held` are the copies that are held now. -/
structure SideCopies (w : WalkWorld) (held : List Incident)
    (janitor : Option (RuntimeConfig × List Incident)) (closing operators : List Incident) :
    Prop where
  janitor : ∀ inc ∈ rewindCopies janitor,
    inc ∈ rewindCopies w.janitor ∨ (inc ∈ held ∧ rewindable inc = true)
  closing : ∀ inc ∈ closing, inc ∈ w.closing ∨ (inc ∈ held ∧ inc.state.terminal = false)
  operators : ∀ inc ∈ operators, inc ∈ w.operators ∨ inc ∈ held

theorem SideCopies.same (w : WalkWorld) (held : List Incident) :
    SideCopies w held w.janitor w.closing w.operators :=
  ⟨fun _ h => .inl h, fun _ h => .inl h, fun _ h => .inl h⟩

/-- The operations of the janitors, the operators and the humans. -/
def WalkOp.aside : WalkOp → Bool
  | .janitorPin | .janitorList _ | .janitorSkip | .janitorRewind _ _ | .closerList | .closerSkip
  | .closerCommit _ _ | .operatorRead _ | .operatorResolve .. | .decideOpen _ _ | .decideRequest _
  | .decideCheck _ | .decideRecord .. => true
  | _ => false

/-- What the janitors, the operators, the humans and the environment write, by the operation. -/
inductive SideOp (w : WalkWorld) : WalkOp → Option WriterOp → Prop where
  | idle {op : WalkOp} (haside : op.aside = true) : SideOp w op none
  | read {op : WalkOp} (haside : op.aside = true) : SideOp w op (some .read)
  | rewind (cfg : RuntimeConfig) (inc : Incident) (rest : List Incident) (index now : Int)
      (fault : Bool) (hjanitor : w.janitor = some (cfg, inc :: rest))
      (hidle : w.inFlight inc.id = false) (hindex : rewindIndex cfg inc = some index) :
      SideOp w (.janitorRewind now fault) (some (.rewind inc index now fault))
  | close (inc : Incident) (rest : List Incident) (now : Int) (fault : Bool)
      (hclosing : w.closing = inc :: rest) (hidle : w.inFlight inc.id = false) :
      SideOp w (.closerCommit now fault) (some (.move (closeVanished inc) now fault))
  | resolve (i : Nat) (inc : Incident) (actor reason : Str) (now : Int) (fault : Bool)
      (hoperators : w.operators[i]? = some inc) :
      SideOp w (.operatorResolve i actor reason now fault)
        (some (.move (manualResolve inc actor reason) now fault))
  | decide {op : WalkOp} (a : Approval) (haside : op.aside = true)
      (hdecision : a.decision ≠ .requested) : SideOp w op (some (.decide a))
  | ingest (env : IngestEnv) (sig : Signal) (fault : Bool) :
      SideOp w (.ingest env sig fault) (some (.ingest env sig fault))
  | acknowledge (a : Ack) (now : Int) (fault : Bool) :
      SideOp w (.acknowledge a now fault) (some (.acknowledge a now fault))
  | pauses (paused : List Str) : SideOp w (.pauses paused) (some (.pauses paused))

/-! ## The steps -/

/-- The ways in which an operation changes the world. -/
inductive WalkStep (sha : Str → Str) (w : WalkWorld) : WalkOp → WalkWorld → Prop where
  | listed (hpass : w.pass = none) (htodo : w.todo = []) :
      WalkStep sha w .list
        { w.write .read with
          todo := w.records.db.incidents.filter active, listedAt := w.log.length }
  | skipped (inc : Incident) (rest : List Incident) (hpass : w.pass = none)
      (htodo : w.todo = inc :: rest) : WalkStep sha w .pick { w with todo := rest }
  | picked (inc : Incident) (rest : List Incident) (hpass : w.pass = none)
      (htodo : w.todo = inc :: rest) (hidle : w.inFlight inc.id = false) :
      WalkStep sha w .pick
        { w with todo := rest, pass := some ⟨inc, w.live, w.gen, 0, .picked⟩ }
  | turned {op : WalkOp} (p : Pass) (p' : Option Pass) (hpass : w.pass = some p)
      (hturn : Turn sha w p op p') : WalkStep sha w op (w.turn p')
  | cancelled (p : Pass) (m : Move) (updatedAt now : Nat) (hpass : w.pass = some p)
      (hphase : p.phase = .cancelling m) :
      WalkStep sha w (.cancelPending updatedAt now)
        ((w.write (.cancel p.inc.id updatedAt now)).turn (some { p with phase := .writing m }))
  | wrote (p : Pass) (now : Int) (fault : Bool) (op : WriterOp) (next : Incident → Option Pass)
      (hpass : w.pass = some p) (hwrite : PassWrite p now fault op next) :
      WalkStep sha w (.commit now fault) ((w.write op).turn ((w.leftBy op).bind next))
  | launched (p : Pass) (step : Step) (hpass : w.pass = some p)
      (hphase : p.phase = .launching step) :
      WalkStep sha w .launch
        { w with pass := none, running := ⟨p.inc, step, p.cfg, .executing⟩ :: w.running }
  | stepTurned (i : Nat) (outcome : Outcome) (r : Running) (m : Move) (cancel : Bool)
      (hrunning : w.running[i]? = some r) (hphase : r.phase = .executing)
      (hplan : afterStep r.cfg r.inc r.step outcome = .move m cancel) :
      WalkStep sha w (.stepDone i outcome)
        { w with
          running := w.running.set i
            { r with phase := if cancel then .cancelling m else .writing m } }
  | stepCancelled (i : Nat) (r : Running) (m : Move) (updatedAt now : Nat)
      (hrunning : w.running[i]? = some r) (hphase : r.phase = .cancelling m) :
      WalkStep sha w (.stepCancel i updatedAt now)
        { w.write (.cancel r.inc.id updatedAt now) with
          running := w.running.set i { r with phase := .writing m } }
  | stepWrote (i : Nat) (r : Running) (m : Move) (now : Int) (fault : Bool)
      (hrunning : w.running[i]? = some r) (hphase : r.phase = .writing m) :
      WalkStep sha w (.stepCommit i now fault)
        { w.write (.move m now fault) with running := w.running.eraseIdx i }
  | installed (cfg : RuntimeConfig) (hlock : w.pass.any Pass.locks = false) :
      WalkStep sha w (.install cfg) { w with gen := w.gen + 1, live := cfg }
  | side {op : WalkOp} (sop : Option WriterOp) (janitor : Option (RuntimeConfig × List Incident))
      (closing operators : List Incident) (deciding : List Deciding) (hop : SideOp w op sop)
      (hcopies : SideCopies w (w.writeIf sop).writers.held janitor closing operators) :
      WalkStep sha w op { w.writeIf sop with janitor, closing, operators, deciding }
  | restarted (cfg : RuntimeConfig) :
      WalkStep sha w (.restart cfg)
        { w with
          gen := w.gen + 1, live := cfg, todo := [], pass := none, running := [], janitor := none
          closing := [], operators := [], deciding := [] }

theorem turned_of_passNext {p : Pass} (hp : w.pass = some p) :
    passNext sha w p op = some w' → WalkStep sha w op w' := by
  fun_cases passNext sha w p op with
  | case1 fault hst hph =>
    rintro ⟨⟩
    exact .turned p none hp (.nodePaused fault hph hst)
  | case2 fault hst hph hpau =>
    rintro ⟨⟩
    refine .turned p _ hp (.nodeClear fault hph hst ?_)
    cases fault with
    | true => exact .inl rfl
    | false => exact Or.inr (by simpa using hpau)
  | case4 t =>
    intro h
    obtain ⟨p', hl, rfl⟩ := Option.map_eq_some_iff.1 h
    exact .turned p p' hp (.planned t p' hl)
  | case6 t hst hph =>
    rintro ⟨⟩
    exact .turned p none hp (.unread t true hph hst)
  | case7 t fault hst hph hep _ _ plan hl =>
    rintro ⟨⟩
    exact .turned p _ hp (.decided t fault plan hph hst hep hl)
  | case8 t fault hst hph hep _ _ step d hl =>
    rintro ⟨⟩
    exact .turned p _ hp (.approved t fault step d hph hst hep hl)
  | case10 t fault step d hph =>
    rintro ⟨⟩
    exact .turned p _ hp (.compared t fault step d hph)
  | case12 step actor hph hgen =>
    rintro ⟨⟩
    exact .turned p _ hp (.locked step actor hph hgen)
  | case13 step actor hph =>
    rintro ⟨⟩
    exact .turned p _ hp (.superseded step actor hph)
  | case15 t step actor hph plan hl =>
    rintro ⟨⟩
    exact .turned p _ hp (.refused t step actor plan hph hl)
  | case16 t step actor hph ha =>
    rintro ⟨⟩
    exact .turned p _ hp (.admitted t step actor hph ha)
  | case18 updatedAt now m hph =>
    rintro ⟨⟩
    exact .cancelled p m updatedAt now hp hph
  | case20 now fault =>
    fun_cases commitPass w p now fault with
    | case1 m hph =>
      rintro ⟨⟩
      have hs : WalkStep sha w (.commit now fault) _ := .wrote p now fault _ _ hp (.move m hph)
      simpa using hs
    | case2 k hph =>
      rintro ⟨⟩
      have hs : WalkStep sha w (.commit now fault) _ := .wrote p now fault _ _ hp (.park k hph)
      simpa using hs
    | case3 book hph =>
      rintro ⟨⟩
      rw [Option.map_eq_bind]
      exact .wrote p now fault _ _ hp (.bind book hph)
    | case4 step actor hph =>
      rintro ⟨⟩
      rw [Option.map_eq_bind]
      exact .wrote p now fault _ _ hp (.execute step actor hph)
    | case5 => rintro ⟨⟩
  | case21 step hph =>
    rintro ⟨⟩
    exact .launched p step hp hph
  | _ => rintro ⟨⟩

theorem step_of_runningNext : runningNext w op = some w' → WalkStep sha w op w' := by
  fun_cases runningNext w op with
  | case1 i outcome inc step cfg hr m hp =>
    rintro ⟨⟩
    exact .stepTurned i outcome ⟨inc, step, cfg, .executing⟩ m true hr rfl hp
  | case2 i outcome inc step cfg hr m hp =>
    rintro ⟨⟩
    exact .stepTurned i outcome ⟨inc, step, cfg, .executing⟩ m false hr rfl hp
  | case5 i updatedAt now inc step cfg m hr =>
    rintro ⟨⟩
    exact .stepCancelled i ⟨inc, step, cfg, .cancelling m⟩ m updatedAt now hr rfl
  | case7 i now fault inc step cfg m hr =>
    rintro ⟨⟩
    exact .stepWrote i ⟨inc, step, cfg, .writing m⟩ m now fault hr rfl
  | _ => rintro ⟨⟩

theorem mem_held_read (h : inc ∈ w.records.db.incidents) : inc ∈ (w.write .read).writers.held :=
  List.mem_append_left _ h

theorem mem_held_leftBy {op : WriterOp}
    (h : w.leftBy op = some inc) : inc ∈ (w.write op).writers.held := by
  rw [WalkWorld.leftBy] at h
  split_ifs at h
  exact List.mem_of_mem_head? h

variable {fault : Bool} {cfg : RuntimeConfig}

theorem leftBy_settle {ε : Type} {op : WriterOp} {outcome : Except ε (Records × Incident)}
    (ha : w.writers.apply op = w.writers.settle fault outcome)
    (h : w.leftBy op = some inc) : fault = false ∧ ∃ r, outcome = .ok (r, inc) := by
  rw [WalkWorld.leftBy, ha] at h
  unfold WriterWorld.settle at h
  split at h
  next r left =>
    simp only [WriterWorld.committed, List.length_cons, Nat.lt_succ_self, if_true,
      List.head?_cons, Option.some.injEq] at h
    exact ⟨rfl, r, by rw [h]⟩
  · simp at h

theorem leftBy_move {m : Move} {now : Int} (h : w.leftBy (.move m now fault) = some inc) :
    ∃ row, getIncident m.snap.id w.records.db = some row ∧ fenced m.snap row = true ∧
      canTransition m.snap.state m.dest = true ∧
      inc = { m.copy now row with version := row.version + 1 } := by
  obtain ⟨-, _, hr⟩ := leftBy_settle rfl h
  obtain ⟨hl, row, hid, hf, he, hi, -⟩ := Move.run_ok hr
  exact ⟨row, hid ▸ he.found, hf, hl, hi⟩

theorem leftBy_bind {snap : Incident} {book : Str} {now : Int}
    (h : w.leftBy (.bind snap book now fault) = some inc) :
    inc = { latePlaybook snap book now with version := snap.version + 1 } := by
  obtain ⟨-, _, hs⟩ := leftBy_settle rfl h
  obtain ⟨_, -, -, -, hi, -⟩ := storeIncident_ok hs
  exact hi

theorem step_of_janitorNext : janitorNext w op = some w' → WalkStep sha w op w' := by
  fun_cases janitorNext w op with
  | case1 =>
    rintro ⟨⟩
    refine .side none (some (w.live, [])) w.closing w.operators w.deciding (.idle rfl)
      { SideCopies.same w _ with janitor := ?_ }
    intro inc hinc
    cases hinc
  | case2 =>
    intro h
    obtain ⟨⟨cfg, _⟩, -, rfl⟩ := Option.map_eq_some_iff.1 h
    refine .side (some .read) (some (cfg, _)) w.closing w.operators w.deciding (.read rfl)
      { SideCopies.same w _ with janitor := ?_ }
    intro inc hinc
    obtain ⟨hr, hn⟩ := List.mem_filter.1 hinc
    rw [Bool.and_eq_true] at hn
    exact .inr ⟨mem_held_read hr, hn.2⟩
  | case3 cfg inc rest hjanitor =>
    rintro ⟨⟩
    refine .side none (some (cfg, rest)) w.closing w.operators w.deciding (.idle rfl)
      { SideCopies.same w _ with janitor := ?_ }
    intro c hc
    rw [hjanitor]
    exact .inl (.tail _ hc)
  | case5 now fault cfg inc rest hjanitor index hidx hi =>
    rintro ⟨⟩
    refine .side (some (.rewind inc index now fault)) (some (cfg, rest)) w.closing
      w.operators w.deciding (.rewind cfg inc rest index now fault hjanitor hi hidx)
      { SideCopies.same w _ with janitor := ?_ }
    intro c hc
    rw [hjanitor]
    exact .inl (.tail _ hc)
  | case8 =>
    rintro ⟨⟩
    refine .side (some .read) w.janitor _ w.operators w.deciding (.read rfl)
      { SideCopies.same w _ with closing := ?_ }
    intro inc hinc
    obtain ⟨hr, ho⟩ := List.mem_filter.1 hinc
    exact Or.inr ⟨mem_held_read hr, by simpa using ho⟩
  | case9 inc rest hclosing =>
    rintro ⟨⟩
    refine .side none w.janitor rest w.operators w.deciding (.idle rfl)
      { SideCopies.same w _ with closing := ?_ }
    intro c hc
    exact .inl (hclosing ▸ .tail _ hc)
  | case12 now fault inc rest hclosing hi op hst =>
    rintro ⟨⟩
    refine .side (some op) w.janitor _ w.operators
      w.deciding (.close inc rest now fault hclosing (by simpa using hi))
      { SideCopies.same w _ with closing := ?_ }
    intro c hc
    rcases List.mem_append.1 hc with hl | ht
    · -- the first of the two writes leaves the incident evaluating
      have hl := Option.mem_toList.1 hl
      obtain ⟨_, -, -, -, hy⟩ := leftBy_move hl
      refine .inr ⟨mem_held_leftBy hl, ?_⟩
      rw [hy]
      simp [Move.copy, closeVanished, hst, systemMove, IncidentState.terminal]
    · exact .inl (hclosing ▸ .tail _ ht)
  | case13 now fault inc rest hclosing hi op =>
    rintro ⟨⟩
    refine .side (some op) w.janitor rest w.operators
      w.deciding (.close inc rest now fault hclosing (by simpa using hi))
      { SideCopies.same w _ with closing := ?_ }
    intro c hc
    exact .inl (hclosing ▸ .tail _ hc)
  | _ => rintro ⟨⟩

theorem step_of_operatorNext : operatorNext w op = some w' → WalkStep sha w op w' := by
  fun_cases operatorNext w op with
  | case1 =>
    intro h
    obtain ⟨_, hr, rfl⟩ := Option.map_eq_some_iff.1 h
    refine .side (some .read) w.janitor w.closing _ w.deciding (.read rfl)
      { SideCopies.same w _ with operators := ?_ }
    intro c hc
    obtain _ | ⟨_, hold⟩ := hc
    · exact .inr (mem_held_read (getIncident_mem hr))
    · exact .inl hold
  | case2 i actor reason now fault =>
    intro h
    obtain ⟨inc, hi, rfl⟩ := Option.map_eq_some_iff.1 h
    refine .side (some (.move (manualResolve inc actor reason) now fault)) w.janitor w.closing _
      w.deciding (.resolve i inc actor reason now fault hi)
      { SideCopies.same w _ with operators := ?_ }
    intro c hc
    exact .inl (List.mem_of_mem_eraseIdx hc)
  | case5 =>
    rintro ⟨⟩
    exact .side none w.janitor w.closing w.operators _ (.idle rfl) (.same w _)
  | case7 =>
    intro h
    obtain ⟨_, -, h⟩ := Option.bind_eq_some_iff.1 h
    obtain ⟨_, -, rfl⟩ := Option.map_eq_some_iff.1 h
    exact .side none w.janitor w.closing w.operators _ (.idle rfl) (.same w _)
  | case8 =>
    intro h
    obtain ⟨_, -, h⟩ := Option.bind_eq_some_iff.1 h
    obtain ⟨_, -, h⟩ := Option.bind_eq_some_iff.1 h
    split_ifs at h
    cases h
    exact .side none w.janitor w.closing w.operators _ (.idle rfl) (.same w _)
  | case10 i decision actor channel now id epoch request hdeciding hd =>
    rintro ⟨⟩
    exact .side (some (.decide _)) w.janitor w.closing w.operators _ (.decide _ rfl hd) (.same w _)
  | _ => rintro ⟨⟩

/-- **Every operation is one of the steps.** -/
theorem walkStep_of_next (h : walkNext sha w op = some w') : WalkStep sha w op w' := by
  -- an operation of the environment leaves every thread as it is
  have henv : ∀ {sop}, SideOp w op (some sop) → WalkStep sha w op (w.write sop) := fun {sop} hop =>
    .side (some sop) w.janitor w.closing w.operators w.deciding hop (.same w _)
  have ha : ∀ {op}, (w.pass.bind fun p => passNext sha w p op) = some w' →
      WalkStep sha w op w' := by
    intro op h
    obtain ⟨_, hp, h⟩ := Option.bind_eq_some_iff.1 h
    exact turned_of_passNext hp h
  cases op with
  | list =>
    simp only [walkNext] at h
    split at h
    next hn ht =>
      cases h
      exact .listed hn ht
    · cases h
  | pick =>
    simp only [walkNext] at h
    split at h
    next inc rest hn ht =>
      split_ifs at h with hi
      · cases h
        exact .skipped inc rest hn ht
      · cases h
        exact .picked inc rest hn ht (by simpa using hi)
    · cases h
  | install cfg =>
    obtain ⟨hlock, rfl⟩ := unguarded h
    exact .installed cfg (by simpa using hlock)
  | ingest env sig fault =>
    cases h
    exact henv (.ingest env sig fault)
  | acknowledge a now fault =>
    cases h
    exact henv (.acknowledge a now fault)
  | pauses paused =>
    cases h
    exact henv (.pauses paused)
  | restart cfg =>
    cases h
    exact .restarted cfg
  | stepDone | stepCancel | stepCommit => exact step_of_runningNext h
  | janitorPin | janitorList | janitorSkip | janitorRewind | closerList | closerSkip
  | closerCommit => exact step_of_janitorNext h
  | readNode | plan | readDecision | readRequest | lock | admission | cancelPending | commit
  | launch => exact ha h
  | _ => exact step_of_operatorNext h

/-! ## Plans are about their incident -/

/-- The plan writes from the given copy, keeps its slot, and leads to one of the given states. Only
a park leads to `awaitingApproval`, and only the start of a step to `executing`. -/
def Plan.Within (inc : Incident) (dests : List IncidentState) : Plan → Prop
  | .hold => True
  | .move m _ =>
    m.snap = inc ∧ m.progress.slotHeld = inc.remediationSlotHeld ∧ m.dest ∈ dests ∧
      m.dest ∉ [.awaitingApproval, .executing]
  | .park k => k.snap = inc ∧ .awaitingApproval ∈ dests
  | .start _ _ => .executing ∈ dests

variable {dests : List IncidentState}

theorem Plan.Within.mono {dests' : List IncidentState}
    (h : plan.Within inc dests) (hs : dests ⊆ dests') : plan.Within inc dests' := by
  cases plan with
  | hold => trivial
  | move => exact ⟨h.1, h.2.1, hs h.2.2.1, h.2.2.2⟩
  | park => exact ⟨h.1, hs h.2⟩
  | start => exact hs h

theorem needsHuman_plain : IncidentState.needsHuman ∉ [.awaitingApproval, .executing] := by decide

theorem quarantine_within {reason : Str} (hd : .needsHuman ∈ dests) :
    (quarantine inc reason).Within inc dests := ⟨rfl, rfl, hd, needsHuman_plain⟩

theorem systemMove_within {dest : IncidentState}
    {action result : Str} {cancel : Bool} (hd : dest ∈ dests)
    (hne : dest ∉ [.awaitingApproval, .executing]) :
    (Plan.move (systemMove inc dest action result) cancel).Within inc dests := ⟨rfl, rfl, hd, hne⟩

theorem escalate_within (cfg : RuntimeConfig) (inc : Incident) (reason : Str) :
    (escalate cfg inc reason).Within inc [.needsHuman, .evaluating] := by
  fun_cases escalate cfg inc reason with
  | case1 | case2 => exact quarantine_within (by decide)
  | case3 => exact ⟨rfl, rfl, .tail _ (List.mem_singleton.2 rfl), by simp [systemMove]⟩

theorem advanceOpen_within (cfg : RuntimeConfig) (t : Tick) (inc : Incident) :
    (advanceOpen cfg t inc).Within inc [.needsHuman, .observing, .evaluating] := by
  fun_cases advanceOpen cfg t inc with
  | case1 => exact quarantine_within (by decide)
  | _ => exact systemMove_within (by decide) (by decide)

theorem advanceObserving_within (cfg : RuntimeConfig) (t : Tick) (inc : Incident) :
    (advanceObserving cfg t inc).Within inc [.evaluating, .resolved] := by
  fun_cases advanceObserving cfg t inc with
  | case1 | case2 => exact systemMove_within (by decide) (by decide)
  | case3 => trivial

theorem beforeFirstStep_within {book : Playbook} (h : beforeFirstStep cfg t inc book = some plan) :
    plan.Within inc [.needsHuman, .evaluating] := by
  revert h
  fun_cases beforeFirstStep cfg t inc book with
  | case1 | case6 =>
    rintro ⟨⟩
    trivial
  | case2 =>
    rintro ⟨⟩
    exact quarantine_within (by decide)
  | case3 | case7 =>
    rintro ⟨⟩
    exact escalate_within cfg inc _
  | _ => rintro ⟨⟩

theorem evaluateStep_within (sha : Str → Str) (cfg : RuntimeConfig) (t : Tick)
    (inc : Incident) (step : Step) :
    (evaluateStep sha cfg t inc step).Within inc
      [.needsHuman, .evaluating, .awaitingApproval, .executing] := by
  fun_cases evaluateStep sha cfg t inc step with
  | case1 | case3 => exact (escalate_within cfg inc _).mono (by decide)
  | case2 => trivial
  | case4 => exact ⟨rfl, by decide⟩
  | case5 =>
    show IncidentState.executing ∈ _
    decide

/-- The states an evaluating incident goes to, by the answer of the engine: `verifying` when no step
is left at its index. -/
def evaluatingDests : Engine.Next → List IncidentState
  | .done => [.needsHuman, .evaluating, .observing, .verifying]
  | _ => [.needsHuman, .evaluating, .observing, .awaitingApproval, .executing]

theorem evaluatingDests_stop (next : Engine.Next) :
    [.needsHuman, .evaluating, .observing] ⊆ evaluatingDests next := by
  cases next with
  | unknown | done => decide
  | step =>
    show _ ⊆ evaluatingDests .unknown
    decide

theorem advanceEvaluating_within (sha : Str → Str) (cfg : RuntimeConfig) (t : Tick)
    (inc : Incident) :
    (advanceEvaluating sha cfg t inc).Within inc
      (evaluatingDests (cfg.engine.nextStep inc.playbook inc.stepIndex)) := by
  have hp := evaluatingDests_stop (cfg.engine.nextStep inc.playbook inc.stepIndex)
  rw [advanceEvaluating]
  split
  · trivial
  split
  · exact systemMove_within (hp (by decide)) (by decide)
  split
  next plan hf =>
    split at hf
    · exact (beforeFirstStep_within hf).mono (List.Subset.trans (by decide) hp)
    · cases hf
  · split
    · exact quarantine_within (hp (by decide))
    next hd =>
      rw [hd]
      exact systemMove_within (by decide) (by decide)
    rename_i step hs
    rw [hs]
    refine (evaluateStep_within sha cfg t inc step).mono ?_
    show _ ⊆ evaluatingDests .unknown
    decide

theorem advanceVerifying_within (cfg : RuntimeConfig) (t : Tick) (inc : Incident) :
    (advanceVerifying cfg t inc).Within inc [.needsHuman, .evaluating, .resolved] := by
  fun_cases advanceVerifying cfg t inc with
  | case1 => exact (escalate_within cfg inc _).mono (by decide)
  | case2 | case3 => trivial
  | case4 | case5 => exact systemMove_within (by decide) (by decide)

theorem migratePark_within (sha : Str → Str) (cfg : RuntimeConfig) (inc : Incident) :
    (migratePark sha cfg inc).Within inc [.needsHuman, .awaitingApproval] := by
  rw [migratePark]
  split
  · exact ⟨rfl, by decide⟩
  · exact quarantine_within (by decide)

theorem expireApproval_within (cfg : RuntimeConfig) (t : Tick) (inc : Incident) :
    (expireApproval cfg t inc).Within inc [.expired] := by
  rw [expireApproval]
  split
  · exact systemMove_within (by decide) (by decide)
  · trivial

theorem advanceAwaitingApproval_within {d : Option Approval}
    (h : advanceAwaitingApproval cfg t inc d = .plan plan) :
    plan.Within inc [.expired, .needsHuman] := by
  revert h
  fun_cases advanceAwaitingApproval cfg t inc d with
  | case1 | case4 =>
    rintro ⟨⟩
    exact (expireApproval_within cfg t inc).mono (by decide)
  | case2 => rintro ⟨⟩
  | case3 =>
    rintro ⟨⟩
    exact ⟨rfl, rfl, .tail _ (List.mem_singleton.2 rfl), needsHuman_plain⟩
  | case5 =>
    rintro ⟨⟩
    exact quarantine_within (by decide)

theorem honourApproval_within (sha : Str → Str) (t : Tick) (inc : Incident) (step : Step)
    (d : Approval) (request : Option Approval) :
    (honourApproval sha t inc step d request).Within inc [.awaitingApproval, .executing] := by
  fun_cases honourApproval sha t inc step d request with
  | case1 | case2 => exact ⟨rfl, by decide⟩
  | case3 => trivial
  | case4 =>
    show IncidentState.executing ∈ _
    decide

theorem admitStep_within {step : Step} (h : admitStep cfg t inc step = .plan plan) :
    plan.Within inc [.needsHuman] := by
  revert h
  fun_cases admitStep cfg t inc step with
  | case1 | case2 | case4 | case5 =>
    rintro ⟨⟩
    exact quarantine_within (by decide)
  | case7 | case8 => rintro ⟨⟩
  | _ =>
    rintro ⟨⟩
    trivial

theorem afterStep_within (cfg : RuntimeConfig) (inc : Incident) (step : Step) (outcome : Outcome) :
    (afterStep cfg inc step outcome).Within inc [.needsHuman, .evaluating, .verifying] := by
  cases outcome with
  | failed =>
    simp only [afterStep]
    split
    · exact quarantine_within (by decide)
    · exact (escalate_within cfg inc _).mono (by decide)
  | ok =>
    refine ⟨rfl, rfl, ?_⟩
    dsimp only
    split <;> decide

theorem Plan.Within.not_resolved
    (h : plan.Within inc dests) (hdests : .resolved ∉ dests) {m : Move} {cancel : Bool}
    (hm : plan = .move m cancel) : m.dest ≠ .resolved := by
  subst hm
  intro hd
  exact hdests (hd ▸ h.2.2.1)

/-- The pass follows a plan that starts no step, keeps to the table of transitions, and resolves
only what is observed or was verified without a signal. -/
inductive Pass.FollowsPlain (p p' : Pass) : Prop where
  | mk (plan : Plan) (dests : List IncidentState) (within : plan.Within p.inc dests)
      (starts : .executing ∉ dests)
      (legal : ∀ dest ∈ dests, canTransition p.inc.state dest = true ∨
        (dest = .awaitingApproval ∧ p.inc.state = .awaitingApproval))
      (quiet : ∀ m cancel, plan = .move m cancel → m.dest = .resolved → p.inc.state = .observing ∨
        (p.inc.state = .verifying ∧ p.inc.updatedAt ≤ p.inc.stateChangedAt))
      (follows : p.follow plan = some p')

variable {p p' : Pass}

theorem Pass.FollowsPlain.of_within {state : IncidentState}
    (hst : p.inc.state = state) (hp : plan.Within p.inc dests)
    (hdests : .executing ∉ dests ∧ .resolved ∉ dests ∧ ∀ dest ∈ dests,
      canTransition state dest = true ∨ (dest = .awaitingApproval ∧ state = .awaitingApproval))
    (hf : p.follow plan = some p') : p.FollowsPlain p' := by
  obtain ⟨hs, hresolved, hl⟩ := hdests
  refine ⟨plan, dests, hp, hs, hst ▸ hl, fun m cancel hm hd => ?_, hf⟩
  exact absurd hd (hp.not_resolved hresolved hm)

theorem advanceObserving_plain (hst : p.inc.state = .observing)
    (hf : p.follow (advanceObserving p.cfg t p.inc) = some p') : p.FollowsPlain p' := by
  refine ⟨_, _, advanceObserving_within p.cfg t p.inc, by decide, ?_, fun _ _ _ _ => .inl hst, hf⟩
  rw [hst]
  decide

theorem advanceVerifying_plain (hst : p.inc.state = .verifying)
    (hf : p.follow (advanceVerifying p.cfg t p.inc) = some p') : p.FollowsPlain p' := by
  refine ⟨_, _, advanceVerifying_within p.cfg t p.inc, by decide, ?_, fun m cancel hm hd => ?_, hf⟩
  · rw [hst]
    decide
  refine .inr ⟨hst, ?_⟩
  rw [advanceVerifying] at hm
  split_ifs at hm with hsignal
  · exact absurd hd ((escalate_within p.cfg p.inc _).not_resolved (by decide) hm)
  all_goals exact Int.not_lt.1 hsignal

theorem planOf_follows (h : planOf sha p t = some (some p')) :
    (∃ book, p.inc.state = .observing ∧ p' = { p with phase := .binding book }) ∨
      (p.inc.state = .evaluating ∧ p.phase = .cleared ∧
        p.follow (advanceEvaluating sha p.cfg t p.inc) = some p') ∨ p.FollowsPlain p' := by
  unfold planOf at h
  split at h
  next _ hst =>
    exact .inr (.inr (.of_within hst (advanceOpen_within p.cfg t p.inc) (by decide)
      (Option.some.inj h)))
  next _ hst =>
    split at h
    next book hbook =>
      cases h
      exact .inl ⟨book, hst, rfl⟩
    · exact .inr (.inr (advanceObserving_plain hst (Option.some.inj h)))
  next _ hst => exact .inr (.inr (advanceObserving_plain hst (Option.some.inj h)))
  next hph hst => exact .inr (.inl ⟨hst, hph, Option.some.inj h⟩)
  next _ hst =>
    split_ifs at h
    exact .inr (.inr (.of_within hst (migratePark_within sha p.cfg p.inc) (by decide)
      (Option.some.inj h)))
  next _ hst =>
    exact .inr
      (.inr (.of_within hst (systemMove_within (List.mem_singleton.2 rfl) (by decide)) (by decide)
      (Option.some.inj h)))
  next _ hst => exact .inr (.inr (advanceVerifying_plain hst (Option.some.inj h)))
  · cases h

end KubeNeuron.Controller
