import KubeNeuron.Controller.GateWorld

/-!
# The slots of the rows

The store keeps, in the row of each incident, whether it holds a slot of the gate. What a step of
the process does to these columns, and what it owes the gate for it, is said once (`SlotEffect`).

In every run in which no two writes of an incident share an instant, an incident of which a step was
started holds its slot until it halts, and the copies of the walk know it (`HoldInv`).
-/

namespace KubeNeuron.Controller

open Lib KubeNeuron.Types Store Playbooks Safety WalkWorld

variable {w w' : WalkWorld} {op : WalkOp} {m : Move} {now : Int} {fault : Bool}
  {sha : Str → Str}

/-! ## What an operation owes -/

def HandBack.slot? : HandBack → Option Target
  | .slot target => some target
  | _ => none

/-- The slots an operation has to hand back. -/
def WalkWorld.slotsOwed (w : WalkWorld) (op : WalkOp) (w' : WalkWorld) : List Target :=
  (w.owes op w').filterMap HandBack.slot?

theorem slots_afterStepGoroutine (w : WalkWorld) (op : WalkOp) :
    (w.afterStepGoroutine op).filterMap HandBack.slot? = [] := by
  unfold afterStepGoroutine
  split
  · refine List.filterMap_eq_nil_iff.2 fun h hh => ?_
    obtain ⟨_, -, rfl⟩ := List.mem_map.1 hh
    rfl
  · rfl

theorem slotsOwed_committed (h : w.writers.stamps.length < w'.writers.stamps.length) :
    w.slotsOwed op w' =
      (w.transition? op).elim [] fun m => if w.releases m then [m.snap.target] else [] := by
  rw [slotsOwed, owes, if_pos h, List.filterMap_append, slots_afterStepGoroutine]
  cases w.transition? op with
  | none => rfl
  | some m =>
    show (w.afterCommit m).filterMap HandBack.slot? = if w.releases m then _ else _
    rw [afterCommit]
    split_ifs <;> rfl

theorem slotsOwed_failed (h : w'.writers.stamps = w.writers.stamps) :
    w.slotsOwed op w' = (w.afterFailedStart op).filterMap HandBack.slot? := by
  rw [slotsOwed, owes, if_neg (by rw [h]; exact Nat.lt_irrefl _),
    List.filterMap_append, slots_afterStepGoroutine, List.nil_append]

/-- The pass was admitted and has its start still to commit. -/
def Pass.starts (p : Pass) : Bool :=
  match p.phase with
  | .admitted _ _ => true
  | _ => false

theorem Pass.starts_iff {p : Pass} :
    p.starts = true ↔ ∃ step actor, p.phase = .admitted step actor := by
  rw [Pass.starts]
  split
  · next step actor hph => exact ⟨fun _ => ⟨step, actor, hph⟩, fun _ => rfl⟩
  next hph =>
    refine ⟨fun h => ?_, fun ⟨step, actor, h⟩ => absurd h (hph step actor)⟩
    cases h

/-- The operation is the commit of a start. -/
def WalkWorld.starts (w : WalkWorld) : WalkOp → Bool
  | .commit _ _ => w.pass.any Pass.starts
  | _ => false

theorem WalkWorld.starts_iff :
    w.starts op = true ↔ ∃ p step actor now fault, op = .commit now fault ∧ w.pass = some p ∧
      p.phase = .admitted step actor := by
  unfold starts
  split
  next now fault =>
    rw [Option.any_eq_true]
    constructor
    · rintro ⟨p, hp, hs⟩
      obtain ⟨step, actor, hph⟩ := Pass.starts_iff.1 hs
      exact ⟨p, step, actor, now, fault, rfl, hp, hph⟩
    · rintro ⟨p, step, actor, -, -, -, hp, hph⟩
      exact ⟨p, hp, Pass.starts_iff.2 ⟨step, actor, hph⟩⟩
  rename_i ho
  constructor
  · intro h
    cases h
  · rintro ⟨-, -, -, now, fault, hop, -⟩
    exact absurd hop (ho now fault)

theorem WalkWorld.not_starts (h : w.transition? op = none) : w.starts op = false := by
  refine Bool.eq_false_iff.2 fun hs => ?_
  obtain ⟨_, _, _, _, _, rfl, hp, hph⟩ := starts_iff.1 hs
  rw [transition?, hp, Option.bind_some, hph] at h
  cases h

theorem slots_afterFailedStart (w : WalkWorld) (op : WalkOp) :
    (w.starts op = false ∧ (w.afterFailedStart op).filterMap HandBack.slot? = []) ∨
      ∃ p step actor now fault, op = .commit now fault ∧ w.pass = some p ∧
        p.phase = .admitted step actor ∧
        (w.afterFailedStart op).filterMap HandBack.slot? =
          if p.inc.remediationSlotHeld then [] else [p.inc.target] := by
  unfold afterFailedStart
  split
  next now fault =>
    split
    next inc cfg gen readAt step actor hp =>
      refine .inr ⟨⟨inc, cfg, gen, readAt, .admitted step actor⟩, step, actor, now, fault, rfl,
        hp, rfl, ?_⟩
      cases inc.remediationSlotHeld with
      | true | false => rfl
    rename_i ho
    refine .inl ⟨Bool.eq_false_iff.2 fun hs => ?_, rfl⟩
    obtain ⟨p, step, actor, -, -, -, hp, hph⟩ := starts_iff.1 hs
    obtain ⟨inc, cfg, gen, readAt, phase⟩ := p
    obtain rfl : phase = .admitted step actor := hph
    exact ho inc cfg gen readAt step actor hp
  rename_i ho
  refine .inl ⟨Bool.eq_false_iff.2 fun hs => ?_, rfl⟩
  obtain ⟨-, -, -, now, fault, hop, -⟩ := starts_iff.1 hs
  exact ho now fault hop

/-! ## The writers of slots -/

section

variable (h : Author w op (.move m now fault)) (hinv : ThreadInv w)
include h hinv

theorem Author.transition : w.transition? op = some m := by
  cases h.mover hinv with
  | walk _ hp hph => rw [transition?, hp, Option.bind_some, hph]
  | start _ _ _ hp hph hm => rw [transition?, hp, Option.bind_some, hph, hm]
  | running _ _ hr hph => rw [transition?, hr, Option.bind_some, hph]
  | close _ _ hc hm | resolve _ _ _ _ hc hm =>
    rw [transition?, hc, hm]
    rfl

theorem Author.move_slot :
    (w.starts op = false ∧ m.progress.slotHeld = m.snap.remediationSlotHeld) ∨
      ∃ p step actor, op = .commit now fault ∧ w.pass = some p ∧ p.phase = .admitted step actor ∧
        m = executingMove p.inc step actor := by
  cases h.mover hinv with
  | walk _ hp hph hf =>
    left
    rw [hf.2.1, hf.1, starts, hp, Option.any_some, Pass.starts, hph]
    exact ⟨rfl, rfl⟩
  | start p step actor hp hph hm =>
    exact .inr ⟨p, step, actor, rfl, hp, hph, hm⟩
  | running _ _ _ _ hf =>
    left
    rw [hf.2.1, hf.1]
    exact ⟨rfl, rfl⟩
  | close _ _ _ hm =>
    left
    rw [hm, closeVanished]
    split_ifs
    · exact ⟨rfl, rfl⟩
    · exact ⟨rfl, rfl⟩
  | resolve _ _ _ _ _ hm =>
    rw [hm]
    exact .inl ⟨rfl, rfl⟩

theorem Author.move_active (ha : ∀ c ∈ w.worked, active c = true)
    (hd : m.dest.halted = false) : active m.snap = true := by
  rcases h.move_copy hinv with hc | hres | ⟨-, inc, rfl⟩
  · exact ha _ hc
  · rw [hres] at hd
    cases hd
  · rw [closeVanished] at hd ⊢
    split_ifs at hd ⊢ with hexec
    · show (!inc.state.halted) = true
      rw [hexec]
      rfl
    · cases hd

end

theorem Author.no_transition {wop : WriterOp} (h : Author w op wop)
    (hwrites : wop.snapshot?.isSome = true) (ho : ∀ m now fault, wop ≠ .move m now fault) :
    w.transition? op = none := by
  cases h with
  | list | cancel => cases hwrites
  | pass _ now fault _ hp hwr =>
    rw [transition?, hp, Option.bind_some]
    cases hwr with
    | move m => exact absurd rfl (ho m now fault)
    | park k hph | bind _ hph => rw [hph]
    | execute => exact absurd rfl (ho _ now fault)
  | running _ _ m now fault => exact absurd rfl (ho m now fault)
  | side hs =>
    cases hs with
    | rewind => rfl
    | close _ _ now fault | resolve _ _ _ _ now fault => exact absurd rfl (ho _ now fault)
    | _ => cases hwrites

/-! ## The slots of the rows -/

/-- What holds of the slots in every run in which no two writes of an incident share an instant. An
incident of which a step was started holds its slot until it halts, and the walk knows. -/
structure HoldInv (w : WalkWorld) : Prop where
  threads : ThreadInv w
  exclusive : Exclusive w
  worked : ∀ c ∈ w.worked, active c = true
  cleared : ∀ id row, getIncident id w.records.db = some row → active row = false →
    row.remediationSlotHeld = false
  started : ∀ id, .entered id .executing ∈ w.log →
    ∃ row, getIncident id w.records.db = some row ∧ holdsSlot row = active row
  walked : ∀ c ∈ w.walked, .entered c.id .executing ∈ w.log → c.remediationSlotHeld = true
  launching : ∀ p, w.pass = some p → ∀ step, p.phase = .launching step →
    .entered p.inc.id .executing ∈ w.log
  running : ∀ r ∈ w.running, .entered r.inc.id .executing ∈ w.log

/-- What a step does to the slots of the rows, and the slots it then owes. -/
inductive SlotEffect (w w' : WalkWorld) (op : WalkOp) : Prop where
  | quiet (other : w.starts op = false)
      (rows : w'.records.db.incidents = w.records.db.incidents) (owed : w.slotsOwed op w' = [])
  /-- A start did not commit. -/
  | failed (p : Pass) (step : Step) (actor : Str) (now : Int) (fault : Bool)
      (commits : op = .commit now fault) (pass : w.pass = some p)
      (phase : p.phase = .admitted step actor)
      (rows : w'.records.db.incidents = w.records.db.incidents)
      (owed : w.slotsOwed op w' = if p.inc.remediationSlotHeld then [] else [p.inc.target])
  /-- A row was written that keeps its slot. -/
  | kept (row row' : Incident) (other : w.starts op = false)
      (replaced : Replaced w.records.db w'.records.db row row')
      (slot : row'.remediationSlotHeld = row.remediationSlotHeld)
      (activity : active row' = active row)
      (device : row'.target.SameDevice row.target) (owed : w.slotsOwed op w' = [])
  /-- An incident halted. -/
  | freed (m : Move) (row row' : Incident) (other : w.starts op = false)
      (writes : w.transition? op = some m) (id : m.snap.id = row.id)
      (replaced : Replaced w.records.db w'.records.db row row') (halted : active row' = false)
      (slot : row'.remediationSlotHeld = false) (device : m.snap.target.SameDevice row.target)
      (owed : w.slotsOwed op w' = if row.remediationSlotHeld then [m.snap.target] else [])
  /-- A start committed. -/
  | taken (p : Pass) (step : Step) (actor : Str) (now : Int) (fault : Bool)
      (row row' : Incident) (commits : op = .commit now fault) (pass : w.pass = some p)
      (phase : p.phase = .admitted step actor)
      (replaced : Replaced w.records.db w'.records.db row row') (held : holdsSlot row' = true)
      (before : active row = true) (slot : row.remediationSlotHeld = p.inc.remediationSlotHeld)
      (device : p.inc.target.SameDevice row.target) (target : row'.target = row.target)
      (owed : w.slotsOwed op w' = [])
  | opened (row : Incident) (other : w.starts op = false)
      (added : Added w.records.db w'.records.db row) (slot : row.remediationSlotHeld = false)
      (owed : w.slotsOwed op w' = [])

theorem slotEffect_of_same (hr : w'.records.db.incidents = w.records.db.incidents)
    (hstamps : w'.writers.stamps = w.writers.stamps) : SlotEffect w w' op := by
  have hw : w.slotsOwed op w' = _ := slotsOwed_failed hstamps
  rcases slots_afterFailedStart w op with ⟨ho, hn⟩ | ⟨p, step, actor, now, fault, hop, hp, hph, hs⟩
  · exact .quiet ho hr (hw.trans hn)
  · exact .failed p step actor now fault hop hp hph hr (hw.trans hs)

theorem SlotEffect.cleared (h : SlotEffect w w' op)
    (hb : ∀ id row, getIncident id w.records.db = some row → active row = false →
      row.remediationSlotHeld = false) {id : Str} {row' : Incident}
    (hr' : getIncident id w'.records.db = some row') (hi : active row' = false) :
    row'.remediationSlotHeld = false := by
  cases h with
  | quiet _ rows | failed _ _ _ _ _ _ _ _ rows =>
    rw [getIncident, rows] at hr'
    exact hb id row' hr' hi
  | kept row _ _ replaced slot activity =>
    rcases replaced.cases hr' with ⟨rfl, rfl⟩ | ⟨-, hold⟩
    · rw [slot]
      exact hb row.id row replaced.found (activity.symm.trans hi)
    · exact hb id row' hold hi
  | freed _ _ _ _ _ _ replaced _ slot =>
    rcases replaced.cases hr' with ⟨-, rfl⟩ | ⟨-, hold⟩
    · exact slot
    · exact hb id row' hold hi
  | taken _ _ _ _ _ _ _ _ _ _ replaced held =>
    rcases replaced.cases hr' with ⟨-, rfl⟩ | ⟨-, hold⟩
    · rw [holdsSlot, hi] at held
      cases held
    · exact hb id row' hold hi
  | opened _ _ added slot =>
    rcases added.cases hr' with ⟨-, rfl⟩ | ⟨-, hold⟩
    · exact slot
    · exact hb id row' hold hi

theorem SlotEffect.started (h : SlotEffect w w' op)
    {id : Str} {row : Incident} (hw : getIncident id w.records.db = some row)
    (hh : holdsSlot row = active row) :
    ∃ row', getIncident id w'.records.db = some row' ∧ holdsSlot row' = active row' := by
  cases h with
  | quiet _ rows | failed _ _ _ _ _ _ _ _ rows =>
    refine ⟨row, ?_, hh⟩
    rw [getIncident, rows]
    exact hw
  | kept _ _ _ replaced slot activity =>
    refine replaced.forward hw hh fun heq => ?_
    subst heq
    rw [holdsSlot, slot, activity]
    exact hh
  | freed _ _ _ _ _ _ replaced halted =>
    refine replaced.forward hw hh fun _ => ?_
    rw [holdsSlot, halted]
    rfl
  | taken _ _ _ _ _ _ _ _ _ _ replaced held =>
    refine replaced.forward hw hh fun _ => held.trans ?_
    rw [holdsSlot, Bool.and_eq_true] at held
    exact held.1.symm
  | opened _ _ added => exact ⟨row, added.forward hw, hh⟩

theorem WriterInv.owned_of_fenced {w : WriterWorld} (hinv : WriterInv w) (hnd : w.stamps.Nodup)
    {snap row : Incident} (hs : snap ∈ w.held)
    (hr : getIncident snap.id w.records.db = some row) (hf : fenced snap row = true) :
    walkOwned snap = walkOwned row := by
  simp only [fenced, Bool.and_eq_true, decide_eq_true_eq] at hf
  exact hinv.fence hnd snap hs row hr hf.2.symm

theorem HoldInv.slotEffect_move (hh : HoldInv w) (hnd : w.writers.stamps.Nodup)
    (ha : Author w op (.move m now false)) {row : Incident}
    (replaced : Replaced w.records.db w'.records.db row (writeIncident (m.copy now row) row))
    (legal : canTransition m.snap.state m.dest = true) (fence : fenced m.snap row = true)
    (hid : m.snap.id = row.id) (hdev : m.snap.target.SameDevice row.target)
    (hw : w.slotsOwed op w' =
      (w.transition? op).elim [] fun m => if w.releases m then [m.snap.target] else []) :
    SlotEffect w w' op := by
  have hf := replaced.found
  rw [← hid] at hf
  have hheld := ha.snapshot hh.threads m.snap rfl
  have howned := hh.threads.writers.owned_of_fenced hnd hheld hf fence
  have hs : m.snap.remediationSlotHeld = row.remediationSlotHeld :=
    congrArg WalkOwned.slotHeld howned
  have hv : active row = active m.snap := by
    rw [active, active, state_of_fenced fence]
  rw [ha.transition hh.threads, Option.elim_some] at hw
  cases hd : m.dest.halted with
  | true =>
    rcases ha.move_slot hh.threads with ⟨ho, hk⟩ | ⟨_, _, _, -, -, -, rfl⟩
    · refine .freed m row _ ho (ha.transition hh.threads) hid replaced ?_ ?_ hdev (hw.trans ?_)
      · show (!m.dest.halted) = false
        rw [hd]
        rfl
      · show (!m.dest.halted && m.progress.slotHeld) = false
        rw [hd]
        rfl
      · rw [releases, hd, hk, hf, hs, Option.any_some, Bool.true_and, Bool.and_self]
    · cases hd
  | false =>
    have hw : w.slotsOwed op w' = [] := by
      rw [hw, releases, hd]
      rfl
    rcases ha.move_slot hh.threads with ⟨ho, hk⟩ | ⟨p, step, actor, hop, hp, hph, rfl⟩
    · refine .kept row _ ho replaced ?_ ?_ (.refl _) hw
      · show (!m.dest.halted && m.progress.slotHeld) = row.remediationSlotHeld
        rw [hd, hk, hs]
        rfl
      rw [hv, ha.move_active hh.threads hh.worked hd]
      show (!m.dest.halted) = true
      rw [hd]
      rfl
    · refine .taken p step actor now false row _ hop hp hph replaced rfl ?_ hs.symm hdev
        rfl hw
      rw [hv]
      exact hh.worked p.inc (mem_worked.2 (.inl ⟨p, hp, rfl⟩))

/-- **What a step does to the slots.** -/
theorem HoldInv.slotEffect (hh : HoldInv w) (hnd : w.writers.stamps.Nodup)
    (h : WalkStep sha w op w') :
    SlotEffect w w' op := by
  rcases h.writers with ⟨he, -⟩ | ⟨_, ha, hp, -⟩
  · refine slotEffect_of_same ?_ (congrArg WriterWorld.stamps he)
    rw [records, he]
    rfl
  have heff := ha.effect hh.threads
  have hd := ha.snapshot hh.threads
  rw [← hp] at heff
  cases heff with
  | quiet rows _ _ stamps => exact slotEffect_of_same rows stamps
  | wrote row _ _ replaced rewrites _ id origin _ _ _ stamps =>
    have hc : w.writers.stamps.length < w'.writers.stamps.length := by
      rw [stamps]
      exact Nat.lt_succ_self _
    have ho : w.slotsOwed op w' = _ := slotsOwed_committed hc
    cases rewrites with
    | move _ _ _ legal fence =>
      exact hh.slotEffect_move hnd ha replaced legal fence id origin.device ho
    | park k _ row legal fence =>
      have hn := ha.no_transition rfl (by intro m now' fault heq; cases heq)
      rw [hn] at ho
      have hf := replaced.found
      rw [← id] at hf
      have howned := hh.threads.writers.owned_of_fenced hnd (hd k.snap rfl) hf fence
      refine .kept row _ (not_starts hn) replaced (congrArg WalkOwned.slotHeld howned) ?_
        (.refl _) ho
      -- a parked incident was active
      have hst := state_of_fenced fence
      show (!IncidentState.awaitingApproval.halted) = (!row.state.halted)
      rw [hst]
      rcases legal with hw | hl
      · rw [hw]
      · rw [active_of_canTransition_awaiting hl]
        rfl
    | bind _ _ _ row current | rewind _ _ _ row current =>
      have hn := ha.no_transition rfl (by intro m now' fault heq; cases heq)
      rw [hn] at ho
      refine .kept row _ (not_starts hn) replaced
        (congrArg Incident.remediationSlotHeld current :) ?_ (.refl _) ho
      exact (congrArg active current :)
  | revised row row' replaced revises _ origin _ owned _ _ _ _ stamps =>
    have ho : w.starts op = false ∧ w.slotsOwed op w' = [] := by
      rw [slotsOwed_failed stamps]
      generalize row'.updatedAt = updatedAt at revises
      cases revises with
      | signal =>
        rw [ha.of_ingest hh.threads]
        exact ⟨rfl, rfl⟩
      | acknowledge =>
        rw [ha.of_acknowledge hh.threads]
        exact ⟨rfl, rfl⟩
    have hst : row'.state = row.state := congrArg WalkOwned.state owned
    refine .kept row row' ho.1 replaced (congrArg WalkOwned.slotHeld owned) ?_ origin.device ho.2
    rw [active, active, hst]
  | opened row signal added _ owned _ stamps =>
    obtain ⟨_, _, rfl, -⟩ := signal
    obtain rfl := ha.of_ingest hh.threads
    refine .opened row rfl added (congrArg WalkOwned.slotHeld owned) ?_
    rw [slotsOwed_committed (by rw [stamps]; exact Nat.lt_succ_self _)]
    rfl

/-! ## Which steps were started -/

theorem WalkStep.log_grows
    (h : WalkStep sha w op w') {mark : Mark} (hm : mark ∈ w.log) : mark ∈ w'.log := by
  rcases h.writers with ⟨-, hl⟩ | ⟨_, -, -, hl⟩
  · rw [hl]
    exact hm
  · rw [hl]
    exact List.mem_append_right _ hm

theorem WalkStep.start_marked (h : WalkStep sha w op w') (hinv : ThreadInv w) {id : Str}
    (hm : .entered id .executing ∈ w'.log) :
    .entered id .executing ∈ w.log ∨
      ∃ p step actor now fault row', op = .commit now fault ∧ w.pass = some p ∧
        p.phase = .admitted step actor ∧ p.inc.id = id ∧
        getIncident id w'.records.db = some row' ∧ holdsSlot row' = true := by
  rcases h.writers with ⟨-, hl⟩ | ⟨wop, ha, happ, hl⟩
  · rw [hl] at hm
    exact .inl hm
  rw [hl] at hm
  rcases List.mem_append.1 hm with hn | hold
  · right
    unfold marks at hn
    split at hn
    next m now fault =>
      split at hn
      next hc =>
        obtain ⟨rfl, hd⟩ := Mark.entered.inj (List.mem_singleton.1 hn)
        have hf := ha.effect hinv
        obtain ⟨p, step, actor, hop, hp, hph, rfl⟩ := ha.executing hinv hd.symm
        rcases hf.of_move with ⟨-, he⟩ | ⟨row, hr, -, -, hid, -⟩
        · rw [he] at hc
          exact absurd hc (Nat.lt_irrefl _)
        refine ⟨p, step, actor, now, fault,
          writeIncident ((executingMove p.inc step actor).copy now row) row, hop, hp, hph,
          rfl, ?_, rfl⟩
        rw [records, happ, hid]
        exact hr.written
      · cases hn
    · split at hn
      · cases (Mark.entered.inj (List.mem_singleton.1 hn)).2
      · cases hn
    · obtain ⟨_, -, heq⟩ := List.mem_map.1 hn
      cases heq
    · cases hn
  · exact .inl hold

theorem WalkStep.launching (h : WalkStep sha w op w') {q : Pass} (hq : w'.pass = some q)
    {step : Step}
    (hph : q.phase = .launching step) :
    w.pass = some q ∨ .entered q.inc.id .executing ∈ w'.log := by
  cases h with
  | picked | cancelled =>
    cases hq
    cases hph
  | turned _ p' _ ht =>
    obtain rfl : p' = some q := hq
    exact absurd hph (ht.kept.launching step)
  | wrote _ _ _ _ _ _ hwr =>
    obtain ⟨_, hl, hn⟩ := Option.bind_eq_some_iff.1 hq
    cases hwr with
    | move | park => cases hn
    | bind =>
      cases hn
      cases hph
    | execute =>
      right
      cases hn
      obtain ⟨_, -, -, -, rfl⟩ := leftBy_move hl
      -- the write left a copy, so it committed
      rw [leftBy] at hl
      split_ifs at hl with hc
      refine List.mem_append_left _ ?_
      rw [marks, if_pos hc]
      exact List.mem_singleton.2 rfl
  | launched | restarted => cases hq
  | side sop =>
    cases sop with
    | none | some => exact .inl hq
  | _ => exact .inl hq

theorem WalkStep.started_copy (h : WalkStep sha w (.commit now fault) w') (he : Exclusive w)
    (hr : ThreadInv w') {p : Pass} (hp : w.pass = some p) {step : Step} {actor : Str}
    (hph : p.phase = .admitted step actor) {c' : Incident} (hc' : c' ∈ w'.walked)
    (hid : p.inc.id = c'.id) : c'.remediationSlotHeld = true := by
  obtain ⟨_, _, _, hp0, hwr, rfl⟩ := h.of_commit
  cases hp0.symm.trans hp
  rcases mem_walked.1 hc' with ⟨q, hq, rfl⟩ | ht
  · obtain ⟨_, -, hn⟩ := Option.bind_eq_some_iff.1 hq
    have ha := (hr.pass q hq).2
    cases hwr with
    | move m hph' | park k hph' | bind _ hph' => cases hph.symm.trans hph'
    | execute =>
      cases hn
      exact ha
  · have hd := he.distinct
    rw [walked, hp] at hd
    exact absurd (List.mem_map.2 ⟨c', ht, hid.symm⟩) (List.nodup_cons.1 hd).1

theorem HoldInv.walked_step (hh : HoldInv w) (ht : ThreadInv w') (hhanded : Handed w w' op)
    (h : WalkStep sha w op w') {c' : Incident} (hc' : c' ∈ w'.walked)
    (hm : .entered c'.id .executing ∈ w'.log) : c'.remediationSlotHeld = true := by
  rcases h.start_marked hh.threads hm with hold | ⟨_, _, _, _, _, _, rfl, hp, hph, hid, -⟩
  · rcases hhanded.walked c' hc' with ⟨-, hr, ha⟩ | ⟨c, hc, hn⟩
    · -- the walk has just listed the row, which holds its slot
      obtain ⟨_, hf, hs⟩ := hh.started c'.id hold
      have hself := getIncident_of_mem hh.threads.writers.ids hr
      cases hf.symm.trans hself
      rw [holdsSlot, ha, Bool.true_and] at hs
      exact hs
    apply hn.slot
    apply hh.walked c hc
    rw [hn.id]
    exact hold
  · exact h.started_copy hh.exclusive ht hp hph hc' hid

theorem holdInv_start (cfg : RuntimeConfig) : HoldInv (.start .empty cfg) := by
  have hi : (Records.empty.db.incidents.map (·.id)).Nodup := List.nodup_nil
  refine ⟨threadInv_start hi cfg, exclusive_start _ _, ?_, ?_, ?_, ?_, ?_, ?_⟩
  · intro c hc
    cases hc
  · intro id row hw
    cases hw
  · intro id hm
    cases hm
  · intro c hc
    cases hc
  · intro p hp
    cases hp
  · intro r hr
    cases hr

/-- **One step keeps track of the slots.** -/
theorem HoldInv.step (hh : HoldInv w) (hnd : w.writers.stamps.Nodup) (h : WalkStep sha w op w') :
    HoldInv w' := by
  have ht := hh.threads.step h
  have hhanded := hh.exclusive.handed hh.threads h
  have hslots := hh.slotEffect hnd h
  refine ⟨ht, hhanded.exclusive, fun c' hc' => ?_, fun id row' hw' hi => ?_,
    fun id hm => ?_, fun c' hc' hm => ?_, fun q hq step hph => ?_, fun r' hr' => ?_⟩
  · rcases hhanded.worked c' hc' with ⟨-, -, ha⟩ | ⟨c, hc, hcont⟩
    · exact ha
    · exact hcont.active (hh.worked c hc)
  · exact hslots.cleared hh.cleared hw' hi
  · rcases h.start_marked hh.threads hm with hold | ⟨_, _, _, _, _, row', -, -, -, -, hw', hholds⟩
    · obtain ⟨_, hw, hs⟩ := hh.started id hold
      exact hslots.started hw hs
    · refine ⟨row', hw', hholds.trans ?_⟩
      rw [holdsSlot, Bool.and_eq_true] at hholds
      exact hholds.1.symm
  · exact hh.walked_step ht hhanded h hc' hm
  · rcases h.launching hq hph with hold | hn
    · exact h.log_grows (hh.launching q hold step hph)
    · exact hn
  · rcases hhanded.running r' hr' with ⟨r, hr, hinc⟩ | ⟨p, step, hp, hph, hinc⟩
    · rw [← hinc]
      exact h.log_grows (hh.running r hr)
    · rw [← hinc]
      exact h.log_grows (hh.launching p hp step hph)

end KubeNeuron.Controller
