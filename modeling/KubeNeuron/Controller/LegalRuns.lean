import KubeNeuron.Controller.WalkInvariant

/-!
# Attempted transitions and the state machine

`WalkWorld.attempts?` is the state change an operation is about to attempt. As long as the walk
finds a step, or no playbook, at the index of every incident it evaluates, every attempt is in the
table (`attempts_legal`).
-/

namespace KubeNeuron.Controller

open Lib KubeNeuron.Types Store Playbooks Pass

/-! ## Attempts -/

def Park.change? (k : Park) : Option (IncidentState × IncidentState) :=
  if k.snap.state = .awaitingApproval then none else some (k.snap.state, .awaitingApproval)

/-- The state change a pass is about to attempt. -/
def Pass.change? (p : Pass) : Option (IncidentState × IncidentState) :=
  match p.phase with
  | .writing m => some (m.snap.state, m.dest)
  | .parking k => k.change?
  | .admitted _ _ => some (p.inc.state, .executing)
  | _ => none

/-- The state change the walk, a step goroutine or a janitor attempts in an operation. -/
def WalkWorld.attempts? (w : WalkWorld) : WalkOp → Option (IncidentState × IncidentState)
  | .commit _ _ => w.pass.bind Pass.change?
  | .stepCommit i _ _ =>
    match w.running[i]? with
    | some ⟨_, _, _, .writing m⟩ => some (m.snap.state, m.dest)
    | _ => none
  | .closerCommit _ _ =>
    w.closing.head?.map fun inc => ((closeVanished inc).snap.state, (closeVanished inc).dest)
  | _ => none

/-! ## Legal threads -/

def Move.Legal (m : Move) : Prop := canTransition m.snap.state m.dest = true

/-- What the pass is about to attempt, now or after its next steps, is in the table. -/
def Pass.Legal (p : Pass) : Prop :=
  match p.phase with
  | .cancelling m => m.Legal
  | .writing m => m.Legal
  | .parking k => k.snap.state = .awaitingApproval ∨
      canTransition k.snap.state .awaitingApproval = true
  | .comparing _ _ => p.inc.state = .awaitingApproval
  | .starting _ _ => canTransition p.inc.state .executing = true
  | .locked _ _ => canTransition p.inc.state .executing = true
  | .admitted _ _ => canTransition p.inc.state .executing = true
  | .launching _ => p.inc.state = .executing
  | .bound => p.inc.state = .observing
  | .binding _ => p.inc.state = .observing
  | _ => True

/-- A step goroutine owns an executing incident, and what it is about to attempt is in the table. -/
def Running.Legal (r : Running) : Prop :=
  r.inc.state = .executing ∧
    match r.phase with
    | .executing => True
    | .cancelling m => m.Legal
    | .writing m => m.Legal

/-- What all threads are about to attempt is in the table. -/
structure LegalInv (w : WalkWorld) : Prop where
  pass : ∀ p, w.pass = some p → p.Legal
  running : ∀ r ∈ w.running, r.Legal
  closing : ∀ inc ∈ w.closing, inc.state.terminal = false

/-- Whenever the walk decides on an incident it evaluates, the step index is inside the playbook of
the engine it pinned, if the engine has that playbook. -/
def StepsLeft (w : WalkWorld) : WalkOp → Prop
  | .plan _ => ∀ p ∈ w.pass, p.inc.state = .evaluating →
      ∀ book ∈ p.cfg.engine.playbook p.inc.playbook, p.inc.stepIndex.toNat < book.steps.length
  | _ => True

instance decidableStepsLeft (w : WalkWorld) (op : WalkOp) : Decidable (StepsLeft w op) := by
  unfold StepsLeft
  split <;> infer_instance

theorem nextStep_ne_done {e : Engine} {name : Str} {i : Int}
    (h : ∀ book ∈ e.playbook name, i.toNat < book.steps.length) : e.nextStep name i ≠ .done := by
  rw [Engine.nextStep]
  cases hbook : e.playbook name with
  | none =>
    intro heq
    cases heq
  | some book =>
    have hlt := h book hbook
    have hlow : ¬ i ≥ book.steps.length := by omega
    simp only [hlow, List.getElem?_eq_getElem hlt]
    intro heq
    cases heq

variable {p' : Pass} {dests : List IncidentState} {sha : Str → Str} {w : WalkWorld}
  {op : WalkOp}

theorem Pass.legal_follow {p : Pass} {plan : Plan} (hp : plan.Within p.inc dests)
    (htab : ∀ dest ∈ dests, canTransition p.inc.state dest = true ∨
      (dest = .awaitingApproval ∧ p.inc.state = .awaitingApproval))
    (h : p.follow plan = some p') : p'.Legal := by
  have hv : ∀ {m wake}, Plan.Within p.inc dests (.move m wake) →
      canTransition m.snap.state m.dest = true := by
    intro m _ hm
    rw [hm.1]
    exact (htab m.dest hm.2.2.1).resolve_right fun hawait => hm.2.2.2 (hawait.1 ▸ (.head _))
  revert h
  fun_cases follow p plan with
  | case1 => rintro ⟨⟩
  | case2 | case3 =>
    rintro ⟨⟩
    exact hv hp
  | case4 k =>
    rintro ⟨⟩
    show k.snap.state = .awaitingApproval ∨ canTransition k.snap.state .awaitingApproval = true
    rw [hp.1]
    exact (htab _ hp.2).symm.imp_left And.right
  | case5 =>
    rintro ⟨⟩
    exact (htab _ hp).resolve_right fun hawait => by cases hawait.1

theorem Turn.legal {p : Pass} (ha : w.pass = some p) (hg : p.Legal) (hl : StepsLeft w op)
    (h : Turn sha w p op (some p')) : p'.Legal := by
  generalize hp' : some p' = q at h
  cases h with
  | nodeClear =>
    cases hp'
    trivial
  | planned t _ hplan =>
    subst hp'
    rcases planOf_follows hplan with
      ⟨_, hst, rfl⟩ | ⟨hst, -, hf⟩ | ⟨_, _, hin, -, htab, -, hf⟩
    · exact hst
    · refine legal_follow (advanceEvaluating_within sha p.cfg t p.inc) ?_ hf
      rw [hst]
      cases hn : p.cfg.engine.nextStep p.inc.playbook p.inc.stepIndex with
      | done => exact absurd hn (nextStep_ne_done (hl p ha hst))
      | unknown => decide
      | step =>
        show ∀ dest ∈ evaluatingDests .unknown, _
        decide
    · exact legal_follow hin htab hf
  | decided _ _ _ _ hst _ hplan =>
    refine legal_follow (p := { p with readAt := w.records.approvals.length })
      (advanceAwaitingApproval_within hplan) ?_ hp'.symm
    show ∀ dest ∈ _, canTransition p.inc.state dest = true ∨ _
    rw [hst]
    decide
  | approved _ _ _ _ _ hst =>
    cases hp'
    exact hst
  | compared t _ step d hph =>
    rw [Pass.Legal, hph] at hg
    refine legal_follow (honourApproval_within sha t p.inc step d _) ?_ hp'.symm
    rw [hg]
    decide
  | locked _ _ hph | admitted _ _ _ hph =>
    cases hp'
    rw [Pass.Legal, hph] at hg
    exact hg
  | refused _ _ _ _ hph hplan =>
    rw [Pass.Legal, hph] at hg
    refine legal_follow (admitStep_within hplan) ?_ hp'.symm
    -- what may start may also stop
    have hhuman : canTransition p.inc.state .needsHuman = true := by
      cases hst : p.inc.state <;> rw [hst] at hg <;> first | rfl | cases hg
    intro dest hd
    rw [List.mem_singleton.1 hd]
    exact .inl hhuman
  | _ => cases hp'

theorem PassWrite.legal {p : Pass} {now : Int} {fault : Bool} {op : WriterOp}
    {next : Incident → Option Pass} (h : PassWrite p now fault op next) (hg : p.Legal)
    {inc : Incident}
    (hl : w.leftBy op = some inc) (hn : next inc = some p') : p'.Legal := by
  cases h with
  | move | park => cases hn
  | bind _ hph =>
    cases hn
    rw [Pass.Legal, hph] at hg
    show inc.state = .observing
    rw [leftBy_bind hl]
    exact hg
  | execute =>
    cases hn
    show inc.state = .executing
    obtain ⟨_, -, -, -, hi⟩ := leftBy_move hl
    rw [hi]
    rfl

theorem Running.legal_after {r : Running} (hst : r.inc.state = .executing) {outcome : Outcome}
    {m : Move} {cancel : Bool} (h : afterStep r.cfg r.inc r.step outcome = .move m cancel) :
    m.Legal := by
  have hin := afterStep_within r.cfg r.inc r.step outcome
  rw [h] at hin
  rw [Move.Legal, hin.1, hst]
  have hcover : ∀ dest ∈ [IncidentState.needsHuman, .evaluating, .verifying],
      canTransition .executing dest = true := by decide
  exact hcover m.dest hin.2.2.1

/-! ## The invariant -/

theorem legalInv_start (r : Records) (cfg : RuntimeConfig) : LegalInv (.start r cfg) where
  pass := by
    intro p hp
    cases hp
  running := by
    intro r hr
    cases hr
  closing := by
    intro inc hi
    cases hi

theorem LegalInv.step {w' : WalkWorld}
    (hi : LegalInv w) (hl : StepsLeft w op) (h : WalkStep sha w op w') : LegalInv w' := by
  obtain ⟨ha, hu, hc⟩ := hi
  have hpass : ∀ q, w'.pass = some q → q.Legal := by
    intro q hq
    cases h.pass_from hq with
    | kept hp => exact ha q hp
    | picked _ _ hq =>
      subst hq
      trivial
    | turned p hp ht => exact ht.legal hp (ha p hp) hl
    | cancelled p _ hp hph hq =>
      subst hq
      have hg := ha p hp
      rwa [Pass.Legal, hph] at hg
    | wrote p _ _ _ _ _ hp hwr hleft hn => exact hwr.legal (ha p hp) hleft hn
  cases h with
  | launched p _ hp hph =>
    have hg := ha p hp
    rw [Pass.Legal, hph] at hg
    refine ⟨hpass, fun r hr => ?_, hc⟩
    obtain _ | ⟨_, hold⟩ := hr
    · exact ⟨hg, trivial⟩
    · exact hu r hold
  | stepTurned _ _ r _ cancel hr _ hplan =>
    refine ⟨hpass, fun q hq => ?_, hc⟩
    rcases List.mem_or_eq_of_mem_set hq with hold | rfl
    · exact hu q hold
    have hst := (hu r (List.mem_of_getElem? hr)).1
    refine ⟨hst, ?_⟩
    have hg := Running.legal_after hst hplan
    cases cancel with
    | true | false => exact hg
  | stepCancelled _ r _ _ _ hr hph =>
    refine ⟨hpass, fun q hq => ?_, hc⟩
    rcases List.mem_or_eq_of_mem_set hq with hold | rfl
    · exact hu q hold
    have hg := hu r (List.mem_of_getElem? hr)
    rw [Running.Legal, hph] at hg
    exact hg
  | stepWrote =>
    refine ⟨hpass, fun q hq => ?_, hc⟩
    exact hu q (List.mem_of_mem_eraseIdx hq)
  | side sop _ closing _ _ _ hcopies =>
    have hclosed : ∀ inc ∈ closing, inc.state.terminal = false :=
      fun inc hinc => (hcopies.closing inc hinc).elim (hc inc) fun hw => hw.2
    cases sop with
    | none | some => exact ⟨hpass, hu, hclosed⟩
  | restarted =>
    refine ⟨hpass, ?_, ?_⟩
    · intro r hr
      cases hr
    · intro inc hinc
      cases hinc
  | _ => exact ⟨hpass, hu, hc⟩

theorem LegalInv.attempts (hi : LegalInv w)
    {change : IncidentState × IncidentState} (h : w.attempts? op = some change) :
    canTransition change.1 change.2 = true := by
  cases op with
  | commit now fault =>
    obtain ⟨p, hp, hc⟩ := Option.bind_eq_some_iff.1 h
    have hl := hi.pass p hp
    unfold Pass.change? at hc
    split at hc
    next m hph =>
      cases hc
      rw [Pass.Legal, hph] at hl
      exact hl
    next k hph =>
      rw [Pass.Legal, hph] at hl
      obtain ⟨hst, rfl⟩ := unguarded hc
      exact hl.resolve_left hst
    next step actor hph =>
      cases hc
      rw [Pass.Legal, hph] at hl
      exact hl
    · cases hc
  | stepCommit i now fault =>
    simp only [WalkWorld.attempts?] at h
    split at h
    next inc step cfg m hr =>
      cases h
      exact (hi.running _ (List.mem_of_getElem? hr)).2
    · cases h
  | closerCommit =>
    obtain ⟨inc, hinc, rfl⟩ := Option.map_eq_some_iff.1 h
    have ho := hi.closing inc (List.mem_of_mem_head? hinc)
    show canTransition (closeVanished inc).snap.state (closeVanished inc).dest = true
    rw [closeVanished_snap, closeVanished]
    -- every state that is not terminal has an edge to `resolved`, apart from `executing`
    cases hst : inc.state <;> rw [hst] at ho <;> first | rfl | cases ho
  | _ => cases h

/-- **Every attempt is in the table.** In every run of the process, with configurations replaced at
any time, in which the walk evaluates no incident past the end of its playbook, every state change
that the walk, a step goroutine or a janitor attempts is one of the state machine. -/
theorem attempts_legal {sha : Str → Str} {r : Records} {cfg : RuntimeConfig}
    {ops : List WalkOp} {w : WalkWorld} (hrun : exec (walkNext sha) (.start r cfg) ops = some w)
    (hleft : Along (walkNext sha) StepsLeft (.start r cfg) ops) {op : WalkOp}
    {before after : IncidentState} (hattempt : w.attempts? op = some (before, after)) :
    canTransition before after = true := by
  have hinv : LegalInv w :=
    exec_invariant_along (fun _ _ _ hinv hok hstep => hinv.step hok (walkStep_of_next hstep))
      (legalInv_start r cfg) hleft hrun
  exact hinv.attempts hattempt

/-- A playbook of two steps runs to its end: the step goroutine of the last step attempts to begin
the verification. -/
theorem attempts_legal_of_last_step :
    ∃ w, exec (walkNext id) (.start .empty (sampleConfig [cordonStep, drainStep]))
        (openingOps ++ startOps 3 ++ finishOps 4 ++ startOps 5 ++ [.stepDone 0 (.ok (lit "ok"))]) =
          some w ∧
      w.attempts? (.stepCommit 0 6 false) = some (.executing, .verifying) ∧
      canTransition .executing .verifying = true := by
  exact reached (by decide +kernel) fun w hw
    hattempt =>
    ⟨hattempt, attempts_legal hw (by decide +kernel) hattempt⟩

/-- The first of two steps is done when the playbook is replaced by one with that step alone. The
next pass attempts to go from `evaluating` to `verifying`, which is not in the table; the store
stays as it was, so the pass after it does the same. -/
theorem shortened_playbook_stuck : (sampleConfig [cordonStep, drainStep]).engine.valid = true ∧
      (sampleConfig [cordonStep]).engine.valid = true ∧
      ∃ w w' : WalkWorld, exec (walkNext id) (.start .empty (sampleConfig [cordonStep, drainStep]))
          (openingOps ++ startOps 3 ++ finishOps 4 ++
            [.install (sampleConfig [cordonStep]), .list, .pick, .readNode false,
              .plan (sampleTick 5)]) = some w ∧
        w.attempts? (.commit 6 false) = some (.evaluating, .verifying) ∧
        canTransition .evaluating .verifying = false ∧
        walkNext id w (.commit 6 false) = some w' ∧
        w'.records.db.incidents = w.records.db.incidents ∧ w'.pass.isNone = true ∧
        w'.todo = [] ∧ w'.running.isEmpty = true := by
  simp only [exists_and_left]
  decide +kernel

end KubeNeuron.Controller
