import KubeNeuron.Controller.WalkInvariant

/-!
# Quiet windows

An incident resolves by itself when no signal joined it since the verification began, or in
`observing` since its last update. The walk tests this on the copy it listed, and the fence of the
transition compares the state and its instant, which a signal leaves alone
(`signal_lost_to_resolution`).
-/

namespace KubeNeuron.Controller

open Lib KubeNeuron.Types Store Playbooks WalkWorld

/-! ## Histories -/

/-- No signal joined the incident since it last began to be verified. The newest mark stands
first. -/
def QuietSince (id : Str) (log : List Mark) : Prop :=
  ∀ mark ∈ log.takeWhile (· ≠ .entered id .verifying), mark ≠ .signal id

instance decidableQuietSince (id : Str) (log : List Mark) : Decidable (QuietSince id log) :=
  inferInstanceAs (Decidable (∀ mark ∈ log.takeWhile (· ≠ .entered id .verifying),
    mark ≠ .signal id))

theorem QuietSince.append {id : Str} {log new : List Mark} (h : QuietSince id log)
    (hn : ∀ mark ∈ new, mark ≠ .signal id) : QuietSince id (new ++ log) := by
  induction new with
  | nil => exact h
  | cons _ _ ih =>
    have ht := ih fun mark hm => hn mark (.tail _ hm)
    intro mark hm
    rw [List.cons_append, List.takeWhile_cons] at hm
    split_ifs at hm
    · rcases List.mem_cons.1 hm with rfl | hm
      · exact hn mark (.head _)
      · exact ht mark hm
    · cases hm

/-- The marks since the walk last listed the incidents. -/
def WalkWorld.recent (w : WalkWorld) : List Mark := w.log.take (w.log.length - w.listedAt)

/-- The incident resolves by itself if it stays quiet. -/
def awaitsQuiet (inc : Incident) : Bool := inc.state = .verifying || inc.state = .observing

/-! ## The condition -/

/-- A signal joins no incident of which the walk holds a copy that awaits quiet, and the clock of a
signal or acknowledgement of an incident in verification is later than the beginning of the
verification. -/
def SignalsInOrder (w : WalkWorld) : WalkOp → Prop
  | .ingest env sig _ => ∀ inc ∈ getOpenIncident env.lower sig.target sig.cls w.records.db,
      (inc.state = .verifying → inc.stateChangedAt < env.updatedAt) ∧
        ∀ c ∈ w.walked, awaitsQuiet c = true → c.id ≠ inc.id
  | .acknowledge a now _ => ∀ row ∈ getIncident a.id w.records.db,
      row.state = .verifying → row.stateChangedAt < now
  | _ => True

instance decidableSignalsInOrder (w : WalkWorld) (op : WalkOp) :
    Decidable (SignalsInOrder w op) := by
  unfold SignalsInOrder
  split <;> infer_instance

/-! ## The marks of a store operation -/

theorem joined_of_mark {w w' : WriterWorld} {op : WriterOp} {id : Str}
    (h : Mark.signal id ∈ marks w w' op) :
    id ∈ w'.joined.take (w'.joined.length - w.joined.length) := by
  cases op with
  | ingest =>
    obtain ⟨_, hj, heq⟩ := List.mem_map.1 h
    cases heq
    exact hj
  | move | park =>
    rw [marks] at h
    split_ifs at h <;> simp at h
  | _ => cases h

theorem no_signal_of_joined {w w' : WriterWorld} {op : WriterOp} (h : w'.joined = w.joined)
    (id : Str) : ∀ mark ∈ marks w w' op, mark ≠ .signal id := by
  rintro mark hm rfl
  have hj := joined_of_mark hm
  simp [h] at hj

theorem no_signal_of_joined_cons {w w' : WriterWorld} {op : WriterOp} {other : Str}
    (h : w'.joined = other :: w.joined) {id : Str} (hne : id ≠ other) :
    ∀ mark ∈ marks w w' op, mark ≠ .signal id := by
  rintro mark hm rfl
  have hj := joined_of_mark hm
  simp [h, hne] at hj

variable {w : WalkWorld} {op : WalkOp} {sha : Str → Str}

theorem Author.no_signal {wop : WriterOp} (h : Author w op wop)
    (hi : ThreadInv w) (hord : SignalsInOrder w op) {c : Incident} (hc : c ∈ w.walked)
    (hqt : awaitsQuiet c = true) :
    ∀ mark ∈ marks w.writers (w.writers.apply wop) wop, mark ≠ .signal c.id := by
  have he := h.effect hi
  cases he with
  | quiet _ _ _ _ joined | wrote _ _ _ _ _ _ _ _ _ _ _ _ joined =>
    exact no_signal_of_joined joined c.id
  | revised row row' _ revises _ _ _ _ _ _ _ _ _ seen =>
    rcases seen with ⟨-, joined⟩ | ⟨-, joined⟩
    · exact no_signal_of_joined joined c.id
    refine no_signal_of_joined_cons joined ?_
    generalize row'.updatedAt = updatedAt at revises
    cases revises with
    | signal _ _ row ho =>
      obtain rfl := h.of_ingest hi
      exact (hord row ho).2 c hc hqt
    | acknowledge =>
      -- an acknowledgement counts no signal
      simp only [WriterWorld.apply] at joined
      split at joined <;> simp at joined
  | opened _ _ added _ _ _ _ _ joined =>
    refine no_signal_of_joined_cons joined ?_
    -- the walk holds copies of incidents that exist
    obtain ⟨_, hf, -⟩ :=
      hi.writers.trails c (hi.worked (List.mem_append_left _ hc))
    intro heq
    rw [heq, added.missing] at hf
    cases hf

/-! ## Decisions -/

/-- What the pass is about to resolve was quiet when it was listed. -/
def Pass.Quiet (p : Pass) : Prop :=
  ∀ m, p.phase = .writing m ∨ p.phase = .cancelling m → m.dest = .resolved →
    awaitsQuiet p.inc = true ∧
      (p.inc.state = .verifying → p.inc.updatedAt ≤ p.inc.stateChangedAt)

theorem Pass.quiet_follow {p p' : Pass} {plan : Plan}
    (hp : ∀ m cancel, plan = .move m cancel → m.dest = .resolved → awaitsQuiet p.inc = true ∧
        (p.inc.state = .verifying → p.inc.updatedAt ≤ p.inc.stateChangedAt))
    (h : p.follow plan = some p') : p'.Quiet := by
  intro m hph hd
  revert h
  fun_cases Pass.follow p plan with
  | case1 => rintro ⟨⟩
  | case2 | case3 =>
    rintro ⟨⟩
    rcases hph with hph | hph <;> cases hph
    exact hp m _ rfl hd
  | case4 | case5 =>
    rintro ⟨⟩
    rcases hph with hph | hph <;> cases hph

theorem Turn.quiet {p p' : Pass} (h : Turn sha w p op (some p')) : p'.Quiet := by
  have hn : ∀ {q : Pass} {plan : Plan} {dests : List IncidentState}, plan.Within q.inc dests →
      .resolved ∉ dests → q.follow plan = some p' → p'.Quiet := by
    intro q plan dests hl hdests hf
    refine Pass.quiet_follow (fun m cancel hv hd => ?_) hf
    exact absurd hd (hl.not_resolved hdests hv)
  have hloc : ∀ {phase : Phase}, p'.phase = phase → (∀ m, phase ≠ .writing m) →
      (∀ m, phase ≠ .cancelling m) → p'.Quiet := by
    intro phase hph hwriting hcancelling m hm
    rcases hm with hm | hm
    · exact absurd (hph.symm.trans hm) (hwriting m)
    · exact absurd (hph.symm.trans hm) (hcancelling m)
  generalize hp' : some p' = q at h
  cases h with
  | nodePaused | unread | superseded => cases hp'
  | planned t _ hl =>
    subst hp'
    rcases planOf_follows hl with ⟨_, -, rfl⟩ | ⟨-, -, hf⟩ | ⟨_, _, -, -, -, hqt, hf⟩
    · exact hloc rfl (fun _ => nofun) (fun _ => nofun)
    · refine hn (advanceEvaluating_within sha p.cfg t p.inc) ?_ hf
      cases p.cfg.engine.nextStep p.inc.playbook p.inc.stepIndex with
      | done | unknown => decide
      | step =>
        show .resolved ∉ evaluatingDests .unknown
        decide
    refine Pass.quiet_follow (fun m cancel hv hd => ?_) hf
    rcases hqt m cancel hv hd with hst | ⟨hst, hsignal⟩
    · exact ⟨by simp [awaitsQuiet, hst], fun hverif => by cases hst.symm.trans hverif⟩
    · exact ⟨by simp [awaitsQuiet, hst], fun _ => hsignal⟩
  | decided _ _ _ _ _ _ hl =>
    exact hn (q := { p with readAt := w.records.approvals.length })
      (advanceAwaitingApproval_within hl) (by decide) hp'.symm
  | compared t _ step d =>
    exact hn (honourApproval_within sha t p.inc step d _) (by decide) hp'.symm
  | refused _ _ _ _ _ hl =>
    exact hn (admitStep_within hl) (by decide) hp'.symm
  | _ =>
    cases hp'
    exact hloc rfl (fun _ => nofun) (fun _ => nofun)

/-! ## The invariant -/

/-- A verification without a signal shows in the row and in the copies of the walk, no signal came
since the walk listed, and the pass resolves only what was quiet. -/
structure QuietInv (w : WalkWorld) : Prop where
  listed : w.listedAt ≤ w.log.length
  rows : ∀ id row, getIncident id w.records.db = some row → row.state = .verifying →
    row.updatedAt ≤ row.stateChangedAt → QuietSince id w.log
  copies : ∀ c ∈ w.walked, c.state = .verifying → c.updatedAt ≤ c.stateChangedAt →
    QuietSince c.id w.log
  recent : ∀ c ∈ w.walked, awaitsQuiet c = true → ∀ mark ∈ w.recent, mark ≠ .signal c.id
  pass : ∀ p, w.pass = some p → p.Quiet

theorem quietInv_start (r : Records) (cfg : RuntimeConfig) : QuietInv (.start r cfg) where
  listed := Nat.le_refl _
  rows := by
    intro id row _ _ _ mark hm
    cases hm
  copies := by
    intro c hc
    cases hc
  recent := by
    intro c hc
    cases hc
  pass := by
    intro p hp
    cases hp

theorem QuietInv.rows_apply (hqt : QuietInv w) (hi : ThreadInv w)
    {wop : WriterOp} (h : Author w op wop) (hord : SignalsInOrder w op) {id : Str}
    {row' : Incident} (hr' : getIncident id (w.writers.apply wop).records.db = some row')
    (hst : row'.state = .verifying) (hu : row'.updatedAt ≤ row'.stateChangedAt) :
    QuietSince id (marks w.writers (w.writers.apply wop) wop ++ w.log) := by
  -- a row the operation leaves alone, when the operation attaches no signal to it
  have hk : getIncident id w.writers.records.db = some row' →
      (∀ mark ∈ marks w.writers (w.writers.apply wop) wop, mark ≠ .signal id) →
      QuietSince id (marks w.writers (w.writers.apply wop) wop ++ w.log) := by
    intro he hmarks
    exact (hqt.rows id row' he hst hu).append hmarks
  have hf := h.effect hi
  cases hf with
  | quiet rows _ _ _ joined =>
    rw [getIncident, rows] at hr'
    exact hk hr' (no_signal_of_joined joined id)
  | wrote row copy _ replaced rewrites _ hid _ _ _ _ stamps joined =>
    rcases replaced.cases hr' with ⟨rfl, rfl⟩ | ⟨-, he⟩
    · rcases h.rewrites_state hi rewrites with ⟨m, now, rfl, rfl, -⟩ | hh
      · -- the verification begins with this transition
        have hd : m.dest = .verifying := hst
        have hmarks : marks w.writers (w.writers.apply (.move m now false)) (.move m now false) =
            [.entered row.id .verifying] := by
          rw [marks, if_pos (by rw [stamps]; simp), hd, ← hid]
          rfl
        rw [hmarks]
        intro mark hm
        simp at hm
      · have hc : copy.state = .verifying := hst
        rw [hc] at hh
        exact absurd hh (by decide)
    · exact hk he (no_signal_of_joined joined id)
  | revised row _ replaced revises _ _ _ owned stamp _ _ _ _ seen =>
    rcases replaced.cases hr' with ⟨rfl, rfl⟩ | ⟨hne, he⟩
    · -- the row was revised after the verification began
      have hverif : row.state = .verifying :=
        (congrArg WalkOwned.state owned).symm.trans hst
      have hlater : row.stateChangedAt < row'.updatedAt := by
        generalize row'.updatedAt = updatedAt at revises
        cases revises with
        | signal _ _ row ho =>
          obtain rfl := h.of_ingest hi
          exact (hord row ho).1 hverif
        | acknowledge _ _ row named =>
          obtain rfl := h.of_acknowledge hi
          exact hord row (named ▸ replaced.found) hverif
      rw [stamp] at hu
      exact absurd hlater (Int.not_lt.2 hu)
    · rcases seen with ⟨-, joined⟩ | ⟨-, joined⟩
      · exact hk he (no_signal_of_joined joined id)
      · exact hk he (no_signal_of_joined_cons joined hne)
  | opened _ _ added _ owned _ _ _ joined =>
    rcases added.cases hr' with ⟨rfl, rfl⟩ | ⟨hne, he⟩
    · rw [show row'.state = .open from congrArg WalkOwned.state owned] at hst
      cases hst
    · exact hk he (no_signal_of_joined_cons joined hne)

theorem QuietInv.kept {w' : WalkWorld}
    (hqt : QuietInv w) (hi : ThreadInv w) (hord : SignalsInOrder w op)
    (h : WalkStep sha w op w') :
    (∀ id row, getIncident id w'.records.db = some row → row.state = .verifying →
        row.updatedAt ≤ row.stateChangedAt → QuietSince id w'.log) ∧
      ∃ new, w'.log = new ++ w.log ∧
        ∀ c ∈ w.walked, awaitsQuiet c = true → ∀ mark ∈ new, mark ≠ .signal c.id := by
  rcases h.writers with ⟨he, hl⟩ | ⟨_, ha, hp, hl⟩
  · refine ⟨?_, [], hl, fun c _ _ mark hm => by cases hm⟩
    rw [records, he, hl]
    exact hqt.rows
  refine ⟨?_, _, hl, fun c hc hw => ha.no_signal hi hord hc hw⟩
  intro id row hr hst hu
  rw [records, hp] at hr
  rw [hl]
  exact hqt.rows_apply hi ha hord hr hst hu

theorem QuietInv.carry {w' : WalkWorld} (hqt : QuietInv w) (hs : w'.listedAt = w.listedAt)
    (hk : (∀ id row, getIncident id w'.records.db = some row → row.state = .verifying →
        row.updatedAt ≤ row.stateChangedAt → QuietSince id w'.log) ∧
      ∃ new, w'.log = new ++ w.log ∧
        ∀ c ∈ w.walked, awaitsQuiet c = true → ∀ mark ∈ new, mark ≠ .signal c.id)
    (hwalk : ∀ c' ∈ w'.walked, awaitsQuiet c' = true → ∃ c ∈ w.walked, c.id = c'.id ∧
      awaitsQuiet c = true ∧ (c'.state = .verifying → c' = c))
    (hp : ∀ p, w'.pass = some p → p.Quiet) : QuietInv w' := by
  obtain ⟨hr, new, hg, hn⟩ := hk
  have hl : w'.log.length = new.length + w.log.length := by rw [hg, List.length_append]
  have hle := hqt.listed
  refine ⟨by omega, hr, fun c' hc' hst hu => ?_, fun c' hc' hw mark hm => ?_, hp⟩
  · have hw : awaitsQuiet c' = true := by simp [awaitsQuiet, hst]
    obtain ⟨_, hc, _, hawait, he⟩ := hwalk c' hc' hw
    obtain rfl := he hst
    rw [hg]
    exact (hqt.copies c' hc hst hu).append (hn c' hc hawait)
  obtain ⟨c, hc, hid, hawait, -⟩ := hwalk c' hc' hw
  have hrecent : w'.recent = new ++ w.recent := by
    have hcount : w'.log.length - w'.listedAt = new.length + (w.log.length - w.listedAt) := by
      omega
    rw [WalkWorld.recent, hcount, hg, List.take_length_add_append]
    rfl
  rw [hrecent] at hm
  rw [← hid]
  rcases List.mem_append.1 hm with hfr | hold
  · exact hn c hc hawait mark hfr
  · exact hqt.recent c hc hawait mark hold

theorem PassWrite.left {p p' : Pass} {now : Int} {fault : Bool} {op : WriterOp}
    {next : Incident → Option Pass} (h : PassWrite p now fault op next) (ha : p.Aligned)
    {inc : Incident} (hl : w.leftBy op = some inc) (hn : next inc = some p') :
    p'.Quiet ∧ p'.inc.id = p.inc.id ∧ (awaitsQuiet p'.inc = true → awaitsQuiet p.inc = true ∧
      p'.inc.state ≠ .verifying) := by
  cases h with
  | move | park => cases hn
  | bind _ hph =>
    cases hn
    obtain rfl := leftBy_bind hl
    rw [Pass.Aligned, hph] at ha
    refine ⟨fun m hm => ?_, rfl, fun _ => ⟨?_, ?_⟩⟩
    · rcases hm with hm | hm <;> cases hm
    · simp [awaitsQuiet, ha]
    show p.inc.state ≠ .verifying
    rw [ha]
    intro heq
    cases heq
  | execute =>
    cases hn
    obtain ⟨_, -, -, -, rfl⟩ := leftBy_move hl
    refine ⟨fun m hm => ?_, rfl, fun hw => ?_⟩
    · rcases hm with hm | hm <;> cases hm
    · simp [awaitsQuiet, Move.copy, executingMove] at hw

theorem QuietInv.passed {q : Pass} (hqt : QuietInv w) (hi : ThreadInv w) (h : PassFrom sha w op q) :
    q.Quiet ∧ (awaitsQuiet q.inc = true → ∃ c ∈ w.walked, c.id = q.inc.id ∧
      awaitsQuiet c = true ∧ (q.inc.state = .verifying → q.inc = c)) := by
  cases h with
  | kept hp =>
    exact ⟨hqt.pass q hp, fun hw => ⟨_, mem_walked.2 (.inl ⟨q, hp, rfl⟩), rfl, hw, fun _ => rfl⟩⟩
  | picked inc hinc hq =>
    subst hq
    refine ⟨fun m hph => ?_, fun hw => ⟨inc, mem_walked.2 (.inr hinc), rfl, hw, fun _ => rfl⟩⟩
    rcases hph with hph | hph <;> cases hph
  | turned p hp ht =>
    refine ⟨ht.quiet, fun hw => ⟨_, mem_walked.2 (.inl ⟨p, hp, rfl⟩), ?_⟩⟩
    rw [ht.kept.inc] at hw ⊢
    exact ⟨rfl, hw, fun _ => rfl⟩
  | cancelled p m hp hph hq =>
    subst hq
    refine ⟨fun m' hph' hd => ?_,
      fun hw => ⟨_, mem_walked.2 (.inl ⟨p, hp, rfl⟩), rfl, hw, fun _ => rfl⟩⟩
    rcases hph' with hph' | hph'
    · cases hph'
      exact hqt.pass p hp m (.inr hph) hd
    · cases hph'
  | wrote p _ _ _ _ _ hp hwr hl hn =>
    obtain ⟨hquiet, hid, hleave⟩ := hwr.left (hi.pass p hp).2 hl hn
    refine ⟨hquiet, fun hw => ?_⟩
    obtain ⟨hawait, hst⟩ := hleave hw
    exact ⟨p.inc, mem_walked.2 (.inl ⟨p, hp, rfl⟩), hid.symm, hawait,
      fun hverif => absurd hverif hst⟩

theorem QuietInv.step {w' : WalkWorld}
    (hqt : QuietInv w) (hi : ThreadInv w) (hord : SignalsInOrder w op)
    (h : WalkStep sha w op w') : QuietInv w' := by
  have hk := hqt.kept hi hord h
  have hp : ∀ q, w'.pass = some q → _ := fun q hq => hqt.passed hi (h.pass_from hq)
  -- every step but a listing leaves the walk with incidents it had
  have hcarry : w'.listedAt = w.listedAt → (∀ c' ∈ w'.todo, c' ∈ w.todo) → QuietInv w' := by
    intro hat htodo
    refine hqt.carry hat hk (fun c' hc' hw => ?_) fun q hq => (hp q hq).1
    rcases mem_walked.1 hc' with ⟨q, hq, rfl⟩ | hrest
    · exact (hp q hq).2 hw
    · exact ⟨c', mem_walked.2 (.inr (htodo c' hrest)), rfl, hw, fun _ => rfl⟩
  cases h with
  | listed h0 =>
    have hr := hk.1
    refine ⟨Nat.le_refl _, hr, fun c hc hst hu => ?_, fun c hc hw mark hm => ?_,
      fun p hp => hqt.pass p hp⟩
    · rcases mem_walked.1 hc with ⟨_, hp, -⟩ | ho
      · cases h0.symm.trans hp
      · have hf := getIncident_of_mem hi.writers.ids (List.mem_filter.1 ho).1
        exact hr c.id c hf hst hu
    · have hnothing : mark ∈ w.log.take (w.log.length - w.log.length) := hm
      simp at hnothing
  | skipped _ _ _ hs | picked _ _ _ hs => exact hcarry rfl fun _ hrest => hs ▸ .tail _ hrest
  | side sop =>
    cases sop with
    | none | some => exact hcarry rfl fun _ h => h
  | restarted => exact hcarry rfl fun _ hrest => by cases hrest
  | _ => exact hcarry rfl fun _ h => h

/-! ## Runs -/

theorem quietInv_exec {r : Records}
    (hi : (r.db.incidents.map (·.id)).Nodup) {cfg : RuntimeConfig} {ops : List WalkOp}
    (hr : exec (walkNext sha) (.start r cfg) ops = some w)
    (hord : Along (walkNext sha) SignalsInOrder (.start r cfg) ops) : QuietInv w := by
  have hboth : ThreadInv w ∧ QuietInv w := by
    refine exec_invariant_along (P := fun w => ThreadInv w ∧ QuietInv w) ?_
      ⟨threadInv_start hi cfg, quietInv_start r cfg⟩ hord hr
    rintro _ _ _ ⟨hinv, hqt⟩ hok hs
    have hs := walkStep_of_next hs
    exact ⟨hinv.step hs, hqt.step hinv hok hs⟩
  exact hboth.2

theorem Author.resolved {now now' : Int} {fault fault' : Bool} {m : Move}
    (h : Author w (.commit now fault) (.move m now' fault')) (hi : ThreadInv w)
    (hd : m.dest = .resolved) : ∃ p, w.pass = some p ∧ p.phase = .writing m := by
  have hmover := h.mover hi
  generalize hop : WalkOp.commit now fault = op at hmover
  cases hmover with
  | walk p hp hph => exact ⟨p, hp, hph⟩
  | start _ _ _ _ _ hm =>
    rw [hm] at hd
    cases hd
  | _ => cases hop

/-- **An incident that resolves by itself was quiet.** In every run in which signals come in order,
when a write of the walk moves an incident into `resolved`, then the incident was in verification
and no signal has joined it since the verification began, or it was observed and no signal has
joined it since the walk read the update its window is counted from. -/
theorem auto_resolution_quiet {sha : Str → Str} {r : Records}
    (hids : (r.db.incidents.map (·.id)).Nodup) {cfg : RuntimeConfig} {ops : List WalkOp}
    {w w' : WalkWorld} (hrun : exec (walkNext sha) (.start r cfg) ops = some w)
    (horder : Along (walkNext sha) SignalsInOrder (.start r cfg) ops) {now : Int} {fault : Bool}
    (hstep : walkNext sha w (.commit now fault) = some w') {id : Str} {row row' : Incident}
    (hrow : getIncident id w.records.db = some row) (hopen : row.state ≠ .resolved)
    (hrow' : getIncident id w'.records.db = some row') (hresolved : row'.state = .resolved) :
    (row.state = .verifying ∧ QuietSince id w.log) ∨
      (row.state = .observing ∧ ∀ mark ∈ w.recent, mark ≠ .signal id) := by
  have hinv := threadInv_exec hids hrun
  have hquiet := quietInv_exec hids hrun horder
  have hnew : ∀ found, getIncident id w.records.db = some found → found.state ≠ row'.state := by
    intro found hfound
    rw [Option.some.inj (hfound.symm.trans hrow), hresolved]
    exact hopen
  rcases (walkStep_of_next hstep).writers with ⟨hsame, -⟩ | ⟨_, hauthor, happly, -⟩
  · rw [records, hsame] at hrow'
    exact absurd rfl (hnew row' hrow')
  have heffect := hauthor.effect hinv
  rw [← happly] at heffect
  have hplain : row'.state ∉ [.open, .awaitingApproval] := by
    rw [hresolved]
    decide
  obtain ⟨m, _, found, rfl, hdest, -, hfound, hid, hfence, -⟩ :=
    heffect.entered hrow' hplain hnew
  obtain rfl := Option.some.inj (hfound.symm.trans hrow)
  obtain ⟨p, hp, hphase⟩ := hauthor.resolved hinv (hdest.trans hresolved)
  -- the row is in the state of the copy the decision was made on
  have haligned := (hinv.pass p hp).2
  rw [Pass.Aligned, hphase] at haligned
  have hstate : found.state = p.inc.state := by
    simp only [fenced, Bool.and_eq_true, decide_eq_true_eq] at hfence
    rw [hfence.1, haligned.1]
  have hpid : p.inc.id = id := by
    rw [← haligned.1, ← hid]
    exact getIncident_id hrow
  have hwalked : p.inc ∈ w.walked := mem_walked.mpr (.inl ⟨p, hp, rfl⟩)
  obtain ⟨hawaits, hupdated⟩ := hquiet.pass p hp m (.inl hphase) (hdest.trans hresolved)
  rw [awaitsQuiet, Bool.or_eq_true, decide_eq_true_eq, decide_eq_true_eq] at hawaits
  rcases hawaits with hverifying | hobserving
  · left
    have hsince := hquiet.copies p.inc hwalked hverifying (hupdated hverifying)
    rw [hpid] at hsince
    exact ⟨hstate.trans hverifying, hsince⟩
  right
  have hrecent := hquiet.recent p.inc hwalked (by simp [awaitsQuiet, hobserving])
  rw [hpid] at hrecent
  exact ⟨hstate.trans hobserving, hrecent⟩

/-- A signal of the sample incident that is recorded at the given time. -/
def recurrence (at' : Nat) : WalkOp :=
  .ingest { openingIngest with updatedAt := at' } vendorSignal false

/-- The sample incident is remediated and its quiet window is over. A signal joined it before. -/
theorem auto_resolution_quiet_of_window :
    ∃ w w' row row', exec (walkNext id) (.start .empty (sampleConfig [cordonStep]))
        (openingOps ++ [recurrence 2] ++ startOps 3 ++ finishOps 4 ++
          [.list, .pick, .plan (sampleTick 60)]) = some w ∧
      walkNext id w (.commit 61 false) = some w' ∧
      getIncident (lit "inc-1") w.records.db = some row ∧ row.signalSeen = 2 ∧
      getIncident (lit "inc-1") w'.records.db = some row' ∧ row'.state = .resolved ∧
      QuietSince (lit "inc-1") w.log := by
  simp only [exists_and_left]
  refine reached (by decide +kernel) fun w hw (hrun :
    ∃ w', walkNext id w (.commit 61 false) = some w' ∧
      ∃ row, getIncident (lit "inc-1") w.records.db = some row ∧ row.state = .verifying ∧
        row.signalSeen = 2 ∧
        ∃ row', getIncident (lit "inc-1") w'.records.db = some row' ∧ row'.state = .resolved) => ?_
  obtain ⟨w', hw', row, hrow, hverifying, hseen, row', hrow', hresolved⟩ := hrun
  have hopen : row.state ≠ .resolved := by
    rw [hverifying]
    intro heq
    cases heq
  rcases auto_resolution_quiet (by decide) hw
    (by decide +kernel) hw' hrow hopen hrow' hresolved with
    ⟨-, hquiet⟩ | ⟨hobserving, -⟩
  · exact ⟨w', hw', row, hrow, hseen, row', hrow', hresolved, hquiet⟩
  · rw [hverifying] at hobserving
    cases hobserving

/-- The walk lists the sample incident, whose quiet window is over. Then the fault recurs: a signal
joins the incident, and is recorded after the verification began. The walk, which tests its copy,
resolves the incident all the same. -/
theorem signal_lost_to_resolution :
    ∃ w, exec (walkNext id) (.start .empty (sampleConfig [cordonStep]))
        (openingOps ++ startOps 3 ++ finishOps 4 ++
          [.list, .pick, recurrence 59, .plan (sampleTick 60)]) = some w ∧
      (∃ row, getIncident (lit "inc-1") w.records.db = some row ∧ row.state = .verifying ∧
        row.stateChangedAt < row.updatedAt) ∧
      ¬ QuietSince (lit "inc-1") w.log ∧
      ∃ w', walkNext id w (.commit 61 false) = some w' ∧
        ∃ row', getIncident (lit "inc-1") w'.records.db = some row' ∧ row'.state = .resolved := by
  decide +kernel

end KubeNeuron.Controller
