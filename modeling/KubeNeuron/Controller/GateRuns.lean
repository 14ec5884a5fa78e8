import KubeNeuron.Controller.Slots

/-!
# The gate against the store

What the gate counts for a key, with what is still to be seeded, is what the rows hold, with what is
about to be handed back and what is reserved for a start that has not committed
(`GateInv.balance`). `resolution_leaks_slot` resolves an incident while the gate is being rebuilt.
-/

namespace KubeNeuron.Controller

open Lib KubeNeuron.Types Store Playbooks Safety GateWorld WalkWorld

variable {w : GateWorld} {p : Pass} {lower sha : Str → Str} {op : WalkOp}
  {w' : WalkWorld} {t : Tick}

/-! ## Counting targets -/

section

variable (lower : Str → Str) (key : Str)

def keyed (targets : List Target) : Nat :=
  targets.countP fun target => targetKey lower target = key

def slotTargets (rows : List Incident) : List Target := (rows.filter holdsSlot).map (·.target)

/-- The incidents that hold a slot of a key. -/
def slotHolders (rows : List Incident) : Nat :=
  rows.countP fun inc => holdsSlot inc && targetKey lower inc.target = key

end

variable {key : Str}

@[simp] theorem keyed_nil : keyed lower key [] = 0 := rfl

@[simp] theorem keyed_append (targets more : List Target) : keyed lower key (targets ++ more) =
      keyed lower key targets + keyed lower key more :=
  List.countP_append

theorem keyed_singleton (target : Target) :
    keyed lower key [target] = if targetKey lower target = key then 1 else 0 := by
  rw [keyed, List.countP_singleton]
  simp only [decide_eq_true_eq]

theorem keyed_sameDevice (lower : Str → Str) (key : Str) {a b : Target} (h : a.SameDevice b) :
    keyed lower key [a] = keyed lower key [b] := by
  rw [keyed_singleton, keyed_singleton, targetKey_sameDevice h]

theorem slotHolders_eq (rows : List Incident) :
    slotHolders lower key rows = keyed lower key (slotTargets rows) := by
  rw [keyed, slotTargets, List.countP_map, List.countP_filter]
  refine List.countP_congr fun inc _ => ?_
  simp only [Bool.and_eq_true, Function.comp_apply, and_comm]

theorem slotTargets_append (rows more : List Incident) :
    slotTargets (rows ++ more) = slotTargets rows ++ slotTargets more := by
  rw [slotTargets, List.filter_append, List.map_append]
  rfl

theorem slotTargets_singleton (inc : Incident) :
    slotTargets [inc] = if holdsSlot inc then [inc.target] else [] := by
  rw [slotTargets, List.filter_singleton]
  cases holdsSlot inc with
  | true | false => rfl

theorem keyed_replaced (lower : Str → Str) (key : Str) {db db' : Database}
    {row row' : Incident} (h : Replaced db db' row row') (hi : (db.incidents.map (·.id)).Nodup) :
    keyed lower key (slotTargets db'.incidents) + keyed lower key (slotTargets [row]) =
      keyed lower key (slotTargets db.incidents) + keyed lower key (slotTargets [row']) := by
  obtain ⟨before, _, hs, hs'⟩ := h.split hi
  rw [hs, hs', List.append_cons before row, List.append_cons before row']
  simp only [slotTargets_append, keyed_append]
  omega

/-! ## What is reserved -/

/-- The slot that was reserved for a start that has not committed. -/
def Pass.reserved (p : Pass) : List Target :=
  match p.phase with
  | .admitted _ _ => if p.inc.remediationSlotHeld then [] else [p.inc.target]
  | _ => []

def WalkWorld.reserving (w : WalkWorld) : List Target := w.pass.elim [] Pass.reserved

theorem WalkWorld.reserving_admitted {w : WalkWorld} (hp : w.pass = some p)
    {step : Step} {actor : Str} (hph : p.phase = .admitted step actor) :
    w.reserving = if p.inc.remediationSlotHeld then [] else [p.inc.target] := by
  rw [reserving, hp, Option.elim_some, Pass.reserved, hph]

theorem Pass.reserved_of_not_starts (h : p.starts = false) : p.reserved = [] := by
  rw [Pass.reserved]
  split
  next step actor hph =>
    rw [Pass.starts, hph] at h
    cases h
  · rfl

theorem Pass.follow_not_starts {q : Pass} {plan : Plan} (h : p.follow plan = some q) :
    q.starts = false := by
  unfold Pass.follow at h
  split at h
  · cases h
  all_goals
    cases h
    rfl

theorem Turn.not_starts {w : WalkWorld} {p' : Pass}
    (h : Turn sha w p op (some p')) (hop : ∀ t, op ≠ .admission t) : p'.starts = false := by
  refine Bool.eq_false_iff.2 fun hs => ?_
  obtain ⟨_, _, hph⟩ := Pass.starts_iff.1 hs
  obtain ⟨t, ht⟩ := h.kept.admitted _ _ hph
  exact hop t ht

theorem Turn.from_not_starts {w : WalkWorld}
    {p' : Option Pass} (h : Turn sha w p op p') : p.starts = false := by
  refine Bool.eq_false_iff.2 fun hs => ?_
  obtain ⟨_, _, ha⟩ := Pass.starts_iff.1 hs
  cases h with
  | planned _ _ hp =>
    rw [planOf, ha] at hp
    cases hp
  | nodePaused _ hph | nodeClear _ hph | unread _ _ hph | decided _ _ _ hph
  | approved _ _ _ _ hph | compared _ _ _ _ hph | superseded _ _ hph
  | locked _ _ hph | refused _ _ _ _ hph | admitted _ _ _ hph =>
    cases ha.symm.trans hph

variable {inc : Incident} {process : WalkWorld} {gate : Gate}

theorem PassWrite.next_not_starts {p' : Pass} {now : Int} {fault : Bool} {op : WriterOp}
    {next : Incident → Option Pass} (h : PassWrite p now fault op next)
    (hn : next inc = some p') : p'.starts = false := by
  cases h with
  | move | park => cases hn
  | bind | execute =>
    cases hn
    rfl

theorem WalkWorld.reserving_eq_nil {w : WalkWorld} (h : ∀ p, w.pass = some p → p.starts = false) :
    w.reserving = [] := by
  rw [reserving]
  cases hp : w.pass with
  | none => rfl
  | some p => exact Pass.reserved_of_not_starts (h p hp)

theorem WalkStep.reserving_commit {w : WalkWorld} {now : Int}
    {fault : Bool} (h : WalkStep sha w (.commit now fault) w') : w'.reserving = [] := by
  obtain ⟨_, _, _, -, hwr, rfl⟩ := h.of_commit
  apply reserving_eq_nil
  intro q hq
  obtain ⟨_, -, hn⟩ := Option.bind_eq_some_iff.1 hq
  exact hwr.next_not_starts hn

theorem WalkStep.reserving_kept {w : WalkWorld}
    (h : WalkStep sha w op w') (hstarts : w.starts op = false) (hd : ∀ t, op ≠ .admission t)
    (hr : ∀ cfg, op ≠ .restart cfg) : w'.reserving = w.reserving := by
  have he : ∀ {p : Pass}, w.pass = some p → p.starts = false → w.reserving = [] := by
    intro p ha hp
    apply reserving_eq_nil
    intro q hq
    cases ha.symm.trans hq
    exact hp
  cases h with
  | picked _ _ ha =>
    rw [reserving, reserving, ha]
    rfl
  | turned p p' ha ht =>
    rw [he ha ht.from_not_starts]
    apply reserving_eq_nil
    intro q hq
    obtain rfl : p' = some q := hq
    exact ht.not_starts hd
  | cancelled _ _ _ _ ha hph | launched _ _ ha hph =>
    rw [he ha (by rw [Pass.starts, hph])]
    rfl
  | wrote p now fault wop next ha hwr =>
    have hp : p.starts = false := by
      rw [starts, ha] at hstarts
      exact hstarts
    have hs : WalkStep sha w (.commit now fault) _ := .wrote p now fault wop next ha hwr
    rw [he ha hp, hs.reserving_commit]
  | side sop =>
    cases sop with
    | none | some => rfl
  | restarted cfg => exact absurd rfl (hr cfg)
  | _ => rfl

/-! ## The balance of a step -/

/-- **What the rows gain is what was reserved, and what they lose is owed.** -/
theorem HoldInv.balance {w : WalkWorld}
    (hh : HoldInv w) (hnd : w.writers.stamps.Nodup) (h : WalkStep sha w op w')
    (hd : ∀ t, op ≠ .admission t) (ht : ∀ cfg, op ≠ .restart cfg)
    (lower : Str → Str) (key : Str) :
    keyed lower key (slotTargets w'.records.db.incidents) +
        keyed lower key (w.slotsOwed op w') + keyed lower key w'.reserving =
      keyed lower key (slotTargets w.records.db.incidents) + keyed lower key w.reserving := by
  have hi := hh.threads.writers.ids
  cases hh.slotEffect hnd h with
  | quiet other rows owed =>
    rw [rows, owed, h.reserving_kept other hd ht, keyed_nil, Nat.add_zero]
  | failed _ _ _ _ _ commits pass phase rows owed =>
    subst commits
    rw [rows, owed, h.reserving_commit, reserving_admitted pass phase, keyed_nil, Nat.add_zero]
  | kept row row' other replaced slot activity device owed =>
    have hc := keyed_replaced lower key replaced hi
    have he : keyed lower key (slotTargets [row']) = keyed lower key (slotTargets [row]) := by
      rw [slotTargets_singleton, slotTargets_singleton, holdsSlot, holdsSlot, activity, slot]
      split_ifs
      · exact keyed_sameDevice lower key device
      · rfl
    rw [owed, h.reserving_kept other hd ht, keyed_nil]
    omega
  | freed _ row row' other _ _ replaced halted _ device owed =>
    have hc := keyed_replaced lower key replaced hi
    have ha : slotTargets [row'] = [] := by
      rw [slotTargets_singleton, holdsSlot, halted]
      rfl
    have hb : keyed lower key (slotTargets [row]) = keyed lower key (w.slotsOwed op w') := by
      -- a row with a slot is active
      have hv := hh.cleared row.id row replaced.found
      rw [slotTargets_singleton, holdsSlot, owed]
      cases hs : row.remediationSlotHeld with
      | false =>
        rw [Bool.and_false]
        rfl
      | true =>
        cases hr : active row with
        | false => cases hs.symm.trans (hv hr)
        | true => exact (keyed_sameDevice lower key device).symm
    rw [ha, keyed_nil] at hc
    rw [h.reserving_kept other hd ht]
    omega
  | taken _ _ _ _ _ _ _ commits pass phase replaced held before slot device target owed =>
    subst commits
    have hc := keyed_replaced lower key replaced hi
    rw [slotTargets_singleton, slotTargets_singleton, holdsSlot, before, slot, target,
      Bool.true_and] at hc
    rw [owed, h.reserving_commit, reserving_admitted pass phase, keyed_nil]
    have hdev := keyed_sameDevice lower key device
    split_ifs at hc ⊢
    · rw [keyed_nil]
      omega
    · rw [keyed_nil] at hc
      omega
  | opened _ other added slot owed =>
    rw [added.incidents hi, slotTargets_append, keyed_append, slotTargets_singleton, holdsSlot,
      slot, Bool.and_false, owed, h.reserving_kept other hd ht]
    rfl

/-! ## The balance of the gate -/

namespace GateWorld

def returning (w : GateWorld) : List Target := w.releasing.filterMap HandBack.slot?

/-- The slots the rebuild has still to occupy. -/
def unseeded (w : GateWorld) : List Target :=
  match w.rebuild with
  | .waiting => slotTargets w.process.records.db.incidents
  | .seeding rest => rest.map (·.target)
  | .done => []

/-- The slots that are accounted for outside the gate. -/
def claimed (w : GateWorld) : List Target :=
  slotTargets w.process.records.db.incidents ++ w.returning ++ w.process.reserving

end GateWorld

/-- What every operation keeps, as long as the rebuild is not disturbed. -/
structure GateInv (lower : Str → Str) (w : GateWorld) : Prop where
  hold : HoldInv w.process
  pins : ∀ pin ∈ w.pins, .entered pin.1 .executing ∈ w.process.log
  early : w.rebuild ≠ .done → w.process.pass = none ∧ ∀ h ∈ w.releasing, h.slot? = none
  balance : ∀ key,
    w.gate.active.count key + keyed lower key w.unseeded = keyed lower key w.claimed

/-- While the gate is being rebuilt, nobody resolves an incident that holds a slot. -/
def RebuildUndisturbed (w : GateWorld) : GateOp → Prop
  | .walk (.operatorResolve i _ _ _ _) =>
    w.rebuild ≠ .done → ∀ inc ∈ w.process.operators[i]?,
      ∀ row ∈ getIncident inc.id w.process.records.db, row.remediationSlotHeld = false
  | _ => True

instance decidableRebuildUndisturbed (w : GateWorld) (op : GateOp) :
    Decidable (RebuildUndisturbed w op) := by
  unfold RebuildUndisturbed
  split
  · infer_instance
  · infer_instance

/-- What an operation of the walk does to the world with the gate. -/
inductive GateWalk (lower : Str → Str) (w : GateWorld) (op : WalkOp)
    (process : WalkWorld) : GateWorld → Prop where
  | admission (t : Tick) (gate : Gate) (hop : op = .admission t)
      (hgate : w.admission lower t = some gate) :
      GateWalk lower w op process { w with process, gate }
  | other (hadmission : ∀ t, op ≠ .admission t) (hrestart : ∀ cfg, op ≠ .restart cfg) :
      GateWalk lower w op process
        { w with process, releasing := w.process.owes op process ++ w.releasing }

theorem gateWalk_of_walkNext {w' : GateWorld} (h : w.walkNext lower sha op = some w') :
    (w.rebuild = .done ∨ op.servedEarly = true) ∧
      ∃ process, WalkStep sha w.process op process ∧ GateWalk lower w op process w' := by
  rw [GateWorld.walkNext] at h
  split_ifs at h with he
  constructor
  · by_cases hd : w.rebuild = .done
    · exact .inl hd
    · right
      simpa [hd] using he
  obtain ⟨process, hp, hn⟩ := Option.bind_eq_some_iff.1 h
  refine ⟨process, walkStep_of_next hp, ?_⟩
  split at hn
  · cases hn
  · obtain ⟨gate, hg, rfl⟩ := Option.map_eq_some_iff.1 hn
    exact .admission _ gate rfl hg
  next ht ha =>
    cases hn
    exact .other ha ht

theorem WalkStep.pass_early {w : WalkWorld}
    (h : WalkStep sha w op w') (he : op.servedEarly = true) : w'.pass = w.pass := by
  cases h with
  | turned _ _ _ ht => cases ht <;> cases he
  | side sop =>
    cases sop with
    | none | some => rfl
  | installed => rfl
  | _ => cases he

theorem WalkWorld.transition_early {w : WalkWorld} {m : Move}
    (h : w.transition? op = some m) (he : op.servedEarly = true) :
    ∃ i inc actor reason now fault, op = .operatorResolve i actor reason now fault ∧
      w.operators[i]? = some inc ∧ m.snap = inc := by
  cases op with
  | operatorResolve i actor reason now fault =>
    obtain ⟨inc, hi, rfl⟩ := Option.map_eq_some_iff.1 h
    exact ⟨i, inc, actor, reason, now, fault, rfl, hi, rfl⟩
  | commit | stepCommit | closerCommit => cases he
  | _ => cases h

theorem GateInv.owed_early (hi : GateInv lower w) (hnd : w.process.writers.stamps.Nodup)
    (h : WalkStep sha w.process op process) (hr : w.rebuild ≠ .done)
    (he : op.servedEarly = true) (hcalm : RebuildUndisturbed w (.walk op)) :
    w.process.slotsOwed op process = [] := by
  have hn := (hi.early hr).1
  cases hi.hold.slotEffect hnd h with
  | quiet _ _ owed | kept _ _ _ _ _ _ _ owed | opened _ _ _ _ owed => exact owed
  | failed _ _ _ _ _ _ pass | taken _ _ _ _ _ _ _ _ pass => cases hn.symm.trans pass
  | freed m row _ _ writes sameID replaced _ _ _ owed =>
    obtain ⟨_, _, _, _, _, _, rfl, hc, rfl⟩ :=
      transition_early writes he
    have hf := hcalm hr m.snap hc row (sameID ▸ replaced.found)
    rw [owed, hf]
    rfl

theorem GateInv.walk (hi : GateInv lower w) (hnd : w.process.writers.stamps.Nodup)
    (h : WalkStep sha w.process op process) (hserv : w.rebuild = .done ∨ op.servedEarly = true)
    (hcalm : RebuildUndisturbed w (.walk op)) (ha : ∀ t, op ≠ .admission t)
    (ht : ∀ cfg, op ≠ .restart cfg) :
    GateInv lower { w with process, releasing := w.process.owes op process ++ w.releasing } := by
  have he : w.rebuild ≠ .done → op.servedEarly = true := fun hr =>
    hserv.resolve_left hr
  have ho : w.rebuild ≠ .done → w.process.slotsOwed op process = [] := fun hr =>
    hi.owed_early hnd h hr (he hr) hcalm
  refine ⟨hi.hold.step hnd h, fun pin hp => h.log_grows (hi.pins pin hp),
    fun hr => ⟨?_, fun hb hhb => ?_⟩, fun key => ?_⟩
  · exact (h.pass_early (he hr)).trans (hi.early hr).1
  · rcases List.mem_append.1 hhb with hn | hold
    · exact List.filterMap_eq_nil_iff.1 (ho hr) hb hn
    · exact (hi.early hr).2 hb hold
  have hbef := hi.balance key
  have hs := hi.hold.balance hnd h ha ht lower key
  rw [slotsOwed] at hs ho
  simp only [claimed, returning, List.filterMap_append, keyed_append] at hbef ⊢
  cases hr : w.rebuild with
  | waiting =>
    have hw : w.rebuild ≠ .done := by simp [hr]
    rw [ho hw, keyed_nil] at hs ⊢
    have hreserving : process.reserving = w.process.reserving := by
      rw [reserving, reserving, h.pass_early (he hw)]
    simp only [unseeded, hr] at hbef ⊢
    rw [hreserving] at hs ⊢
    omega
  | seeding | done =>
    simp only [unseeded, hr] at hbef ⊢
    omega

theorem admitStep_admitted {cfg : RuntimeConfig} {step : Step}
    (h : admitStep cfg t inc step = .admitted) :
    t.confinement = .inScope ∧ t.accelerator = .allowed ∧
      (t.gate = .allowed ∨ (t.gate = .paused ∧ t.quiesced = true)) := by
  revert h
  fun_cases admitStep cfg t inc step with
  | case7 hc ha hg =>
    intro _
    exact ⟨hc, ha, .inl hg⟩
  | case8 hc ha hg hbypass =>
    intro _
    rw [pauseBypass, Bool.and_eq_true] at hbypass
    exact ⟨hc, ha, .inr ⟨hg, hbypass.2⟩⟩
  | _ => rintro ⟨⟩

theorem GateWorld.admission_active (h : w.admission lower t = some gate)
    (hp : w.process.pass = some p) {step : Step} {actor : Str}
    (hph : p.phase = .locked step actor) :
    (admitStep p.cfg t p.inc step = .admitted ∧ p.inc.remediationSlotHeld = false ∧
        gate.active = w.gate.active.acquire (targetKey lower p.inc.target)) ∨
      (gate.active = w.gate.active ∧
        (admitStep p.cfg t p.inc step = .admitted → p.inc.remediationSlotHeld = true ∨
          (p.inc.id, p.inc.target.node) ∈ w.pins)) := by
  simp only [admission, hp, hph] at h
  split at h
  · cases h
  rename_i hpinned
  split at h
  next hclear =>
    split at h
    next g hk =>
      split at h
      next hm =>
        -- the gate agreed, so the step is admitted
        cases h
        simp only [Bool.and_eq_true, decide_eq_true_eq] at hclear
        rw [ask] at hk
        cases hs : p.inc.remediationSlotHeld with
        | true =>
          rw [if_pos hs] at hk
          exact .inr ⟨Gate.allowHeld_active hk, fun _ => .inl rfl⟩
        | false =>
          rw [if_neg (by rw [hs]; exact Bool.false_ne_true)] at hk
          refine .inl ⟨?_, rfl, Gate.allow_active hk⟩
          simp only [admitStep, hclear.1, hclear.2, hm]
      · cases h
    rename_i kind hk
    split at h
    next hv =>
      cases h
      refine .inr ⟨rfl, fun hd => .inr ?_⟩
      -- a step is admitted against the gate only to reverse a quiesce
      obtain ⟨-, -, hg | ⟨-, hquiesced⟩⟩ := admitStep_admitted hd
      · cases kind <;> cases hg.symm.trans hv
      · rw [hquiesced] at hpinned
        simpa using hpinned
    · cases h
  rename_i hclear
  cases h
  refine .inr ⟨rfl, fun hd => absurd ?_ hclear⟩
  obtain ⟨hc, ha, -⟩ := admitStep_admitted hd
  rw [hc, ha]
  rfl

theorem WalkStep.of_admission {w : WalkWorld} (h : WalkStep sha w (.admission t) w') :
    ∃ p step actor, w.pass = some p ∧ p.phase = .locked step actor ∧
      ((admitStep p.cfg t p.inc step = .admitted ∧
          w' = w.turn (some { p with phase := .admitted step actor })) ∨
        ∃ plan, admitStep p.cfg t p.inc step = .plan plan ∧ w' = w.turn (p.follow plan)) := by
  generalize hop : WalkOp.admission t = op at h
  cases h with
  | turned p _ hp ht =>
    cases ht with
    | refused _ step actor plan hph hl =>
      cases hop
      exact ⟨p, step, actor, hp, hph, .inr ⟨plan, hl, rfl⟩⟩
    | admitted _ step actor hph ha =>
      cases hop
      exact ⟨p, step, actor, hp, hph, .inl ⟨ha, rfl⟩⟩
    | _ => cases hop
  | side sop janitor closing operators deciding hs hcopies =>
    cases hop
    cases hs <;> next haside => cases haside
  | _ => cases hop

theorem GateInv.admission (hinv : GateInv lower w) (hnd : w.process.writers.stamps.Nodup)
    (h : WalkStep sha w.process (.admission t) process) (hd : w.rebuild = .done)
    (hg : w.admission lower t = some gate) :
    GateInv lower { w with process, gate } := by
  refine ⟨hinv.hold.step hnd h, fun pin hi => h.log_grows (hinv.pins pin hi),
    fun hr => absurd hd hr, fun key => ?_⟩
  obtain ⟨p, _, _, hp, hph, hcases⟩ := h.of_admission
  have hrecs : process.records = w.process.records := by
    rcases hcases with ⟨-, rfl⟩ | ⟨_, -, rfl⟩
    · rfl
    · rfl
  have hb := hinv.balance key
  have hreserving : w.process.reserving = [] := by
    rw [reserving, hp, Option.elim_some, Pass.reserved, hph]
  have hgates : gate.active.count key =
      w.gate.active.count key + keyed lower key process.reserving := by
    rcases w.admission_active hg hp hph with ⟨ha, hs, hv⟩ | ⟨hv, hh⟩
    · rcases hcases with ⟨-, rfl⟩ | ⟨_, hl, -⟩
      · rw [hv, KeyMap.count_acquire, reserving_admitted rfl rfl, hs]
        simp only [Bool.false_eq_true, if_false, keyed_singleton, eq_comm]
      · cases ha.symm.trans hl
    rw [hv]
    rcases hcases with ⟨ha, rfl⟩ | ⟨_, _, rfl⟩
    · have hs : p.inc.remediationSlotHeld = true := by
        rcases hh ha with hs | hi
        · exact hs
        -- an incident with a pin has started a step
        exact hinv.hold.walked p.inc (mem_walked.2 (.inl ⟨p, hp, rfl⟩)) (hinv.pins _ hi)
      rw [reserving_admitted rfl rfl, hs]
      rfl
    · rw [reserving_eq_nil fun q hq => Pass.follow_not_starts hq]
      rfl
  simp only [claimed, returning, unseeded, keyed_append, hreserving, hrecs, hgates,
    keyed_nil] at hb ⊢
  omega

theorem GateInv.same_counts (hi : GateInv lower w) (ha : gate.active = w.gate.active) :
    GateInv lower { w with gate } := by
  refine { hi with balance := fun key => ?_ }
  have hb := hi.balance key
  rw [← ha] at hb
  exact hb

theorem keyed_eraseIdx (lower : Str → Str) (key : Str) {hs : List HandBack}
    {i : Nat} {h : HandBack} (hi : hs[i]? = some h) :
    keyed lower key (hs.filterMap HandBack.slot?) = keyed lower key h.slot?.toList +
        keyed lower key ((hs.eraseIdx i).filterMap HandBack.slot?) := by
  obtain ⟨hlt, rfl⟩ := List.getElem?_eq_some_iff.1 hi
  have hp := (List.getElem_cons_eraseIdx_perm hlt).filterMap HandBack.slot?
  rw [keyed, keyed, keyed, ← hp.countP_eq, ← List.countP_append, List.filterMap_cons]
  cases hs[i].slot? with
  | none | some => rfl

theorem GateWorld.give_counts (lower : Str → Str) (w : GateWorld) (now : Int)
    (h : HandBack) :
    ∃ gate recovered, w.give lower now h = { w with gate, recovered } ∧
      ∀ key, gate.active.count key = w.gate.active.count key - keyed lower key h.slot?.toList := by
  cases h with
  | slot target =>
    refine ⟨w.gate.releaseRemediation lower target, w.recovered, rfl, fun key => ?_⟩
    rw [Gate.releaseRemediation, KeyMap.count_release]
    show _ = _ - keyed lower key [target]
    simp only [keyed_singleton, eq_comm]
  | step =>
    refine ⟨_, w.recovered, rfl, fun key => ?_⟩
    rw [Gate.stepDone_active]
    rfl
  | recovered =>
    rw [give]
    split
    · refine ⟨_, _, rfl, fun key => ?_⟩
      rw [Gate.stepDone_active]
      rfl
    · exact ⟨w.gate, w.recovered, rfl, fun key => rfl⟩

theorem GateInv.handBack
    (hinv : GateInv lower w) {i : Nat} {h : HandBack} (hi : w.releasing[i]? = some h) (now : Int) :
    GateInv lower { w.give lower now h with releasing := w.releasing.eraseIdx i } := by
  obtain ⟨_, _, hgive, hcounts⟩ := w.give_counts lower now h
  rw [hgive]
  refine ⟨hinv.hold, hinv.pins, fun hr => ⟨(hinv.early hr).1, fun hb hhb => ?_⟩, fun key => ?_⟩
  · exact (hinv.early hr).2 hb (List.mem_of_mem_eraseIdx hhb)
  have hbef := hinv.balance key
  have herase := keyed_eraseIdx lower key hi
  have hc := hcounts key
  simp only [claimed, unseeded, returning, keyed_append] at hbef ⊢
  cases hr : w.rebuild with
  | done =>
    -- a slot that is handed back was counted
    simp only [hr, keyed_nil] at hbef ⊢
    omega
  | _ =>
    have hn : h.slot? = none := (hinv.early (by simp [hr])).2 h (List.mem_of_getElem? hi)
    rw [hn] at herase hc
    simp only [hr, Option.toList_none, keyed_nil] at hbef herase hc ⊢
    omega

theorem GateWorld.seed_counts (lower : Str → Str) (w : GateWorld) (inc : Incident) :
    ∃ gate recovered, w.seed lower inc = { w with gate, recovered } ∧
      ∀ key, gate.active.count key = w.gate.active.count key + keyed lower key [inc.target] := by
  have hc : ∀ key, (w.gate.occupyRemediation lower inc.target).active.count key =
      w.gate.active.count key + keyed lower key [inc.target] := by
    intro key
    rw [Gate.occupyRemediation, KeyMap.count_acquire]
    simp only [keyed_singleton, eq_comm]
  simp only [seed]
  split_ifs
  · refine ⟨_, _, rfl, fun key => ?_⟩
    rw [Gate.occupyStep_active]
    exact hc key
  · exact ⟨_, _, rfl, hc⟩

theorem GateInv.rebuildSeed (hi : GateInv lower w) {rest : List Incident}
    (hr : w.rebuild = .seeding (inc :: rest)) :
    GateInv lower { w.seed lower inc with rebuild := .seeding rest } := by
  obtain ⟨_, _, hs, hcounts⟩ := w.seed_counts lower inc
  rw [hs]
  refine ⟨hi.hold, hi.pins, fun _ => hi.early (by simp [hr]), fun key => ?_⟩
  have hb := hi.balance key
  have hc := hcounts key
  simp only [claimed, unseeded, returning, hr, List.map_cons] at hb ⊢
  rw [← List.singleton_append, keyed_append] at hb
  omega

/-- **One operation** leaves the process alone or is one of its steps, and keeps the balance. -/
theorem gateNext_keeps {w' : GateWorld} {op : GateOp} (h : gateNext lower w sha op = some w') :
    (w'.process = w.process ∨ ∃ op, WalkStep sha w.process op w'.process) ∧
      (GateInv lower w → w.process.writers.stamps.Nodup → RebuildUndisturbed w op →
        GateInv lower w') := by
  revert h
  fun_cases gateNext lower w sha op with
  | case1 op =>
    intro h
    obtain ⟨hserv, _, hs, hw⟩ := gateWalk_of_walkNext h
    cases hw with
    | admission _ _ hop hg =>
      subst hop
      refine ⟨.inr ⟨_, hs⟩, fun hinv hnd _ => hinv.admission hnd hs (hserv.resolve_right ?_) hg⟩
      exact Bool.false_ne_true
    | other ha ht =>
      exact ⟨.inr ⟨op, hs⟩, fun hinv hnd hcalm => hinv.walk hnd hs hserv hcalm ha ht⟩
  | case2 i now =>
    intro h
    obtain ⟨hb, hi, rfl⟩ := Option.map_eq_some_iff.1 h
    obtain ⟨_, _, hgive, -⟩ := w.give_counts lower now hb
    refine ⟨.inl ?_, fun hinv _ _ => hinv.handBack hi now⟩
    rw [hgive]
  | case3 hreb =>
    rintro ⟨⟩
    refine ⟨.inl rfl, fun hinv _ _ => { hinv with early := ?_, balance := fun key => ?_ }⟩
    · exact fun _ => hinv.early (by simp [hreb])
    · have hbef := hinv.balance key
      rw [unseeded, hreb] at hbef
      exact hbef
  | case5 inc rest hreb =>
    rintro ⟨⟩
    obtain ⟨_, _, hseed, -⟩ := w.seed_counts lower inc
    refine ⟨.inl ?_, fun hinv _ _ => hinv.rebuildSeed hreb⟩
    rw [hseed]
  | case6 hreb =>
    rintro ⟨⟩
    refine ⟨.inl rfl, fun hinv _ _ => { hinv with early := ?_, balance := fun key => ?_ }⟩
    · exact fun hd => absurd rfl hd
    · have hbef := hinv.balance key
      rw [unseeded, hreb] at hbef
      exact hbef
  | case8 i inc step cfg hr =>
    rintro ⟨⟩
    refine ⟨.inl rfl, fun hinv _ _ => { hinv with pins := fun pin hpin => ?_ }⟩
    obtain _ | ⟨_, hold⟩ := hpin
    · exact hinv.hold.running _ (List.mem_of_getElem? hr)
    · exact hinv.pins pin hold
  | case11 id =>
    rintro ⟨⟩
    refine ⟨.inl rfl, fun hinv _ _ => { hinv with pins := fun pin hpin => ?_ }⟩
    exact hinv.pins pin (List.mem_filter.1 hpin).1
  | case12 | case13 =>
    rintro ⟨⟩
    exact ⟨.inl rfl, fun hinv _ _ => hinv.same_counts rfl⟩
  | case14 now target action cooldown =>
    rintro ⟨⟩
    refine ⟨.inl rfl, fun hinv _ _ => hinv.same_counts ?_⟩
    rw [Gate.recordCooldown]
    split_ifs <;> rfl
  | case15 cfg =>
    intro h
    obtain ⟨_, hp, rfl⟩ := Option.map_eq_some_iff.1 h
    have hs := walkStep_of_next hp
    cases hp
    refine ⟨.inr ⟨_, hs⟩,
      fun hinv hnd _ => ⟨hinv.hold.step hnd hs, ?_, fun _ => ⟨rfl, ?_⟩, fun key => ?_⟩⟩
    · intro pin hpin
      cases hpin
    · intro hb hhb
      cases hhb
    -- everything is still to be seeded
    show 0 + keyed lower key (slotTargets w.process.records.db.incidents) =
      keyed lower key (slotTargets w.process.records.db.incidents ++ [] ++ [])
    rw [List.append_nil, List.append_nil, Nat.zero_add]
  | _ => rintro ⟨⟩

/-! ## Runs -/

theorem gateInv_start (lower : Str → Str) (cfg : RuntimeConfig) (limits : Limits) :
    GateInv lower (.start .empty cfg limits) := by
  refine ⟨holdInv_start cfg, ?_, fun _ => ⟨rfl, ?_⟩, fun key => rfl⟩
  · intro pin hp
    cases hp
  · intro hb hhb
    cases hhb

theorem gateInv_exec {cfg : RuntimeConfig} {limits : Limits} {ops : List GateOp}
    (hcalm : Along (fun w => gateNext lower w sha) RebuildUndisturbed
      (.start .empty cfg limits) ops)
    (hr : exec (fun w => gateNext lower w sha) (.start .empty cfg limits) ops = some w) :
    w.process.writers.stamps.Nodup → GateInv lower w := by
  have hi : ThreadInv w.process ∧ (w.process.writers.stamps.Nodup → GateInv lower w) := by
    refine exec_invariant_along (P := fun w => ThreadInv w.process ∧
        (w.process.writers.stamps.Nodup → GateInv lower w)) ?_ ?_ hcalm hr
    · rintro _ _ _ ⟨ht, hi⟩ hok hn
      obtain ⟨he | ⟨_, hs⟩, hk⟩ := gateNext_keeps hn
      · rw [he]
        exact ⟨ht, fun hnd => hk (hi hnd) hnd hok⟩
      -- the instants of before are among the instants of after
      refine ⟨ht.step hs, fun hnd => ?_⟩
      obtain ⟨_, hm⟩ := hs.stamps_grow ht
      rw [hm] at hnd
      have hb := (List.nodup_append.1 hnd).2.1
      exact hk (hi hb) hb hok
    · have hstart := gateInv_start lower cfg limits
      exact ⟨hstart.hold.threads, fun _ => hstart⟩
  exact hi.2

/-- Nothing is under way: the gate is rebuilt, no slot is about to be handed back, and no start was
admitted that has not committed. -/
def GateWorld.Settled (w : GateWorld) : Prop :=
  w.rebuild = .done ∧ w.returning = [] ∧ w.process.pass.any Pass.starts = false

instance decidableSettled (w : GateWorld) : Decidable w.Settled := by
  unfold GateWorld.Settled
  infer_instance

/-- **The gate counts the slots of the store.** Whenever nothing is under way, the count of a key is
the number of active incidents with that key that hold a slot. -/
theorem slots_counted {sha lower : Str → Str} {cfg : RuntimeConfig} {limits : Limits}
    {ops : List GateOp} {w : GateWorld}
    (hcalm : Along (fun w => gateNext lower w sha) RebuildUndisturbed
      (.start .empty cfg limits) ops)
    (hrun : exec (fun w => gateNext lower w sha) (.start .empty cfg limits) ops = some w)
    (hnodup : w.process.writers.stamps.Nodup) (hsettled : w.Settled) (key : Str) :
    w.gate.active.count key = slotHolders lower key w.process.records.db.incidents := by
  obtain ⟨hdone, hreturning, hpass⟩ := hsettled
  have hbalance := (gateInv_exec hcalm hrun hnodup).balance key
  have hreserving : w.process.reserving = [] := by
    apply reserving_eq_nil
    intro p hp
    rw [hp] at hpass
    exact hpass
  rw [unseeded, hdone, claimed, hreturning, hreserving, keyed_append,
    keyed_append, keyed_nil] at hbalance
  rw [slotHolders_eq]
  exact hbalance

/-! ## A rebuild that is disturbed -/

def sampleLimits : Limits := ⟨1, 1⟩

/-- The sample incident has its one step done and is being verified when a new process takes
over. -/
def takeOverOps : List GateOp :=
  [.rebuildList, .rebuildSeed] ++ (openingOps ++ startOps 3 ++ finishOps 4).map .walk ++
    [.handBack 0 4, .restart (sampleConfig [cordonStep]) sampleLimits false .empty]

/-- The new process rebuilds its gate: the slot of the incident is counted once. -/
theorem slots_counted_of_rebuild :
    ∃ w, exec (fun w => gateNext id w id) (.start .empty (sampleConfig [cordonStep]) sampleLimits)
        (takeOverOps ++ [.rebuildList, .rebuildSeed, .rebuildSeed]) = some w ∧
      w.Settled ∧ slotHolders id (lit "n1") w.process.records.db.incidents = 1 ∧
      w.gate.active.count (lit "n1") = 1 := by
  refine reached (by decide +kernel) fun w hw (hrun : w.process.writers.stamps.Nodup ∧ w.Settled ∧
    slotHolders id (lit "n1") w.process.records.db.incidents = 1) => ?_
  obtain ⟨hnodup, hsettled, hholders⟩ := hrun
  have hcount := slots_counted (by decide +kernel) hw hnodup hsettled (lit "n1")
  exact ⟨hsettled, hholders, hcount.trans hholders⟩

/-- An operator resolves the incident after the new process listed the slots and before it occupies
them. The resolution hands back a slot the gate does not count yet, and the slot that is then
occupied is nobody's. -/
theorem resolution_leaks_slot :
    ∃ w, exec (fun w => gateNext id w id) (.start .empty (sampleConfig [cordonStep]) sampleLimits)
        (takeOverOps ++ [.rebuildList, .walk (.operatorRead (lit "inc-1")),
          .walk (.operatorResolve 0 (lit "alice") (lit "replaced") 6 false), .handBack 0 6,
          .rebuildSeed, .rebuildSeed]) = some w ∧
      w.process.writers.stamps.Nodup ∧ w.Settled ∧
      slotHolders id (lit "n1") w.process.records.db.incidents = 0 ∧
      w.gate.active.count (lit "n1") = 1 := by
  decide +kernel

end KubeNeuron.Controller
