import KubeNeuron.Store.ActionSafety

/-!
# The fence between polls and emergency stops

`NextAction` holds the read side of `dispatchMu` through the two statements of its claim;
`SetPaused` and `InstallRuntimeConfigContext` hold the write side. `FenceWorld` interleaves any
number of polls with one change at a time, cut at every read of a flag and at every store call. An
action is handed out by the statement that leases it (`stop_holds`).
-/

namespace KubeNeuron.Controller

open Lib KubeNeuron.Types Store

/-! ## The world -/

/-- Where a poll is. It holds the read side of the lock. -/
inductive Poll where
  | entered
  /-- It has read the flags. -/
  | checked (stopped : Bool)
  /-- Its claim has captured token and time. -/
  | claiming (c : ClaimCall)
  /-- The first statement of its claim has run. -/
  | leasing (c : ClaimCall)

/-- Where a change is. It holds the write side of the lock. -/
inductive Change where
  /-- `SetPaused(true)` before its flag is persisted, and before its sweep. -/
  | pausing
  | paused
  /-- `SetPaused(false)` before its sweep, and before its flag is persisted. -/
  | resuming
  | swept
  /-- An install with the mode it leads to, before its first sweep and before it is stored. -/
  | installing (mode : Option Bool)
  | storing (mode : Option Bool)
  /-- An install before its last sweep. -/
  | installed
  deriving DecidableEq

/-- What happened, as far as the fence is concerned. -/
inductive FenceEvent where
  /-- A pause or an install of a dry-run configuration returned success. -/
  | stopped
  /-- A resume or an install of another configuration returned success. -/
  | released
  /-- A sweep ran. The serials are those of the rows it met without an unexpired lease, host
  restores excepted. -/
  | swept (serials : List Nat)
  /-- An action was handed out. -/
  | handed (row : ActionRow)
  deriving DecidableEq

/-- The queue, the flag of the gate, the mode of the installed limits if there are any, the polls
and the change under way, and what happened, newest first. -/
structure FenceWorld where
  store : World
  paused : Bool
  mode : Option Bool
  polls : List Poll
  change : Option Change
  log : List FenceEvent

def FenceWorld.start (clock : Nat) (paused : Bool) (mode : Option Bool) : FenceWorld :=
  ⟨.start clock, paused, mode, [], none, []⟩

inductive FenceOp where
  | enter
  | check (i : Nat)
  | claim (i : Nat) (c : ClaimCall)
  | deadLetter (i : Nat)
  | lease (i : Nat)
  | leave (i : Nat)
  | pause
  | resume
  | install (limits : Option Bool)
  /-- The change makes its next store call, at a time it read. -/
  | advance (now : Nat) (fault : StoreFault)
  /-- Somebody else's statement on the queue, or the clock. -/
  | queue (op : Op)

def claimStatement : Op → Bool
  | .beginClaim _ | .deadLetter _ | .lease _ => true
  | _ => false

namespace FenceWorld

variable (w : FenceWorld)

/-- `agentDispatchStopped`. -/
def stopped : Bool := w.paused || w.mode = some true

/-- The type a claim is restricted to. -/
def onlyType (stopped : Bool) : Str := if stopped then actionRestoreAcceleratorHost else []

/-- The rows that are not executing and not restores. -/
def undelivered (now : Nat) (r : ActionRow) : Bool :=
  r.type ≠ actionRestoreAcceleratorHost && !held now r

/-- `cancelUndeliveredActionsForSafetyStop`, as far as it took effect. -/
def sweep (now : Nat) : Option FenceWorld :=
  (next w.store (.cancelPendingActionsForSafetyStop now)).map fun store =>
    { w with store, log := .swept (serialsWhere (undelivered now) w.store.db) :: w.log }

/-- A sweep, and what follows it when it succeeds. -/
def sweepThen (now : Nat) (fault : StoreFault) (rest : FenceWorld → FenceWorld) :
    Option FenceWorld :=
  match fault with
  | .none => (w.sweep now).map rest
  | .failed true => (w.sweep now).map fun w => { w with change := none }
  | .failed false => some { w with change := none }

/-- The change returns success. -/
def succeed (event : FenceEvent) : FenceWorld :=
  { w with change := none, log := event :: w.log }

/-- The event of an install that returned success. -/
def installEvent : FenceEvent := if w.mode = some true then .stopped else .released

/-- The next store call of the change. -/
def advance (now : Nat) (fault : StoreFault) : Change → Option FenceWorld
  | .pausing =>
    match fault with
    | .none => some { w with paused := true, change := some .paused }
    | .failed _ => some { w with change := none }
  | .paused => w.sweepThen now fault fun w => w.succeed .stopped
  | .resuming => w.sweepThen now fault fun w => { w with change := some .swept }
  | .swept =>
    match fault with
    | .none => some ({ w with paused := false }.succeed .released)
    | .failed _ => some { w with change := none }
  | .installing mode =>
    -- the sweep before the dry-run mode is left
    if w.mode = some true ∧ mode ≠ some true then
      w.sweepThen now fault fun w => { w with change := some (.storing mode) }
    else some { w with change := some (.storing mode) }
  | .storing mode =>
    -- the sweep after the dry-run mode is entered, or under a pause
    if (w.mode ≠ some true ∧ mode = some true) ∨ w.paused then
      some { w with mode, change := some .installed }
    else
      let w := { w with mode }
      some (w.succeed w.installEvent)
  | .installed => w.sweepThen now fault fun w => w.succeed w.installEvent

def turn (i : Nat) (p : Poll) : FenceWorld := { w with polls := w.polls.set i p }

/-- A change begins: no poll and no other change is under way. -/
def begin (c : Change) : Option FenceWorld :=
  if w.polls = [] ∧ w.change = none then some { w with change := some c } else none

end FenceWorld

def fenceNext (w : FenceWorld) : FenceOp → Option FenceWorld
  | .enter => if w.change = none then some { w with polls := .entered :: w.polls } else none
  | .check i =>
    match w.polls[i]? with
    | some .entered => some (w.turn i (.checked w.stopped))
    | _ => none
  | .claim i c =>
    match w.polls[i]? with
    | some (.checked stopped) =>
      if c.onlyType = FenceWorld.onlyType stopped then
        (next w.store (.beginClaim c)).map fun store =>
          { w.turn i (.claiming c) with store }
      else none
    | _ => none
  | .deadLetter i =>
    match w.polls[i]? with
    | some (.claiming c) =>
      (next w.store (.deadLetter c)).map fun store => { w.turn i (.leasing c) with store }
    | _ => none
  | .lease i =>
    match w.polls[i]? with
    | some (.leasing c) =>
      (next w.store (.lease c)).map fun store =>
        { w with
          store
          polls := w.polls.eraseIdx i
          log := ((leaseCandidate c w.store.db).2.map FenceEvent.handed).toList ++ w.log }
    | _ => none
  | .leave i => if i < w.polls.length then some { w with polls := w.polls.eraseIdx i } else none
  | .pause => w.begin .pausing
  | .resume => w.begin .resuming
  | .install limits => w.begin (.installing (limits.or w.mode))
  | .advance now fault => w.change.bind (w.advance now fault)
  | .queue op =>
    if claimStatement op then none else (next w.store op).map fun store => { w with store }

/-! ## The order of events -/

/-- The last stop has not been released. -/
def unreleased : List FenceEvent → Bool
  | [] => false
  | .stopped :: _ => true
  | .released :: _ => false
  | _ :: log => unreleased log

theorem unreleased_of_stop {middle earlier : List FenceEvent} (h : .released ∉ middle) :
    unreleased (middle ++ .stopped :: earlier) = true := by
  induction middle with
  | nil => rfl
  | cons e _ ih =>
    have ht := ih fun hm => h (List.mem_cons_of_mem e hm)
    cases e with
    | stopped => rfl
    | released => exact absurd (.head _) h
    | swept | handed => exact ht

/-- What was handed out agrees with what had happened before: only restores under a stop, and no row
that a sweep had met. -/
def Orderly (log : List FenceEvent) : Prop :=
  ∀ later earlier row, log = later ++ .handed row :: earlier →
    (unreleased earlier = true → row.type = actionRestoreAcceleratorHost) ∧
      ∀ serials, .swept serials ∈ earlier → row.serial ∉ serials

theorem Orderly.cons {log : List FenceEvent} (h : Orderly log) {e : FenceEvent}
    (he : ∀ row, e = .handed row →
      (unreleased log = true → row.type = actionRestoreAcceleratorHost) ∧
        ∀ serials, .swept serials ∈ log → row.serial ∉ serials) : Orderly (e :: log) := by
  intro later earlier row hl
  cases later with
  | nil =>
    cases hl
    exact he row rfl
  | cons _ later => exact h later earlier row (List.cons.inj hl).2

/-! ## The invariant -/

/-- The poll claims restores only. -/
def Poll.Restrained : Poll → Prop
  | .entered => True
  | .checked stopped => stopped = true
  | .claiming c | .leasing c => c.onlyType = actionRestoreAcceleratorHost

/-- The invariant: a change excludes polls, a stop that was not released is in force, under it every
poll is restrained, and what a sweep met is finished. -/
structure FenceInv (w : FenceWorld) : Prop where
  store : w.store.Inv
  exclusive : w.change.isSome = true → w.polls = []
  paused : w.change = some .paused → w.paused = true
  inForce : unreleased w.log = true → w.stopped = true
  restrained : unreleased w.log = true → ∀ p ∈ w.polls, p.Restrained
  swept : ∀ serials, .swept serials ∈ w.log → ∀ k ∈ serials, w.store.queue.Finished k
  orderly : Orderly w.log

theorem fenceInv_start (clock : Nat) (paused : Bool) (mode : Option Bool) :
    FenceInv (.start clock paused mode) where
  store := World.inv_start clock
  exclusive := fun _ => rfl
  paused := nofun
  inForce := nofun
  restrained := nofun
  swept := nofun
  orderly := by
    intro later earlier row hl
    cases later with
    | nil | cons => cases hl

theorem finished_next {w w' : World} {op : Op} (hinv : w.Inv) (h : next w op = some w') {k : Nat}
    (hk : w.queue.Finished k) : w'.queue.Finished k :=
  ((next_effect hinv.2 hinv.1.ids h).finished hinv.1 hk).1

variable {w w' : FenceWorld} {now : Nat}

theorem FenceInv.onStore (hinv : FenceInv w) {op : Op} {store : World}
    (h : next w.store op = some store) {polls : List Poll}
    (he : w.polls = [] → polls = [])
    (hrestr : unreleased w.log = true → ∀ p ∈ polls, p.Restrained) :
    FenceInv { w with store, polls } :=
  { hinv with
    store := next_inv _ _ _ hinv.store h
    exclusive := fun hc => he (hinv.exclusive hc)
    restrained := hrestr
    swept := fun serials hm k hk => finished_next hinv.store h (hinv.swept serials hm k hk) }

theorem finished_of_sweep {w w' : World} (hinv : w.Inv)
    (h : next w (.cancelPendingActionsForSafetyStop now) = some w') :
    ∀ k ∈ serialsWhere (FenceWorld.undelivered now) w.db, w'.queue.Finished k := by
  intro k hk
  obtain ⟨r, hr, rfl⟩ := List.mem_map.1 hk
  obtain ⟨hr, hund⟩ := List.mem_filter.1 hr
  have hinv' := next_inv _ _ _ hinv h
  obtain ⟨-, rfl⟩ := guarded h
  simp only [FenceWorld.undelivered, Bool.and_eq_true, decide_eq_true_eq] at hund
  -- the row is cancelled by the sweep, or it was terminal before
  by_cases hi : claimable now r = true
  · have hm : ActionRow.tombstone .cancelled now r ∈
        (cancelPendingActionsForSafetyStop now w.db).actions := by
      refine mem_updateWhere.2 ⟨r, hr, .inl ⟨?_, rfl⟩⟩
      simp only [idleNotRestore, Bool.and_eq_true, decide_eq_true_eq]
      exact ⟨hund.1, hi⟩
    have hfin := finished_of_terminal hinv' hm rfl
    exact hfin
  · have hm : r ∈ (cancelPendingActionsForSafetyStop now w.db).actions := by
      refine mem_updateWhere.2 ⟨r, hr, .inr ⟨?_, rfl⟩⟩
      simp [idleNotRestore, hi]
    refine finished_of_terminal hinv' hm ?_
    have hh := hund.2
    simp only [claimable, held] at hi hh
    cases hst : r.state <;> simp_all [ActionState.terminal]

section

variable (hinv : FenceInv w)
include hinv

theorem FenceInv.sweep (h : w.sweep now = some w') :
    FenceInv w' ∧ w'.paused = w.paused ∧ w'.mode = w.mode ∧ w'.change = w.change ∧
      w'.polls = w.polls := by
  obtain ⟨store, hs, rfl⟩ := Option.map_eq_some_iff.1 h
  refine ⟨?_, rfl, rfl, rfl, rfl⟩
  refine { hinv with
    store := next_inv _ _ _ hinv.store hs
    swept := fun serials hm k hk => ?_
    orderly := hinv.orderly.cons nofun }
  rcases List.mem_cons.1 hm with heq | hm
  · cases heq
    exact finished_of_sweep hinv.store hs k hk
  · exact finished_next hinv.store hs (hinv.swept serials hm k hk)

theorem FenceInv.setChange (hp : w.polls = [])
    {paused : Bool} {mode : Option Bool} {change : Option Change}
    (hforce : w.stopped = true → (paused || mode = some true) = true)
    (hpau : change = some .paused → paused = true) :
    FenceInv { w with paused, mode, change } :=
  { hinv with
    exclusive := fun _ => hp
    paused := hpau
    inForce := fun hl => hforce (hinv.inForce hl) }

theorem FenceInv.succeed (hl : w.polls = []) {paused : Bool} {mode : Option Bool}
    {event : FenceEvent}
    (hev : event = .released ∨ (event = .stopped ∧ (paused || mode = some true) = true)) :
    FenceInv ({ w with paused, mode }.succeed event) where
  store := hinv.store
  exclusive := nofun
  paused := nofun
  inForce := by
    intro hg
    rcases hev with rfl | ⟨rfl, hforce⟩
    · cases hg
    · exact hforce
  restrained := by
    intro _ p hp
    have hn : p ∈ w.polls := hp
    rw [hl] at hn
    cases hn
  swept := by
    intro serials hm
    rcases List.mem_cons.1 hm with heq | hm
    · rcases hev with rfl | ⟨rfl, -⟩ <;> cases heq
    · exact hinv.swept serials hm
  orderly := by
    apply hinv.orderly.cons
    intro row hr
    rcases hev with rfl | ⟨rfl, -⟩ <;> cases hr

theorem FenceInv.sweepThen (hp : w.polls = []) {fault : StoreFault} {rest : FenceWorld → FenceWorld}
    (ht : ∀ w1, FenceInv w1 → w1.polls = [] → w1.paused = w.paused → w1.mode = w.mode →
      FenceInv (rest w1)) (h : w.sweepThen now fault rest = some w') : FenceInv w' := by
  have hd : ∀ w1, FenceInv w1 → w1.polls = [] → FenceInv { w1 with change := none } := by
    intro w1 hinv1 hp1
    exact hinv1.setChange hp1 (fun hs => hs) nofun
  unfold FenceWorld.sweepThen at h
  split at h
  · obtain ⟨w1, hsweep, rfl⟩ := Option.map_eq_some_iff.1 h
    obtain ⟨hinv1, hpau, hm, -, he⟩ := hinv.sweep hsweep
    exact ht w1 hinv1 (he.trans hp) hpau hm
  · obtain ⟨w1, hsweep, rfl⟩ := Option.map_eq_some_iff.1 h
    obtain ⟨hinv1, -, -, -, he⟩ := hinv.sweep hsweep
    exact hd w1 hinv1 (he.trans hp)
  · cases h
    exact hd w hinv hp

end

theorem installEvent_reports (w : FenceWorld) : w.installEvent = .released ∨
      (w.installEvent = .stopped ∧ (w.paused || w.mode = some true) = true) := by
  rw [FenceWorld.installEvent]
  split_ifs with hm
  · right
    refine ⟨rfl, ?_⟩
    simp [hm]
  · exact .inl rfl

/-- **One store call of a change keeps the invariant.** -/
theorem FenceInv.advance (hinv : FenceInv w) {fault : StoreFault}
    {c : Change} (hc : w.change = some c) (h : w.advance now fault c = some w') :
    FenceInv w' := by
  have hp : w.polls = [] := hinv.exclusive (by rw [hc]; rfl)
  have hstay : ∀ w1 change, FenceInv w1 → w1.polls = [] →
      change ≠ some .paused → FenceInv { w1 with change } := by
    intro w1 change hinv1 hp1 hne
    exact hinv1.setChange hp1 (fun hs => hs) fun heq => absurd heq hne
  revert h
  fun_cases FenceWorld.advance w now fault c with
  | case1 =>
    rintro ⟨⟩
    exact hinv.setChange hp (fun _ => rfl) fun _ => rfl
  | case2 | case6 | case8 =>
    rintro ⟨⟩
    exact hstay w _ hinv hp (by simp)
  | case3 =>
    refine hinv.sweepThen hp fun w1 hinv1 hp1 hpau1 _ => hinv1.succeed hp1 (.inr ⟨rfl, ?_⟩)
    rw [hpau1, hinv.paused hc]
    rfl
  | case4 | case7 =>
    exact hinv.sweepThen hp fun w1 hinv1 hp1 _ _ => hstay w1 _ hinv1 hp1 (by simp)
  | case5 =>
    rintro ⟨⟩
    exact hinv.succeed hp (.inl rfl)
  | case9 _ mode hsweep =>
    -- the last sweep is still to come: the new mode is a stop, or the pause is one
    rintro ⟨⟩
    refine hinv.setChange hp ?_ (by simp)
    rcases hsweep with ⟨-, rfl⟩ | hpau
    · simp
    · simp [hpau]
  | case10 _ mode =>
    rintro ⟨⟩
    exact hinv.succeed hp (installEvent_reports { w with mode })
  | case11 =>
    exact hinv.sweepThen hp fun w1 hinv1 hp1 _ _ => hinv1.succeed hp1 (installEvent_reports w1)

theorem leaseCandidate_row {w : World} (hinv : w.Inv) {c : ClaimCall} {row : ActionRow}
    (h : (leaseCandidate c w.db).2 = some row) :
    (c.onlyType = [] ∨ row.type = c.onlyType) ∧ ¬w.queue.Finished row.serial := by
  unfold leaseCandidate at h
  split at h
  · cases h
  rename_i r hcand
  obtain ⟨hr, heligible⟩ := candidate_spec hcand
  obtain ⟨hselects, hf, -⟩ := eligible_iff.1 heligible
  rw [head?_filter_single hr (takes_iff hinv.1.ids hr hf)] at h
  cases h
  constructor
  · simp only [ClaimCall.selects, Bool.and_eq_true, Bool.or_eq_true, decide_eq_true_eq] at hselects
    exact hselects.2
  intro hfin
  have hl := not_terminal_of_claimable hf
  rw [hfin.2 r hr rfl] at hl
  cases hl

theorem restrained_set {polls : List Poll} {i : Nat} {p p' : Poll} (hp : polls[i]? = some p)
    (hn : p.Restrained → p'.Restrained) (h : ∀ q ∈ polls, q.Restrained) :
    ∀ q ∈ polls.set i p', q.Restrained := by
  intro q hq
  rcases List.mem_or_eq_of_mem_set hq with hm | rfl
  · exact h q hm
  · exact hn (h p (List.mem_of_getElem? hp))

/-- **One operation keeps the invariant.** -/
theorem FenceInv.step {op : FenceOp} (hinv : FenceInv w)
    (h : fenceNext w op = some w') : FenceInv w' := by
  have hset : ∀ {i : Nat} {p : Poll}, w.polls = [] → w.polls.set i p = [] :=
    fun hnil => by simp [hnil]
  have herase : ∀ {i : Nat}, w.polls = [] → w.polls.eraseIdx i = [] := fun hnil => by simp [hnil]
  have hbegin : ∀ {c : Change}, c ≠ .paused → w.begin c = some w' → FenceInv w' := by
    intro c hne hbegin
    obtain ⟨hf, rfl⟩ := guarded hbegin
    exact hinv.setChange hf.1 (fun hstop => hstop) fun heq => absurd (Option.some.inj heq) hne
  revert h
  fun_cases fenceNext w op with
  | case1 hf =>
    rintro ⟨⟩
    refine { hinv with
      exclusive := fun hc => ?_
      restrained := fun hg => List.forall_mem_cons.2 ⟨trivial, hinv.restrained hg⟩ }
    rw [show w.change = none from hf] at hc
    cases hc
  | case3 i hpoll =>
    rintro ⟨⟩
    exact { hinv with
      exclusive := fun hc => hset (hinv.exclusive hc)
      restrained := fun hg =>
        restrained_set hpoll (fun _ => hinv.inForce hg) (hinv.restrained hg) }
  | case5 i c stopped hpoll ht =>
    intro h
    obtain ⟨_, ho, rfl⟩ := Option.map_eq_some_iff.1 h
    refine hinv.onStore ho hset fun hg => restrained_set hpoll ?_ (hinv.restrained hg)
    intro hstop
    have hstop : stopped = true := hstop
    rw [hstop] at ht
    exact ht
  | case8 i c hpoll =>
    intro h
    obtain ⟨_, ho, rfl⟩ := Option.map_eq_some_iff.1 h
    exact hinv.onStore ho hset fun hg =>
      restrained_set hpoll (fun hrestr => hrestr) (hinv.restrained hg)
  | case10 i c hpoll =>
    intro h
    obtain ⟨store, ho, rfl⟩ := Option.map_eq_some_iff.1 h
    have hk : FenceInv { w with store, polls := w.polls.eraseIdx i } :=
      hinv.onStore ho herase fun hg p hp => hinv.restrained hg p (List.mem_of_mem_eraseIdx hp)
    cases hw : (leaseCandidate c w.store.db).2 with
    | none => exact hk
    | some row =>
      -- the restraint of the poll and the rows swept so far bound what is handed out
      obtain ⟨ht, hl⟩ := leaseCandidate_row hinv.store hw
      refine { hk with
        swept := fun serials hm => ?_
        orderly := hinv.orderly.cons fun row' heq => ?_ }
      · rcases List.mem_cons.1 hm with heq | hm
        · cases heq
        · exact hk.swept serials hm
      cases heq
      refine ⟨fun hg => ?_, fun serials hm hr => hl (hinv.swept serials hm _ hr)⟩
      have honly : c.onlyType = actionRestoreAcceleratorHost :=
        hinv.restrained hg _ (List.mem_of_getElem? hpoll)
      rcases ht with hn | ht
      · rw [honly] at hn
        exact absurd hn (by decide)
      · exact ht.trans honly
  | case12 i =>
    rintro ⟨⟩
    exact { hinv with
      exclusive := fun hc => herase (hinv.exclusive hc)
      restrained := fun hg p hp => hinv.restrained hg p (List.mem_of_mem_eraseIdx hp) }
  | case14 | case15 => exact hbegin (by decide)
  | case16 => exact hbegin (by simp)
  | case17 =>
    intro h
    obtain ⟨_, hc, hadv⟩ := Option.bind_eq_some_iff.1 h
    exact hinv.advance hc hadv
  | case19 =>
    intro h
    obtain ⟨_, ho, rfl⟩ := Option.map_eq_some_iff.1 h
    exact hinv.onStore ho (fun hnil => hnil) hinv.restrained
  | _ => rintro ⟨⟩

/-- **A stop holds until it is released.** In every interleaving, what is handed out after a stop
that returned success, with no release in between, is a host restore; and no row that a sweep met
without an unexpired lease, restores excepted, is handed out after that sweep. -/
theorem stop_holds {clock : Nat} {paused : Bool} {mode : Option Bool} {ops : List FenceOp}
    {w : FenceWorld} (h : exec fenceNext (.start clock paused mode) ops = some w) :
    (∀ later middle earlier row, w.log = later ++ .handed row :: (middle ++ .stopped :: earlier) →
        .released ∉ middle → row.type = actionRestoreAcceleratorHost) ∧
      ∀ later middle earlier row serials,
        w.log = later ++ .handed row :: (middle ++ .swept serials :: earlier) →
        row.serial ∉ serials := by
  have hinv : FenceInv w :=
    exec_invariant (fun _ _ _ hinv hstep => hinv.step hstep) (fenceInv_start clock paused mode) h
  constructor
  · intro later middle earlier row hlog hmiddle
    exact (hinv.orderly later _ row hlog).1 (unreleased_of_stop hmiddle)
  · intro later middle earlier row serials hlog
    exact (hinv.orderly later _ row hlog).2 serials (List.mem_append_right _ (.head _))

/-- A drain and a host restore of two nodes. -/
def drainAction : Action := ⟨lit "a1", lit "inc-1", lit "drain_node", StrMap.empty, 0⟩

def restoreAction : Action := ⟨lit "r1", [], actionRestoreAcceleratorHost, StrMap.empty, 0⟩

/-- The claim of a poll at time five. -/
def pollClaim (node only : Str) : ClaimCall := ⟨node, [], 60, only, lit "t1", 5⟩

/-- A poll from its lock to its lease. -/
def pollOps (node only : Str) : List FenceOp :=
  [.enter, .check 0, .claim 0 (pollClaim node only), .deadLetter 0, .lease 0]

/-- Work is enqueued and automation is paused; a restore is enqueued and handed out; automation is
resumed, and work that is enqueued afterwards is handed out. -/
def pausedRun : List FenceOp :=
  [.queue (.enqueueAction (lit "n1") drainAction 5), .pause, .advance 5 .none, .advance 5 .none,
    .queue (.enqueueAction (lit "n1") restoreAction 5)] ++
  pollOps (lit "n1") actionRestoreAcceleratorHost ++
  [.resume, .advance 5 .none, .advance 5 .none,
    .queue (.enqueueAction (lit "n2") { drainAction with id := lit "a2" } 5)] ++
  pollOps (lit "n2") []

/-- Under the pause the restore is handed out, and after the resume new work is. -/
theorem restore_handed_under_pause :
    ∃ w later row earlier, exec fenceNext (.start 5 false (some false)) pausedRun = some w ∧
      w.log = later ++ .handed row :: .stopped :: earlier ∧ later.length = 3 ∧
      row.type = actionRestoreAcceleratorHost := by
  simp only [exists_and_left]
  refine reached (by decide +kernel) fun w hexec (hlog : w.log =
    [.handed ((pollClaim (lit "n2") []).lease
        (insertedRow 2 (lit "n2") { drainAction with id := lit "a2" } 5)),
      .released, .swept [0]] ++
    .handed ((pollClaim (lit "n1") actionRestoreAcceleratorHost).lease
      (insertedRow 1 (lit "n1") restoreAction 5)) :: ([] ++ .stopped :: [.swept [0]])) => ?_
  exact ⟨_, _, _, hlog, rfl, (stop_holds hexec).1 _ [] _ _ hlog List.not_mem_nil⟩

end KubeNeuron.Controller
