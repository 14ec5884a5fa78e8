import KubeNeuron.Lib.Run
import KubeNeuron.Store.ActionQueue
import KubeNeuron.Store.Incidents

/-!
# Runs of the action queue

A run interleaves the statements of any number of callers with the passage of time. A claim is two
statements with the time and the token it captured before the first. `next_effect` derives the
effect of every operation once, and every invariant is proved over the six effects (`Effect`).
-/

namespace KubeNeuron.Store

open Lib KubeNeuron.Types

/-! ## Worlds and operations -/

/-- A lease that was issued: the row as the claim returned it, and the incidents at that moment. -/
structure Issued where
  row : ActionRow
  incidents : List Incident

/-- The store, the clock, the claims between their statements, and the history of the queue: the
leases issued and the serials of the rows whose result was written, newest first. -/
structure World where
  db : Database
  clock : Nat
  begun : List ClaimCall
  ready : List ClaimCall
  issued : List Issued
  written : List Nat

/-- The world before the first operation. -/
def World.start (clock : Nat) : World := ⟨Database.empty, clock, [], [], [], []⟩

/-- The operations of a run. -/
inductive Op where
  | tick (d : Nat)
  | insertIncident (row : Incident)
  | updateIncident (inc : Incident)
  | enqueueAction (node : Str) (a : Action) (now : Nat)
  | beginClaim (c : ClaimCall)
  | deadLetter (c : ClaimCall)
  | lease (c : ClaimCall)
  | completeClaimedAction (c : CompleteCall)
  | completeAction (c : CompleteCall)
  | cancelPendingAction (actionID : Str) (now : Nat)
  | cancelPendingActionsForIncident (incidentID : Str) (updatedAt now : Nat)
  | cancelPendingActionsForSafetyStop (now : Nat)
  | discardCompletedAction (actionID : Str)
  | pruneData (now : Nat) (retention : Int)
  | pruneAudit (now : Nat) (retention : Int)

/-- The world after a statement that changed the store. -/
def World.commit (w : World) (db : Database) : World := { w with db }

/-- The serials of the rows that meet `p`. -/
def serialsWhere (p : ActionRow → Bool) (db : Database) : List Nat :=
  (db.actions.filter p).map (·.serial)

/-- One operation. A call that returns an error before its first statement, and a statement the
database refuses, are not enabled. -/
def next (w : World) : Op → Option World
  | .tick d => some { w with clock := w.clock + d }
  | .insertIncident row => (insertIncident row w.db).toOption.map w.commit
  | .updateIncident inc => (updateIncident inc w.db).toOption.map w.commit
  | .enqueueAction node a now =>
    if now ≤ w.clock then some (w.commit (enqueueAction node a now w.db)) else none
  | .beginClaim c =>
    if 0 < c.leaseDuration ∧ c.token ≠ [] ∧ c.now = w.clock then
      some { w with begun := c :: w.begun }
    else none
  | .deadLetter c =>
    if c ∈ w.begun then
      some { w with
        db := deadLetterExhausted c w.db, begun := w.begun.erase c, ready := c :: w.ready }
    else none
  | .lease c =>
    if c ∈ w.ready then
      some { w with
        db := (leaseCandidate c w.db).1
        ready := w.ready.erase c
        issued := ((leaseCandidate c w.db).2.map fun row => ⟨row, w.db.incidents⟩).toList ++
          w.issued }
    else none
  | .completeClaimedAction c =>
    (marshalActionResult c.localOffset c.res).bind fun blob =>
      if c.leaseToken ≠ [] ∧ c.now ≤ w.clock then
        some { w with
          db := c.update blob w.db, written := serialsWhere c.accepts w.db ++ w.written }
      else none
  | .completeAction c =>
    (marshalActionResult c.localOffset c.res).bind fun blob =>
      if c.now ≤ w.clock then
        some { w with
          db := completeAction c.actionID blob c.now w.db
          written := serialsWhere (pendingWithID c.actionID) w.db ++ w.written }
      else none
  | .cancelPendingAction actionID now =>
    if actionID ≠ [] ∧ now ≤ w.clock then some (w.commit (cancelPendingAction actionID now w.db))
    else none
  | .cancelPendingActionsForIncident incidentID updatedAt now =>
    if incidentID ≠ [] ∧ updatedAt ≤ now ∧ now ≤ w.clock then
      some (w.commit (cancelPendingActionsForIncident incidentID updatedAt now w.db))
    else none
  | .cancelPendingActionsForSafetyStop now =>
    if now ≤ w.clock then some (w.commit (cancelPendingActionsForSafetyStop now w.db)) else none
  | .discardCompletedAction actionID => some (w.commit (discardCompletedAction actionID w.db))
  | .pruneData now retention =>
    if 0 < retention ∧ now ≤ w.clock then some (w.commit (pruneData now retention w.db)) else none
  | .pruneAudit now retention =>
    if 0 < retention ∧ now ≤ w.clock then some (w.commit (pruneAudit now retention w.db)) else none

/-! ## The queue and the effects of a step -/

/-- What the invariant is about. -/
structure Queue where
  clock : Nat
  rows : List ActionRow
  inserted : Nat
  issued : List Issued
  written : List Nat

def World.queue (w : World) : Queue := ⟨w.clock, w.db.actions, w.db.inserted, w.issued, w.written⟩

/-- How many leases were issued for the row with the given serial. -/
def Queue.claimCount (q : Queue) (serial : Nat) : Nat :=
  q.issued.countP fun i => i.row.serial = serial

/-- The latest lease issued for the row with the given serial. -/
def Queue.latest (q : Queue) (serial : Nat) : Option Issued :=
  q.issued.find? fun i => i.row.serial = serial

structure ActionRow.Fresh (r : ActionRow) : Prop where
  state : r.state = .pending
  attempts : r.attempts = 0
  token : r.leaseToken = []
  expiry : r.leaseExpiresAtNs = 0
  boot : r.executorBootID = []
  readable : r.Readable

/-- The effects a step can have on the queue. -/
inductive Effect (q : Queue) : Queue → Prop where
  | keep (clock : Nat) (h : q.clock ≤ clock) : Effect q { q with clock }
  | insert (row : ActionRow) (hfresh : row.Fresh) (hserial : row.serial = q.inserted)
      (hid : ∀ r ∈ q.rows, r.id ≠ row.id) :
      Effect q { q with rows := q.rows ++ [row], inserted := q.inserted + 1 }
  | settle (p : ActionRow → Bool) (state : ActionState) (updatedAt : Int)
      (hp : ∀ r ∈ q.rows, p r = true → claimable q.clock r = true)
      (hstate : state = .dead ∨ state = .cancelled) :
      Effect q { q with rows := updateWhere p (ActionRow.tombstone state updatedAt) q.rows }
  | delete (p : ActionRow → Bool) : Effect q { q with rows := deleteWhere p q.rows }
  | finish (p : ActionRow → Bool) (blob : Str) (updatedAt : Int)
      (hp : ∀ r ∈ q.rows, p r = true → r.state.terminal = false)
      (hblob : ∃ lo res, marshalActionResult lo res = some blob) :
      Effect q { q with
        rows := updateWhere p (ActionRow.finish blob updatedAt) q.rows
        written := (q.rows.filter p).map (·.serial) ++ q.written }
  | lease (c : ClaimCall) (r : ActionRow) (incidents : List Incident) (hr : r ∈ q.rows)
      (hnow : c.now ≤ q.clock) (hduration : 0 < c.leaseDuration) (htoken : c.token ≠ [])
      (hfree : claimable c.now r = true) (hattempts : r.attempts < maxActionAttempts)
      (hheld : ∀ s ∈ q.rows, s.node = r.node → held c.now s = false)
      (hhalted : incidentHalted incidents r = false) :
      Effect q { q with
        rows := updateWhere (c.takes r.id) c.lease q.rows
        issued := ⟨c.lease r, incidents⟩ :: q.issued }

/-! ## Every operation has one of the effects -/

/-- The claims between their statements captured a time that is not after the clock, a positive
duration and a token. -/
def World.CallsOk (w : World) : Prop :=
  ∀ c, c ∈ w.begun ∨ c ∈ w.ready → c.now ≤ w.clock ∧ 0 < c.leaseDuration ∧ c.token ≠ []

variable {clock now : Nat} {r : ActionRow} {db : Database} {c : ClaimCall} {rows : List ActionRow}
  {w : World}

theorem claimable_mono (h : now ≤ clock) (hr : claimable now r = true) :
    claimable clock r = true := by
  simp only [claimable, Bool.or_eq_true, Bool.and_eq_true, decide_eq_true_eq] at hr ⊢
  rcases hr with hr | ⟨hl, _⟩
  · exact .inl hr
  · exact .inr ⟨hl, by omega⟩

theorem held_mono (h : now ≤ clock) (hr : held clock r = true) : held now r = true := by
  simp only [held, Bool.and_eq_true, decide_eq_true_eq] at hr ⊢
  exact ⟨hr.1, by omega⟩

theorem not_terminal_of_claimable (h : claimable now r = true) : r.state.terminal = false := by
  simp only [claimable, Bool.or_eq_true, Bool.and_eq_true, decide_eq_true_eq] at h
  rcases h with h | ⟨h, -⟩ <;> rw [h] <;> rfl

theorem enqueueAction_effect (node : Str) (a : Action) (now : Nat) (w : World) :
    Effect w.queue (w.commit (enqueueAction node a now w.db)).queue := by
  rw [enqueueAction]
  split_ifs with hdup
  · exact Effect.keep w.clock (Nat.le_refl _)
  simp only [List.any_eq_true, decide_eq_true_eq, not_exists, not_and] at hdup
  refine Effect.insert _ ⟨rfl, rfl, rfl, rfl, rfl, ⟨⟨a.params, rfl⟩, .inl rfl⟩⟩ rfl ?_
  exact fun r hr => hdup r hr

theorem nodup_enqueueAction {node : Str} {a : Action} (h : (db.actions.map (·.id)).Nodup) :
    ((enqueueAction node a now db).actions.map (·.id)).Nodup := by
  rw [enqueueAction]
  split_ifs with hdup
  · exact h
  · exact nodup_map_insert h (by simpa [insertedRow] using hdup)

theorem eligible_iff : eligible c db r = true ↔ c.selects r = true ∧ claimable c.now r = true ∧
      r.attempts < maxActionAttempts ∧
      (∀ s ∈ db.actions, s.node = r.node → held c.now s = false) ∧
      incidentHalted db.incidents r = false := by
  simp [eligible, and_assoc]

theorem candidate_spec (h : candidate c db = some r) : r ∈ db.actions ∧ eligible c db r = true :=
  List.mem_filter.1 (firstBy_mem h)

theorem takes_iff (hi : (rows.map (·.id)).Nodup) (hr : r ∈ rows) (hf : claimable c.now r = true) :
    ∀ s ∈ rows, (c.takes r.id s = true ↔ s = r) := by
  refine iff_eq_of_key hi hr (by simpa [ClaimCall.takes] using hf) fun s hs => ?_
  exact of_decide_eq_true (Bool.and_eq_true_iff.1 hs).1

theorem held_eq_false_of_terminal (h : r.state.terminal = true) : held now r = false := by
  cases hs : r.state <;> simp_all [held, ActionState.terminal]

theorem mem_of_held_updateWhere {p : ActionRow → Bool} {f : ActionRow → ActionRow}
    (hf : ∀ r, (f r).state.terminal = true) (hr : r ∈ updateWhere p f rows)
    (hh : held now r = true) : r ∈ rows := by
  obtain ⟨s, hs, ⟨-, rfl⟩ | ⟨-, rfl⟩⟩ := mem_updateWhere.1 hr
  · rw [held_eq_false_of_terminal (hf s)] at hh
    cases hh
  · exact hs

/-- No two rows of a node are under a live lease. -/
def SingleHeld (clock : Nat) (rows : List ActionRow) : Prop :=
  ∀ r ∈ rows, ∀ s ∈ rows, r.node = s.node → held clock r = true → held clock s = true → r = s

theorem SingleHeld.mono (h : SingleHeld now rows)
    (hle : now ≤ clock) : SingleHeld clock rows := fun r hr s hs hn h1 h2 =>
  h r hr s hs hn (held_mono hle h1) (held_mono hle h2)

theorem SingleHeld.of_held {rows' : List ActionRow} (h : SingleHeld clock rows)
    (hh : ∀ r ∈ rows', held clock r = true → r ∈ rows) : SingleHeld clock rows' :=
  fun r hr s hs hn h1 h2 => h r (hh r hr h1) s (hh s hs h2) hn h1 h2

theorem SingleHeld.lease (h : SingleHeld clock rows) (hi : (rows.map (·.id)).Nodup) (hr : r ∈ rows)
    (hw : c.now ≤ clock) (hf : claimable c.now r = true)
    (hd : ∀ s ∈ rows, s.node = r.node → held c.now s = false) :
    SingleHeld clock (updateWhere (c.takes r.id) c.lease rows) := by
  have hm : ∀ s, s ∈ updateWhere (c.takes r.id) c.lease rows ↔
      s = c.lease r ∨ (s ∈ rows ∧ s ≠ r) := fun s =>
    mem_updateWhere_single hr (takes_iff hi hr hf)
  have ho : ∀ s ∈ rows, s.node = r.node → ¬ held clock s = true := fun s hs hn hh =>
    Bool.eq_false_iff.1 (hd s hs hn) (held_mono hw hh)
  intro s hs t ht hn h1 h2
  rcases (hm s).1 hs with rfl | ⟨hs, -⟩
  · rcases (hm t).1 ht with rfl | ⟨ht, -⟩
    · rfl
    · exact absurd h2 (ho t ht hn.symm)
  · rcases (hm t).1 ht with rfl | ⟨ht, -⟩
    · exact absurd h1 (ho s hs hn)
    · exact h s hs t ht hn h1 h2

theorem lease_effect (hl : w.CallsOk) (hi : (w.db.actions.map (·.id)).Nodup) (hc : c ∈ w.ready) :
    Effect w.queue
      { w.queue with
        rows := (leaseCandidate c w.db).1.actions
        inserted := (leaseCandidate c w.db).1.inserted
        issued := ((leaseCandidate c w.db).2.map fun row => ⟨row, w.db.incidents⟩).toList ++
          w.issued } := by
  obtain ⟨hn, hdur, ht⟩ := hl c (.inr hc)
  cases hcand : candidate c w.db with
  | none =>
    simp only [leaseCandidate, hcand]
    exact Effect.keep w.clock (Nat.le_refl _)
  | some r =>
    obtain ⟨hr, helig⟩ := candidate_spec hcand
    obtain ⟨-, hf, ha, hh, hhalt⟩ := eligible_iff.1 helig
    simp only [leaseCandidate, hcand, head?_filter_single hr (takes_iff hi hr hf)]
    exact Effect.lease c r w.db.incidents hr hn hdur ht hf ha hh hhalt

/-- **Every operation has one of the effects.** -/
theorem next_effect {w' : World} {op : Op} (hl : w.CallsOk)
    (hi : (w.db.actions.map (·.id)).Nodup) (h : next w op = some w') :
    Effect w.queue w'.queue := by
  cases op with
  | tick d =>
    cases h
    exact Effect.keep (w.clock + d) (Nat.le_add_right _ _)
  | insertIncident =>
    obtain ⟨_, hdb, rfl⟩ := Option.map_eq_some_iff.1 h
    rw [(insertIncident_spec (eq_ok_of_toOption hdb)).2]
    exact Effect.keep w.clock (Nat.le_refl _)
  | updateIncident =>
    obtain ⟨_, hdb, rfl⟩ := Option.map_eq_some_iff.1 h
    rw [(updateIncident_spec (eq_ok_of_toOption hdb)).2]
    exact Effect.keep w.clock (Nat.le_refl _)
  | enqueueAction node a now =>
    obtain ⟨-, rfl⟩ := guarded h
    exact enqueueAction_effect node a now w
  | beginClaim =>
    obtain ⟨-, rfl⟩ := guarded h
    exact Effect.keep w.clock (Nat.le_refl _)
  | deadLetter c =>
    obtain ⟨hc, rfl⟩ := guarded h
    refine Effect.settle c.exhausts .dead c.now (fun r _ hp => ?_) (.inl rfl)
    simp only [ClaimCall.exhausts, Bool.and_eq_true] at hp
    exact claimable_mono (hl c (.inl hc)).1 hp.2
  | lease =>
    obtain ⟨hc, rfl⟩ := guarded h
    exact lease_effect hl hi hc
  | completeClaimedAction c =>
    obtain ⟨blob, hb, h⟩ := Option.bind_eq_some_iff.1 h
    obtain ⟨-, rfl⟩ := guarded h
    refine Effect.finish c.accepts blob c.now (fun r _ hp => ?_) ⟨_, _, hb⟩
    simp only [CompleteCall.accepts, Bool.and_eq_true, decide_eq_true_eq] at hp
    rw [hp.1.1.1.2]
    rfl
  | completeAction c =>
    obtain ⟨blob, hb, h⟩ := Option.bind_eq_some_iff.1 h
    obtain ⟨-, rfl⟩ := guarded h
    refine Effect.finish (pendingWithID c.actionID) blob c.now (fun r _ hp => ?_) ⟨_, _, hb⟩
    simp only [pendingWithID, Bool.and_eq_true, decide_eq_true_eq] at hp
    rw [hp.2]
    rfl
  | cancelPendingAction actionID now =>
    obtain ⟨-, rfl⟩ := guarded h
    refine Effect.settle (pendingWithID actionID) .cancelled now (fun r _ hp => ?_) (.inr rfl)
    simp only [pendingWithID, Bool.and_eq_true, decide_eq_true_eq] at hp
    simp [claimable, hp.2]
  | cancelPendingActionsForIncident incidentID updatedAt now =>
    obtain ⟨⟨-, -, hn⟩, rfl⟩ := guarded h
    refine Effect.settle (idleOfIncident incidentID now) .cancelled updatedAt (fun r _ hp => ?_)
      (.inr rfl)
    simp only [idleOfIncident, Bool.and_eq_true] at hp
    exact claimable_mono hn hp.2
  | cancelPendingActionsForSafetyStop now =>
    obtain ⟨hn, rfl⟩ := guarded h
    refine Effect.settle (idleNotRestore now) .cancelled now (fun r _ hp => ?_) (.inr rfl)
    simp only [idleNotRestore, Bool.and_eq_true] at hp
    exact claimable_mono hn hp.2
  | discardCompletedAction =>
    cases h
    exact Effect.delete _
  | pruneData | pruneAudit =>
    obtain ⟨-, rfl⟩ := guarded h
    exact Effect.delete _

theorem next_calls {w' : World} {op : Op} (h : next w op = some w') :
    w.clock ≤ w'.clock ∧ ∀ c, c ∈ w'.begun ∨ c ∈ w'.ready → (c ∈ w.begun ∨ c ∈ w.ready) ∨
      (c.now = w.clock ∧ 0 < c.leaseDuration ∧ c.token ≠ []) := by
  cases op <;> simp only [next, Option.map_eq_some_iff, Option.bind_eq_some_iff,
    Option.ite_none_right_eq_some, Option.some.injEq] at h
  case deadLetter c =>
    obtain ⟨_, rfl⟩ := h
    exact ⟨Nat.le_refl _, by grind [List.mem_of_mem_erase]⟩
  case lease c =>
    obtain ⟨_, rfl⟩ := h
    exact ⟨Nat.le_refl _, by grind [List.mem_of_mem_erase]⟩
  all_goals grind [World.commit]

theorem next_callsOk {w' : World} {op : Op} (hl : w.CallsOk) (h : next w op = some w') :
    w'.CallsOk := by
  obtain ⟨hclk, hs⟩ := next_calls h
  intro c hc
  rcases hs c hc with hold | ⟨hn, ht⟩
  · obtain ⟨hn, ht⟩ := hl c hold
    exact ⟨Nat.le_trans hn hclk, ht⟩
  · exact ⟨by omega, ht⟩

end KubeNeuron.Store
