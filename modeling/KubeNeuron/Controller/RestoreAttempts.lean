import KubeNeuron.Controller.StepWorld
import KubeNeuron.Store.ActionRuns

/-!
# The identity of a restore attempt

`restoreActionID` goes over the attempt indices from zero, erases the terminal rows it meets, and
stops at the first index whose row is absent or live. `RestoreWorld` interleaves these calls, cut at
each store call, with the agents, the operators and the retention, for one node. An answer is right
as long as the call began with the rows of all terminated attempts in place (`answers_are_fresh`).
-/

namespace KubeNeuron.Controller

open Lib KubeNeuron.Types Store ActionState

/-! ## The state of an action -/

def stateOf (db : Database) (id : Str) : Option ActionState :=
  (db.actions.find? fun r => r.id = id).map ActionRow.state

/-- What a statement on the queue may do to the state of an action: erase it, or go on from it, but
not from a terminal one. -/
def Follows (before after : Option ActionState) : Prop :=
  after = none ∨ ∃ a b, before = some a ∧ after = some b ∧ (a.terminal = true → b = a)

theorem Follows.refl (s : Option ActionState) : Follows s s := by
  cases s with
  | none => exact .inl rfl
  | some a => exact .inr ⟨a, a, rfl, rfl, fun _ => rfl⟩

variable {db : Database} {id : Str}

theorem follows_update {p : ActionRow → Bool} {f : ActionRow → ActionRow}
    (hid : ∀ r, p r = true → (f r).id = r.id) (hlive : ∀ r, p r = true → r.state.terminal = false) :
    Follows (stateOf db id) (stateOf { db with actions := updateWhere p f db.actions } id) := by
  rw [stateOf, stateOf, find?_updateWhere ActionRow.id hid]
  cases hrow : db.actions.find? fun r => r.id = id with
  | none => exact .inl rfl
  | some row =>
    refine .inr ⟨_, _, rfl, rfl, fun hterminal => ?_⟩
    have hp : ¬p row = true := by
      intro hp
      rw [hlive row hp] at hterminal
      cases hterminal
    simp only [if_neg hp]

theorem find?_id_iff {rows : List ActionRow} (hi : (rows.map (·.id)).Nodup) {row : ActionRow}
    (hrow : row ∈ rows) (q : ActionRow → Bool) (hq : q row = true) :
    rows.find? (fun r => q r && r.id = row.id) = some row := by
  refine find?_of_key hi hrow (by simp [hq]) fun s hs => ?_
  exact of_decide_eq_true (Bool.and_eq_true_iff.1 hs).2

theorem stateOf_delete {p : ActionRow → Bool} (hi : (db.actions.map (·.id)).Nodup) :
    stateOf { db with actions := deleteWhere p db.actions } id =
      if (db.actions.find? fun r => r.id = id).any p then none else stateOf db id := by
  simp only [stateOf, deleteWhere]
  cases hf : db.actions.find? fun r => r.id = id with
  | none =>
    have hnone : db.actions.find? (fun r => !p r && decide (r.id = id)) = none := by
      rw [List.find?_eq_none] at hf ⊢
      intro r hr h
      exact hf r hr (Bool.and_eq_true _ _ ▸ h).2
    simp [hnone]
  | some row =>
    have hm := List.mem_of_find?_eq_some hf
    obtain rfl : row.id = id := by simpa using List.find?_some hf
    by_cases hp : p row = true
    · have hnone : db.actions.find? (fun r => !p r && decide (r.id = row.id)) = none := by
        rw [List.find?_eq_none]
        intro r hr h
        simp only [Bool.and_eq_true, decide_eq_true_eq] at h
        obtain rfl := eq_of_key_eq hi hr hm h.2
        rw [hp] at h
        cases h.1
      simp [hnone, hp]
    · simp [find?_id_iff hi hm (fun r => !p r) (by simpa using hp), hp]

/-- A statement on the queue keeps the IDs apart and goes on from the state of each action. -/
def Goes (db db' : Database) : Prop :=
  (db'.actions.map (·.id)).Nodup ∧ ∀ id, Follows (stateOf db id) (stateOf db' id)

section

variable (hi : (db.actions.map (·.id)).Nodup)
include hi

theorem goes_refl : Goes db db := ⟨hi, fun _ => .refl _⟩

theorem goes_update {p : ActionRow → Bool} {f : ActionRow → ActionRow} (hid : ∀ r, (f r).id = r.id)
    (hlive : ∀ r, p r = true → r.state.terminal = false) :
    Goes db { db with actions := updateWhere p f db.actions } := by
  refine ⟨?_, fun _ => follows_update (fun r _ => hid r) hlive⟩
  rw [map_updateWhere (fun r : ActionRow => r.id) hid]
  exact hi

theorem goes_delete (p : ActionRow → Bool) :
    Goes db { db with actions := deleteWhere p db.actions } := by
  refine ⟨nodup_map_deleteWhere _ hi, fun id => ?_⟩
  rw [stateOf_delete hi]
  split
  · exact .inl rfl
  · exact .refl _

/-- **What a statement of agents, operators or retention does to the state of an action.** -/
theorem QueueOp.run_goes (op : QueueOp) : Goes db (op.run db) := by
  cases op with
  | deadLetter c =>
    refine goes_update hi (fun _ => rfl) fun r hr => ?_
    simp only [ClaimCall.exhausts, Bool.and_eq_true] at hr
    exact not_terminal_of_claimable hr.2
  | lease c =>
    change Goes db (leaseCandidate c db).1
    unfold leaseCandidate
    split
    · exact goes_refl hi
    refine goes_update hi (fun _ => rfl) fun r hr => ?_
    simp only [ClaimCall.takes, Bool.and_eq_true] at hr
    exact not_terminal_of_claimable hr.2
  | complete c =>
    change Goes db ((marshalActionResult c.localOffset c.res).elim db fun blob => c.update blob db)
    generalize marshalActionResult c.localOffset c.res = blob
    cases blob with
    | none => exact goes_refl hi
    | some =>
      refine goes_update hi (fun _ => rfl) fun r hr => ?_
      simp only [CompleteCall.accepts, Bool.and_eq_true, decide_eq_true_eq] at hr
      rw [hr.1.1.1.2]
      rfl
  | cancel =>
    refine goes_update hi (fun _ => rfl) fun r hr => ?_
    simp only [pendingWithID, Bool.and_eq_true, decide_eq_true_eq] at hr
    rw [hr.2]
    rfl
  | safetyStop =>
    refine goes_update hi (fun _ => rfl) fun r hr => ?_
    simp only [idleNotRestore, Bool.and_eq_true] at hr
    exact not_terminal_of_claimable hr.2
  | discard | prune => exact goes_delete hi _

end

theorem stateOf_enqueue (node : Str) (a : Action) (now : Nat) :
    stateOf (enqueueAction node a now db) id =
      if stateOf db a.id = none ∧ id = a.id then some .pending else stateOf db id := by
  rw [enqueueAction]
  split_ifs with hthere hnew hnew
  · obtain ⟨r, hr, hrid⟩ := List.any_eq_true.1 hthere
    simp only [stateOf, Option.map_eq_none_iff, List.find?_eq_none] at hnew
    exact absurd hrid (hnew.1 r hr)
  · rfl
  · obtain ⟨-, rfl⟩ := hnew
    have hnone : db.actions.find? (fun r => decide (r.id = a.id)) = none := by
      rw [List.find?_eq_none]
      intro r hr hrid
      exact hthere (List.any_eq_true.2 ⟨r, hr, hrid⟩)
    simp [stateOf, List.find?_append, hnone, insertedRow]
  simp only [stateOf, List.find?_append]
  cases hf : db.actions.find? fun r => decide (r.id = id) with
  | some => rfl
  | none =>
    have hne : id ≠ a.id := by
      intro heq
      subst heq
      exact hnew ⟨by simp [stateOf, hf], rfl⟩
    simp [insertedRow, Ne.symm hne]

/-! ## The calls -/

def maxRestoreAttempts : Nat := 64

def restoreID (sha : Str → Str) (node : Str) (attempt : Nat) : Str :=
  shortDigest sha (restoreText node attempt)

/-- `QueuedAction.Terminal`. -/
def terminalAction (q : QueuedAction) : Bool := q.done || q.cancelled || q.dead

/-- Where the janitor's restore of the node is. -/
inductive RestoreCall where
  /-- `restoreActionID` looks at the row of this attempt next. -/
  | probing (attempt : Nat)
  /-- The row of this attempt was found to be terminal. -/
  | erasing (attempt : Nat)
  /-- The ID was returned, and the action is enqueued next. -/
  | named (id : Str)

/-- An ID that was returned, with the attempts that had terminated and those that were live when it
was chosen. -/
structure Answer where
  id : Str
  ended : List Str
  live : List Str

/-- The queue and the janitor's call; `ended` are the attempts that have terminated. -/
structure RestoreWorld where
  db : Database
  call : Option RestoreCall
  ended : List Str
  answers : List Answer

/-- A queue without rows. -/
def RestoreWorld.start : RestoreWorld := ⟨.empty, none, [], []⟩

/-- The operations. The flag of a store call says that it fails. -/
inductive RestoreOp where
  | begin
  | look (fault : Bool)
  | erase (fault : StoreFault)
  | enqueue (params : StrMap) (now : Nat) (fault : StoreFault)
  /-- The process ends. -/
  | drop
  | queue (op : QueueOp)
  /-- A step enqueues an action of its own. -/
  | other (node : Str) (a : Action) (now : Nat)

variable (sha : Str → Str) (lo : Int → Int) (node : Str) (w : RestoreWorld)

def attempts : List Str := (List.range maxRestoreAttempts).map (restoreID sha node)

namespace RestoreWorld

/-- The attempts whose action is pending or leased. -/
def live : List Str :=
  (attempts sha node).filter fun id => (stateOf w.db id).any fun s => !s.terminal

/-- The attempts whose action is terminal now. -/
def overIDs : List Str :=
  (attempts sha node).filter fun id => (stateOf w.db id).any ActionState.terminal

/-- Remember the attempts that have terminated. -/
def note : RestoreWorld := { w with ended := w.overIDs sha node ++ w.ended }

def answer (id : Str) : RestoreWorld :=
  { w with
    call := some (.named id)
    answers := ⟨id, w.ended, w.live sha node⟩ :: w.answers }

/-- The next attempt, or the end of the search. -/
def goOn (attempt : Nat) : RestoreWorld :=
  { w with call := if attempt < maxRestoreAttempts then some (.probing attempt) else none }

/-- One look of `restoreActionID`. -/
def afterLook (attempt : Nat) : RestoreWorld :=
  match w.db.actions.find? fun r => r.id = restoreID sha node attempt with
  | none => w.answer sha node (restoreID sha node attempt)
  | some row =>
    match scanAction lo row with
    | none => { w with call := none }
    | some queued =>
      if terminalAction queued then { w with call := some (.erasing attempt) }
      else w.answer sha node (restoreID sha node attempt)

/-- `DiscardCompletedAction` on the row of the attempt. -/
def afterErase (attempt : Nat) : StoreFault → RestoreWorld
  | .none =>
    { w with db := discardCompletedAction (restoreID sha node attempt) w.db }.goOn (attempt + 1)
  | .failed landed =>
    { w with
      db := if landed then discardCompletedAction (restoreID sha node attempt) w.db else w.db
      call := none }

/-- `Execute` enqueues the action; what it waits for afterwards is not the queue's business. -/
def afterEnqueue (id : Str) (params : StrMap) (now : Nat) (fault : StoreFault) :
    RestoreWorld :=
  { w with
    db := if fault = .failed false then w.db
      else enqueueAction node ⟨id, [], actionRestoreAcceleratorHost, params,
        Int64.ofInt (2 * 60 * 1000000000)⟩ now w.db
    call := none }

end RestoreWorld

/-- One operation, before it is noted what has terminated. -/
def restoreStep : RestoreOp → Option RestoreWorld
  | .begin => if w.call.isNone then some { w with call := some (.probing 0) } else none
  | .look fault =>
    match w.call with
    | some (.probing attempt) =>
      some (if fault then { w with call := none } else w.afterLook sha lo node attempt)
    | _ => none
  | .erase fault =>
    match w.call with
    | some (.erasing attempt) => some (w.afterErase sha node attempt fault)
    | _ => none
  | .enqueue params now fault =>
    match w.call with
    | some (.named id) => some (w.afterEnqueue node id params now fault)
    | _ => none
  | .drop => some { w with call := none }
  | .queue op => some { w with db := op.run w.db }
  | .other other a now =>
    -- an action of a step has an ID of its own
    if a.id ∈ attempts sha node then none
    else some { w with db := enqueueAction other a now w.db }

def restoreNext (op : RestoreOp) : Option RestoreWorld :=
  (restoreStep sha lo node w op).map (·.note sha node)

/-- A call begins with the rows of all terminated attempts in place, and nobody else erases the row
of an attempt during a call. -/
def RestoreWorld.rowsKept : RestoreOp → Bool
  | .begin => w.ended.all fun id => (stateOf w.db id).isSome
  | .queue op =>
    w.call.isNone || (attempts sha node).all fun id =>
      (stateOf w.db id).isNone || (stateOf (op.run w.db) id).isSome
  | _ => true

/-! ## Answers -/

theorem terminalAction_scan {lo : Int → Int} {r : ActionRow} {q : QueuedAction}
    (h : scanAction lo r = some q) : terminalAction q = r.state.terminal := by
  simp only [scanAction, Option.bind_eq_bind, Option.bind_eq_some_iff, Option.some.injEq] at h
  obtain ⟨-, -, -, -, -, -, rfl⟩ := h
  cases hst : r.state <;> simp [terminalAction, terminal]

/-- The answer names an attempt that has not terminated, and no other attempt is live. -/
def Answer.Fresh (a : Answer) : Prop := a.id ∉ a.ended ∧ ∀ id ∈ a.live, id = a.id

section

variable {sha : Str → Str} {lo : Int → Int} {node : Str} {w : RestoreWorld}

theorem mem_attempts {id : Str} :
    id ∈ attempts sha node ↔ ∃ k < maxRestoreAttempts, restoreID sha node k = id := by
  simp [attempts]

theorem first_mem_attempts : restoreID sha node 0 ∈ attempts sha node :=
  mem_attempts.2 ⟨0, by decide, rfl⟩

/-- Where a run that meets the condition can be. -/
inductive RestorePhase (sha : Str → Str) (node : Str) (w : RestoreWorld) : Prop where
  /-- Only the first attempt was ever made, and its row is there. -/
  | first
      (rows : ∀ id ∈ attempts sha node, id ≠ restoreID sha node 0 → stateOf w.db id = none)
      (ended : ∀ id ∈ w.ended, id = restoreID sha node 0)
      (kept : restoreID sha node 0 ∈ w.ended ↔
        (stateOf w.db (restoreID sha node 0)).any ActionState.terminal = true)
      (call : w.call = none ∨ w.call = some (.probing 0) ∨
        w.call = some (.named (restoreID sha node 0)) ∨
        (w.call = some (.erasing 0) ∧ restoreID sha node 0 ∈ w.ended))
  /-- A call has erased the row of the first attempt and is about to make the second. -/
  | second (rows : ∀ id ∈ attempts sha node, stateOf w.db id = none)
      (ended : ∀ id ∈ w.ended, id = restoreID sha node 0)
      (missing : restoreID sha node 0 ∈ w.ended)
      (call : w.call = some (.probing 1) ∨ w.call = some (.named (restoreID sha node 1)))
  /-- The row of an attempt that terminated is gone, and no call is under way. -/
  | past (id : Str) (attempt : id ∈ attempts sha node) (missing : id ∈ w.ended)
      (row : stateOf w.db id = none) (call : w.call = none)

/-- The invariant of every run that meets the condition. -/
structure RestoreInv (sha : Str → Str) (node : Str) (w : RestoreWorld) : Prop where
  ids : (w.db.actions.map (·.id)).Nodup
  phase : RestorePhase sha node w
  answers : ∀ a ∈ w.answers, a.Fresh

theorem restoreInv_start : RestoreInv sha node .start where
  ids := List.nodup_nil
  phase := .first (fun _ _ _ => rfl) (List.forall_mem_nil _)
    ⟨fun h => absurd h List.not_mem_nil, fun h => Bool.noConfusion h⟩ (.inl rfl)
  answers _ h := absurd h List.not_mem_nil

variable (rows : ∀ id ∈ attempts sha node, id ≠ restoreID sha node 0 → stateOf w.db id = none)
  (ended : ∀ id ∈ w.ended, id = restoreID sha node 0)
  (call : w.call = none ∨ w.call = some (.probing 0) ∨
    w.call = some (.named (restoreID sha node 0)) ∨
    (w.call = some (.erasing 0) ∧ restoreID sha node 0 ∈ w.ended))

include rows ended call in
theorem RestorePhase.note_first (kept : restoreID sha node 0 ∈ w.ended →
      (stateOf w.db (restoreID sha node 0)).any terminal = true) :
    RestorePhase sha node (w.note sha node) := by
  have hover : ∀ id ∈ w.overIDs sha node, id = restoreID sha node 0 := by
    intro id hid
    obtain ⟨hattempt, hterminal⟩ := List.mem_filter.1 hid
    by_contra hne
    rw [rows id hattempt hne] at hterminal
    cases hterminal
  refine .first rows (fun id hid => ?_) ⟨fun hid => ?_, fun hterminal => ?_⟩ ?_
  · rcases List.mem_append.1 hid with hnew | hold
    · exact hover id hnew
    · exact ended id hold
  · rcases List.mem_append.1 hid with hnew | hold
    · exact (List.mem_filter.1 hnew).2
    · exact kept hold
  · exact List.mem_append_left _ (List.mem_filter.2 ⟨first_mem_attempts, hterminal⟩)
  · exact call.imp_right (Or.imp_right (Or.imp_right (And.imp_right (List.mem_append_right _))))

theorem RestorePhase.note_second (rows : ∀ id ∈ attempts sha node, stateOf w.db id = none)
    (ended : ∀ id ∈ w.ended, id = restoreID sha node 0) (missing : restoreID sha node 0 ∈ w.ended)
    (call : w.call = some (.probing 1) ∨ w.call = some (.named (restoreID sha node 1))) :
    RestorePhase sha node (w.note sha node) := by
  refine .second rows (fun id hid => ?_) (List.mem_append_right _ missing) call
  rcases List.mem_append.1 hid with hnew | hold
  · obtain ⟨hattempt, hterminal⟩ := List.mem_filter.1 hnew
    rw [rows id hattempt] at hterminal
    cases hterminal
  · exact ended id hold

theorem RestorePhase.note_past {id : Str} (attempt : id ∈ attempts sha node)
    (missing : id ∈ w.ended) (row : stateOf w.db id = none) (call : w.call = none) :
    RestorePhase sha node (w.note sha node) :=
  .past id attempt (List.mem_append_right _ missing) row call

theorem Follows.none {after : Option ActionState} (h : Follows none after) :
    after = Option.none := by
  rcases h with hnone | ⟨_, _, hbefore, -⟩
  · exact hnone
  · cases hbefore

theorem stateOf_other {db : Database} {other : Str} {a : Action} {now : Nat} {id : Str}
    (hid : id ∈ attempts sha node) (ha : a.id ∉ attempts sha node) :
    stateOf (enqueueAction other a now db) id = stateOf db id := by
  rw [stateOf_enqueue, if_neg]
  rintro ⟨-, rfl⟩
  exact ha hid

theorem stateOf_discard {db : Database} (hi : (db.actions.map (·.id)).Nodup) (id id' : Str) :
    stateOf (discardCompletedAction id' db) id =
      if id = id' ∧ (stateOf db id).any terminal = true then none else stateOf db id := by
  rw [discardCompletedAction, stateOf_delete hi]
  rcases Option.eq_none_or_eq_some (db.actions.find? fun r => r.id = id) with hnone | ⟨row, hrow⟩
  · simp [stateOf, hnone]
  · have hid : row.id = id := by simpa using List.find?_some hrow
    simp [stateOf, hrow, hid]

theorem answer_fresh (hanswers : ∀ a ∈ w.answers, a.Fresh) {id : Str} (hid : id ∉ w.ended)
    (hlive : ∀ id' ∈ attempts sha node, id' ≠ id → stateOf w.db id' = none) :
    ∀ a ∈ (w.answer sha node id).answers, a.Fresh := by
  intro a ha
  obtain _ | ⟨_, hold⟩ := ha
  · refine ⟨hid, fun id' hid' => ?_⟩
    obtain ⟨hattempt, hst⟩ := List.mem_filter.1 hid'
    by_contra hne
    rw [hlive id' hattempt hne] at hst
    cases hst
  · exact hanswers a hold

theorem afterLook_cases (sha : Str → Str) (lo : Int → Int) (node : Str)
    (w : RestoreWorld) (attempt : Nat) :
    (w.afterLook sha lo node attempt = w.answer sha node (restoreID sha node attempt) ∧
        (stateOf w.db (restoreID sha node attempt)).any terminal = false) ∨
      w.afterLook sha lo node attempt = { w with call := none } ∨
      (w.afterLook sha lo node attempt = { w with call := some (.erasing attempt) } ∧
        (stateOf w.db (restoreID sha node attempt)).any terminal = true) := by
  unfold RestoreWorld.afterLook stateOf
  split
  · next hnone => exact Or.inl ⟨rfl, by rw [hnone]; rfl⟩
  rename_i row hrow
  split
  · exact .inr (.inl rfl)
  rename_i queued hs
  have hterminal := terminalAction_scan hs
  split
  next he =>
    exact Or.inr (Or.inr ⟨rfl, by rw [hrow]; exact hterminal.symm.trans he⟩)
  rename_i he
  refine .inl ⟨rfl, ?_⟩
  rw [hrow]
  exact hterminal.symm.trans (Bool.eq_false_iff.2 he)

variable {w' : RestoreWorld} {op : RestoreOp}

section

variable (hinv : RestoreInv sha node w)
include hinv

include rows ended call in
theorem RestoreInv.step_first (kept : restoreID sha node 0 ∈ w.ended ↔
      (stateOf w.db (restoreID sha node 0)).any terminal = true)
    (hkept : w.rowsKept sha node op = true) (h : restoreStep sha lo node w op = some w') :
    RestoreInv sha node (w'.note sha node) := by
  have hcall : ∀ c, w.call = some c → c = .probing 0 ∨ c = .named (restoreID sha node 0) ∨
      (c = .erasing 0 ∧ restoreID sha node 0 ∈ w.ended) := by
    intro c hc
    rw [hc] at call
    simpa using call
  have hidle : RestoreInv sha node (RestoreWorld.note sha node { w with call := none }) :=
    ⟨hinv.ids, .note_first rows ended (.inl rfl) kept.1, hinv.answers⟩
  revert h
  fun_cases restoreStep sha lo node w op with
  | case1 =>
    rintro ⟨⟩
    exact ⟨hinv.ids, .note_first rows ended (.inr (.inl rfl)) kept.1, hinv.answers⟩
  | case3 fault attempt hprobing =>
    rintro ⟨⟩
    obtain rfl : attempt = 0 := by simpa using hcall _ hprobing
    split
    · exact hidle
    rcases afterLook_cases sha lo node w 0 with
      ⟨hanswer, hlive⟩ | hfault | ⟨herasing, hterminal⟩
    · rw [hanswer]
      refine ⟨hinv.ids, .note_first rows ended (.inr (.inr (.inl rfl))) kept.1,
        answer_fresh hinv.answers (fun hid => ?_) rows⟩
      rw [kept.1 hid] at hlive
      cases hlive
    · rw [hfault]
      exact hidle
    · rw [herasing]
      exact ⟨hinv.ids, .note_first rows ended
        (.inr (.inr (.inr ⟨rfl, kept.2 hterminal⟩))) kept.1, hinv.answers⟩
  | case5 fault attempt herasing =>
    rintro ⟨⟩
    obtain ⟨rfl, hmissing⟩ : attempt = 0 ∧ restoreID sha node 0 ∈ w.ended := by
      simpa using hcall _ herasing
    -- the first attempt has terminated, so its row goes
    have hgone : ∀ id ∈ attempts sha node,
        stateOf (discardCompletedAction (restoreID sha node 0) w.db) id = none := by
      intro id hid
      rw [stateOf_discard hinv.ids]
      by_cases hfirst : id = restoreID sha node 0
      · rw [if_pos ⟨hfirst, hfirst ▸ kept.1 hmissing⟩]
      · rw [if_neg fun hboth => hfirst hboth.1]
        exact rows id hid hfirst
    cases fault with
    | none =>
      exact ⟨nodup_map_deleteWhere _ hinv.ids,
        .note_second hgone ended hmissing (.inl rfl), hinv.answers⟩
    | failed landed =>
      cases landed with
      | false => exact hidle
      | true =>
        exact ⟨nodup_map_deleteWhere _ hinv.ids, .note_past first_mem_attempts hmissing
          (hgone _ first_mem_attempts) rfl, hinv.answers⟩
  | case7 params now fault id hnamed =>
    rintro ⟨⟩
    obtain rfl : id = restoreID sha node 0 := by simpa using hcall _ hnamed
    rw [RestoreWorld.afterEnqueue]
    split
    · exact hidle
    refine ⟨nodup_enqueueAction hinv.ids, .note_first (fun id hid hne => ?_) ended
      (.inl rfl) fun hid => ?_, hinv.answers⟩
    · rw [stateOf_enqueue, if_neg fun hboth => hne hboth.2]
      exact rows id hid hne
    -- a row that is there stays as it is
    have hterminal := kept.1 hid
    rw [stateOf_enqueue, if_neg]
    · exact hterminal
    rintro ⟨hnone, -⟩
    rw [hnone] at hterminal
    cases hterminal
  | case9 =>
    rintro ⟨⟩
    exact hidle
  | case10 op =>
    rintro ⟨⟩
    obtain ⟨hids, hfollows⟩ := op.run_goes hinv.ids
    have hrows : ∀ id ∈ attempts sha node, id ≠ restoreID sha node 0 →
        stateOf (op.run w.db) id = none := by
      intro id hid hne
      have hid' := hfollows id
      rw [rows id hid hne] at hid'
      exact hid'.none
    refine ⟨hids, ?_, hinv.answers⟩
    by_cases hlost : restoreID sha node 0 ∈ w.ended ∧
        stateOf (op.run w.db) (restoreID sha node 0) = none
    · -- an erasure during a call is excluded
      refine .note_past first_mem_attempts hlost.1 hlost.2 ?_
      by_contra hbusy
      have hrow := kept.1 hlost.1
      simp only [RestoreWorld.rowsKept, Bool.or_eq_true, Option.isNone_iff_eq_none,
        List.all_eq_true] at hkept
      rcases (hkept.resolve_left hbusy) _ first_mem_attempts with hnone | hsome
      · rw [hnone] at hrow
        cases hrow
      · rw [hlost.2] at hsome
        cases hsome
    · refine .note_first hrows ended call fun hid => ?_
      rcases hfollows (restoreID sha node 0) with hnone | ⟨_, _, hbefore, hafter, hsame⟩
      · exact absurd ⟨hid, hnone⟩ hlost
      have hterminal := kept.1 hid
      rw [hbefore] at hterminal
      rw [hafter, hsame hterminal]
      exact hterminal
  | case12 other a now ha =>
    rintro ⟨⟩
    refine ⟨nodup_enqueueAction hinv.ids, .note_first (fun id hid hne => ?_) ended call
      fun hid => ?_, hinv.answers⟩
    · rw [stateOf_other hid ha]
      exact rows id hid hne
    · rw [stateOf_other first_mem_attempts ha]
      exact kept.1 hid
  | _ => rintro ⟨⟩

theorem RestoreInv.step_second (hne : restoreID sha node 1 ≠ restoreID sha node 0)
    (rows : ∀ id ∈ attempts sha node, stateOf w.db id = none)
    (ended : ∀ id ∈ w.ended, id = restoreID sha node 0)
    (missing : restoreID sha node 0 ∈ w.ended)
    (call : w.call = some (.probing 1) ∨ w.call = some (.named (restoreID sha node 1)))
    (h : restoreStep sha lo node w op = some w') : RestoreInv sha node (w'.note sha node) := by
  have hcall : ∀ c, w.call = some c → c = .probing 1 ∨ c = .named (restoreID sha node 1) := by
    intro c hc
    rw [hc] at call
    simpa using call
  have hp : ∀ {db : Database}, stateOf db (restoreID sha node 0) = none →
      RestorePhase sha node (RestoreWorld.note sha node { w with db, call := none }) := fun hrow =>
    .note_past first_mem_attempts missing hrow rfl
  have hfirst := rows _ first_mem_attempts
  revert h
  fun_cases restoreStep sha lo node w op with
  | case1 hidle =>
    rcases call with hc | hc <;> simp [hc] at hidle
  | case5 _ _ herasing => simpa using hcall _ herasing
  | case3 fault attempt hprobing =>
    rintro ⟨⟩
    obtain rfl : attempt = 1 := by simpa using hcall _ hprobing
    have hs := rows _ (mem_attempts.2 ⟨1, by decide, rfl⟩)
    split
    · exact ⟨hinv.ids, hp hfirst, hinv.answers⟩
    rcases afterLook_cases sha lo node w 1 with ⟨hanswer, -⟩ | hfault | ⟨-, hterminal⟩
    · rw [hanswer]
      refine ⟨hinv.ids, .note_second rows ended missing (.inr rfl),
        answer_fresh hinv.answers (fun hid => hne (ended _ hid)) fun id hid _ => rows id hid⟩
    · rw [hfault]
      exact ⟨hinv.ids, hp hfirst, hinv.answers⟩
    · rw [hs] at hterminal
      cases hterminal
  | case7 params now fault id hnamed =>
    rintro ⟨⟩
    obtain rfl : id = restoreID sha node 1 := by simpa using hcall _ hnamed
    rw [RestoreWorld.afterEnqueue]
    split
    · exact ⟨hinv.ids, hp hfirst, hinv.answers⟩
    refine ⟨nodup_enqueueAction hinv.ids, hp ?_, hinv.answers⟩
    rw [stateOf_enqueue, if_neg fun hboth => hne hboth.2.symm]
    exact hfirst
  | case9 =>
    rintro ⟨⟩
    exact ⟨hinv.ids, hp hfirst, hinv.answers⟩
  | case10 op =>
    rintro ⟨⟩
    obtain ⟨hids, hfollows⟩ := op.run_goes hinv.ids
    refine ⟨hids, .note_second (fun id hid => ?_) ended missing call, hinv.answers⟩
    have hfollows := hfollows id
    rw [rows id hid] at hfollows
    exact hfollows.none
  | case12 _ _ _ ha =>
    rintro ⟨⟩
    refine ⟨nodup_enqueueAction hinv.ids, .note_second (fun id hid => ?_) ended missing call,
      hinv.answers⟩
    rw [stateOf_other hid ha]
    exact rows id hid
  | _ => rintro ⟨⟩

theorem RestoreInv.step_past {id : Str}
    (attempt : id ∈ attempts sha node) (missing : id ∈ w.ended) (row : stateOf w.db id = none)
    (call : w.call = none) (hkept : w.rowsKept sha node op = true)
    (h : restoreStep sha lo node w op = some w') : RestoreInv sha node (w'.note sha node) := by
  cases op with
  | begin =>
    have hrow := List.all_eq_true.1 hkept id missing
    rw [row] at hrow
    cases hrow
  | drop =>
    cases h
    exact ⟨hinv.ids, .note_past attempt missing row rfl, hinv.answers⟩
  | queue op =>
    cases h
    obtain ⟨hids, hfollows⟩ := op.run_goes hinv.ids
    have hfollows := hfollows id
    rw [row] at hfollows
    exact ⟨hids, .note_past attempt missing hfollows.none call, hinv.answers⟩
  | other =>
    obtain ⟨ha, rfl⟩ := unguarded h
    exact ⟨nodup_enqueueAction hinv.ids,
      .note_past attempt missing ((stateOf_other attempt ha).trans row) call, hinv.answers⟩
  | _ => simp [restoreStep, call] at h

/-- **One operation keeps the invariant.** -/
theorem RestoreInv.step
    (hne : restoreID sha node 1 ≠ restoreID sha node 0) (hkept : w.rowsKept sha node op = true)
    (h : restoreNext sha lo node w op = some w') : RestoreInv sha node w' := by
  obtain ⟨_, hs, rfl⟩ := Option.map_eq_some_iff.1 h
  cases hinv.phase with
  | first rows ended kept call => exact hinv.step_first rows ended call kept hkept hs
  | second rows ended missing call => exact hinv.step_second hne rows ended missing call hs
  | past _ attempt missing row call => exact hinv.step_past attempt missing row call hkept hs

end

end

/-- **Answers are fresh while the rows are kept.** In every interleaving in which each call begins
with the rows of all terminated attempts, and nobody else erases them meanwhile, an ID that is
returned belongs to an attempt that has not terminated, and no other attempt is pending or
leased. -/
theorem answers_are_fresh {sha : Str → Str} {lo : Int → Int} {node : Str}
    {ops : List RestoreOp} {w : RestoreWorld}
    (hsha : restoreID sha node 1 ≠ restoreID sha node 0)
    (hkept : Along (restoreNext sha lo node) (fun w op => w.rowsKept sha node op = true) .start ops)
    (h : exec (restoreNext sha lo node) .start ops = some w) :
    ∀ a ∈ w.answers, a.id ∉ a.ended ∧ ∀ id ∈ a.live, id = a.id := by
  have hinv : RestoreInv sha node w :=
    exec_invariant_along (fun _ _ _ hinv hok hstep => hinv.step hsha hok hstep) restoreInv_start
      hkept h
  exact hinv.answers

/-! ## Three passes -/

/-- A pass that finds the row of its attempt absent or live. -/
def freshPass (now : Nat) : List RestoreOp := [.begin, .look false, .enqueue StrMap.empty now .none]

/-- The agent takes the action with the given ID and reports a failure. -/
def failedAttempt (id : Str) (now : Nat) : List RestoreOp :=
  [.queue (.lease ⟨lit "n1", [], 60000000000, [], lit "t1", now⟩),
    .queue (.complete ⟨id, lit "t1", [], { ActionResult.zero with actionID := id }, now + 1,
      fun _ => 0⟩)]

/-- The first attempt fails, and a second pass makes the second attempt. -/
def secondAttempt : List RestoreOp :=
  freshPass 1 ++ failedAttempt (restoreID List.reverse (lit "n1") 0) 2 ++
    [.begin, .look false, .erase .none, .look false, .enqueue StrMap.empty 4 .none]

/-- The two passes name two attempts. -/
theorem second_pass_is_fresh :
    ∃ w, exec (restoreNext List.reverse (fun _ => 0) (lit "n1")) .start secondAttempt = some w ∧
      w.answers.map Answer.id =
        [restoreID List.reverse (lit "n1") 1, restoreID List.reverse (lit "n1") 0] ∧
      ∀ a ∈ w.answers, a.id ∉ a.ended := by
  refine reached (by decide +kernel) fun w hexec hanswers => ⟨hanswers, ?_⟩
  intro a ha
  exact (answers_are_fresh (by decide +kernel) (by decide +kernel) hexec a ha).1

/-- **A third pass names the first attempt again**, which has terminated, while the second attempt
is pending. -/
theorem third_pass_reuses_identity :
    ∃ w, exec (restoreNext List.reverse (fun _ => 0) (lit "n1")) .start
        (secondAttempt ++ [.begin, .look false]) = some w ∧
      ∃ a, w.answers.head? = some a ∧ a.id = restoreID List.reverse (lit "n1") 0 ∧ a.id ∈ a.ended ∧
        a.live = [restoreID List.reverse (lit "n1") 1] := by
  decide +kernel

end KubeNeuron.Controller
