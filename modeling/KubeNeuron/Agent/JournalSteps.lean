import KubeNeuron.Agent.Journal

/-!
# What an operation does to the journal

Whatever is called, a journal changes in two ways only: a compaction rewrites the file and drops
reported entries (`Compacts`), and an append adds the line of one entry that was planned from the
current ones (`Planned`). `start_spec` says this of every operation, `markInterrupted_spec` of the
appends that opening a journal makes; the invariants of the later modules are proved for the two
kinds of change.
-/

namespace KubeNeuron.Agent

open Lib KubeNeuron.Types

variable {j j' : Journal} {r : Refusal} {lo : Int → Int} {id : Str} {e : Entry}
  {now : GoTime} {op : JournalOp} {clock : Nat → GoTime}

@[simp] theorem refuse_ok_iff {α : Type} {x : Except JournalError α} {a : α} :
    j.refuse x = .ok a ↔ x = .ok a := by
  cases x <;> simp [Journal.refuse, Except.mapError]

theorem refuse_error {α : Type} {x : Except JournalError α} (h : j.refuse x = .error r) :
    r.journal = j := by
  cases x with
  | error =>
    cases h
    rfl
  | ok => cases h

/-! ## Compaction -/

/-- The entries a compaction keeps. -/
def survivors (cutoff : GoTime) (entries : KeyMap Entry) : KeyMap Entry :=
  entries.filter fun _ e => !stale cutoff e

/-- The records a compaction writes. -/
def histories (entries : KeyMap Entry) : List DiskRecord :=
  entries.entries.flatMap fun e => entryHistory e.2

/-- A journal after any number of compactions of `j`. -/
inductive Compacts (lo : Int → Int) (j : Journal) : Journal → Prop where
  | same : Compacts lo j j
  | rewrite {j' : Journal} (cutoff : GoTime) {data : Str} : Compacts lo j j' →
      encodeRecords lo (histories (survivors cutoff j'.entries)) = some data →
      Compacts lo j ⟨data, survivors cutoff j'.entries, data.length⟩

theorem Compacts.trans {k l : Journal} (h : Compacts lo j k)
    (h' : Compacts lo k l) : Compacts lo j l := by
  induction h' with
  | same => exact h
  | rewrite cutoff _ hd ih => exact ih.rewrite cutoff hd

theorem Compacts.get? (h : Compacts lo j j') (he : j'.entries.get? id = some e) :
    j.entries.get? id = some e := by
  induction h with
  | same => exact he
  | rewrite _ _ _ ih => exact ih (KeyMap.get?_filter.1 he).1

theorem Compacts.get?_of_ne (h : Compacts lo j j') (he : j.entries.get? id = some e)
    (hne : e.state ≠ .reported) :
    j'.entries.get? id = some e := by
  induction h with
  | same => exact he
  | rewrite _ _ _ ih =>
    refine KeyMap.get?_filter.2 ⟨ih, ?_⟩
    simp [stale, hne]

theorem Compacts.size_le (h : Compacts lo j j') : j'.entries.size ≤ j.entries.size := by
  apply KeyMap.size_le
  intro k hk
  obtain ⟨e, he⟩ := Option.isSome_iff_exists.1 hk
  exact Option.isSome_iff_exists.2 ⟨e, h.get? he⟩

theorem compactReported_spec {retention : Int}
    {n : Nat} (h : j.compactReported lo now retention = .ok (n, j')) : Compacts lo j j' := by
  rw [Journal.compactReported] at h
  split_ifs at h
  · cases h
    exact .same
  obtain ⟨k, hk, hj⟩ := map_ok_iff.1 h
  cases hj
  rw [Journal.rewriteRecords] at hk
  split at hk
  · cases hk
  · cases hk
    exact Compacts.same.rewrite _ ‹_›

theorem makeRoom_spec {line : Str} (h : j.makeRoom lo now line = .ok j') : Compacts lo j j' := by
  rw [Journal.makeRoom] at h
  split_ifs at h
  · obtain ⟨⟨_, _⟩, hk, rfl⟩ := map_ok_iff.1 h
    exact compactReported_spec hk
  · cases h
    exact .same

theorem makeSlot_spec (h : j.makeSlot lo now = .ok j') : Compacts lo j j' := by
  rw [Journal.makeSlot] at h
  split_ifs at h
  · obtain ⟨⟨_, _⟩, hk, rfl⟩ := map_ok_iff.1 h
    exact compactReported_spec hk
  · cases h
    exact .same

/-! ## Appending -/

/-- A write that passed all checks on the way from `j`. -/
structure Ready (lo : Int → Int) (j : Journal) (w : Write) : Prop where
  compacts : Compacts lo j w.journal
  valid : validateEntry w.entry = .ok ()
  encoded : encodeRecord lo w.entry.record = some w.line
  record : w.line.length ≤ maxRecordBytes
  room : w.journal.bytes + w.line.length ≤ maxJournalBytes

theorem prepare_spec {w : Write} (h : j.prepare lo now e = .ok w) : Ready lo j w ∧ w.entry = e := by
  simp only [Journal.prepare, bind_ok_iff, refuse_ok_iff, check_eq_ok, decide_eq_true_eq] at h
  obtain ⟨_, hv, line, hl, _, hc, _, hj, _, hr, hw⟩ := h
  cases hw
  have hencoded : encodeRecord lo e.record = some line := by
    cases hx : encodeRecord lo e.record with
    | none => simp [hx] at hl
    | some => simpa [hx] using hl
  exact ⟨⟨makeRoom_spec hj, hv, hencoded, hc, hr⟩, rfl⟩

/-- A check that fails leaves the journal that it was made on. -/
theorem Compacts.of_refuse {α β : Type} {x : Except JournalError α} {f : α → Except Refusal β}
    (hj : Compacts lo j j') (h : (j'.refuse x >>= f) = .error r)
    (hrest : ∀ a, x = .ok a → f a = .error r → Compacts lo j r.journal) :
    Compacts lo j r.journal := by
  rcases bind_error h with h | ⟨a, hx, h⟩
  · rw [refuse_error h]
    exact hj
  · exact hrest a (refuse_ok_iff.1 hx) h

theorem prepare_error (h : j.prepare lo now e = .error r) : Compacts lo j r.journal := by
  refine Compacts.same.of_refuse h fun _ _ h => ?_
  refine Compacts.same.of_refuse h fun _ _ h => ?_
  refine Compacts.same.of_refuse h fun _ _ h => ?_
  refine Compacts.same.of_refuse h fun _ hroom h => ?_
  -- from here on the compaction has been made
  refine (makeRoom_spec hroom).of_refuse h fun _ _ h => ?_
  cases h

/-! ## The operations -/

/-- The action an operation moves, and the state it moves it to. -/
def JournalOp.target : JournalOp → Option (Str × State)
  | .markRunning id => some (id, .running)
  | .recordOutcome id _ => some (id, .outcomeKnown)
  | .markOutcomeUnknown id => some (id, .outcomeUnknown)
  | .markReported id => some (id, .reported)
  | _ => none

/-- The result an operation records. -/
def JournalOp.result : JournalOp → Option ActionResult
  | .recordOutcome _ result => some result
  | _ => none

/-- The entry an operation appends, given the current ones. -/
inductive Planned (entries : KeyMap Entry) (now : GoTime) : JournalOp → Entry → Prop where
  | received {a : Action} : validateAction a = .ok () → entries.get? a.id = none →
      Planned entries now (.recordReceived a) ⟨a, .received, none, [], GoTime.zero, now.utc⟩
  | claimed {id token : Str} {expiresAt : GoTime} {current : Entry} :
      entries.get? id = some current → current.state ≠ .reported →
      validateClaim token expiresAt = .ok () →
      Planned entries now (.setClaim id token expiresAt)
        { current with leaseToken := token, leaseExpiresAt := expiresAt.utc, updatedAt := now.utc }
  | advanced {op : JournalOp} {id : Str} {next : State} {current : Entry} :
      op.target = some (id, next) → entries.get? id = some current →
      allowedTransition current.state next = true →
      (∀ r, op.result = some r → r.actionID = id ∧ validateResult r = .ok ()) →
      Planned entries now op (advanced current now next op.result)

/-- The entry an operation finds and leaves as it is. -/
inductive Kept (entries : KeyMap Entry) : JournalOp → Entry → Prop where
  | received {a : Action} {e : Entry} : entries.get? a.id = some e →
      Kept entries (.recordReceived a) e
  | claimed {id token : Str} {expiresAt : GoTime} {e : Entry} : entries.get? id = some e →
      e.leaseToken = token → Kept entries (.setClaim id token expiresAt) e
  | repeated {op : JournalOp} {id : Str} {next : State} {e : Entry} :
      op.target = some (id, next) → entries.get? id = some e → e.state = next →
      (∀ r, op.result = some r → e.result = some r) → Kept entries op e

variable {entries : KeyMap Entry} {x : Except JournalError Plan} {p : Pending}

theorem planClaim_spec {expiresAt : GoTime} {token : Str}
    {plan : Plan} (h : planClaim entries now id token expiresAt = .ok plan) :
    (∃ e, plan = .keep e ∧ Kept entries (.setClaim id token expiresAt) e) ∨
      ∃ e, plan = .append e ∧ Planned entries now (.setClaim id token expiresAt) e := by
  simp only [planClaim, bind_ok_iff] at h
  obtain ⟨_, -, _, hc, h⟩ := h
  cases hg : entries.get? id with
  | none => simp [hg] at h
  | some current =>
    simp only [hg] at h
    split_ifs at h with hrepo he
    · cases h
      exact .inl ⟨current, rfl, .claimed hg he.1⟩
    · cases h
      exact .inr ⟨_, rfl, .claimed hg hrepo hc⟩

theorem checkRepeated_result {current : Entry} {next : State}
    (hop : op.target = some (id, next)) (h : checkRepeated current next op.result = .ok ())
    {r : ActionResult} (hr : op.result = some r) : current.result = some r := by
  cases op with
  | recordOutcome =>
    cases hop
    cases hr
    simp only [checkRepeated, JournalOp.result, check_eq_ok, Option.isSome_some, Bool.true_and,
      sameResult, beq_iff_eq] at h
    exact h
  | _ => cases hr

theorem planTransition_spec {o : JournalOp}
    {next : State} {plan : Plan} (hop : o.target = some (id, next))
    (hs : ∀ r, o.result = some r → r.actionID = id ∧ validateResult r = .ok ())
    (h : planTransition entries now id next o.result = .ok plan) :
    (∃ e, plan = .keep e ∧ Kept entries o e) ∨ ∃ e, plan = .append e ∧ Planned entries now o e := by
  simp only [planTransition, bind_ok_iff] at h
  obtain ⟨_, -, h⟩ := h
  cases hg : entries.get? id with
  | none => simp [hg] at h
  | some current =>
    simp only [hg] at h
    split_ifs at h with hst hp
    · obtain ⟨_, hrepeat, h⟩ := bind_ok_iff.1 h
      cases h
      exact .inl ⟨current, rfl, .repeated hop hg hst fun r hr =>
        checkRepeated_result hop hrepeat hr⟩
    · cases h
      exact .inr ⟨_, rfl, .advanced hop hg hp hs⟩

/-- What a started operation stands at. -/
def Started (lo : Int → Int) (now : GoTime) (j : Journal) (op : JournalOp) : Pending → Prop
  | .done j' none => Compacts lo j j' ∧ ∃ retention, op = .compactReported retention
  | .done j' (some e) => j' = j ∧ Kept j.entries op e
  | .write w => Ready lo j w ∧ Planned j.entries now op w.entry ∧
      ∀ a, op = .recordReceived a → w.journal.entries.size < maxActions

theorem carry_spec {now' : GoTime} (hop : ∀ a, op ≠ .recordReceived a)
    (hx : ∀ plan, x = .ok plan → (∃ e, plan = .keep e ∧ Kept j.entries op e) ∨
      ∃ e, plan = .append e ∧ Planned j.entries now op e)
    (h : j.carry lo now' x = .ok p) : Started lo now j op p := by
  cases x with
  | error => simp [Journal.carry] at h
  | ok plan =>
    rcases hx plan rfl with ⟨_, rfl, hk⟩ | ⟨_, rfl, hp⟩
    · cases h
      exact ⟨rfl, hk⟩
    · obtain ⟨_, hw, rfl⟩ := map_ok_iff.1 h
      obtain ⟨hr, rfl⟩ := prepare_spec hw
      exact ⟨hr, hp, fun a ha => absurd ha (hop a)⟩

theorem carry_error (h : j.carry lo now x = .error r) : Compacts lo j r.journal := by
  cases x with
  | error =>
    cases h
    exact .same
  | ok plan =>
    cases plan with
    | keep => cases h
    | append => exact prepare_error (map_error h)

theorem beginReceived_spec {a : Action} (h : j.beginReceived lo clock a = .ok p) :
    Started lo (clock 0) j (.recordReceived a) p := by
  simp only [Journal.beginReceived, bind_ok_iff, refuse_ok_iff] at h
  obtain ⟨_, hv, h⟩ := h
  cases hg : j.entries.get? a.id with
  | some =>
    simp only [hg, bind_ok_iff] at h
    obtain ⟨_, -, h⟩ := h
    cases h
    exact ⟨rfl, .received hg⟩
  | none =>
    simp only [hg, bind_ok_iff, refuse_ok_iff, check_eq_ok, decide_eq_true_eq] at h
    obtain ⟨_, hk, _, hz, h⟩ := h
    obtain ⟨_, hw, rfl⟩ := map_ok_iff.1 h
    obtain ⟨hr, he⟩ := prepare_spec hw
    refine ⟨{ hr with compacts := (makeSlot_spec hk).trans hr.compacts }, ?_, ?_⟩
    · rw [he]
      exact .received hv hg
    · intro _ _
      exact Nat.lt_of_le_of_lt hr.compacts.size_le hz

theorem beginReceived_error {a : Action} (h : j.beginReceived lo clock a = .error r) :
    Compacts lo j r.journal := by
  refine Compacts.same.of_refuse h fun _ _ h => ?_
  cases hg : j.entries.get? a.id with
  | some =>
    simp only [hg] at h
    refine Compacts.same.of_refuse h fun _ _ h => ?_
    cases h
  | none =>
    simp only [hg] at h
    refine Compacts.same.of_refuse h fun _ hslot h => ?_
    have hmade := makeSlot_spec hslot
    exact hmade.of_refuse h fun _ _ h => hmade.trans (prepare_error (map_error h))

/-- **What an operation does**: it leaves an entry it finds, compacts, or appends a planned entry,
possibly after compacting. -/
theorem start_spec (h : j.start lo clock op = .ok p) : Started lo (clock 0) j op p := by
  cases op with
  | recordReceived => exact beginReceived_spec h
  | setClaim =>
    exact carry_spec (by simp) (fun plan hp => planClaim_spec hp) h
  | markRunning | markOutcomeUnknown | markReported =>
    refine carry_spec (by simp) (fun plan hp => ?_) h
    exact planTransition_spec rfl (by simp [JournalOp.result]) hp
  | recordOutcome id result =>
    refine carry_spec (by simp) (fun plan hp => ?_) h
    simp only [planOutcome, bind_ok_iff, check_eq_ok, beq_iff_eq] at hp
    obtain ⟨_, hid, _, -, _, hv, hp⟩ := hp
    refine planTransition_spec rfl ?_ hp
    intro r hr
    cases hr
    exact ⟨hid, hv⟩
  | compactReported retention =>
    obtain ⟨⟨_, _⟩, hk, rfl⟩ := map_ok_iff.1 h
    exact ⟨compactReported_spec (refuse_ok_iff.1 hk), retention, rfl⟩

theorem start_error (h : j.start lo clock op = .error r) : Compacts lo j r.journal := by
  cases op with
  | recordReceived => exact beginReceived_error h
  | compactReported =>
    rw [refuse_error (map_error h)]
    exact .same
  | _ => exact carry_error h

/-! ## Redelivered actions -/

theorem sameAction_self (a : Action) : sameAction a a = true := by
  simp only [sameAction, beq_self_eq_true, Bool.true_and, List.all_eq_true, beq_iff_eq]
  intro e he
  rw [StrMap.get, KeyMap.mem_entries.1 he]
  rfl

/-- The comparison reads an absent parameter as an empty one. It takes different actions for the
same just when it finds no other difference and a parameter that is recorded as empty is absent. -/
theorem sameAction_exact_iff {a b : Action} (hid : a.id = b.id) :
    (sameAction a b = true ↔ a.type = b.type ∧ a.timeout = b.timeout ∧ a.params = b.params) ↔
      (sameAction a b = true → ∀ p ∈ a.params.entries, p.2 = [] → (b.params.get? p.1).isSome) := by
  have hsame : a.type = b.type ∧ a.timeout = b.timeout ∧ a.params = b.params →
      sameAction a b = true := by
    rintro ⟨htype, htimeout, hparams⟩
    simpa only [sameAction, hid, htype, htimeout, hparams] using sameAction_self a
  refine ⟨fun h heq p hp _ => ?_, fun h => ⟨fun heq => ?_, hsame⟩⟩
  · rw [← (h.1 heq).2.2, KeyMap.mem_entries.1 hp]
    rfl
  have hempty := h heq
  simp only [sameAction, Bool.and_eq_true, beq_iff_eq, List.all_eq_true, and_assoc] at heq
  obtain ⟨-, htype, htimeout, hsize, hall⟩ := heq
  refine ⟨htype, htimeout, KeyMap.eq_of_size (fun k v hk => ?_) hsize⟩
  have hread : (b.params.get? k).getD [] = v := hall (k, v) (KeyMap.mem_entries.2 hk)
  cases hb : b.params.get? k with
  | some v' => exact congrArg some (by rw [← hread, hb, Option.getD_some])
  | none =>
    -- what reads as empty because it is absent is recorded as empty
    rw [hb, Option.getD_none] at hread
    subst hread
    have hpresent := hempty (k, []) (KeyMap.mem_entries.2 hk) rfl
    rw [hb] at hpresent
    cases hpresent

/-- The offer differs from the recorded action in its type, its timeout, the number of its
parameters or the value of a recorded one, where an absent parameter reads as an empty one. -/
def OfferDiffers (recorded offered : Action) : Prop :=
  recorded.type ≠ offered.type ∨ recorded.timeout ≠ offered.timeout ∨
    recorded.params.size ≠ offered.params.size ∨
    ∃ p ∈ recorded.params.entries, offered.params.get p.1 ≠ p.2

/-- **A redelivered action** is answered with the recorded entry if it is the recorded action, and
otherwise is a conflict that changes nothing: just when the offer differs visibly or has every
parameter that is recorded as empty. -/
theorem redelivered_action_compared {j : Journal} {lo : Int → Int} {clock : Nat → GoTime}
    {a : Action} {e : Entry} (hvalid : validateAction a = .ok ())
    (hrecorded : j.entries.get? a.id = some e) (hid : e.action.id = a.id) :
    j.start lo clock (.recordReceived a) =
        (if e.action.type = a.type ∧ e.action.timeout = a.timeout ∧ e.action.params = a.params then
          .ok (.done j (some e))
        else .error ⟨.actionConflict, j⟩) ↔
      OfferDiffers e.action a ∨
        ∀ p ∈ e.action.params.entries, p.2 = [] → (a.params.get? p.1).isSome := by
  have hdiffers : OfferDiffers e.action a ↔ ¬sameAction e.action a = true := by
    simp only [OfferDiffers, sameAction, hid, beq_self_eq_true, Bool.true_and, Bool.and_eq_true,
      beq_iff_eq, List.all_eq_true]
    grind
  have hstart : j.start lo clock (.recordReceived a) =
      if sameAction e.action a then .ok (.done j (some e)) else .error ⟨.actionConflict, j⟩ := by
    simp only [Journal.start, Journal.beginReceived, hvalid, hrecorded]
    cases sameAction e.action a <;> rfl
  rw [hdiffers, ← imp_iff_not_or, ← sameAction_exact_iff hid, hstart]
  split_ifs <;> simp_all

/-- An action with one parameter, and the journal that has received it. -/
def oneParam (k v : String) : Action :=
  ⟨lit "a1", lit "inc-1", lit "drain_node", KeyMap.empty.insert (lit k) (lit v), 0⟩

def oneReceived (a : Action) : Entry := ⟨a, .received, none, [], GoTime.zero, GoTime.zero⟩

def oneJournal (a : Action) : Journal := ⟨[], KeyMap.empty.insert a.id (oneReceived a), 0⟩

theorem redelivered_action_compared_changed :
    (oneJournal (oneParam "grace" "30")).start (fun _ => 0) (fun _ => GoTime.zero)
        (.recordReceived (oneParam "grace" "0")) =
      .error ⟨.actionConflict, oneJournal (oneParam "grace" "30")⟩ :=
  ((redelivered_action_compared (a := oneParam "grace" "0")
    (e := oneReceived (oneParam "grace" "30"))
    (by decide) (by decide) rfl).2 (.inr (by decide))).trans (if_neg (by decide))

/-- Recorded with an empty parameter and offered with another one: the old entry is the answer. -/
theorem empty_parameter_hides_conflict :
    (oneParam "grace" "").params ≠ (oneParam "force" "true").params ∧
      (oneJournal (oneParam "grace" "")).start (fun _ => 0) (fun _ => GoTime.zero)
          (.recordReceived (oneParam "force" "true")) =
        .ok (.done (oneJournal (oneParam "grace" ""))
          (some (oneReceived (oneParam "grace" "")))) := by
  constructor
  · decide
  · rfl

/-! ## Marking interrupted actions -/

/-- The entry an interrupted action is given when the journal is opened. -/
def interruptedEntry (now : GoTime) (e : Entry) : Entry :=
  { e with state := .outcomeUnknown, result := none, updatedAt := now.utc }

theorem markInterrupted_spec {w : Write} (h : j.markInterrupted lo clock id = .ok w) :
    Ready lo j w ∧ ∃ e, j.entries.get? id = some e ∧ w.entry = interruptedEntry (clock 0) e := by
  rw [Journal.markInterrupted] at h
  cases hg : j.entries.get? id with
  | none => simp [hg] at h
  | some e =>
    simp only [hg] at h
    obtain ⟨hr, he⟩ := prepare_spec h
    exact ⟨hr, e, rfl, he⟩

end KubeNeuron.Agent
