import KubeNeuron.Store.ActionRuns

/-!
# Safety of the action queue

`Queue.Inv`: distinct keys, at most one held row per node, attempts that count the leases issued,
and lease columns that are those of the latest lease. `Effect.finished`: a row which is terminal or
gone stays so and is never leased.
-/

namespace KubeNeuron.Store

open Lib KubeNeuron.Types Queue CompleteCall

variable {q : Queue} {blob : Str} {r : ActionRow} {k : Nat} {c : CompleteCall} {w : World}

/-! ## The invariant -/

/-- The columns of a row agree with the history of the queue: the attempts count the leases issued,
a leased row carries the token and expiry of its latest lease, any other row carries none, and a
row that is not terminal has no result written. -/
structure ActionRow.Ok (q : Queue) (r : ActionRow) : Prop where
  attempts : r.attempts = q.claimCount r.serial
  leased : r.state = .leased → ∃ i, q.latest r.serial = some i ∧
    i.row.leaseToken = r.leaseToken ∧ i.row.leaseExpiresAtNs = r.leaseExpiresAtNs ∧
    r.leaseToken ≠ [] ∧ 0 < r.leaseExpiresAtNs
  idle : r.state ≠ .leased → r.leaseToken = [] ∧ r.leaseExpiresAtNs = 0
  boot : r.executorBootID = ((q.latest r.serial).map (·.row.executorBootID)).getD []
  unwritten : r.state.terminal = false → r.serial ∉ q.written
  readable : r.Readable

structure Queue.Inv (q : Queue) : Prop where
  ids : (q.rows.map (·.id)).Nodup
  serials : (q.rows.map (·.serial)).Nodup
  serial_lt : ∀ r ∈ q.rows, r.serial < q.inserted
  issued_lt : ∀ i ∈ q.issued, i.row.serial < q.inserted
  written_lt : ∀ k ∈ q.written, k < q.inserted
  single : SingleHeld q.clock q.rows
  rows : ∀ r ∈ q.rows, r.Ok q
  claims_le : ∀ k, q.claimCount k ≤ maxActionAttempts
  written_once : q.written.Nodup
  guarded : ∀ i ∈ q.issued, incidentHalted i.incidents i.row = false

/-- No lease was issued for a row that is inserted next. -/
theorem Queue.Inv.unissued (h : q.Inv) :
    ∀ i ∈ q.issued, ¬decide (i.row.serial = q.inserted) = true := by
  intro i hi heq
  exact Nat.ne_of_lt (h.issued_lt i hi) (of_decide_eq_true heq)

/-! ## Every effect keeps the invariant -/

theorem inv_start (t : Nat) : (World.start t).queue.Inv := by
  constructor <;> simp [World.start, World.queue, Database.empty, claimCount, SingleHeld]

theorem inv_keep (h : q.Inv) {clock : Nat} (hc : q.clock ≤ clock) : Queue.Inv { q with clock } :=
  { h with
    single := h.single.mono hc
    rows := fun r hr => { h.rows r hr with } }

theorem ok_of_fresh (h : q.Inv) {row : ActionRow} (hfr : row.Fresh)
    (hr : row.serial = q.inserted) : row.Ok q where
  attempts := by rw [hfr.attempts, hr, claimCount, List.countP_eq_zero.2 h.unissued]
  leased := fun hs => by simp [hfr.state] at hs
  idle := fun _ => ⟨hfr.token, hfr.expiry⟩
  boot := by rw [hfr.boot, hr, latest, List.find?_eq_none.2 h.unissued]; rfl
  unwritten := fun _ hw => by
    have := h.written_lt _ hw
    omega
  readable := hfr.readable

theorem inv_insert (h : q.Inv) {row : ActionRow} (hfr : row.Fresh)
    (hs : row.serial = q.inserted) (hid : ∀ r ∈ q.rows, r.id ≠ row.id) :
    Queue.Inv { q with rows := q.rows ++ [row], inserted := q.inserted + 1 } := by
  have hold : ∀ r ∈ q.rows ++ [row], held q.clock r = true → r ∈ q.rows := by
    intro r hr hh
    rcases List.mem_append.1 hr with hr | hr
    · exact hr
    · simp [List.mem_singleton.1 hr, held, hfr.state] at hh
  have hserials : ∀ r ∈ q.rows, r.serial ≠ row.serial := fun r hr => by
    have := h.serial_lt r hr
    omega
  exact { h with
    ids := nodup_map_insert h.ids hid
    serials := nodup_map_insert h.serials hserials
    serial_lt := forall_mem_insert (fun r hr => Nat.lt_succ_of_lt (h.serial_lt r hr))
      (Nat.lt_succ_of_le hs.le)
    issued_lt := fun i hi => Nat.lt_succ_of_lt (h.issued_lt i hi)
    written_lt := fun k hk => Nat.lt_succ_of_lt (h.written_lt k hk)
    single := h.single.of_held hold
    rows := forall_mem_insert (fun r hr => { h.rows r hr with }) { ok_of_fresh h hfr hs with } }

theorem inv_delete (h : q.Inv) (p : ActionRow → Bool) :
    Queue.Inv { q with rows := deleteWhere p q.rows } :=
  { h with
    ids := nodup_map_deleteWhere p h.ids
    serials := nodup_map_deleteWhere p h.serials
    serial_lt := fun r hr => h.serial_lt r (mem_deleteWhere.1 hr).1
    single := h.single.of_held fun _ hr _ => (mem_deleteWhere.1 hr).1
    rows := fun r hr => { h.rows r (mem_deleteWhere.1 hr).1 with } }

/-- A change of a row that ends its life: it keeps the row's keys, attempts and boot, clears the
lease and leaves the row terminal and readable. -/
structure Retires (f : ActionRow → ActionRow) : Prop where
  id : ∀ r, (f r).id = r.id
  serial : ∀ r, (f r).serial = r.serial
  attempts : ∀ r, (f r).attempts = r.attempts
  boot : ∀ r, (f r).executorBootID = r.executorBootID
  terminal : ∀ r, (f r).state.terminal = true
  token : ∀ r, (f r).leaseToken = []
  expiry : ∀ r, (f r).leaseExpiresAtNs = 0
  readable : ∀ r, r.Readable → (f r).Readable

theorem retires_tombstone {state : ActionState} (h : state = .dead ∨ state = .cancelled)
    (updatedAt : Int) : Retires (ActionRow.tombstone state updatedAt) where
  id _ := rfl
  serial _ := rfl
  attempts _ := rfl
  boot _ := rfl
  terminal _ := by rcases h with rfl | rfl <;> rfl
  token _ := rfl
  expiry _ := rfl
  readable _ h := h

theorem retires_finish (h : ∃ lo res, marshalActionResult lo res = some blob)
    (updatedAt : Int) : Retires (ActionRow.finish blob updatedAt) where
  id _ := rfl
  serial _ := rfl
  attempts _ := rfl
  boot _ := rfl
  terminal _ := rfl
  token _ := rfl
  expiry _ := rfl
  readable _ hr := ⟨hr.1, .inr h⟩

variable {f : ActionRow → ActionRow} {p : ActionRow → Bool} {q' : Queue}

theorem Retires.ok (hf : Retires f) (h : r.Ok q) : (f r).Ok q where
  attempts := by rw [hf.attempts, hf.serial, h.attempts]
  leased hs := by
    have := hf.terminal r
    simp [hs, ActionState.terminal] at this
  idle _ := ⟨hf.token r, hf.expiry r⟩
  boot := by rw [hf.boot, hf.serial, h.boot]
  unwritten ht := by simp [hf.terminal r] at ht
  readable := hf.readable r h.readable

theorem Retires.finished (hf : Retires f) {rows : List ActionRow}
    (h : ∀ r ∈ rows, r.serial = k → r.state.terminal = true) :
    ∀ r ∈ updateWhere p f rows, r.serial = k → r.state.terminal = true :=
  forall_mem_updateWhere h fun s _ _ _ => hf.terminal s

theorem inv_retire (h : q.Inv) (hf : Retires f) {written : List Nat}
    (hlt : ∀ k ∈ written, k < q.inserted)
    (honce : written.Nodup)
    (halive : ∀ r ∈ q.rows, p r = false → r.state.terminal = false → r.serial ∉ written) :
    Queue.Inv { q with rows := updateWhere p f q.rows, written } :=
  { h with
    ids := by rw [map_updateWhere _ hf.id]; exact h.ids
    serials := by rw [map_updateWhere _ hf.serial]; exact h.serials
    serial_lt := forall_mem_updateWhere h.serial_lt fun s hs _ => hf.serial s ▸ h.serial_lt s hs
    written_lt := hlt
    written_once := honce
    single := h.single.of_held fun _ hr => mem_of_held_updateWhere hf.terminal hr
    rows := fun r hr => by
      obtain ⟨s, hs, ⟨-, rfl⟩ | ⟨hp, rfl⟩⟩ := mem_updateWhere.1 hr
      · exact { hf.ok (h.rows s hs) with
          unwritten := fun ht => by simp [hf.terminal s] at ht }
      · exact { h.rows r hs with unwritten := halive r hs hp } }

theorem inv_finish (h : q.Inv)
    {updatedAt : Int} (hp : ∀ r ∈ q.rows, p r = true → r.state.terminal = false)
    (hb : ∃ lo res, marshalActionResult lo res = some blob) :
    Queue.Inv { q with
      rows := updateWhere p (ActionRow.finish blob updatedAt) q.rows
      written := (q.rows.filter p).map (·.serial) ++ q.written } := by
  refine inv_retire h (retires_finish hb updatedAt) ?_ ?_ ?_
  · intro k hk
    rcases List.mem_append.1 hk with hk | hk
    · obtain ⟨r, hr, rfl⟩ := List.mem_map.1 hk
      exact h.serial_lt r (List.mem_filter.1 hr).1
    · exact h.written_lt k hk
  · refine List.nodup_append.2 ⟨h.serials.sublist (List.filter_sublist.map _), h.written_once, ?_⟩
    rintro k hk l hl rfl
    obtain ⟨r, hr, rfl⟩ := List.mem_map.1 hk
    obtain ⟨hr, hpr⟩ := List.mem_filter.1 hr
    exact (h.rows r hr).unwritten (hp r hr hpr) hl
  intro r hr hpr ht hm
  rcases List.mem_append.1 hm with hm | hm
  · obtain ⟨_, hs, hser⟩ := List.mem_map.1 hm
    obtain ⟨hs, hps⟩ := List.mem_filter.1 hs
    rw [eq_of_key_eq h.serials hs hr hser, hpr] at hps
    cases hps
  · exact (h.rows r hr).unwritten ht hm

theorem ClaimCall.lease_id (c : ClaimCall) (r : ActionRow) : (c.lease r).id = r.id := rfl

theorem ClaimCall.lease_serial (c : ClaimCall) (r : ActionRow) : (c.lease r).serial = r.serial :=
  rfl

theorem claimCount_lease (q : Queue) (c : ClaimCall) (r : ActionRow) (incidents : List Incident)
    (rows : List ActionRow) (k : Nat) :
    claimCount { q with rows, issued := ⟨c.lease r, incidents⟩ :: q.issued } k =
      q.claimCount k + if r.serial = k then 1 else 0 := by
  simp [claimCount, List.countP_cons, ClaimCall.lease]

theorem ok_lease_self {c : ClaimCall} (h : r.Ok q)
    (hdur : 0 < c.leaseDuration) (ht : c.token ≠ []) (hf : claimable c.now r = true)
    (incidents : List Incident) (rows : List ActionRow) :
    (c.lease r).Ok { q with rows, issued := ⟨c.lease r, incidents⟩ :: q.issued } where
  attempts := by
    rw [claimCount_lease, c.lease_serial, if_pos rfl, ← h.attempts]
    rfl
  leased _ := by
    refine ⟨⟨c.lease r, incidents⟩, by simp [latest], rfl, rfl, ht, ?_⟩
    simp only [ClaimCall.lease, agentResultGrace]
    split_ifs <;> omega
  idle hs := absurd rfl hs
  boot := by
    simp [latest, ClaimCall.lease]
  unwritten _ := h.unwritten (not_terminal_of_claimable hf)
  readable := h.readable

theorem ok_lease_other {c : ClaimCall} {s : ActionRow} (h : s.Ok q)
    (hne : r.serial ≠ s.serial) (incidents : List Incident) (rows : List ActionRow) :
    s.Ok { q with rows, issued := ⟨c.lease r, incidents⟩ :: q.issued } where
  attempts := by rw [claimCount_lease, if_neg hne, h.attempts, Nat.add_zero]
  leased hs := by simpa [latest, c.lease_serial, hne] using h.leased hs
  idle := h.idle
  boot := by simpa [latest, c.lease_serial, hne] using h.boot
  unwritten := h.unwritten
  readable := h.readable

theorem inv_lease (h : q.Inv) {c : ClaimCall}
    {incidents : List Incident} (hr : r ∈ q.rows) (hn : c.now ≤ q.clock)
    (hdur : 0 < c.leaseDuration) (ht : c.token ≠ []) (hf : claimable c.now r = true)
    (hatts : r.attempts < maxActionAttempts)
    (hh : ∀ s ∈ q.rows, s.node = r.node → held c.now s = false)
    (hhalted : incidentHalted incidents r = false) :
    Queue.Inv { q with
      rows := updateWhere (c.takes r.id) c.lease q.rows
      issued := ⟨c.lease r, incidents⟩ :: q.issued } := by
  have hm : ∀ s, s ∈ updateWhere (c.takes r.id) c.lease q.rows ↔
      s = c.lease r ∨ (s ∈ q.rows ∧ s ≠ r) := fun s =>
    mem_updateWhere_single hr (takes_iff h.ids hr hf)
  have hser : ∀ s ∈ q.rows, s ≠ r → r.serial ≠ s.serial := fun s hs hne heq =>
    hne (eq_of_key_eq h.serials hs hr heq.symm)
  refine { h with
    ids := by rw [map_updateWhere _ c.lease_id]; exact h.ids
    serials := by rw [map_updateWhere _ c.lease_serial]; exact h.serials
    serial_lt := forall_mem_updateWhere h.serial_lt fun s hs _ => h.serial_lt s hs
    issued_lt := List.forall_mem_cons.2 ⟨h.serial_lt r hr, h.issued_lt⟩
    single := h.single.lease h.ids hr hn hf hh
    rows := ?_, claims_le := ?_
    guarded := List.forall_mem_cons.2 ⟨hhalted, h.guarded⟩ }
  · intro s hs
    rcases (hm s).1 hs with rfl | ⟨hs, hne⟩
    · exact ok_lease_self (h.rows r hr) hdur ht hf _ _
    · exact ok_lease_other (h.rows s hs) (hser s hs hne) _ _
  · intro k
    rw [claimCount_lease]
    split_ifs with hk
    · rw [← hk, ← (h.rows r hr).attempts]
      exact hatts
    · exact h.claims_le k

/-- **Every effect keeps the invariant.** -/
theorem Effect.inv (e : Effect q q') (h : q.Inv) : q'.Inv := by
  cases e with
  | keep _ hc => exact inv_keep h hc
  | insert _ hfr hs hid => exact inv_insert h hfr hs hid
  | settle _ _ updatedAt _ hst =>
    exact inv_retire h (retires_tombstone hst updatedAt) h.written_lt h.written_once
      fun r hr _ => (h.rows r hr).unwritten
  | delete p => exact inv_delete h p
  | finish _ _ _ hp hb => exact inv_finish h hp hb
  | lease _ _ _ hr hn hdur ht hf hatts hh hhalted =>
    exact inv_lease h hr hn hdur ht hf hatts hh hhalted

/-! ## Finished rows -/

/-- The row inserted with this serial is terminal or gone. -/
def Queue.Finished (q : Queue) (serial : Nat) : Prop :=
  serial < q.inserted ∧ ∀ r ∈ q.rows, r.serial = serial → r.state.terminal = true

/-- **A finished row stays finished and is issued no further lease.** -/
theorem Effect.finished (e : Effect q q') (h : q.Inv)
    (hk : q.Finished k) : q'.Finished k ∧ q'.claimCount k = q.claimCount k := by
  cases e with
  | keep => exact ⟨hk, rfl⟩
  | insert =>
    refine ⟨⟨Nat.lt_succ_of_lt hk.1, forall_mem_insert hk.2 fun hrk => ?_⟩, rfl⟩
    have := hk.1
    omega
  | settle _ _ updatedAt _ hst =>
    exact ⟨⟨hk.1, (retires_tombstone hst updatedAt).finished hk.2⟩, rfl⟩
  | delete => exact ⟨⟨hk.1, fun r hr => hk.2 r (mem_deleteWhere.1 hr).1⟩, rfl⟩
  | finish _ _ updatedAt _ hb =>
    exact ⟨⟨hk.1, (retires_finish hb updatedAt).finished hk.2⟩, rfl⟩
  | lease _ r _ hr _ _ _ hf =>
    -- the leased row was not terminal, so it is another one
    have hl := not_terminal_of_claimable hf
    have hne : r.serial ≠ k := fun hrk => by
      rw [hk.2 r hr hrk] at hl
      cases hl
    refine ⟨⟨hk.1, fun s hs hsk => ?_⟩, ?_⟩
    · rcases (mem_updateWhere_single hr (takes_iff h.ids hr hf)).1 hs with rfl | ⟨hs, -⟩
      · exact absurd hsk hne
      · exact hk.2 s hs hsk
    · rw [claimCount_lease, if_neg hne, Nat.add_zero]

/-- **A finished row is never changed**: as long as it is there, it was there before. -/
theorem Effect.mem_of_finished (e : Effect q q') (h : q.Inv)
    (hk : q.Finished k) (hr : r ∈ q'.rows) (hser : r.serial = k) : r ∈ q.rows := by
  have hu : ∀ {p : ActionRow → Bool} {f : ActionRow → ActionRow},
      r ∈ updateWhere p f q.rows → (∀ s, (f s).serial = s.serial) →
        (∀ s ∈ q.rows, p s = true → s.state.terminal = false) → r ∈ q.rows := by
    intro p f hr hf hp
    obtain ⟨s, hs, ⟨hps, rfl⟩ | ⟨-, rfl⟩⟩ := mem_updateWhere.1 hr
    · have hl := hp s hs hps
      rw [hk.2 s hs ((hf s).symm.trans hser)] at hl
      cases hl
    · exact hs
  cases e with
  | keep => exact hr
  | insert =>
    rcases List.mem_append.1 hr with hr | hr
    · exact hr
    have := hk.1
    rw [List.mem_singleton.1 hr] at hser
    omega
  | settle _ _ _ hp =>
    exact hu hr (fun _ => rfl) fun s hs hps => not_terminal_of_claimable (hp s hs hps)
  | delete => exact (mem_deleteWhere.1 hr).1
  | finish _ _ _ hp => exact hu hr (fun _ => rfl) hp
  | lease _ _ _ hs _ _ _ he =>
    refine hu hr (fun _ => rfl) fun t ht htakes => ?_
    rw [(takes_iff h.ids hs he t ht).1 htakes]
    exact not_terminal_of_claimable he

/-! ## Runs -/

/-- The invariant of a world: that of its queue, and of the claims under way. -/
def World.Inv (w : World) : Prop := w.queue.Inv ∧ w.CallsOk

theorem World.inv_start (t : Nat) : (World.start t).Inv :=
  ⟨Store.inv_start t, fun c hc => by simp [World.start] at hc⟩

theorem next_inv (w : World) (op : Op) (w' : World) (h : w.Inv) (hn : next w op = some w') :
    w'.Inv :=
  ⟨(next_effect h.2 h.1.ids hn).inv h.1, next_callsOk h.2 hn⟩

/-- **Every world a run reaches meets the invariant.** -/
theorem run_inv {t : Nat} {ops : List Op} (h : exec next (World.start t) ops = some w) : w.Inv :=
  exec_invariant next_inv (World.inv_start t) h

/-- **Along every run, a finished row stays finished and is issued no further lease.** -/
theorem run_finished {w' : World} {ops : List Op} (hw : w.Inv)
    (h : exec next w ops = some w') (hk : w.queue.Finished k) :
    w'.queue.Finished k ∧ w'.queue.claimCount k = w.queue.claimCount k := by
  refine exec_relates (R := fun w w' => w.queue.Finished k →
      w'.queue.Finished k ∧ w'.queue.claimCount k = w.queue.claimCount k)
    (fun _ hk => ⟨hk, rfl⟩) ?_ next_inv ?_ hw h hk
  · intro s t u hst htu hs
    obtain ⟨ht, hc⟩ := hst hs
    obtain ⟨hu, hc'⟩ := htu ht
    exact ⟨hu, hc'.trans hc⟩
  · intro s op t hs hn
    exact (next_effect hs.2 hs.1.ids hn).finished hs.1

theorem finished_of_terminal (h : w.Inv) (hr : r ∈ w.db.actions)
    (ht : r.state.terminal = true) : w.queue.Finished r.serial := by
  refine ⟨h.1.serial_lt r hr, fun s hs heq => ?_⟩
  rw [eq_of_key_eq h.1.serials hs hr heq]
  exact ht

theorem finished_of_pruned {w' : World} (h : w.Inv) {now : Nat} {retention : Int}
    (hprune : next w (.pruneAudit now retention) = some w')
    (hr : r ∈ w.db.actions) {inc : Incident} (hi : inc ∈ w.db.incidents)
    (hold : terminalOld now retention inc = true) (hid : inc.id = r.incidentID) :
    w'.queue.Finished r.serial ∧ w'.issued = w.issued := by
  obtain ⟨-, rfl⟩ := guarded hprune
  refine ⟨⟨h.1.serial_lt r hr, fun s hs heq => ?_⟩, rfl⟩
  obtain ⟨hs, hg⟩ := mem_deleteWhere.1 hs
  rw [eq_of_key_eq h.1.serials hs hr heq] at hg
  have := List.any_eq_false.1 hg inc hi
  simp [hold, hid] at this

/-! ## Completions -/

/-- The completion presents the token of the latest lease issued for the row, the row is still
under that lease, and the lease had not expired when the completion was called. -/
structure CompleteCall.Holds (c : CompleteCall) (q : Queue) (r : ActionRow) (i : Issued) :
    Prop where
  id : r.id = c.actionID
  leased : r.state = .leased
  latest : q.latest r.serial = some i
  token : i.row.leaseToken = c.leaseToken
  live : c.now < i.row.leaseExpiresAtNs

theorem boot_eq_of_latest (h : r.Ok q) {i : Issued}
    (hi : q.latest r.serial = some i) : r.executorBootID = i.row.executorBootID := by
  rw [h.boot, hi]
  rfl

theorem accepts_iff (h : r.Ok q) : c.accepts r = true ↔
      ∃ i, c.Holds q r i ∧ (i.row.executorBootID = [] ∨ i.row.executorBootID = c.bootID) := by
  simp only [accepts, Bool.and_eq_true, Bool.or_eq_true, decide_eq_true_eq]
  constructor
  · rintro ⟨⟨⟨⟨hid, hst⟩, ht⟩, _⟩, hboot⟩
    obtain ⟨i, hi, hitok, _, -, -⟩ := h.leased hst
    rw [boot_eq_of_latest h hi] at hboot
    exact ⟨i, ⟨hid, hst, hi, hitok.trans ht, by omega⟩, hboot⟩
  rintro ⟨_, hh, hboot⟩
  obtain ⟨_, hj, hjtok, _, -, -⟩ := h.leased hh.leased
  cases hh.latest.symm.trans hj
  have hl := hh.live
  rw [boot_eq_of_latest h hj]
  exact ⟨⟨⟨⟨hh.id, hh.leased⟩, hjtok.symm.trans hh.token⟩, by omega⟩, hboot⟩

theorem classify_row (h : r.Ok q)
    (hid : r.id = c.actionID) (hk : c.leaseToken ≠ []) {current : QueuedAction}
    (hs : scanAction c.localOffset r = some current) :
    (current.leaseToken = c.leaseToken ∧ current.leaseExpiresAt.ns > c.now ∧
        current.executorBootID ≠ [] ∧ current.executorBootID ≠ c.bootID) ↔
      ∃ i, c.Holds q r i ∧ i.row.executorBootID ≠ [] ∧ i.row.executorBootID ≠ c.bootID := by
  obtain ⟨_, hv, hboot, hvtok, hvexp⟩ := scanAction_ok h.readable c.localOffset
  cases hv.symm.trans hs
  rw [hboot, hvtok, hvexp]
  by_cases hst : r.state = .leased
  · obtain ⟨i, hi, hitok, _, -, hp⟩ := h.leased hst
    simp only [hst, hp, and_self, if_true, boot_eq_of_latest h hi]
    constructor
    · rintro ⟨ht, _, hb⟩
      exact ⟨i, ⟨hid, hst, hi, hitok.trans ht, by omega⟩, hb⟩
    rintro ⟨_, hj, hb⟩
    cases hi.symm.trans hj.latest
    have hl := hj.live
    exact ⟨hitok.symm.trans hj.token, by omega, hb⟩
  · simp only [hst]
    constructor
    · rintro ⟨ht, -⟩
      exact absurd ht.symm hk
    · rintro ⟨_, hi, -⟩
      exact absurd hi.leased hst

theorem classify_spec (h : w.Inv) (ht : c.leaseToken ≠ []) :
    (c.classify w.db = .notFound ∨ c.classify w.db = .bootMismatch ∨ c.classify w.db = .leaseLost) ∧
    (c.classify w.db = .bootMismatch ↔
      ∃ r ∈ w.db.actions, ∃ i, c.Holds w.queue r i ∧ i.row.executorBootID ≠ [] ∧
        i.row.executorBootID ≠ c.bootID) := by
  rw [classify]
  split
  next hn =>
    refine ⟨.inl rfl, ⟨fun hm => CompleteOutcome.noConfusion hm, ?_⟩⟩
    rintro ⟨r, hr, _, hi, -⟩
    have := List.find?_eq_none.1 hn r hr
    simp [hi.id] at this
  rename_i r hf
  have hr := List.mem_of_find?_eq_some hf
  have hid : r.id = c.actionID := by simpa using List.find?_some hf
  have hok := h.1.rows r hr
  -- the row with the ID is the only one the right side can be about
  have honly : (∃ s ∈ w.db.actions, ∃ i, c.Holds w.queue s i ∧ i.row.executorBootID ≠ [] ∧
      i.row.executorBootID ≠ c.bootID) ↔ ∃ i, c.Holds w.queue r i ∧
      i.row.executorBootID ≠ [] ∧ i.row.executorBootID ≠ c.bootID := by
    constructor
    · rintro ⟨_, hs, i, hi, hb⟩
      obtain rfl := eq_of_key_eq h.1.ids hs hr (hi.id.trans hid.symm)
      exact ⟨i, hi, hb⟩
    · rintro ⟨i, hi, hb⟩
      exact ⟨r, hr, i, hi, hb⟩
  obtain ⟨_, hscan, -⟩ := scanAction_ok hok.readable c.localOffset
  rw [honly, ← classify_row hok hid ht hscan]
  simp only [hscan]
  split_ifs with hcond <;> simp [hcond]

theorem CompleteCall.update_of_none {db : Database}
    (h : db.actions.any c.accepts = false) : c.update blob db = db := by
  have hn : ∀ r ∈ db.actions, c.accepts r = false := by simpa using h
  rw [update, updateWhere_of_none hn]

theorem CompleteCall.update_of_accepts {db : Database}
    (hi : (db.actions.map (·.id)).Nodup) (h : db.actions.any c.accepts = true) :
    c.update blob db = { db with
      actions := updateWhere (fun r => r.id = c.actionID) (ActionRow.finish blob c.now)
        db.actions } := by
  obtain ⟨r, hr, ha⟩ := List.any_eq_true.1 h
  have hid : ∀ s, c.accepts s = true → s.id = c.actionID := fun s hs => by
    simp only [accepts, Bool.and_eq_true, decide_eq_true_eq] at hs
    exact hs.1.1.1.1
  rw [update]
  congr 1
  refine updateWhere_congr fun s hs => ?_
  rw [Bool.eq_iff_iff, decide_eq_true_eq]
  refine ⟨hid s, fun hs' => ?_⟩
  rw [eq_of_key_eq hi hs hr (hs'.trans (hid r ha).symm)]
  exact ha

theorem not_holds_of_nil (h : r.Ok q) (ht : c.leaseToken = []) (i : Issued) : ¬ c.Holds q r i := by
  intro hi
  obtain ⟨_, hj, hjtok, -, hne, -⟩ := h.leased hi.leased
  cases hi.latest.symm.trans hj
  exact hne (hjtok.symm.trans (hi.token.trans ht))

/-! ## What holds over every run -/

/-- **Safety of the queue.** In every world a run reaches, a node has at most one row under a live
lease, no row was claimed more than eight times, and no claim returned a row whose incident was
halted when it was claimed. A row that is done, dead or cancelled is never leased again, and neither
is a row whose incident a prune deletes: it goes with the incident. -/
theorem queue_safe {t : Nat} {ops : List Op} {w : World}
    (h : exec next (World.start t) ops = some w) :
    SingleHeld w.clock w.db.actions ∧
    (∀ serial, w.queue.claimCount serial ≤ 8) ∧
    (∀ i ∈ w.issued, incidentHalted i.incidents i.row = false) ∧
    (∀ r ∈ w.db.actions, r.state.terminal = true → ∀ later w', exec next w later = some w' →
      w'.queue.claimCount r.serial = w.queue.claimCount r.serial ∧
        ∀ s ∈ w'.db.actions, s.serial = r.serial → s.state.terminal = true) ∧
    (∀ now retention pruned, next w (.pruneAudit now retention) = some pruned →
      ∀ inc ∈ w.db.incidents, terminalOld now retention inc = true →
      ∀ r ∈ w.db.actions, inc.id = r.incidentID → ∀ later w', exec next pruned later = some w' →
        w'.queue.claimCount r.serial = w.queue.claimCount r.serial) := by
  have hinv := run_inv h
  refine ⟨hinv.1.single, hinv.1.claims_le, hinv.1.guarded, ?_, ?_⟩
  · intro r hr ht later w' hlater
    obtain ⟨hfin, hcount⟩ := run_finished hinv hlater (finished_of_terminal hinv hr ht)
    exact ⟨hcount, hfin.2⟩
  intro now retention pruned hprune inc hinc hold r hr hid later w' hlater
  obtain ⟨hfin, hissued⟩ := finished_of_pruned hinv hprune hr hinc hold hid
  obtain ⟨-, hcount⟩ := run_finished (next_inv _ _ _ hinv hprune) hlater hfin
  rw [hcount, claimCount]
  exact congrArg _ hissued

/-- An incident on node `n1`. -/
def sampleIncident (state : IncidentState) : Incident :=
  { id := lit "inc-1"
    target := ⟨lit "n1", [], 0, []⟩
    cls := lit "xid"
    state
    playbook := []
    stepIndex := 0
    attempt := 0
    dryRun := false
    signalSeen := 1
    vendor := []
    remediationSlotHeld := false
    approvalEpoch := 0
    openedAt := 0
    updatedAt := 0
    stateChangedAt := 0
    resolvedAt := none
    version := 1 }

def sampleAction : Action := ⟨lit "act-1", lit "inc-1", lit "cordon", StrMap.empty, 0⟩

/-- A claim for node `n1`. -/
def sampleClaim (now : Nat) : ClaimCall := ⟨lit "n1", lit "boot-1", 1, [], lit "tok-1", now⟩

/-- Enqueue the sample action and claim it. -/
def enqueueAndClaim (now : Nat) : List Op :=
  [.enqueueAction (lit "n1") sampleAction now, .beginClaim (sampleClaim now),
    .deadLetter (sampleClaim now), .lease (sampleClaim now)]

theorem queue_safe_of_claim :
    ∃ w, exec next (World.start 0) (enqueueAndClaim 0) = some w ∧ w.issued.length = 1 ∧
      (∃ r ∈ w.db.actions, held w.clock r = true) ∧
      SingleHeld w.clock w.db.actions := by
  exact reached (by decide +kernel) fun w hw (hrun : w.issued.length = 1 ∧
    ∃ r ∈ w.db.actions, held w.clock r = true) => ⟨hrun.1, hrun.2, (queue_safe hw).1⟩

/-- **The rows record the leases.** In every run a row counts the leases issued for it, a leased row
has the token and the expiry of the latest, and any other row has none. -/
theorem leases_recorded {t : Nat} {ops : List Op} (h : exec next (World.start t) ops = some w)
    (hr : r ∈ w.db.actions) : r.attempts = w.queue.claimCount r.serial ∧
      (r.state = .leased → ∃ i, w.queue.latest r.serial = some i ∧
        i.row.leaseToken = r.leaseToken ∧ i.row.leaseExpiresAtNs = r.leaseExpiresAtNs) ∧
      (r.state ≠ .leased → r.leaseToken = [] ∧ r.leaseExpiresAtNs = 0) := by
  have hok := (run_inv h).1.rows r hr
  refine ⟨hok.attempts, fun hl => ?_, hok.idle⟩
  obtain ⟨i, hi, ht, he, -⟩ := hok.leased hl
  exact ⟨i, hi, ht, he⟩

theorem leases_recorded_of_claim :
    ∃ w, exec next (World.start 0) (enqueueAndClaim 0) = some w ∧
      ∃ r ∈ w.db.actions, r.state = .leased ∧ r.attempts = w.queue.claimCount r.serial := by
  refine reached (by decide +kernel) fun w hw (h : ∃ r ∈ w.db.actions, r.state = .leased) => ?_
  obtain ⟨r, hr, hl⟩ := h
  exact ⟨r, hr, hl, (leases_recorded hw hr).1⟩

/-- An incident that is resolved and old is pruned; an action enqueued for it afterwards is claimed,
since an action without an incident row stays claimable. -/
theorem claim_after_prune :
    ∃ w, exec next (World.start 0)
        [.insertIncident (sampleIncident .resolved), .tick 10000000000] = some w ∧
      sampleIncident .resolved ∈ w.db.incidents ∧
      ∃ pruned, next w (.pruneAudit 10000000000 5000000000) = some pruned ∧
        sampleIncident .resolved ∉ pruned.db.incidents ∧ pruned.issued = [] ∧
        ∃ w', exec next pruned (enqueueAndClaim 10000000000) = some w' ∧
          ∃ i ∈ w'.issued, i.row.incidentID = (sampleIncident .resolved).id := by
  decide +kernel

/-- **Completions are exact.** In every run no row has its result written twice. A call of
`CompleteClaimedAction` writes a row exactly when the row is under the latest lease issued for it,
the call presents the token of that lease before its expiry, and the boot recorded at that claim is
empty or the caller's; then the row is the only change. Every other call changes nothing, and
returns boot-mismatch exactly when, at the read that looks for the reason, token and expiry are
right and the recorded boot is another one. -/
theorem completion_exact {t : Nat} {ops later : List Op} {w atRead : World}
    (h : exec next (World.start t) ops = some w) (hread : exec next w later = some atRead)
    (c : CompleteCall) (db : Database) (outcome : CompleteOutcome)
    (hcall : completeClaimedAction c w.db atRead.db = (db, outcome)) :
    w.written.Nodup ∧
    (outcome = .ok ↔ marshalActionResult c.localOffset c.res ≠ none ∧
      ∃ r ∈ w.db.actions, ∃ i, c.Holds w.queue r i ∧
        (i.row.executorBootID = [] ∨ i.row.executorBootID = c.bootID)) ∧
    (outcome = .ok → ∃ blob, marshalActionResult c.localOffset c.res = some blob ∧
      db = { w.db with
        actions := updateWhere (fun r => r.id = c.actionID) (ActionRow.finish blob c.now)
          w.db.actions }) ∧
    (outcome ≠ .ok → db = w.db ∧
      (outcome = .notFound ∨ outcome = .bootMismatch ∨ outcome = .leaseLost ∨
        (outcome = .unprintable ∧ marshalActionResult c.localOffset c.res = none)) ∧
      (outcome = .bootMismatch ↔ marshalActionResult c.localOffset c.res ≠ none ∧
        ∃ r ∈ atRead.db.actions, ∃ i, c.Holds atRead.queue r i ∧ i.row.executorBootID ≠ [] ∧
          i.row.executorBootID ≠ c.bootID)) := by
  have hinv := run_inv h
  have hinv' := exec_invariant next_inv hinv hread
  refine ⟨hinv.1.written_once, ?_⟩
  rw [completeClaimedAction] at hcall
  by_cases htok : c.leaseToken = []
  · -- without a token nothing is held and the call returns at once
    rw [if_pos htok] at hcall
    cases hcall
    have hnot := fun r hr i => not_holds_of_nil (hinv.1.rows r hr) htok i
    have hnot' := fun r hr i => not_holds_of_nil (hinv'.1.rows r hr) htok i
    refine ⟨⟨fun hm => CompleteOutcome.noConfusion hm, ?_⟩, fun hm => by simp at hm, fun _ =>
      ⟨rfl, by simp, ⟨fun hm => CompleteOutcome.noConfusion hm, ?_⟩⟩⟩
    · rintro ⟨-, r, hr, i, hi, -⟩
      exact absurd hi (hnot r hr i)
    · rintro ⟨-, r, hr, i, hi, -⟩
      exact absurd hi (hnot' r hr i)
  · rw [if_neg htok] at hcall
    cases hblob : marshalActionResult c.localOffset c.res with
    | none =>
      simp only [hblob] at hcall
      cases hcall
      simp
    | some blob =>
      simp only [hblob] at hcall
      cases hcall
      obtain ⟨hkind, hboot⟩ := classify_spec hinv' htok
      have haccepts := exists_congr fun r =>
        and_congr_right fun hr : r ∈ w.db.actions => accepts_iff (c := c) (hinv.1.rows r hr)
      rw [← haccepts, ← List.any_eq_true]
      by_cases hany : w.db.actions.any c.accepts = true
      · simp only [hany]
        exact ⟨by simp, fun _ => ⟨blob, rfl, update_of_accepts hinv.1.ids hany⟩,
          fun hm => absurd rfl hm⟩
      have hfalse := Bool.eq_false_iff.mpr hany
      simp only [hfalse, Bool.false_eq_true, if_false]
      refine ⟨?_, ?_, fun _ => ⟨update_of_none hfalse, ?_, ?_⟩⟩
      · rcases hkind with hk | hk | hk <;> simp [hk]
      · rcases hkind with hk | hk | hk <;> simp [hk]
      · rcases hkind with hk | hk | hk <;> simp [hk]
      · rw [hboot]
        simp

/-- The completion of the sample action under the sample lease, with the given start time. -/
def sampleCompletion (startedAt : GoTime) : CompleteCall :=
  { actionID := lit "act-1"
    leaseToken := lit "tok-1"
    bootID := lit "boot-1"
    res := { ActionResult.zero with ok := true, startedAt }
    now := 0
    localOffset := fun _ => 0 }

theorem completion_exact_of_claim : ∃ w, exec next (World.start 0) (enqueueAndClaim 0) = some w ∧
      (completeClaimedAction (sampleCompletion GoTime.zero) w.db w.db).2 = .ok ∧
      ∃ r ∈ w.db.actions, ∃ i, (sampleCompletion GoTime.zero).Holds w.queue r i := by
  refine reached (by decide +kernel) fun w hw
    hok => ⟨hok, ?_⟩
  obtain ⟨-, hiff, -⟩ := completion_exact hw (exec_nil w) (sampleCompletion GoTime.zero) _ _
    (Prod.eta _).symm
  obtain ⟨-, r, hr, i, hi, -⟩ := hiff.mp hok
  exact ⟨r, hr, i, hi⟩

/-- Two completions that are refused although they present the token and boot of the latest lease
before its expiry: a repeated one, since the first one ended the lease, and one whose result has a
time after the year 9999, which has no JSON form. -/
theorem completion_refused_under_live_lease : (∃ w r i, exec next (World.start 0)
        (enqueueAndClaim 0 ++ [.completeClaimedAction (sampleCompletion GoTime.zero)]) = some w ∧
      r ∈ w.db.actions ∧ r.id = lit "act-1" ∧ w.queue.latest r.serial = some i ∧
      i.row.leaseToken = lit "tok-1" ∧ 0 < i.row.leaseExpiresAtNs ∧
      i.row.executorBootID = lit "boot-1" ∧
      (completeClaimedAction (sampleCompletion GoTime.zero) w.db w.db).2 = .leaseLost) ∧
    (∃ w, exec next (World.start 0) (enqueueAndClaim 0) = some w ∧
      (completeClaimedAction (sampleCompletion ⟨253402300800000000000, .utc, none⟩) w.db w.db).2 =
        .unprintable) := by
  simp only [exists_and_left]
  decide +kernel

end KubeNeuron.Store
