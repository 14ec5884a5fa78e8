import KubeNeuron.Controller.Ingest
import KubeNeuron.Lib.Run
import KubeNeuron.Store.Outbox

/-!
# Runs of the event pipeline

Events arrive, workers claim workflow items and process them, and time passes, in any order; other
writers update incidents at the version they read. The catalog belongs to the call, since the
configuration can change.

`ArchiveOk`: event rows and workflow items correspond one to one. `ItemsOk`: attempts count the
claims, and exactly the done items committed. `CountsOk`: an incident has seen as many signals as
were classified to it.
-/

namespace KubeNeuron.Controller

open Lib KubeNeuron.Types Store

/-! ## Worlds and operations -/

/-- The store, the clock and the claims between their statements; then the history: the event IDs
that arrived, the items claimed, the items whose transaction committed, and the incident each
classified item went to. -/
structure EventWorld where
  db : Database
  clock : Nat
  begun : List EventClaim
  ready : List EventClaim
  arrived : List Str
  claims : List Nat
  committed : List Nat
  classified : List (Nat × Str)

/-- The world before the first operation. -/
def EventWorld.start (clock : Nat) : EventWorld :=
  ⟨Database.empty, clock, [], [], [], [], [], []⟩

/-- A worker processing the item it claimed. `fails` is a failure of the callback for a reason
outside the modelled statements. -/
structure ProcessCall where
  outboxID : Nat
  leaseToken : Str
  requiredAt : Nat
  completedAt : Nat
  catalog : AgentEvent → Option Signal
  env : IngestEnv
  fails : Bool

/-- The operations of a run. -/
inductive EventOp where
  | tick (d : Nat)
  | archiveAndEnqueueEvent (ev : AgentEvent) (now : Nat)
  | beginClaim (c : EventClaim)
  | deadLetterEvents (c : EventClaim)
  | leaseEvent (c : EventClaim)
  | process (p : ProcessCall)
  | updateIncident (inc : Incident)

/-- The event a claim of the item returns. -/
def claimedEvent (outboxID : Nat) (db : Database) : Option AgentEvent := do
  let item ← db.outbox.find? fun o => o.id = outboxID
  let row ← db.events.find? fun e => e.id = item.eventRowID
  row.event

/-- The callback of `drainEventOutbox`: ingest the signal of an actionable event, and nothing for
any other. -/
def ProcessCall.callback (p : ProcessCall) (ev : AgentEvent) (db : Database) :
    Except PromoteError (Database × Option Str) :=
  match p.catalog ev with
  | none => .ok (db, none)
  | some sig =>
    match ingestTx p.env sig db with
    | .error e => .error e
    | .ok (db', id) => .ok (db', some id)

/-- The world after a worker processed an item, successfully or not. -/
def EventWorld.process (w : EventWorld) (p : ProcessCall) (ev : AgentEvent) : EventWorld :=
  match processClaimedEvent p.outboxID p.leaseToken p.requiredAt p.completedAt (p.callback ev)
      w.db with
  | .error _ => w
  | .ok (db, id) =>
    { w with
      db
      committed := p.outboxID :: w.committed
      classified := (id.map fun i => (p.outboxID, i)).toList ++ w.classified }

/-- The update leaves the number of signals of the row it was read from. -/
def keepsSignals (inc : Incident) (db : Database) : Bool :=
  db.incidents.all fun row => !versioned inc row || row.signalSeen = inc.signalSeen

def eventNext (w : EventWorld) : EventOp → Option EventWorld
  | .tick d => some { w with clock := w.clock + d }
  | .archiveAndEnqueueEvent ev now =>
    if now ≤ w.clock then
      some { w with
        db := (archiveAndEnqueueEvent ev now w.db).1, arrived := ev.eventID :: w.arrived }
    else none
  | .beginClaim c =>
    if c.workerID ≠ [] ∧ 0 < c.leaseDuration ∧ c.token ≠ [] ∧ c.now = w.clock then
      some { w with begun := c :: w.begun }
    else none
  | .deadLetterEvents c =>
    if c ∈ w.begun then
      some { w with
        db := deadLetterEvents c w.db, begun := w.begun.erase c, ready := c :: w.ready }
    else none
  | .leaseEvent c =>
    if c ∈ w.ready then
      some { w with
        db := (leaseEvent c w.db).1
        ready := w.ready.erase c
        claims := (leaseEvent c w.db).2.toList ++ w.claims }
    else none
  | .process p =>
    if p.requiredAt ≤ p.completedAt ∧ p.completedAt ≤ w.clock then
      (claimedEvent p.outboxID w.db).map fun ev => if p.fails then w else w.process p ev
    else none
  | .updateIncident inc =>
    if keepsSignals inc w.db then
      (updateIncident inc w.db).toOption.map fun db => { w with db }
    else none

open EventWorld

/-! ## The invariant -/

/-- Event rows and workflow items correspond, and no event ID is archived twice. -/
structure ArchiveOk (db : Database) (arrived : List Str) : Prop where
  rows : db.outbox.map (·.eventRowID) = db.events.map (·.id)
  eventIDs : (db.events.map (·.id)).Nodup
  event_le : ∀ e ∈ db.events, e.id ≤ db.eventSeq
  outboxIDs : (db.outbox.map (·.id)).Nodup
  outbox_le : ∀ o ∈ db.outbox, o.id ≤ db.outboxSeq
  distinct : ((db.events.map (·.eventID)).filter (· ≠ [])).Nodup
  arrived : ∀ id, id ∈ arrived ↔ id ∈ db.events.map (·.eventID)

/-- The attempts of an item count its claims, up to the limit, and its work was committed once if it
is done and never otherwise. -/
structure ItemsOk (db : Database) (claims committed : List Nat) : Prop where
  attempts : ∀ o ∈ db.outbox, o.attempts = claims.count o.id
  attempts_le : ∀ o ∈ db.outbox, o.attempts ≤ maxEventAttempts
  claims_le : ∀ id ∈ claims, id ≤ db.outboxSeq
  commits : ∀ o ∈ db.outbox, committed.count o.id = if o.state = .done then 1 else 0
  committed_le : ∀ id ∈ committed, id ≤ db.outboxSeq

/-- An incident has seen the signals classified to it, each of an item of its own that is done. -/
structure CountsOk (db : Database) (classified : List (Nat × Str)) : Prop where
  ids : (db.incidents.map (·.id)).Nodup
  seen : ∀ e ∈ seenSignals db.incidents, e.2 = classified.countP (·.2 = e.1)
  known : ∀ p ∈ classified, p.2 ∈ db.incidents.map (·.id)
  done : ∀ p ∈ classified, ∃ o ∈ db.outbox, o.id = p.1 ∧ o.state = .done
  once : (classified.map Prod.fst).Nodup

/-- The invariant of the pipeline. -/
structure EventWorld.Inv (w : EventWorld) : Prop where
  archive : ArchiveOk w.db w.arrived
  items : ItemsOk w.db w.claims w.committed
  counts : CountsOk w.db w.classified

/-! ## Archiving keeps the invariant -/

variable {db : Database} {claims committed : List Nat} {classified : List (Nat × Str)}
  {o : OutboxRow} {w : EventWorld}

variable {arrived : List Str} {f : OutboxRow → OutboxRow} {p : OutboxRow → Bool} {now : Nat}
  {c : EventClaim} {w' : EventWorld}

theorem ArchiveOk.archive (h : ArchiveOk db arrived) (ev : AgentEvent) (now : Nat) :
    ArchiveOk (archiveAndEnqueueEvent ev now db).1 (ev.eventID :: arrived) := by
  rw [archiveAndEnqueueEvent]
  split_ifs with hdup
  · -- a replay: the ID is archived already
    refine { h with arrived := fun id => ?_ }
    rw [List.mem_cons, h.arrived]
    refine ⟨?_, .inr⟩
    rintro (rfl | hid)
    · simpa using hdup.2
    · exact hid
  · refine
      { rows := by simp [h.rows, outboxRow, archivedRow]
        eventIDs := ?_, event_le := ?_, outboxIDs := ?_, outbox_le := ?_, distinct := ?_
        arrived := fun id => ?_ }
    · exact nodup_map_insert h.eventIDs fun e he =>
        Nat.ne_of_lt (Nat.lt_succ_of_le (h.event_le e he))
    · exact forall_mem_insert (fun e he => Nat.le_succ_of_le (h.event_le e he)) (Nat.le_refl _)
    · exact nodup_map_insert h.outboxIDs fun o ho =>
        Nat.ne_of_lt (Nat.lt_succ_of_le (h.outbox_le o ho))
    · exact forall_mem_insert (fun o ho => Nat.le_succ_of_le (h.outbox_le o ho)) (Nat.le_refl _)
    · rw [List.map_append, List.map_singleton, List.filter_append]
      by_cases hid : ev.eventID = []
      · simpa [archivedRow, hid] using h.distinct
      have hn : ev.eventID ∉ db.events.map (·.eventID) := by simpa [hid] using hdup
      have hsingle : [(archivedRow (db.eventSeq + 1) ev).eventID].filter (· ≠ []) =
          [ev.eventID] := by simp [archivedRow, hid]
      rw [hsingle, ← List.concat_eq_append]
      exact List.Nodup.concat (fun hm => hn (List.mem_filter.1 hm).1) h.distinct
    · rw [List.mem_cons, h.arrived, List.map_append, or_comm]
      simp [archivedRow]

theorem ItemsOk.archive (h : ItemsOk db claims committed) (ev : AgentEvent) (now : Nat) :
    ItemsOk (archiveAndEnqueueEvent ev now db).1 claims committed := by
  rw [archiveAndEnqueueEvent]
  split_ifs
  · exact h
  have hfr : ∀ ids : List Nat, (∀ id ∈ ids, id ≤ db.outboxSeq) →
      ids.count (db.outboxSeq + 1) = 0 := fun ids hi => by
    refine List.count_eq_zero.2 fun hm => ?_
    have := hi _ hm
    omega
  constructor
  · exact forall_mem_insert h.attempts (hfr claims h.claims_le).symm
  · exact forall_mem_insert h.attempts_le (Nat.zero_le _)
  · exact fun id hid => Nat.le_succ_of_le (h.claims_le id hid)
  · exact forall_mem_insert h.commits (hfr committed h.committed_le)
  · exact fun id hid => Nat.le_succ_of_le (h.committed_le id hid)

theorem CountsOk.archive (h : CountsOk db classified) (ev : AgentEvent) (now : Nat) :
    CountsOk (archiveAndEnqueueEvent ev now db).1 classified := by
  rw [archiveAndEnqueueEvent]
  split_ifs
  · exact h
  refine { h with done := fun p hp => ?_ }
  obtain ⟨o, ho, hd⟩ := h.done p hp
  exact ⟨o, List.mem_append_left _ ho, hd⟩

/-! ## Updates of the outbox keep the invariant -/

theorem ArchiveOk.update (h : ArchiveOk db arrived) (hid : ∀ o, (f o).id = o.id)
    (hev : ∀ o, (f o).eventRowID = o.eventRowID) (p : OutboxRow → Bool) :
    ArchiveOk { db with outbox := updateWhere p f db.outbox } arrived :=
  { h with
    rows := by rw [map_updateWhere _ hev]; exact h.rows
    outboxIDs := by rw [map_updateWhere _ hid]; exact h.outboxIDs
    outbox_le := forall_mem_updateWhere h.outbox_le fun o ho _ => hid o ▸ h.outbox_le o ho }

theorem CountsOk.update (h : CountsOk db classified) (hid : ∀ o, (f o).id = o.id)
    (hd : ∀ o ∈ db.outbox, p o = true → o.state = .done → (f o).state = .done) :
    CountsOk { db with outbox := updateWhere p f db.outbox } classified :=
  { h with
    done := fun e he => by
      obtain ⟨o, ho, hoid, hst⟩ := h.done e he
      by_cases hp : p o = true
      · exact ⟨f o, mem_updateWhere.2 ⟨o, ho, .inl ⟨hp, rfl⟩⟩, (hid o).trans hoid, hd o ho hp hst⟩
      · exact ⟨o, mem_updateWhere.2 ⟨o, ho, .inr ⟨Bool.eq_false_iff.2 hp, rfl⟩⟩, hoid, hst⟩ }

theorem open_of_claimable (h : o.claimable now = true) : o.state ≠ .done ∧ o.state ≠ .dead := by
  constructor
  all_goals
    intro hs
    simp [OutboxRow.claimable, hs] at h

theorem open_of_exhausts (h : c.exhausts o = true) : o.state ≠ .done ∧ o.state ≠ .dead :=
  open_of_claimable (Bool.and_eq_true_iff.1 h).2

theorem ItemsOk.deadLetter (h : ItemsOk db claims committed) (c : EventClaim) :
    ItemsOk (deadLetterEvents c db) claims committed := by
  refine ⟨forall_mem_updateWhere h.attempts fun o ho _ => h.attempts o ho,
    forall_mem_updateWhere h.attempts_le fun o ho _ => h.attempts_le o ho, h.claims_le,
    forall_mem_updateWhere h.commits fun o ho hp => ?_, h.committed_le⟩
  have hst := h.commits o ho
  rw [if_neg (open_of_exhausts hp).1] at hst
  exact hst

theorem leaseEvent_spec (hi : (db.outbox.map (·.id)).Nodup) : leaseEvent c db = (db, none) ∨
      ∃ o ∈ db.outbox, o.attempts < maxEventAttempts ∧ o.claimable c.now = true ∧
        (∀ s ∈ db.outbox, c.takes o.id s = true ↔ s = o) ∧
        leaseEvent c db =
          ({ db with outbox := updateWhere (c.takes o.id) c.lease db.outbox }, some o.id) := by
  cases hn : nextEvent c db with
  | none => exact Or.inl (by rw [leaseEvent, hn])
  | some o =>
    obtain ⟨ho, hp⟩ := List.mem_filter.1 (firstBy_mem hn)
    simp only [Bool.and_eq_true, decide_eq_true_eq] at hp
    have ht : ∀ s ∈ db.outbox, c.takes o.id s = true ↔ s = o := by
      refine iff_eq_of_key hi ho (by simpa [EventClaim.takes] using hp.2) fun s hs => ?_
      exact of_decide_eq_true (Bool.and_eq_true_iff.1 hs).1
    refine .inr ⟨o, ho, hp.1, hp.2, ht, ?_⟩
    have hh : (db.outbox.filter (c.takes o.id)).head? = some o :=
      head?_filter_single ho ht
    rw [leaseEvent, hn]
    simp only [hh, Option.map_some]

/-- One item changes: its claims and its commits may each grow by one. -/
theorem ItemsOk.single {claims' committed' : List Nat} (h : ItemsOk db claims committed)
    (harchive : ArchiveOk db arrived) (ho : o ∈ db.outbox)
    (hp : ∀ s ∈ db.outbox, p s = true ↔ s = o) (hid : (f o).id = o.id)
    (hcl : claims' = claims ∨ claims' = o.id :: claims)
    (hco : committed' = committed ∨ committed' = o.id :: committed)
    (hat : (f o).attempts = claims'.count o.id) (hmax : (f o).attempts ≤ maxEventAttempts)
    (hdone : committed'.count o.id = if (f o).state = .done then 1 else 0) :
    ItemsOk { db with outbox := updateWhere p f db.outbox } claims' committed' := by
  have hle : ∀ {ids ids' : List Nat}, ids' = ids ∨ ids' = o.id :: ids →
      (∀ id ∈ ids, id ≤ db.outboxSeq) → ∀ id ∈ ids', id ≤ db.outboxSeq := by
    rintro ids _ (rfl | rfl) hids
    · exact hids
    · exact List.forall_mem_cons.2 ⟨harchive.outbox_le o ho, hids⟩
  have hother : ∀ {ids ids' : List Nat}, ids' = ids ∨ ids' = o.id :: ids →
      ∀ s ∈ db.outbox, s ≠ o → ids'.count s.id = ids.count s.id := by
    rintro ids _ (rfl | rfl) s hs hne
    · rfl
    · exact List.count_cons_of_ne fun heq => hne (eq_of_key_eq harchive.outboxIDs hs ho heq.symm)
  refine ⟨fun s hs => ?_, fun s hs => ?_, hle hcl h.claims_le, fun s hs => ?_,
    hle hco h.committed_le⟩
  all_goals obtain rfl | ⟨hs, hne⟩ := (mem_updateWhere_single ho hp).1 hs
  · rw [hid, hat]
  · rw [hother hcl s hs hne, h.attempts s hs]
  · exact hmax
  · exact h.attempts_le s hs
  · rw [hid, hdone]
  · rw [hother hco s hs hne, h.commits s hs]

/-! ## Processing keeps the invariant -/

theorem callback_spec {p : ProcessCall} {ev : AgentEvent} {db' : Database}
    {id : Option Str} (hi : (db.incidents.map (·.id)).Nodup)
    (h : p.callback ev db = .ok (db', id)) :
    ∃ incidents, db' = { db with incidents } ∧ ((id = none ∧ incidents = db.incidents) ∨
        ∃ i, id = some i ∧ Counted i db.incidents incidents) := by
  rw [ProcessCall.callback] at h
  split at h
  · cases h
    exact ⟨_, rfl, .inl ⟨rfl, rfl⟩⟩
  split at h
  · cases h
  rename_i i hingest
  cases h
  obtain ⟨incidents, rfl, hc⟩ := ingestTx_spec hi hingest
  exact ⟨incidents, rfl, .inr ⟨i, rfl, hc⟩⟩

theorem currentLease_iff {outboxID : Nat} {leaseToken : Str} (hi : (db.outbox.map (·.id)).Nodup)
    (h : db.outbox.any (currentLease outboxID leaseToken now) = true) :
    ∃ o ∈ db.outbox, o.id = outboxID ∧ o.state = .leased ∧
      ∀ s ∈ db.outbox, currentLease outboxID leaseToken now s = true ↔ s = o := by
  obtain ⟨o, ho, hc⟩ := List.any_eq_true.1 h
  have hc' := hc
  simp only [currentLease, Bool.and_eq_true, decide_eq_true_eq] at hc'
  refine ⟨o, ho, hc'.1.1.1, hc'.1.1.2, iff_eq_of_key hi ho hc fun s hs => ?_⟩
  simp only [currentLease, Bool.and_eq_true, decide_eq_true_eq] at hs
  rw [hs.1.1.1, hc'.1.1.1]

theorem CountsOk.not_classified (h : CountsOk db classified) (hi : (db.outbox.map (·.id)).Nodup)
    (ho : o ∈ db.outbox) (hst : o.state ≠ .done) : o.id ∉ classified.map Prod.fst := by
  intro hm
  obtain ⟨e, he, heq⟩ := List.mem_map.1 hm
  obtain ⟨_, hs, hsid, hsdone⟩ := h.done e he
  rw [eq_of_key_eq hi hs ho (hsid.trans heq)] at hsdone
  exact hst hsdone

theorem CountsOk.count (h : CountsOk db classified) {i : Str} {incidents : List Incident}
    (hcounted : Counted i db.incidents incidents) {id : Nat}
    (hfr : id ∉ classified.map Prod.fst)
    (hd : ∃ o ∈ db.outbox, o.id = id ∧ o.state = .done) :
    CountsOk { db with incidents } ((id, i) :: classified) := by
  have hc : ∀ j, ((id, i) :: classified).countP (·.2 = j) =
      classified.countP (·.2 = j) + if i = j then 1 else 0 := fun j => by
    simp [List.countP_cons]
  refine ⟨hcounted.nodup h.ids, fun e he => ?_, fun e he => ?_, fun e he => ?_, ?_⟩
  · rw [hc]
    rcases hcounted with ⟨hn, hs⟩ | ⟨-, hs⟩
    · have hz : classified.countP (·.2 = i) = 0 := by
        refine List.countP_eq_zero.2 fun e he heq => hn ?_
        rw [← of_decide_eq_true heq]
        exact h.known e he
      rw [hs] at he
      rcases List.mem_append.1 he with he | he
      · have hne : i ≠ e.1 := fun heq => hn (by
          rw [heq, ← map_fst_seenSignals]
          exact List.mem_map_of_mem he)
        rw [if_neg hne, h.seen e he, Nat.add_zero]
      · rw [List.mem_singleton.1 he, hz]
        simp
    · rw [hs] at he
      obtain ⟨e', he', rfl⟩ := List.mem_map.1 he
      have hold := h.seen e' he'
      by_cases heq : e'.1 = i
      · simp only [heq, if_true] at hold ⊢
        rw [hold]
        push_cast
        rfl
      · simp only [heq, Ne.symm heq, if_false] at hold ⊢
        rw [hold, Nat.add_zero]
  · obtain _ | ⟨_, he⟩ := he
    · exact hcounted.mem_ids (.inl rfl)
    · exact hcounted.mem_ids (.inr (h.known e he))
  · obtain _ | ⟨_, he⟩ := he
    · exact hd
    · exact h.done e he
  · rw [List.map_cons, List.nodup_cons]
    exact ⟨hfr, h.once⟩

theorem seenSignals_of_keepsSignals {inc : Incident} {db' : Database}
    (hi : (db.incidents.map (·.id)).Nodup) (hp : keepsSignals inc db = true)
    (h : updateIncident inc db = .ok db') :
    ∃ incidents, db' = { db with incidents } ∧
      seenSignals incidents = seenSignals db.incidents := by
  obtain ⟨⟨row, hf, hv⟩, -⟩ := updateIncident_spec h
  have hr := List.mem_of_find?_eq_some hf
  have hid : row.id = inc.id := by simpa using List.find?_some hf
  have hrowSeen : row.signalSeen = inc.signalSeen := by
    have := List.all_eq_true.1 hp row hr
    simpa [versioned, hid, hv] using this
  obtain ⟨incidents, hdb, hs⟩ := seenSignals_updateIncident hi h (hid ▸ mem_seenSignals hr)
  exact ⟨incidents, hdb, by simpa [hrowSeen] using hs⟩

/-- The items that are given up stay. -/
def KeepsDead (rows rows' : List OutboxRow) : Prop := ∀ o ∈ rows, o.state = .dead → o ∈ rows'

theorem keepsDead_updateWhere {rows : List OutboxRow} (hp : ∀ s, p s = true → s.state ≠ .dead) :
    KeepsDead rows (updateWhere p f rows) := by
  intro o ho hd
  refine mem_updateWhere.2 ⟨o, ho, .inr ⟨?_, rfl⟩⟩
  exact Bool.eq_false_iff.2 fun h => hp o h hd

theorem process_keeps (h : w.Inv) (p : ProcessCall) (ev : AgentEvent) :
    (w.process p ev).Inv ∧ KeepsDead w.db.outbox (w.process p ev).db.outbox := by
  rw [process]
  split
  · exact ⟨h, fun _ ho _ => ho⟩
  rename_i db id hproc
  obtain ⟨_, hcallback, ha, rfl⟩ := processClaimedEvent_spec hproc
  obtain ⟨_, rfl, hwrote⟩ := callback_spec h.counts.ids hcallback
  obtain ⟨o, ho, hoid, hst, hp⟩ := currentLease_iff h.archive.outboxIDs ha
  have harchive := h.archive.update (f := OutboxRow.complete p.completedAt) (fun _ => rfl)
    (fun _ => rfl) (currentLease p.outboxID p.leaseToken p.completedAt)
  -- the item was leased, so nothing had been committed for it
  have hz := h.items.commits _ ho
  rw [hst] at hz
  have hitems := h.items.single (f := OutboxRow.complete p.completedAt) h.archive ho hp rfl
    (.inl rfl) (.inr rfl) (h.items.attempts o ho) (h.items.attempts_le o ho)
    (by rw [List.count_cons_self, hz]; rfl)
  rw [hoid] at hitems
  have hcounts := h.counts.update (f := OutboxRow.complete p.completedAt)
    (p := currentLease p.outboxID p.leaseToken p.completedAt) (fun _ => rfl)
    (fun _ _ _ _ => rfl)
  refine ⟨⟨{ harchive with }, { hitems with }, ?_⟩, keepsDead_updateWhere fun s hs => ?_⟩
  · rcases hwrote with ⟨rfl, rfl⟩ | ⟨_, rfl, hc⟩
    · exact hcounts
    refine hcounts.count hc ?_ ?_
    · rw [← hoid]
      exact h.counts.not_classified h.archive.outboxIDs ho (by simp [hst])
    · exact ⟨_, (mem_updateWhere_single ho hp).2 (.inl rfl), hoid, rfl⟩
  · simp only [currentLease, Bool.and_eq_true, decide_eq_true_eq] at hs
    simp [hs.1.1.2]

/-- **Every operation keeps the invariant**, and the items that are given up. -/
theorem eventNext_keeps {op : EventOp} (h : w.Inv) (hn : eventNext w op = some w') :
    w'.Inv ∧ KeepsDead w.db.outbox w'.db.outbox := by
  cases op with
  | tick =>
    cases hn
    exact ⟨⟨h.archive, h.items, h.counts⟩, fun _ ho _ => ho⟩
  | archiveAndEnqueueEvent ev now =>
    obtain ⟨-, rfl⟩ := guarded hn
    refine ⟨⟨h.archive.archive ev now, h.items.archive ev now, h.counts.archive ev now⟩,
      fun o ho _ => ?_⟩
    simp only [archiveAndEnqueueEvent]
    split_ifs
    · exact ho
    · exact List.mem_append_left _ ho
  | beginClaim =>
    obtain ⟨-, rfl⟩ := guarded hn
    exact ⟨⟨h.archive, h.items, h.counts⟩, fun _ ho _ => ho⟩
  | deadLetterEvents c =>
    obtain ⟨-, rfl⟩ := guarded hn
    refine ⟨⟨h.archive.update (f := OutboxRow.bury c.now) (fun _ => rfl) (fun _ => rfl) _,
      h.items.deadLetter c, ?_⟩, keepsDead_updateWhere fun _ hp => (open_of_exhausts hp).2⟩
    exact h.counts.update (fun _ => rfl) fun o _ hp hd => absurd hd (open_of_exhausts hp).1
  | leaseEvent c =>
    obtain ⟨-, rfl⟩ := guarded hn
    rcases leaseEvent_spec (c := c) h.archive.outboxIDs with
      h0 | ⟨o, ho, ha, hf, ht, hm⟩
    · simp only [h0]
      exact ⟨⟨h.archive, h.items, h.counts⟩, fun _ ho _ => ho⟩
    simp only [hm]
    have hopen : ∀ s, c.takes o.id s = true → s.state ≠ .done ∧ s.state ≠ .dead :=
      fun s hs => open_of_claimable (Bool.and_eq_true_iff.1 hs).2
    refine ⟨⟨h.archive.update (f := c.lease) (fun _ => rfl) (fun _ => rfl) _, ?_, ?_⟩,
      keepsDead_updateWhere fun s hs => (hopen s hs).2⟩
    · have hz := h.items.commits o ho
      rw [if_neg (open_of_claimable hf).1] at hz
      have hat : o.attempts + 1 = (o.id :: w.claims).count o.id := by
        rw [List.count_cons_self, h.items.attempts o ho]
      exact h.items.single h.archive ho ht rfl (.inr rfl) (.inl rfl) hat ha hz
    · exact h.counts.update (fun _ => rfl) fun s _ hp hd => absurd hd (hopen s hp).1
  | process p =>
    simp only [eventNext, Option.ite_none_right_eq_some, Option.map_eq_some_iff] at hn
    obtain ⟨-, ev, -, rfl⟩ := hn
    split_ifs
    · exact ⟨h, fun _ ho _ => ho⟩
    · exact process_keeps h p ev
  | updateIncident =>
    simp only [eventNext, Option.ite_none_right_eq_some, Option.map_eq_some_iff] at hn
    obtain ⟨hk, _, hdb, rfl⟩ := hn
    obtain ⟨incidents, rfl, hseen⟩ :=
      seenSignals_of_keepsSignals h.counts.ids hk (eq_ok_of_toOption hdb)
    refine ⟨⟨{ h.archive with }, { h.items with }, ?_⟩, fun _ ho _ => ho⟩
    have hi : incidents.map (·.id) = w.db.incidents.map (·.id) := by
      rw [← map_fst_seenSignals, hseen, map_fst_seenSignals]
    exact ⟨hi ▸ h.counts.ids, hseen ▸ h.counts.seen, fun e he => hi ▸ h.counts.known e he,
      h.counts.done, h.counts.once⟩

/-! ## What holds over every run -/

theorem EventWorld.inv_start (t : Nat) : (start t).Inv where
  archive := by constructor <;> simp [start, Database.empty]
  items := by constructor <;> simp [start, Database.empty]
  counts := by constructor <;> simp [start, Database.empty, seenSignals]

/-- The item is given up. -/
def EventWorld.Dead (w : EventWorld) (id : Nat) : Prop :=
  ∃ o ∈ w.db.outbox, o.id = id ∧ o.state = .dead

theorem eventRun_dead {ops : List EventOp} (hw : w.Inv) {id : Nat}
    (hd : w.Dead id) (h : exec eventNext w ops = some w') :
    w'.Dead id ∧ id ∉ w'.committed ∧ id ∉ w'.classified.map Prod.fst := by
  have hboth : w'.Inv ∧ w'.Dead id := by
    refine exec_invariant (P := fun w => w.Inv ∧ w.Dead id) ?_ ⟨hw, hd⟩ h
    rintro s op t ⟨hs, o, ho, hid, hst⟩ hn
    obtain ⟨ht, hkept⟩ := eventNext_keeps hs hn
    exact ⟨ht, o, hkept o ho hst, hid, hst⟩
  obtain ⟨hi, o, ho, rfl, hst⟩ := hboth
  refine ⟨⟨o, ho, rfl, hst⟩, ?_, ?_⟩
  · have hc := hi.items.commits o ho
    rw [hst] at hc
    exact List.count_eq_zero.1 hc
  · exact hi.counts.not_classified hi.archive.outboxIDs ho (by simp [hst])

theorem dead_of_exhausted
    (ho : o ∈ w.db.outbox) (ht : maxEventAttempts ≤ o.attempts) (hd : o.state ≠ .done)
    (he : o.leaseExpiresAtNs ≤ c.now) (hn : eventNext w (.deadLetterEvents c) = some w') :
    w'.Dead o.id := by
  obtain ⟨-, rfl⟩ := guarded hn
  by_cases ha : o.state = .dead
  · exact ⟨o, keepsDead_updateWhere (fun s hs => (open_of_exhausts hs).2) o ho ha, rfl, ha⟩
  · have hp : c.exhausts o = true := by
      cases hs : o.state <;> simp_all [EventClaim.exhausts, OutboxRow.claimable]
    exact ⟨OutboxRow.bury c.now o, mem_updateWhere.2 ⟨o, ho, .inl ⟨hp, rfl⟩⟩, rfl, rfl⟩

theorem countP_eq_one {ρ κ : Type} [DecidableEq κ] {rows : List ρ} {key : ρ → κ} {q : κ → Bool}
    (hnd : ((rows.map key).filter q).Nodup) {k : κ} (hk : k ∈ rows.map key) (hq : q k = true) :
    rows.countP (fun r => key r = k) = 1 := by
  have hc := List.count_eq_one_of_mem hnd (List.mem_filter.2 ⟨hk, hq⟩)
  rw [List.count_filter hq, List.count, List.countP_map] at hc
  rw [← hc]
  exact List.countP_congr fun r _ => by simp

theorem CountsOk.signalSeen
    (h : CountsOk db classified) (hids : (db.outbox.map (·.id)).Nodup) {inc : Incident}
    (hc : inc ∈ db.incidents) :
    inc.signalSeen = db.outbox.countP (fun o => o.state = .done ∧ (o.id, inc.id) ∈ classified) := by
  refine (h.seen _ (mem_seenSignals hc)).trans ?_
  rw [List.countP_eq_length_filter, List.countP_eq_length_filter,
    ← List.length_map (f := Prod.fst), ← List.length_map (f := fun o : OutboxRow => o.id)]
  -- both sides list the same item numbers without repetition
  refine congrArg _ (List.Perm.length_eq ?_)
  refine (List.perm_ext_iff_of_nodup ?_ ?_).2 fun id => ?_
  · exact h.once.sublist (List.filter_sublist.map _)
  · exact hids.sublist (List.filter_sublist.map _)
  simp only [List.mem_map, List.mem_filter, decide_eq_true_eq]
  constructor
  · rintro ⟨⟨_, i⟩, ⟨he, hi⟩, rfl⟩
    obtain rfl : i = inc.id := hi
    obtain ⟨o, ho, hoid, hd⟩ := h.done _ he
    exact ⟨o, ⟨ho, hd, hoid ▸ he⟩, hoid⟩
  · rintro ⟨_, ⟨_, _, he⟩, rfl⟩
    exact ⟨_, ⟨he, rfl⟩, rfl⟩

/-- **The pipeline counts every event once.** In every run: an event ID that arrived is archived in
one row, with one workflow item; the transaction of an item committed once if the item is done and
never otherwise; an item is claimed at most eight times, and is then done, or dead after the next
claim that finds its lease expired; a dead item stays dead and mutates no incident; and an incident
has seen as many signals as there are done items classified to it. -/
theorem events_exactly_once {t : Nat} {ops : List EventOp} {w : EventWorld}
    (h : exec eventNext (start t) ops = some w) :
    (∀ id ∈ w.arrived, id ≠ [] → w.db.events.countP (fun e => e.eventID = id) = 1) ∧
    (∀ e ∈ w.db.events, e.eventID ∈ w.arrived ∧
      w.db.outbox.countP (fun o => o.eventRowID = e.id) = 1) ∧
    (∀ o ∈ w.db.outbox, w.committed.count o.id = if o.state = .done then 1 else 0) ∧
    (∀ o ∈ w.db.outbox, w.claims.count o.id ≤ 8 ∧ (w.claims.count o.id = 8 → o.state ≠ .done →
        ∀ c w', o.leaseExpiresAtNs ≤ c.now → eventNext w (.deadLetterEvents c) = some w' →
          w'.Dead o.id)) ∧
    (∀ id, w.Dead id → ∀ later w', exec eventNext w later = some w' →
      w'.Dead id ∧ id ∉ w'.committed ∧ id ∉ w'.classified.map Prod.fst) ∧
    (∀ inc ∈ w.db.incidents, inc.signalSeen =
      w.db.outbox.countP (fun o => o.state = .done ∧ (o.id, inc.id) ∈ w.classified)) := by
  have hinv := exec_invariant (fun _ _ _ hi hn => (eventNext_keeps hi hn).1) (inv_start _) h
  refine ⟨fun id hid hne => ?_, fun e he => ⟨?_, ?_⟩, hinv.items.commits, fun o ho => ⟨?_, ?_⟩,
    fun id hdead later w' hlater => eventRun_dead hinv hdead hlater,
    fun inc hinc => hinv.counts.signalSeen hinv.archive.outboxIDs hinc⟩
  · exact countP_eq_one hinv.archive.distinct ((hinv.archive.arrived id).mp hid)
      (by simpa using hne)
  · exact (hinv.archive.arrived _).mpr (List.mem_map_of_mem he)
  · refine countP_eq_one (q := fun _ => true) ?_ ?_ rfl
    · rw [List.filter_true, hinv.archive.rows]
      exact hinv.archive.eventIDs
    · rw [hinv.archive.rows]
      exact List.mem_map_of_mem he
  · rw [← hinv.items.attempts o ho]
    exact hinv.items.attempts_le o ho
  · intro hcount hdone c w' hexp hn
    rw [← hinv.items.attempts o ho] at hcount
    exact dead_of_exhausted ho (Nat.le_of_eq hcount.symm) hdone hexp hn

/-- Fault events of node `n1`, all of one class. -/
def sampleEvent (eventID : Str) : AgentEvent :=
  ⟨eventID, lit "n1", 0, [], [], 79, none, [], 0⟩

/-- A worker that claims the oldest item, which is number `id`, and processes it. -/
def claimAndProcess (id : Nat) (token : Str) : List EventOp :=
  [.beginClaim ⟨lit "worker-1", 1, token, 0⟩, .deadLetterEvents ⟨lit "worker-1", 1, token, 0⟩,
    .leaseEvent ⟨lit "worker-1", 1, token, 0⟩,
    .process
      { outboxID := id
        leaseToken := token
        requiredAt := 0
        completedAt := 0
        catalog := fun ev => some ⟨⟨ev.node, [], 0, []⟩, lit "xid", StrMap.empty⟩
        env := ⟨fun s => s, false, fun _ => [], fun _ _ => lit "inc-1", 0, 0, 0⟩
        fails := false }]

/-- Two events, one of them delivered twice, join one incident. -/
theorem events_exactly_once_of_replay : ∃ w inc, exec eventNext (start 0)
        ([.archiveAndEnqueueEvent (sampleEvent (lit "ev-1")) 0,
          .archiveAndEnqueueEvent (sampleEvent (lit "ev-1")) 0,
          .archiveAndEnqueueEvent (sampleEvent (lit "ev-2")) 0] ++
          claimAndProcess 1 (lit "tok-1") ++ claimAndProcess 2 (lit "tok-2")) = some w ∧
      inc ∈ w.db.incidents ∧ inc.signalSeen = 2 ∧
      w.db.outbox.countP (fun o => o.state = .done ∧ (o.id, inc.id) ∈ w.classified) = 2 := by
  simp only [exists_and_left]
  refine reached (by decide +kernel) fun w hw (hrun : ∃ inc ∈ w.db.incidents, inc.signalSeen = 2) =>
    ?_
  obtain ⟨inc, hinc, hseen⟩ := hrun
  obtain ⟨-, -, -, -, -, hcount⟩ := events_exactly_once hw
  have htwo := hcount inc hinc
  exact ⟨inc, hinc, hseen, by omega⟩

/-! ## Duplicates -/

/-- The archive holds the event: a row of its ID, from its node and with its content. -/
def Archived (db : Database) (ev : AgentEvent) : Prop := ∃ e ∈ db.events, e = archivedRow e.id ev

/-- **A dropped event is archived** exactly if every event stored under its ID is from its node and
has its content. The index keeps non-empty IDs distinct, over all nodes. -/
theorem dropped_is_archived_iff {db : Database}
    (hindex : ((db.events.map (·.eventID)).filter (· ≠ [])).Nodup) (ev : AgentEvent) (now : Nat) :
    ((archiveAndEnqueueEvent ev now db).2 = false → Archived db ev) ↔
      (ev.eventID ≠ [] → ∀ e ∈ db.events, e.eventID = ev.eventID → e = archivedRow e.id ev) := by
  rw [archiveAndEnqueueEvent]
  constructor
  · intro h hne e he hid
    have hany : ev.eventID ≠ [] ∧ db.events.any (fun e => e.eventID = ev.eventID) = true :=
      ⟨hne, List.any_eq_true.mpr ⟨e, he, decide_eq_true hid⟩⟩
    rw [if_pos hany] at h
    obtain ⟨held, hheld, hsame⟩ := h rfl
    -- the row that backs the drop is the only one of the ID
    rw [List.filter_map] at hindex
    have hrow : ∀ r ∈ db.events, r.eventID = ev.eventID →
        r ∈ db.events.filter ((fun id => decide (id ≠ [])) ∘ (·.eventID)) := by
      intro r hr hrid
      exact List.mem_filter.mpr ⟨hr, by simpa [hrid] using hne⟩
    have hheldID : held.eventID = ev.eventID := by rw [hsame, archivedRow]
    rw [eq_of_key_eq hindex (hrow e he hid) (hrow held hheld hheldID) (hid.trans hheldID.symm)]
    exact hsame
  · intro h hdropped
    split at hdropped
    next hany =>
      obtain ⟨e, he, hid⟩ := List.any_eq_true.mp hany.2
      exact ⟨e, he, h hany.1 e he (of_decide_eq_true hid)⟩
    · cases hdropped

/-- The archive of one event. -/
def sampleArchive : Database := (archiveAndEnqueueEvent (sampleEvent (lit "ev-1")) 0 .empty).1

/-- The event delivered again is dropped, and archived. -/
theorem dropped_is_archived_of_replay :
    (archiveAndEnqueueEvent (sampleEvent (lit "ev-1")) 0 sampleArchive).2 = false ∧
      Archived sampleArchive (sampleEvent (lit "ev-1")) := by
  have hdropped : (archiveAndEnqueueEvent (sampleEvent (lit "ev-1")) 0 sampleArchive).2 =
      false := by decide
  exact ⟨hdropped, (dropped_is_archived_iff (by decide) _ 0).mpr (by decide) hdropped⟩

/-- An event of another node under the same ID is dropped, and nothing of it is archived. -/
theorem dropped_for_other_node : ∃ ev : AgentEvent, ev.node ≠ (sampleEvent (lit "ev-1")).node ∧
    (archiveAndEnqueueEvent ev 0 sampleArchive).2 = false ∧ ¬Archived sampleArchive ev :=
  ⟨{ sampleEvent (lit "ev-1") with node := lit "n2" }, by decide, by decide, by
    rintro ⟨e, he, hsame⟩
    obtain rfl := List.mem_singleton.mp he
    exact absurd (congrArg EventRow.node hsame) (by decide)⟩

end KubeNeuron.Controller
