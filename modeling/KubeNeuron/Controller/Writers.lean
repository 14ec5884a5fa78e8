import KubeNeuron.Controller.Ingest
import KubeNeuron.Playbooks.Engine
import KubeNeuron.Playbooks.StateMachine
import KubeNeuron.Store.Records

/-!
# The writers of an incident row

`Move.run` and `Park.run` are the transactions of `transition` and `parkForApproval`: they compare
the state and `StateChangedAt` of the fresh row with those of the caller's copy. `latePlaybook` and
`rewound` change a copy that a plain `UpdateIncident` writes. `Ack.run` and `ingestTx` change the
fresh row. The lemmas say which row each of them replaces, and by what.
-/

namespace KubeNeuron.Controller

open Lib KubeNeuron.Types Store Playbooks

/-! ## Transitions -/

/-- What a caller changes in its copy before it asks for a transition. -/
structure Progress where
  playbook : Str
  stepIndex : Int
  attempt : Int
  slotHeld : Bool

/-- The copy as it was read. -/
def Progress.of (inc : Incident) : Progress :=
  ⟨inc.playbook, inc.stepIndex, inc.attempt, inc.remediationSlotHeld⟩

/-- A transition asked for: the incident as the caller read it, what the caller changed in it, and
what the audit entry says. -/
structure Move where
  snap : Incident
  progress : Progress
  dest : IncidentState
  actor : Str
  action : Str
  result : Str
  params : StrMap

/-- How a guarded write ends without writing. A store failure rolls the transaction back. -/
inductive MoveError where
  | illegal
  | write (e : WriteError)

/-- The fence: the fresh row has the state and the `StateChangedAt` the caller read. -/
def fenced (snap fresh : Incident) : Bool :=
  fresh.state = snap.state && fresh.stateChangedAt = snap.stateChangedAt

theorem state_of_fenced {snap fresh : Incident} (h : fenced snap fresh = true) :
    fresh.state = snap.state := by
  simp only [fenced, Bool.and_eq_true, decide_eq_true_eq] at h
  exact h.1

namespace Move

/-- The copy a transition writes. A halting transition clears the slot bit. -/
def copy (m : Move) (now : Int) (fresh : Incident) : Incident :=
  { m.snap with
    state := m.dest
    playbook := m.progress.playbook
    stepIndex := m.progress.stepIndex
    attempt := m.progress.attempt
    remediationSlotHeld := !m.dest.halted && m.progress.slotHeld
    signalSeen := fresh.signalSeen
    vendor := fresh.vendor
    updatedAt := now
    stateChangedAt := now
    resolvedAt := if m.dest = .resolved then some now else m.snap.resolvedAt
    version := fresh.version }

def entry (m : Move) (now : Int) : AuditEntry :=
  ⟨m.snap.id, now, m.snap.state, m.dest, m.actor, m.action, m.params, m.result, m.snap.dryRun⟩

/-- `transition`, with the caller's copy as it is left. -/
def run (m : Move) (now : Int) (r : Records) : Except MoveError (Records × Incident) :=
  if !canTransition m.snap.state m.dest then .error .illegal
  else
    match getIncident m.snap.id r.db with
    | none => .error (.write .notFound)
    | some fresh =>
      if !fenced m.snap fresh then .error (.write .conflict)
      else
        match updateIncident (m.copy now fresh) r.db with
        | .error e => .error (.write e)
        | .ok db =>
          .ok ({ r with db, audit := r.audit ++ [m.entry now] },
            { m.copy now fresh with version := fresh.version + 1 })

end Move

/-! ## Approval rounds -/

/-- The bytes a step is hashed by: the parts in order, each ended by a zero byte. -/
def stepContent (playbookName : Str) (step : Step) : Str :=
  ([playbookName, step.name, step.action, step.approval] ++
    step.params.entries.flatMap fun e => [e.1, e.2]).flatMap fun part => part ++ [0]

/-- `stepContentHash`; `sha` is the hex digest of SHA-256. -/
def stepContentHash (sha : Str → Str) (playbookName : Str) (step : Step) : Str :=
  sha (stepContent playbookName step)

/-- A park asked for: the incident as the walk read it and the step that needs a decision. -/
structure Park where
  snap : Incident
  step : Step
  stepHash : Str
  note : Str

def parkForApproval (sha : Str → Str) (snap : Incident) (step : Step) (note : Str) :
    Park :=
  ⟨snap, step, stepContentHash sha snap.playbook step, note⟩

namespace Park

/-- The copy a park writes. The vendor is the one the walk read. -/
def copy (p : Park) (now : Int) (fresh : Incident) : Incident :=
  { p.snap with
    state := .awaitingApproval
    updatedAt := now
    stateChangedAt := now
    signalSeen := fresh.signalSeen
    version := fresh.version
    approvalEpoch := fresh.approvalEpoch + 1 }

def entry (p : Park) (now : Int) : AuditEntry :=
  ⟨p.snap.id, now, p.snap.state, .awaitingApproval, lit "system", p.step.name, StrMap.empty, p.note,
    p.snap.dryRun⟩

/-- The request a park records: exactly what the human is asked. -/
def request (p : Park) (now : Int) (epoch : Int) : Approval :=
  ⟨p.snap.id, p.step.name, .requested, lit "system", lit "system", now, p.snap.playbook,
    p.step.action, p.stepHash, epoch⟩

/-- `parkForApproval`, with the caller's copy as it is left. A re-park skips the state machine. -/
def run (p : Park) (now : Int) (r : Records) : Except MoveError (Records × Incident) :=
  if p.snap.state ≠ .awaitingApproval && !canTransition p.snap.state .awaitingApproval then
    .error .illegal
  else
    match getIncident p.snap.id r.db with
    | none => .error (.write .notFound)
    | some fresh =>
      if !fenced p.snap fresh then .error (.write .conflict)
      else
        match updateIncident (p.copy now fresh) r.db with
        | .error e => .error (.write e)
        | .ok db =>
          .ok ({ r with
              db
              audit := r.audit ++ [p.entry now]
              approvals := r.approvals ++ [p.request now (fresh.approvalEpoch + 1)] },
            { p.copy now fresh with version := fresh.version + 1 })

end Park

/-! ## Field-only rewrites -/

/-- The copy a late bind writes. -/
def latePlaybook (snap : Incident) (book : Str) (now : Int) : Incident :=
  { snap with stateChangedAt := now, playbook := book }

/-- The copy a quiesce rewind writes. The attempt goes up so that the rewound step gets a new
identity. -/
def rewound (snap : Incident) (index : Int) (now : Int) : Incident :=
  { snap with stateChangedAt := now, stepIndex := index, attempt := snap.attempt + 1 }

/-- `UpdateIncident` outside a transaction, with the caller's copy as it is left. -/
def storeIncident (inc : Incident) (r : Records) : Except WriteError (Records × Incident) :=
  match updateIncident inc r.db with
  | .error e => .error e
  | .ok db => .ok ({ r with db }, { inc with version := inc.version + 1 })

/-! ## Acknowledgements -/

/-- `firstNonBlank` of two texts. -/
def firstNonBlank (first second : Str) : Str :=
  if trimSpace first ≠ [] then first else if trimSpace second ≠ [] then second else []

/-- An acknowledgement asked for. An expected version of zero is no expectation. -/
structure Ack where
  id : Str
  actor : Str
  reason : Str
  expectedVersion : Int

/-- How the transaction of an acknowledgement ends without writing. -/
inductive AckError where
  | write (e : WriteError)
  | terminal

namespace Ack

def entry (a : Ack) (now : Int) (inc : Incident) : AuditEntry :=
  ⟨inc.id, now, inc.state, inc.state, a.actor, lit "acknowledge",
    KeyMap.ofEntries [(lit "reason", firstNonBlank a.reason (lit "acknowledged"))],
    lit "acknowledged", inc.dryRun⟩

/-- The transaction of `AcknowledgeIncident`, with the incident it returns. -/
def run (a : Ack) (now : Int) (r : Records) : Except AckError (Records × Incident) :=
  match getIncident a.id r.db with
  | none => .error (.write .notFound)
  | some inc =>
    if a.expectedVersion > 0 && inc.version ≠ a.expectedVersion then .error (.write .conflict)
    else if inc.state.terminal then .error .terminal
    else
      match updateIncident { inc with updatedAt := now } r.db with
      | .error e => .error (.write e)
      | .ok db =>
        .ok ({ r with db, audit := r.audit ++ [a.entry now inc] },
          { inc with updatedAt := now, version := inc.version + 1 })

end Ack

/-! ## Which row a write replaces -/

variable {now : Int} {r r' : Records} {inc : Incident} {env : IngestEnv} {sig : Signal}

/-- An update whose copy has the identity of a row that was just read replaces that row. -/
theorem updateIncident_fresh {db db' : Database} {fresh : Incident}
    (h : updateIncident inc db = .ok db') (hfr : getIncident inc.id db = some fresh) :
    Replaced db db' fresh (writeIncident inc fresh) := by
  obtain ⟨row, hid, -, hr⟩ := updateIncident_replaced h
  have hf := hr.found
  rw [hid] at hf
  cases hf.symm.trans hfr
  exact hr

/-- **A committed transition** replaced a row that passed the fence, and its audit entry was
appended in the same transaction. -/
theorem Move.run_ok {m : Move} (h : m.run now r = .ok (r', inc)) :
    canTransition m.snap.state m.dest = true ∧ ∃ row, row.id = m.snap.id ∧
      fenced m.snap row = true ∧
        Replaced r.db r'.db row (writeIncident (m.copy now row) row) ∧
        inc = { m.copy now row with version := row.version + 1 } ∧
        r' = { r with db := r'.db, audit := r.audit ++ [m.entry now] } := by
  revert h
  fun_cases Move.run m now r with
  | case5 hl fresh hfr hf db hu =>
    rintro ⟨⟩
    exact ⟨by simpa using hl, fresh, getIncident_id hfr, by simpa using hf,
      updateIncident_fresh hu hfr, rfl, rfl⟩
  | _ => rintro ⟨⟩

/-- **A committed park** replaced a row that passed the fence; its audit entry and the request of
the new round were appended in the same transaction. -/
theorem Park.run_ok {p : Park} (h : p.run now r = .ok (r', inc)) :
    (p.snap.state = .awaitingApproval ∨ canTransition p.snap.state .awaitingApproval = true) ∧
      ∃ row, row.id = p.snap.id ∧ fenced p.snap row = true ∧
        Replaced r.db r'.db row (writeIncident (p.copy now row) row) ∧
        inc = { p.copy now row with version := row.version + 1 } ∧
        r' = { r with
          db := r'.db
          audit := r.audit ++ [p.entry now]
          approvals := r.approvals ++ [p.request now (row.approvalEpoch + 1)] } := by
  revert h
  fun_cases Park.run p now r with
  | case5 hl fresh hfr hf db hu =>
    rintro ⟨⟩
    refine ⟨or_iff_not_imp_left.2 ?_, fresh, getIncident_id hfr, by simpa using hf,
      updateIncident_fresh hu hfr, rfl, rfl⟩
    simpa using hl
  | _ => rintro ⟨⟩

/-- **A plain update** replaced a row that had the version the caller read. -/
theorem storeIncident_ok {inc' : Incident} (h : storeIncident inc r = .ok (r', inc')) :
    ∃ row, row.id = inc.id ∧ row.version = inc.version ∧
      Replaced r.db r'.db row (writeIncident inc row) ∧
      inc' = { inc with version := inc.version + 1 } ∧ r' = { r with db := r'.db } := by
  unfold storeIncident at h
  split at h
  · cases h
  rename_i db hu
  cases h
  obtain ⟨row, hid, hv, hr⟩ := updateIncident_replaced hu
  exact ⟨row, hid, hv, hr, rfl, rfl⟩

/-- **A committed acknowledgement** replaced an open row by the same row with a new `UpdatedAt`,
and appended its audit entry in the same transaction. -/
theorem Ack.run_ok {a : Ack} (h : a.run now r = .ok (r', inc)) :
    ∃ row, row.id = a.id ∧ row.state.terminal = false ∧
      (0 < a.expectedVersion → row.version = a.expectedVersion) ∧
      Replaced r.db r'.db row { row with updatedAt := now, version := row.version + 1 } ∧
      inc = { row with updatedAt := now, version := row.version + 1 } ∧
      r' = { r with db := r'.db, audit := r.audit ++ [a.entry now row] } := by
  revert h
  fun_cases Ack.run a now r with
  | case5 fresh hfr he hterm db hu =>
    rintro ⟨⟩
    have hid := getIncident_id hfr
    refine ⟨fresh, hid, by simpa using hterm, fun hp => ?_, updateIncident_fresh hu (hid ▸ hfr),
      rfl, rfl⟩
    by_contra hne
    exact he (by simp [hp, hne])
  | _ => rintro ⟨⟩

/-! ## Which row an ingest replaces -/

/-- The row a signal was attached to, after it: one more signal, a vendor filled in, and a target
that is at most more precise. -/
structure Joined (env : IngestEnv) (sig : Signal) (row row' : Incident) : Prop where
  open_ : row.state.terminal = false
  version : row.version < row'.version
  target : row'.target = row.target ∨
    (row.target.gpuUUID = [] ∧ row'.target.gpuUUID ≠ [] ∧ row.target.pciAddr ≠ [] ∧
      row'.target = { row.target with
        gpuUUID := row'.target.gpuUUID, gpuIndex := row'.target.gpuIndex })
  columns : row' =
    { attachSignal env sig row with target := row'.target, version := row'.version }

theorem Joined.device {row row' : Incident}
    (h : Joined env sig row row') : row'.target.SameDevice row.target := by
  rcases h.target with heq | ⟨-, -, ha, heq⟩
  · rw [heq]
    exact .refl _
  · rw [heq]
    exact ⟨rfl, rfl, fun hn => absurd hn ha⟩

/-- The row a new incident is inserted as. -/
def openedRow (env : IngestEnv) (sig : Signal) : Incident :=
  { openedIncident env sig with
    target := { sig.target with pciAddr := normalizePCIAddress env.lower sig.target.pciAddr } }

/-- With distinct IDs, **a committed ingest** added the row of a new incident or replaced the row of
an open one by the same row with the signal attached. -/
theorem ingestTx_row {db db' : Database} {id : Str}
    (hi : (db.incidents.map (·.id)).Nodup) (h : ingestTx env sig db = .ok (db', id)) :
    (id = (openedRow env sig).id ∧ getOpenIncident env.lower sig.target sig.cls db = none ∧
        Added db db' (openedRow env sig)) ∨
      ∃ row row', row.id = id ∧ getOpenIncident env.lower sig.target sig.cls db = some row ∧
        Replaced db db' row row' ∧ Joined env sig row row' ∧
        (row'.target = row.target ∨ row'.target.gpuUUID = sig.target.gpuUUID) := by
  unfold ingestTx at h
  split at h
  next hn =>
    split at h
    · cases h
    next created hcreated =>
      cases h
      exact .inl ⟨rfl, hn, insertIncident_added hcreated⟩
  rename_i inc ho
  obtain ⟨hm, hst⟩ := (getOpenIncident_found ho).1
  have hr := getIncident_of_mem hi hm
  split at h
  · cases h
  rename_i inc' promotedDb hpromote
  split at h
  · cases h
  rename_i updated hp
  cases h
  rw [promoteForSignal] at hpromote
  split_ifs at hpromote with hpromotes
  · -- the row was promoted first, and the signal attached to the promoted row
    obtain ⟨rfl, hu, base, hbase, _, he, ha, hpromoted⟩ :=
      promoteIncidentTarget_replaced hi hpromote
    obtain rfl : base = inc := by
      have hf := hpromoted.found
      rw [hbase] at hf
      exact Option.some.inj (hf.symm.trans hr)
    refine .inr ⟨base, _, rfl, ho, hpromoted.trans (updateIncident_fresh hp hpromoted.written),
      ⟨hst, ?_, .inr ?_, ?_⟩, .inr rfl⟩
    · simp only [writeIncident, promoted]
      omega
    · exact ⟨he, hu, ha, rfl⟩
    · rfl
  · cases hpromote
    refine .inr ⟨inc, _, rfl, ho, updateIncident_fresh hp hr, ⟨hst, ?_, .inl rfl, rfl⟩, .inl rfl⟩
    simp only [writeIncident]
    omega

end KubeNeuron.Controller
