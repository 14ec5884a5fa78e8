import KubeNeuron.Controller.Writers
import KubeNeuron.Lib.Run

/-!
# Writers with snapshots of any age

`WriterWorld` is the store with every copy that anybody may still hold, and a caller may write from
any of them at any time. `apply_effect` says what one operation does to the incidents; the
invariants are read off that list.

* A copy at the version of its row is the row, up to the target (`Trails`).
* As long as no two writes of an incident carry the same `StateChangedAt`, a copy with the
  `StateChangedAt` of its row agrees with it on every column of the walk.
-/

namespace KubeNeuron.Controller

open Lib KubeNeuron.Types Store Playbooks

/-! ## The world -/

/-- The store, every copy of an incident that was read or left by a write, and two histories: the
incident and `StateChangedAt` of every write that set it, and the incident of every signal that
committed. -/
structure WriterWorld where
  records : Records
  held : List Incident
  stamps : List (Str × Int)
  joined : List Str

/-- The world before anybody read anything. -/
def WriterWorld.start (r : Records) : WriterWorld :=
  ⟨r, [], r.db.incidents.map fun inc => (inc.id, inc.stateChangedAt), []⟩

/-- One operation of a caller. `fault` is a failure of the store, which rolls the transaction
back. -/
inductive WriterOp where
  | read
  | move (m : Move) (now : Int) (fault : Bool)
  | park (p : Park) (now : Int) (fault : Bool)
  | bind (snap : Incident) (book : Str) (now : Int) (fault : Bool)
  | rewind (snap : Incident) (index : Int) (now : Int) (fault : Bool)
  | ingest (env : IngestEnv) (sig : Signal) (fault : Bool)
  | acknowledge (a : Ack) (now : Int) (fault : Bool)
  | decide (a : Approval)
  | pauses (paused : List Str)
  | cancel (id : Str) (updatedAt now : Nat)

namespace WriterWorld

/-- A write that committed: the new store, the copy it left and its instant. -/
def committed (w : WriterWorld) (r : Records) (inc : Incident) : WriterWorld :=
  { w with
    records := r
    held := inc :: w.held
    stamps := (inc.id, inc.stateChangedAt) :: w.stamps }

def settle {ε : Type} (w : WriterWorld) (fault : Bool) (outcome : Except ε (Records × Incident)) :
    WriterWorld :=
  match fault, outcome with
  | false, .ok (r, inc) => w.committed r inc
  | _, _ => w

/-- The outcome of an ingest. A new incident is stamped with its opening time. -/
def joinedSignal (w : WriterWorld) (db : Database) (id : Str) : WriterWorld :=
  { w with
    records := { w.records with db }
    stamps :=
      match getIncident id w.records.db, getIncident id db with
      | none, some row => (id, row.stateChangedAt) :: w.stamps
      | _, _ => w.stamps
    joined := id :: w.joined }

/-- What an operation does. -/
def apply (w : WriterWorld) : WriterOp → WriterWorld
  | .read => { w with held := w.records.db.incidents ++ w.held }
  | .move m now fault => w.settle fault (m.run now w.records)
  | .park p now fault => w.settle fault (p.run now w.records)
  | .bind snap book now fault =>
    w.settle fault (storeIncident (latePlaybook snap book now) w.records)
  | .rewind snap index now fault =>
    w.settle fault (storeIncident (rewound snap index now) w.records)
  | .ingest env sig fault =>
    match fault, ingestTx env sig w.records.db with
    | false, .ok (db, id) => w.joinedSignal db id
    | _, _ => w
  | .acknowledge a now fault =>
    match fault, a.run now w.records with
    | false, .ok (r, _) => { w with records := r }
    | _, _ => w
  | .decide a => { w with records := recordApproval a w.records }
  | .pauses paused => { w with records := applyNodeConfigPauses paused w.records }
  | .cancel id updatedAt now =>
    { w with
      records := { w.records with
        db := cancelPendingActionsForIncident id updatedAt now w.records.db } }

end WriterWorld

/-- The copy an operation writes from. -/
def WriterOp.snapshot? : WriterOp → Option Incident
  | .move m _ _ => some m.snap
  | .park p _ _ => some p.snap
  | .bind snap _ _ _ => some snap
  | .rewind snap _ _ _ => some snap
  | _ => none

/-- Callers write from copies they hold. -/
def writerNext (w : WriterWorld) (op : WriterOp) : Option WriterWorld :=
  if ∀ snap ∈ op.snapshot?, snap ∈ w.held then some (w.apply op) else none

variable {w w' : WriterWorld} {op : WriterOp} {row row' : Incident} {fault : Bool}

theorem writerNext_eq_some :
    writerNext w op = some w' ↔ (∀ snap ∈ op.snapshot?, snap ∈ w.held) ∧ w' = w.apply op := by
  rw [writerNext]
  split_ifs with h
  · exact ⟨fun heq => ⟨h, (Option.some.inj heq).symm⟩, fun heq => congrArg some heq.2.symm⟩
  constructor
  · intro heq
    cases heq
  · intro heq
    exact absurd heq.1 h

open WriterWorld

/-! ## Copies and their rows -/

/-- The columns only the walk and the janitors change. -/
structure WalkOwned where
  state : IncidentState
  stepIndex : Int
  attempt : Int
  playbook : Str
  approvalEpoch : Int
  slotHeld : Bool

def walkOwned (inc : Incident) : WalkOwned :=
  ⟨inc.state, inc.stepIndex, inc.attempt, inc.playbook, inc.approvalEpoch, inc.remediationSlotHeld⟩

/-- Two incidents were opened alike: of one class, about one device, at the same time and in the
same mode. -/
structure SameOrigin (a b : Incident) : Prop where
  cls : a.cls = b.cls
  device : a.target.SameDevice b.target
  openedAt : a.openedAt = b.openedAt
  dryRun : a.dryRun = b.dryRun

theorem SameOrigin.refl (inc : Incident) : SameOrigin inc inc := ⟨rfl, .refl _, rfl, rfl⟩

theorem SameOrigin.trans {a b c : Incident} (h : SameOrigin a b) (h' : SameOrigin b c) :
    SameOrigin a c :=
  ⟨h.cls.trans h'.cls, h.device.trans h'.device, h.openedAt.trans h'.openedAt,
    h.dryRun.trans h'.dryRun⟩

theorem SameOrigin.symm {a b : Incident} (h : SameOrigin a b) : SameOrigin b a :=
  ⟨h.cls.symm, h.device.symm, h.openedAt.symm, h.dryRun.symm⟩

theorem Move.copy_origin (m : Move) (now : Int) (fresh : Incident) :
    SameOrigin (m.copy now fresh) m.snap := ⟨rfl, .refl _, rfl, rfl⟩

structure Trails (copy row : Incident) : Prop where
  origin : SameOrigin copy row
  version : copy.version ≤ row.version
  current : copy.version = row.version → { copy with target := row.target } = row

theorem Trails.refl (row : Incident) : Trails row row :=
  ⟨.refl row, Int.le_refl _, fun _ => rfl⟩

variable {copy snap : Incident} {now : Int} {ops : List WriterOp}

theorem Trails.written (h : SameOrigin copy row) :
    Trails { copy with version := row.version + 1 } (writeIncident copy row) := by
  refine ⟨{ h with dryRun := rfl }, Int.le_refl _, fun _ => ?_⟩
  simp only [writeIncident, h.cls, h.openedAt]

theorem SameOrigin.written (h : SameOrigin copy row) : SameOrigin (writeIncident copy row) row :=
  ⟨rfl, .refl _, rfl, h.dryRun⟩

/-! ## What an operation does to the incidents -/

/-- A park keeps the vendor of the row it replaces: the walk has read the vendor that is
identified. -/
def VendorRead (w : WriterWorld) : WriterOp → Prop
  | .park p _ _ => ∀ row ∈ getIncident p.snap.id w.records.db,
      vendorValid row.vendor = true → p.snap.vendor = row.vendor
  | _ => True

instance decidableVendorRead (w : WriterWorld) (op : WriterOp) : Decidable (VendorRead w op) :=
  match op with
  | .park p _ _ => inferInstanceAs (Decidable (∀ row ∈ getIncident p.snap.id w.records.db,
      vendorValid row.vendor = true → p.snap.vendor = row.vendor))
  | .read | .move .. | .bind .. | .rewind .. | .ingest .. | .acknowledge .. | .decide .. |
    .pauses .. | .cancel .. => isTrue trivial

/-- The copies an operation replaces a row by, with the approval rows it adds: what a transition or
park writes for a row that passed its fence, and what a late bind or rewind writes for a row of the
version it read. -/
inductive Rewrites : WriterOp → Incident → Incident → List Approval → Prop where
  | move (m : Move) (now : Int) (row : Incident) (legal : canTransition m.snap.state m.dest = true)
      (fence : fenced m.snap row = true) : Rewrites (.move m now false) row (m.copy now row) []
  | park (p : Park) (now : Int) (row : Incident)
      (legal : p.snap.state = .awaitingApproval ∨
        canTransition p.snap.state .awaitingApproval = true)
      (fence : fenced p.snap row = true) :
      Rewrites (.park p now false) row (p.copy now row) [p.request now (row.approvalEpoch + 1)]
  | bind (snap : Incident) (book : Str) (now : Int) (row : Incident)
      (current : { snap with target := row.target } = row) :
      Rewrites (.bind snap book now false) row (latePlaybook snap book now) []
  | rewind (snap : Incident) (index now : Int) (row : Incident)
      (current : { snap with target := row.target } = row) :
      Rewrites (.rewind snap index now false) row (rewound snap index now) []

/-- The operations that revise a row, with the `UpdatedAt` they leave. -/
inductive Revises (db : Database) : WriterOp → Incident → Int → Prop where
  | signal (env : IngestEnv) (sig : Signal) (row : Incident)
      (joined : getOpenIncident env.lower sig.target sig.cls db = some row) :
      Revises db (.ingest env sig false) row env.updatedAt
  | acknowledge (a : Ack) (now : Int) (row : Incident) (named : row.id = a.id) :
      Revises db (.acknowledge a now false) row now

/-- The effects an operation can have on the incidents. -/
inductive Effect (w : WriterWorld) (op : WriterOp) (w' : WriterWorld) : Prop where
  /-- No row changed; a caller may have read rows. -/
  | quiet (rows : w'.records.db.incidents = w.records.db.incidents)
      (approvals : w'.records.approvals = w.records.approvals ∨
        ∃ a, op = .decide a ∧ w'.records.approvals = w.records.approvals ++ [a])
      (held : ∀ h ∈ w'.held, h ∈ w.held ∨ h ∈ w.records.db.incidents)
      (stamps : w'.stamps = w.stamps) (joined : w'.joined = w.joined)
  /-- A caller's copy replaced a row. -/
  | wrote (row copy : Incident) (asked : List Approval)
      (replaced : Replaced w.records.db w'.records.db row (writeIncident copy row))
      (rewrites : Rewrites op row copy asked)
      (approvals : w'.records.approvals = w.records.approvals ++ asked)
      (id : copy.id = row.id) (origin : SameOrigin copy row)
      (seen : copy.signalSeen = row.signalSeen)
      (vendor : VendorRead w op → vendorValid row.vendor = true → copy.vendor = row.vendor)
      (held : w'.held = { copy with version := row.version + 1 } :: w.held)
      (stamps : w'.stamps = (row.id, copy.stateChangedAt) :: w.stamps)
      (joined : w'.joined = w.joined)
  /-- A row was revised: a signal joined it or an operator acknowledged it. -/
  | revised (row row' : Incident) (replaced : Replaced w.records.db w'.records.db row row')
      (revises : Revises w.records.db op row row'.updatedAt)
      (approvals : w'.records.approvals = w.records.approvals)
      (origin : SameOrigin row' row) (version : row.version < row'.version)
      (owned : walkOwned row' = walkOwned row) (stamp : row'.stateChangedAt = row.stateChangedAt)
      (vendor : vendorValid row.vendor = true → row'.vendor = row.vendor)
      (uuid : row.target.gpuUUID ≠ [] → row'.target.gpuUUID = row.target.gpuUUID)
      (held : w'.held = w.held) (stamps : w'.stamps = w.stamps)
      (seen : (row'.signalSeen = row.signalSeen ∧ w'.joined = w.joined) ∨
        (row'.signalSeen = row.signalSeen + 1 ∧ w'.joined = row.id :: w.joined))
  /-- A signal opened an incident. -/
  | opened (row : Incident)
      (signal : ∃ env sig, op = .ingest env sig false ∧ row.dryRun = env.dryRun)
      (added : Added w.records.db w'.records.db row)
      (approvals : w'.records.approvals = w.records.approvals)
      (owned : walkOwned row = ⟨.open, 0, 0, row.playbook, 0, false⟩)
      (held : w'.held = w.held) (stamps : w'.stamps = (row.id, row.stateChangedAt) :: w.stamps)
      (seen : row.signalSeen = 1) (joined : w'.joined = row.id :: w.joined)

theorem Effect.same (w : WriterWorld) (op : WriterOp) : Effect w op w :=
  .quiet rfl (.inl rfl) (fun _ h => .inl h) rfl rfl

/-- The invariant of every run. -/
structure WriterInv (w : WriterWorld) : Prop where
  ids : (w.records.db.incidents.map (·.id)).Nodup
  trails : ∀ h ∈ w.held, ∃ row, getIncident h.id w.records.db = some row ∧ Trails h row
  heldStamp : ∀ h ∈ w.held, (h.id, h.stateChangedAt) ∈ w.stamps
  rowStamp : ∀ id row, getIncident id w.records.db = some row →
    (id, row.stateChangedAt) ∈ w.stamps
  fence : w.stamps.Nodup → ∀ h ∈ w.held, ∀ row, getIncident h.id w.records.db = some row →
    h.stateChangedAt = row.stateChangedAt → walkOwned h = walkOwned row

section

variable (hinv : WriterInv w)
include hinv

theorem WriterInv.trails_row (hs : snap ∈ w.held) (hid : row.id = snap.id)
    (hr : getIncident row.id w.records.db = some row) : Trails snap row := by
  obtain ⟨_, hf, htrails⟩ := hinv.trails snap hs
  rw [← hid] at hf
  cases hf.symm.trans hr
  exact htrails

theorem apply_move_effect {m : Move} (hs : m.snap ∈ w.held) :
    Effect w (.move m now fault) (w.apply (.move m now fault)) := by
  simp only [apply, settle]
  split
  next r inc hu =>
    obtain ⟨hl, row, hid, hf, he, rfl, hr⟩ := Move.run_ok hu
    have htrails := hinv.trails_row hs hid he.found
    refine .wrote row (m.copy now row) [] he (.move m now row hl hf) ?_ hid.symm
      ((m.copy_origin now row).trans htrails.origin) rfl (fun _ _ => rfl) rfl ?_ rfl
    · rw [List.append_nil]
      exact (congrArg Records.approvals hr :)
    · simp [committed, Move.copy, hid]
  · exact .same w _

theorem apply_park_effect {p : Park} (hs : p.snap ∈ w.held) :
    Effect w (.park p now fault) (w.apply (.park p now fault)) := by
  simp only [apply, settle]
  split
  next r inc hu =>
    obtain ⟨hl, row, hid, hf, he, rfl, hr⟩ := Park.run_ok hu
    have htrails := hinv.trails_row hs hid he.found
    refine .wrote row (p.copy now row) _ he (.park p now row hl hf) ?_ hid.symm
      (SameOrigin.trans (b := p.snap) ⟨rfl, .refl _, rfl, rfl⟩ htrails.origin) rfl
      (fun hd hv => ?_) rfl ?_ rfl
    · exact congrArg Records.approvals hr
    · exact hd row (hid ▸ he.found) hv
    · simp [committed, Park.copy, hid]
  · exact .same w _

/-- A write that guards on the version writes the row back, up to the columns it changes. -/
theorem settle_storeIncident_effect {inc : Incident} (hs : snap ∈ w.held) (hid : inc.id = snap.id)
    (hv : inc.version = snap.version) (horig : SameOrigin inc snap)
    (hn : inc.signalSeen = snap.signalSeen) (hd : inc.vendor = snap.vendor)
    (hrewrites : ∀ row, fault = false → { snap with target := row.target } = row →
      Rewrites op row inc []) :
    Effect w op (w.settle fault (storeIncident inc w.records)) := by
  simp only [settle]
  split
  next r copy ho =>
    obtain ⟨row, hrid, hrversion, he, rfl, hr⟩ := storeIncident_ok ho
    have htrails := hinv.trails_row hs (hrid.trans hid) he.found
    have hc := htrails.current (hv.symm.trans hrversion.symm)
    refine .wrote row inc [] he (hrewrites row rfl hc) ?_ hrid.symm
      (horig.trans htrails.origin) ?_ (fun _ _ => ?_) ?_ ?_ rfl
    · rw [List.append_nil]
      exact (congrArg Records.approvals hr :)
    · rw [hn, ← hc]
    · rw [hd, ← hc]
    · simp [committed, hrversion]
    · simp [committed, hrid]
  · exact .same w _

theorem apply_ingest_effect {env : IngestEnv} {sig : Signal} :
    Effect w (.ingest env sig fault) (w.apply (.ingest env sig fault)) := by
  simp only [apply]
  split
  next db id hingest =>
    rcases ingestTx_row hinv.ids hingest with
      ⟨rfl, -, hadded⟩ | ⟨row, row', rfl, ho, hr, hj, -⟩
    · refine .opened (openedRow env sig) ⟨env, sig, rfl, rfl⟩ hadded rfl rfl rfl ?_ rfl rfl
      simp only [joinedSignal, hadded.missing, hadded.written]
    have hcols := hj.columns
    refine .revised row row' hr ?_ rfl ⟨?_, hj.device, ?_, ?_⟩ hj.version ?_ ?_
      ?_ ?_ rfl ?_ (.inr ⟨?_, rfl⟩)
    · rw [show row'.updatedAt = env.updatedAt by rw [hcols, attachSignal]]
      exact .signal env sig row ho
    · rw [hcols, attachSignal]
    · rw [hcols, attachSignal]
    · rw [hcols, attachSignal]
    · rw [hcols]
      rfl
    · rw [hcols, attachSignal]
    · intro hv
      rw [hcols]
      simp [attachSignal, hv]
    · intro hu
      rcases hj.target with heq | ⟨he, -⟩
      · rw [heq]
      · exact absurd he hu
    · simp only [joinedSignal, hr.found]
    · rw [hcols, attachSignal]
  · exact .same w _

/-- **What an operation does to the incidents.** -/
theorem apply_effect (hen : ∀ snap ∈ op.snapshot?, snap ∈ w.held) : Effect w op (w.apply op) := by
  cases op with
  | read =>
    refine .quiet rfl (.inl rfl) (fun h hh => ?_) rfl rfl
    exact (List.mem_append.1 hh).symm
  | move m => exact apply_move_effect hinv (hen m.snap rfl)
  | park p => exact apply_park_effect hinv (hen p.snap rfl)
  | bind snap | rewind snap =>
    refine settle_storeIncident_effect hinv (hen snap rfl) rfl rfl ⟨rfl, .refl _, rfl, rfl⟩ rfl
      rfl ?_
    rintro row rfl hc
    constructor
    exact hc
  | ingest => exact apply_ingest_effect hinv
  | acknowledge a now fault =>
    simp only [apply]
    split
    next r inc hu =>
      obtain ⟨row, hid, -, -, he, -, hr⟩ := Ack.run_ok hu
      refine .revised row _ he (.acknowledge a now row hid)
        (congrArg Records.approvals hr :) ⟨rfl, .refl _, rfl, rfl⟩ ?_ rfl rfl
        (fun _ => rfl) (fun _ => rfl) rfl rfl (.inl ⟨rfl, rfl⟩)
      show row.version < row.version + 1
      omega
    · exact .same w _
  | decide a => exact .quiet rfl (.inr ⟨a, rfl, rfl⟩) (fun _ h => .inl h) rfl rfl
  | pauses | cancel => exact .quiet rfl (.inl rfl) (fun _ h => .inl h) rfl rfl

end

/-- Only pauses touch the nodes, and only a cancellation touches the actions. -/
theorem apply_frame :
    ((∀ paused, op ≠ .pauses paused) → (w.apply op).records.nodes = w.records.nodes) ∧
      (WriterInv w → (∀ id updatedAt now, op ≠ .cancel id updatedAt now) →
        (w.apply op).records.db.actions = w.records.db.actions) := by
  have hs : ∀ {ε : Type} {fault : Bool} {outcome : Except ε (Records × Incident)} {P Q R : Prop},
      (∀ r inc, outcome = .ok (r, inc) →
        r.nodes = w.records.nodes ∧ ∃ row row', Replaced w.records.db r.db row row') →
      (P → (w.settle fault outcome).records.nodes = w.records.nodes) ∧
        (Q → R → (w.settle fault outcome).records.db.actions = w.records.db.actions) := by
    intro ε fault outcome P Q R he
    unfold settle
    split
    · obtain ⟨hn, _, _, he⟩ := he _ _ rfl
      exact ⟨fun _ => hn, fun _ _ => (congrArg Database.actions he.rest :)⟩
    · exact ⟨fun _ => rfl, fun _ _ => rfl⟩
  cases op with
  | move =>
    refine hs fun r inc hu => ?_
    obtain ⟨-, row, -, -, he, -, hr⟩ := Move.run_ok hu
    exact ⟨(congrArg Records.nodes hr :), row, _, he⟩
  | park =>
    refine hs fun r inc hu => ?_
    obtain ⟨-, row, -, -, he, -, hr⟩ := Park.run_ok hu
    exact ⟨(congrArg Records.nodes hr :), row, _, he⟩
  | bind | rewind =>
    refine hs fun r inc ho => ?_
    obtain ⟨row, -, -, he, -, hr⟩ := storeIncident_ok ho
    exact ⟨(congrArg Records.nodes hr :), row, _, he⟩
  | ingest env sig fault =>
    simp only [apply]
    split
    next db id hingest =>
      refine ⟨fun _ => rfl, fun hinv _ => ?_⟩
      rcases ingestTx_row hinv.ids hingest with
        ⟨-, -, hadded⟩ | ⟨row, row', -, -, he, -⟩
      · exact (congrArg Database.actions hadded.rest :)
      · exact (congrArg Database.actions he.rest :)
    · exact ⟨fun _ => rfl, fun _ _ => rfl⟩
  | acknowledge a now fault =>
    simp only [apply]
    split
    next r inc hu =>
      obtain ⟨_, -, -, -, he, -, hr⟩ := Ack.run_ok hu
      exact ⟨fun _ => (congrArg Records.nodes hr :),
        fun _ _ => (congrArg Database.actions he.rest :)⟩
    · exact ⟨fun _ => rfl, fun _ _ => rfl⟩
  | pauses paused => exact ⟨fun h => absurd rfl (h paused), fun _ _ => rfl⟩
  | cancel id updatedAt now => exact ⟨fun _ => rfl, fun _ h => absurd rfl (h id updatedAt now)⟩
  | read | decide => exact ⟨fun _ => rfl, fun _ _ => rfl⟩

theorem Effect.of_move {m : Move} (h : Effect w (.move m now fault) w') :
    (w'.records.db.incidents = w.records.db.incidents ∧ w'.stamps = w.stamps) ∨
      ∃ row, Replaced w.records.db w'.records.db row (writeIncident (m.copy now row) row) ∧
        canTransition m.snap.state m.dest = true ∧ fenced m.snap row = true ∧
        m.snap.id = row.id ∧ SameOrigin m.snap row ∧ w'.stamps = (row.id, now) :: w.stamps := by
  generalize hop : WriterOp.move m now fault = op at h
  cases h with
  | quiet rows _ _ stamps => exact .inl ⟨rows, stamps⟩
  | wrote row _ _ replaced rewrites _ id origin _ _ _ stamps =>
    cases rewrites with
    | move _ _ row legal fence =>
      cases hop
      exact .inr ⟨row, replaced, legal, fence, id,
        (m.copy_origin now row).symm.trans origin, stamps⟩
    | _ => cases hop
  | revised _ row' _ revises =>
    generalize row'.updatedAt = updatedAt at revises
    cases revises <;> cases hop
  | opened _ signal =>
    obtain ⟨_, _, rfl, -⟩ := signal
    cases hop

theorem Effect.stamps_grow (h : Effect w op w') : ∃ more, w'.stamps = more ++ w.stamps := by
  cases h with
  | quiet _ _ _ stamps | revised _ _ _ _ _ _ _ _ _ _ _ _ stamps => exact ⟨[], stamps⟩
  | wrote _ _ _ _ _ _ _ _ _ _ _ stamps | opened _ _ _ _ _ _ stamps => exact ⟨[_], stamps⟩

theorem Effect.row_kept (h : Effect w op w') {id : Str}
    (hw : getIncident id w.records.db = some row) :
    ∃ row', getIncident id w'.records.db = some row' ∧ SameOrigin row' row := by
  cases h with
  | quiet rows =>
    refine ⟨row, ?_, .refl row⟩
    rw [getIncident, rows]
    exact hw
  | wrote _ _ _ replaced _ _ _ origin =>
    exact replaced.forward hw (.refl row) fun heq => heq ▸ origin.written
  | revised _ _ replaced _ _ origin =>
    exact replaced.forward hw (.refl row) fun heq => heq ▸ origin
  | opened _ _ added => exact ⟨row, added.forward hw, .refl row⟩

/-- **Only a transition**, from a copy that passed the fence, moves an incident into a state in
which no incident is opened or parked. -/
theorem Effect.entered (h : Effect w op w') {id : Str}
    (hr' : getIncident id w'.records.db = some row')
    (hpl : row'.state ∉ [.open, .awaitingApproval])
    (hn : ∀ row, getIncident id w.records.db = some row → row.state ≠ row'.state) :
    ∃ m now row, op = .move m now false ∧ m.dest = row'.state ∧
      canTransition m.snap.state m.dest = true ∧ getIncident id w.records.db = some row ∧
      row.id = m.snap.id ∧ fenced m.snap row = true ∧
      row' = writeIncident (m.copy now row) row := by
  cases h with
  | quiet rows =>
    rw [getIncident, rows] at hr'
    exact absurd rfl (hn row' hr')
  | wrote row _ _ replaced rewrites _ hid =>
    rcases replaced.cases hr' with ⟨rfl, rfl⟩ | ⟨-, he⟩
    · cases rewrites with
      | move m now row legal fence =>
        exact ⟨m, now, row, rfl, rfl, legal, replaced.found, hid.symm, fence, rfl⟩
      | park =>
        exact absurd (.tail _ (List.mem_singleton.2 rfl)) hpl
      | bind _ _ _ row current | rewind _ _ _ row current =>
        exact absurd (congrArg Incident.state current).symm (hn row replaced.found)
    · exact absurd rfl (hn row' he)
  | revised row _ replaced _ _ _ _ owned =>
    rcases replaced.cases hr' with ⟨rfl, rfl⟩ | ⟨-, he⟩
    · exact absurd (congrArg WalkOwned.state owned).symm (hn row replaced.found)
    · exact absurd rfl (hn row' he)
  | opened _ _ added _ owned =>
    rcases added.cases hr' with ⟨rfl, rfl⟩ | ⟨-, he⟩
    · refine absurd ?_ hpl
      rw [show row'.state = .open from congrArg WalkOwned.state owned]
      exact .head _
    · exact absurd rfl (hn row' he)

/-! ## The invariant -/

theorem writerInv_start {r : Records} (hi : (r.db.incidents.map (·.id)).Nodup) :
    WriterInv (.start r) where
  ids := hi
  trails := by
    intro h hh
    cases hh
  heldStamp := by
    intro h hh
    cases hh
  rowStamp := by
    intro id row hr
    refine List.mem_map.2 ⟨row, getIncident_mem hr, ?_⟩
    rw [getIncident_id hr]
  fence := by
    intro _ h hh
    cases hh

theorem WriterInv.trails_replaced (hinv : WriterInv w) {db : Database}
    (he : Replaced w.records.db db row row') (horig : SameOrigin row' row)
    (hv : row.version < row'.version) {h : Incident} (hh : h ∈ w.held) :
    ∃ r, getIncident h.id db = some r ∧ Trails h r := by
  obtain ⟨r, hr, htrails⟩ := hinv.trails h hh
  refine he.forward hr htrails fun heq => ?_
  subst heq
  have hle := htrails.version
  exact ⟨htrails.origin.trans horig.symm, by omega, by omega⟩

theorem WriterInv.effect (hinv : WriterInv w) (he : Effect w op w') : WriterInv w' := by
  obtain ⟨records, _, _, _⟩ := w'
  cases he with
  | quiet rows _ held stamps =>
    subst stamps
    have hg : ∀ id, getIncident id records.db = getIncident id w.records.db := by
      intro id
      rw [getIncident, getIncident, rows]
    -- a copy that was just read is its row
    have hd := fun h hh => (held h hh).imp_right (getIncident_of_mem hinv.ids)
    refine ⟨rows ▸ hinv.ids, fun h hh => ?_, fun h hh => ?_, fun id row hw => ?_, ?_⟩
    · rw [hg]
      rcases hd h hh with hold | hw
      · exact hinv.trails h hold
      · exact ⟨h, hw, .refl h⟩
    · rcases hd h hh with hold | hw
      · exact hinv.heldStamp h hold
      · exact hinv.rowStamp h.id h hw
    · exact hinv.rowStamp id row (hg id ▸ hw)
    intro hnd h hh row hw hp
    rw [hg] at hw
    rcases hd h hh with hold | hs
    · exact hinv.fence hnd h hold row hw hp
    · rw [Option.some.inj (hs.symm.trans hw)]
  | wrote row copy _ replaced _ _ id origin _ _ held stamps =>
    subst held stamps
    refine ⟨replaced.ids ▸ hinv.ids, List.forall_mem_cons.2 ⟨?_, fun h hold => ?_⟩,
      List.forall_mem_cons.2 ⟨by simp [id], fun h hold => .tail _ (hinv.heldStamp h hold)⟩,
      fun i r hr => ?_, ?_⟩
    · exact ⟨_, id ▸ replaced.written, .written origin⟩
    · exact hinv.trails_replaced replaced origin.written (Int.lt_succ _) hold
    · rcases replaced.cases hr with ⟨rfl, rfl⟩ | ⟨-, hr⟩
      · exact .head _
      · exact .tail _ (hinv.rowStamp i r hr)
    intro hnd h hh r hr hp
    rcases replaced.cases hr with ⟨hid, rfl⟩ | ⟨hid, hr⟩
    · obtain _ | ⟨_, hold⟩ := hh
      · rfl
      -- an older copy cannot carry the new instant
      have hold := hinv.heldStamp h hold
      rw [hid, hp] at hold
      exact absurd hold (List.nodup_cons.1 hnd).1
    · obtain _ | ⟨_, hold⟩ := hh
      · exact absurd id hid
      · exact hinv.fence (List.nodup_cons.1 hnd).2 h hold r hr hp
  | revised row row' replaced _ _ origin version owned stamp _ _ held stamps =>
    subst held stamps
    refine ⟨replaced.ids ▸ hinv.ids, fun h hh => hinv.trails_replaced replaced origin version hh,
      hinv.heldStamp, fun i r hr => ?_, ?_⟩
    · rcases replaced.cases hr with ⟨rfl, rfl⟩ | ⟨-, hr⟩
      · rw [stamp]
        exact hinv.rowStamp row.id row replaced.found
      · exact hinv.rowStamp i r hr
    intro hnd h hh r hr hp
    rcases replaced.cases hr with ⟨hid, rfl⟩ | ⟨-, hr⟩
    · rw [owned]
      exact hinv.fence hnd h hh row (hid ▸ replaced.found) (hp.trans stamp)
    · exact hinv.fence hnd h hh r hr hp
  | opened row _ added _ _ held stamps =>
    subst held stamps
    have ho : ∀ h ∈ w.held, h.id ≠ row.id := by
      intro h hh heq
      obtain ⟨_, hr, -⟩ := hinv.trails h hh
      rw [heq, added.missing] at hr
      cases hr
    refine ⟨added.nodup hinv.ids, fun h hh => ?_, fun h hh => .tail _ (hinv.heldStamp h hh),
      fun i r hr => ?_, ?_⟩
    · obtain ⟨r, hr, htrails⟩ := hinv.trails h hh
      exact ⟨r, added.forward hr, htrails⟩
    · rcases added.cases hr with ⟨rfl, rfl⟩ | ⟨-, hr⟩
      · exact .head _
      · exact .tail _ (hinv.rowStamp i r hr)
    intro hnd h hh r hr hp
    rw [added.others h.id (ho h hh)] at hr
    exact hinv.fence (List.nodup_cons.1 hnd).2 h hh r hr hp

theorem WriterInv.next (hinv : WriterInv w) (h : writerNext w op = some w') : WriterInv w' := by
  obtain ⟨hen, rfl⟩ := writerNext_eq_some.1 h
  exact hinv.effect (apply_effect hinv hen)

/-- **The invariant of every run.** -/
theorem writerInv_exec {r : Records} (hi : (r.db.incidents.map (·.id)).Nodup)
    (h : exec writerNext (.start r) ops = some w) :
    WriterInv w :=
  exec_invariant (fun _ _ _ hinv hs => hinv.next hs) (writerInv_start hi) h

/-! ## Transitions and parks -/

/-- The copy a guarded write was computed from, and the audit entry it commits with. -/
def WriterOp.guarded? : WriterOp → Option (Incident × AuditEntry)
  | .move m now _ => some (m.snap, m.entry now)
  | .park p now _ => some (p.snap, p.entry now)
  | _ => none

theorem guarded_settles {entry : AuditEntry}
    (hs : writerNext w op = some w') (hop : op.guarded? = some (snap, entry)) :
    w'.records = w.records ∨
      (snap ∈ w.held ∧ ∃ row row', row.id = snap.id ∧ fenced snap row = true ∧
        Replaced w.records.db w'.records.db row row' ∧
        w'.records.audit = w.records.audit ++ [entry]) := by
  obtain ⟨hen, rfl⟩ := writerNext_eq_some.1 hs
  cases op with
  | move m now fault =>
    cases hop
    simp only [apply, settle]
    split
    next r inc hu =>
      obtain ⟨-, row, hid, hf, he, -, hr⟩ := Move.run_ok hu
      exact .inr ⟨hen m.snap rfl, row, _, hid, hf, he, congrArg Records.audit hr⟩
    · exact .inl rfl
  | park p now fault =>
    cases hop
    simp only [apply, settle]
    split
    next r inc hu =>
      obtain ⟨-, row, hid, hf, he, -, hr⟩ := Park.run_ok hu
      exact .inr ⟨hen p.snap rfl, row, _, hid, hf, he, congrArg Records.audit hr⟩
    · exact .inl rfl
  | _ => cases hop

/-- **A transition or park replaces exactly what it was computed from.** In every run in which no
two writes of an incident carry the same `StateChangedAt`, a transition or park from a copy of any
age either leaves the store unchanged, or replaces a row that agrees with the copy on every column
of the walk, together with its audit entry. -/
theorem guarded_write_exact {r : Records} (hids : (r.db.incidents.map (·.id)).Nodup)
    {ops : List WriterOp} {w w' : WriterWorld} (hrun : exec writerNext (.start r) ops = some w)
    (hclock : w.stamps.Nodup) {op : WriterOp} (hstep : writerNext w op = some w')
    {snap : Incident} {entry : AuditEntry} (hop : op.guarded? = some (snap, entry)) :
    w'.records = w.records ∨
      ∃ row row', row.id = snap.id ∧ Replaced w.records.db w'.records.db row row' ∧
        walkOwned snap = walkOwned row ∧ w'.records.audit = w.records.audit ++ [entry] := by
  have hinv := writerInv_exec hids hrun
  rcases guarded_settles hstep hop with hsame | ⟨hsnap, row, row', hid, hfence, hreplaced, haudit⟩
  · exact .inl hsame
  -- the fence compared the instants, so the copy and the row carry the same one
  have hstamp : snap.stateChangedAt = row.stateChangedAt := by
    simp only [fenced, Bool.and_eq_true, decide_eq_true_eq] at hfence
    exact hfence.2.symm
  exact .inr ⟨row, row', hid, hreplaced,
    hinv.fence hclock snap hsnap row (hid ▸ hreplaced.found) hstamp, haudit⟩

/-- An incident that is being evaluated and names no vendor yet. -/
def evaluatingIncident : Incident :=
  { id := lit "inc-1"
    target := ⟨lit "n1", [], 0, []⟩
    cls := lit "xid"
    state := .evaluating
    playbook := lit "drain"
    stepIndex := 0
    attempt := 0
    dryRun := false
    signalSeen := 1
    vendor := []
    remediationSlotHeld := false
    approvalEpoch := 0
    openedAt := 0
    updatedAt := 10
    stateChangedAt := 10
    resolvedAt := none
    version := 1 }

/-- A store that holds only that incident. -/
def evaluatingRecords : Records :=
  { Records.empty with db := { Database.empty with incidents := [evaluatingIncident] } }

/-- A step that only a human may start. -/
def resetStep : Step := ⟨lit "reset", lit "agent.gpu_reset", lit "required", 0, StrMap.empty⟩

/-- The park of that incident at that step. -/
def resetPark : WriterOp :=
  .park (parkForApproval (fun s => s) evaluatingIncident resetStep (lit "approve")) 20 false

/-- A park from a current copy commits with its audit entry. -/
theorem guarded_write_exact_of_park :
    ∃ w w' row row', exec writerNext (.start evaluatingRecords) [.read] = some w ∧
      w.stamps.Nodup ∧ writerNext w resetPark = some w' ∧
      Replaced w.records.db w'.records.db row row' ∧
      walkOwned evaluatingIncident = walkOwned row ∧
      w'.records.audit.length = w.records.audit.length + 1 := by
  have hread : exec writerNext (.start evaluatingRecords) [.read] =
      some ((start evaluatingRecords).apply .read) := rfl
  have hclock : ((start evaluatingRecords).apply .read).stamps.Nodup := by decide
  have hstep : writerNext ((start evaluatingRecords).apply .read) resetPark =
      some (((start evaluatingRecords).apply .read).apply resetPark) :=
    writerNext_eq_some.mpr ⟨by decide +kernel, rfl⟩
  have haudit : (((start evaluatingRecords).apply .read).apply
      resetPark).records.audit.length = 1 := by decide +kernel
  rcases guarded_write_exact (by decide) hread hclock hstep rfl with
    hsame | ⟨row, row', -, hreplaced, howned, -⟩
  · rw [hsame] at haudit
    cases haudit
  · exact ⟨_, _, row, row', hread, hclock, hstep, hreplaced, howned, haudit⟩

/-! ## What ingestion wrote -/

/-- The signals an incident has counted; none before it was opened. -/
def WriterWorld.seen (w : WriterWorld) (id : Str) : Int :=
  ((getIncident id w.records.db).map (·.signalSeen)).getD 0

theorem WriterWorld.seen_of_row {id : Str}
    (h : getIncident id w.records.db = some row) : w.seen id = row.signalSeen := by
  rw [seen, h, Option.map_some, Option.getD_some]

/-- Every signal that joined since is counted, and no device that was identified is lost. -/
structure SignalsKept (w w' : WriterWorld) : Prop where
  seen : ∀ id, w'.seen id + w.joined.count id = w.seen id + w'.joined.count id
  grows : ∀ id, w.joined.count id ≤ w'.joined.count id
  uuid : ∀ id row, getIncident id w.records.db = some row →
    ∃ row', getIncident id w'.records.db = some row' ∧
      (row.target.gpuUUID ≠ [] → row'.target.gpuUUID = row.target.gpuUUID)

theorem SignalsKept.refl (w : WriterWorld) : SignalsKept w w :=
  ⟨fun _ => rfl, fun _ => Nat.le_refl _, fun _ row hr => ⟨row, hr, fun _ => rfl⟩⟩

theorem SignalsKept.trans {w'' : WriterWorld} (h : SignalsKept w w') (h' : SignalsKept w' w'') :
    SignalsKept w w'' := by
  refine ⟨fun id => ?_, fun id => Nat.le_trans (h.grows id) (h'.grows id), fun id row hr => ?_⟩
  · have hs := h.seen id
    have hs' := h'.seen id
    omega
  obtain ⟨row', hr', hu⟩ := h.uuid id row hr
  obtain ⟨row'', hr'', hu'⟩ := h'.uuid id row' hr'
  refine ⟨row'', hr'', fun hne => ?_⟩
  rw [hu' (by rw [hu hne]; exact hne), hu hne]

theorem seen_replaced (hr : Replaced w.records.db w'.records.db row row')
    (hs : (row'.signalSeen = row.signalSeen ∧ w'.joined = w.joined) ∨
      (row'.signalSeen = row.signalSeen + 1 ∧ w'.joined = row.id :: w.joined)) (id : Str) :
    w'.seen id + w.joined.count id = w.seen id + w'.joined.count id := by
  by_cases hid : id = row.id
  · subst hid
    rw [seen_of_row hr.found, seen_of_row hr.written]
    rcases hs with ⟨hs, hj⟩ | ⟨hs, hj⟩
    · rw [hs, hj]
    · rw [hj, List.count_cons_self]
      omega
  have he : w'.seen id = w.seen id := by
    rw [seen, seen, hr.others id hid]
  rcases hs with ⟨-, hj⟩ | ⟨-, hj⟩
  · rw [he, hj]
  · rw [he, hj, List.count_cons_of_ne (Ne.symm hid)]

theorem Effect.signalsKept (h : Effect w op w') :
    SignalsKept w w' := by
  cases h with
  | quiet rows _ _ _ joined =>
    have hg : ∀ id, getIncident id w'.records.db = getIncident id w.records.db := by
      intro id
      rw [getIncident, getIncident, rows]
    refine ⟨fun id => ?_, fun id => Nat.le_of_eq (by rw [joined]), fun id row hr => ?_⟩
    · rw [seen, seen, hg, joined]
    · exact ⟨row, (hg id).trans hr, fun _ => rfl⟩
  | wrote _ _ _ replaced _ _ id _ seen _ _ _ joined =>
    refine ⟨seen_replaced replaced (.inl ⟨seen, joined⟩),
      fun id => Nat.le_of_eq (by rw [joined]), fun id found hf => ?_⟩
    exact replaced.forward hf (fun _ => rfl) fun heq _ => heq ▸ rfl
  | revised _ _ replaced _ _ _ _ _ _ _ uuid _ _ seen =>
    refine ⟨seen_replaced replaced seen, fun id => ?_, fun id found hf => ?_⟩
    · rcases seen with ⟨-, hj⟩ | ⟨-, hj⟩
      · rw [hj]
      · rw [hj]
        exact List.count_le_count_cons
    · exact replaced.forward hf (fun _ => rfl) fun heq => heq ▸ uuid
  | opened row _ added _ _ _ _ seen joined =>
    refine ⟨fun id => ?_, fun id => ?_, fun id found hf => ?_⟩
    · by_cases hid : id = row.id
      · subst hid
        rw [WriterWorld.seen_of_row added.written, WriterWorld.seen, added.missing, joined,
          List.count_cons_self]
        simp only [Option.map_none, Option.getD_none]
        omega
      · rw [WriterWorld.seen, WriterWorld.seen, added.others id hid, joined,
          List.count_cons_of_ne (Ne.symm hid)]
    · rw [joined]
      exact List.count_le_count_cons
    · exact ⟨found, added.forward hf, fun _ => rfl⟩

theorem Effect.vendorKept (h : Effect w op w') (hr : VendorRead w op) {id : Str}
    (hw : getIncident id w.records.db = some row)
    (hw' : getIncident id w'.records.db = some row') (hv : vendorValid row.vendor = true) :
    row'.vendor = row.vendor := by
  cases h with
  | quiet rows =>
    rw [getIncident, rows] at hw'
    rw [Option.some.inj (hw'.symm.trans hw)]
  | wrote _ _ _ replaced _ _ _ _ _ vendor | revised _ _ replaced _ _ _ _ _ _ vendor =>
    rcases replaced.cases hw' with ⟨rfl, rfl⟩ | ⟨-, he⟩
    · cases hw.symm.trans replaced.found
      apply vendor <;> assumption
    · rw [Option.some.inj (he.symm.trans hw)]
  | opened _ _ added =>
    rcases added.cases hw' with ⟨rfl, rfl⟩ | ⟨-, he⟩
    · rw [added.missing] at hw
      cases hw
    · rw [Option.some.inj (he.symm.trans hw)]

theorem signalsKept_exec (hinv : WriterInv w)
    (h : exec writerNext w ops = some w') : SignalsKept w w' := by
  refine exec_relates SignalsKept.refl (fun _ _ _ => SignalsKept.trans)
    (fun _ _ _ hinv hs => hinv.next hs) (fun s op t hinv hs => ?_) hinv h
  obtain ⟨hen, rfl⟩ := writerNext_eq_some.1 hs
  exact (apply_effect hinv hen).signalsKept

theorem vendorKept_exec (hinv : WriterInv w)
    (hd : Along writerNext VendorRead w ops) (h : exec writerNext w ops = some w')
    {id : Str} (hw : getIncident id w.records.db = some row)
    (hv : vendorValid row.vendor = true) (hw' : getIncident id w'.records.db = some row') :
    row'.vendor = row.vendor := by
  -- along the run the row is there and still names the vendor
  have hk : WriterInv w' ∧ ∃ r, getIncident id w'.records.db = some r ∧ r.vendor = row.vendor := by
    have hstep : ∀ s op t,
        (WriterInv s ∧ ∃ r, getIncident id s.records.db = some r ∧ r.vendor = row.vendor) →
        VendorRead s op → writerNext s op = some t →
        WriterInv t ∧ ∃ r, getIncident id t.records.db = some r ∧ r.vendor = row.vendor := by
      rintro _ _ _ ⟨hs, r, hr, hvend⟩ hok hstep
      obtain ⟨hen, rfl⟩ := writerNext_eq_some.1 hstep
      have he := apply_effect hs hen
      obtain ⟨r', hr', -⟩ := he.signalsKept.uuid id r hr
      refine ⟨hs.effect he, r', hr', ?_⟩
      rw [he.vendorKept hok hr hr' (hvend ▸ hv), hvend]
    exact exec_invariant_along hstep ⟨hinv, row, hw, rfl⟩ hd h
  obtain ⟨-, _, hr, hvend⟩ := hk
  rw [Option.some.inj (hw'.symm.trans hr), hvend]

/-- **Nothing ingestion committed is lost**, in every run whose parks wrote the vendor that was
identified: between any two moments of it an incident counts every signal that joined it, its count
does not decrease, and a vendor or device that was identified stays. -/
theorem ingested_facts_kept {r : Records} (hids : (r.db.incidents.map (·.id)).Nodup)
    {before after : List WriterOp} {w w' : WriterWorld}
    (hbefore : exec writerNext (.start r) before = some w)
    (hafter : exec writerNext w after = some w') (hread : Along writerNext VendorRead w after)
    (id : Str) :
    w'.seen id + w.joined.count id = w.seen id + w'.joined.count id ∧
      w.joined.count id ≤ w'.joined.count id ∧
      ∀ row, getIncident id w.records.db = some row →
        ∃ row', getIncident id w'.records.db = some row' ∧ row.signalSeen ≤ row'.signalSeen ∧
          (vendorValid row.vendor = true → row'.vendor = row.vendor) ∧
          (row.target.gpuUUID ≠ [] → row'.target.gpuUUID = row.target.gpuUUID) := by
  have hinv := writerInv_exec hids hbefore
  have hkept := signalsKept_exec hinv hafter
  refine ⟨hkept.seen id, hkept.grows id, fun row hrow => ?_⟩
  obtain ⟨row', hrow', huuid⟩ := hkept.uuid id row hrow
  refine ⟨row', hrow', ?_, fun hvalid => ?_, huuid⟩
  · have hseen := hkept.seen id
    have hgrows := hkept.grows id
    rw [seen_of_row hrow, seen_of_row hrow'] at hseen
    omega
  · exact vendorKept_exec hinv hread hafter hrow hvalid hrow'

/-- The clock and names of an ingest on the incident's node. -/
def sampleIngest : IngestEnv := ⟨fun s => s, false, fun _ => [], fun _ _ => lit "inc-2", 0, 0, 15⟩

/-- A signal of the incident that names its vendor. -/
def vendorSignal : Signal :=
  ⟨⟨lit "n1", [], 0, []⟩, lit "xid", KeyMap.ofEntries [(lit "vendor", lit "nvidia")]⟩

/-- The incident once that signal joined it. -/
def identifiedIncident : Incident :=
  { evaluatingIncident with signalSeen := 2, vendor := lit "nvidia", updatedAt := 15, version := 2 }

/-- Its park, and a signal after it. -/
def identifiedPark : List WriterOp :=
  [.park (parkForApproval (fun s => s) identifiedIncident resetStep (lit "approve")) 20 false,
    .ingest sampleIngest vendorSignal false]

/-- The walk read the incident after its vendor was identified: a park keeps the vendor, and the
signal after it is counted. -/
theorem ingested_facts_kept_of_read : ∃ w w' row', exec writerNext (.start evaluatingRecords)
        [.ingest sampleIngest vendorSignal false, .read] = some w ∧
      exec writerNext w identifiedPark = some w' ∧
      getIncident (lit "inc-1") w'.records.db = some row' ∧
      row'.state = .awaitingApproval ∧ row'.vendor = lit "nvidia" ∧ row'.signalSeen = 3 := by
  simp only [exists_and_left]
  refine reached (by decide +kernel) fun w hw (hrun :
    getIncident (lit "inc-1") w.records.db = some identifiedIncident ∧
    Along writerNext VendorRead w identifiedPark ∧
    ∃ w', exec writerNext w identifiedPark = some w' ∧
      ∃ row', getIncident (lit "inc-1") w'.records.db = some row' ∧
        row'.state = .awaitingApproval ∧ row'.signalSeen = 3) => ?_
  obtain ⟨hrow, hread, w', hw', _, hrow', hstate, hseen⟩ := hrun
  obtain ⟨-, -, hkept⟩ := ingested_facts_kept (by decide) hw hw' hread (lit "inc-1")
  obtain ⟨found, hfound, -, hvendor, -⟩ := hkept _ hrow
  obtain rfl := Option.some.inj (hfound.symm.trans hrow')
  exact ⟨w', hw', found, hfound, hstate, hvendor (by decide), hseen⟩

/-- A signal identifies the vendor after the walk read the incident. The park of the walk writes
the empty vendor it read. -/
theorem park_reverts_vendor : ∃ w w' row row', exec writerNext (.start evaluatingRecords)
        [.read, .ingest sampleIngest vendorSignal false] = some w ∧
      writerNext w resetPark = some w' ∧
      getIncident (lit "inc-1") w.records.db = some row ∧ row.vendor = lit "nvidia" ∧
      getIncident (lit "inc-1") w'.records.db = some row' ∧ row'.vendor = [] := by
  simp only [exists_and_left]
  decide +kernel

end KubeNeuron.Controller
