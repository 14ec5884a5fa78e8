import KubeNeuron.Controller.Walk
import KubeNeuron.Lib.Run

/-!
# Idempotent operator requests

A call reads the incident, looks its key up, reserves it, and then runs its transaction, of which
the reservation is not a part. `RequestWorld` interleaves any number of calls, cut at each store
call. As long as nothing comes between a reservation and the commit of its transaction, a call that
succeeds stands for an operation that was committed exactly once (`successes_are_committed`).
-/

namespace KubeNeuron.Controller

open Lib KubeNeuron.Types Store Playbooks

/-! ## Requests and keys -/

inductive OperatorAction where
  | acknowledge
  | resolve
  deriving DecidableEq

def OperatorAction.word : OperatorAction → Str
  | .acknowledge => lit "acknowledge"
  | .resolve => lit "resolve"

/-- A request of an operator. An expected version of zero is no expectation. -/
structure Request where
  action : OperatorAction
  id : Str
  actor : Str
  reason : Str
  expectedVersion : Int
  key : Str
  deriving DecidableEq

namespace Request

/-- `incidentOperationDigest`; `sha` is the hex digest of SHA-256. -/
def digest (sha : Str → Str) (r : Request) : Str :=
  lit "sha256:" ++ sha (r.action.word ++ [0] ++ r.id ++ [0] ++ r.actor ++ [0] ++ r.reason ++ [0] ++
    intText r.expectedVersion)

/-- `incidentOperationKey`. -/
def storageKey (r : Request) : Str := r.action.word ++ lit ":" ++ r.key

/-- What the table of keys is unique by. -/
def tag (r : Request) : Str × Str := (r.actor, r.storageKey)

/-- The required fields are there. -/
def filled (r : Request) : Bool :=
  trimSpace r.id ≠ [] && trimSpace r.actor ≠ [] && trimSpace r.key ≠ []

/-- The incident as it was read admits the operation. -/
def mayStart (r : Request) (current : Incident) : Bool :=
  match r.action with
  | .acknowledge => !current.state.terminal
  | .resolve => canTransition current.state .resolved

/-- The transaction of the operation; a resolution writes from the copy the call read. -/
def run (r : Request) (current : Incident) (now : Int) (records : Records) : Option Records :=
  match r.action with
  | .acknowledge =>
    ((⟨r.id, r.actor, r.reason, r.expectedVersion⟩ : Ack).run now records).toOption.map Prod.fst
  | .resolve =>
    ((manualResolve current r.actor r.reason).run now records).toOption.map Prod.fst

/-- The audit row is one of this operation. -/
def writes (r : Request) (e : AuditEntry) : Prop :=
  e.incidentID = r.id ∧ e.actor = r.actor ∧
    match r.action with
    | .acknowledge => e.action = lit "acknowledge"
    | .resolve => e.action = lit "manual-resolve" ∧ e.toState = .resolved

end Request

/-- A row of `operational_idempotency`. -/
structure KeyRecord where
  actor : Str
  key : Str
  digest : Str
  resource : Str

/-- The columns the table is unique by. -/
def KeyRecord.tag (k : KeyRecord) : Str × Str := (k.actor, k.key)

def KeyRecord.names (sha : Str → Str) (k : KeyRecord) (r : Request) : Bool :=
  k.digest = r.digest sha && k.resource = r.id

/-! ## The world -/

inductive RequestStage where
  | begun
  | read (current : Incident)
  /-- The key was not there, and the incident admits the operation. -/
  | checked (current : Incident)
  | reserved (current : Incident)
  /-- The reservation met a record of the same request. -/
  | found

/-- The call has reserved its key. -/
def RequestStage.isReserved : RequestStage → Bool
  | .reserved _ => true
  | _ => false

/-- A call under way. -/
structure RequestCall where
  request : Request
  stage : RequestStage

/-- The store with its keys and the calls under way. The rest is history: the rows the calls read,
the operations whose transaction committed, and the requests whose call returned without error. -/
structure RequestWorld where
  records : Records
  keys : List KeyRecord
  calls : List RequestCall
  reads : List Incident
  committed : List Request
  succeeded : List Request

/-- A store without keys. -/
def RequestWorld.start (records : Records) : RequestWorld := ⟨records, [], [], [], [], []⟩

inductive RequestOp where
  | call (r : Request)
  | read (i : Nat) (fault : Bool)
  | lookup (i : Nat) (fault : Bool)
  | reserve (i : Nat) (fault : StoreFault)
  | commit (i : Nat) (now : Int) (fault : StoreFault)
  | reread (i : Nat) (fault : Bool)
  /-- The call ends with its process. -/
  | drop (i : Nat)
  /-- Others write incidents and audit rows. -/
  | others (db : Database) (audit : List AuditEntry)

variable (sha : Str → Str) (w : RequestWorld)

namespace RequestWorld

/-- The call returns an error. -/
def fail (i : Nat) : RequestWorld := { w with calls := w.calls.eraseIdx i }

/-- The call returns without one. -/
def succeed (i : Nat) (r : Request) : RequestWorld :=
  { w with calls := w.calls.eraseIdx i, succeeded := r :: w.succeeded }

/-- The call goes on. -/
def turn (i : Nat) (r : Request) (stage : RequestStage) : RequestWorld :=
  { w with calls := w.calls.set i ⟨r, stage⟩ }

/-- `GetOperationalIdempotency`. -/
def keyOf (r : Request) : Option KeyRecord := w.keys.find? fun k => k.tag = r.tag

/-- The record a reservation inserts. -/
def record (r : Request) : KeyRecord := ⟨r.actor, r.storageKey, r.digest sha, r.id⟩

/-- What follows from the lookup of the key. A replay of a resolution checks the state it read. -/
def afterLookup (i : Nat) (r : Request) (current : Incident) : RequestWorld :=
  match w.keyOf r with
  | some k =>
    if k.names sha r && (r.action = .acknowledge || current.state = .resolved) then w.succeed i r
    else w.fail i
  | none =>
    if r.expectedVersion > 0 && current.version ≠ r.expectedVersion then w.fail i
    else if r.mayStart current then w.turn i r (.checked current)
    else w.fail i

/-- `PutOperationalIdempotency`. -/
def afterReserve (i : Nat) (r : Request) (current : Incident) (fault : StoreFault) : RequestWorld :=
  match w.keyOf r, fault with
  | none, .none => { w.turn i r (.reserved current) with keys := record sha r :: w.keys }
  | none, .failed true => { w.fail i with keys := record sha r :: w.keys }
  | some k, .none => if k.names sha r then w.turn i r .found else w.fail i
  | _, .failed _ => w.fail i

/-- The transaction of the operation. -/
def afterCommit (i : Nat) (r : Request) (current : Incident) (now : Int) (fault : StoreFault) :
    RequestWorld :=
  match r.run current now w.records, fault with
  | some records, .none => { w.succeed i r with records, committed := r :: w.committed }
  | some records, .failed true => { w.fail i with records, committed := r :: w.committed }
  | _, _ => w.fail i

/-- The read after a reservation that met its record. -/
def afterReread (i : Nat) (r : Request) : RequestWorld :=
  match getIncident r.id w.records.db with
  | some inc =>
    if r.action = .acknowledge || inc.state = .resolved then
      { w.succeed i r with reads := inc :: w.reads }
    else w.fail i
  | none => w.fail i

end RequestWorld

def requestNext : RequestOp → Option RequestWorld
  | .call r => if r.filled then some { w with calls := ⟨r, .begun⟩ :: w.calls } else none
  | .read i fault =>
    match w.calls[i]? with
    | some ⟨r, .begun⟩ =>
      match fault, getIncident r.id w.records.db with
      | false, some current =>
        some { w.turn i r (.read current) with reads := current :: w.reads }
      | _, _ => some (w.fail i)
    | _ => none
  | .lookup i fault =>
    match w.calls[i]? with
    | some ⟨r, .read current⟩ =>
      some (if fault then w.fail i else w.afterLookup sha i r current)
    | _ => none
  | .reserve i fault =>
    match w.calls[i]? with
    | some ⟨r, .checked current⟩ => some (w.afterReserve sha i r current fault)
    | _ => none
  | .commit i now fault =>
    match w.calls[i]? with
    | some ⟨r, .reserved current⟩ => some (w.afterCommit i r current now fault)
    | _ => none
  | .reread i fault =>
    match w.calls[i]? with
    | some ⟨r, .found⟩ => some (if fault then w.fail i else w.afterReread i r)
    | _ => none
  | .drop i => if i < w.calls.length then some (w.fail i) else none
  | .others db audit =>
    some { w with records := { w.records with db, audit := w.records.audit ++ audit } }

open RequestWorld

/-! ## What an operation does -/

/-- A call under way has reserved this key. -/
def RequestWorld.holds (w : RequestWorld) (t : Str × Str) : Bool :=
  w.calls.any fun c => c.stage.isReserved && c.request.tag = t

/-- Nothing comes between the reservation of an acknowledgement's key and the commit of its
transaction: the key is not looked up or reserved by another call meanwhile, a reservation does not
land in a call that fails, the transaction commits, and the call is not dropped. -/
def undisturbed (w : RequestWorld) : RequestOp → Bool
  | .lookup i _ =>
    w.calls[i]?.all fun c => c.request.action ≠ .acknowledge || !w.holds c.request.tag
  | .reserve i fault =>
    w.calls[i]?.all fun c =>
      c.request.action ≠ .acknowledge || (!w.holds c.request.tag && fault ≠ .failed true)
  | .commit i now fault =>
    w.calls[i]?.all fun c =>
      c.request.action ≠ .acknowledge ||
        match c.stage with
        | .reserved current =>
          (c.request.run current now w.records).isSome && fault ≠ .failed false
        | _ => true
  | .drop i =>
    w.calls[i]?.all fun c => c.request.action ≠ .acknowledge || !c.stage.isReserved
  | _ => true

variable (op : RequestOp)

/-- The operation is of a call whose key nobody holds, if the operation is undisturbed. -/
def Alone (r : Request) : Prop :=
  undisturbed w op = true → r.action = .acknowledge → w.holds r.tag = false

/-- The operation is not of an acknowledgement, if it is undisturbed. -/
def Spared (r : Request) : Prop := undisturbed w op = true → r.action ≠ .acknowledge

/-- Everything one operation can do. -/
inductive RequestEffect : RequestWorld → Prop
  | joined (r : Request) : RequestEffect { w with calls := ⟨r, .begun⟩ :: w.calls }
  | ended {i : Nat} {c : RequestCall} (hc : w.calls[i]? = some c)
      (hspared : c.stage.isReserved = true → Spared w op c.request) : RequestEffect (w.fail i)
  | read {i : Nat} {r : Request} {current : Incident} (hc : w.calls[i]? = some ⟨r, .begun⟩)
      (hrow : getIncident r.id w.records.db = some current) :
      RequestEffect { w.turn i r (.read current) with reads := current :: w.reads }
  | checked {i : Nat} {r : Request} {current : Incident}
      (hc : w.calls[i]? = some ⟨r, .read current⟩) : RequestEffect (w.turn i r (.checked current))
  | found {i : Nat} {r : Request} {current : Incident} {k : KeyRecord}
      (hc : w.calls[i]? = some ⟨r, .checked current⟩) (hk : w.keyOf r = some k)
      (hnames : k.names sha r = true) (halone : Alone w op r) : RequestEffect (w.turn i r .found)
  | reserved {i : Nat} {r : Request} {current : Incident}
      (hc : w.calls[i]? = some ⟨r, .checked current⟩) (hk : w.keyOf r = none) :
      RequestEffect { w.turn i r (.reserved current) with
        keys := RequestWorld.record sha r :: w.keys }
  | abandoned {i : Nat} {r : Request} {current : Incident}
      (hc : w.calls[i]? = some ⟨r, .checked current⟩) (hk : w.keyOf r = none)
      (hspared : Spared w op r) :
      RequestEffect { w.fail i with keys := RequestWorld.record sha r :: w.keys }
  | committed {i : Nat} {r : Request} {current : Incident} {now : Int} {records : Records}
      {succeeded : List Request} (hc : w.calls[i]? = some ⟨r, .reserved current⟩)
      (hrun : r.run current now w.records = some records)
      (hsucceeded : succeeded = w.succeeded ∨ succeeded = r :: w.succeeded) :
      RequestEffect { w.fail i with records, succeeded, committed := r :: w.committed }
  | replayed {i : Nat} {r : Request} {current : Incident} {k : KeyRecord}
      (hc : w.calls[i]? = some ⟨r, .read current⟩) (hk : w.keyOf r = some k)
      (hnames : k.names sha r = true) (halone : Alone w op r)
      (hstate : r.action = .acknowledge ∨ current.state = .resolved) :
      RequestEffect (w.succeed i r)
  | reread {i : Nat} {r : Request} {current : Incident} (hc : w.calls[i]? = some ⟨r, .found⟩)
      (hrow : getIncident r.id w.records.db = some current)
      (hstate : r.action = .acknowledge ∨ current.state = .resolved) :
      RequestEffect { w.succeed i r with reads := current :: w.reads }
  | others (db : Database) (audit : List AuditEntry) :
      RequestEffect { w with records := { w.records with db, audit := w.records.audit ++ audit } }

variable {sha : Str → Str} {w w' : RequestWorld} {op : RequestOp}

variable {i : Nat} {c : RequestCall} {r : Request} {current : Incident} {now : Int}

theorem RequestEffect.ended_unreserved (hc : w.calls[i]? = some c)
    (hg : c.stage.isReserved = false) : RequestEffect sha w op (w.fail i) :=
  .ended hc fun h => absurd (hg.symm.trans h) (by decide)

theorem afterLookup_effect {fault : Bool} (hc : w.calls[i]? = some ⟨r, .read current⟩) :
    RequestEffect sha w (.lookup i fault) (w.afterLookup sha i r current) := by
  have halone : Alone w (.lookup i fault) r := by
    intro hqt ha
    simpa [undisturbed, hc, ha] using hqt
  unfold afterLookup
  split
  next k hk =>
    split
    next hok =>
      simp only [Bool.and_eq_true, Bool.or_eq_true, decide_eq_true_eq] at hok
      exact .replayed hc hk hok.1 halone hok.2
    · exact .ended_unreserved hc rfl
  · split_ifs
    · exact .ended_unreserved hc rfl
    · exact .checked hc
    · exact .ended_unreserved hc rfl

theorem afterReserve_effect {fault : StoreFault} (hc : w.calls[i]? = some ⟨r, .checked current⟩) :
    RequestEffect sha w (.reserve i fault) (w.afterReserve sha i r current fault) := by
  have hqt : undisturbed w (.reserve i fault) = true → r.action = .acknowledge →
      w.holds r.tag = false ∧ fault ≠ .failed true := by
    intro hqt ha
    simpa [undisturbed, hc, ha] using hqt
  unfold afterReserve
  split
  · next hk => exact .reserved hc hk
  · next hk => exact .abandoned hc hk fun h ha => (hqt h ha).2 rfl
  next k hk =>
    split
    · next hnm => exact .found hc hk hnm fun h ha => (hqt h ha).1
    · exact .ended_unreserved hc rfl
  · exact .ended_unreserved hc rfl

theorem afterCommit_effect {fault : StoreFault} (hc : w.calls[i]? = some ⟨r, .reserved current⟩) :
    RequestEffect sha w (.commit i now fault) (w.afterCommit i r current now fault) := by
  have hqt : undisturbed w (.commit i now fault) = true → r.action = .acknowledge →
      (r.run current now w.records).isSome = true ∧ fault ≠ .failed false := by
    intro hqt hk
    simpa [undisturbed, hc, hk] using hqt
  cases hr : r.run current now w.records with
  | none =>
    simp only [afterCommit, hr]
    exact .ended hc fun _ hop hk => absurd (hr ▸ (hqt hop hk).1) (by decide)
  | some =>
    simp only [afterCommit, hr]
    cases fault with
    | none => exact .committed hc hr (.inr rfl)
    | failed landed =>
      cases landed with
      | false => exact .ended hc fun _ hop hk => (hqt hop hk).2 rfl
      | true => exact .committed hc hr (.inl rfl)

theorem afterReread_effect (hc : w.calls[i]? = some ⟨r, .found⟩) :
    RequestEffect sha w op (w.afterReread i r) := by
  unfold afterReread
  split
  next inc hr =>
    split
    next hok =>
      simp only [Bool.or_eq_true, decide_eq_true_eq] at hok
      exact .reread hc hr hok
    · exact .ended_unreserved hc rfl
  · exact .ended_unreserved hc rfl

/-- **Every operation has one of the effects.** -/
theorem requestNext_effect : requestNext sha w op = some w' → RequestEffect sha w op w' := by
  fun_cases requestNext sha w op with
  | case1 r =>
    rintro ⟨⟩
    exact .joined r
  | case3 i r hc current hr =>
    rintro ⟨⟩
    exact .read hc hr
  | case4 i fault r hc =>
    rintro ⟨⟩
    exact .ended_unreserved hc rfl
  | case6 i fault r current hc =>
    rintro ⟨⟩
    split
    · exact .ended_unreserved hc rfl
    · exact afterLookup_effect hc
  | case8 i fault r current hc =>
    rintro ⟨⟩
    exact afterReserve_effect hc
  | case10 i now fault r current hc =>
    rintro ⟨⟩
    exact afterCommit_effect hc
  | case12 i fault r hc =>
    rintro ⟨⟩
    split
    · exact .ended_unreserved hc rfl
    · exact afterReread_effect hc
  | case14 i hi =>
    rintro ⟨⟩
    refine .ended (List.getElem?_eq_getElem hi) fun hg hqt hk => ?_
    simp [undisturbed, hi, hk, hg] at hqt
  | case16 db audit =>
    rintro ⟨⟩
    exact .others db audit
  | _ => rintro ⟨⟩

/-! ## A key is spent once -/

variable {records : Records} {k : KeyRecord} {reads : List Incident} {succeeded : List Request}

theorem Request.run_writes {records' : Records}
    (hid : current.id = r.id) (h : r.run current now records = some records') :
    ∃ e, records'.audit = records.audit ++ [e] ∧ r.writes e := by
  unfold Request.run at h
  split at h
  next hk =>
    obtain ⟨⟨_, _⟩, hr, rfl⟩ := Option.map_eq_some_iff.1 h
    obtain ⟨_, hw, -, -, -, -, ht⟩ := Ack.run_ok (eq_ok_of_toOption hr)
    refine ⟨_, congrArg Records.audit ht, ?_⟩
    simp only [Request.writes, hk]
    exact ⟨hw, rfl, rfl⟩
  rename_i hs
  obtain ⟨⟨_, _⟩, hr, rfl⟩ := Option.map_eq_some_iff.1 h
  obtain ⟨-, _, -, -, -, -, ht⟩ := Move.run_ok (eq_ok_of_toOption hr)
  refine ⟨_, congrArg Records.audit ht, ?_⟩
  simp only [Request.writes, hs]
  exact ⟨hid, rfl, rfl, rfl⟩

namespace RequestWorld

/-- How many records there are of a key. -/
def keyCount (w : RequestWorld) (t : Str × Str) : Nat := (w.keys.map KeyRecord.tag).count t

/-- How many calls have reserved the key and not ended. -/
def heldCount (w : RequestWorld) (t : Str × Str) : Nat :=
  w.calls.countP fun c => c.stage.isReserved && c.request.tag = t

/-- How often the operation of the key was committed. -/
def doneCount (w : RequestWorld) (t : Str × Str) : Nat :=
  (w.committed.map Request.tag).count t

theorem heldCount_eq_zero {t : Str × Str} (h : w.holds t = false) : w.heldCount t = 0 := by
  rw [heldCount, List.countP_eq_zero]
  intro c hc hh
  rw [holds, List.any_eq_false] at h
  exact h c hc hh

theorem keyCount_of_none (h : w.keyOf r = none) : w.keyCount r.tag = 0 := by
  rw [keyCount, List.count_eq_zero]
  intro hm
  obtain ⟨k, hk, htag⟩ := List.mem_map.1 hm
  exact List.find?_eq_none.1 h k hk (by simpa using htag)

theorem heldCount_turn (r : Request) (stage : RequestStage)
    (hc : w.calls[i]? = some c) (t : Str × Str) :
    (w.turn i r stage).heldCount t + (if c.stage.isReserved && c.request.tag = t then 1 else 0) =
      w.heldCount t + (if stage.isReserved && r.tag = t then 1 else 0) :=
  countP_set hc

theorem heldCount_fail (hc : w.calls[i]? = some c) (t : Str × Str) :
    (w.fail i).heldCount t + (if c.stage.isReserved && c.request.tag = t then 1 else 0) =
      w.heldCount t :=
  countP_eraseIdx hc

end RequestWorld

/-- The copy of the incident a call works on. -/
def RequestStage.copy : RequestStage → Option Incident
  | .read current | .checked current | .reserved current => some current
  | .begun | .found => none

/-- A key has one record and is spent at most once, and what was committed is in the audit. -/
structure RequestInv (sha : Str → Str) (w : RequestWorld) : Prop where
  once : (w.keys.map KeyRecord.tag).Nodup
  balance : ∀ t, w.heldCount t + w.doneCount t ≤ w.keyCount t
  reserved : ∀ c ∈ w.calls, c.stage.isReserved = true → RequestWorld.record sha c.request ∈ w.keys
  named : ∀ r ∈ w.committed, RequestWorld.record sha r ∈ w.keys
  copies : ∀ c ∈ w.calls, ∀ current, c.stage.copy = some current →
    current.id = c.request.id ∧ current ∈ w.reads
  audited : ∀ r ∈ w.committed, ∃ e ∈ w.records.audit, r.writes e

theorem requestInv_start (records : Records) : RequestInv sha (.start records) where
  once := List.nodup_nil
  balance _ := Nat.le_refl _
  reserved _ hc := absurd hc List.not_mem_nil
  named _ hr := absurd hr List.not_mem_nil
  copies _ hc := absurd hc List.not_mem_nil
  audited _ hr := absurd hr List.not_mem_nil

namespace RequestInv

section

variable (hinv : RequestInv sha w)
include hinv

theorem keyCount_le_one (t : Str × Str) : w.keyCount t ≤ 1 :=
  List.nodup_iff_count_le_one.1 hinv.once t

theorem doneCount_eq_one (hr : r ∈ w.committed) : w.doneCount r.tag = 1 := by
  have hp : 0 < w.doneCount r.tag := List.count_pos_iff.2 (List.mem_map_of_mem hr)
  have hbal := hinv.balance r.tag
  have ho := hinv.keyCount_le_one r.tag
  omega

theorem of_calls (hk : w'.keys = w.keys) (hm : w'.committed = w.committed)
    (haudit : ∀ e ∈ w.records.audit, e ∈ w'.records.audit)
    (hreads : ∀ inc ∈ w.reads, inc ∈ w'.reads)
    (hh : ∀ t, w'.heldCount t ≤ w.heldCount t)
    (hl : ∀ c ∈ w'.calls, c ∈ w.calls ∨ c.stage.isReserved = false ∧
      ∀ current, c.stage.copy = some current → current.id = c.request.id ∧ current ∈ w'.reads) :
    RequestInv sha w' where
  once := hk ▸ hinv.once
  balance t := by
    have hbal := hinv.balance t
    have hle := hh t
    simp only [doneCount, keyCount, hk, hm] at hbal ⊢
    omega
  reserved c hc hg := by
    rcases hl c hc with hold | ⟨hnot, -⟩
    · exact hk ▸ hinv.reserved c hold hg
    · exact absurd (hnot.symm.trans hg) (by decide)
  named r hr := hk ▸ hinv.named r (hm ▸ hr)
  copies c hc current hy := by
    rcases hl c hc with hold | ⟨-, hn⟩
    · obtain ⟨hid, hd⟩ := hinv.copies c hold current hy
      exact ⟨hid, hreads current hd⟩
    · exact hn current hy
  audited r hr := by
    obtain ⟨e, he, hwr⟩ := hinv.audited r (hm ▸ hr)
    exact ⟨e, haudit e he, hwr⟩

theorem fail (hc : w.calls[i]? = some c) : RequestInv sha (w.fail i) := by
  refine hinv.of_calls rfl rfl (fun _ h => h) (fun _ h => h) (fun t => ?_)
    (fun c hm => .inl (List.mem_of_mem_eraseIdx hm))
  have := heldCount_fail hc t
  omega

theorem addKey (hk : w.keyOf r = none) :
    RequestInv sha { w with keys := record sha r :: w.keys } := by
  refine ⟨?_, fun t => ?_, fun c hm hg => .tail _ (hinv.reserved c hm hg),
    fun r' hr => .tail _ (hinv.named r' hr), hinv.copies, hinv.audited⟩
  · rw [List.map_cons, List.nodup_cons]
    exact ⟨List.count_eq_zero.1 (keyCount_of_none hk), hinv.once⟩
  · have hbal := hinv.balance t
    simp only [keyCount, List.map_cons, List.count_cons] at hbal ⊢
    exact Nat.le_trans hbal (Nat.le_add_right _ _)

theorem reserve (hc : w.calls[i]? = some ⟨r, .checked current⟩) (hk : w.keyOf r = none) :
    RequestInv sha { w.turn i r (.reserved current) with keys := record sha r :: w.keys } where
  __ := hinv.addKey hk
  balance t := by
    have hbal := hinv.balance t
    have hn := heldCount_turn r (.reserved current) hc t
    simp only [RequestStage.isReserved, Bool.true_and, decide_eq_true_eq] at hn
    simp only [keyCount, List.map_cons, List.count_cons, beq_iff_eq] at hbal ⊢
    change (w.turn i r (.reserved current)).heldCount t + w.doneCount t ≤
      (w.keys.map KeyRecord.tag).count t + if r.tag = t then 1 else 0
    omega
  reserved c hm hg := by
    rcases List.mem_or_eq_of_mem_set hm with hold | rfl
    · exact .tail _ (hinv.reserved c hold hg)
    · exact .head _
  copies c hm copy hy := by
    rcases List.mem_or_eq_of_mem_set hm with hold | rfl
    · exact hinv.copies c hold copy hy
    · exact hinv.copies _ (List.mem_of_getElem? hc) copy hy

theorem commit (succeeded : List Request) (hc : w.calls[i]? = some ⟨r, .reserved current⟩)
    (hu : r.run current now w.records = some records) :
    RequestInv sha { w.fail i with records, succeeded, committed := r :: w.committed } := by
  have hd := hinv.fail hc
  have hl := List.mem_of_getElem? hc
  obtain ⟨e, haudit, hwr⟩ := Request.run_writes (hinv.copies _ hl current rfl).1 hu
  refine ⟨hd.once, fun t => ?_, hd.reserved, fun r' hr => ?_, hd.copies, fun r' hr => ?_⟩
  · have hbal := hinv.balance t
    have hn := heldCount_fail hc t
    simp only [RequestStage.isReserved, Bool.true_and, decide_eq_true_eq] at hn
    simp only [doneCount, List.map_cons, List.count_cons, beq_iff_eq] at hbal ⊢
    change (w.fail i).heldCount t + ((w.committed.map Request.tag).count t +
      if r.tag = t then 1 else 0) ≤ w.keyCount t
    omega
  · obtain _ | ⟨_, hold⟩ := hr
    · exact hinv.reserved _ hl rfl
    · exact hinv.named r' hold
  · obtain _ | ⟨_, hold⟩ := hr
    · exact ⟨e, haudit ▸ List.mem_append_right _ (.head _), hwr⟩
    · obtain ⟨e', he', hwr'⟩ := hinv.audited r' hold
      exact ⟨e', haudit ▸ List.mem_append_left _ he', hwr'⟩

end

end RequestInv

/-! ## A success stands for a commit -/

/-- The operation of the request's key was committed exactly once, for the same incident and with
the same digest. -/
def Settled (sha : Str → Str) (w : RequestWorld) (r : Request) : Prop :=
  w.doneCount r.tag = 1 ∧
    ∃ r' ∈ w.committed, r'.tag = r.tag ∧ r'.digest sha = r.digest sha ∧ r'.id = r.id

/-- What a success stands for: the committed operation, or an incident that was read as resolved. -/
def Justified (sha : Str → Str) (w : RequestWorld) (r : Request) : Prop :=
  Settled sha w r ∨ r.action = .resolve ∧ ∃ inc ∈ w.reads, inc.id = r.id ∧ inc.state = .resolved

/-- Besides, no key of an acknowledgement is left over, and a success is justified. -/
structure SuccessInv (sha : Str → Str) (w : RequestWorld) : Prop extends
    RequestInv sha w where
  spent : ∀ r : Request, r.action = .acknowledge →
    w.keyCount r.tag ≤ w.heldCount r.tag + w.doneCount r.tag
  found : ∀ c ∈ w.calls, c.stage = .found → c.request.action = .acknowledge →
    Settled sha w c.request
  justified : ∀ r ∈ w.succeeded, Justified sha w r

theorem Request.action_eq_of_tag_eq {r' : Request} (h : r.tag = r'.tag) : r.action = r'.action := by
  have hk : r.storageKey = r'.storageKey := (Prod.mk.inj h).2
  have hack : (lit "acknowledge").head? = some 97 := by decide
  have hr : (lit "resolve").head? = some 114 := by decide
  have hheads := congrArg List.head? hk
  simp only [Request.storageKey, List.head?_append] at hheads
  cases ha : r.action <;> cases ha' : r'.action <;>
    simp_all [OperatorAction.word]

namespace SuccessInv

section

variable (hinv : SuccessInv sha w)
include hinv

theorem settled_of_key
    (hk : w.keyOf r = some k) (hnm : k.names sha r = true) (ha : r.action = .acknowledge)
    (hf : w.holds r.tag = false) : Settled sha w r := by
  have hmem := List.mem_of_find?_eq_some hk
  have htag : k.tag = r.tag := by simpa using List.find?_some hk
  have hp : 0 < w.keyCount r.tag :=
    List.count_pos_iff.2 (htag ▸ List.mem_map_of_mem hmem)
  have hz := heldCount_eq_zero hf
  have hspent := hinv.spent r ha
  have hbal := hinv.balance r.tag
  have ho := hinv.keyCount_le_one r.tag
  have hd : w.doneCount r.tag = 1 := by omega
  have hm : r.tag ∈ w.committed.map Request.tag :=
    List.count_pos_iff.1 (Nat.lt_of_lt_of_eq Nat.zero_lt_one hd.symm)
  obtain ⟨r', hr', he⟩ := List.mem_map.1 hm
  -- The committed operation reserved the record that the replay found.
  have hc : record sha r' = k :=
    List.inj_on_of_nodup_map hinv.once (hinv.named r' hr') hmem (he.trans htag.symm)
  simp only [KeyRecord.names, Bool.and_eq_true, decide_eq_true_eq, ← hc] at hnm
  exact ⟨hd, r', hr', he, hnm.1, hnm.2⟩

theorem of_calls (hk : w'.keys = w.keys) (hm : w'.committed = w.committed)
    (haudit : ∀ e ∈ w.records.audit, e ∈ w'.records.audit)
    (hreads : ∀ inc ∈ w.reads, inc ∈ w'.reads)
    (hle : ∀ t, w'.heldCount t ≤ w.heldCount t)
    (hh : ∀ r : Request, r.action = .acknowledge → w.heldCount r.tag ≤ w'.heldCount r.tag)
    (hl : ∀ c ∈ w'.calls, c ∈ w.calls ∨ (c.stage.isReserved = false ∧
      ∀ current, c.stage.copy = some current → current.id = c.request.id ∧ current ∈ w'.reads) ∧
        (c.stage = .found → c.request.action = .acknowledge → Settled sha w c.request))
    (hsucceeded : ∀ r ∈ w'.succeeded, r ∈ w.succeeded ∨ Justified sha w' r) :
    SuccessInv sha w' := by
  have hs : ∀ r, Settled sha w r → Settled sha w' r := by
    intro r h
    simpa only [Settled, doneCount, hm] using h
  have hn := hinv.toRequestInv.of_calls hk hm haudit hreads hle
    fun c hc => (hl c hc).imp_right And.left
  refine ⟨hn, fun r ha => ?_, fun c hc hg ha => ?_, fun r hr => ?_⟩
  · have hspent := hinv.spent r ha
    have hle := hh r ha
    simp only [keyCount, doneCount, hk, hm] at hspent ⊢
    omega
  · rcases hl c hc with hold | ⟨-, hw⟩
    · exact hs _ (hinv.found c hold hg ha)
    · exact hs _ (hw hg ha)
  rcases hsucceeded r hr with hold | hw
  · rcases hinv.justified r hold with hd | ⟨hres, inc, hi, ho⟩
    · exact .inl (hs r hd)
    · exact .inr ⟨hres, inc, hreads inc hi, ho⟩
  · exact hw

theorem commit (hc : w.calls[i]? = some ⟨r, .reserved current⟩)
    (hu : r.run current now w.records = some records)
    (hsucceeded : succeeded = w.succeeded ∨ succeeded = r :: w.succeeded) :
    SuccessInv sha { w.fail i with records, succeeded, committed := r :: w.committed } := by
  have hn := heldCount_fail hc
  simp only [RequestStage.isReserved, Bool.true_and, decide_eq_true_eq] at hn
  have hd t : ((r :: w.committed).map Request.tag).count t =
      w.doneCount t + if r.tag = t then 1 else 0 := by
    simp only [List.map_cons, List.count_cons, beq_iff_eq, doneCount]
  have hunspent : w.doneCount r.tag = 0 := by
    have hh := hn r.tag
    have hbal := hinv.balance r.tag
    have ho := hinv.keyCount_le_one r.tag
    rw [if_pos rfl] at hh
    omega
  set w' : RequestWorld := { w.fail i with records, succeeded, committed := r :: w.committed }
  have hs : Settled sha w' r := by
    refine ⟨(hd r.tag).trans ?_, r, .head _, rfl, rfl, rfl⟩
    rw [hunspent, if_pos rfl]
  -- A request that was settled has another key.
  have ht : ∀ r', Settled sha w r' → Settled sha w' r' := by
    rintro r' ⟨ho, r0, hr0, he⟩
    refine ⟨(hd r'.tag).trans ?_, r0, .tail _ hr0, he⟩
    rw [if_neg, ho]
    intro htag
    rw [← htag, hunspent] at ho
    exact absurd ho (by decide)
  have hjust : ∀ r' ∈ w.succeeded, Justified sha w' r' := fun r' hr =>
    (hinv.justified r' hr).imp (ht r') id
  refine ⟨hinv.toRequestInv.commit succeeded hc hu, fun r' hk => ?_,
    fun c hm hg hk => ?_, fun r' hr => ?_⟩
  · have hspent := hinv.spent r' hk
    have hh := hn r'.tag
    have htotal : w'.doneCount r'.tag = _ := hd r'.tag
    change w.keyCount r'.tag ≤ (w.fail i).heldCount r'.tag + w'.doneCount r'.tag
    omega
  · exact ht _ (hinv.found c (List.mem_of_mem_eraseIdx hm) hg hk)
  rcases hsucceeded with rfl | rfl
  · exact hjust r' hr
  · exact List.forall_mem_cons.2 ⟨.inl hs, hjust⟩ r' hr

theorem fail (hc : w.calls[i]? = some c)
    (hspared : c.stage.isReserved = true → c.request.action ≠ .acknowledge)
    (hr : ∀ inc ∈ w.reads, inc ∈ reads)
    (hs : ∀ r ∈ succeeded, r ∈ w.succeeded ∨ Justified sha { w.fail i with succeeded, reads } r) :
    SuccessInv sha { w.fail i with succeeded, reads } := by
  refine hinv.of_calls rfl rfl (fun _ h => h) hr
    (fun t => Nat.le_of_add_right_le (Nat.le_of_eq (heldCount_fail hc t))) (fun r hk => ?_)
    (fun c' hm => .inl (List.mem_of_mem_eraseIdx hm)) hs
  have hcount := heldCount_fail hc r.tag
  have hnot : ¬(c.stage.isReserved && decide (c.request.tag = r.tag)) = true := by
    rw [Bool.and_eq_true, decide_eq_true_eq]
    rintro ⟨hg, htag⟩
    exact hspared hg ((Request.action_eq_of_tag_eq htag).trans hk)
  rw [if_neg hnot] at hcount
  exact Nat.le_of_eq hcount.symm

theorem turn {stage : RequestStage} (hc : w.calls[i]? = some c)
    (hold : c.stage.isReserved = false) (hg : stage.isReserved = false)
    (hd : ∀ inc ∈ w.reads, inc ∈ reads)
    (hy : ∀ current, stage.copy = some current → current.id = c.request.id ∧ current ∈ reads)
    (hf : stage = .found → c.request.action = .acknowledge → Settled sha w c.request) :
    SuccessInv sha { w.turn i c.request stage with reads } := by
  have hcount t : (w.turn i c.request stage).heldCount t = w.heldCount t := by
    have hcount := heldCount_turn c.request stage hc t
    rw [hold, hg, Bool.false_and] at hcount
    exact hcount
  exact hinv.of_calls rfl rfl (fun _ h => h) hd (fun t => (hcount t).le)
    (fun r _ => (hcount r.tag).ge)
    (mem_set_or ⟨⟨hg, hy⟩, hf⟩) fun r hr => .inl hr

end

theorem justified_of_seen (hm : current ∈ w'.reads)
    (hid : current.id = r.id) (hst : r.action = .acknowledge ∨ current.state = .resolved)
    (hk : r.action = .acknowledge → Settled sha w' r) : Justified sha w' r := by
  cases ha : r.action with
  | acknowledge => exact .inl (hk ha)
  | resolve =>
    have hresolved : current.state = .resolved :=
      hst.resolve_left fun h => absurd (h.symm.trans ha) (by decide)
    exact .inr ⟨ha, current, hm, hid, hresolved⟩

theorem step (hinv : SuccessInv sha w) (hqt : undisturbed w op = true)
    (h : requestNext sha w op = some w') : SuccessInv sha w' := by
  cases requestNext_effect h with
  | joined =>
    refine hinv.of_calls rfl rfl (fun _ h => h) (fun _ h => h) (fun t => ?_) (fun r' _ => ?_)
      (List.forall_mem_cons.2 ⟨.inr ?_, fun _ => .inl⟩) fun _ => .inl
    · simp [heldCount, RequestStage.isReserved]
    · simp [heldCount, RequestStage.isReserved]
    · simp [RequestStage.isReserved, RequestStage.copy]
  | ended hc hspared =>
    exact hinv.fail hc (fun hg => hspared hg hqt) (fun _ h => h) fun _ => .inl
  | read hc hw =>
    refine hinv.turn hc rfl rfl (fun _ => .tail _) (fun copy hy => ?_)
      nofun
    cases hy
    exact ⟨getIncident_id hw, .head _⟩
  | checked hc =>
    exact hinv.turn hc rfl rfl (fun _ h => h) (hinv.copies _ (List.mem_of_getElem? hc))
      nofun
  | found hc hk hnm halone =>
    exact hinv.turn hc rfl rfl (fun _ h => h) (by simp [RequestStage.copy]) fun _ ha =>
      hinv.settled_of_key hk hnm ha (halone hqt ha)
  | @reserved i r current hc hk =>
    -- The new key is held by the call that reserved it.
    refine ⟨hinv.reserve hc hk, fun r' ha => ?_, fun c hm hg ha => ?_, hinv.justified⟩
    · have hspent := hinv.spent r' ha
      have hcount := heldCount_turn r (.reserved current) hc r'.tag
      simp only [RequestStage.isReserved, Bool.false_and, Bool.true_and, decide_eq_true_eq,
        Bool.false_eq_true, if_false] at hcount
      simp only [keyCount, List.map_cons, List.count_cons, beq_iff_eq] at hspent ⊢
      change (w.keys.map KeyRecord.tag).count r'.tag + (if r.tag = r'.tag then 1 else 0) ≤
        (w.turn i r (.reserved current)).heldCount r'.tag + w.doneCount r'.tag
      omega
    · rcases List.mem_or_eq_of_mem_set hm with hold | rfl
      · exact hinv.found c hold hg ha
      · cases hg
  | @abandoned i r current hc hk hspared =>
    -- The key that is left over is not one of an acknowledgement.
    have he : SuccessInv sha (w.fail i) :=
      hinv.fail hc nofun (fun _ h => h) fun _ => .inl
    refine ⟨he.addKey hk, fun r' ha => ?_, he.found, he.justified⟩
    have hspent := he.spent r' ha
    have hne : r.tag ≠ r'.tag := fun htag =>
      hspared hqt ((Request.action_eq_of_tag_eq htag).trans ha)
    simp only [keyCount, List.map_cons, List.count_cons, beq_iff_eq] at hspent ⊢
    change (w.keys.map KeyRecord.tag).count r'.tag + (if r.tag = r'.tag then 1 else 0) ≤ _
    rw [if_neg hne]
    exact hspent
  | committed hc hu hs => exact hinv.commit hc hu hs
  | @replayed i r current k hc hk hnm halone hst =>
    obtain ⟨hid, hd⟩ := hinv.copies _ (List.mem_of_getElem? hc) current rfl
    refine hinv.fail hc nofun (fun _ h => h) (List.forall_mem_cons.2 ⟨.inr ?_, fun _ => .inl⟩)
    exact justified_of_seen hd hid hst fun ha => hinv.settled_of_key hk hnm ha (halone hqt ha)
  | @reread i r current hc hw hst =>
    refine hinv.fail hc nofun (fun _ => .tail _) (List.forall_mem_cons.2 ⟨.inr ?_, fun _ => .inl⟩)
    exact justified_of_seen (.head _) (getIncident_id hw) hst
      (hinv.found _ (List.mem_of_getElem? hc) rfl)
  | others =>
    exact hinv.of_calls rfl rfl (fun _ => List.mem_append_left _) (fun _ h => h)
      (fun _ => Nat.le_refl _) (fun _ _ => Nat.le_refl _) (fun _ => .inl) fun _ => .inl

end SuccessInv

/-- **A success stands for a commit.** In every interleaving in which nothing comes between the
reservation of an acknowledgement's key and its commit, each operation was committed at most once
for its key, with its audit row; a call that succeeded stands for an operation that was committed
exactly once for the same incident and digest, or is a resolution that read the incident as
resolved. -/
theorem successes_are_committed {records : Records} {ops : List RequestOp}
    (hquiet : Along (requestNext sha) (fun w op => undisturbed w op = true) (.start records) ops)
    (h : exec (requestNext sha) (.start records) ops = some w) :
    (∀ r ∈ w.committed, w.doneCount r.tag = 1 ∧ ∃ e ∈ w.records.audit, r.writes e) ∧
      ∀ r ∈ w.succeeded, Settled sha w r ∨
        r.action = .resolve ∧ ∃ inc ∈ w.reads, inc.id = r.id ∧ inc.state = .resolved := by
  have hstart : SuccessInv sha (.start records) :=
    ⟨requestInv_start records, fun _ _ => Nat.le_refl _, List.forall_mem_nil _,
      List.forall_mem_nil _⟩
  have hinv : SuccessInv sha w :=
    exec_invariant_along (fun _ _ _ hinv hok hstep => hinv.step hok hstep) hstart hquiet h
  exact ⟨fun r hr => ⟨hinv.doneCount_eq_one hr, hinv.audited r hr⟩, hinv.justified⟩

/-- A store with one incident in hand. -/
def heldRecords : Records :=
  { Records.empty with
    db := { Database.empty with
      incidents := [
        { id := lit "inc-1", target := ⟨lit "n1", [], 0, []⟩, cls := lit "xid", state := .observing,
          playbook := [], stepIndex := 0, attempt := 0, dryRun := false, signalSeen := 1,
          vendor := [],
          remediationSlotHeld := false, approvalEpoch := 0, openedAt := 0, updatedAt := 0,
          stateChangedAt := 0, resolvedAt := none, version := 1 }] } }

/-- The operator takes custody of it. -/
def custodyRequest : Request :=
  ⟨.acknowledge, lit "inc-1", lit "ops", lit "mine", 1, lit "k1"⟩

/-- A call up to its reservation. -/
def reserveOps (r : Request) : List RequestOp :=
  [.call r, .read 0 false, .lookup 0 false, .reserve 0 .none]

/-- The operator acknowledges and repeats the call. -/
def repeatedRun : List RequestOp :=
  reserveOps custodyRequest ++
    [.commit 0 5 .none, .call custodyRequest, .read 0 false, .lookup 0 false]

/-- Both calls succeed, and the acknowledgement is there once. -/
theorem repeated_acknowledgement_is_one :
    ∃ w, exec (requestNext id) (.start heldRecords) repeatedRun = some w ∧
      w.succeeded = [custodyRequest, custodyRequest] ∧ w.doneCount custodyRequest.tag = 1 ∧
      ∃ e ∈ w.records.audit, custodyRequest.writes e := by
  refine reached (by decide +kernel) fun w hexec (hrun :
    w.succeeded = [custodyRequest, custodyRequest] ∧ w.committed = [custodyRequest]) => ⟨hrun.1, ?_⟩
  exact (successes_are_committed (by decide +kernel) hexec).1 custodyRequest
    (hrun.2 ▸ (.head _))

/-- The transaction of the acknowledgement fails, and the operator repeats the call. -/
def rolledBackRun : List RequestOp :=
  reserveOps custodyRequest ++
    [.commit 0 5 (.failed false), .call custodyRequest, .read 0 false, .lookup 0 false]

/-- The repeated call succeeds; nothing was ever committed and the audit is empty. -/
theorem replay_of_rolled_back_acknowledgement :
    ∃ w, exec (requestNext id) (.start heldRecords) rolledBackRun = some w ∧
      w.succeeded = [custodyRequest] ∧ w.committed = [] ∧ w.records.audit = [] ∧
      w.records.db.incidents = heldRecords.db.incidents := by
  decide +kernel

end KubeNeuron.Controller
