import KubeNeuron.Lib.Chain
import KubeNeuron.Lib.Run
import KubeNeuron.Lib.Table
import KubeNeuron.Types.Event

/-!
# The operational audit chain

Each event of a resource carries the hash of the event before it and a hash of its own content, and
a table of heads records the last hash. Retention deletes a chain as a whole. Transactions are
serializable, so they are the operations of `auditNext`.

The times of the events must have a year of four digits: the text of a later one is not read back
(`late_event_loses_hash`).
-/

namespace KubeNeuron.Store

open Lib KubeNeuron.Types

/-! ## Events and rows -/

/-- An audit event, with a nil map told apart from an empty one. -/
structure OperationalEvent where
  kind : Str
  resourceID : Str
  tenant : Str
  cluster : Str
  time : Int
  actor : Str
  action : Str
  requestID : Str
  decisionID : Str
  params : Option StrMap
  result : Str
  prevHash : Str
  hash : Str

/-- A row of `operational_audit`. -/
structure OperationalRow where
  id : Nat
  kind : Str
  resourceID : Str
  tenant : Str
  cluster : Str
  time : Str
  actor : Str
  action : Str
  requestID : Str
  decisionID : Str
  params : Str
  result : Str
  prevHash : Str
  hash : Str

def paramsJson : Option StrMap → Json
  | none => .null
  | some m => .obj m.toMembers

def OperationalEvent.row (id : Nat) (e : OperationalEvent) : OperationalRow :=
  ⟨id, e.kind, e.resourceID, e.tenant, e.cluster, ts e.time, e.actor, e.action, e.requestID,
    e.decisionID, (paramsJson e.params).print, e.result, e.prevHash, e.hash⟩

def OperationalRow.key (r : OperationalRow) : Str × Str := (r.kind, r.resourceID)

/-- A row of `operational_audit_heads`. -/
structure AuditHead where
  kind : Str
  resourceID : Str
  lastHash : Str

def AuditHead.key (h : AuditHead) : Str × Str := (h.kind, h.resourceID)

/-- The columns of `operational_resources` that the audit and its retention read. -/
structure ResourceRow where
  kind : Str
  id : Str
  state : Str
  tenant : Str
  cluster : Str
  expiresAt : Option Str

def ResourceRow.key (r : ResourceRow) : Str × Str := (r.kind, r.id)

/-- The tables; `inserted` is the last ID that was given. -/
structure AuditTables where
  resources : List ResourceRow
  heads : List AuditHead
  events : List OperationalRow
  inserted : Nat

/-- The tables before anything was written. -/
def AuditTables.empty : AuditTables := ⟨[], [], [], 0⟩

open AuditTables

open OperationalRow

/-! ## Hashes -/

/-- The payload of `operationalAuditHash`. -/
def OperationalEvent.payload (e : OperationalEvent) : Json :=
  .obj [(lit "kind", .str e.kind), (lit "resource_id", .str e.resourceID),
    (lit "time", .str (ts e.time)), (lit "actor", .str e.actor), (lit "action", .str e.action),
    (lit "request_id", .str e.requestID), (lit "decision_id", .str e.decisionID),
    (lit "params", paramsJson e.params), (lit "result", .str e.result),
    (lit "prev_hash", .str e.prevHash)]

variable (sha : Str → Str)

/-- `operationalAuditHash`; `sha` is the hex digest of SHA-256. -/
def operationalAuditHash (e : OperationalEvent) : Str :=
  lit "sha256:" ++ sha e.payload.print

/-- `parseTS`: the zero time for a text that cannot be read. -/
def parseTS (s : Str) : Int :=
  ((parseRFC3339 (fun _ => 0) 0 s).map GoTime.ns).getD GoTime.zeroNs

/-- The parameters of a row, none when the text is corrupt. -/
def readParams (s : Str) : Option (Option StrMap) :=
  match Json.parseJson s with
  | some .null => some none
  | some (.obj ms) => (StrMap.readEntries ms).map fun entries => some (KeyMap.ofEntries entries)
  | _ => none

def scanOperationalAudit (r : OperationalRow) : Option OperationalEvent :=
  (readParams r.params).map fun params =>
    ⟨r.kind, r.resourceID, r.tenant, r.cluster, parseTS r.time, r.actor, r.action, r.requestID,
      r.decisionID, params, r.result, r.prevHash, r.hash⟩

/-! ## Statements -/

/-- How a statement fails. -/
inductive AuditError where
  | invalid
  | conflict
  | constraint

namespace AuditTables

/-- The recorded head of a resource. -/
def head (t : AuditTables) (key : Str × Str) : Option Str :=
  (t.heads.find? fun h => h.key = key).map AuditHead.lastHash

/-- The events of a resource, in the order of their IDs. -/
def chain (t : AuditTables) (key : Str × Str) : List OperationalRow :=
  t.events.filter fun r => r.key = key

/-- The first statement on the heads: a head for the resource, unless it has one. -/
def withHead (t : AuditTables) (kind resourceID : Str) : AuditTables :=
  if t.heads.any fun h => h.key = (kind, resourceID) then t
  else { t with heads := t.heads ++ [⟨kind, resourceID, []⟩] }

/-- The conditional update of the head. -/
def moveHead (t : AuditTables) (key : Str × Str) (before after : Str) : AuditTables :=
  { t with
    heads := updateWhere (fun h => h.key = key && h.lastHash = before)
      (fun h => { h with lastHash := after }) t.heads }

def insertEvent (t : AuditTables) (e : OperationalEvent) : AuditTables :=
  { t with events := t.events ++ [e.row (t.inserted + 1)], inserted := t.inserted + 1 }

end AuditTables

/-- An event with its required fields. -/
def OperationalEvent.filled (e : OperationalEvent) : Bool :=
  e.kind ≠ [] && trimSpace e.resourceID ≠ [] && trimSpace e.actor ≠ [] && trimSpace e.action ≠ []

/-- The event with the clock's time, and with the scope of its resource, where it has none. -/
def OperationalEvent.completed (e : OperationalEvent) (now : Int) (t : AuditTables) :
    OperationalEvent :=
  let scope := t.resources.find? fun r => r.key = (e.kind, e.resourceID)
  { e with
    time := if e.time = GoTime.zeroNs then now else e.time
    tenant := if e.tenant = [] then (scope.map ResourceRow.tenant).getD [] else e.tenant
    cluster := if e.cluster = [] then (scope.map ResourceRow.cluster).getD [] else e.cluster }

/-- The loop that moves the head: the event with the hashes it got, and the tables. -/
def advanceHead (sha : Str → Str) (e : OperationalEvent) :
    Nat → AuditTables → Except AuditError (OperationalEvent × AuditTables)
  | 0, _ => .error .conflict
  | attempts + 1, t =>
    let key := (e.kind, e.resourceID)
    match t.head key with
    | none => .error .conflict
    | some previous =>
      if e.prevHash ≠ [] ∧ e.prevHash ≠ previous then .error .conflict
      else
        let hash := operationalAuditHash sha { e with prevHash := previous }
        if e.hash ≠ [] ∧ e.hash ≠ hash then .error .conflict
        else if (t.heads.filter fun h => h.key = key && h.lastHash = previous).length = 1 then
          .ok ({ e with prevHash := previous, hash }, t.moveHead key previous hash)
        else advanceHead sha e attempts t

def appendOperationalAudit (e : OperationalEvent) (now : Int)
    (t : AuditTables) : Except AuditError AuditTables :=
  if !e.filled then .error .invalid
  else
    (advanceHead sha (e.completed now t) 8 (t.withHead e.kind e.resourceID)).map fun p =>
      p.2.insertEvent p.1

/-- The statements of a transaction. -/
inductive AuditStmt where
  | append (e : OperationalEvent) (now : Int)
  | insertResource (r : ResourceRow)
  | updateResource (r : ResourceRow)

def AuditStmt.run (t : AuditTables) : AuditStmt → Except AuditError AuditTables
  | .append e now => appendOperationalAudit sha e now t
  | .insertResource r =>
    if t.resources.any fun s => s.key = r.key then .error .constraint
    else .ok { t with resources := t.resources ++ [r] }
  | .updateResource r =>
    .ok { t with resources := updateWhere (fun s => s.key = r.key) (fun _ => r) t.resources }

/-- Run the statements of a transaction. -/
def runStmts (sha : Str → Str) : List AuditStmt → AuditTables →
    Except AuditError AuditTables
  | [], t => .ok t
  | s :: stmts, t => do
      let t ← s.run sha t
      runStmts sha stmts t

/-! ## Retention -/

/-- The states a resource may be pruned in. -/
def prunableStates : List Str :=
  [lit "captured", lit "uploaded", lit "revoked", lit "complete", lit "completed", lit "blocked",
    lit "cancelled", lit "failed", lit "timed_out", lit "permitted", lit "incident-created",
    lit "accepted", lit "simulation-only", lit "RolledBack", lit "Expired", lit "Invalidated"]

/-- `Prune` on the resources. -/
def pruneResources (cutoff : Str) (t : AuditTables) : AuditTables :=
  { t with
    resources := deleteWhere
      (fun r => r.expiresAt.any (fun at' => at' < cutoff) && prunableStates.contains r.state)
      t.resources }

/-- The chain is eligible: its resource is gone and no event of it is recent. -/
def AuditTables.agedOut (t : AuditTables) (cutoff : Str) (key : Str × Str) : Bool :=
  !(t.resources.any fun r => r.key = key) &&
    !(t.events.any fun newer => newer.key = key && !(newer.time < cutoff))

/-- `Prune` on the audit: the eligible chains, and then the heads that have no event. -/
def pruneOperationalAudit (cutoff : Str) (t : AuditTables) : AuditTables :=
  let events := deleteWhere (fun r => t.agedOut cutoff r.key) t.events
  { t with
    events
    heads := deleteWhere (fun h => !(events.any fun r => r.key = h.key)) t.heads }

/-! ## Runs -/

/-- The operations: a transaction, which may be rolled back whatever it did, and the two retention
statements. -/
inductive AuditOp where
  | transaction (stmts : List AuditStmt) (rolledBack : Bool)
  | pruneResources (cutoff : Str)
  | pruneAudit (cutoff : Str)

def auditNext (t : AuditTables) : AuditOp → Option AuditTables
  | .transaction stmts rolledBack =>
    match runStmts sha stmts t, rolledBack with
    | .ok t', false => some t'
    | _, _ => some t
  | .pruneResources cutoff => some (pruneResources cutoff t)
  | .pruneAudit cutoff => some (pruneOperationalAudit cutoff t)

/-! ## What is assumed of the events -/

/-- Every string of the event is valid UTF-8. -/
def OperationalEvent.utf8 (e : OperationalEvent) : Bool :=
  [e.kind, e.resourceID, e.tenant, e.cluster, e.actor, e.action, e.requestID,
    e.decisionID, e.result,
    e.prevHash, e.hash].all (fun s => decide (ValidUTF8 s)) &&
  e.params.all fun m => decide m.Valid

/-- The year of a time has at most four digits and no sign. -/
def fourDigitYear (ns : Int) : Bool :=
  let year := (civilOfDays (dayOf ns)).year
  0 ≤ year && year ≤ 9999

/-- The appended events are valid UTF-8. -/
def AuditOp.utf8 : AuditOp → Bool
  | .transaction stmts _ =>
    stmts.all fun
      | .append e _ => e.utf8
      | _ => true
  | _ => true

/-- The appended events are stamped in the years 0 to 9999. -/
def AuditOp.dated : AuditOp → Bool
  | .transaction stmts _ =>
    stmts.all fun
      | .append e now => fourDigitYear (if e.time = GoTime.zeroNs then now else e.time)
      | _ => true
  | _ => true

/-! ## What is stored is read back -/

theorem parseTS_ts {ns : Int} (h : fourDigitYear ns = true) : parseTS (ts ns) = ns := by
  obtain ⟨hlow, hhigh⟩ : 0 ≤ (civilOfDays (dayOf ns)).year ∧
      (civilOfDays (dayOf ns)).year ≤ 9999 := by
    simpa only [fourDigitYear, Bool.and_eq_true, decide_eq_true_eq] using h
  have ht : marshalTime (fun _ => 0) ⟨ns, .utc, none⟩ = some (ts ns) := by
    rw [marshalTime, if_pos]
    · rfl
    · simp only [Zone.offset, Int.zero_mul, Int.add_zero]
      exact ⟨hlow, hhigh, by decide⟩
  rw [parseTS, parseRFC3339_marshalTime ht 0]
  simp [Zone.offset, printedOffset, timeAt]

theorem readParams_print {params : Option StrMap} (h : ∀ m ∈ params, m.Valid) :
    readParams (paramsJson params).print = some params := by
  cases params with
  | none => rfl
  | some m =>
    have hnums : Json.IntNums (.obj m.toMembers) := by
      by_cases hm : m.entries = []
      · rw [StrMap.toMembers, hm]
        trivial
      · exact StrMap.intNums_omitEmpty m _ (by simp [StrMap.omitEmpty, hm])
    rw [readParams, paramsJson, Json.parseJson_print _ hnums]
    simp only [Json.readBack, StrMap.toMembers, StrMap.readEntries_readBackMembers]
    exact congrArg _ (congrArg _ (StrMap.readBack_of_valid (h m rfl)))

/-- **An event is read back as it was inserted.** -/
theorem scanOperationalAudit_row {e : OperationalEvent} (ht : ∀ m ∈ e.params, m.Valid)
    (hm : fourDigitYear e.time = true) (id : Nat) : scanOperationalAudit (e.row id) = some e := by
  simp only [scanOperationalAudit, OperationalEvent.row, readParams_print ht, parseTS_ts hm,
    Option.map_some]

/-- The hash recomputed from the row is the stored one. -/
def Verified (r : OperationalRow) : Prop :=
  ∃ e, scanOperationalAudit r = some e ∧ operationalAuditHash sha e = r.hash

/-! ## What an append does -/

section

variable {sha : Str → Str} {e e' : OperationalEvent} {t t' : AuditTables}

theorem advanceHead_ok {attempts : Nat} (h : advanceHead sha e attempts t = .ok (e', t')) :
    ∃ previous, t.head (e.kind, e.resourceID) = some previous ∧
      e' = { e with
        prevHash := previous
        hash := operationalAuditHash sha { e with prevHash := previous } } ∧
      t' = t.moveHead (e.kind, e.resourceID) previous e'.hash := by
  induction attempts with
  | zero => cases h
  | succ attempts ih =>
    simp only [advanceHead] at h
    split at h
    · cases h
    rename_i previous hprev
    split_ifs at h
    · cases h
      exact ⟨previous, hprev, rfl, rfl⟩
    · exact ih h

end

namespace AuditTables

variable {t : AuditTables} {key key' : Str × Str}

theorem events_withHead (kind resourceID : Str) :
    (t.withHead kind resourceID).events = t.events ∧
      (t.withHead kind resourceID).inserted = t.inserted := by
  rw [withHead]
  split_ifs <;> exact ⟨rfl, rfl⟩

theorem head_eq_none : t.head key = none ↔ t.heads.any (fun h => h.key = key) = false := by
  simp [head, Option.map_eq_none_iff]

theorem head_withHead (kind resourceID : Str) : (t.withHead kind resourceID).head key =
      if key = (kind, resourceID) then some ((t.head key).getD []) else t.head key := by
  rw [withHead]
  split_ifs with ha hk hk
  · subst hk
    cases hh : t.head (kind, resourceID) with
    | none =>
      rw [head_eq_none.1 hh] at ha
      cases ha
    | some => rfl
  · rfl
  · subst hk
    have hn : t.heads.find? (fun h => h.key = (kind, resourceID)) = none := by simpa using ha
    simp only [head, List.find?_append, hn]
    simp [AuditHead.key]
  · have hne : (kind, resourceID) ≠ key := fun h => hk h.symm
    simp [head, List.find?_append, AuditHead.key, hne]

theorem head_moveHead {before after : Str} (h : t.head key = some before) :
    (t.moveHead key before after).head key' = if key' = key then some after else t.head key' := by
  obtain ⟨row, hr, rfl⟩ := Option.map_eq_some_iff.1 h
  have hk : row.key = key := by simpa using List.find?_some hr
  simp only [head, moveHead]
  rw [find?_updateWhere AuditHead.key (f := fun h => { h with lastHash := after }) fun _ _ => rfl]
  split_ifs with he
  · subst he
    rw [hr]
    simp [hk]
  rw [Option.map_map]
  refine Option.map_congr fun other ho => ?_
  have : other.key ≠ key := by
    have := List.find?_some (Option.mem_def.1 ho)
    simp only [decide_eq_true_eq] at this
    rwa [this]
  simp [this]

end AuditTables

/-! ## What every run keeps -/

/-- The state of the tables between transactions. -/
structure Chained (sha : Str → Str) (t : AuditTables) : Prop where
  increasing : t.events.Pairwise fun r s => r.id < s.id
  bounded : ∀ r ∈ t.events, r.id ≤ t.inserted
  linked : ∀ key, Linked OperationalRow.prevHash OperationalRow.hash [] (t.chain key)
  heads : ∀ key, t.head key = (t.chain key).getLast?.map OperationalRow.hash
  verified : ∀ r ∈ t.events, Verified sha r

section

variable {sha : Str → Str} {t t' : AuditTables}

theorem chained_empty : Chained sha empty :=
  ⟨List.Pairwise.nil, List.forall_mem_nil _, fun _ => trivial, fun _ => rfl, List.forall_mem_nil _⟩

section

variable (h : Chained sha t)
include h

theorem Chained.getD_head (key : Str × Str) :
    (t.head key).getD [] = endTag hash [] (t.chain key) := by
  rw [h.heads key]
  by_cases he : t.chain key = []
  · rw [he]
    rfl
  · rw [← endTag_eq he, Option.getD_some]

theorem Chained.append {e : OperationalEvent} {now : Int} (ht : ∀ m ∈ e.params, m.Valid)
    (hm : fourDigitYear (if e.time = GoTime.zeroNs then now else e.time) = true)
    (ha : appendOperationalAudit sha e now t = .ok t') : Chained sha t' := by
  rw [appendOperationalAudit] at ha
  split_ifs at ha
  obtain ⟨⟨inserted, _⟩, hadv, rfl⟩ := map_ok_iff.1 ha
  obtain ⟨previous, hprev, hins, rfl⟩ := advanceHead_ok hadv
  change (t.withHead e.kind e.resourceID).head (e.kind, e.resourceID) = some previous at hprev
  let moved := (t.withHead e.kind e.resourceID).moveHead (e.kind,
    e.resourceID) previous inserted.hash
  change Chained sha (moved.insertEvent inserted)
  have hk : (inserted.row (t.inserted + 1)).key = (e.kind, e.resourceID) := by
    rw [hins]
    rfl
  -- the head that was read is the end of the chain so far
  have hd : previous = endTag hash [] (t.chain (e.kind, e.resourceID)) := by
    rw [head_withHead, if_pos rfl, h.getD_head] at hprev
    exact (Option.some.inj hprev).symm
  have hverified : Verified sha (inserted.row (t.inserted + 1)) := by
    refine ⟨inserted, scanOperationalAudit_row ?_ ?_ _, ?_⟩
    · rw [hins]
      exact ht
    · rw [hins]
      exact hm
    · rw [hins]
      rfl
  obtain ⟨hevents, hinserted⟩ := t.events_withHead e.kind e.resourceID
  have hevs : (moved.insertEvent inserted).events = t.events ++ [inserted.row (t.inserted + 1)] :=
    congrArg₂ (fun rows n => rows ++ [inserted.row (n + 1)]) hevents hinserted
  have hser : (moved.insertEvent inserted).inserted = t.inserted + 1 := congrArg (· + 1) hinserted
  have hch : ∀ key, (moved.insertEvent inserted).chain key = t.chain key ++
        if key = (e.kind, e.resourceID) then [inserted.row (t.inserted + 1)] else [] := by
    intro key
    rw [chain, hevs, List.filter_append]
    simp only [List.filter_cons, hk, List.filter_nil, decide_eq_true_eq, @eq_comm _ key, chain]
  constructor
  · rw [hevs, List.pairwise_append]
    refine ⟨h.increasing, List.pairwise_singleton _ _, fun r hr s hs => ?_⟩
    obtain rfl := List.mem_singleton.1 hs
    exact Nat.lt_succ_of_le (h.bounded r hr)
  · rw [hevs, hser]
    exact forall_mem_insert (fun r hr => Nat.le_succ_of_le (h.bounded r hr)) (Nat.le_refl _)
  · intro key
    rw [hch]
    split_ifs with he
    · subst he
      apply linked_concat.2
      refine ⟨h.linked _, ?_⟩
      rw [← hd, hins]
      rfl
    · rw [List.append_nil]
      exact h.linked key
  · intro key
    rw [hch]
    change moved.head key = _
    rw [head_moveHead hprev]
    split_ifs with he
    · rw [List.getLast?_concat]
      rfl
    · rw [head_withHead, if_neg he, List.append_nil]
      exact h.heads key
  · rw [hevs]
    exact forall_mem_insert h.verified hverified

theorem Chained.runStmts {stmts : List AuditStmt}
    (hutf8 : (AuditOp.transaction stmts false).utf8 = true)
    (hdat : (AuditOp.transaction stmts false).dated = true)
    (hr : runStmts sha stmts t = .ok t') : Chained sha t' := by
  induction stmts generalizing t with
  | nil =>
    cases hr
    exact h
  | cons s _ ih =>
    obtain ⟨_, hs, ht⟩ := bind_ok_iff.1 hr
    simp only [AuditOp.utf8, AuditOp.dated, List.all_cons, Bool.and_eq_true] at hutf8 hdat
    refine ih ?_ hutf8.2 hdat.2 ht
    cases s with
    | append =>
      have hx := (Bool.and_eq_true_iff.1 hutf8.1).2
      refine h.append (fun m hm => ?_) hdat.1 hs
      rw [Option.mem_def.1 hm] at hx
      exact of_decide_eq_true hx
    | insertResource =>
      simp only [AuditStmt.run] at hs
      split_ifs at hs
      cases hs
      exact { h with }
    | updateResource =>
      cases hs
      exact { h with }

end

theorem chain_prune (cutoff : Str) (key : Str × Str) :
    (pruneOperationalAudit cutoff t).chain key =
      if t.agedOut cutoff key then [] else t.chain key := by
  simp only [pruneOperationalAudit, chain, deleteWhere, List.filter_filter]
  split_ifs with haged
  · rw [List.filter_eq_nil_iff]
    intro r _
    by_cases hk : r.key = key <;> simp [hk, haged]
  · apply List.filter_congr
    intro r _
    by_cases hk : r.key = key <;> simp [hk, haged]

theorem head_prune (cutoff : Str) (key : Str × Str) :
    (pruneOperationalAudit cutoff t).head key =
      if (pruneOperationalAudit cutoff t).chain key = [] then none else t.head key := by
  have hch : (pruneOperationalAudit cutoff t).chain key = [] ↔
      ((pruneOperationalAudit cutoff t).events.any fun r => r.key = key) = false := by
    simp [chain]
  have hheads : (pruneOperationalAudit cutoff t).head key =
      ((t.heads.filter fun h => (pruneOperationalAudit cutoff t).events.any
        fun r => r.key = h.key).find? fun h => h.key = key).map AuditHead.lastHash := by
    simp only [head, pruneOperationalAudit, deleteWhere, Bool.not_not]
  rw [hheads, List.find?_filter]
  split_ifs with hn
  · rw [Option.map_eq_none_iff, List.find?_eq_none]
    rintro h - hm
    simp only [decide_eq_true_eq] at hm
    rw [hm.2, hch.1 hn] at hm
    cases hm.1
  have ha := mt hch.2 hn
  refine congrArg _ (congrArg (fun q => List.find? q t.heads) (funext fun h => ?_))
  by_cases hk : h.key = key
  · simpa [hk] using ha
  · simp [hk]

theorem Chained.prune (h : Chained sha t) (cutoff : Str) :
    Chained sha (pruneOperationalAudit cutoff t) := by
  constructor
  · exact h.increasing.filter _
  · exact fun r hr => h.bounded r (List.mem_of_mem_filter hr)
  · intro key
    rw [chain_prune]
    split_ifs
    · trivial
    · exact h.linked key
  · intro key
    rw [head_prune]
    split_ifs with hn
    · rw [hn]
      rfl
    -- a chain that is left is left whole
    have hl : (pruneOperationalAudit cutoff t).chain key = t.chain key := by
      rw [chain_prune] at hn ⊢
      split_ifs at hn ⊢ with haged
      · exact absurd rfl hn
      · rfl
    rw [hl]
    exact h.heads key
  · exact fun r hr => h.verified r (List.mem_of_mem_filter hr)

theorem Chained.next (h : Chained sha t) {op : AuditOp} (hutf8 : op.utf8 = true)
    (hdat : op.dated = true) (hn : auditNext sha t op = some t') : Chained sha t' := by
  cases op with
  | transaction stmts rolledBack =>
    simp only [auditNext] at hn
    split at hn
    · rename_i hr
      cases hn
      exact h.runStmts hutf8 hdat hr
    · cases hn
      exact h
  | pruneResources =>
    cases hn
    exact { h with }
  | pruneAudit cutoff =>
    cases hn
    exact h.prune cutoff

end

/-- **Every audit chain is unbroken and can be checked.** After any transactions, rolled back or
not, and any retention, the events of a resource link from the empty hash to the recorded head, and
the hash of each recomputed from the store is the stored one. The appended events are dated in the
years 0 to 9999. -/
theorem audit_chains_hold {ops : List AuditOp} {t : AuditTables}
    (hrun : exec (auditNext sha) empty ops = some t)
    (hutf8 : ∀ op ∈ ops, op.utf8 = true) (hdated : ∀ op ∈ ops, op.dated = true)
    (key : Str × Str) :
    (t.chain key).Pairwise (fun r s => r.id < s.id) ∧ Linked prevHash hash [] (t.chain key) ∧
      t.head key = (t.chain key).getLast?.map hash ∧
      ∀ r ∈ t.chain key, ∃ e, scanOperationalAudit r = some e ∧
        operationalAuditHash sha e = r.hash := by
  have halong : Along (auditNext sha) (fun _ op => op.utf8 = true ∧ op.dated = true)
      empty ops :=
    along_of_forall (fun op hop => ⟨hutf8 op hop, hdated op hop⟩) _
  have hinv : Chained sha t :=
    exec_invariant_along
      (fun _ _ _ h hok hnext => h.next hok.1 hok.2 hnext) chained_empty halong hrun
  exact ⟨hinv.increasing.filter _, hinv.linked key, hinv.heads key,
    fun r hr => hinv.verified r (List.mem_of_mem_filter hr)⟩

def rolloutEvent (action : Str) (time : Int) : OperationalEvent :=
  { kind := lit "rollout", resourceID := lit "r1", tenant := [], cluster := [], time
    actor := lit "ops", action, requestID := [], decisionID := [], params := none,
    result := lit "ok"
    prevHash := [], hash := [] }

/-- A rollout that is created, expires and is pruned with its audit, and comes back. -/
def rolloutRun : List AuditOp :=
  let created : ResourceRow :=
    ⟨lit "rollout", lit "r1", lit "complete", lit "t1", lit "c1", some (ts 1000)⟩
  let year : Int := 31536000000000000
  [.transaction [.insertResource created,
    .append (rolloutEvent (lit "create") GoTime.zeroNs) 1000] false,
    .transaction [.append (rolloutEvent (lit "approve") 2000) 2000] true,
    .transaction [.append (rolloutEvent (lit "finish") 3000) 3000,
      .append { rolloutEvent (lit "forged") 3000 with prevHash := lit "sha256:" } 3000] false,
    .transaction [.append (rolloutEvent (lit "finish") 4000) 4000] false,
    .pruneResources (ts year), .pruneAudit (ts year),
    .transaction
    [.append { rolloutEvent (lit "create") year with params := some .empty } year] false,
    .transaction [.append (rolloutEvent (lit "finish") (2 * year)) (2 * year)] false]

theorem rollout_chain_holds : ∃ t, exec (auditNext fun s => s) empty rolloutRun = some t ∧
      (t.chain (lit "rollout", lit "r1")).map OperationalRow.id = [3, 4] ∧
      t.head (lit "rollout", lit "r1") =
        (t.chain (lit "rollout", lit "r1")).getLast?.map OperationalRow.hash := by
  exact reached (by decide +kernel) fun t ht
    hids =>
    ⟨hids, (audit_chains_hold _ ht (by decide +kernel) (by decide +kernel) _).2.2.1⟩

/-- An event of the year 10000: its time is stored as a text that is not read back, and its hash is
not found again. -/
theorem late_event_loses_hash : ∃ sha : Str → Str, Function.Injective sha ∧
      ∃ ops t, exec (auditNext sha) empty ops = some t ∧ (∀ op ∈ ops, op.utf8 = true) ∧
        ∃ r ∈ t.chain (lit "rollout", lit "r1"), ∃ e, scanOperationalAudit r = some e ∧
          operationalAuditHash sha e ≠ r.hash := by
  refine ⟨fun s => s, fun _ _ h => h,
    [.transaction [.append (rolloutEvent (lit "create") 253402300800000000000) 0] false], ?_⟩
  decide +kernel

end KubeNeuron.Store
