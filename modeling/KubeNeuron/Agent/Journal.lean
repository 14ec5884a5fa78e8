import KubeNeuron.Agent.JournalEntry
import KubeNeuron.Lib.Run

/-!
# The action journal

An append-only file of entry snapshots with a map of the latest snapshot of each action. Every
operation plans one snapshot, writes its line (`Write`; the write can fail after any number of
bytes) and only then changes the map. Compaction replaces the file by a short history of each entry.
`openJournal` reads the file back and marks every running entry as of unknown outcome.
-/

namespace KubeNeuron.Agent

open Lib KubeNeuron.Types

/-- The content of the journal's file, the latest entry of each action, and the size the journal
believes its file to have. -/
structure Journal where
  file : Str
  entries : KeyMap Entry
  bytes : Nat
  deriving DecidableEq

/-- A refused operation, and the journal it leaves: a compaction that succeeded before the refusal
stays done. -/
structure Refusal where
  error : JournalError
  journal : Journal

/-- The outcome of a check as that of an operation on `j`. -/
def Journal.refuse {α : Type} (j : Journal) : Except JournalError α → Except Refusal α :=
  Except.mapError (⟨·, j⟩)

/-! ## Compaction -/

variable (lo : Int → Int)

/-- The lines of several records. -/
def encodeRecords (records : List DiskRecord) : Option Str :=
  (records.mapM (encodeRecord lo)).map List.flatten

/-- Replace the file by the lines of the records. The replacement is atomic; the sizes of the lines
and of the file are not checked. -/
def Journal.rewriteRecords (records : List DiskRecord) (j : Journal) :
    Except JournalError Journal :=
  match encodeRecords lo records with
  | none => .error .encode
  | some data => .ok { j with file := data, bytes := data.length }

/-- The states of the shortest history that ends in the entry. -/
def historyStates (e : Entry) : List State :=
  match e.state with
  | .received => [.received]
  | .running => [.received, .running]
  | .outcomeKnown => [.received, .running, .outcomeKnown]
  | .outcomeUnknown => [.received, .outcomeUnknown]
  | .reported =>
    if e.result.isSome then [.received, .running, .outcomeKnown, .reported]
    else [.received, .outcomeUnknown, .reported]
  | .other _ => []

/-- The entry as it stands in its history at a state: with a result only once the outcome is
known. -/
def atState (e : Entry) (state : State) : Entry :=
  match state with
  | .outcomeKnown => { e with state := state }
  | .reported => { e with state := state }
  | .other _ => { e with state := state }
  | _ => { e with state := state, result := none }

/-- The record chain that reproduces an entry. -/
def entryHistory (e : Entry) : List DiskRecord :=
  (historyStates e).map fun state => (atState e state).record

/-- Reported, and last changed before the cutoff. -/
def stale (cutoff : GoTime) (e : Entry) : Bool := e.state == .reported && e.updatedAt.before cutoff

/-- Drop the reported entries older than `retention`; the number dropped and the journal left. -/
def Journal.compactReported (now : GoTime) (retention : Int) (j : Journal) :
    Except JournalError (Nat × Journal) :=
  let survivors := j.entries.filter fun _ e => !stale (now.utc.add (-retention)) e
  let removed := j.entries.size - survivors.size
  if removed = 0 then .ok (0, j)
  else
    (j.rewriteRecords lo (survivors.entries.flatMap fun e => entryHistory e.2)).map
      fun j => (removed, { j with entries := survivors })

/-! ## Appending -/

/-- An append that is about to be written. -/
structure Write where
  journal : Journal
  entry : Entry
  line : Str

/-- The write succeeded: the line is in the file and the entry in the map. -/
def Write.commit (w : Write) : Journal :=
  { file := w.journal.file ++ w.line
    entries := w.journal.entries.insert w.entry.action.id w.entry
    bytes := w.journal.bytes + w.line.length }

/-- The write failed after `n` bytes: they stay in the file, and nothing else changes. -/
def Write.torn (w : Write) (n : Nat) : Journal :=
  { w.journal with file := w.journal.file ++ w.line.take n }

/-- Make room for a line by compaction when the file would grow over its limit. -/
def Journal.makeRoom (now : GoTime) (line : Str) (j : Journal) : Except JournalError Journal :=
  if maxJournalBytes < j.bytes + line.length then
    (j.compactReported lo now reportedRetention).map Prod.snd
  else .ok j

/-- Everything an append does before it writes. -/
def Journal.prepare (now : GoTime) (entry : Entry) (j : Journal) : Except Refusal Write := do
  j.refuse (validateEntry entry)
  let line ← j.refuse (((encodeRecord lo entry.record).map Except.ok).getD (.error .encode))
  j.refuse (check (line.length ≤ maxRecordBytes) .recordLimit)
  let j ← j.refuse (j.makeRoom lo now line)
  j.refuse (check (j.bytes + line.length ≤ maxJournalBytes) .byteLimit)
  return ⟨j, entry, line⟩

/-! ## The operations -/

/-- What an operation asks for: nothing new, or one more snapshot. -/
inductive Plan where
  | keep (entry : Entry)
  | append (entry : Entry)

def planClaim (entries : KeyMap Entry) (now : GoTime) (actionID token : Str)
    (expiresAt : GoTime) : Except JournalError Plan := do
  validateActionID actionID
  validateClaim token expiresAt
  match entries.get? actionID with
  | none => .error .notFound
  | some current =>
    if current.state = .reported then .error .invalidTransition
    else if current.leaseToken = token ∧ current.leaseExpiresAt.equal expiresAt then
      return .keep current
    else
      return .append { current with
        leaseToken := token, leaseExpiresAt := expiresAt.utc, updatedAt := now.utc }

/-- Whether a transition to the state the entry already has is a repetition. -/
def checkRepeated (current : Entry) (next : State) (result : Option ActionResult) :
    Except JournalError Unit :=
  match next with
  | .outcomeKnown =>
    check (result.isSome && sameResult current.result result) .outcomeConflict
  | .reported => .ok ()
  | .running => .ok ()
  | .outcomeUnknown => .ok ()
  | _ => .error .invalidTransition

/-- The entry after a transition. -/
def advanced (current : Entry) (now : GoTime) (next : State) (result : Option ActionResult) :
    Entry :=
  let entry := { current with state := next, updatedAt := now.utc }
  match next with
  | .outcomeKnown => { entry with result := result }
  | .outcomeUnknown => { entry with result := none }
  | .reported => { entry with leaseToken := [], leaseExpiresAt := GoTime.zero }
  | _ => entry

def planTransition (entries : KeyMap Entry) (now : GoTime) (actionID : Str) (next : State)
    (result : Option ActionResult) : Except JournalError Plan := do
  validateActionID actionID
  match entries.get? actionID with
  | none => .error .notFound
  | some current =>
    if current.state = next then do
      checkRepeated current next result
      return .keep current
    else if allowedTransition current.state next then
      return .append (advanced current now next result)
    else .error .invalidTransition

def planOutcome (entries : KeyMap Entry) (now : GoTime) (actionID : Str)
    (result : ActionResult) : Except JournalError Plan := do
  check (result.actionID == actionID) .resultID
  validateActionID actionID
  validateResult result
  planTransition entries now actionID .outcomeKnown (some result)

/-- The calls the journal offers. -/
inductive JournalOp where
  | recordReceived (action : Action)
  | setClaim (actionID token : Str) (expiresAt : GoTime)
  | markRunning (actionID : Str)
  | recordOutcome (actionID : Str) (result : ActionResult)
  | markOutcomeUnknown (actionID : Str)
  | markReported (actionID : Str)
  | compactReported (retention : Int)

/-- Where an operation stands when it is about to write: done without a write, or at its write. -/
inductive Pending where
  | done (journal : Journal) (entry : Option Entry)
  | write (w : Write)

/-- Carry a plan to its write. -/
def Journal.carry (now : GoTime) (j : Journal) : Except JournalError Plan → Except Refusal Pending
  | .error err => .error ⟨err, j⟩
  | .ok (.keep entry) => .ok (.done j (some entry))
  | .ok (.append entry) => (j.prepare lo now entry).map .write

/-- Room for one more action, by compaction when the journal is full. -/
def Journal.makeSlot (now : GoTime) (j : Journal) : Except JournalError Journal :=
  if maxActions ≤ j.entries.size then (j.compactReported lo now reportedRetention).map Prod.snd
  else .ok j

def Journal.beginReceived (clock : Nat → GoTime) (action : Action) (j : Journal) :
    Except Refusal Pending := do
  j.refuse (validateAction action)
  match j.entries.get? action.id with
  | some existing =>
    j.refuse (check (sameAction existing.action action) .actionConflict)
    return .done j (some existing)
  | none =>
    let j ← j.refuse (j.makeSlot lo (clock 1))
    j.refuse (check (j.entries.size < maxActions) .actionLimit)
    (j.prepare lo (clock 2) ⟨action, .received, none, [], GoTime.zero, (clock 0).utc⟩).map .write

/-- An operation up to its write. `clock` lists its readings of the clock: the time it stamps the
entry with, then those of the compactions it may start. -/
def Journal.start (clock : Nat → GoTime) (j : Journal) : JournalOp → Except Refusal Pending
  | .recordReceived action => j.beginReceived lo clock action
  | .setClaim actionID token expiresAt =>
    j.carry lo (clock 1) (planClaim j.entries (clock 0) actionID token expiresAt)
  | .markRunning actionID =>
    j.carry lo (clock 1) (planTransition j.entries (clock 0) actionID .running none)
  | .recordOutcome actionID result =>
    j.carry lo (clock 1) (planOutcome j.entries (clock 0) actionID result)
  | .markOutcomeUnknown actionID =>
    j.carry lo (clock 1) (planTransition j.entries (clock 0) actionID .outcomeUnknown none)
  | .markReported actionID =>
    j.carry lo (clock 1) (planTransition j.entries (clock 0) actionID .reported none)
  | .compactReported retention =>
    (j.refuse (j.compactReported lo (clock 0) retention)).map fun p => .done p.2 none

/-- The journal after the pending operation went through. -/
def Pending.commit : Pending → Journal
  | .done j _ => j
  | .write w => w.commit

/-- The entry a successful operation returns. -/
def Pending.entry : Pending → Option Entry
  | .done _ entry => entry
  | .write w => some w.entry

/-- The entries that have not been acknowledged, in the order of their actions' IDs. -/
def Journal.listRecoverable (j : Journal) : List Entry :=
  (j.entries.entries.map Prod.snd).filter fun e => e.state != .reported

/-! ## Opening -/

/-- The checks of a record for an action that has an entry already. -/
def checkNext (current next : Entry) : Except JournalError Unit := do
  check (sameAction current.action next.action) .actionConflict
  if current.state = next.state then do
    check (sameStatePayload current next) .repeatedRecord
    -- a repeated state may add or replace a claim, but not after the report, and not erase it
    check (sameClaim current next || (current.state != .reported && next.leaseToken != []))
      .claimConflict
  else do
    check (allowedTransition current.state next.state) .invalidTransition
    check (next.state != .outcomeKnown || next.result.isSome) .knownWithoutResult
    check (next.state != .outcomeUnknown || next.result.isNone) .unknownWithResult
    check (next.state != .reported || sameResult current.result next.result) .reportedOutcome
    check (next.state == .reported || sameClaim current next) .claimChanged

/-- The checks of a record against the entries read so far. -/
def checkRecord (entries : KeyMap Entry) (record : DiskRecord) : Except JournalError Unit := do
  check (record.version == journalVersion) .version
  validateEntry record.entry
  match entries.get? record.entry.action.id with
  | none => do
      check (record.entry.state == .received) .beginsAt
      check (entries.size < maxActions) .tooManyActions
  | some current => checkNext current record.entry

/-- Apply one record to the entries read so far. -/
def applyRecord (entries : KeyMap Entry) (record : DiskRecord) :
    Except JournalError (KeyMap Entry) :=
  (checkRecord entries record).map fun _ => entries.insert record.entry.action.id record.entry

/-- Cut a file behind each line end; the last piece is what follows the last one. -/
def splitAfter : Str → List Str
  | [] => [[]]
  | b :: s =>
    if b = 0x0A then [b] :: splitAfter s
    else
      match splitAfter s with
      | [] => [[b]]
      | piece :: pieces => (b :: piece) :: pieces

/-- What is read from a file: its records, their size, and whether a torn tail follows them. -/
structure ReadFile where
  records : List DiskRecord
  retained : Nat
  tailCorrupt : Bool

/-- Read the pieces of a file. The `index`-th record allocates its zones at `4 * index`. -/
def readPieces (lo : Int → Int) : Nat → List Str → Except JournalError ReadFile
  | _, [] => .ok ⟨[], 0, false⟩
  | index, raw :: rest =>
    if raw = [] then readPieces lo index rest
    else
      -- a fault in the last piece is a torn tail, anywhere else it is corruption
      let last := rest.isEmpty
      let complete := raw.getLast? == some 0x0A
      let line := if complete then raw.dropLast else raw
      if line = [] ∨ maxRecordBytes < raw.length then
        if last then .ok ⟨[], 0, true⟩ else .error .invalidRecord
      else
        match decodeRecord lo (4 * index) line with
        | none => if last then .ok ⟨[], 0, true⟩ else .error .decodeRecord
        | some record =>
          if !complete then .ok ⟨[], 0, true⟩
          else
            (readPieces lo (index + 1) rest).map fun f =>
              ⟨record :: f.records, raw.length + f.retained, f.tailCorrupt⟩

def readRecords (data : Str) : Except JournalError ReadFile :=
  if maxJournalBytes < data.length then .error .byteLimit
  else if data = [] then .ok ⟨[], 0, false⟩
  else readPieces lo 0 (splitAfter data)

/-- The entries of a record list, the records that lead to them, and whether a last record was
dropped because it does not follow from them. -/
def replay (entries : KeyMap Entry) :
    List DiskRecord → Except JournalError (KeyMap Entry × List DiskRecord × Bool)
  | [] => .ok (entries, [], false)
  | record :: rest =>
    match applyRecord entries record with
    | .ok entries => (replay entries rest).map fun p => (p.1, record :: p.2.1, p.2.2)
    | .error err => if rest = [] then .ok (entries, [], true) else .error err

/-- Read the file back, and rewrite it without its torn tail when it has one. -/
def recoverJournal (file : Str) : Except JournalError Journal := do
  let read ← readRecords lo file
  let (entries, kept, dropped) ← replay KeyMap.empty read.records
  let j : Journal := ⟨file, entries, read.retained⟩
  if read.tailCorrupt || dropped then j.rewriteRecords lo kept else .ok j

/-- The actions found running, in the order of their IDs. -/
def Journal.interrupted (j : Journal) : List Str :=
  (j.entries.entries.filter fun e => e.2.state == .running).map Prod.fst

/-- The append that marks an interrupted action, up to its write. -/
def Journal.markInterrupted (clock : Nat → GoTime) (actionID : Str)
    (j : Journal) : Except Refusal Write :=
  match j.entries.get? actionID with
  | none => .error ⟨.notFound, j⟩
  | some entry =>
    j.prepare lo (clock 1)
      { entry with state := .outcomeUnknown, result := none, updatedAt := (clock 0).utc }

/-- Mark the interrupted actions one after the other. -/
def Journal.markAllInterrupted (lo : Int → Int) (clock : Str → Nat → GoTime) (j : Journal) :
    List Str → Except Refusal Journal
  | [] => .ok j
  | id :: ids =>
    match j.markInterrupted lo (clock id) id with
    | .error r => .error r
    | .ok w => w.commit.markAllInterrupted lo clock ids

/-- Open the journal of a file; `clock` gives the clock readings for each interrupted action. -/
def openJournal (clock : Str → Nat → GoTime) (file : Str) :
    Except JournalError Journal := do
  let j ← recoverJournal lo file
  (j.markAllInterrupted lo clock j.interrupted).mapError Refusal.error

end KubeNeuron.Agent
