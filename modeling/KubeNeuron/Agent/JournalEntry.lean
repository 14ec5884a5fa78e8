import KubeNeuron.Lib.Text
import KubeNeuron.Types.Action

/-!
# Entries of the action journal

The bounds the journal checks, the comparisons its replay uses, and the line an entry is stored as.
A printed record reads back as its `readBack` (`decodeRecord_encodeRecord`).
-/

namespace KubeNeuron.Agent

open Lib KubeNeuron.Types

/-! ## Limits -/

def journalVersion : Int := 1

def maxRecordBytes : Nat := 128 * 1024
def maxActionIDBytes : Nat := 256
def maxActionTypeBytes : Nat := 128
def maxParams : Nat := 128
def maxParamBytes : Nat := 4 * 1024
def maxResultTextBytes : Nat := 64 * 1024
def maxLeaseTokenBytes : Nat := 4 * 1024
def maxJournalBytes : Nat := 64 * 1024 * 1024
def maxActions : Nat := 10000

/-- How long an acknowledged entry is kept, in nanoseconds. -/
def reportedRetention : Int := 24 * 3600 * 1000000000

/-! ## Entries -/

/-- The durable execution state of an action. A record on disk can carry any text as its state;
`other` holds the texts that name none. -/
inductive State where
  | received
  | running
  | outcomeKnown
  | outcomeUnknown
  | reported
  | other (text : Str)
  deriving DecidableEq

namespace State

/-- The state as a record has it. -/
def text : State → Str
  | .received => lit "received"
  | .running => lit "running"
  | .outcomeKnown => lit "outcome-known"
  | .outcomeUnknown => lit "outcome-unknown"
  | .reported => lit "reported"
  | .other text => text

/-- Read a state; no text is refused here. -/
def ofText (s : Str) : State :=
  if s = lit "received" then .received
  else if s = lit "running" then .running
  else if s = lit "outcome-known" then .outcomeKnown
  else if s = lit "outcome-unknown" then .outcomeUnknown
  else if s = lit "reported" then .reported
  else .other s

end State

/-- The most recent durable snapshot of one action. -/
structure Entry where
  action : Action
  state : State
  result : Option ActionResult
  leaseToken : Str
  leaseExpiresAt : GoTime
  updatedAt : GoTime
  deriving DecidableEq

/-- One line of the journal. -/
structure DiskRecord where
  version : Int
  entry : Entry

/-- The record that is written for an entry. -/
def Entry.record (e : Entry) : DiskRecord := ⟨journalVersion, e⟩

/-! ## What the journal refuses -/

/-- Why the journal refuses a call, a record or a file. -/
inductive JournalError where
  | actionID | actionType | params | param | timeout
  | updatedTime | expiryWithoutToken | leaseToken | leaseExpiry
  | stateWithResult | stateWithoutResult | resultID | resultText | resultTimes | finishBeforeStart
  | reportedLease | unknownState
  | version | beginsAt | tooManyActions | repeatedRecord | claimConflict
  | knownWithoutResult | unknownWithResult | reportedOutcome | claimChanged
  | notFound | actionConflict | outcomeConflict | invalidTransition
  | encode | recordLimit | byteLimit | actionLimit
  | invalidRecord | decodeRecord | io
  deriving DecidableEq

/-- Refuse with `err` unless the condition holds. -/
def check (ok : Bool) (err : JournalError) : Except JournalError Unit :=
  if ok then .ok () else .error err

@[simp] theorem check_eq_ok {ok : Bool} {err : JournalError} {u : Unit} :
    check ok err = .ok u ↔ ok = true := by
  cases ok <;> simp [check]

/-- An ID is not blank. -/
def validateActionID (actionID : Str) : Except JournalError Unit :=
  check (trimSpace actionID != [] && actionID.length ≤ maxActionIDBytes) .actionID

/-- A claim has a token without spaces around it, and an expiry. -/
def validateClaim (token : Str) (expiresAt : GoTime) : Except JournalError Unit := do
  check (trimSpace token == token && token != [] && token.length ≤ maxLeaseTokenBytes) .leaseToken
  check (!expiresAt.isZero) .leaseExpiry

/-- A value may be empty, its name not. -/
def paramInBounds (e : Str × Str) : Bool :=
  e.1 != [] && e.1.length ≤ maxParamBytes && e.2.length ≤ maxParamBytes

/-- The intent of an action is within the limits. -/
def validateAction (action : Action) : Except JournalError Unit := do
  validateActionID action.id
  check (action.type != [] && action.type.length ≤ maxActionTypeBytes) .actionType
  check (action.params.size ≤ maxParams) .params
  check (action.params.entries.all paramInBounds) .param
  check (0 ≤ action.timeout) .timeout

/-- A result has ended, and not before it began. -/
def validateResult (result : ActionResult) : Except JournalError Unit := do
  validateActionID result.actionID
  check (result.output.length ≤ maxResultTextBytes && result.error.length ≤ maxResultTextBytes)
    .resultText
  check (!result.startedAt.isZero && !result.finishedAt.isZero) .resultTimes
  check (!result.finishedAt.before result.startedAt) .finishBeforeStart

/-- The result is one of the action. -/
def validateOwnResult (entry : Entry) (result : ActionResult) : Except JournalError Unit := do
  check (result.actionID == entry.action.id) .resultID
  validateResult result

/-- The lease of an entry: an expiry needs a token, a token needs an expiry. -/
def validateLease (entry : Entry) : Except JournalError Unit :=
  if entry.leaseToken = [] then check entry.leaseExpiresAt.isZero .expiryWithoutToken
  else validateClaim entry.leaseToken entry.leaseExpiresAt

/-- What the state of an entry requires of its result and lease. -/
def validateState (entry : Entry) : Except JournalError Unit :=
  match entry.state, entry.result with
  | .received, result => check result.isNone .stateWithResult
  | .running, result => check result.isNone .stateWithResult
  | .outcomeUnknown, result => check result.isNone .stateWithResult
  | .outcomeKnown, none => .error .stateWithoutResult
  | .outcomeKnown, some result => validateOwnResult entry result
  | .reported, result => do
      check (entry.leaseToken == [] && entry.leaseExpiresAt.isZero) .reportedLease
      match result with
      | none => pure ()
      | some result => validateOwnResult entry result
  | .other _, _ => .error .unknownState

/-- What every record must pass, written or read. -/
def validateEntry (entry : Entry) : Except JournalError Unit := do
  validateAction entry.action
  check (!entry.updatedAt.isZero) .updatedTime
  validateLease entry
  validateState entry

/-! ## Comparisons -/

/-- The same intent. The incident an action belongs to is not compared. -/
def sameAction (a b : Action) : Bool :=
  a.id == b.id && a.type == b.type && a.timeout == b.timeout && a.params.size == b.params.size &&
    a.params.entries.all fun e => b.params.get e.1 == e.2

/-- The same result; times are compared with their location and monotonic reading. -/
def sameResult (a b : Option ActionResult) : Bool := a == b

/-- The same entry but for its lease and time. -/
def sameStatePayload (a b : Entry) : Bool :=
  sameAction a.action b.action && a.state == b.state && sameResult a.result b.result

/-- The same lease, whatever the zone of its expiry. -/
def sameClaim (a b : Entry) : Bool :=
  a.leaseToken == b.leaseToken && a.leaseExpiresAt.equal b.leaseExpiresAt

/-- The moves of an entry; a reported one makes none. -/
def allowedTransition : State → State → Bool
  | .received, next => next == .running || next == .outcomeUnknown
  | .running, next => next == .outcomeKnown || next == .outcomeUnknown
  | .outcomeKnown, next => next == .reported
  | .outcomeUnknown, next => next == .reported
  | _, _ => false

/-! ## The stored form -/

variable (lo : Int → Int)

/-- The result field of an entry: absent and `null` stand for no result. -/
def resultField (address : Nat) : Option Json → Option (Option ActionResult)
  | none => some none
  | some .null => some none
  | some j => (ActionResult.ofJson lo address j).map some

/-- An absent action is the zero one. -/
def actionField : Option Json → Option Action
  | none => some Action.zero
  | some j => Action.ofJson j

namespace Entry

/-- The entry before any field is read. -/
def zero : Entry := ⟨Action.zero, .other [], none, [], GoTime.zero, GoTime.zero⟩

/-- The fields of an entry as members, given its printed result and the texts of its times. The
lease expiry is a struct, so it is printed also when it is zero. -/
def slots (e : Entry) (result : Option Json) (expiresAt updatedAt : Str) :
    List (Str × Option Json) :=
  [(lit "action", some e.action.toJson), (lit "state", some (.str e.state.text)),
    (lit "result", result), (lit "lease_token", Json.omitEmpty e.leaseToken),
    (lit "lease_expires_at", some (.str expiresAt)), (lit "updated_at", some (.str updatedAt))]

/-- The printed result of an entry; `none` when the entry has one that cannot be printed. -/
def resultJson (e : Entry) : Option (Option Json) :=
  match e.result with
  | none => some none
  | some r => (r.toJson lo).map some

/-- Print an entry; a time outside the years 0 to 9999 cannot be printed. -/
def toJson (e : Entry) : Option Json := do
  let result ← e.resultJson lo
  let expiresAt ← marshalTime lo e.leaseExpiresAt
  let updatedAt ← marshalTime lo e.updatedAt
  some (.obj (Json.members (e.slots result expiresAt updatedAt)))

/-- The fields of an entry read from members. -/
def ofMembers (address : Nat) (ms : List (Str × Json)) : Option Entry := do
  let action ← actionField (Json.get ms (lit "action"))
  let state ← Json.stringField (Json.get ms (lit "state"))
  let result ← resultField lo address (Json.get ms (lit "result"))
  let leaseToken ← Json.stringField (Json.get ms (lit "lease_token"))
  let leaseExpiresAt ← timeField lo (address + 2) (Json.get ms (lit "lease_expires_at"))
  let updatedAt ← timeField lo (address + 3) (Json.get ms (lit "updated_at"))
  some ⟨action, State.ofText state, result, leaseToken, leaseExpiresAt, updatedAt⟩

/-- Read an entry; the zones it allocates are at `address` and the three addresses after it. -/
def ofJson (address : Nat) : Json → Option Entry
  | .null => some zero
  | .obj ms => ofMembers lo address ms
  | _ => none

/-- What an entry printed under the local zone `lo` reads back as under `lo'`. -/
def readBack (lo lo' : Int → Int) (address : Nat) (e : Entry) : Entry :=
  { action := e.action.readBack
    state := State.ofText (toValid e.state.text)
    result := e.result.map (ActionResult.readBack lo lo' address)
    leaseToken := toValid e.leaseToken
    leaseExpiresAt := readTime lo lo' (address + 2) e.leaseExpiresAt
    updatedAt := readTime lo lo' (address + 3) e.updatedAt }

end Entry

namespace DiskRecord

/-- The record before any field is read. -/
def zero : DiskRecord := ⟨0, Entry.zero⟩

/-- The fields of a record as members, given its printed entry. -/
def slots (r : DiskRecord) (entry : Json) : List (Str × Option Json) :=
  [(lit "version", some (.int r.version)), (lit "entry", some entry)]

/-- Print a record, if its entry can be printed. -/
def toJson (lo : Int → Int) (r : DiskRecord) : Option Json :=
  (r.entry.toJson lo).map fun entry => .obj (Json.members (r.slots entry))

/-- An absent entry is the zero one. -/
def entryField (address : Nat) : Option Json → Option Entry
  | none => some Entry.zero
  | some j => Entry.ofJson lo address j

/-- Read a record; other members are ignored. -/
def ofJson (address : Nat) : Json → Option DiskRecord
  | .null => some zero
  | .obj ms => do
      let version ← Json.intField (Json.get ms (lit "version"))
      let entry ← entryField lo address (Json.get ms (lit "entry"))
      some ⟨version, entry⟩
  | _ => none

/-- What a printed record reads back as. -/
def readBack (lo lo' : Int → Int) (address : Nat) (r : DiskRecord) : DiskRecord :=
  { r with entry := r.entry.readBack lo lo' address }

end DiskRecord

/-- The line of a record. -/
def encodeRecord (r : DiskRecord) : Option Str :=
  (r.toJson lo).map fun j => j.print ++ [0x0A]

/-- Read a line without its end. -/
def decodeRecord (address : Nat) (line : Str) : Option DiskRecord :=
  (Json.parseJson line).bind (DiskRecord.ofJson lo address)

/-! ## Printed records read back -/

variable {lo lo' : Int → Int} {e : Entry} {r : DiskRecord} {j : Json}

namespace Entry

/-- A printed result reads back. -/
theorem resultField_resultJson {r : Option Json} (h : e.resultJson lo = some r) (address : Nat) :
    resultField lo' address (r.map Json.readBack) =
      some (e.result.map (ActionResult.readBack lo lo' address)) := by
  cases hr : e.result with
  | none =>
    rw [resultJson, hr] at h
    cases h
    rfl
  | some result =>
    rw [resultJson, hr] at h
    obtain ⟨j, hj, rfl⟩ := Option.map_eq_some_iff.1 h
    have hd : ActionResult.ofJson lo' address j.readBack =
        some (result.readBack lo lo' address) := ActionResult.ofJson_toJson hj address
    simp only [ActionResult.toJson, Option.bind_eq_bind, Option.bind_eq_some_iff] at hj
    obtain ⟨_, -, _, -, hj⟩ := hj
    cases hj
    rw [Option.map_some, Json.readBack, resultField]
    · rw [Json.readBack] at hd
      rw [hd]
      rfl
    · intro h
      cases h

/-- A printed entry reads back. -/
theorem ofJson_toJson (h : e.toJson lo = some j)
    (address : Nat) : ofJson lo' address j.readBack = some (e.readBack lo lo' address) := by
  simp only [toJson, Option.bind_eq_bind, Option.bind_eq_some_iff] at h
  obtain ⟨r, hr, x, hx, u, hu, h⟩ := h
  cases h
  have hg : ∀ {k v}, (k, v) ∈ e.slots r x u →
      Json.get (Json.readBackMembers (Json.members (e.slots r x u))) k = v.map Json.readBack :=
    Json.get_readBackMembers (by simp only [slots, List.map_cons]; decide)
  rw [Json.readBack, ofJson, ofMembers, hg (v := some e.action.toJson) (by simp [slots]),
    hg (v := some (.str e.state.text)) (by simp [slots]), hg (v := r) (by simp [slots]),
    hg (v := Json.omitEmpty e.leaseToken) (by simp [slots]),
    hg (v := some (.str x)) (by simp [slots]), hg (v := some (.str u)) (by simp [slots]),
    Json.stringField_omitEmpty, resultField_resultJson hr]
  simp only [Option.map_some, timeField_marshalTime hx, timeField_marshalTime hu, actionField,
    Action.ofJson_toJson]
  rfl

theorem intNums_toJson (h : e.toJson lo = some j) :
    j.IntNums := by
  simp only [toJson, Option.bind_eq_bind, Option.bind_eq_some_iff] at h
  obtain ⟨r, hr, _, _, _, _, h⟩ := h
  cases h
  apply Json.intNumsMembers_members
  have hresult : ∀ v ∈ r, v.IntNums := by
    intro v hv
    cases hs : e.result with
    | none =>
      rw [resultJson, hs] at hr
      cases hr
      cases hv
    | some =>
      rw [resultJson, hs] at hr
      obtain ⟨_, hj, rfl⟩ := Option.map_eq_some_iff.1 hr
      cases hv
      exact ActionResult.intNums_toJson hj
  simpa [slots, Json.IntNums] using
    And.intro e.action.intNums_toJson ⟨hresult, Json.intNums_omitEmpty e.leaseToken⟩

end Entry

namespace DiskRecord

theorem ofJson_toJson (h : r.toJson lo = some j) (hv : FitsInt64 r.version) (address : Nat) :
    ofJson lo' address j.readBack = some (r.readBack lo lo' address) := by
  obtain ⟨entry, he, rfl⟩ := Option.map_eq_some_iff.1 h
  have hk : Json.RecordKeys ((r.slots entry).map Prod.fst) := by
    simp only [slots, List.map_cons]
    decide
  have hg : ∀ {k v}, (k, v) ∈ r.slots entry →
      Json.get (Json.readBackMembers (Json.members (r.slots entry))) k = v.map Json.readBack :=
    Json.get_readBackMembers hk
  rw [Json.readBack, ofJson, hg (v := some (.int r.version)) (by simp [slots]),
    hg (v := some entry) (by simp [slots]), Option.map_some, Option.map_some, entryField,
    Entry.ofJson_toJson he, Json.int, Json.readBack, ← Json.int, Json.intField_int hv]
  rfl

theorem intNums_toJson (h : r.toJson lo = some j) :
    j.IntNums := by
  obtain ⟨_, he, rfl⟩ := Option.map_eq_some_iff.1 h
  apply Json.intNumsMembers_members
  simpa [slots, Json.IntNums] using Entry.intNums_toJson he

end DiskRecord

/-- A line is a text without line ends, and the line end. **The text reads back as the record.** -/
theorem decodeRecord_encodeRecord {line : Str}
    (h : encodeRecord lo r = some line) (hv : FitsInt64 r.version) (lo' : Int → Int) :
    ∃ text, line = text ++ [0x0A] ∧ text ≠ [] ∧ (0x0A : UInt8) ∉ text ∧
      ∀ address, decodeRecord lo' address text = some (r.readBack lo lo' address) := by
  obtain ⟨j, hj, rfl⟩ := Option.map_eq_some_iff.1 h
  have hnums := DiskRecord.intNums_toJson hj
  refine ⟨j.print, rfl, ?_, Json.newline_not_mem_print j hnums, ?_⟩
  · obtain ⟨b, s, hb, -⟩ := Json.print_head j hnums
    rw [hb]
    exact List.cons_ne_nil b s
  · intro address
    rw [decodeRecord, Json.parseJson_print j hnums, Option.bind_some,
      DiskRecord.ofJson_toJson hj hv address]

end KubeNeuron.Agent
