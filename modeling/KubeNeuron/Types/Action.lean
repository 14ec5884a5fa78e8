import KubeNeuron.Lib.GoTime
import KubeNeuron.Lib.StrMap

/-!
# Actions and their results

The JSON form of a result leaves its refusal code out; that of an action leaves empty fields out.
The codecs take the local zone of the process that runs them, and `ofJson_toJson` for each type says
what a printed value reads back as in a process with another local zone.
-/

namespace KubeNeuron.Types

open Lib

/-- How long after an action's own deadline its result is still accepted, in nanoseconds. -/
def agentResultGrace : Int := 15 * 1000000000

/-- The action that undoes a host quiesce. -/
def actionRestoreAcceleratorHost : Str := lit "restore_accelerator_host"

/-- A single unit of work executed on a node. An action type is a string, and any string can be
stored as one. -/
structure Action where
  id : Str
  incidentID : Str
  type : Str
  params : StrMap
  timeout : Int64
  deriving DecidableEq

/-- The outcome of executing an action. -/
structure ActionResult where
  actionID : Str
  ok : Bool
  output : Str
  error : Str
  refusal : Str
  startedAt : GoTime
  finishedAt : GoTime
  deriving DecidableEq

/-! ## Time fields -/

/-- A time field; an absent one is the zero time. -/
def timeField (lo : Int → Int) (address : Nat) : Option Json → Option GoTime
  | none => some GoTime.zero
  | some .null => some GoTime.zero
  | some (.str s) => parseRFC3339 lo address s
  | some _ => none

/-- What a time value printed under the local zone `lo` reads back as under `lo'`. -/
def readTime (lo lo' : Int → Int) (address : Nat) (t : GoTime) : GoTime :=
  timeAt lo' address (t.ns + t.zone.offset lo t.unixSec * 1000000000)
    (printedOffset (t.zone.offset lo t.unixSec))

variable {lo : Int → Int} {r : ActionResult}

theorem timeField_marshalTime {lo' : Int → Int} {t : GoTime} {text : Str}
    (h : marshalTime lo t = some text) (address : Nat) :
    timeField lo' address (some (Json.readBack (.str text))) =
      some (readTime lo lo' address t) := by
  have hascii : toValid text = text := by
    simp only [marshalTime] at h
    split_ifs at h
    cases h
    exact toValid_eq_self (validUTF8_of_ascii (ascii_formatRFC3339Nano lo t))
  rw [Json.readBack, hascii]
  exact parseRFC3339_marshalTime h address

/-! ## The JSON form of a result -/

namespace ActionResult

/-- The result before any field is read. -/
def zero : ActionResult := ⟨[], false, [], [], [], GoTime.zero, GoTime.zero⟩

/-- The fields of a result as members, given the texts of its times. The refusal code is no
member. -/
def slots (r : ActionResult) (startedAt finishedAt : Str) : List (Str × Option Json) :=
  [(lit "action_id", some (.str r.actionID)), (lit "ok", some (.bool r.ok)),
    (lit "output", Json.omitEmpty r.output), (lit "error", Json.omitEmpty r.error),
    (lit "started_at", some (.str startedAt)), (lit "finished_at", some (.str finishedAt))]

/-- The JSON form of a result; a time that has no text makes the result unprintable. -/
def toJson (lo : Int → Int) (r : ActionResult) : Option Json := do
  let startedAt ← marshalTime lo r.startedAt
  let finishedAt ← marshalTime lo r.finishedAt
  some (.obj (Json.members (r.slots startedAt finishedAt)))

/-- The fields of a result read from members. -/
def ofMembers (lo : Int → Int) (address : Nat) (ms : List (Str × Json)) :
    Option ActionResult := do
  let actionID ← Json.stringField (Json.get ms (lit "action_id"))
  let ok ← Json.boolField (Json.get ms (lit "ok"))
  let output ← Json.stringField (Json.get ms (lit "output"))
  let error ← Json.stringField (Json.get ms (lit "error"))
  let startedAt ← timeField lo address (Json.get ms (lit "started_at"))
  let finishedAt ← timeField lo (address + 1) (Json.get ms (lit "finished_at"))
  some ⟨actionID, ok, output, error, [], startedAt, finishedAt⟩

/-- Read a result; the zones it allocates are at `address` and after. -/
def ofJson (lo : Int → Int) (address : Nat) : Json → Option ActionResult
  | .null => some zero
  | .obj ms => ofMembers lo address ms
  | _ => none

def readBack (lo lo' : Int → Int) (address : Nat) (r : ActionResult) : ActionResult :=
  { actionID := toValid r.actionID
    ok := r.ok
    output := toValid r.output
    error := toValid r.error
    refusal := []
    startedAt := readTime lo lo' address r.startedAt
    finishedAt := readTime lo lo' (address + 1) r.finishedAt }

theorem recordKeys_slots (r : ActionResult) (s f : Str) :
    Json.RecordKeys ((r.slots s f).map Prod.fst) := by
  simp only [slots, List.map_cons]
  decide

theorem ofMembers_slots {s f : Str}
    (hs : marshalTime lo r.startedAt = some s) (hf : marshalTime lo r.finishedAt = some f)
    (lo' : Int → Int) (extra : List (Str × Option Json))
    (hk : Json.RecordKeys ((r.slots s f ++ extra).map Prod.fst)) (address : Nat) :
    ofMembers lo' address (Json.readBackMembers (Json.members (r.slots s f ++ extra))) =
      some (r.readBack lo lo' address) := by
  have hg : ∀ {k v}, (k, v) ∈ r.slots s f →
      Json.get (Json.readBackMembers (Json.members (r.slots s f ++ extra))) k =
        v.map Json.readBack := fun h =>
    Json.get_readBackMembers hk (List.mem_append_left extra h)
  rw [ofMembers, hg (v := some (.str r.actionID)) (by simp [slots]),
    hg (v := some (.bool r.ok)) (by simp [slots]),
    hg (v := Json.omitEmpty r.output) (by simp [slots]),
    hg (v := Json.omitEmpty r.error) (by simp [slots]),
    hg (v := some (.str s)) (by simp [slots]), hg (v := some (.str f)) (by simp [slots]),
    Json.stringField_omitEmpty, Json.stringField_omitEmpty]
  simp only [Option.map_some, timeField_marshalTime hs, timeField_marshalTime hf]
  rfl

/-- **A printed result reads back**, without its refusal code. -/
theorem ofJson_toJson {lo' : Int → Int} {j : Json} (h : r.toJson lo = some j) (address : Nat) :
    ofJson lo' address j.readBack = some (r.readBack lo lo' address) := by
  simp only [toJson, Option.bind_eq_bind, Option.bind_eq_some_iff] at h
  obtain ⟨s, hs, f, hf, h⟩ := h
  cases h
  have hr := ofMembers_slots hs hf lo' [] (by
    exact recordKeys_slots r s f) address
  exact hr

theorem intNums_slots (r : ActionResult) (s f : Str) :
    ∀ g ∈ r.slots s f, ∀ v ∈ g.2, Json.IntNums v := by
  simpa [slots, Json.IntNums] using
    And.intro (Json.intNums_omitEmpty r.output) (Json.intNums_omitEmpty r.error)

theorem intNums_toJson {j : Json} (h : r.toJson lo = some j) :
    j.IntNums := by
  simp only [toJson, Option.bind_eq_bind, Option.bind_eq_some_iff] at h
  obtain ⟨s, -, f, -, h⟩ := h
  cases h
  exact Json.intNumsMembers_members _ (intNums_slots r s f)

end ActionResult

/-! ## The JSON form of an action -/

namespace Action

/-- The action before any field is read. -/
def zero : Action := ⟨[], [], [], StrMap.empty, 0⟩

/-- The member of a number field that is left out when it is zero. -/
def omitZero (n : Int64) : Option Json := if n = 0 then none else some (.int n.toInt)

/-- The fields of an action as members. -/
def slots (a : Action) : List (Str × Option Json) :=
  [(lit "id", some (.str a.id)), (lit "incident_id", Json.omitEmpty a.incidentID),
    (lit "type", some (.str a.type)), (lit "params", a.params.omitEmpty),
    (lit "timeout", omitZero a.timeout)]

def toJson (a : Action) : Json := .obj (Json.members a.slots)

/-- The fields of an action read from members. -/
def ofMembers (ms : List (Str × Json)) : Option Action := do
  let id ← Json.stringField (Json.get ms (lit "id"))
  let incidentID ← Json.stringField (Json.get ms (lit "incident_id"))
  let type ← Json.stringField (Json.get ms (lit "type"))
  let params ← StrMap.field (Json.get ms (lit "params"))
  let timeout ← Json.intField (Json.get ms (lit "timeout"))
  some ⟨id, incidentID, type, params, Int64.ofInt timeout⟩

def ofJson : Json → Option Action
  | .null => some zero
  | .obj ms => ofMembers ms
  | _ => none

def readBack (a : Action) : Action :=
  { id := toValid a.id
    incidentID := toValid a.incidentID
    type := toValid a.type
    params := a.params.readBack
    timeout := a.timeout }

theorem intField_omitZero (n : Int64) :
    Json.intField ((omitZero n).map Json.readBack) = some n.toInt := by
  by_cases h : n = 0
  · subst h
    rfl
  · simp only [omitZero, h, Json.int]
    exact Json.intField_int ⟨n.le_toInt, Int.le_of_lt_add_one n.toInt_lt⟩

theorem recordKeys_slots (a : Action) : Json.RecordKeys (a.slots.map Prod.fst) := by
  simp only [slots, List.map_cons]
  decide

/-- **A printed action reads back.** -/
theorem ofJson_toJson (a : Action) : ofJson a.toJson.readBack = some a.readBack := by
  have hg : ∀ {k v}, (k, v) ∈ a.slots →
      Json.get (Json.readBackMembers (Json.members a.slots)) k = v.map Json.readBack :=
    Json.get_readBackMembers (recordKeys_slots a)
  rw [toJson, Json.readBack, ofJson, ofMembers, hg (v := some (.str a.id)) (by simp [slots]),
    hg (v := Json.omitEmpty a.incidentID) (by simp [slots]),
    hg (v := some (.str a.type)) (by simp [slots]),
    hg (v := a.params.omitEmpty) (by simp [slots]),
    hg (v := omitZero a.timeout) (by simp [slots]), Json.stringField_omitEmpty,
    StrMap.field_omitEmpty, intField_omitZero]
  simp [Json.readBack, Json.stringField, readBack]

theorem intNums_toJson (a : Action) : a.toJson.IntNums := by
  apply Json.intNumsMembers_members
  have hz : ∀ v ∈ omitZero a.timeout, v.IntNums := by
    rw [omitZero]
    split_ifs <;> simp
  simpa [slots, Json.IntNums] using
    And.intro (Json.intNums_omitEmpty a.incidentID) ⟨StrMap.intNums_omitEmpty a.params, hz⟩

/-- Every string of the action is valid UTF-8. -/
def Valid (a : Action) : Prop :=
  ValidUTF8 a.id ∧ ValidUTF8 a.incidentID ∧ ValidUTF8 a.type ∧ a.params.Valid

instance (a : Action) : Decidable a.Valid := inferInstanceAs (Decidable (_ ∧ _))

theorem readBack_of_valid {a : Action} (h : a.Valid) : a.readBack = a := by
  obtain ⟨hid, hi, ht, hp⟩ := h
  simp only [readBack, toValid_eq_self hid, toValid_eq_self hi, toValid_eq_self ht,
    StrMap.readBack_of_valid hp]

theorem valid_readBack (a : Action) : a.readBack.Valid :=
  ⟨validUTF8_toValid _, validUTF8_toValid _, validUTF8_toValid _, StrMap.valid_readBack _⟩

end Action

end KubeNeuron.Types
