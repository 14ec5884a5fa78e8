import KubeNeuron.Lib.JsonLength
import KubeNeuron.Types.Event

/-!
# The line of a spooled event

The spool keeps each event as one line of JSON. A line that was printed reads back
(`decodeEvent_encodeEvent`), and what it reads back as prints again, as a line that is no longer.
-/

namespace KubeNeuron.Agent

open Lib KubeNeuron.Types FaultSignal

/-- `types.AgentEvent` as the agent captures it, with its time value. -/
structure CapturedEvent where
  eventID : Str
  node : Str
  gpuIndex : Int
  gpuUUID : Str
  pciAddr : Str
  xid : Int
  fault : Option FaultSignal
  raw : Str
  timestamp : GoTime
  fits : FitsInt64 gpuIndex ∧ FitsInt64 xid
  deriving DecidableEq

/-- The envelope field of an event. -/
def faultField : Option Json → Option (Option FaultSignal)
  | none => some none
  | some .null => some none
  | some j => (FaultSignal.ofJson j).map some

namespace CapturedEvent

/-- The event with nothing set. -/
def zero : CapturedEvent := ⟨[], [], 0, [], [], 0, none, [], GoTime.zero, by decide⟩

/-- The fields of an event as members. -/
def slots (e : CapturedEvent) (timestamp : Str) : List (Str × Option Json) :=
  [(lit "event_id", Json.omitEmpty e.eventID), (lit "node", some (.str e.node)),
    (lit "gpu_index", some (.int e.gpuIndex)), (lit "gpu_uuid", Json.omitEmpty e.gpuUUID),
    (lit "pci_addr", Json.omitEmpty e.pciAddr), (lit "xid", some (.int e.xid)),
    (lit "fault", e.fault.map FaultSignal.toJson), (lit "raw", Json.omitEmpty e.raw),
    (lit "timestamp", some (.str timestamp))]

/-- The JSON form of an event, none when its time has none. -/
def toJson (lo : Int → Int) (e : CapturedEvent) : Option Json :=
  (marshalTime lo e.timestamp).map fun timestamp => .obj (Json.members (e.slots timestamp))

def ofJson (lo : Int → Int) : Json → Option CapturedEvent
  | .null => some zero
  | .obj ms => do
      let eventID ← Json.stringField (Json.get ms (lit "event_id"))
      let node ← Json.stringField (Json.get ms (lit "node"))
      let gpuIndex ← Json.intField (Json.get ms (lit "gpu_index"))
      let gpuUUID ← Json.stringField (Json.get ms (lit "gpu_uuid"))
      let pciAddr ← Json.stringField (Json.get ms (lit "pci_addr"))
      let xid ← Json.intField (Json.get ms (lit "xid"))
      let fault ← faultField (Json.get ms (lit "fault"))
      let raw ← Json.stringField (Json.get ms (lit "raw"))
      let timestamp ← timeField lo 0 (Json.get ms (lit "timestamp"))
      if fits : FitsInt64 gpuIndex ∧ FitsInt64 xid then
        some ⟨eventID, node, gpuIndex, gpuUUID, pciAddr, xid, fault, raw, timestamp, fits⟩
      else none
  | _ => none

/-- What an event printed under the local zone `lo` reads back as under `lo'`. -/
def readBack (lo lo' : Int → Int) (e : CapturedEvent) : CapturedEvent :=
  ⟨toValid e.eventID, toValid e.node, e.gpuIndex, toValid e.gpuUUID, toValid e.pciAddr, e.xid,
    e.fault.map FaultSignal.readBack, toValid e.raw, readTime lo lo' 0 e.timestamp, e.fits⟩

end CapturedEvent

/-- The line of an event, without its end. -/
def encodeEvent (lo : Int → Int) (e : CapturedEvent) : Option Str :=
  (e.toJson lo).map Json.print

def decodeEvent (lo : Int → Int) (line : Str) : Option CapturedEvent :=
  (Json.parseJson line).bind (CapturedEvent.ofJson lo)

variable {lo lo' : Int → Int} {e : CapturedEvent} {line : Str}

theorem offset_readTime (lo lo' : Int → Int) (t : GoTime) :
    (readTime lo lo' 0 t).zone.offset lo' (readTime lo lo' 0 t).unixSec =
        (t.zone.offset lo t.unixSec).tdiv 60 * 60 ∧
      (readTime lo lo' 0 t).ns + (t.zone.offset lo t.unixSec).tdiv 60 * 60 * 1000000000 =
        t.ns + t.zone.offset lo t.unixSec * 1000000000 := by
  rw [readTime]
  generalize t.zone.offset lo t.unixSec = offset
  rw [printedOffset]
  by_cases hz : offset = 0
  · simp [hz, timeAt, Zone.offset]
  rw [if_neg hz, timeAt]
  -- whichever location the reader picks, it shows the printed offset
  have hzone : ∀ sec, (zoneFor lo' 0 sec (offset.tdiv 60 * 60)).offset lo' sec =
      offset.tdiv 60 * 60 := by
    intro sec
    rw [zoneFor]
    split_ifs with hloc hhours
    · exact hloc
    · exact Int.mul_ediv_cancel_of_emod_eq_zero hhours.1
    · rfl
  refine ⟨hzone _, ?_⟩
  dsimp only
  omega

theorem length_zoneText_minutes (offset : Int) :
    ((zoneText (offset.tdiv 60 * 60)).flatMap quoteAscii).length ≤
      ((zoneText offset).flatMap quoteAscii).length := by
  have hdiv : (offset.tdiv 60 * 60).tdiv 60 = offset.tdiv 60 := Int.mul_tdiv_cancel _ (by decide)
  by_cases hn : offset.tdiv 60 * 60 = 0
  · -- an offset of less than a minute has become none
    obtain ⟨b, _, hzone, -⟩ := zoneText_head offset
    have ho : ([0x5A].flatMap quoteAscii).length = 1 := by decide
    have hp : 0 < (quoteAscii b).length := by
      rw [quoteAscii]
      split_ifs <;> simp
    rw [zoneText, if_pos hn, ho, hzone, List.flatMap_cons, List.length_append]
    omega
  · have hs : offset ≠ 0 := by
      rintro rfl
      exact hn rfl
    rw [zoneText, zoneText, if_neg hn, if_neg hs, hdiv]

theorem marshalTime_readTime_length {t : GoTime} {text : Str} (h : marshalTime lo t = some text) :
    ∃ text', marshalTime lo' (readTime lo lo' 0 t) = some text' ∧
      (quote text').length ≤ (quote text).length := by
  obtain ⟨hoff, ha⟩ := offset_readTime lo lo' t
  have hdiv : ((t.zone.offset lo t.unixSec).tdiv 60 * 60).tdiv 60 =
      (t.zone.offset lo t.unixSec).tdiv 60 :=
    Int.mul_tdiv_cancel _ (by decide)
  rw [marshalTime] at h
  split_ifs at h with hprintable
  cases h
  refine ⟨formatRFC3339Nano lo' (readTime lo lo' 0 t), ?_, ?_⟩
  · rw [marshalTime, hoff, ha, hdiv, if_pos hprintable]
  rw [quote_ascii (ascii_formatRFC3339Nano lo' _), quote_ascii (ascii_formatRFC3339Nano lo t),
    formatRFC3339Nano, formatRFC3339Nano, hoff, ha]
  have hzone := length_zoneText_minutes (t.zone.offset lo t.unixSec)
  simp only [List.flatMap_append, List.length_cons, List.length_append]
  omega

theorem faultField_toJson (f : Option FaultSignal) :
    faultField ((f.map toJson).map Json.readBack) = some (f.map readBack) := by
  cases f with
  | none => rfl
  | some f =>
    have hr := ofJson_toJson f
    rw [toJson, Json.readBack] at hr
    rw [Option.map_some, Option.map_some, toJson, Json.readBack, faultField, hr]
    · rfl
    · intro h
      cases h

theorem CapturedEvent.ofJson_toJson {j : Json} (h : e.toJson lo = some j) :
    ofJson lo' j.readBack = some (e.readBack lo lo') := by
  obtain ⟨timestamp, ht, rfl⟩ := Option.map_eq_some_iff.1 h
  have hk : Json.RecordKeys ((e.slots timestamp).map Prod.fst) := by
    simp only [slots, List.map_cons]
    decide
  have hg : ∀ {k v}, (k, v) ∈ e.slots timestamp →
      Json.get (Json.readBackMembers (Json.members (e.slots timestamp))) k = v.map Json.readBack :=
    Json.get_readBackMembers hk
  rw [Json.readBack, ofJson, hg (v := Json.omitEmpty e.eventID) (by simp [slots]),
    hg (v := some (.str e.node)) (by simp [slots]),
    hg (v := some (.int e.gpuIndex)) (by simp [slots]),
    hg (v := Json.omitEmpty e.gpuUUID) (by simp [slots]),
    hg (v := Json.omitEmpty e.pciAddr) (by simp [slots]),
    hg (v := some (.int e.xid)) (by simp [slots]),
    hg (v := e.fault.map FaultSignal.toJson) (by simp [slots]),
    hg (v := Json.omitEmpty e.raw) (by simp [slots]),
    hg (v := some (.str timestamp)) (by simp [slots])]
  have hint : ∀ i : Int, (Json.int i).readBack = Json.int i :=
    fun i => by rw [Json.int, Json.readBack]
  simp only [Json.stringField_omitEmpty, faultField_toJson, Option.map_some,
    timeField_marshalTime ht, hint, Json.intField_int e.fits.1,
    Json.intField_int e.fits.2, Option.bind_eq_bind, Option.bind_some, dif_pos e.fits]
  rfl

theorem CapturedEvent.intNums_toJson {j : Json} (h : e.toJson lo = some j) : j.IntNums := by
  obtain ⟨_, _, rfl⟩ := Option.map_eq_some_iff.1 h
  apply Json.intNumsMembers_members
  have ho := Json.intNums_omitEmpty
  simpa [slots, Json.IntNums, FaultSignal.intNums_toJson] using
    And.intro (ho e.eventID) ⟨ho e.gpuUUID, ho e.pciAddr, ho e.raw⟩

section

variable (ms : List (Str × Json))
include ms

theorem getLast?_printMembers : (Json.printMembers ms).getLast? = some 0x7D := by
  induction ms with
  | nil => rfl
  | cons m _ ih =>
    rw [Json.printMembers]
    simp [List.getLast?_cons, List.getLast?_append, ih]

theorem getLast?_print_obj : (Json.print (.obj ms)).getLast? = some 0x7D := by
  cases ms with
  | nil => rfl
  | cons m =>
    rw [Json.print]
    simp [List.getLast?_cons, List.getLast?_append, getLast?_printMembers]

theorem length_membersLength_le : Json.membersLength ms ≤ (Json.print (.obj ms)).length := by
  cases ms with
  | nil => exact Nat.zero_le _
  | cons =>
    rw [Json.length_print_obj]
    omega

end

theorem length_fault_readBack (f : FaultSignal) :
    f.readBack.toJson.print.length ≤ f.toJson.print.length := by
  apply Json.length_print_obj_le
  apply Json.membersLength_members_le
  exact .cons (Json.slotLength_str _ _) (.cons (Json.slotLength_str _ _)
    (.cons (Json.slotLength_str _ _) (.cons (StrMap.slotLength_readBack _ _) .nil)))

theorem CapturedEvent.slots_readBack (e : CapturedEvent) {text text' : Str}
    (ht : (quote text').length ≤ (quote text).length) :
    List.Forall₂ (fun f g => Json.slotLength f ≤ Json.slotLength g)
      ((e.readBack lo lo').slots text') (e.slots text) := by
  have hfault : Json.slotLength (lit "fault",
      (e.fault.map FaultSignal.readBack).map FaultSignal.toJson) ≤
      Json.slotLength (lit "fault", e.fault.map FaultSignal.toJson) := by
    cases e.fault with
    | none => exact Nat.le_refl _
    | some f => exact Json.slotLength_some (length_fault_readBack f)
  have hm : Json.slotLength (lit "timestamp", some (.str text')) ≤
      Json.slotLength (lit "timestamp", some (.str text)) := Json.slotLength_some ht
  exact .cons (Json.slotLength_omitEmpty _ _) (.cons (Json.slotLength_str _ _)
    (.cons (Nat.le_refl _) (.cons (Json.slotLength_omitEmpty _ _)
      (.cons (Json.slotLength_omitEmpty _ _) (.cons (Nat.le_refl _) (.cons hfault
        (.cons (Json.slotLength_omitEmpty _ _) (.cons hm .nil))))))))

/-- **The line of an event.** It has no line end and no carriage return at its end, it reads back as
the event with its stray bytes replaced, and that prints a line again, which is no longer. -/
theorem decodeEvent_encodeEvent (h : encodeEvent lo e = some line) (lo' : Int → Int) :
    (0x0A : UInt8) ∉ line ∧ line.getLast? = some 0x7D ∧
      decodeEvent lo' line = some (e.readBack lo lo') ∧
      ∃ line', encodeEvent lo' (e.readBack lo lo') = some line' ∧ line'.length ≤ line.length := by
  obtain ⟨j, hj, rfl⟩ := Option.map_eq_some_iff.1 h
  have hnums := CapturedEvent.intNums_toJson hj
  refine ⟨Json.newline_not_mem_print j hnums, ?_, ?_, ?_⟩
  · obtain ⟨_, -, rfl⟩ := Option.map_eq_some_iff.1 hj
    exact getLast?_print_obj _
  · rw [decodeEvent, Json.parseJson_print j hnums, Option.bind_some, CapturedEvent.ofJson_toJson hj]
  obtain ⟨timestamp, ht, rfl⟩ := Option.map_eq_some_iff.1 hj
  obtain ⟨timestamp', ht', hl⟩ :
      ∃ text', marshalTime lo' (readTime lo lo' 0 e.timestamp) = some text' ∧
        (quote text').length ≤ (quote timestamp).length :=
    marshalTime_readTime_length ht
  refine ⟨(Json.obj (Json.members ((e.readBack lo lo').slots timestamp'))).print, ?_, ?_⟩
  · rw [encodeEvent, CapturedEvent.toJson]
    simp only [CapturedEvent.readBack, ht', Option.map_some]
  · apply Json.length_print_obj_le
    apply Json.membersLength_members_le
    exact e.slots_readBack hl

theorem length_raw_le (h : encodeEvent lo e = some line) (hascii : ∀ b ∈ e.raw, b < 0x80) :
    e.raw.length ≤ line.length := by
  obtain ⟨_, hj, rfl⟩ := Option.map_eq_some_iff.1 h
  obtain ⟨timestamp, -, rfl⟩ := Option.map_eq_some_iff.1 hj
  have hquote := length_units_le_quote e.raw
  rw [units_ascii hascii, List.length_map] at hquote
  have hs : (quote e.raw).length ≤ Json.slotLength (lit "raw", Json.omitEmpty e.raw) ∨
      e.raw = [] := by
    by_cases hr : e.raw = []
    · exact .inr hr
    rw [Json.omitEmpty, if_neg hr]
    simp only [Json.slotLength, Json.memberLength, Option.elim_some, Json.print]
    omega
  rcases hs with hs | hr
  · have hsum : Json.slotLength (lit "raw", Json.omitEmpty e.raw) ≤
        Json.membersLength (Json.members (e.slots timestamp)) := by
      simp only [CapturedEvent.slots, Json.membersLength_members]
      omega
    have hobj := length_membersLength_le (Json.members (e.slots timestamp))
    omega
  · rw [hr]
    exact Nat.zero_le _

end KubeNeuron.Agent
