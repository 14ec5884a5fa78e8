import KubeNeuron.Lib.Text
import KubeNeuron.Types.Action
import KubeNeuron.Types.Incident

/-!
# Agent events and signals

An `AgentEvent` is what an agent captured; a `Signal` is what a catalog makes of it. The fault
envelope of an event is archived as JSON, which reads back (`FaultSignal.ofJson_toJson`).
-/

namespace KubeNeuron.Types

open Lib

/-! ## Events -/

/-- A fault described without an XID. -/
structure FaultSignal where
  vendor : Str
  source : Str
  code : Str
  attributes : StrMap
  deriving DecidableEq

/-- An event as the agent sent it. The timestamp is its instant: the archive keeps no more. -/
structure AgentEvent where
  eventID : Str
  node : Str
  gpuIndex : Int
  gpuUUID : Str
  pciAddr : Str
  xid : Int
  fault : Option FaultSignal
  raw : Str
  timestamp : Int

namespace FaultSignal

/-- The fields of a fault as members. -/
def slots (f : FaultSignal) : List (Str × Option Json) :=
  [(lit "vendor", some (.str f.vendor)), (lit "source", some (.str f.source)),
    (lit "code", some (.str f.code)), (lit "attributes", f.attributes.omitEmpty)]

def toJson (f : FaultSignal) : Json := .obj (Json.members f.slots)

def ofJson : Json → Option FaultSignal
  | .null => some ⟨[], [], [], StrMap.empty⟩
  | .obj ms => do
      let vendor ← Json.stringField (Json.get ms (lit "vendor"))
      let source ← Json.stringField (Json.get ms (lit "source"))
      let code ← Json.stringField (Json.get ms (lit "code"))
      let attributes ← StrMap.field (Json.get ms (lit "attributes"))
      some ⟨vendor, source, code, attributes⟩
  | _ => none

def readBack (f : FaultSignal) : FaultSignal :=
  ⟨toValid f.vendor, toValid f.source, toValid f.code, f.attributes.readBack⟩

theorem ofJson_toJson (f : FaultSignal) : ofJson f.toJson.readBack = some f.readBack := by
  have hk : Json.RecordKeys (f.slots.map Prod.fst) := by
    simp only [slots, List.map_cons, List.map_nil]
    decide
  have hg : ∀ {k v}, (k, v) ∈ f.slots →
      Json.get (Json.readBackMembers (Json.members f.slots)) k = v.map Json.readBack :=
    Json.get_readBackMembers hk
  rw [toJson, Json.readBack, ofJson, hg (v := some (.str f.vendor)) (by simp [slots]),
    hg (v := some (.str f.source)) (by simp [slots]),
    hg (v := some (.str f.code)) (by simp [slots]),
    hg (v := f.attributes.omitEmpty) (by simp [slots]), StrMap.field_omitEmpty]
  simp [Json.readBack, Json.stringField, readBack]

theorem intNums_toJson (f : FaultSignal) : f.toJson.IntNums := by
  apply Json.intNumsMembers_members
  simpa [slots, Json.IntNums] using StrMap.intNums_omitEmpty f.attributes

end FaultSignal

/-- The text a fault envelope is archived as; an event without one archives the empty text. -/
def faultText : Option FaultSignal → Str
  | none => []
  | some f => f.toJson.print

/-- Read an archived envelope. -/
def readFault (text : Str) : Option (Option FaultSignal) :=
  if text = [] then some none else ((Json.parseJson text).bind FaultSignal.ofJson).map some

/-! ## Signals -/

/-- A normalized observation about a target. -/
structure Signal where
  target : Target
  cls : Str
  evidence : StrMap
  deriving DecidableEq

/-- The vendor the signal names, empty when it names none. -/
def Signal.vendor (sig : Signal) : Str := sig.evidence.get (lit "vendor")

/-- A vendor the report protocol supports. -/
def vendorValid (vendor : Str) : Bool :=
  [lit "nvidia", lit "amd", lit "intel", lit "google"].contains vendor

/-! ## Bus addresses -/

/-- The one spelling of a PCI address: lower case, four domain digits, no function. An address that
cannot be parsed is only trimmed and lower-cased. -/
def normalizePCIAddress (lower : Str → Str) (addr : Str) : Str :=
  let a := toLower lower (trimSpace addr)
  if a = [] then []
  else
    let a := beforeLast 0x2E a
    let parts := splitOn 0x3A a
    match if parts.length = 2 then lit "0000" :: parts else parts with
    | [domain, bus, device] =>
      let domain := domain.dropWhile (· = 0x30)
      if domain.length > 4 then a
      else
        List.replicate (4 - domain.length) 0x30 ++ domain ++ lit ":" ++ bus ++ lit ":" ++ device
    | _ => a

/-- Four digits are what they are after their leading zeros are cut off and filled up again. -/
theorem fill_domain {domain : Str} (hlen : domain.length = 4) :
    (domain.dropWhile (· = 0x30)).length ≤ 4 ∧
      List.replicate (4 - (domain.dropWhile (· = 0x30)).length) 0x30 ++
        domain.dropWhile (· = 0x30) =
        domain := by
  have hsplit := domain.takeWhile_append_dropWhile (p := (· = 0x30))
  have hlength := congrArg List.length hsplit
  have hzeros := List.eq_replicate_iff.2 ⟨rfl, fun b hb =>
    of_decide_eq_true (List.mem_takeWhile_imp (l := domain) (p := (· = 0x30)) hb)⟩
  rw [List.length_append, hlen] at hlength
  refine ⟨by omega, ?_⟩
  rw [show 4 - _ = (domain.takeWhile (· = 0x30)).length by omega, ← hzeros, hsplit]

/-- **The spellings of one address.** A padded domain, either case, blanks around the address and a
function after it make no difference. -/
theorem normalizePCIAddress_spelling {lower : Str → Str}
    {addr domain bus device function : Str} {zeros : Nat} (hlen : domain.length = 4)
    (hplain : ∀ part ∈ [domain, bus, device], 0x3A ∉ part ∧ 0x2E ∉ part)
    (hfunction : function = [] ∨ ∃ digits, 0x2E ∉ digits ∧ function = 0x2E :: digits)
    (haddr : toLower lower (trimSpace addr) =
      [0x3A].intercalate [List.replicate zeros 0x30 ++ domain, bus, device] ++ function) :
    normalizePCIAddress lower addr = [0x3A].intercalate [domain, bus, device] := by
  have hparts : ∀ part ∈ [List.replicate zeros 0x30 ++ domain, bus, device],
      0x3A ∉ part ∧ 0x2E ∉ part := by
    simp_all
  have hundotted : 0x2E ∉ [0x3A].intercalate [List.replicate zeros 0x30 ++ domain, bus,
      device] := by
    simp_all [List.intercalate]
  have hcut : beforeLast 0x2E (toLower lower (trimSpace addr)) =
      [0x3A].intercalate [List.replicate zeros 0x30 ++ domain, bus, device] := by
    rw [haddr]
    obtain rfl | ⟨digits, hdigits, rfl⟩ := hfunction
    · rw [List.append_nil, beforeLast, if_neg (by simpa using hundotted)]
    · exact (cut_append hdigits).2
  have hsplit := List.splitOn_intercalate _ (fun part hpart => (hparts part hpart).1)
    (List.cons_ne_nil _ _)
  obtain ⟨hle, hfill⟩ := fill_domain hlen
  rw [normalizePCIAddress, if_neg (by simp [haddr, List.intercalate])]
  simp only [hcut, splitOn_eq, hsplit, List.length_cons, List.length_nil, Nat.reduceAdd,
    Nat.reduceEqDiff, if_false]
  rw [List.dropWhile_append_of_pos (by simp), if_neg (Nat.not_lt.2 hle), hfill]
  simp [List.intercalate, show lit ":" = [0x3A] by decide]

/-- The spellings of one address by the kernel log and by the vendor tool. -/
example : normalizePCIAddress id (lit "00000000:3B:00.0") = lit "0000:3b:00" := by decide +kernel

end KubeNeuron.Types
