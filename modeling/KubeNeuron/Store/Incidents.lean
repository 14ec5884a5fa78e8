import KubeNeuron.Lib.Table
import KubeNeuron.Store.Tables

/-!
# Statements over incidents

`createIncident`, `updateIncident`, the layered lookup `getOpenIncident` and the one statement that
changes the target of an incident, `promoteIncidentTarget`. A write is refused by the database when
the table would break its primary key or one of the two partial unique indexes over open incidents,
and the updates are guarded by the version the caller read.
-/

namespace KubeNeuron.Store

open Lib KubeNeuron.Types

/-- Two open rows that the unique indexes do not allow together: attributed rows share node, UUID
and class, unattributed rows share node, address and class. -/
def indexClash (a b : Incident) : Bool :=
  !a.state.terminal && !b.state.terminal && a.target.node = b.target.node && a.cls = b.cls &&
    ((a.target.gpuUUID ≠ [] && a.target.gpuUUID = b.target.gpuUUID) ||
      (a.target.gpuUUID = [] && b.target.gpuUUID = [] && a.target.pciAddr = b.target.pciAddr))

/-- Whether the row may stand beside the others: no other row has its ID or clashes with it. -/
def admits (incidents : List Incident) (inc : Incident) : Bool :=
  !(incidents.any fun other => other.id ≠ inc.id && indexClash other inc)

/-- How a guarded write fails. -/
inductive WriteError where
  | notFound
  | conflict
  | constraint

/-- `INSERT INTO incidents`. -/
def insertIncident (row : Incident) (db : Database) : Except WriteError Database :=
  if (db.incidents.any fun other => other.id = row.id) || !admits db.incidents row then
    .error .constraint
  else .ok { db with incidents := db.incidents ++ [row] }

/-- `CreateIncident`. The bus address is stored in its one spelling. -/
def createIncident (lower : Str → Str) (inc : Incident) (db : Database) :
    Except WriteError Database :=
  insertIncident
    { inc with
      target := { inc.target with pciAddr := normalizePCIAddress lower inc.target.pciAddr }
      stateChangedAt :=
        if inc.stateChangedAt = GoTime.zeroNs then inc.openedAt else inc.stateChangedAt
      resolvedAt := none } db

/-- The columns `UpdateIncident` writes; target, class and opening time stay, and the version goes
up by one. -/
def writeIncident (inc : Incident) (row : Incident) : Incident :=
  { inc with
    target := row.target
    cls := row.cls
    openedAt := row.openedAt
    version := row.version + 1 }

/-- The guard of an update: the row of the ID at the version the caller read. -/
def versioned (inc : Incident) (row : Incident) : Bool :=
  row.id = inc.id && row.version = inc.version

/-- `UpdateIncident`: the row must still have the version the caller read. -/
def updateIncident (inc : Incident) (db : Database) : Except WriteError Database :=
  match db.incidents.find? fun row => row.id = inc.id with
  | none => .error .notFound
  | some row =>
    if row.version ≠ inc.version then .error .conflict
    else if !admits db.incidents (writeIncident inc row) then .error .constraint
    else
      .ok { db with
        incidents := updateWhere (versioned inc) (writeIncident inc) db.incidents }

/-! ## Open incidents -/

/-- The incident that has been open longest among those that match. -/
def openIncident (matching : Incident → Bool) (db : Database) : Option Incident :=
  firstBy (fun a b => ts a.openedAt < ts b.openedAt)
    (db.incidents.filter fun inc => matching inc && !inc.state.terminal)

/-- `GetOpenIncident`. A UUID is matched first, then the bus address: for a precise signal only
against incidents without a UUID, which it can promote, and for an unattributed one against every
incident of the address. Last come the incidents that name no device. -/
def getOpenIncident (lower : Str → Str) (target : Target) (cls : Str)
    (db : Database) : Option Incident :=
  let pci := normalizePCIAddress lower target.pciAddr
  let ofNode (inc : Incident) : Bool := inc.target.node = target.node && inc.cls = cls
  let nodeScoped (inc : Incident) : Bool :=
    ofNode inc && inc.target.gpuUUID = [] && inc.target.pciAddr = []
  if target.gpuUUID ≠ [] then
    (openIncident (fun inc => ofNode inc && inc.target.gpuUUID = target.gpuUUID) db).or
      (if pci = [] then none
      else
        openIncident
          (fun inc => ofNode inc && inc.target.gpuUUID = [] && inc.target.pciAddr = pci) db)
  else if pci ≠ [] then
    (openIncident (fun inc => ofNode inc && inc.target.pciAddr = pci) db).or
      (openIncident nodeScoped db)
  else openIncident nodeScoped db

/-- How a promotion fails before or in its statement. -/
inductive PromoteError where
  | needsUUID
  | movesNode
  | needsPCIAddr
  | write (e : WriteError)

/-- The rows a promotion may change. -/
def promotable (inc : Incident) (matchedPCI : Str) (row : Incident) : Bool :=
  row.id = inc.id && row.version = inc.version && row.target.gpuUUID = [] &&
    row.target.pciAddr = matchedPCI && !row.state.terminal

/-- The target and time a promotion writes into a row, or into the caller's copy. -/
def promoted (dest : Target) (now : Int) (row : Incident) : Incident :=
  { row with
    target := { row.target with gpuUUID := dest.gpuUUID, gpuIndex := dest.gpuIndex }
    updatedAt := now
    version := row.version + 1 }

/-- `PromoteIncidentTarget`. The caller's copy is returned with the new target and version. -/
def promoteIncidentTarget (lower : Str → Str) (inc : Incident) (dest : Target)
    (now : Nat) (db : Database) : Except PromoteError (Incident × Database) :=
  let matchedPCI := normalizePCIAddress lower inc.target.pciAddr
  if dest.gpuUUID = [] then .error .needsUUID
  else if dest.node ≠ inc.target.node then .error .movesNode
  else if matchedPCI = [] then .error .needsPCIAddr
  else
    match db.incidents.find? (promotable inc matchedPCI) with
    | some row =>
      if !admits db.incidents (promoted dest now row) then .error (.write .constraint)
      else
        .ok (promoted dest now inc,
          { db with
            incidents :=
              updateWhere (promotable inc matchedPCI) (promoted dest now) db.incidents })
    | none =>
      if db.incidents.any fun row => row.id = inc.id then .error (.write .conflict)
      else .error (.write .notFound)

/-! ## What the writes do -/

variable {db db' : Database} {inc : Incident}

theorem insertIncident_spec {row : Incident} (h : insertIncident row db = .ok db') :
    (∀ other ∈ db.incidents, other.id ≠ row.id) ∧
      db' = { db with incidents := db.incidents ++ [row] } := by
  rw [insertIncident] at h
  split_ifs at h with hc
  simp only [Bool.or_eq_true, not_or, List.any_eq_true, decide_eq_true_eq, not_exists,
    not_and] at hc
  exact ⟨hc.1, (Except.ok.inj h).symm⟩

theorem updateIncident_spec (h : updateIncident inc db = .ok db') :
    (∃ row, db.incidents.find? (fun row => row.id = inc.id) = some row ∧
        row.version = inc.version) ∧
      db' = { db with
        incidents := updateWhere (versioned inc) (writeIncident inc) db.incidents } := by
  revert h
  fun_cases updateIncident inc db with
  | case4 row hf hv =>
    rintro ⟨⟩
    exact ⟨⟨row, hf, Decidable.not_not.1 hv⟩, rfl⟩
  | _ => rintro ⟨⟩

theorem promoteIncidentTarget_spec {lower : Str → Str} {inc' : Incident}
    {dest : Target} {now : Nat}
    (h : promoteIncidentTarget lower inc dest now db = .ok (inc', db')) :
    (dest.gpuUUID ≠ [] ∧ normalizePCIAddress lower inc.target.pciAddr ≠ [] ∧
      ∃ row, db.incidents.find?
        (promotable inc (normalizePCIAddress lower inc.target.pciAddr)) = some row) ∧
    inc' = promoted dest now inc ∧
      db' = { db with
        incidents := updateWhere (promotable inc (normalizePCIAddress lower inc.target.pciAddr))
          (promoted dest now) db.incidents } := by
  revert h
  fun_cases promoteIncidentTarget lower inc dest now db with
  | case5 _ hu _ hpci row hf =>
    rintro ⟨⟩
    exact ⟨⟨hu, hpci, row, hf⟩, rfl, rfl⟩
  | _ => rintro ⟨⟩

def seenSignals (incidents : List Incident) : List (Str × Int) :=
  incidents.map fun inc => (inc.id, inc.signalSeen)

theorem mem_seenSignals {incidents : List Incident} (h : inc ∈ incidents) :
    (inc.id, inc.signalSeen) ∈ seenSignals incidents :=
  List.mem_map_of_mem h

theorem map_fst_seenSignals (incidents : List Incident) :
    (seenSignals incidents).map Prod.fst = incidents.map (·.id) := by
  simp [seenSignals]

/-- Counting one more signal for one incident. -/
def countSignal (id : Str) (seen : List (Str × Int)) : List (Str × Int) :=
  seen.map fun e => if e.1 = id then (e.1, e.2 + 1) else e

theorem map_fst_countSignal (id : Str) (seen : List (Str × Int)) :
    (countSignal id seen).map Prod.fst = seen.map Prod.fst := by
  rw [countSignal, List.map_map]
  refine List.map_congr_left fun e _ => ?_
  by_cases he : e.1 = id
  · simp [he]
  · simp [he]

theorem seenSignals_updateIncident (hi : (db.incidents.map (·.id)).Nodup)
    (h : updateIncident inc db = .ok db') {n : Int} (hn : (inc.id, n) ∈ seenSignals db.incidents) :
    ∃ incidents, db' = { db with incidents } ∧
      seenSignals incidents = (seenSignals db.incidents).map fun e =>
        if e.1 = inc.id then (e.1, e.2 + (inc.signalSeen - n)) else e := by
  obtain ⟨⟨row, hf, hv⟩, rfl⟩ := updateIncident_spec h
  obtain ⟨s, hs, heq⟩ := List.mem_map.1 hn
  obtain ⟨hsid, rfl⟩ := Prod.mk.inj heq
  refine ⟨_, rfl, ?_⟩
  rw [seenSignals, seenSignals, updateWhere, List.map_map, List.map_map]
  refine List.map_congr_left fun r hr => ?_
  by_cases hr' : r.id = inc.id
  · -- the row of the ID is the one the guard matched
    obtain rfl := eq_of_key_eq hi hr hs (hr'.trans hsid.symm)
    have hid : row.id = inc.id := by simpa using List.find?_some hf
    have hg : versioned inc r = true := by
      rw [eq_of_key_eq hi hr (List.mem_of_find?_eq_some hf) (hr'.trans hid.symm)]
      simp [versioned, hid, hv]
    simp only [Function.comp_apply, hg, if_true, hr', writeIncident, Prod.mk.injEq, true_and]
    omega
  · have hg : versioned inc r = false := by simp [versioned, hr']
    simp [hg, hr']

end KubeNeuron.Store
