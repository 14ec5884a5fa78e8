import KubeNeuron.Store.Incidents
import KubeNeuron.Store.ActionQueue

/-!
# Approvals, audit and nodes

The tables the incident walk reads and writes beside the incidents and the action queue, gathered
with the database in one `Records`, and what the incident statements do to the row of one ID. Every
later argument about incidents goes through `getIncident`, so the lemmas below say for each writing
statement which row `getIncident` finds afterwards.
-/

namespace KubeNeuron.Store

open Lib KubeNeuron.Types

variable {id : Str} {db db' : Database} {row : Incident}

/-! ## Tables -/

/-- A human decision on a pending approval, or the record of what was asked. -/
inductive ApprovalDecision where
  | requested
  | approved
  | rejected
  deriving DecidableEq

/-- A row of the approvals table. `parkEpoch` is the round the row belongs to. -/
structure Approval where
  incidentID : Str
  stepName : Str
  decision : ApprovalDecision
  actor : Str
  channel : Str
  recordedAt : Int
  playbookName : Str
  stepAction : Str
  stepHash : Str
  parkEpoch : Int

/-- A row of the audit log. -/
structure AuditEntry where
  incidentID : Str
  time : Int
  fromState : IncidentState
  toState : IncidentState
  actor : Str
  action : Str
  params : StrMap
  result : Str
  dryRun : Bool

/-- The columns of a node that the walk and the dispatcher read. -/
structure NodeRow where
  name : Str
  bootID : Str
  paused : Bool

/-- The store as the controller uses it. Approvals and audit rows are listed in the order they were
inserted. -/
structure Records where
  db : Database
  approvals : List Approval
  audit : List AuditEntry
  nodes : List NodeRow

/-- The store before anything was written. -/
def Records.empty : Records := ⟨Database.empty, [], [], []⟩

/-! ## Approvals -/

def recordApproval (a : Approval) (r : Records) : Records := { r with
    approvals := r.approvals ++ [a] }

/-- The rows of one approval round, newest first. -/
def approvalRound (incidentID : Str) (epoch : Int) (approvals : List Approval) :
    List Approval :=
  (approvals.filter fun a => a.incidentID = incidentID && a.parkEpoch = epoch).reverse

/-- `GetApprovalRequest`: the newest request of a round. -/
def getApprovalRequest (incidentID : Str) (epoch : Int) (approvals : List Approval) :
    Option Approval :=
  (approvalRound incidentID epoch approvals).find? fun a => a.decision = .requested

/-- `LatestApprovalDecision`: the newest human decision of a round. -/
def latestApprovalDecision (incidentID : Str) (epoch : Int) (approvals : List Approval) :
    Option Approval :=
  (approvalRound incidentID epoch approvals).find? fun a => a.decision ≠ .requested

variable {incidentID : Str} {approvals : List Approval} {row' : Incident}

theorem getApprovalRequest_spec {epoch : Int}
    {a : Approval} (h : getApprovalRequest incidentID epoch approvals = some a) :
    a ∈ approvals ∧ a.incidentID = incidentID ∧ a.parkEpoch = epoch ∧ a.decision = .requested := by
  have hround : a ∈ approvals ∧ a.incidentID = incidentID ∧ a.parkEpoch = epoch := by
    simpa [approvalRound] using List.mem_of_find?_eq_some h
  exact ⟨hround.1, hround.2.1, hround.2.2, by simpa using List.find?_some h⟩

/-! ## Nodes -/

def getNode (name : Str) (r : Records) : Option NodeRow := r.nodes.find? fun n => n.name = name

def nodeIsPaused (name : Str) (r : Records) : Bool := (getNode name r).any NodeRow.paused

/-- Pause a node, inserting a row for a node without one. -/
def pauseNode (nodes : List NodeRow) (name : Str) : List NodeRow :=
  if nodes.any fun n => n.name = name then
    updateWhere (fun n => n.name = name) (fun n => { n with paused := true }) nodes
  else nodes ++ [⟨name, [], true⟩]

/-- `ApplyNodeConfigPauses`: the listed nodes become the complete pause set. -/
def applyNodeConfigPauses (paused : List Str) (r : Records) : Records :=
  { r with
    nodes := paused.foldl pauseNode
      (updateWhere NodeRow.paused (fun n => { n with paused := false }) r.nodes) }

theorem nodeIsPaused_applyNodeConfigPauses {name : Str} {paused : List Str} (r : Records)
    (h : name ∉ paused) : nodeIsPaused name (applyNodeConfigPauses paused r) = false := by
  -- no row of the name is paused, first by the reset and then by the rows it leaves alone
  have hfold : ∀ nodes, (∀ n ∈ nodes, n.name = name → n.paused = false) →
      ∀ n ∈ paused.foldl pauseNode nodes, n.name = name → n.paused = false := by
    induction paused with
    | nil => exact fun nodes hd => hd
    | cons other _ ih =>
      intro nodes hd
      simp only [List.mem_cons, not_or] at h
      refine ih h.2 (pauseNode nodes other) fun n hn hname => ?_
      rw [pauseNode] at hn
      split_ifs at hn
      · obtain ⟨m, hm, rfl⟩ := List.mem_map.1 hn
        split_ifs at hname ⊢ with ho
        · exact absurd (hname.symm.trans (by simpa using ho)) h.1
        · exact hd m hm hname
      rcases List.mem_append.1 hn with hn | hn
      · exact hd n hn hname
      · obtain rfl := List.mem_singleton.1 hn
        exact absurd hname.symm h.1
  have hreset : ∀ n ∈ updateWhere NodeRow.paused (fun n => { n with paused := false }) r.nodes,
      n.name = name → n.paused = false := by
    intro n hn _
    obtain ⟨_, -, rfl⟩ := List.mem_map.1 hn
    split_ifs with hpau
    · rfl
    · simpa using hpau
  rw [nodeIsPaused, Option.any_eq_false]
  intro n hn
  have hname : n.name = name := by simpa using List.find?_some hn
  simpa using hfold _ hreset n (List.mem_of_find?_eq_some hn) hname

/-! ## The row of an incident -/

def getIncident (id : Str) (db : Database) : Option Incident :=
  db.incidents.find? fun row => row.id = id

theorem getIncident_id (h : getIncident id db = some row) : row.id = id := by
  simpa using List.find?_some h

theorem getIncident_mem (h : getIncident id db = some row) : row ∈ db.incidents :=
  List.mem_of_find?_eq_some h

theorem getIncident_of_mem (hi : (db.incidents.map (·.id)).Nodup)
    (h : row ∈ db.incidents) : getIncident row.id db = some row :=
  find?_of_key hi h (decide_eq_true rfl) fun _ => of_decide_eq_true

/-- The database holds the same incidents, except that the row of one ID was replaced. Everything
but the incidents is untouched. -/
structure Replaced (db db' : Database) (row row' : Incident) : Prop where
  found : getIncident row.id db = some row
  written : getIncident row.id db' = some row'
  sameID : row'.id = row.id
  others : ∀ id, id ≠ row.id → getIncident id db' = getIncident id db
  ids : db'.incidents.map (·.id) = db.incidents.map (·.id)
  rest : db' = { db with incidents := db'.incidents }

section

variable (h : Replaced db db' row row')
include h

theorem Replaced.trans {db'' : Database} {row'' : Incident} (h' : Replaced db' db'' row' row'') :
    Replaced db db'' row row'' where
  found := h.found
  written := h.sameID ▸ h'.written
  sameID := h'.sameID.trans h.sameID
  others := fun id hne => (h'.others id (h.sameID.symm ▸ hne)).trans (h.others id hne)
  ids := h'.ids.trans h.ids
  rest := by
    rw [h'.rest, h.rest]

theorem Replaced.cases {found : Incident} (hf : getIncident id db' = some found) :
    (id = row.id ∧ found = row') ∨ (id ≠ row.id ∧ getIncident id db = some found) := by
  by_cases hid : id = row.id
  · subst hid
    exact .inl ⟨rfl, Option.some.inj (hf.symm.trans h.written)⟩
  · exact .inr ⟨hid, (h.others id hid).symm.trans hf⟩

/-- A row of before is there still, unless it is the one that was replaced. -/
theorem Replaced.forward {P : Incident → Prop} {found : Incident}
    (hf : getIncident id db = some found)
    (hp : P found) (hr : row = found → P row') : ∃ r, getIncident id db' = some r ∧ P r := by
  by_cases hid : id = row.id
  · subst hid
    exact ⟨row', h.written, hr (Option.some.inj (h.found.symm.trans hf))⟩
  · exact ⟨found, (h.others id hid).trans hf, hp⟩

theorem Replaced.split (hi : (db.incidents.map (·.id)).Nodup) :
    ∃ before after, db.incidents = before ++ row :: after ∧
      db'.incidents = before ++ row' :: after := by
  have hmap : db'.incidents = db.incidents.map fun r => if r.id = row.id then row' else r := by
    refine eq_map_of_find? (·.id) hi h.ids fun id hid => ?_
    show getIncident id db' = (getIncident id db).map _
    obtain ⟨r, hr, rfl⟩ := List.mem_map.1 hid
    have hs := getIncident_of_mem hi hr
    rw [hs, Option.map_some]
    by_cases heq : r.id = row.id
    · rw [if_pos heq, heq]
      exact h.written
    · rw [if_neg heq, h.others r.id heq]
      exact hs
  obtain ⟨before, after, hl⟩ := List.append_of_mem (getIncident_mem h.found)
  refine ⟨before, after, hl, ?_⟩
  rw [hl, List.map_append, List.map_cons, List.nodup_middle] at hi
  have ho := (List.nodup_cons.1 hi).1
  rw [hmap, hl, List.map_append, List.map_cons, if_pos rfl]
  -- no other row has the ID
  have hkeep : ∀ {rows : List Incident}, rows ⊆ before ++ after →
      rows.map (fun r => if r.id = row.id then row' else r) = rows := by
    intro rows hb
    refine (List.map_congr_left fun r hr => if_neg fun heq => ho ?_).trans (List.map_id _)
    rw [← List.map_append, ← heq]
    exact List.mem_map_of_mem (hb hr)
  rw [hkeep (List.subset_append_left _ _), hkeep (List.subset_append_right _ _)]

end

theorem replaced_updateWhere {p : Incident → Bool} {f : Incident → Incident}
    (hw : getIncident row.id db = some row) (hp : p row = true)
    (hid : ∀ r, p r = true → r.id = row.id) (hf : ∀ r, p r = true → (f r).id = r.id) :
    Replaced db { db with incidents := updateWhere p f db.incidents } row (f row) where
  found := hw
  written := by
    rw [getIncident] at hw
    rw [getIncident, find?_updateWhere _ hf, hw, Option.map_some, if_pos hp]
  sameID := hf row hp
  others := by
    intro id hne
    rw [getIncident, find?_updateWhere _ hf]
    cases ho : db.incidents.find? fun r => r.id = id with
    | none => simp [getIncident, ho]
    | some other =>
      have hg : p other = false := by
        refine Bool.eq_false_iff.2 fun hpo => hne ?_
        exact (getIncident_id ho).symm.trans (hid other hpo)
      simp [getIncident, ho, hg]
  ids := by
    rw [updateWhere, List.map_map]
    refine List.map_congr_left fun r _ => ?_
    by_cases hr : p r = true
    · simp [hr, hf r hr]
    · simp [hr]
  rest := rfl

/-- **An update** replaces the row of its ID, which had the version the caller read. -/
theorem updateIncident_replaced {inc : Incident} (h : updateIncident inc db = .ok db') :
    ∃ row, row.id = inc.id ∧ row.version = inc.version ∧
      Replaced db db' row (writeIncident inc row) := by
  obtain ⟨⟨row, hf, hv⟩, rfl⟩ := updateIncident_spec h
  have hid : row.id = inc.id := getIncident_id hf
  have hm : ∀ r, versioned inc r = true → r.id = row.id := by
    intro r hr
    simp only [versioned, Bool.and_eq_true, decide_eq_true_eq] at hr
    exact hr.1.trans hid.symm
  refine ⟨row, hid, hv, replaced_updateWhere (hid ▸ hf) ?_ hm ?_⟩
  · simp [versioned, hid, hv]
  · intro r hr
    exact hid.symm.trans (hm r hr).symm

/-- With distinct IDs, **a promotion** replaces the row of its ID, which had the version the caller
read and named no device. -/
theorem promoteIncidentTarget_replaced {lower : Str → Str} {inc inc' : Incident}
    {dest : Target} {now : Nat} (hi : (db.incidents.map (·.id)).Nodup)
    (h : promoteIncidentTarget lower inc dest now db = .ok (inc', db')) :
    inc' = promoted dest now inc ∧ dest.gpuUUID ≠ [] ∧
      ∃ row, row.id = inc.id ∧ row.version = inc.version ∧ row.target.gpuUUID = [] ∧
        row.target.pciAddr ≠ [] ∧ Replaced db db' row (promoted dest now row) := by
  obtain ⟨⟨hu, hpci, row, hf⟩, hc, rfl⟩ := promoteIncidentTarget_spec h
  have hm := List.find?_some hf
  have hg : ∀ r, promotable inc (normalizePCIAddress lower inc.target.pciAddr) r = true →
      r.id = inc.id ∧ r.version = inc.version ∧ r.target.gpuUUID = [] ∧
        r.target.pciAddr = normalizePCIAddress lower inc.target.pciAddr := by
    intro r hr
    simp only [promotable, Bool.and_eq_true, decide_eq_true_eq] at hr
    exact ⟨hr.1.1.1.1, hr.1.1.1.2, hr.1.1.2, hr.1.2⟩
  obtain ⟨hid, hv, he, ha⟩ := hg row hm
  have hw := getIncident_of_mem hi (List.mem_of_find?_eq_some hf)
  refine ⟨hc, hu, row, hid, hv, he, ha.symm ▸ hpci, replaced_updateWhere hw hm ?_ fun _ _ => rfl⟩
  exact fun r hr => (hg r hr).1.trans hid.symm

/-- The database holds one incident more. -/
structure Added (db db' : Database) (row : Incident) : Prop where
  missing : getIncident row.id db = none
  written : getIncident row.id db' = some row
  others : ∀ id, id ≠ row.id → getIncident id db' = getIncident id db
  ids : db'.incidents.map (·.id) = db.incidents.map (·.id) ++ [row.id]
  rest : db' = { db with incidents := db'.incidents }

/-- **An insertion** adds the row of a new ID. -/
theorem insertIncident_added (h : insertIncident row db = .ok db') : Added db db' row := by
  obtain ⟨hw, rfl⟩ := insertIncident_spec h
  have hn : getIncident row.id db = none := by
    refine List.find?_eq_none.2 fun r hr => ?_
    simpa using hw r hr
  refine ⟨hn, ?_, fun id hne => ?_, by simp, rfl⟩
  · rw [getIncident] at hn
    simp [getIncident, List.find?_append, hn]
  · simp [getIncident, List.find?_append, Ne.symm hne]

theorem Added.incidents (h : Added db db' row)
    (hi : (db.incidents.map (·.id)).Nodup) : db'.incidents = db.incidents ++ [row] := by
  obtain ⟨rows, _, hsplit, hw, hl⟩ := List.map_eq_append_iff.1 h.ids
  obtain ⟨_, rfl, hf⟩ := List.map_eq_singleton_iff.1 hl
  have hn : row.id ∉ db.incidents.map (·.id) := by
    intro hm
    obtain ⟨_, hr, hid⟩ := List.mem_map.1 hm
    have hs := getIncident_of_mem hi hr
    rw [hid, h.missing] at hs
    cases hs
  have hnd : (db'.incidents.map (·.id)).Nodup := by
    rw [h.ids]
    exact List.nodup_append.2 ⟨hi, List.nodup_singleton _, fun a ha b hb heq =>
      hn (List.mem_singleton.1 hb ▸ heq ▸ ha)⟩
  have he : rows = db.incidents := by
    refine (eq_map_of_find? (·.id) hi hw fun id hid => ?_).trans (List.map_id _)
    have hne : id ≠ row.id := fun heq => hn (heq ▸ hid)
    have hold := h.others id hne
    rw [getIncident, getIncident, hsplit, List.find?_append] at hold
    rw [Option.map_id, id_eq, ← hold, List.find?_cons_of_neg (by simpa [hf] using hne.symm)]
    simp
  have hs := getIncident_of_mem hnd (hsplit ▸ List.mem_append_right _ (.head _))
  rw [hf, h.written] at hs
  rw [hsplit, he, Option.some.inj hs]

theorem Added.cases (h : Added db db' row) {found : Incident}
    (hf : getIncident id db' = some found) :
    (id = row.id ∧ found = row) ∨ (id ≠ row.id ∧ getIncident id db = some found) := by
  by_cases hid : id = row.id
  · subst hid
    exact .inl ⟨rfl, Option.some.inj (hf.symm.trans h.written)⟩
  · exact .inr ⟨hid, (h.others id hid).symm.trans hf⟩

theorem Added.forward (h : Added db db' row) {found : Incident}
    (hf : getIncident id db = some found) :
    getIncident id db' = some found := by
  refine (h.others id ?_).trans hf
  rintro rfl
  rw [h.missing] at hf
  cases hf

theorem Added.nodup (h : Added db db' row)
    (hi : (db.incidents.map (·.id)).Nodup) : (db'.incidents.map (·.id)).Nodup := by
  rw [h.ids, ← List.concat_eq_append]
  refine List.Nodup.concat ?_ hi
  intro hm
  obtain ⟨_, ho, heq⟩ := List.mem_map.1 hm
  have hf := getIncident_of_mem hi ho
  simp only [heq] at hf
  rw [h.missing] at hf
  cases hf

end KubeNeuron.Store
