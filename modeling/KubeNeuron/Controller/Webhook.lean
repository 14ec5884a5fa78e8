import KubeNeuron.Controller.Ingest

/-!
# The Alertmanager webhook

A payload is a list of alerts. `handleAlertmanager` turns each firing alert it can classify into a
signal and commits it, one transaction for each, before it answers. Alertmanager does not resend
what was accepted.

An alert about a node that is not in the inventory is dropped, and so is one whose look-up failed:
`accepted_iff_lookups` says that this is the only way in which an accepted payload loses an alert
about a known node.
-/

namespace KubeNeuron.Webhook

open Lib KubeNeuron.Types Store Controller

/-! ## From an alert to a signal -/

/-- `strconv.Atoi`: an optional sign and decimal digits, within 64 bits. -/
def atoi (s : Str) : Option Int :=
  let n := match s with
    | 0x2B :: d => (parseNat d).map Int.ofNat
    | 0x2D :: d => (parseNat d).map fun n => -Int.ofNat n
    | d => (parseNat d).map Int.ofNat
  n.filter fun i => decide (FitsInt64 i)

/-- The host of `net.SplitHostPort`, none when it refuses the text. -/
def splitHostPort (s : Str) : Option Str :=
  if !s.contains 0x3A then none
  else
    match s with
    | 0x5B :: rest =>
      match rest.dropWhile (· ≠ 0x5D) with
      | _ :: 0x3A :: port =>
        -- the colon behind the bracket is the last one, and no bracket is left over
        if port.contains 0x3A || rest.contains 0x5B || port.contains 0x5D then none
        else some (rest.takeWhile (· ≠ 0x5D))
      | _ => none
    | _ =>
      let host := beforeLast 0x3A s
      if host.contains 0x3A || s.contains 0x5B || s.contains 0x5D then none else some host

def hostFromInstance (s : Str) : Str := (splitHostPort s).getD s

def firstNonEmpty (ss : List Str) : Str := (ss.find? (· ≠ [])).getD []

structure Alert where
  status : Str
  labels : StrMap
  annotations : StrMap

def alertClassMap : List (Str × Str) :=
  [(lit "GpuDoubleBitEccVolatile", lit "ecc-dbe"), (lit "GpuDoubleBitEccAggregate", lit "ecc-dbe"),
    (lit "GpuRowRemapPending", lit "row-remap-ok"),
    (lit "GpuRowRemapFailure", lit "row-remap-failure"),
    (lit "GpuRemappedRowsHigh", lit "row-remap-budget"), (lit "GpuThermalThrottle", lit "thermal"),
    (lit "GpuTempCritical", lit "thermal"), (lit "GpuPowerBrake", lit "power"),
    (lit "GpuNvlinkCrcErrors", lit "nvlink"), (lit "GpuPcieReplayHigh", lit "pcie"),
    (lit "GpuExporterDown", lit "driver-hang"), (lit "KubeNeuronAgentDown", lit "agent-down")]

def signalFromAlertWithClass (a : Alert) (cls : Str) : Signal :=
  { target :=
      { node := firstNonEmpty [a.labels.get (lit "node"), a.labels.get (lit "Hostname"),
          hostFromInstance (a.labels.get (lit "instance"))]
        gpuUUID := a.labels.get (lit "UUID")
        gpuIndex := (atoi (a.labels.get (lit "gpu"))).getD 0
        pciAddr := [] }
    cls
    -- an annotation of the same name replaces the alert's name
    evidence := a.annotations.entries.foldl (fun m e => m.insert e.1 e.2)
      (KeyMap.empty.insert (lit "alertname") (a.labels.get (lit "alertname"))) }

/-- `SignalFromAlert` of a catalog with these overrides; the built-in table is asked second. -/
def signalFromAlert (overrides : StrMap) (a : Alert) : Option Signal :=
  let name := a.labels.get (lit "alertname")
  if a.status ≠ lit "firing" then none
  else ((overrides.get? name).or (alertClassMap.lookup name)).map (signalFromAlertWithClass a)

/-! ## One payload -/

/-- An alert of a payload, with the catalog and the store as they are while it is handled. -/
structure Handling where
  alert : Alert
  overrides : StrMap
  /-- The names of the node table, and whether reading it fails. -/
  inventory : List Str
  lookupFails : Bool
  /-- What other transactions commit before this one. -/
  meanwhile : Database → Database
  env : IngestEnv
  fault : StoreFault
  notifyFails : Bool

/-- What an alert led to. -/
inductive Outcome where
  | unmapped
  | unknownNode
  | committed (incident : Str)
  | refused
  deriving DecidableEq

/-- The inventory is asked only when the operator backend is wired. A failed look-up counts as an
unknown node. -/
def alertTargetKnown (operator : Bool) (x : Handling) (node : Str) : Bool :=
  if trimSpace node = [] then false
  else if !operator then true
  else !x.lookupFails && x.inventory.contains (trimSpace node)

/-- `IngestSignal`: the transaction, then the notification when an incident was opened. -/
def ingestSignal (x : Handling) (sig : Signal) (db : Database) : Outcome × Database :=
  match ingestTx x.env sig db with
  | .error _ => (.refused, db)
  | .ok (db', id) =>
    match x.fault with
    | .failed landed => (.refused, if landed then db' else db)
    | .none =>
      let opened := (getOpenIncident x.env.lower sig.target sig.cls db).isNone
      (if opened && x.notifyFails then .refused else .committed id, db')

/-- Classify the alert, look its node up and commit its signal. -/
def handleAlert (operator : Bool) (x : Handling) (db : Database) : Outcome × Database :=
  match signalFromAlert x.overrides x.alert with
  | none => (.unmapped, db)
  | some sig =>
    if !alertTargetKnown operator x sig.target.node then (.unknownNode, db)
    else ingestSignal x sig (x.meanwhile db)

/-- The loop over the alerts: for each one handled its outcome and the store after it. It ends at
the first alert that could not be persisted. -/
def handleAlerts (operator : Bool) : List Handling → Database → List (Outcome × Database)
  | [], _ => []
  | x :: xs, db =>
    let handled := handleAlert operator x db
    handled :: if handled.1 = .refused then [] else handleAlerts operator xs handled.2

structure Server where
  webhookToken : Str
  webhookInsecureAllowed : Bool
  operator : Bool

inductive Body where
  | tooLarge
  | malformed
  | payload (alerts : List Handling)

structure Request where
  bearer : Option Str
  /-- The source has failed to authenticate too often. -/
  blocked : Bool
  body : Body

def Request.alerts (r : Request) : List Handling :=
  match r.body with
  | .payload alerts => alerts
  | _ => []

/-- The status, and what each alert led to. -/
def serve (s : Server) (r : Request) (db : Database) : Nat × List (Outcome × Database) :=
  match r.body with
  | .tooLarge => (413, [])
  | .malformed => (400, [])
  | .payload alerts =>
    let handled := handleAlerts s.operator alerts db
    (if handled.any (·.1 = .refused) then 503 else 202, handled)

/-- `handleAlertmanager`: the status, and what became of the alerts. -/
def handleAlertmanager (s : Server) (r : Request) (db : Database) :
    Nat × List (Outcome × Database) :=
  if s.webhookToken ≠ [] then
    if r.bearer = some s.webhookToken then serve s r db
    else (if r.blocked then 429 else 401, [])
  else if s.webhookInsecureAllowed then serve s r db
  else (401, [])

/-! ## What an accepted payload committed -/

/-- The alert fires, maps to a class and names a node of the inventory. -/
def Handling.NamesKnownNode (x : Handling) : Prop :=
  ∃ sig, signalFromAlert x.overrides x.alert = some sig ∧
    trimSpace sig.target.node ≠ [] ∧ trimSpace sig.target.node ∈ x.inventory

/-- The transaction that ingests the alert's signal committed: it left the store as it is
afterwards. -/
def Handling.Committed (x : Handling) (handled : Outcome × Database) : Prop :=
  ∃ sig before id, signalFromAlert x.overrides x.alert = some sig ∧
    ingestTx x.env sig before = .ok (handled.2, id) ∧ handled.1 = .committed id

variable {operator : Bool} {x : Handling} {sig : Signal} {db : Database}

theorem ingestSignal_not_refused (h : (ingestSignal x sig db).1 ≠ .refused) :
    ∃ id, ingestTx x.env sig db = .ok ((ingestSignal x sig db).2, id) ∧
      (ingestSignal x sig db).1 = .committed id := by
  cases htx : ingestTx x.env sig db with
  | error => simp [ingestSignal, htx] at h
  | ok r =>
    obtain ⟨_, id⟩ := r
    cases hf : x.fault with
    | failed => simp [ingestSignal, htx, hf] at h
    | none =>
      simp only [ingestSignal, htx, hf] at h ⊢
      split_ifs at h ⊢
      · exact absurd rfl h
      · exact ⟨id, rfl, rfl⟩

/-- An alert about a known node, handled without a refusal, was committed exactly when its look-up
did not fail. -/
theorem handleAlert_committed_iff (hx : x.NamesKnownNode)
    (h : (handleAlert operator x db).1 ≠ .refused) :
    x.Committed (handleAlert operator x db) ↔ (operator = true → x.lookupFails = false) := by
  obtain ⟨sig, hs, hne, hm⟩ := hx
  have hn : alertTargetKnown operator x sig.target.node = (!operator || !x.lookupFails) := by
    cases operator <;> simp [alertTargetKnown, hne, hm]
  simp only [handleAlert, hs, hn] at h ⊢
  cases hk : (!operator || !x.lookupFails) with
  | true =>
    simp only [hk] at h ⊢
    obtain ⟨id, htx, hu⟩ := ingestSignal_not_refused h
    constructor
    · intro _ ho
      simpa [ho] using hk
    · intro _
      exact ⟨sig, _, id, hs, htx, hu⟩
  | false =>
    -- the alert was dropped as one about an unknown node
    simp only [Bool.not_false, if_true]
    constructor
    · rintro ⟨_, _, _, _, _, hu⟩
      cases hu
    · intro hok
      simp only [Bool.or_eq_false_iff, Bool.not_eq_false'] at hk
      simp [hok hk.1] at hk

theorem handleAlerts_forall₂ (xs : List Handling) (db : Database)
    (h : (handleAlerts operator xs db).any (·.1 = .refused) = false) :
    List.Forall₂ (fun x handled => x.NamesKnownNode →
      (x.Committed handled ↔ (operator = true → x.lookupFails = false)))
      xs (handleAlerts operator xs db) := by
  induction xs generalizing db with
  | nil => exact .nil
  | cons x _ ih =>
    have hne : (handleAlert operator x db).1 ≠ .refused := by
      intro hr
      simp [handleAlerts, hr] at h
    simp only [handleAlerts, hne, List.any_cons, decide_false, Bool.false_or] at h ⊢
    exact .cons (fun hx => handleAlert_committed_iff hx hne) (ih _ h)

theorem serve_of_accepted {s : Server} {r : Request} (h : (handleAlertmanager s r db).1 / 100 = 2) :
    (handleAlertmanager s r db).2 = handleAlerts s.operator r.alerts db ∧
      (handleAlerts s.operator r.alerts db).any (·.1 = .refused) = false := by
  have hserve : (serve s r db).1 / 100 = 2 →
      (serve s r db).2 = handleAlerts s.operator r.alerts db ∧
      (handleAlerts s.operator r.alerts db).any (·.1 = .refused) = false := by
    intro hs
    cases hbody : r.body with
    | tooLarge | malformed => simp [serve, hbody] at hs
    | payload alerts =>
      cases ha : (handleAlerts s.operator alerts db).any (·.1 = .refused) with
      | true => simp [serve, hbody, ha] at hs
      | false =>
        rw [Request.alerts, hbody]
        exact ⟨by rw [serve, hbody], ha⟩
  rw [handleAlertmanager] at h ⊢
  split_ifs at h ⊢
  · exact hserve h
  · cases h
  · cases h
  · exact hserve h
  · cases h

/-- **Every alert about a known node of an accepted payload was committed, if and only if no look-up
of such an alert failed.** -/
theorem accepted_iff_lookups (s : Server) (r : Request) (db : Database)
    (h : (handleAlertmanager s r db).1 / 100 = 2) :
    List.Forall₂ (fun x handled => x.NamesKnownNode → x.Committed handled)
        r.alerts (handleAlertmanager s r db).2 ↔
      ∀ x ∈ r.alerts, x.NamesKnownNode → s.operator = true → x.lookupFails = false := by
  obtain ⟨heq, hany⟩ := serve_of_accepted h
  rw [heq]
  have hall := handleAlerts_forall₂ r.alerts db hany
  constructor
  · intro hc x hx hknown
    -- the alert stands in the payload beside what became of it
    obtain ⟨i, hi, rfl⟩ := List.getElem_of_mem hx
    have hlen := hall.length_eq
    exact ((List.forall₂_iff_get.mp hall).2 i hi (hlen ▸ hi) hknown).mp
      ((List.forall₂_iff_get.mp hc).2 i hi (hlen ▸ hi) hknown)
  intro hok
  refine List.forall₂_iff_get.mpr ⟨hall.length_eq, ?_⟩
  intro i hi hi' hknown
  exact ((List.forall₂_iff_get.mp hall).2 i hi hi' hknown).mpr (hok _ (List.getElem_mem hi) hknown)

/-! ## An alert about a known node -/

def sampleHandling (lookupFails : Bool) : Handling :=
  { alert := ⟨lit "firing", KeyMap.ofEntries
      [(lit "alertname", lit "GpuTempCritical"), (lit "instance", lit "n1:9400")], StrMap.empty⟩
    overrides := StrMap.empty
    inventory := [lit "n1"]
    lookupFails
    meanwhile := id
    env := ⟨id, false, fun _ => lit "thermal", fun _ _ => lit "i1", 0, 0, 0⟩
    fault := .none
    notifyFails := false }

def sampleServer : Server := ⟨lit "t", false, true⟩

def sampleRequest (lookupFails : Bool) : Request :=
  ⟨some (lit "t"), false, .payload [sampleHandling lookupFails]⟩

/-- An accepted payload whose alert was committed. -/
theorem accepted_iff_lookups_sample :
    (handleAlertmanager sampleServer (sampleRequest false) Database.empty).1 = 202 ∧
      (List.Forall₂ (fun x handled => x.NamesKnownNode → x.Committed handled)
          (sampleRequest false).alerts
          (handleAlertmanager sampleServer (sampleRequest false) Database.empty).2 ↔
        ∀ x ∈ (sampleRequest false).alerts,
          x.NamesKnownNode → sampleServer.operator = true → x.lookupFails = false) := by
  have h : (handleAlertmanager sampleServer (sampleRequest false) Database.empty).1 = 202 := by
    decide +kernel
  exact ⟨h, accepted_iff_lookups _ _ _ (by rw [h])⟩

/-- A payload is accepted although its one alert, which fires for a node of the inventory, was
dropped: the node could not be looked up. -/
theorem failed_lookup_accepted : (sampleHandling true).NamesKnownNode ∧
      handleAlertmanager sampleServer (sampleRequest true) Database.empty =
        (202, [(.unknownNode, Database.empty)]) := by
  refine ⟨?_, by rfl⟩
  rw [Handling.NamesKnownNode]
  decide +kernel

end KubeNeuron.Webhook
