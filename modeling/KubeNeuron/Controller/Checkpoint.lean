import KubeNeuron.Lib.Run
import KubeNeuron.Lib.Text
import KubeNeuron.Lib.TimeOrder

/-!
# The window of a checkpoint request

Before a step disrupts a node, the controller asks the workloads there to save their state and waits
for them until a deadline. The request is a set of annotations of the pod, which is all that a retry
or another leader finds of it, and which the requests of all incidents share.
-/

namespace KubeNeuron.Checkpoint

open Lib

structure Request where
  incidentID : Str
  requestedAt : Int
  deadlineAt : Int
  reason : Str
  nextAction : Str

/-- The request annotations of a pod. A missing one reads as the empty text. -/
structure Annotations where
  requestedAt : Str
  deadlineAt : Str
  incident : Str
  reason : Str
  nextAction : Str
deriving DecidableEq

def Request.annotations (r : Request) : Annotations :=
  ⟨utcText r.requestedAt, utcText r.deadlineAt, r.incidentID, r.reason, r.nextAction⟩

/-- The instant of an RFC 3339 text. -/
def parseTime (s : Str) : Option Int := (parseRFC3339 (fun _ => 0) 0 s).map (·.ns)

def parseRequest (a : Annotations) : Option Request :=
  if trimSpace a.incident = [] then none
  else (parseTime a.deadlineAt).map fun deadline =>
    ⟨trimSpace a.incident, (parseTime a.requestedAt).getD GoTime.zeroNs, deadline, a.reason,
      a.nextAction⟩

def resolveDeadline (proposed : Int) (incidentID : Str) : Option Request → Int
  | none => proposed
  | some existing =>
    if existing.incidentID = [] ∨ existing.incidentID ≠ incidentID then proposed
    else if proposed < existing.deadlineAt then proposed
    else existing.deadlineAt

/-- A time that is stamped reads back as the same instant. -/
def representable (at' : Int) : Bool := parseTime (utcText at') = some at'

def checkpointRequestValid (maxWait : Int) (req : Request) : Bool :=
  trimSpace req.incidentID ≠ [] && trimSpace req.incidentID = req.incidentID &&
    trimSpace req.reason ≠ [] && trimSpace req.nextAction ≠ [] &&
    req.requestedAt ≠ GoTime.zeroNs && req.deadlineAt ≠ GoTime.zeroNs &&
    representable req.requestedAt && representable req.deadlineAt &&
    req.requestedAt < req.deadlineAt && req.deadlineAt - req.requestedAt ≤ maxWait

/-- What a request is answered from the live pod. -/
inductive Answer where
  | invalid
  | foreign (existing : Request)
  | inForce (r : Request)

/-- `RequestCheckpoint` up to the patch. -/
def requestCheckpoint (maxWait : Int) (pod : Annotations) (req : Request) : Answer :=
  if checkpointRequestValid maxWait req then
    match parseRequest pod with
    | none => .inForce req
    | some existing =>
      if existing.incidentID ≠ req.incidentID then
        -- an expired request of another incident is residue, not a hold
        if req.requestedAt < existing.deadlineAt then .foreign existing else .inForce req
      else
        .inForce { req with
          deadlineAt := resolveDeadline req.deadlineAt req.incidentID (some existing)
          requestedAt :=
            if existing.requestedAt = GoTime.zeroNs then req.requestedAt else existing.requestedAt }
  else .invalid

def checkpointCapDeadline (deadline proposed : Int) : Int :=
  if deadline = GoTime.zeroNs ∨ proposed < deadline then proposed else deadline

/-! ## One pod -/

structure PodWorld where
  clock : Int
  pod : Annotations
  /-- The incidents that were given a deadline to wait to, the newest first. -/
  granted : List (Str × Int)

def PodWorld.start (clock : Int) : PodWorld := ⟨clock, ⟨[], [], [], [], []⟩, []⟩

def PodWorld.grant (w : PodWorld) (req : Request) (deadline : Int) : PodWorld :=
  { w with granted := (req.incidentID, checkpointCapDeadline deadline req.deadlineAt) :: w.granted }

inductive PodOp where
  | tick (d : Nat)
  /-- The leader restarts or changes. It keeps nothing of a request but the annotations. -/
  | restart
  /-- A step asks. The patch tests the annotations it was computed from, so that it lands on them or
  not at all, and its answer may be lost. -/
  | request (maxWait : Int) (req : Request) (landed answered : Bool)

/-- The controller's `requestCheckpoint`. -/
def PodWorld.request (w : PodWorld) (maxWait : Int) (req : Request) (landed answered : Bool) :
    PodWorld :=
  match requestCheckpoint maxWait w.pod req with
  | .invalid => w
  | .foreign existing =>
    if existing.incidentID ≠ [] ∧ existing.incidentID ≠ req.incidentID ∧
        req.requestedAt < existing.deadlineAt then w.grant req existing.deadlineAt
    else w
  | .inForce r =>
    if r.annotations = w.pod then w.grant req r.deadlineAt
    else if landed then
      let w' := { w with pod := r.annotations }
      if answered then w'.grant req r.deadlineAt else w'
    else w

def podNext (w : PodWorld) : PodOp → Option PodWorld
  | .tick d => some { w with clock := w.clock + d }
  | .restart => some w
  | .request maxWait req landed answered =>
    -- the time of the request was read when the step began
    if req.requestedAt ≤ w.clock then some (w.request maxWait req landed answered) else none

/-- An incident that asks again finds its own request on the pod. -/
def FindsOwn (w : PodWorld) : PodOp → Prop
  | .request _ req _ _ => req.incidentID ∈ w.granted.map Prod.fst →
      (parseRequest w.pod).map (·.incidentID) = some req.incidentID
  | _ => True

instance (w : PodWorld) : (op : PodOp) → Decidable (FindsOwn w op)
  | .request _ _ _ _ => inferInstanceAs (Decidable (_ → _))
  | .tick _ => isTrue trivial
  | .restart => isTrue trivial

/-- A deadline that may be stamped for an incident: it reads back, and is not later than those the
incident was given. -/
structure Bounded (granted : List (Str × Int)) (id : Str) (deadline : Int) : Prop where
  trimmed : trimSpace id = id
  nonzero : deadline ≠ GoTime.zeroNs
  reads : representable deadline
  earlier : ∀ g ∈ granted, g.1 = id → deadline ≤ g.2

structure PodInv (w : PodWorld) : Prop where
  ordered : w.granted.Pairwise fun new old => new.1 = old.1 → new.2 ≤ old.2
  stamp : ∀ s, parseRequest w.pod = some s → Bounded w.granted s.incidentID s.deadlineAt

variable {w w' : PodWorld} {req r s : Request} {maxWait : Int}

theorem resolveDeadline_own (proposed : Int) {pod : Annotations} (h : parseRequest pod = some s) :
    resolveDeadline proposed s.incidentID (some s) = proposed ∧ proposed ≤ s.deadlineAt ∨
      resolveDeadline proposed s.incidentID (some s) = s.deadlineAt ∧ s.deadlineAt ≤ proposed := by
  have hid : s.incidentID ≠ [] := by
    rw [parseRequest] at h
    split_ifs at h with he
    obtain ⟨_, -, rfl⟩ := Option.map_eq_some_iff.1 h
    exact he
  simp only [resolveDeadline, hid, ne_eq, not_true, or_self, if_false]
  split_ifs with hlt
  · exact .inl ⟨rfl, Int.le_of_lt hlt⟩
  · exact .inr ⟨rfl, Int.not_lt.1 hlt⟩

/-- A request reads back as it was stamped. -/
theorem Bounded.reread (h : Bounded w.granted r.incidentID r.deadlineAt)
    (hs : parseRequest r.annotations = some s) :
    s.incidentID = r.incidentID ∧ s.deadlineAt = r.deadlineAt := by
  rw [parseRequest] at hs
  split_ifs at hs
  obtain ⟨_, hr, rfl⟩ := Option.map_eq_some_iff.1 hs
  exact ⟨h.trimmed, Option.some.inj (hr.symm.trans (of_decide_eq_true h.reads))⟩

theorem PodInv.grant (hinv : PodInv w) {deadline : Int}
    (hearlier : ∀ g ∈ w.granted, g.1 = req.incidentID →
      checkpointCapDeadline deadline req.deadlineAt ≤ g.2)
    (hp : ∀ s, parseRequest w.pod = some s → s.incidentID = req.incidentID →
      s.deadlineAt ≤ checkpointCapDeadline deadline req.deadlineAt) :
    PodInv (w.grant req deadline) := by
  constructor
  · exact List.pairwise_cons.2 ⟨fun g hg hid => hearlier g hg hid.symm, hinv.ordered⟩
  intro s hs
  refine { hinv.stamp s hs with earlier := fun g hg hid => ?_ }
  obtain _ | ⟨_, hg⟩ := hg
  · exact hp s hs hid.symm
  · exact (hinv.stamp s hs).earlier g hg hid

section

variable (hinv : PodInv w) (hown : req.incidentID ∈ w.granted.map Prod.fst →
  (parseRequest w.pod).map (·.incidentID) = some req.incidentID)
include hinv hown

theorem bounded_of_inForce (h : requestCheckpoint maxWait w.pod req = .inForce r) :
    r.incidentID = req.incidentID ∧ r.deadlineAt ≤ req.deadlineAt ∧
      Bounded w.granted r.incidentID r.deadlineAt := by
  rw [requestCheckpoint] at h
  split_ifs at h with hv
  simp only [checkpointRequestValid, Bool.and_eq_true, decide_eq_true_eq] at hv
  obtain ⟨⟨⟨⟨⟨⟨⟨⟨⟨-, htrimmed⟩, -⟩, -⟩, -⟩, hnonzero⟩, -⟩, hd⟩, -⟩, -⟩ := hv
  -- without a request of its own on the pod, the incident was given no deadline yet
  have hw : (parseRequest w.pod).map (·.incidentID) ≠ some req.incidentID →
      Bounded w.granted req.incidentID req.deadlineAt := by
    refine fun ho => ⟨htrimmed, hnonzero, hd, fun g hg hid => ?_⟩
    exact absurd (hown (List.mem_map.2 ⟨g, hg, hid⟩)) ho
  split at h
  next hn =>
    cases h
    exact ⟨rfl, Int.le_refl _, hw (by simp [hn])⟩
  rename_i existing hs
  split at h
  next hfor =>
    split_ifs at h
    cases h
    exact ⟨rfl, Int.le_refl _, hw (by simpa [hs] using hfor)⟩
  rename_i he
  cases h
  have hp := hinv.stamp existing hs
  have hr := resolveDeadline_own req.deadlineAt hs
  rw [Decidable.not_not.1 he] at hr hp
  generalize resolveDeadline req.deadlineAt req.incidentID (some existing) = d at hr ⊢
  rcases hr with ⟨rfl, hle⟩ | ⟨rfl, hle⟩
  · refine ⟨rfl, Int.le_refl _, htrimmed, hnonzero, hd, fun g hg hid => ?_⟩
    exact Int.le_trans hle (hp.earlier g hg hid)
  · exact ⟨rfl, hle, hp⟩

theorem PodInv.request {landed answered : Bool} :
    PodInv (w.request maxWait req landed answered) := by
  rw [PodWorld.request]
  split
  · exact hinv
  next existing hfor =>
    have hsome : parseRequest w.pod = some existing := by
      unfold requestCheckpoint at hfor
      split_ifs at hfor
      split at hfor
      · cases hfor
      split_ifs at hfor
      cases hfor
      assumption
    split_ifs with hl
    · -- the incident waits for the other one's window, and was given none before
      apply hinv.grant
      · intro g hg hid
        have hself := hown (List.mem_map.2 ⟨g, hg, hid⟩)
        rw [hsome] at hself
        exact absurd (Option.some.inj hself) hl.2.1
      · intro s hs hid
        cases hsome.symm.trans hs
        exact absurd hid hl.2.1
    · exact hinv
  rename_i r hinForce
  obtain ⟨hincident, hproposed, h⟩ := bounded_of_inForce hinv hown hinForce
  have hlanded : PodInv { w with pod := r.annotations } := by
    refine ⟨hinv.ordered, fun s hs => ?_⟩
    rw [(h.reread hs).1, (h.reread hs).2]
    exact h
  have hgrant : PodInv ({ w with pod := r.annotations }.grant req r.deadlineAt) := by
    have hcap : checkpointCapDeadline r.deadlineAt req.deadlineAt = r.deadlineAt :=
      if_neg (not_or.2 ⟨h.nonzero, Int.not_lt.2 hproposed⟩)
    apply hlanded.grant
    · rw [hcap, ← hincident]
      exact h.earlier
    · intro s hs _
      rw [hcap]
      exact Int.le_of_eq (h.reread hs).2
  split_ifs with hm
  · rw [hm] at hgrant
    exact hgrant
  · exact hgrant
  · exact hlanded
  · exact hinv

end

/-- **The deadline of an incident never moves later**, in every run in which an incident that asks
again finds its own request on the pod. -/
theorem deadline_never_later {clock : Int} {ops : List PodOp}
    (hrun : exec podNext (.start clock) ops = some w)
    (hown : Along podNext FindsOwn (.start clock) ops) :
    w.granted.Pairwise fun new old => new.1 = old.1 → new.2 ≤ old.2 := by
  refine (exec_invariant_along (P := PodInv) ?_ ?_ hown hrun).ordered
  · intro w op w' hinv hok hnext
    cases op with
    | tick | restart =>
      cases hnext
      exact { hinv with }
    | request =>
      obtain ⟨-, rfl⟩ := guarded hnext
      exact hinv.request hok
  · refine ⟨List.Pairwise.nil, fun s hs => ?_⟩
    cases hs

/-- The request of an incident with ten seconds to wait. -/
def sampleRequest (incident : String) (requestedAt : Int) : PodOp :=
  .request 10 ⟨lit incident, requestedAt, requestedAt + 10, lit "xid-79", lit "drain"⟩ true true

theorem retry_keeps_deadline :
    ∃ w, exec podNext (.start 0) [sampleRequest "a" 0, .tick 20, .restart, sampleRequest "a" 20] =
      some w ∧ (w.granted = [(lit "a", 10), (lit "a", 10)] ∧
        w.granted.Pairwise fun new old => new.1 = old.1 → new.2 ≤ old.2) := by
  refine reached (by decide +kernel) fun w hw hgranted => ⟨hgranted, ?_⟩
  exact deadline_never_later hw (by decide +kernel)

/-- An incident whose expired request was replaced by that of another one is given a second
window. -/
theorem replaced_request_extends :
    ∃ w, exec podNext (.start 0) [sampleRequest "a" 0, .tick 20, sampleRequest "b" 20, .tick 20,
      sampleRequest "a" 40] = some w ∧
      w.granted = [(lit "a", 50), (lit "b", 30), (lit "a", 10)] := by
  decide +kernel

end KubeNeuron.Checkpoint
