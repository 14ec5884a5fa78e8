import KubeNeuron.Agent.JournalRuns
import KubeNeuron.Delivery.ResultRoute
import KubeNeuron.Store.ActionSafety

/-!
# Results over the restarts of an agent

One agent with its journal, and the store of the controller, to which anything else may happen in
between. The world remembers the results whose recording succeeded (`Recorded`) and those the
controller acknowledged (`Delivered`).
-/

namespace KubeNeuron.Delivery

open Lib KubeNeuron.Types Store Agent

/-! ## The runs -/

/-- A result whose recording succeeded, and whether the agent restarted since. -/
structure Recorded where
  actionID : Str
  result : ActionResult
  restarted : Bool

/-- A recorded result that the controller acknowledged, and the row it wrote. -/
structure Delivered where
  serial : Nat
  result : ActionResult
  restarted : Bool

structure DeliveryWorld where
  host : JournalHost
  store : World
  recorded : List Recorded
  delivered : List Delivered

/-- The circumstances of a post: the clock of the agent, the path the action ID was put in, the boot
ID header, and the local zone, the authenticated node and the time of the controller. -/
structure ReportCall where
  actionID : Str
  agentNow : GoTime
  pathID : Str
  bootID : Str
  lo : Int → Int
  node : Str
  now : Nat

inductive DeliveryEvent where
  | journal (ev : JournalEvent)
  | report (call : ReportCall)
  | store (op : Op)

def recordedBy (h : JournalHost) : JournalEvent → List Recorded
  | .call (.recordOutcome id r) clock none =>
    if (h.journal.start h.lo clock (.recordOutcome id r)).toOption.isSome then [⟨id, r, false⟩]
    else []
  | _ => []

/-- A restart is remembered with every recorded outcome. -/
def Recorded.age (ev : JournalEvent) (r : Recorded) : Recorded :=
  match ev with
  | .restart _ _ => { r with restarted := true }
  | .call _ _ _ => r

/-- The completion that a post of the agent asks the store for. -/
def reportRequest (w : DeliveryWorld) (call : ReportCall) : Option CompleteCall :=
  (w.host.journal.entries.get? call.actionID).bind fun e =>
    (reportedResult call.agentNow e).bind fun r =>
      (postActionResult w.host.lo call.pathID e.leaseToken call.bootID r).bind fun req =>
        (handleActionResult call.lo call.node call.now req w.store.db).toOption

/-- The recorded outcomes of an action as deliveries to the rows that a completion writes. -/
def deliveries (w : DeliveryWorld) (actionID : Str) (c : CompleteCall) : List Delivered :=
  (serialsWhere c.accepts w.store.db).flatMap fun serial =>
    (w.recorded.filter fun r => r.actionID = actionID).map fun r =>
      ⟨serial, r.result, r.restarted⟩

def deliveryNext (w : DeliveryWorld) : DeliveryEvent → Option DeliveryWorld
  | .journal ev =>
    (journalNext w.host ev).map fun host =>
      { w with
        host
        recorded := (recordedBy w.host ev ++ w.recorded.map (Recorded.age ev)).filter
          fun r => host.journal.holds r.actionID }
  | .report call =>
    (reportRequest w call).bind fun c =>
      (next w.store (.completeClaimedAction c)).map fun store =>
        { w with store, delivered := deliveries w call.actionID c ++ w.delivered }
  | .store op => (next w.store op).map fun store => { w with store }

def DeliveryWorld.start (lo : Int → Int) (t : Nat) : DeliveryWorld :=
  ⟨JournalHost.fresh lo, World.start t, [], []⟩

/-- The conditions under which a journal reads back what was acknowledged. -/
def FaithfulStep (zones : List (Int → Int)) (w : DeliveryWorld) : DeliveryEvent → Prop
  | .journal ev => FaithfulEvent zones w.host ev ∧ CleanAppend w.host ev
  | .report _ => True
  | .store _ => True

/-! ## The stations -/

variable {lo : Int → Int} {r : ActionResult} {j : Journal} {clock : Nat → GoTime} {op : JournalOp}
  {e : Entry} {w w' : DeliveryWorld} {h : JournalHost} {ev : JournalEvent}
  {zones : List (Int → Int)} {store : World}

variable {lo' : Int → Int} {entries : KeyMap Entry} {fault : Option Nat} {p : Pending}
  {host : JournalHost} {Q : Delivered → ActionResult → Prop}

theorem decodeActionResult_print {j : Json} (h : r.toJson lo = some j) :
    decodeActionResult lo' j.print = some (r.readBack lo lo' 0) := by
  have hr : ActionResult.ofJson lo' 0 j.readBack = _ := ActionResult.ofJson_toJson h 0
  have hparse := Json.parseJson_print j (ActionResult.intNums_toJson h)
  simp only [ActionResult.toJson, Option.bind_eq_bind, Option.bind_eq_some_iff] at h
  obtain ⟨s, -, f, -, h⟩ := h
  cases h
  rw [decodeActionResult, hparse]
  have hk : (Json.readBackMembers (Json.members (r.slots s f))).all
      (fun m => m.1 ∈ resultFields) = true := by
    rw [Json.readBackMembers_members _ (ActionResult.recordKeys_slots r s f).2, List.all_eq_true]
    intro m hm
    have hs := (Json.map_fst_members ((r.slots s f).map fun g => (g.1, g.2.map Json.readBack)))
      |>.subset (List.mem_map_of_mem hm)
    exact decide_eq_true hs
  simp only [Json.readBack, hk]
  exact hr

theorem toValid_acceptedRefusal (header : Str) :
    toValid (acceptedRefusal header) = acceptedRefusal header := by
  rw [acceptedRefusal]
  split_ifs with h
  · rw [h]
    decide
  · rfl

theorem FromExecutor.acceptedRefusal_eq (h : FromExecutor r) :
    acceptedRefusal r.refusal = r.refusal := by
  obtain ⟨_, _, err, _, _, rfl⟩ := h
  rw [executorResult, acceptedRefusal]
  by_cases hi : err.any ExecutorError.notIdle = true
  · simp [hi]
  · simp [hi]

/-- What a posted result is when the handler passes it on. -/
def handledResult (lo lo' : Int → Int) (r : ActionResult) : ActionResult :=
  { r.readBack lo lo' 0 with refusal := acceptedRefusal r.refusal }

theorem handleActionResult_post {pathID token bootID node : Str} {now : Nat} {req : ResultRequest}
    {db : Database} {c : CompleteCall}
    (hq : postActionResult lo pathID token bootID r = some req)
    (h : handleActionResult lo' node now req db = .ok c) :
    c.res = handledResult lo lo' r ∧ c.localOffset = lo' := by
  rw [postActionResult] at hq
  split_ifs at hq with ht
  obtain ⟨_, hj, rfl⟩ := Option.map_eq_some_iff.1 hq
  simp only [handleActionResult, decodeActionResult_print hj] at h
  split_ifs at h with hz hpath
  cases hr : db.actions.find? fun r => r.id = pathID with
  | none => simp [hr] at h
  | some row =>
    cases hs : scanAction lo' row with
    | none => simp [hr, hs] at h
    | some =>
      simp only [hr, hs] at h
      split_ifs at h with hn
      cases h
      exact ⟨rfl, rfl⟩

theorem pollAction_done {db : Database} {row : ActionRow} {res : ActionResult}
    (hi : (db.actions.map (·.id)).Nodup) (hw : row ∈ db.actions) (hr : row.Readable)
    (hd : row.state = .done) (hres : marshalActionResult lo' res = some row.result) :
    pollAction lo row.id db =
      .returned { res.readBack lo' lo 0 with refusal := toValid res.refusal } := by
  have hfind : db.actions.find? (fun r => r.id = row.id) = some row :=
    find?_of_key hi hw (decide_eq_true rfl) fun _ => of_decide_eq_true
  have hne : row.result ≠ [] := by
    intro hn
    have hr : unmarshalActionResult lo 0 row.result = _ := unmarshalActionResult_marshal hres 0
    rw [hn, unmarshalActionResult, show Json.parseJson [] = none from rfl] at hr
    cases hr
  obtain ⟨⟨m, hm⟩, -⟩ := hr
  have hp := field_paramsText m
  rw [← hm] at hp
  obtain ⟨_, hj, hfield⟩ := Option.bind_eq_some_iff.1 hp
  have ho : scanResult lo row =
      some (some { res.readBack lo' lo 0 with refusal := toValid res.refusal }) := by
    rw [scanResult, if_pos ⟨hd, hne⟩, unmarshalActionResult_marshal hres 0]
    rfl
  rw [pollAction, hfind]
  simp [scanAction, hj, hfield, ho, hd]

/-! ## Entries filed under their own IDs -/

/-- Every entry is filed under its action's ID. -/
def Filed (entries : KeyMap Entry) : Prop := ∀ id e, entries.get? id = some e → e.action.id = id

theorem filed_empty : Filed KeyMap.empty := by
  intro id e he
  cases he

theorem Filed.insert (h : Filed entries) (e : Entry) : Filed (entries.insert e.action.id e) :=
  KeyMap.forall_insert (fun id f _ => h id f) rfl

theorem Filed.compacts {j' : Journal} (h : Filed j.entries)
    (hc : Compacts lo j j') : Filed j'.entries := fun id e he => h id e (hc.get? he)

theorem filed_recoverJournal {file : Str}
    (h : recoverJournal lo file = .ok j) : Filed j.entries := by
  obtain ⟨_, -, h⟩ := bind_ok_iff.1 h
  obtain ⟨⟨_, kept, _⟩, hrepl, h⟩ := bind_ok_iff.1 h
  obtain ⟨-, rfl, -⟩ := replay_spec hrepl
  have hfiled : Filed (snapshots KeyMap.empty kept) := by
    intro id e he
    obtain ⟨_, _, _, -, hid, rfl, -⟩ := snapshots_tell he
    exact hid
  dsimp only at h
  split_ifs at h
  · rw [Journal.rewriteRecords] at h
    cases hd : encodeRecords lo kept with
    | none => simp [hd] at h
    | some =>
      rw [hd] at h
      cases h
      exact hfiled
  · cases h
    exact hfiled

theorem filed_markAllInterrupted {clock : Str → Nat → GoTime} {j' : Journal}
    {ids : List Str} (h : Filed j.entries)
    (hm : j.markAllInterrupted lo clock ids = .ok j') : Filed j'.entries := by
  induction ids generalizing j with
  | nil =>
    cases hm
    exact h
  | cons id _ ih =>
    rw [Journal.markAllInterrupted] at hm
    cases hw : j.markInterrupted lo (clock id) id with
    | error => simp [hw] at hm
    | ok w =>
      rw [hw] at hm
      have hr := (markInterrupted_spec hw).1
      exact ih ((h.compacts hr.compacts).insert w.entry) hm

theorem filed_openJournal {clock : Str → Nat → GoTime} {file : Str}
    (h : openJournal lo clock file = .ok j) : Filed j.entries := by
  obtain ⟨j', hj', h⟩ := bind_ok_iff.1 h
  cases hm : j'.markAllInterrupted lo clock j'.interrupted with
  | error => simp [hm, Except.mapError] at h
  | ok =>
    rw [hm] at h
    cases h
    exact filed_markAllInterrupted (filed_recoverJournal hj') hm

/-! ## Recorded outcomes stay -/

def HasOutcome (e : Entry) (r : ActionResult) : Prop :=
  (e.state = .outcomeKnown ∨ e.state = .reported) ∧ e.result = some r

/-- A known outcome can only become reported. -/
theorem HasOutcome.reported_of_allowed {s : State} (h : HasOutcome e r)
    (hs : allowedTransition e.state s = true) : s = .reported := by
  rcases h.1 with he | he
  · simpa [allowedTransition, he] using hs
  · rw [he] at hs
    cases hs

theorem Planned.keeps_outcome {now : GoTime} {w : Entry} (h : Planned entries now op w)
    (hfiled : Filed entries)
    (he : entries.get? w.action.id = some e) (ho : HasOutcome e r) : HasOutcome w r := by
  cases h with
  | received _ h0 =>
    change entries.get? _ = none at h0
    rw [show entries.get? _ = some e from he] at h0
    cases h0
  | claimed hg =>
    rw [← hfiled _ _ hg] at hg
    rw [show entries.get? _ = some e from he] at hg
    cases hg
    exact ho
  | @advanced _ id next current ht hg hp hr =>
    have ha : (Agent.advanced current now next op.result).action =
        current.action := by
      cases next <;> rfl
    rw [ha, hfiled _ _ hg, hg] at he
    cases he
    obtain rfl := ho.reported_of_allowed hp
    exact ⟨.inr rfl, ho.2⟩

section

variable (hfiled : Filed h.journal.entries)
include hfiled

theorem finish_keeps_outcome {id : Str} {e' : Entry} (hp : h.journal.start h.lo clock op = .ok p)
    (he : h.journal.entries.get? id = some e) (ho : HasOutcome e r)
    (he' : (h.finish fault p).journal.entries.get? id = some e') : HasOutcome e' r := by
  have hs := start_spec hp
  -- an entry that a compaction kept is the one from before
  have hk : ∀ {j : Journal}, Compacts h.lo h.journal j → j.entries.get? id = some e' →
      HasOutcome e' r := by
    intro j hc hj
    have hold := hc.get? hj
    rw [he] at hold
    cases hold
    exact ho
  cases p with
  | done => exact hk hs.compacts he'
  | write w =>
    obtain ⟨hw, hl, -⟩ := hs
    cases fault with
    | none =>
      change (w.journal.entries.insert w.entry.action.id w.entry).get? id = some e' at he'
      rw [KeyMap.get?_insert] at he'
      split_ifs at he' with hid
      · cases he'
        rw [hid] at he
        exact Planned.keeps_outcome hl hfiled he ho
      · exact hk hw.compacts he'
    | some => exact hk hw.compacts he'

theorem filed_finish (hp : h.journal.start h.lo clock op = .ok p) :
    Filed (h.finish fault p).journal.entries := by
  have hs := start_spec hp
  cases p with
  | done => exact hfiled.compacts hs.compacts
  | write w =>
    cases fault with
    | none => exact (hfiled.compacts hs.1.compacts).insert w.entry
    | some =>
      show Filed w.journal.entries
      exact hfiled.compacts hs.1.compacts

theorem recordOutcome_outcome {id : Str}
    (hp : h.journal.start h.lo clock (.recordOutcome id r) = .ok p) :
    ∃ e, (h.finish none p).journal.entries.get? id = some e ∧ HasOutcome e r := by
  have hs := start_spec hp
  cases p with
  | done j entry =>
    cases entry with
    | none =>
      obtain ⟨-, _, hop⟩ := hs
      cases hop
    | some e =>
      obtain ⟨rfl, hk⟩ := hs
      cases hk with
      | repeated ht hg hst hr =>
        cases ht
        exact ⟨e, hg, .inl hst, hr r rfl⟩
  | write w =>
    obtain ⟨-, hl, -⟩ := hs
    refine ⟨w.entry, ?_⟩
    change (w.journal.entries.insert w.entry.action.id w.entry).get? id = some w.entry ∧ _
    generalize w.entry = entry at hl ⊢
    cases hl with
    | @advanced _ _ _ current ht hg hm hr =>
      cases ht
      have hid : current.action.id = id := hfiled _ _ hg
      refine ⟨?_, .inl rfl, rfl⟩
      rw [KeyMap.get?_insert]
      exact if_pos hid.symm

end

/-- The outcomes recorded by the running process are in its journal as they were given. -/
structure InProcess (w : DeliveryWorld) : Prop where
  filed : Filed w.host.journal.entries
  outcome : ∀ rec ∈ w.recorded, rec.restarted = false →
    ∃ e, w.host.journal.entries.get? rec.actionID = some e ∧ HasOutcome e rec.result

theorem call_keeps_outcome (hfiled : Filed h.journal.entries)
    (hn : journalNext h (.call op clock fault) = some host) {id : Str}
    (he : h.journal.entries.get? id = some e) (ho : HasOutcome e r)
    (hh : host.journal.holds id = true) :
    ∃ e', host.journal.entries.get? id = some e' ∧ HasOutcome e' r := by
  obtain ⟨e', he'⟩ := Option.isSome_iff_exists.1 hh
  refine ⟨e', he', ?_⟩
  rw [journalNext] at hn
  cases hp : h.journal.start h.lo clock op with
  | error =>
    rw [hp] at hn
    cases hn
    have hold := (start_error hp).get? he'
    rw [he] at hold
    cases hold
    exact ho
  | ok =>
    rw [hp] at hn
    cases hn
    exact finish_keeps_outcome hfiled hp he ho he'

theorem filed_journalNext (hfiled : Filed h.journal.entries) (hn : journalNext h ev = some host) :
    Filed host.journal.entries := by
  revert hn
  fun_cases journalNext h ev with
  | case1 _ _ _ _ hp =>
    rintro ⟨⟩
    exact hfiled.compacts (start_error hp)
  | case2 _ _ _ _ hp =>
    rintro ⟨⟩
    exact filed_finish hfiled hp
  | case3 =>
    intro hn
    obtain ⟨_, hj, rfl⟩ := Option.map_eq_some_iff.1 hn
    exact filed_openJournal (eq_ok_of_toOption hj)

theorem recordedBy_outcome {rec : Recorded}
    (hfiled : Filed h.journal.entries) (hn : journalNext h ev = some host)
    (hr : rec ∈ recordedBy h ev) :
    rec.restarted = false ∧
      ∃ e, host.journal.entries.get? rec.actionID = some e ∧ HasOutcome e rec.result := by
  unfold recordedBy at hr
  split at hr
  · split_ifs at hr with hs
    · obtain rfl := List.mem_singleton.1 hr
      obtain ⟨_, hp⟩ := Option.isSome_iff_exists.1 hs
      have hp := eq_ok_of_toOption hp
      rw [journalNext, hp] at hn
      cases hn
      exact ⟨rfl, recordOutcome_outcome hfiled hp⟩
    · cases hr
  · cases hr

theorem inProcess_journal
    (h : InProcess w) (hn : deliveryNext w (.journal ev) = some w') : InProcess w' := by
  obtain ⟨_, hhost, rfl⟩ := Option.map_eq_some_iff.1 hn
  refine ⟨filed_journalNext h.filed hhost, ?_⟩
  intro rec hm ht
  obtain ⟨hm, hh⟩ := List.mem_filter.1 hm
  rcases List.mem_append.1 hm with hw | hold
  · exact (recordedBy_outcome h.filed hhost hw).2
  obtain ⟨old, hmemold, rfl⟩ := List.mem_map.1 hold
  cases ev with
  | call =>
    obtain ⟨_, he, ho⟩ := h.outcome old hmemold ht
    exact call_keeps_outcome h.filed hhost he ho hh
  | restart => cases ht

/-! ## Restarts -/

/-- The second result is the first one as a journal carries it over a restart. -/
def CarriedOver (r r' : ActionResult) : Prop :=
  r'.ok = r.ok ∧ r'.output = r.output ∧ r'.error = r.error ∧ r'.refusal = []

/-- The outcomes recorded before a restart are in the journal as it carried them over. -/
structure AfterRestart (zones : List (Int → Int)) (w : DeliveryWorld) : Prop where
  durable : Durable zones w.host
  outcome : ∀ rec ∈ w.recorded, rec.restarted = true →
    ∃ e r, w.host.journal.entries.get? rec.actionID = some e ∧ HasOutcome e r ∧
      CarriedOver rec.result r

theorem onDisk_outcome (hd : Durable zones h) {id : Str} (he : h.journal.entries.get? id = some e)
    (ho : HasOutcome e r) :
    ∃ e', h.onDisk.entries.get? id = some e' ∧ HasOutcome e' r := by
  cases hl : h.left with
  | none => exact ⟨e, by rw [JournalHost.onDisk, hl]; exact he, ho⟩
  | some w =>
    obtain ⟨-, hents, hn⟩ := hd.left w hl
    have hg : h.onDisk.entries.get? id =
        if id = w.entry.action.id then some w.entry else h.journal.entries.get? id := by
      rw [JournalHost.onDisk, hl, ← hents]
      exact KeyMap.get?_insert _ _ _ _
    by_cases hid : id = w.entry.action.id
    · refine ⟨w.entry, by rw [hg, if_pos hid], ?_⟩
      rw [hid] at he
      rcases hn with ⟨h0, -⟩ | ⟨_, hc, -, hsucceeded⟩
      · rw [he] at h0
        cases h0
      rw [he] at hc
      cases hc
      rcases hsucceeded with ⟨hst, hr, -⟩ | ⟨hp, -, -, hrepo, -⟩
      · exact ⟨hst ▸ ho.1, hr.trans ho.2⟩
      have hn := ho.reported_of_allowed hp
      exact ⟨.inr hn, (hrepo hn).trans ho.2⟩
    · exact ⟨e, by rw [hg, if_neg hid, he], ho⟩

theorem Shows.outcome {e' : Entry} (h : Shows e e') (ho : HasOutcome e r) :
    ∃ r', HasOutcome e' r' ∧ SameCarried r r' := by
  obtain ⟨-, -, -, h⟩ := h
  have hne : e.state ≠ .running := by
    rcases ho.1 with hs | hs <;> rw [hs] <;> decide
  rw [if_neg hne, ho.2] at h
  obtain ⟨hst, he⟩ := h
  cases hr : e'.result with
  | none =>
    rw [hr] at he
    exact he.elim
  | some r' =>
    rw [hr] at he
    exact ⟨r', ⟨hst ▸ ho.1, hr⟩, he⟩

/-- **A restart carries the outcome of an action over.** -/
theorem restart_outcome {clock : Str → Nat → GoTime} (hd : Durable zones h)
    (hev : FaithfulEvent zones h (.restart lo clock))
    (hj : openJournal lo clock h.journal.file = .ok j) {id : Str}
    (he : h.journal.entries.get? id = some e) (ho : HasOutcome e r) :
    ∃ e' r', j.entries.get? id = some e' ∧ HasOutcome e' r' ∧ SameCarried r r' := by
  obtain ⟨hlo, hroom⟩ := hev
  obtain ⟨_, hk, -, hshow⟩ := hd.reopen hlo hroom
  rw [hj] at hk
  cases hk
  obtain ⟨_, he1, ho1⟩ := onDisk_outcome hd he ho
  have hid := hshow id
  rw [he1] at hid
  cases he' : j.entries.get? id with
  | none =>
    rw [he'] at hid
    exact hid.elim
  | some e' =>
    rw [he'] at hid
    obtain ⟨r', hr', hs⟩ := Shows.outcome hid ho1
    exact ⟨e', r', rfl, hr', hs⟩

theorem afterRestart_journal
    (hp : InProcess w) (h : AfterRestart zones w) (hev : FaithfulEvent zones w.host ev)
    (hc : CleanAppend w.host ev) (hn : deliveryNext w (.journal ev) = some w') :
    AfterRestart zones w' := by
  obtain ⟨_, hhost, rfl⟩ := Option.map_eq_some_iff.1 hn
  refine ⟨journalNext_durable h.durable hev hc hhost, ?_⟩
  intro rec hm ht
  obtain ⟨hm, hh⟩ := List.mem_filter.1 hm
  rcases List.mem_append.1 hm with hw | hold
  · rw [(recordedBy_outcome hp.filed hhost hw).1] at ht
    cases ht
  obtain ⟨old, hmemold, rfl⟩ := List.mem_map.1 hold
  cases ev with
  | call =>
    obtain ⟨_, r, he, ho, hcarr⟩ := h.outcome old hmemold ht
    obtain ⟨e', he', ho'⟩ := call_keeps_outcome hp.filed hhost he ho hh
    exact ⟨e', r, he', ho', hcarr⟩
  | restart =>
    obtain ⟨_, hj, rfl⟩ := Option.map_eq_some_iff.1 hhost
    have hj := eq_ok_of_toOption hj
    cases hold : old.restarted with
    | false =>
      -- the first restart since the outcome was recorded
      obtain ⟨_, he, ho⟩ := hp.outcome old hmemold hold
      obtain ⟨e', r', he', ho', hs⟩ := restart_outcome h.durable hev hj he ho
      exact ⟨e', r', he', ho', hs.2.1, hs.2.2.1, hs.2.2.2.1, hs.2.2.2.2.2.2⟩
    | true =>
      obtain ⟨_, _, he, ho, hok, houtput, herr, -⟩ := h.outcome old hmemold hold
      obtain ⟨e', r', he', ho', hs⟩ := restart_outcome h.durable hev hj he ho
      exact ⟨e', r', he', ho', hs.2.1.trans hok, hs.2.2.1.trans houtput,
        hs.2.2.2.1.trans herr, hs.2.2.2.2.2.2⟩

/-! ## Delivered results -/

/-- The row holds the posted result. -/
def StoredFrom (r : ActionResult) (row : ActionRow) : Prop :=
  row.state = .done ∧ ∃ lo lo', marshalActionResult lo' (handledResult lo lo' r) = some row.result

/-- The rows of the deliveries hold results that stand in `Q` to what was recorded. -/
def StoredAs (Q : Delivered → ActionResult → Prop) (store : World) (ds : List Delivered) : Prop :=
  ∀ d ∈ ds, store.queue.Finished d.serial ∧ ∀ row ∈ store.db.actions, row.serial = d.serial →
    ∃ r, Q d r ∧ StoredFrom r row

theorem StoredAs.next {store' : World} {op : Op}
    {ds : List Delivered} (h : StoredAs Q store ds) (hi : store.Inv)
    (hn : next store op = some store') : StoredAs Q store' ds := by
  have he := next_effect hi.2 hi.1.ids hn
  intro d hd
  obtain ⟨hfin, hr⟩ := h d hd
  refine ⟨(he.finished hi.1 hfin).1, ?_⟩
  intro row hw hs
  exact hr row (he.mem_of_finished hi.1 hfin hw hs) hs

theorem storedAs_deliveries {call : ReportCall} {c : CompleteCall} (hi : w.store.Inv)
    (hq : reportRequest w call = some c)
    (hn : next w.store (.completeClaimedAction c) = some store)
    (hQ : ∀ rec ∈ w.recorded, rec.actionID = call.actionID → ∀ e r serial,
      w.host.journal.entries.get? rec.actionID = some e → reportedResult call.agentNow e = some r →
        Q ⟨serial, rec.result, rec.restarted⟩ r) :
    StoredAs Q store (deliveries w call.actionID c) := by
  obtain ⟨e, he, hq⟩ := Option.bind_eq_some_iff.1 hq
  obtain ⟨r, hr, hq⟩ := Option.bind_eq_some_iff.1 hq
  obtain ⟨_, hp, hq⟩ := Option.bind_eq_some_iff.1 hq
  obtain ⟨hres, hlo⟩ := handleActionResult_post hp (eq_ok_of_toOption hq)
  obtain ⟨blob, hb, hn⟩ := Option.bind_eq_some_iff.1 hn
  obtain ⟨-, rfl⟩ := guarded hn
  rw [hres, hlo] at hb
  intro d hd
  obtain ⟨_, hser, hd⟩ := List.mem_flatMap.1 hd
  obtain ⟨rec, hc, rfl⟩ := List.mem_map.1 hd
  obtain ⟨hc, hid⟩ := List.mem_filter.1 hc
  have hid := of_decide_eq_true hid
  obtain ⟨row, hw, rfl⟩ := List.mem_map.1 hser
  obtain ⟨hw, haccepts⟩ := List.mem_filter.1 hw
  -- every row with this serial is the accepted one, with its result written
  have ha : ∀ row' ∈ updateWhere c.accepts (ActionRow.finish blob c.now) w.store.db.actions,
      row'.serial = row.serial → row' = ActionRow.finish blob c.now row := by
    intro row' hw' hs
    obtain ⟨s, hs', ⟨-, rfl⟩ | ⟨hno, rfl⟩⟩ := mem_updateWhere.1 hw'
    · have heq : s.serial = row.serial := hs
      rw [eq_of_key_eq hi.1.serials hs' hw heq]
    · rw [eq_of_key_eq hi.1.serials hs' hw hs, haccepts] at hno
      cases hno
  refine ⟨⟨hi.1.serial_lt row hw, ?_⟩, ?_⟩
  · intro row' hw' hs
    rw [ha row' hw' hs]
    rfl
  · intro row' hw' hs
    rw [ha row' hw' hs]
    exact ⟨r, hQ rec hc hid e r row.serial (hid ▸ he) hr, rfl, _, _, hb⟩

theorem StoredFrom.polled {row : ActionRow} (h : StoredFrom r row)
    (hi : store.Inv) (hr : row ∈ store.db.actions) (lo : Int → Int) :
    ∃ res, pollAction lo row.id store.db = .returned res ∧ res.ok = r.ok ∧
      res.output = toValid r.output ∧ res.error = toValid r.error ∧
      res.refusal = acceptedRefusal r.refusal := by
  obtain ⟨hd, _, _, hb⟩ := h
  refine ⟨_, pollAction_done hi.1.ids hr (hi.1.rows row hr).readable hd hb, rfl, ?_, ?_, ?_⟩
  · exact toValid_toValid _
  · exact toValid_toValid _
  · exact toValid_acceptedRefusal _

theorem HasOutcome.reported {r' : ActionResult} {now : GoTime} (h : HasOutcome e r)
    (hr : reportedResult now e = some r') : r' = r := by
  rw [reportedResult] at hr
  rcases h.1 with hs | hs
  · rw [hs] at hr
    rw [h.2] at hr
    exact (Option.some.inj hr).symm
  · rw [hs] at hr
    cases hr

/-! ## Runs -/

def AsRecorded (d : Delivered) (r : ActionResult) : Prop := d.restarted = false → r = d.result

/-- A result delivered after a restart is the recorded one as the journal carried it over. -/
def AsCarriedOver (d : Delivered) (r : ActionResult) : Prop :=
  d.restarted = true → CarriedOver d.result r ∧ ValidUTF8 r.output ∧ ValidUTF8 r.error

/-- What holds in every run. -/
structure Delivering (w : DeliveryWorld) : Prop where
  inv : w.store.Inv
  process : InProcess w
  stored : StoredAs AsRecorded w.store w.delivered

/-- What holds in the runs whose journal reads back what was acknowledged. -/
structure DeliveringOver (zones : List (Int → Int)) (w : DeliveryWorld) : Prop extends
    Delivering w where
  restart : AfterRestart zones w
  carried : StoredAs AsCarriedOver w.store w.delivered

theorem deliveryNext_delivering {ev : DeliveryEvent} (h : Delivering w)
    (hn : deliveryNext w ev = some w') : Delivering w' := by
  cases ev with
  | journal =>
    have hp := inProcess_journal h.process hn
    obtain ⟨_, -, rfl⟩ := Option.map_eq_some_iff.1 hn
    exact ⟨h.inv, hp, h.stored⟩
  | report call =>
    obtain ⟨c, hq, hn⟩ := Option.bind_eq_some_iff.1 hn
    obtain ⟨store, hs, rfl⟩ := Option.map_eq_some_iff.1 hn
    refine ⟨next_inv _ _ _ h.inv hs, ⟨h.process.filed, h.process.outcome⟩,
      List.forall_mem_append.2 ⟨storedAs_deliveries h.inv hq hs ?_, h.stored.next h.inv hs⟩⟩
    intro rec hc _ e r serial he hr ht
    obtain ⟨_, he', ho⟩ := h.process.outcome rec hc ht
    rw [he] at he'
    cases he'
    exact ho.reported hr
  | store op =>
    obtain ⟨store, hs, rfl⟩ := Option.map_eq_some_iff.1 hn
    exact ⟨next_inv _ _ _ h.inv hs, ⟨h.process.filed, h.process.outcome⟩, h.stored.next h.inv hs⟩

theorem deliveryNext_deliveringOver
    {ev : DeliveryEvent} (h : DeliveringOver zones w) (hev : FaithfulStep zones w ev)
    (hn : deliveryNext w ev = some w') : DeliveringOver zones w' := by
  have hd := deliveryNext_delivering h.toDelivering hn
  cases ev with
  | journal =>
    have hr := afterRestart_journal h.process h.restart hev.1 hev.2 hn
    obtain ⟨_, -, rfl⟩ := Option.map_eq_some_iff.1 hn
    exact ⟨hd, hr, h.carried⟩
  | report call =>
    obtain ⟨c, hq, hn⟩ := Option.bind_eq_some_iff.1 hn
    obtain ⟨store, hs, rfl⟩ := Option.map_eq_some_iff.1 hn
    refine ⟨hd, ⟨h.restart.durable, h.restart.outcome⟩,
      List.forall_mem_append.2 ⟨storedAs_deliveries h.inv hq hs ?_, h.carried.next h.inv hs⟩⟩
    intro rec hc _ e r serial he hr ht
    obtain ⟨_, r', he', ho, hcarr⟩ := h.restart.outcome rec hc ht
    rw [he] at he'
    cases he'
    rw [ho.reported hr]
    -- the journal of such a run holds only text that reads back
    have hd := h.restart.durable
    have hf := ((hd.entries _ hd.zone _ e he).2).result r' ho.2
    exact ⟨hcarr, hf.output, hf.error⟩
  | store op =>
    obtain ⟨store, hs, rfl⟩ := Option.map_eq_some_iff.1 hn
    exact ⟨hd, ⟨h.restart.durable, h.restart.outcome⟩, h.carried.next h.inv hs⟩

theorem delivering_start (lo : Int → Int) (t : Nat) : Delivering (DeliveryWorld.start lo t) := by
  refine ⟨World.inv_start t, ⟨filed_empty, ?_⟩, ?_⟩
  · intro rec hr
    cases hr
  · intro d hd
    cases hd

theorem deliveringOver_start (hlo : lo ∈ zones)
    (t : Nat) : DeliveringOver zones (DeliveryWorld.start lo t) := by
  refine ⟨delivering_start lo t, ⟨durable_fresh hlo, ?_⟩, ?_⟩
  · intro rec hr
    cases hr
  · intro d hd
    cases hd

/-- The claim that leases the sample action to its node. -/
def sampleLease : ClaimCall := ⟨lit "n1", [], 60000000000, [], lit "t1", 0⟩

/-- The guard of the sample action finds the device busy. -/
def sampleRefusal : ActionResult :=
  executorResult Agent.sampleAction.id (lit "pid 7") (some ⟨lit "device is not idle", true⟩)
    (reading 20 1) (reading 21 2)

/-- The action is enqueued and leased, journaled, and refused by the executor. -/
def refusedStep : List DeliveryEvent :=
  [.store (.enqueueAction (lit "n1") Agent.sampleAction 0), .store (.beginClaim sampleLease),
    .store (.deadLetter sampleLease), .store (.lease sampleLease)] ++
  (callsFrom 1 (sampleStart ++ [(.recordOutcome Agent.sampleAction.id sampleRefusal, none)])).map
    .journal

/-- The agent posts the outcome of the sample action. -/
def sampleReport : DeliveryEvent :=
  .report ⟨Agent.sampleAction.id, atSecond 30, Agent.sampleAction.id, [], utcZone, lit "n1", 0⟩

/-- The refusal code the waiting step is given. -/
def returnedRefusal (w : DeliveryWorld) : Option Str :=
  match pollAction utcZone Agent.sampleAction.id w.store.db with
  | .returned res => some res.refusal
  | _ => none

end KubeNeuron.Delivery
