import KubeNeuron.Agent.Loop

/-!
# At most one execution of each action

The executor is reached only from an entry in `received`, behind a running marker that is in the
file. From then on the action is settled (`JournalBacking`): neither the process nor any later one
finds it in `received` again while the journal holds it. `executor_at_most_once` states both over
all runs, with crashes at every point.
-/

namespace KubeNeuron.Agent

open Lib KubeNeuron.Types Process

/-! ## Operations as steps of a backed journal -/

/-- The action an operation is about. -/
def JournalOp.id : JournalOp → Option Str
  | .recordReceived a => some a.id
  | .setClaim id _ _ => some id
  | .markRunning id => some id
  | .recordOutcome id _ => some id
  | .markOutcomeUnknown id => some id
  | .markReported id => some id
  | .compactReported _ => none

variable {op : JournalOp} {e : Entry} {settled : List Str} {j : Journal} {w : Write}
  {p : Pending} {now : GoTime} {clock : Nat → GoTime} {lo : Int → Int} {ss : List Stored}
  {ran : List Str}

theorem JournalOp.id_of_target {id : Str} {next : State}
    (h : op.target = some (id, next)) : op.id = some id := by
  cases op with
  | recordReceived | setClaim | compactReported => cases h
  | _ => cases h; rfl

theorem advanced_action (e : Entry) (now : GoTime) (next : State) (r : Option ActionResult) :
    (advanced e now next r).action = e.action ∧ (advanced e now next r).state = next := by
  cases next <;> exact ⟨rfl, rfl⟩

theorem advanced_zones (h : e.leaseExpiresAt.zone = .utc) (now : GoTime) (next : State)
    (r : Option ActionResult) : (advanced e now next r).leaseExpiresAt.zone = .utc ∧
      (advanced e now next r).updatedAt.zone = .utc := by
  cases next with
  | reported => exact ⟨rfl, rfl⟩
  | _ => exact ⟨h, rfl⟩

theorem Kept.get? (h : Kept j.entries op e) :
    ∃ id, op.id = some id ∧ j.entries.get? id = some e := by
  cases h with
  | received he | claimed he => exact ⟨_, rfl, he⟩
  | repeated ht he => exact ⟨_, JournalOp.id_of_target ht, he⟩

theorem Planned.id (h : Planned j.entries now op e) (hs : SoundEntries j.entries) :
    op.id = some e.action.id := by
  cases h with
  | received => rfl
  | claimed he => exact congrArg some (hs _ _ he).1.symm
  | advanced ht he =>
    rw [JournalOp.id_of_target ht, (advanced_action _ _ _ _).1, (hs _ _ he).1]

theorem Planned.current (h : Planned j.entries now op e) (hs : SoundEntries j.entries) :
    (j.entries.get? e.action.id = none ∧ e.state = .received) ∨
      ∃ current, j.entries.get? e.action.id = some current ∧ current.state ≠ .reported ∧
        (e.state = .received → current.state = .received) := by
  cases h with
  | received _ hn => exact .inl ⟨hn, rfl⟩
  | claimed he hne => exact Or.inr ⟨_, by rw [(hs _ _ he).1]; exact he, hne, fun h => h⟩
  | @advanced _ id next current ht he hp =>
    refine .inr ⟨current, ?_, ?_, ?_⟩
    · rw [(advanced_action _ _ _ _).1, (hs _ _ he).1]
      exact he
    · intro hr
      rw [hr] at hp
      cases hp
    rw [(advanced_action _ _ _ _).2]
    rintro rfl
    -- no transition leads to `received`
    cases hst : current.state <;> simp [allowedTransition, hst] at hp

theorem Planned.markRunning {id : Str} {current : Entry}
    (h : Planned j.entries now (.markRunning id) e) (he : j.entries.get? id = some current) :
    e = { current with state := .running, updatedAt := now.utc } := by
  cases h with
  | advanced ht hg =>
    cases ht
    rw [he] at hg
    cases hg
    rfl

theorem Planned.sound (h : Planned j.entries now op e) (hs : SoundEntries j.entries)
    (hv : validateEntry e = .ok ()) (hid : ∀ a, op = .recordReceived a → ValidUTF8 a.id) :
    Sound e := by
  cases h with
  | received => exact ⟨hv, rfl, rfl, hid _ rfl⟩
  | claimed he => exact ⟨hv, rfl, rfl, (hs _ _ he).2.id⟩
  | advanced _ he =>
    obtain ⟨hx, hu⟩ := advanced_zones (hs _ _ he).2.expiry now _ op.result
    exact ⟨hv, hx, hu, by rw [(advanced_action _ _ _ _).1]; exact (hs _ _ he).2.id⟩

variable {busy settled' : List Str} {rest : List Entry}

theorem Backed.mono {ss : List Stored}
    (h : Backed settled j ss) (hs : ∀ id ∈ settled', id ∈ settled) : Backed settled' j ss :=
  { h with settled := fun id hid => h.settled id (hs id hid) }

theorem Backed.write (h : Backed settled j ss) (hr : Ready lo j w)
    (hp : Planned j.entries now op w.entry)
    (hid : ∀ a, op = .recordReceived a → ValidUTF8 a.id) :
    ∃ ss', Backed (settled.filter w.journal.holds) w.journal ss' ∧ Sound w.entry ∧
      (w.entry.action.id ∈ settled.filter w.journal.holds → w.entry.state ≠ .received) := by
  obtain ⟨ss', hss⟩ := h.compacts hr.compacts
  refine ⟨ss', hss, hp.sound h.entries hr.valid hid, ?_⟩
  intro hm hv
  obtain ⟨-, _, he, hne⟩ := h.settled _ (List.mem_of_mem_filter hm)
  rcases hp.current h.entries with ⟨hn, -⟩ | ⟨_, hc, -, hb⟩
  · rw [hn] at he
    cases he
  · rw [hc] at he
    exact hne (Option.some.inj he ▸ hb hv)

theorem Backed.held_of_commit (h : Backed settled j ss) (hr : Ready lo j w)
    (hp : Planned j.entries now op w.entry) {id : Str}
    (hm : id ∈ settled.filter w.commit.holds) : id ∈ settled.filter w.journal.holds := by
  obtain ⟨hid, hh⟩ := List.mem_filter.1 hm
  refine List.mem_filter.2 ⟨hid, ?_⟩
  by_cases heq : id = w.entry.action.id
  · obtain ⟨-, _, he, -⟩ := h.settled id hid
    rcases hp.current h.entries with ⟨hn, -⟩ | ⟨_, hc, hne, -⟩
    · rw [heq, hn] at he
      cases he
    · rw [heq, Journal.holds, hr.compacts.get?_of_ne hc hne]
      rfl
  · rw [Journal.holds, Write.commit, KeyMap.get?_insert, if_neg heq] at hh
    exact hh

/-- **A successful operation keeps the journal backed.** -/
theorem Backed.call (h : Backed settled j ss) (hp : Started lo now j op p)
    (hid : ∀ a, op = .recordReceived a → ValidUTF8 a.id) :
    ∃ ss', Backed (settled.filter p.commit.holds) p.commit ss' := by
  cases p with
  | done _ entry =>
    cases entry with
    | none => exact h.compacts hp.1
    | some =>
      rw [hp.1]
      exact ⟨ss, h.mono fun id hm => List.mem_of_mem_filter hm⟩
  | write =>
    obtain ⟨hr, hl, -⟩ := hp
    obtain ⟨_, hss, hd, hs⟩ := h.write hr hl hid
    exact ⟨_, (hss.commit hr hd hs).mono fun id => h.held_of_commit hr hl⟩

theorem Started.get?_of_ne (hp : Started lo now j op p) (hs : SoundEntries j.entries)
    {id : Str} (hid : op.id ≠ some id) (he : j.entries.get? id = some e)
    (hne : e.state ≠ .reported) : p.commit.entries.get? id = some e := by
  cases p with
  | done _ entry =>
    cases entry with
    | none => exact hp.1.get?_of_ne he hne
    | some =>
      rw [hp.1]
      exact he
  | write =>
    obtain ⟨hr, hl, -⟩ := hp
    rw [Pending.commit, Write.commit, KeyMap.get?_insert, if_neg]
    · exact hr.compacts.get?_of_ne he hne
    · rintro rfl
      exact hid (hl.id hs)

theorem Started.entry (hp : Started lo now j op p) (hs : SoundEntries j.entries)
    (he : p.entry = some e) :
    op.id = some e.action.id ∧ p.commit.entries.get? e.action.id = some e := by
  cases p with
  | done _ entry =>
    cases entry with
    | none => cases he
    | some =>
      cases he
      obtain ⟨hj, hk⟩ := hp
      obtain ⟨id, hid, hg⟩ := hk.get?
      obtain rfl := (hs id e hg).1
      exact ⟨hid, by rw [hj]; exact hg⟩
  | write =>
    cases he
    exact ⟨hp.2.1.id hs, KeyMap.get?_insert_self _ _ _⟩

/-! ## What the file holds before an execution -/

/-- The file holds a received record of the action that carries the claim, and behind it a running
record that carries the same claim. -/
def DurablyStarted (lo : Int → Int) (file : Str) (c : ClaimedAction) : Prop :=
  ∃ pre claim mid running post,
    lineRecords lo file = pre ++ claim :: (mid ++ running :: post) ∧
    claim.entry.action.id = c.action.id ∧ claim.entry.state = .received ∧
    claim.entry.leaseToken = toValid c.leaseToken ∧
    running.entry.action.id = c.action.id ∧ running.entry.state = .running ∧
    running.entry.leaseToken = toValid c.leaseToken ∧ c.leaseToken ≠ []

theorem lineRecords_written {ss : List Stored} {lines : List Str} {tail : Str}
    (h : Written ss lines) (ht : (0x0A : UInt8) ∉ tail) (lo : Int → Int) :
    lineRecords lo (lines.flatten ++ tail) = ss.map fun s => s.read lo 0 := by
  induction h with
  | nil =>
    have hlast : tail.getLast? ≠ some 0x0A := fun hl => ht (List.mem_of_getLast? hl)
    rw [List.flatten_nil, List.nil_append, lineRecords, splitAfter_tail ht]
    simp [hlast]
  | cons hs _ ih =>
    obtain ⟨_, rfl, -, hnl, hr⟩ :=
      decodeRecord_encodeRecord hs.1 (by rw [hs.2]; decide) lo
    rw [lineRecords, List.flatten_cons, List.append_assoc, List.append_assoc,
      List.singleton_append, splitAfter_line hnl, List.filterMap_cons_some]
    · rw [List.map_cons, ← ih]
      rfl
    · rw [if_pos (by simp), List.dropLast_concat, hr]
      rfl

variable {c : ClaimedAction}
/-- **The running marker settles its action**, and its line stands behind that of the claim. -/
theorem Backed.markRunning (h : Backed settled j ss)
    (hp : Started lo now j (.markRunning c.action.id) p) (he : j.entries.get? c.action.id = some e)
    (hv : e.state = .received) (htok : e.leaseToken = c.leaseToken)
    (hne : c.leaseToken ≠ []) :
    (∃ ss', Backed (c.action.id :: settled.filter p.commit.holds) p.commit ss') ∧
      ∀ lo', DurablyStarted lo' p.commit.file c := by
  cases p with
  | done _ entry =>
    cases entry with
    | none => obtain ⟨-, r, hr⟩ := hp; cases hr
    | some =>
      -- a received action is not found running
      obtain ⟨-, hk⟩ := hp
      cases hk with
      | repeated ht hg hst =>
        cases ht
        rw [he] at hg
        cases hg
        rw [hv] at hst
        cases hst
  | write w =>
    obtain ⟨hy, hplan, -⟩ := hp
    obtain ⟨_, hss, hd, hset⟩ := h.write hy hplan (by simp)
    have hc := hss.commit hy hd hset
    have hn := hplan.markRunning he
    have hid : w.entry.action.id = c.action.id := by
      rw [hn]
      exact (h.entries _ e he).1
    have hk : w.journal.entries.get? c.action.id = some e :=
      hy.compacts.get?_of_ne he (by rw [hv]; decide)
    obtain ⟨pre, s, post, rfl, hs, hpost, hst, hsame⟩ := hss.tells _ e hk
    have hssound : Sound s.record.entry := hss.sound s (by simp)
    have hwsame : SameIntent s.record.entry w.entry := by
      rw [hn]
      exact ⟨hsame.action, hsame.token, hsame.expiry⟩
    have hu : w.entry.state = .running := by rw [hn]
    have hleaves : Leaves c.action.id pre s post (w.stored lo) [] :=
      ⟨hs, hst.trans hv, hpost, hid, Or.inl hu, hwsame, by simp⟩
    constructor
    · refine ⟨_, { hc with settled := ?_ }⟩
      intro id hm
      obtain _ | ⟨_, hm⟩ := hm
      · refine ⟨⟨pre, s, post, w.stored lo, [], by simp, hleaves⟩, w.entry, ?_, ?_⟩
        · rw [← hid]
          exact KeyMap.get?_insert_self _ _ _
        · rw [hu]
          decide
      · exact hc.settled id (h.held_of_commit hy hplan hm)
    · intro lo'
      obtain ⟨lines, hl, hf⟩ := hc.lines
      refine ⟨pre.map (·.read lo' 0), s.read lo' 0, post.map (·.read lo' 0),
        (w.stored lo).read lo' 0, [], ?_, (read_id hssound lo' 0).trans hs,
        (read_state hssound lo' 0).trans (hst.trans hv), ?_,
        (read_id (s := w.stored lo) hd lo' 0).trans hid,
        (read_state (s := w.stored lo) hd lo' 0).trans hu, ?_, hne⟩
      · rw [Pending.commit, hf, ← List.append_nil lines.flatten, lineRecords_written hl (by simp)]
        simp
      · exact hsame.token.trans (by rw [htok])
      have hwtoken : w.entry.leaseToken = c.leaseToken := by
        rw [hn]
        exact htok
      exact congrArg toValid hwtoken

/-! ## The points of the loop -/

/-- The entries a recovery pass has still to visit are those of the journal, each once, and none of
them is of an action the loop is busy with. -/
def RestOk (j : Journal) (busy : List Str) (rest : List Entry) : Prop :=
  (busy ++ rest.map fun e => e.action.id).Nodup ∧
    ∀ e ∈ rest, j.entries.get? e.action.id = some e ∧ e.state ≠ .reported

/-- What holds at each point of the loop. -/
def ControlOk (j : Journal) (ran : List Str) : Control → Prop
  | .idle => True
  | .recovering rest => RestOk j [] rest
  | .fetched c => ValidUTF8 c.action.id
  | .recorded _ => True
  | .starting c rest => RestOk j [c.action.id] rest ∧
      ∃ e, j.entries.get? c.action.id = some e ∧ e.state = .received ∧
        e.leaseToken = c.leaseToken ∧ c.leaseToken ≠ []
  | .executing c rest => RestOk j [c.action.id] rest ∧ c.action.id ∉ ran ∧
      ∀ lo, DurablyStarted lo j.file c
  | .executed c _ rest => RestOk j [c.action.id] rest
  | .uncertain c rest => RestOk j [c.action.id] rest
  | .reporting e _ rest => RestOk j [e.action.id] rest
  | .acknowledged id rest => RestOk j [id] rest

/-- The action whose running marker is written and whose executor is not invoked yet. -/
def Control.underway : Control → List Str
  | .executing c _ => [c.action.id]
  | _ => []

theorem RestOk.idle (h : RestOk j busy rest) : RestOk j [] rest :=
  ⟨(List.nodup_append.1 h.1).2.1, h.2⟩

theorem RestOk.nil (j : Journal) (id : Str) : RestOk j [id] [] := ⟨by simp, by simp⟩

theorem RestOk.call {id : Str} (h : RestOk j [id] rest) (hp : Started lo now j op p)
    (hs : SoundEntries j.entries) (hid : op.id = some id) : RestOk p.commit [id] rest := by
  refine ⟨h.1, fun e he => ⟨?_, (h.2 e he).2⟩⟩
  refine hp.get?_of_ne hs ?_ (h.2 e he).1 (h.2 e he).2
  rw [hid]
  intro heq
  have hne := (List.nodup_append.1 h.1).2.2 id (.head _) e.action.id (List.mem_map_of_mem he)
  exact hne (Option.some.inj heq)

/-- The loop is at a point where no executor is due. -/
def Settles (j : Journal) (ran : List Str) (c : Control) : Prop :=
  ControlOk j ran c ∧ c.underway = []

theorem settles_proceed (h : RestOk j busy rest) (ok : Bool) :
    Settles j ran (.proceed rest ok) := by
  cases ok with
  | false => exact ⟨trivial, rfl⟩
  | true => exact ⟨h.idle, rfl⟩

theorem settles_report (c : ClaimedAction) (r : ActionResult) (h : RestOk j [e.action.id] rest) :
    Settles j ran (.report c e r rest) := by
  rw [Control.report]
  split_ifs
  · exact ⟨h, rfl⟩
  · exact settles_proceed h false

theorem settles_process (now : GoTime) (he : j.entries.get? e.action.id = some e)
    (h : RestOk j [e.action.id] rest) : Settles j ran (.process now e rest) := by
  rw [Control.process]
  split_ifs with hv
  · exact settles_proceed h false
  have ht : e.leaseToken ≠ [] := by
    intro hn
    simp [claimStillValid, hn] at hv
  cases hs : e.state with
  | received => exact ⟨⟨h, e, he, hs, rfl, ht⟩, rfl⟩
  | outcomeKnown =>
    cases hr : e.result with
    | none => exact settles_proceed h false
    | some => exact settles_report _ _ h
  | outcomeUnknown => exact settles_report _ _ h
  | running => exact ⟨h, rfl⟩
  | reported => exact settles_proceed h true
  | other => exact settles_proceed h false

theorem restOk_listRecoverable (hs : SoundEntries j.entries) : RestOk j [] j.listRecoverable := by
  constructor
  · have hk := KeyMap.nodup_keys j.entries
    have hmap : (j.entries.entries.map Prod.snd).map (fun e => e.action.id) =
        j.entries.entries.map Prod.fst := by
      rw [List.map_map]
      refine List.map_congr_left ?_
      rintro ⟨id, e⟩ hm
      exact (hs id e (KeyMap.mem_entries.1 hm)).1
    rw [← hmap] at hk
    exact hk.sublist (List.filter_sublist.map _)
  · intro e he
    obtain ⟨hm, hne⟩ := List.mem_filter.1 he
    obtain ⟨⟨id, e'⟩, hp, rfl⟩ := List.mem_map.1 hm
    have hg := KeyMap.mem_entries.1 hp
    rw [(hs id e' hg).1]
    exact ⟨hg, by simpa using hne⟩

/-! ## The invariant -/

/-- Every action in `ran` has left `received` for good. -/
def ProcessOk (ran : List Str) : Process → Prop
  | .down file => FileBacked ran file
  | .opening _ j ids => (∃ ss, Backed ran j ss) ∧ ids.Nodup ∧
      ∀ id ∈ ids, ∃ e, j.entries.get? id = some e ∧ e.state = .running
  | .up _ j control => (∃ ss, Backed (control.underway ++ ran) j ss) ∧ ControlOk j ran control

theorem FileBacked.mono {file : Str}
    (h : FileBacked settled file) (hb : ∀ id ∈ settled', id ∈ settled) :
    FileBacked settled' file := by
  obtain ⟨ss, lines, tail, hw, hf, ht, hd, hs⟩ := h
  exact ⟨ss, lines, tail, hw, hf, ht, hd, fun id hid => hs id (hb id hid)⟩

theorem processOk_mono {ran ran' : List Str} {p : Process} (h : ProcessOk ran p)
    (hs : ∀ id ∈ ran', id ∈ ran) : ProcessOk ran' p := by
  cases p with
  | down => exact FileBacked.mono h hs
  | opening =>
    obtain ⟨⟨ss, hss⟩, hi⟩ := h
    exact ⟨⟨ss, hss.mono hs⟩, hi⟩
  | up _ _ control =>
    obtain ⟨⟨ss, hss⟩, hctl⟩ := h
    refine ⟨⟨ss, hss.mono fun id hid => ?_⟩, ?_⟩
    · rcases List.mem_append.1 hid with hid | hid
      · exact List.mem_append_left _ hid
      · exact List.mem_append_right _ (hs id hid)
    · cases control with
      | executing => exact ⟨hctl.1, fun hid => hctl.2.1 (hs _ hid), hctl.2.2⟩
      | _ => exact hctl

variable {control : Control}

theorem controlOk_operation (h : ControlOk j ran control)
    (hop : control.operation = some op) : ∀ a, op = .recordReceived a → ValidUTF8 a.id := by
  cases control with
  | fetched =>
    cases hop
    intro a ha
    cases ha
    exact h
  | idle | recovering | executing | reporting => cases hop
  | _ => cases hop; exact nofun

theorem underway_of_operation (hop : control.operation = some op) : control.underway = [] := by
  cases control with
  | executing => cases hop
  | _ => rfl

theorem processOk_up (hb : ∃ ss, Backed ran j ss) (hc : Settles j ran control) :
    ProcessOk ran (.up lo j control) := by
  refine ⟨?_, hc.1⟩
  rw [hc.2]
  exact hb

theorem processOk_call (hb : Backed ran j ss) (hc : ControlOk j ran control)
    (hop : control.operation = some op) (hp : Started lo (clock 0) j op p)
    (he : p.entry = some e) :
    ProcessOk (ran.filter p.commit.holds) (.up lo p.commit (control.succeed now e)) := by
  have hl := hb.call hp (controlOk_operation hc hop)
  obtain ⟨hid, hg⟩ := hp.entry hb.entries he
  cases control with
  | fetched => exact processOk_up hl ⟨trivial, rfl⟩
  | recorded => exact processOk_up hl (settles_process now hg (RestOk.nil _ _))
  | starting =>
    cases hop
    obtain ⟨ht, _, he', hr, hk, hne⟩ := hc
    obtain ⟨hbacked, hs⟩ := hb.markRunning hp he' hr hk hne
    refine ⟨hbacked, ht.call hp hb.entries rfl, ?_, hs⟩
    intro hm
    obtain ⟨-, _, hf, hne⟩ := hb.settled _ (List.mem_of_mem_filter hm)
    cases he'.symm.trans hf
    exact hne hr
  | executed c | uncertain c =>
    cases hop
    have heq : c.action.id = e.action.id := Option.some.inj hid
    refine processOk_up hl (settles_report c _ ?_)
    exact heq ▸ RestOk.call hc hp hb.entries rfl
  | acknowledged =>
    cases hop
    exact processOk_up hl (settles_proceed (RestOk.call hc hp hb.entries rfl) true)
  | _ => cases hop

theorem processOk_fail {j' : Journal} (hb : Backed ran j ss) (hc : ControlOk j ran control)
    (hj : Compacts lo j j') : ProcessOk (ran.filter j'.holds) (.up lo j' control.fail) := by
  have hcompacts := hb.compacts hj
  cases control with
  | executed =>
    refine processOk_up hcompacts ⟨⟨hc.1, fun e he => ?_⟩, rfl⟩
    exact ⟨hj.get?_of_ne (hc.2 e he).1 (hc.2 e he).2, (hc.2 e he).2⟩
  | _ => exact processOk_up hcompacts ⟨trivial, rfl⟩

theorem torn_zero (w : Write) : w.torn 0 = w.journal := by simp [Write.torn]

theorem Backed.holds_of_file {tail id : Str}
    (h : Backed settled j ss) (ht : (0x0A : UInt8) ∉ tail)
    (hid : (down (j.file ++ tail)).holds id = true) : j.holds id = true := by
  obtain ⟨_, hl, hf⟩ := h.lines
  rw [holds, hf, lineRecords_written hl ht] at hid
  obtain ⟨_, hr, hrid⟩ := List.any_eq_true.1 hid
  obtain ⟨s, hs, rfl⟩ := List.mem_map.1 hr
  rw [← beq_iff_eq.1 hrid, read_id (h.sound s hs)]
  exact h.covers s hs

theorem processOk_crash (h : Backed settled j ss) :
    ProcessOk (settled.filter (down j.file).holds) (.down j.file) :=
  FileBacked.mono h.fileBacked fun _ hid => List.mem_of_mem_filter hid

theorem processOk_tear (hb : Backed settled j ss) (hp : Started lo now j op (.write w))
    (hid : ∀ a, op = .recordReceived a → ValidUTF8 a.id) (n : Nat) :
    ProcessOk (settled.filter (down (w.torn n).file).holds) (.down (w.torn n).file) := by
  obtain ⟨hr, hl, -⟩ := hp
  obtain ⟨_, hss, hs, hne⟩ := hb.write hr hl hid
  refine FileBacked.mono (hss.torn hr hs hne n) ?_
  intro id hm
  obtain ⟨hm, hh⟩ := List.mem_filter.1 hm
  by_cases hn : w.line.length ≤ n
  · -- the whole line is in the file, as after a committed append
    have hc := hss.commit hr hs hne
    have hf : (w.torn n).file = w.commit.file ++ [] := by
      rw [Write.torn, Write.commit, List.take_of_length_le hn, List.append_nil]
    rw [hf] at hh
    refine hb.held_of_commit hr hl (List.mem_filter.2 ⟨hm, ?_⟩)
    exact hc.holds_of_file (by simp) hh
  · refine List.mem_filter.2 ⟨hm, ?_⟩
    exact hss.holds_of_file (hr.newline_not_mem (Nat.not_le.1 hn)) hh

theorem markInterrupted_started {id : Str}
    (h : j.markInterrupted lo clock id = .ok w) (he : j.entries.get? id = some e)
    (hs : e.state = .running) : Started lo (clock 0) j (.markOutcomeUnknown id) (.write w) := by
  obtain ⟨hr, _, he', hn⟩ := markInterrupted_spec h
  rw [he] at he'
  cases he'
  refine ⟨hr, ?_, by simp⟩
  rw [hn]
  show Planned j.entries (clock 0) (.markOutcomeUnknown id)
    (advanced e (clock 0) .outcomeUnknown (JournalOp.markOutcomeUnknown id).result)
  exact .advanced rfl he (by rw [hs]; rfl) (by simp [JournalOp.result])

/-! ## Every step keeps the invariant -/

variable {p p' : Process}

section

variable (h : ProcessOk ran p)
include h

theorem processOk_start (hp : p.start lo = some p') :
    ProcessOk ran p' := by
  cases p with
  | opening | up => cases hp
  | down =>
    obtain ⟨j, hj, rfl⟩ := Option.map_eq_some_iff.1 hp
    refine ⟨FileBacked.recover h (eq_ok_of_toOption hj), ?_, ?_⟩
    · exact (KeyMap.nodup_keys j.entries).sublist (List.filter_sublist.map Prod.fst)
    intro id hid
    obtain ⟨⟨_, e⟩, hm, rfl⟩ := List.mem_map.1 hid
    obtain ⟨hm, hs⟩ := List.mem_filter.1 hm
    exact ⟨e, KeyMap.mem_entries.1 hm, by simpa using hs⟩

theorem processOk_mark (hp : p.mark clock = some p') : ProcessOk (ran.filter p'.holds) p' := by
  cases p with
  | down | up => cases hp
  | opening _ _ ids =>
    cases ids with
    | nil => cases hp
    | cons id =>
      obtain ⟨_, hw, rfl⟩ := Option.map_eq_some_iff.1 hp
      obtain ⟨⟨_, hss⟩, hnd, hi⟩ := h
      obtain ⟨_, he, hs⟩ := hi id (.head _)
      have ht := markInterrupted_started (eq_ok_of_toOption hw) he hs
      obtain ⟨hid, hnd⟩ := List.nodup_cons.1 hnd
      refine ⟨hss.call ht (by simp), hnd, ?_⟩
      intro id' hid'
      obtain ⟨e', he', hs'⟩ := hi id' (.tail _ hid')
      refine ⟨e', ht.get?_of_ne hss.entries ?_ he' (by rw [hs']; decide), hs'⟩
      rintro heq
      cases heq
      exact hid hid'

theorem processOk_markFails
    (hp : p.markFails clock = some p') : ProcessOk (ran.filter p'.holds) p' := by
  cases p with
  | down | up => cases hp
  | opening lo j ids =>
    cases ids with
    | nil => cases hp
    | cons id =>
      obtain ⟨⟨_, hss⟩, -, hi⟩ := h
      obtain ⟨_, he, hs⟩ := hi id (.head _)
      rw [markFails] at hp
      cases hw : j.markInterrupted lo clock id with
      | error r =>
        simp only [hw] at hp
        cases hp
        rw [Journal.markInterrupted, he] at hw
        obtain ⟨_, hss'⟩ := hss.compacts (prepare_error hw)
        refine processOk_mono (processOk_crash hss') ?_
        intro id hid
        obtain ⟨hm, hh⟩ := List.mem_filter.1 hid
        refine List.mem_filter.2 ⟨List.mem_filter.2 ⟨hm, ?_⟩, hh⟩
        rw [← List.append_nil r.journal.file] at hh
        exact hss'.holds_of_file (by simp) hh
      | ok =>
        simp only [hw] at hp
        cases hp
        exact processOk_tear hss (markInterrupted_started hw he hs) (by simp) 0

theorem processOk_callStep (hp : p.call clock now = some p') :
    ProcessOk (ran.filter p'.holds) p' := by
  cases p with
  | down | opening => cases hp
  | up =>
    obtain ⟨⟨_, hss⟩, hc⟩ := h
    obtain ⟨_, hop, hp⟩ := Option.bind_eq_some_iff.1 hp
    obtain ⟨_, hq, hp⟩ := Option.bind_eq_some_iff.1 hp
    obtain ⟨_, he, rfl⟩ := Option.map_eq_some_iff.1 hp
    rw [underway_of_operation hop] at hss
    exact processOk_call hss hc hop (start_spec (eq_ok_of_toOption hq)) he

theorem processOk_callFails
    (hp : p.callFails clock = some p') : ProcessOk (ran.filter p'.holds) p' := by
  cases p with
  | down | opening => cases hp
  | up lo j =>
    obtain ⟨⟨_, hss⟩, hc⟩ := h
    obtain ⟨op, hop, hp⟩ := Option.bind_eq_some_iff.1 hp
    rw [underway_of_operation hop] at hss
    cases hq : j.start lo clock op with
    | error =>
      simp only [hq] at hp
      cases hp
      exact processOk_fail hss hc (start_error hq)
    | ok q =>
      cases q with
      | done => simp [hq] at hp
      | write =>
        simp only [hq] at hp
        cases hp
        rw [torn_zero]
        exact processOk_fail hss hc (start_spec hq).1.compacts

theorem processOk_tearStep {n : Nat}
    (hp : p.tear clock n = some p') : ProcessOk (ran.filter p'.holds) p' := by
  cases p with
  | down => cases hp
  | opening =>
    obtain ⟨⟨_, hss⟩, -, hi⟩ := h
    obtain ⟨id, hid, hp⟩ := Option.bind_eq_some_iff.1 hp
    obtain ⟨_, hw, rfl⟩ := Option.map_eq_some_iff.1 hp
    obtain ⟨_, he, hs⟩ := hi id (List.mem_of_head? hid)
    exact processOk_tear hss (markInterrupted_started (eq_ok_of_toOption hw) he hs) (by simp) n
  | up lo j =>
    obtain ⟨⟨_, hss⟩, hc⟩ := h
    obtain ⟨op, hop, hp⟩ := Option.bind_eq_some_iff.1 hp
    rw [underway_of_operation hop] at hss
    cases hq : j.start lo clock op with
    | error => simp [hq] at hp
    | ok q =>
      cases q with
      | done => simp [hq] at hp
      | write =>
        simp only [hq] at hp
        cases hp
        exact processOk_tear hss (start_spec hq) (controlOk_operation hc hop) n

/-- **Every step keeps the invariant**: what ran has left `received` for good. -/
theorem processNext_ok {op : AgentOp} (hp : processNext p op = some p') :
    ProcessOk ((invoked p op ++ ran).filter p'.holds) p' := by
  have hqt : ProcessOk ran p' → ProcessOk (ran.filter p'.holds) p' := fun h =>
    processOk_mono h fun id hid => List.mem_of_mem_filter hid
  cases op with
  | start => exact hqt (processOk_start h hp)
  | mark => exact processOk_mark h hp
  | markFails => exact processOk_markFails h hp
  | call => exact processOk_callStep h hp
  | callFails => exact processOk_callFails h hp
  | tear => exact processOk_tearStep h hp
  | crash =>
    cases hp
    cases p with
    | down => exact hqt h
    | opening =>
      obtain ⟨⟨_, hss⟩, -⟩ := h
      exact processOk_crash hss
    | up =>
      obtain ⟨⟨_, hss⟩, -⟩ := h
      refine processOk_mono (processOk_crash hss) ?_
      intro id hid
      obtain ⟨hm, hh⟩ := List.mem_filter.1 hid
      exact List.mem_filter.2 ⟨List.mem_append_right _ hm, hh⟩
  | execute result =>
    simp only [processNext, execute] at hp
    split at hp
    · -- the executor runs: its action joins the ones that ran
      cases hp
      obtain ⟨hss, ht, -⟩ := h
      refine processOk_mono (processOk_up hss ?_) fun id hid => List.mem_of_mem_filter hid
      cases result with
      | none | some => exact ⟨ht, rfl⟩
    · cases hp
  | ready | tick =>
    -- the first recovery pass, or a later one
    simp only [processNext, ready, tick] at hp
    split at hp
    · cases hp
      obtain ⟨_, hss⟩ := h.1
      exact hqt (processOk_up ⟨_, hss⟩ ⟨restOk_listRecoverable hss.entries, rfl⟩)
    · cases hp
  | poll =>
    simp only [processNext, poll] at hp
    split at hp
    · obtain ⟨_, hc, rfl⟩ := Option.map_eq_some_iff.1 hp
      refine hqt (processOk_up h.1 ⟨?_, rfl⟩)
      rw [fetchAction] at hc
      split at hc
      · cases hc
      split_ifs at hc
      cases hc
      exact validUTF8_toValid _
    · cases hp
  | visit now later =>
    simp only [processNext, visit] at hp
    split at hp
    · cases hp
      exact hqt (processOk_up h.1 ⟨trivial, rfl⟩)
    · obtain ⟨hss, hc⟩ := h
      split_ifs at hp
      · cases hp
        refine hqt (processOk_up hss (settles_process later (hc.2 _ (.head _)).1 ?_))
        exact ⟨hc.1, fun e he => hc.2 e (.tail _ he)⟩
      · cases hp
        refine hqt (processOk_up hss ⟨⟨?_, fun e he => hc.2 e (.tail _ he)⟩, rfl⟩)
        exact (List.nodup_cons.1 hc.1).2
    · cases hp
  | post ok =>
    simp only [processNext, post] at hp
    split at hp
    · cases hp
      obtain ⟨hss, hc⟩ := h
      cases ok with
      | true => exact hqt (processOk_up hss ⟨hc, rfl⟩)
      | false => exact hqt (processOk_up hss ⟨trivial, rfl⟩)
    · cases hp

end

/-- The invariant of an agent's runs. -/
def AgentWorld.Inv (w : AgentWorld) : Prop := w.ran.Nodup ∧ ProcessOk w.ran w.process

theorem agentNext_inv {w w' : AgentWorld} {op : AgentOp} (h : w.Inv)
    (hw : agentNext w op = some w') : w'.Inv := by
  obtain ⟨p, hp, rfl⟩ := Option.map_eq_some_iff.1 hw
  refine ⟨?_, processNext_ok h.2 hp⟩
  refine List.Nodup.filter _ ?_
  cases op with
  | execute result =>
    -- the action about to run has not run
    simp only [processNext, execute] at hp
    split at hp
    · rename_i lo j c rest hproc
      have hok := h.2
      rw [hproc] at hok ⊢
      exact List.nodup_cons.2 ⟨hok.2.2.1, h.1⟩
    · cases hp
  | _ => exact h.1

theorem initial_inv : AgentWorld.initial.Inv :=
  ⟨List.nodup_nil, [], [], [], List.Forall₂.nil,
    rfl, by simp, by simp, by simp [AgentWorld.initial]⟩

/-- **Each action is executed at most once while the journal holds it, and only behind durable
records.** In every run the executor was invoked at most once for each action since the journal last
did not hold it, and whenever it is about to be invoked, it was not invoked yet, and the file holds
the received record with the claim and behind it the running record. -/
theorem executor_at_most_once (ops : List AgentOp) (w : AgentWorld)
    (hrun : exec agentNext AgentWorld.initial ops = some w) :
    (∀ id, w.ran.count id ≤ 1) ∧ ∀ lo j c rest, w.process = .up lo j (.executing c rest) →
        c.action.id ∉ w.ran ∧ ∀ lo', DurablyStarted lo' w.process.file c := by
  have hinv : w.Inv := exec_invariant (fun _ _ _ h hs => agentNext_inv h hs) initial_inv hrun
  refine ⟨fun id => List.nodup_iff_count_le_one.mp hinv.1 id, ?_⟩
  intro lo j c rest hproc
  have hok := hinv.2
  rw [hproc] at hok ⊢
  exact ⟨hok.2.2.1, hok.2.2.2⟩

/-! ### A run with a crash -/

/-- The clock readings of an operation at one second. -/
def clockAt (sec : Int) : Nat → GoTime := fun _ => atSecond sec

/-- An answer that delivers the action `id` under a lease that runs for a thousand seconds. -/
def sampleResponse (id token : String) (sec : Int) : PollResponse :=
  ⟨⟨lit id, lit "inc-1", lit "drain_node", StrMap.empty, 0⟩, lit token,
    some (atSecond (sec + 1000))⟩

/-- The agent executes `a1`, dies while it records the outcome, and executes `a2` after a
restart. -/
def sampleRun : List AgentOp :=
  [.start fun _ => 0, .ready, .visit (atSecond 1) (atSecond 1),
    .poll (sampleResponse "a1" "t1" 2) (atSecond 2), .call (clockAt 3) (atSecond 3),
    .call (clockAt 4) (atSecond 4), .call (clockAt 5) (atSecond 5),
    .execute (some ⟨lit "a1", true, lit "done", [], [], atSecond 6, atSecond 7⟩),
    .tear (clockAt 8) 40, .start fun _ => 3600, .mark (clockAt 9), .ready,
    .visit (atSecond 2000) (atSecond 2000), .visit (atSecond 2000) (atSecond 2000),
    .poll (sampleResponse "a2" "t2" 2000) (atSecond 2000), .call (clockAt 2001) (atSecond 2001),
    .call (clockAt 2002) (atSecond 2002), .call (clockAt 2003) (atSecond 2003)]

/-- The process is about to execute the action. -/
def Process.executes (id : Str) : Process → Bool
  | .up _ _ (.executing c _) => c.action.id == id
  | _ => false

theorem executor_at_most_once_after_crash :
    ∃ w lo j c rest, exec agentNext AgentWorld.initial sampleRun = some w ∧
      w.process = .up lo j (.executing c rest) ∧ w.ran = [lit "a1"] ∧
      c.action.id ∉ w.ran ∧ (∀ id, w.ran.count id ≤ 1) ∧
      ∀ lo', DurablyStarted lo' w.process.file c := by
  obtain ⟨w, hw, hexec, hran⟩ : ∃ w, exec agentNext AgentWorld.initial sampleRun = some w ∧
      w.process.executes (lit "a2") = true ∧ w.ran = [lit "a1"] := by decide +kernel
  obtain ⟨hcount, hdurable⟩ := executor_at_most_once sampleRun w hw
  cases hproc : w.process with
  | down | opening => rw [hproc] at hexec; cases hexec
  | up lo j control =>
    cases control with
    | executing c rest =>
      obtain ⟨hnot, hstarted⟩ := hdurable lo j c rest hproc
      exact ⟨w, lo, j, c, rest, hw, hproc, hran, hnot, hcount, hstarted⟩
    | _ => rw [hproc] at hexec; cases hexec

end KubeNeuron.Agent
