import KubeNeuron.Agent.JournalFaithful

/-!
# Reopening a journal

`Faithful` describes a file that replays to the entries of the process that wrote it: its lines are
those of a chain of faithful entries, within the limits that reading checks. Such a file, with any
unterminated tail behind it, opens to the same entries, the running ones marked as of unknown
outcome (`openJournal_faithful`).
-/

namespace KubeNeuron.Agent

open Lib KubeNeuron.Types

variable {e : Entry} {entries : KeyMap Entry} {zones : List (Int → Int)} {j : Journal}

variable {lo lo' : Int → Int}

/-! ## Files that replay -/

/-- The lines of a chain of entries that leads to `entries`, within the limits. -/
structure Faithful (lo lo' : Int → Int) (entries : KeyMap Entry) (bytes : Nat) (es : List Entry)
    (lines : List Str) : Prop where
  written : Written (es.map fun e => Stored.mk lo e.record) lines
  bytes : bytes = lines.flatten.length
  size : lines.flatten.length ≤ maxJournalBytes
  lineSize : ∀ line ∈ lines, line.length ≤ maxRecordBytes
  faithful : ∀ e ∈ es, FaithfulEntry lo lo' e
  chain : Chain KeyMap.empty es
  snapshots : snapshots KeyMap.empty (es.map Entry.record) = entries
  count : entries.size ≤ maxActions

theorem mirrors_empty : Mirrors lo lo' KeyMap.empty KeyMap.empty := fun _ => rfl

theorem faithfulEntries_empty : FaithfulEntries lo lo' KeyMap.empty := by
  intro id e he
  cases he

namespace Faithful

variable {bytes : Nat} {es : List Entry} {lines : List Str}

section

variable (h : Faithful lo lo' entries bytes es lines)
include h

theorem entries_faithful :
    FaithfulEntries lo lo' entries :=
  h.snapshots ▸ (h.chain.accepted mirrors_empty faithfulEntries_empty h.faithful).2.2

theorem snapshots_rereadAll : Agent.snapshots KeyMap.empty (rereadAll lo lo' es) =
      entries.mapValues (reread lo lo') := by
  apply KeyMap.ext_get?
  intro id
  rw [KeyMap.get?_mapValues, ← h.snapshots]
  exact (h.chain.accepted mirrors_empty faithfulEntries_empty h.faithful).2.1 id

theorem written_reread :
    List.Forall₂ (fun e line => encodeRecord lo' (reread lo lo' e).record = some line)
    es lines := by
  have hw := List.forall₂_map_left_iff.1 h.written
  have hf := h.faithful
  clear h
  induction hw with
  | nil => exact List.Forall₂.nil
  | cons hl _ ih =>
    refine List.Forall₂.cons ?_ (ih fun f hf' => hf f (.tail _ hf'))
    exact (hf _ (.head _)).encodeRecord_reread.trans hl.1

theorem encodeRecords_rereadAll : encodeRecords lo' (rereadAll lo lo' es) = some lines.flatten := by
  have hmap : (rereadAll lo lo' es).mapM (encodeRecord lo') = some lines := by
    have hw := h.written_reread
    clear h
    rw [rereadAll, List.mapM_map]
    induction hw with
    | nil => rfl
    | cons hl _ ih => simp [hl, ih]
  rw [encodeRecords, hmap]
  rfl

/-- **A faithful file recovers to its entries**, whatever unterminated tail follows it. -/
theorem recoverJournal_eq {tail : Str}
    (ht : (0x0A : UInt8) ∉ tail) (hz : (lines.flatten ++ tail).length ≤ maxJournalBytes) :
    recoverJournal lo' (lines.flatten ++ tail) =
      .ok ⟨lines.flatten, entries.mapValues (reread lo lo'), lines.flatten.length⟩ := by
  have ha := (h.chain.accepted mirrors_empty faithfulEntries_empty h.faithful).1
  rw [recoverJournal, readRecords_eq, if_neg (Nat.not_lt.2 hz),
    readPieces_written h.written ht, if_pos h.lineSize, readAll_faithful h.faithful]
  simp only [bind, Except.bind, replay_of_accepted ha, Bool.or_false, h.snapshots_rereadAll]
  by_cases hn : tail = []
  · subst hn
    simp
  · simp only [hn, ne_eq, not_false_eq_true, decide_true, if_true, Journal.rewriteRecords,
      h.encodeRecords_rereadAll]

end

end Faithful

/-! ## A file that was read back -/

variable {es : List Entry} {lines : List Str} {now : GoTime}

variable {lo'' : Int → Int}

theorem StableTime.readTime_stable {t : GoTime} (h : StableTime lo lo' t)
    (h' : StableTime lo lo'' t)
    (address : Nat) : StableTime lo' lo'' (readTime lo lo' address t) := by
  obtain ⟨_, hr, hoff⟩ := h.readTime_eq
  rw [hr]
  exact ⟨(congrArg (· % 60) hoff).trans h'.minutes, hoff ▸ h'.shared⟩

theorem FaithfulEntry.reread_faithful (h : FaithfulEntry lo lo' e)
    (h' : FaithfulEntry lo lo'' e) : FaithfulEntry lo' lo'' (reread lo lo' e) := by
  refine ⟨h.reread_valid, ?_, ?_, ?_, ?_, ?_⟩
  · rw [h.reread_action]
    exact h.action
  · rw [h.reread_token]
    exact h.token
  · rw [h.reread_expiry]
  · rw [h.reread_updated]
  intro r' hr'
  obtain ⟨r, hr, rfl⟩ := Option.map_eq_some_iff.1 hr'
  have hf := h.result r hr
  have hf' := h'.result r hr
  refine ⟨validUTF8_toValid _, validUTF8_toValid _, hf.started.readTime_stable hf'.started 0,
    hf.finished.readTime_stable hf'.finished 1, ?_⟩
  show (readTime lo lo' 0 r.startedAt).ns ≤ (readTime lo lo' 1 r.finishedAt).ns
  rw [hf.started.readTime_ns, hf.finished.readTime_ns]
  exact hf.ordered

theorem Succeeds.reread {current next : Entry} (h : Succeeds current next)
    (hc : FaithfulEntry lo lo' current) (hn : FaithfulEntry lo lo' next) :
    Succeeds (reread lo lo' current) (reread lo lo' next) := by
  have ho : ∀ e : Entry, (Agent.reread lo lo' e).result =
      e.result.map (ActionResult.readBack lo lo' 0) := fun _ => rfl
  simp only [Succeeds, hc.reread_action, hn.reread_action, hc.reread_state, hn.reread_state,
    hc.reread_token, hn.reread_token, hc.reread_expiry, hn.reread_expiry, ho,
    Option.isSome_map, Option.map_eq_none_iff]
  refine ⟨h.1, ?_⟩
  rcases h.2 with ⟨hst, hr, hne, ht⟩ | ⟨hp, hk, hunk, hrepo, hm⟩
  · exact Or.inl ⟨hst, by rw [hr], hne, ht⟩
  · exact Or.inr ⟨hp, hk, hunk, fun hs => by rw [hrepo hs], hm⟩

theorem Chain.reread {entries' : KeyMap Entry} (h : Chain entries es)
    (hm : Mirrors lo lo' entries entries') (hf : FaithfulEntries lo lo' entries)
    (hes : ∀ e ∈ es, FaithfulEntry lo lo' e) : Chain entries' (es.map (reread lo lo')) := by
  induction es generalizing entries entries' with
  | nil => trivial
  | cons e _ ih =>
    have he : FaithfulEntry lo lo' e := hes e (.head _)
    refine ⟨?_, ih h.2 (hm.snapshot he) (hf.snapshot he) fun f hf => hes f (.tail _ hf)⟩
    rcases h.1 with ⟨hn, hst, hz⟩ | ⟨current, hc, hs⟩
    · refine .inl ⟨?_, he.reread_state.trans hst, Nat.lt_of_le_of_lt hm.size_le hz⟩
      rw [he.reread_action, hm, hn]
      rfl
    · refine .inr ⟨Agent.reread lo lo' current, ?_, hs.reread (hf _ current hc).2 he⟩
      rw [he.reread_action, hm, hc]
      rfl

/-- **A faithful file is faithful for the process that read it back.** -/
theorem Faithful.reread {bytes : Nat} (h : Faithful lo lo' entries bytes es lines)
    (h' : Faithful lo lo'' entries bytes es lines) :
    Faithful lo' lo'' (entries.mapValues (reread lo lo')) lines.flatten.length
      (es.map (reread lo lo')) lines := by
  refine ⟨?_, rfl, h.size, h.lineSize, ?_, h.chain.reread mirrors_empty faithfulEntries_empty
    h.faithful, ?_, ?_⟩
  · rw [List.map_map]
    exact List.forall₂_map_left_iff.2 (h.written_reread.imp fun _ _ hl => ⟨hl, rfl⟩)
  · intro f hf
    obtain ⟨e, he, rfl⟩ := List.mem_map.1 hf
    exact (h.faithful e he).reread_faithful (h'.faithful e he)
  · rw [← h.snapshots_rereadAll, List.map_map]
    rfl
  · refine Nat.le_trans (KeyMap.size_le ?_) h.count
    intro k hk
    rw [KeyMap.get?_mapValues, Option.isSome_map] at hk
    exact hk

/-! ## Appending to a file -/

/-- The file consists of lines that replay to the entries, whichever of the zones is the local one
when it is read. -/
def Clean (zones : List (Int → Int)) (lo : Int → Int) (j : Journal) : Prop :=
  ∃ es lines, j.file = lines.flatten ∧ ∀ lo' ∈ zones, Faithful lo lo' j.entries j.bytes es lines

/-- **An append adds the line of a next entry.** -/
theorem Clean.commit {w : Write}
    (h : Clean zones lo w.journal) (hw : Ready lo j w) (hn : Next w.journal.entries w.entry)
    (he : ∀ lo' ∈ zones, FaithfulEntry lo lo' w.entry) : Clean zones lo w.commit := by
  obtain ⟨es, lines, hf, h⟩ := h
  refine ⟨es ++ [w.entry], lines ++ [w.line], by simp [Write.commit, hf], fun lo' hlo' => ?_⟩
  have h := h lo' hlo'
  have hs : snapshots KeyMap.empty ((es ++ [w.entry]).map Entry.record) = w.commit.entries := by
    rw [List.map_append, snapshots_append, h.snapshots]
    rfl
  have hlen : (lines ++ [w.line]).flatten.length = lines.flatten.length + w.line.length := by simp
  refine ⟨?_, ?_, ?_, ?_, ?_, ?_, hs, ?_⟩
  · rw [List.map_append]
    exact hw.written h.written
  · rw [hlen, ← h.bytes]
    rfl
  · rw [hlen, ← h.bytes]
    exact hw.room
  · exact List.forall_mem_append.2 ⟨h.lineSize, List.forall_mem_singleton.2 hw.record⟩
  · exact List.forall_mem_append.2 ⟨h.faithful, List.forall_mem_singleton.2 (he lo' hlo')⟩
  · refine chain_append.2 ⟨h.chain, ?_, trivial⟩
    rw [h.snapshots]
    exact hn
  · rcases hn with ⟨-, -, hlt⟩ | ⟨_, hc, -⟩
    · exact Nat.le_trans (KeyMap.length_insertEntry_le _ _ _) hlt
    · exact Nat.le_trans (KeyMap.size_insert_of_isSome _ (by rw [hc]; rfl)) h.count

theorem Clean.commit_interrupted {w : Write} (h : Clean zones lo j) (hw : Ready lo j w)
    (hj : w.journal = j)
    (hg : j.entries.get? e.action.id = some e) (hs : e.state = .running)
    (hn : w.entry = interruptedEntry now e) : Clean zones lo w.commit := by
  subst hj
  refine h.commit hw ?_ ?_
  · rw [hn]
    refine .inr ⟨e, hg, rfl, .inr ?_⟩
    simp [interruptedEntry, hs, allowedTransition]
  intro lo' hlo'
  obtain ⟨_, _, -, h⟩ := h
  have he := ((h lo' hlo').entries_faithful _ e hg).2
  have hv := hw.valid
  rw [hn] at hv ⊢
  exact ⟨hv, he.action, he.token, he.expiry, rfl, fun r hr => by cases hr⟩

/-! ## Marking the interrupted actions -/

theorem prepare_of_fits {line : Str}
    (hv : validateEntry e = .ok ()) (hl : encodeRecord lo e.record = some line)
    (hc : line.length ≤ maxRecordBytes) (hr : j.bytes + line.length ≤ maxJournalBytes) :
    j.prepare lo now e = .ok ⟨j, e, line⟩ := by
  rw [Journal.prepare, hv, hl]
  simp only [Journal.refuse, Except.mapError, bind, Except.bind, Option.map_some, Option.getD_some,
    hc, decide_true, Journal.makeRoom, if_neg (Nat.not_lt.2 hr), hr]
  rfl

def runningEntries (entries : KeyMap Entry) : List (Str × Entry) :=
  entries.entries.filter fun p => p.2.state == .running

/-- The line with which an interrupted action is marked. -/
def interruptedLine (lo : Int → Int) (clock : Str → Nat → GoTime) (p : Str × Entry) :
    Option Str := encodeRecord lo (interruptedEntry (clock p.1 0) p.2).record

/-- The size of these lines. -/
def interruptedBytes (lo : Int → Int) (clock : Str → Nat → GoTime)
    (l : List (Str × Entry)) : Nat :=
  l.foldr (fun p bytes => ((interruptedLine lo clock p).getD []).length + bytes) 0

/-- The lines that mark the running entries can be printed and fit into the file. -/
@[mk_iff]
structure RoomToMark (lo : Int → Int) (clock : Str → Nat → GoTime) (entries : KeyMap Entry)
    (bytes : Nat) : Prop where
  time : ∀ p ∈ runningEntries entries, (clock p.1 0).isZero = false
  lines : ∀ p ∈ runningEntries entries,
    (interruptedLine lo clock p).any (fun line => line.length ≤ maxRecordBytes) = true
  room : bytes + interruptedBytes lo clock (runningEntries entries) ≤ maxJournalBytes

instance (lo : Int → Int) (clock : Str → Nat → GoTime) (entries : KeyMap Entry) (bytes : Nat) :
    Decidable (RoomToMark lo clock entries bytes) :=
  decidable_of_iff' _ (roomToMark_iff lo clock entries bytes)

theorem markAllInterrupted_eq (clock : Str → Nat → GoTime)
    {l : List (Str × Entry)} (hj : Clean zones lo j)
    (hl : ∀ p ∈ l, j.entries.get? p.1 = some p.2 ∧ p.2.action.id = p.1 ∧ p.2.state = .running ∧
      validateEntry (interruptedEntry (clock p.1 0) p.2) = .ok ())
    (hnd : (l.map Prod.fst).Nodup)
    (hlines : ∀ p ∈ l,
      (interruptedLine lo clock p).any (fun line => line.length ≤ maxRecordBytes) = true)
    (hr : j.bytes + interruptedBytes lo clock l ≤ maxJournalBytes) :
    ∃ j', j.markAllInterrupted lo clock (l.map Prod.fst) = .ok j' ∧ Clean zones lo j' ∧ ∀ id,
      j'.entries.get? id = ((l.lookup id).map (interruptedEntry (clock id 0))).or
        (j.entries.get? id) := by
  induction l generalizing j with
  | nil => exact ⟨j, rfl, hj, fun id => rfl⟩
  | cons p l ih =>
    obtain ⟨k, e⟩ := p
    obtain ⟨hg, hid, hs, hv⟩ := hl _ (.head _)
    obtain ⟨line, hline, hc⟩ := (Option.any_eq_true _ _).1 (hlines _ (.head _))
    have hc := of_decide_eq_true hc
    obtain ⟨hk, hnd⟩ := List.nodup_cons.1 hnd
    have hsum : interruptedBytes lo clock ((k, e) :: l) =
        line.length + interruptedBytes lo clock l := by
      simp [interruptedBytes, hline]
    have hprep : j.markInterrupted lo (clock k) k =
        .ok ⟨j, interruptedEntry (clock k 0) e, line⟩ := by
      rw [Journal.markInterrupted, hg]
      exact prepare_of_fits hv hline hc (by omega)
    have hfr : ∀ p ∈ l, p.1 ≠ k := fun p hp heq => hk (List.mem_map.2 ⟨p, hp, heq⟩)
    have hm : ∀ id, (Write.commit ⟨j, interruptedEntry (clock k 0) e, line⟩).entries.get? id =
        if id = k then some (interruptedEntry (clock k 0) e) else j.entries.get? id := by
      intro id
      rw [Write.commit, KeyMap.get?_insert,
        show (interruptedEntry (clock k 0) e).action.id = k from hid]
    have hclean : Clean zones lo (Write.commit ⟨j, interruptedEntry (clock k 0) e, line⟩) := by
      refine hj.commit_interrupted (markInterrupted_spec hprep).1 rfl ?_ hs rfl
      rw [show e.action.id = k from hid]
      exact hg
    obtain ⟨j', hj', hclean', hg'⟩ := ih hclean (by
        intro p hp
        rw [hm, if_neg (hfr p hp)]
        exact hl p (.tail _ hp)) hnd
      (fun p hp => hlines p (.tail _ hp)) (by
        show j.bytes + line.length + interruptedBytes lo clock l ≤ maxJournalBytes
        omega)
    refine ⟨j', ?_, hclean', fun id => ?_⟩
    · rw [List.map_cons, Journal.markAllInterrupted, hprep]
      exact hj'
    rw [hg', hm, KeyMap.lookup_cons]
    by_cases heq : id = k
    · simp [heq, KeyMap.lookup_eq_none hfr]
    · simp [heq]

/-! ## What a reopened journal shows -/

/-- The second result has the fields the JSON form of the first one carries; the instants of their
times agree. The refusal code is not carried. -/
def SameCarried (r r' : ActionResult) : Prop :=
  r'.actionID = r.actionID ∧ r'.ok = r.ok ∧ r'.output = r.output ∧ r'.error = r.error ∧
    r'.startedAt.ns = r.startedAt.ns ∧ r'.finishedAt.ns = r.finishedAt.ns ∧ r'.refusal = []

/-- The same outcome: no result, or results with the same fields in their JSON form. -/
def SameOutcome : Option ActionResult → Option ActionResult → Prop
  | none, none => True
  | some r, some r' => SameCarried r r'
  | _, _ => False

/-- The reopened entry shows the acknowledged one: the same action and lease, and the same state and
outcome, except that a running action has become one of unknown outcome. -/
def Shows (e e' : Entry) : Prop :=
  e'.action = e.action ∧ e'.leaseToken = e.leaseToken ∧
    e'.leaseExpiresAt.ns = e.leaseExpiresAt.ns ∧
    if e.state = .running then e'.state = .outcomeUnknown ∧ e'.result = none
    else e'.state = e.state ∧ SameOutcome e.result e'.result

/-- The reopened journal shows the acknowledged entries and no others. -/
def Reopened (entries entries' : KeyMap Entry) : Prop :=
  ∀ id, match entries.get? id, entries'.get? id with
    | none, none => True
    | some e, some e' => Shows e e'
    | _, _ => False

section

variable (h : FaithfulEntry lo lo' e)
include h

theorem FaithfulEntry.shows_reread (hs : e.state ≠ .running) : Shows e (reread lo lo' e) := by
  refine ⟨h.reread_action, h.reread_token, by rw [h.reread_expiry], ?_⟩
  rw [if_neg hs]
  refine ⟨h.reread_state, ?_⟩
  rw [show (reread lo lo' e).result = e.result.map (ActionResult.readBack lo lo' 0) from rfl]
  cases hr : e.result with
  | none => trivial
  | some r =>
    have hf := h.result r hr
    exact ⟨toValid_eq_self (h.result_valid hr), rfl, toValid_eq_self hf.output,
      toValid_eq_self hf.error, hf.started.readTime_ns 0, hf.finished.readTime_ns 1, rfl⟩

theorem FaithfulEntry.shows_interrupted (hs : e.state = .running) (now : GoTime) :
    Shows e (interruptedEntry now (reread lo lo' e)) := by
  refine ⟨h.reread_action, h.reread_token, ?_, ?_⟩
  · show (reread lo lo' e).leaseExpiresAt.ns = _
    rw [h.reread_expiry]
  · rw [if_pos hs]
    exact ⟨rfl, rfl⟩

theorem FaithfulEntry.interruptedLine_reread (clock : Str → Nat → GoTime) (id : Str) :
    interruptedLine lo' clock (id, reread lo lo' e) = interruptedLine lo' clock (id, e) := by
  have he : marshalTime lo' (reread lo lo' e).leaseExpiresAt =
      marshalTime lo' e.leaseExpiresAt := by
    rw [h.reread_expiry]
    exact marshalTime_congr rfl (by rw [h.expiry]; rfl)
  have hjson : (interruptedEntry (clock id 0) (reread lo lo' e)).toJson lo' =
      (interruptedEntry (clock id 0) e).toJson lo' := by
    simp only [Entry.toJson, Entry.resultJson, interruptedEntry, he, Entry.slots,
      h.reread_action, h.reread_token]
  simp only [interruptedLine, encodeRecord, DiskRecord.toJson, DiskRecord.slots,
    Entry.record, hjson]

theorem FaithfulEntry.interrupted_valid (hn : now.isZero = false) :
    validateEntry (interruptedEntry now (reread lo lo' e)) = .ok () := by
  obtain ⟨ha, -, hl, -⟩ := validateEntry_ok_iff.1 h.reread_valid
  exact validateEntry_ok_iff.2 ⟨ha, hn, hl, rfl⟩

end

theorem runningEntries_mapValues (h : FaithfulEntries lo lo' entries) :
    runningEntries (entries.mapValues (reread lo lo')) =
      (runningEntries entries).map (Prod.map id (reread lo lo')) := by
  rw [runningEntries, KeyMap.mapValues, List.filter_map]
  refine congrArg _ (List.filter_congr ?_)
  rintro ⟨k, e⟩ hm
  have he := (h k e (KeyMap.mem_entries.1 hm)).2
  simp only [Function.comp, Prod.map_apply, he.reread_state]

theorem lookup_runningEntries (entries : KeyMap Entry) (id : Str) :
    (runningEntries entries).lookup id = (entries.get? id).filter fun e => e.state == .running :=
  KeyMap.get?_filter_eq (m := entries) fun _ (e : Entry) => e.state == .running

/-- **A faithful file opens to the entries it was written from**, with any unterminated tail behind
it, as long as the marks of the running entries fit. -/
theorem openJournal_faithful {bytes : Nat} {tail : Str} {clock : Str → Nat → GoTime}
    (ha : ∀ lo' ∈ zones, Faithful lo lo' entries bytes es lines) (hlo : lo' ∈ zones)
    (ht : (0x0A : UInt8) ∉ tail)
    (hz : (lines.flatten ++ tail).length ≤ maxJournalBytes)
    (hroom : RoomToMark lo' clock entries bytes) :
    ∃ j, openJournal lo' clock (lines.flatten ++ tail) = .ok j ∧ Clean zones lo' j ∧
      Reopened entries j.entries := by
  have h := ha lo' hlo
  have hf := h.entries_faithful
  have hm : ∀ p ∈ runningEntries entries, entries.get? p.1 = some p.2 ∧ p.2.state = .running := by
    intro p hp
    obtain ⟨hp, hs⟩ := List.mem_filter.1 hp
    exact ⟨KeyMap.mem_entries.1 hp, by simpa using hs⟩
  -- the marks of the entries that were read back are those of the entries themselves
  have hmarks : ∀ p ∈ runningEntries (entries.mapValues (reread lo lo')), ∃ e,
      (p.1, e) ∈ runningEntries entries ∧ p.2 = reread lo lo' e ∧ FaithfulEntry lo lo' e ∧
        e.action.id = p.1 := by
    rw [runningEntries_mapValues hf]
    intro _ hmapped
    obtain ⟨⟨k, e⟩, hp, rfl⟩ := List.mem_map.1 hmapped
    obtain ⟨hid, he⟩ := hf k e (hm (k, e) hp).1
    exact ⟨e, hp, rfl, he, hid⟩
  have hbytes : interruptedBytes lo' clock (runningEntries (entries.mapValues (reread lo lo'))) =
      interruptedBytes lo' clock (runningEntries entries) := by
    rw [runningEntries_mapValues hf, interruptedBytes, List.foldr_map]
    refine List.foldr_ext _ _ 0 ?_
    rintro ⟨k, e⟩ hp _
    have he := (hf k e (hm _ hp).1).2
    simp only [Prod.map_apply, id_eq, he.interruptedLine_reread]
  have hc : Clean zones lo'
      ⟨lines.flatten, entries.mapValues (reread lo lo'), lines.flatten.length⟩ :=
    ⟨es.map (reread lo lo'), lines, rfl, fun lo'' hlo'' => h.reread (ha lo'' hlo'')⟩
  obtain ⟨j, hj, hc', hg⟩ := markAllInterrupted_eq clock hc
    (l := runningEntries (entries.mapValues (reread lo lo')))
    (by
      intro p hp
      obtain ⟨e, he, hr, hfe, hid⟩ := hmarks p hp
      rw [hr, KeyMap.get?_mapValues, (hm _ he).1, hfe.reread_action, hfe.reread_state]
      exact ⟨rfl, hid, (hm _ he).2, hfe.interrupted_valid (hroom.time (p.1, e) he)⟩)
    (KeyMap.nodup_keys _ |>.sublist (List.filter_sublist.map _))
    (by
      rintro ⟨_, _⟩ hp
      obtain ⟨_, he, rfl, hfe, -⟩ := hmarks _ hp
      rw [hfe.interruptedLine_reread]
      exact hroom.lines _ he)
    (by
      rw [hbytes, ← h.bytes]
      exact hroom.room)
  refine ⟨j, ?_, hc', fun id => ?_⟩
  · rw [openJournal, h.recoverJournal_eq ht hz]
    exact congrArg (Except.mapError Refusal.error) hj
  rw [hg id, lookup_runningEntries, KeyMap.get?_mapValues]
  cases he : entries.get? id with
  | none => trivial
  | some e =>
    have hfe := (hf id e he).2
    rw [Option.map_some, Option.filter_some, hfe.reread_state]
    by_cases hs : e.state = .running
    · rw [hs]
      exact hfe.shows_interrupted hs _
    · rw [beq_false_of_ne hs]
      exact hfe.shows_reread hs

end KubeNeuron.Agent
