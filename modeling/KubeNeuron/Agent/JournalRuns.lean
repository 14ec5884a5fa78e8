import KubeNeuron.Agent.JournalReopen

/-!
# A journal over its whole life

`Durable` relates the journal of the running process to its file: the complete lines replay to the
acknowledged entries, or to these and the one entry whose append failed with its whole line written.
Every step keeps this as long as it stays within what the replay can read back (`FaithfulEvent`) and
no append starts behind leftover bytes (`CleanAppend`).
-/

namespace KubeNeuron.Agent

open Lib KubeNeuron.Types

/-! ## The runs -/

/-- The local zone of the running process, its journal, and the append that failed with its whole
line written, as long as nothing was written since. -/
structure JournalHost where
  lo : Int → Int
  journal : Journal
  left : Option Write

/-- A process on a host without a journal file. -/
def JournalHost.fresh (lo : Int → Int) : JournalHost := ⟨lo, ⟨[], KeyMap.empty, 0⟩, none⟩

/-- The journal as if the append that was left had succeeded. -/
def JournalHost.onDisk (h : JournalHost) : Journal := (h.left.map Write.commit).getD h.journal

inductive JournalEvent where
  /-- An operation, whose append fails after `n` bytes when `fault` is `some n`. -/
  | call (op : JournalOp) (clock : Nat → GoTime) (fault : Option Nat)
  /-- The process ends, and another one opens the file. -/
  | restart (lo : Int → Int) (clock : Str → Nat → GoTime)

/-- An operation that ended without an append: it may have rewritten the file. -/
def JournalHost.moved (h : JournalHost) (j : Journal) : JournalHost :=
  ⟨h.lo, j, if j = h.journal then h.left else none⟩

/-- The rest of an operation that was started. -/
def JournalHost.finish (h : JournalHost) (fault : Option Nat) : Pending → JournalHost
  | .done j _ => h.moved j
  | .write w =>
    match fault with
    | none => ⟨h.lo, w.commit, none⟩
    | some n => ⟨h.lo, w.torn n, if w.line.length ≤ n then some w else none⟩

def journalNext (h : JournalHost) : JournalEvent → Option JournalHost
  | .call op clock fault =>
    match h.journal.start h.lo clock op with
    | .error r => some (h.moved r.journal)
    | .ok p => some (h.finish fault p)
  | .restart lo clock => (openJournal lo clock h.journal.file).toOption.map fun j => ⟨lo, j, none⟩

/-- The operation returns no error. -/
def Succeeded (h : JournalHost) : JournalEvent → Prop
  | .call op clock fault => fault = none ∧ (h.journal.start h.lo clock op).toOption.isSome = true
  | .restart _ _ => True

instance (h : JournalHost) (ev : JournalEvent) : Decidable (Succeeded h ev) := by
  cases ev <;> unfold Succeeded <;> infer_instance

open JournalHost

/-! ## The conditions -/

/-- What an operation stores reads back unchanged, whichever of the zones is local then. -/
def FaithfulOp (zones : List (Int → Int)) (lo : Int → Int) : JournalOp → Prop
  | .recordReceived action => action.Valid
  | .setClaim _ token _ => ValidUTF8 token
  | .recordOutcome _ result => ∀ lo' ∈ zones, FaithfulResult lo lo' result
  | _ => True

/-- The journal an operation works on once its compactions are done. -/
def compacted (h : JournalHost) (op : JournalOp) (clock : Nat → GoTime) : Journal :=
  match h.journal.start h.lo clock op with
  | .error r => r.journal
  | .ok (.done j _) => j
  | .ok (.write w) => w.journal

/-- A file within the limits that reading checks. -/
def Fits (file : Str) : Prop :=
  file.length ≤ maxJournalBytes ∧ ∀ line ∈ splitAfter file, line.length ≤ maxRecordBytes

/-- The step stays within what opening the file can read back: an operation stores text and times
that read back, and a compaction, which checks no limit, keeps the limits; and when a process starts
there is room to mark the actions that were running. -/
def FaithfulEvent (zones : List (Int → Int)) (h : JournalHost) : JournalEvent → Prop
  | .call op clock _ => FaithfulOp zones h.lo op ∧
      (compacted h op clock = h.journal ∨ Fits (compacted h op clock).file)
  | .restart lo clock => lo ∈ zones ∧ RoomToMark lo clock h.onDisk.entries h.onDisk.bytes

/-- An append starts at the end of the acknowledged lines. -/
def CleanAppend (h : JournalHost) : JournalEvent → Prop
  | .call op clock _ => ∀ w, h.journal.start h.lo clock op = .ok (.write w) →
      w.journal.file.length = w.journal.bytes
  | .restart _ _ => True

instance (zones : List (Int → Int)) (lo : Int → Int) (op : JournalOp) :
    Decidable (FaithfulOp zones lo op) := by
  cases op <;> unfold FaithfulOp <;> infer_instance

/-! ## The invariant -/

variable {zones : List (Int → Int)} {lo : Int → Int}

/-- The entries of the running process and the file behind them. -/
structure Durable (zones : List (Int → Int)) (h : JournalHost) : Prop where
  zone : h.lo ∈ zones
  entries : ∀ lo' ∈ zones, FaithfulEntries h.lo lo' h.journal.entries
  count : h.journal.entries.size ≤ maxActions
  size : h.journal.file.length ≤ maxJournalBytes
  left : ∀ w, h.left = some w → h.journal.bytes < w.commit.bytes ∧
    w.journal.entries = h.journal.entries ∧ Next h.journal.entries w.entry
  file : ∃ es lines tail, h.journal.file = lines.flatten ++ tail ∧ (0x0A : UInt8) ∉ tail ∧
    ∀ lo' ∈ zones, Faithful h.lo lo' h.onDisk.entries h.onDisk.bytes es lines

theorem clean_fresh : Clean zones lo (fresh lo).journal := by
  refine ⟨[], [], rfl, fun lo' _ => ?_⟩
  exact ⟨List.Forall₂.nil, rfl, Nat.zero_le _, by simp, by simp, trivial, rfl, Nat.zero_le _⟩

variable {j j' : Journal} {h : JournalHost} {now : GoTime} {op : JournalOp} {w : Write}

theorem Clean.entries_faithful (h : Clean zones lo j) :
    ∀ lo' ∈ zones, FaithfulEntries lo lo' j.entries := by
  intro lo' hlo'
  obtain ⟨_, _, -, h⟩ := h
  exact (h lo' hlo').entries_faithful

theorem Clean.durable (h : Clean zones lo j) (hlo : lo ∈ zones) (tail : Str)
    (ht : (0x0A : UInt8) ∉ tail) (hz : (j.file ++ tail).length ≤ maxJournalBytes) :
    Durable zones ⟨lo, { j with file := j.file ++ tail }, none⟩ := by
  have hents := h.entries_faithful
  obtain ⟨es, lines, hf, h⟩ := h
  refine ⟨hlo, hents, (h lo hlo).count, hz, ?_, es, lines, tail, ?_, ht, h⟩
  · intro w hw
    cases hw
  · exact congrArg (· ++ tail) hf

theorem Clean.size_le (h : Clean zones lo j) (hlo : lo ∈ zones) :
    j.file.length ≤ maxJournalBytes ∧ j.bytes = j.file.length := by
  obtain ⟨_, _, hf, h⟩ := h
  have h := h lo hlo
  rw [hf]
  exact ⟨h.size, h.bytes⟩

theorem Clean.durable_self (h : Clean zones lo j) (hlo : lo ∈ zones) :
    Durable zones ⟨lo, j, none⟩ := by
  have hd := h.durable hlo [] (by simp) (by simpa using (h.size_le hlo).1)
  simpa using hd

theorem Durable.clean (hd : Durable zones h)
    (hn : h.journal.file.length = h.journal.bytes) : Clean zones h.lo h.journal := by
  obtain ⟨es, lines, tail, hfile, -, hf⟩ := hd.file
  have hbytes := (hf h.lo hd.zone).bytes
  have hn' : h.journal.file.length = lines.flatten.length + tail.length := by
    rw [hfile, List.length_append]
  cases hl : h.left with
  | none =>
    rw [onDisk, hl] at hf hbytes
    change h.journal.bytes = _ at hbytes
    have ht : tail = [] := List.eq_nil_of_length_eq_zero (by omega)
    exact ⟨es, lines, by rw [hfile, ht, List.append_nil], hf⟩
  | some w =>
    rw [onDisk, hl] at hbytes
    change w.commit.bytes = _ at hbytes
    have := (hd.left w hl).1
    omega

/-! ## Compactions -/

theorem mem_splitAfter_of_written {ss : List Stored} {lines : List Str} (h : Written ss lines)
    {line : Str} (hl : line ∈ lines) : line ∈ splitAfter lines.flatten := by
  induction h with
  | nil => cases hl
  | @cons s l ss ls hs _ ih =>
    have hv : FitsInt64 s.record.version := by
      rw [hs.2]
      decide
    obtain ⟨_, rfl, -, hnl, -⟩ := decodeRecord_encodeRecord hs.1 hv s.lo
    rw [List.flatten_cons, List.append_assoc, List.singleton_append, splitAfter_line hnl]
    obtain _ | ⟨_, hm⟩ := hl
    · exact .head _
    · exact .tail _ (ih hm)

variable {entries : KeyMap Entry} {e : Entry} {ev : JournalEvent}

theorem clean_of_rewrite {data : Str}
    (hf : ∀ lo' ∈ zones, FaithfulEntries lo lo' entries) (hc : entries.size ≤ maxActions)
    (hd : encodeRecords lo (histories entries) = some data) (hfits : Fits data) :
    Clean zones lo ⟨data, entries, data.length⟩ := by
  have hv : ∀ r ∈ histories entries, r.version = journalVersion := by
    intro r hr
    obtain ⟨_, _, _, -, -, rfl⟩ := mem_histories hr
    rfl
  obtain ⟨lines, hw, rfl⟩ := written_of_encodeRecords hd hv
  refine ⟨entries.entries.flatMap fun p => historyEntries p.2, lines, rfl, fun lo' hlo' => ?_⟩
  obtain ⟨hch, hs⟩ := chain_histories (hf lo' hlo') hc
  refine ⟨?_, rfl, hfits.1, ?_, ?_, hch, ?_, hc⟩
  · rw [histories_eq, List.map_map] at hw
    exact hw
  · intro line hl
    exact hfits.2 line (mem_splitAfter_of_written hw hl)
  · intro f hm
    obtain ⟨⟨k, e⟩, he, hfe⟩ := List.mem_flatMap.1 hm
    exact faithful_historyEntries (hf lo' hlo' k e (KeyMap.mem_entries.1 he)).2 hfe
  · rw [← histories_eq]
    exact KeyMap.ext_get? hs

/-- **A compaction leaves the journal as it is or with a clean file.** -/
theorem Durable.compacts (hd : Durable zones h)
    (hc : Compacts h.lo h.journal j) (hfits : j = h.journal ∨ Fits j.file) :
    j = h.journal ∨ Clean zones h.lo j := by
  have hf : ∀ lo' ∈ zones, FaithfulEntries h.lo lo' j.entries := fun lo' hlo' id e he =>
    hd.entries lo' hlo' id e (hc.get? he)
  have hn := Nat.le_trans hc.size_le hd.count
  cases hc with
  | same => exact .inl rfl
  | rewrite _ _ ht =>
    rcases hfits with heq | hfits
    · exact .inl heq
    · exact .inr (clean_of_rewrite hf hn ht hfits)

theorem Durable.moved (hd : Durable zones h)
    (hc : Compacts h.lo h.journal j) (hf : j = h.journal ∨ Fits j.file) :
    Durable zones (h.moved j) := by
  by_cases heq : j = h.journal
  · subst heq
    simpa [moved] using hd
  · rw [JournalHost.moved, if_neg heq]
    exact ((hd.compacts hc hf).resolve_left heq).durable_self hd.zone

/-! ## Appends -/

theorem Planned.compacts
    (h : Planned j.entries now op e) (hc : Compacts lo j j') : Planned j'.entries now op e := by
  cases h with
  | received hv hn =>
    refine .received hv ?_
    cases hg : j'.entries.get? _ with
    | none => rfl
    | some =>
      rw [hc.get? hg] at hn
      cases hn
  | claimed hg hst hm => exact .claimed (hc.get?_of_ne hg hst) hst hm
  | advanced ht hg hp hr =>
    refine .advanced ht (hc.get?_of_ne hg ?_) hp hr
    intro hs
    simp [hs, allowedTransition] at hp

/-- **A planned entry may be recorded next.** -/
theorem Planned.next
    (h : Planned entries now op e) (hi : ∀ id e, entries.get? id = some e → e.action.id = id)
    (hr : ∀ a, op = .recordReceived a → entries.size < maxActions) : Next entries e := by
  cases h with
  | received _ hn => exact .inl ⟨hn, rfl, hr _ rfl⟩
  | @claimed _ _ _ current hg hst hc =>
    simp only [validateClaim, bind_ok_iff, check_eq_ok, Bool.and_eq_true, bne_iff_ne] at hc
    obtain ⟨_, ⟨⟨-, hne⟩, -⟩, -⟩ := hc
    refine .inr ⟨current, ?_, rfl, .inl ⟨rfl, rfl, hst, hne⟩⟩
    rw [← hi _ _ hg] at hg
    exact hg
  | @advanced _ id next current ht hg hp hres =>
    have ha : (Agent.advanced current now next op.result).action = current.action := by
      cases next <;> rfl
    refine .inr ⟨current, ?_, ha, .inr ?_⟩
    · rw [ha, hi _ _ hg]
      exact hg
    cases next with
    | outcomeKnown =>
      have hm : op.result.isSome = true := by
        cases op <;> simp_all [JournalOp.target, JournalOp.result]
      exact ⟨hp, by simp [Agent.advanced, hm]⟩
    | received | other => cases hs : current.state <;> simp [hs, allowedTransition] at hp
    | _ => exact ⟨hp, by simp [Agent.advanced]⟩

/-- **A planned entry reads back** when what the operation stores does. -/
theorem Planned.faithful {lo' : Int → Int} (h : Planned entries now op e)
    (hf : FaithfulEntries lo lo' entries)
    (hop : FaithfulOp zones lo op) (hlo' : lo' ∈ zones) (hv : validateEntry e = .ok ()) :
    FaithfulEntry lo lo' e := by
  cases h with
  | received =>
    exact ⟨hv, hop, validUTF8_nil, rfl, rfl, fun r hr => by cases hr⟩
  | claimed hg =>
    have hc := (hf _ _ hg).2
    exact ⟨hv, hc.action, hop, rfl, rfl, hc.result⟩
  | @advanced _ id next current ht hg hp hres =>
    have hc := (hf _ _ hg).2
    cases next with
    | running => exact { hc with valid := hv, updated := rfl }
    | outcomeKnown =>
      refine ⟨hv, hc.action, hc.token, hc.expiry, rfl, fun r hr => ?_⟩
      change op.result = some r at hr
      cases op with
      | recordOutcome =>
        cases hr
        exact hop lo' hlo'
      | _ => cases hr
    | outcomeUnknown =>
      exact ⟨hv, hc.action, hc.token, hc.expiry, rfl, fun r hr => by cases hr⟩
    | reported => exact ⟨hv, hc.action, validUTF8_nil, rfl, rfl, hc.result⟩
    | received | other => cases hs : current.state <;> simp [hs, allowedTransition] at hp

/-- **A planned append keeps a clean file clean.** -/
theorem Clean.commit_planned (h : Clean zones lo w.journal) (hlo : lo ∈ zones) (hw : Ready lo j w)
    (hp : Planned j.entries now op w.entry)
    (hr : ∀ a, op = .recordReceived a → w.journal.entries.size < maxActions)
    (hop : FaithfulOp zones lo op) :
    Next w.journal.entries w.entry ∧ Clean zones lo w.commit := by
  have hp := hp.compacts hw.compacts
  have hn : Next w.journal.entries w.entry := by
    refine hp.next ?_ hr
    intro id e he
    exact (h.entries_faithful lo hlo id e he).1
  refine ⟨hn, h.commit hw hn fun lo' hlo' => ?_⟩
  exact hp.faithful (h.entries_faithful lo' hlo') hop hlo' hw.valid

/-! ## Steps -/

theorem Ready.line_pos (h : Ready lo j w) : 0 < w.line.length := by
  obtain ⟨_, hl, -⟩ :=
    decodeRecord_encodeRecord h.encoded (show FitsInt64 journalVersion by decide) lo
  rw [hl, List.length_append]
  exact Nat.succ_pos _

/-- **A failed append keeps the acknowledged entries**, whatever part of its line was written. -/
theorem Clean.durable_torn (h : Clean zones lo w.journal)
    (hc : Clean zones lo w.commit) (hlo : lo ∈ zones) (hw : Ready lo j w)
    (hnext : Next w.journal.entries w.entry) (n : Nat) :
    Durable zones ⟨lo, w.torn n, if w.line.length ≤ n then some w else none⟩ := by
  obtain ⟨-, _⟩ := h.size_le hlo
  by_cases hn : w.line.length ≤ n
  · -- the whole line is there: the file is that of the successful append
    rw [if_pos hn]
    have hfile : (w.torn n).file = w.commit.file := by
      rw [Write.torn, Write.commit, List.take_of_length_le hn]
    have hents := h.entries_faithful
    have hz := (hc.size_le hlo).1
    obtain ⟨es, lines, hl, hf⟩ := hc
    obtain ⟨_, _, _, hold⟩ := h
    refine ⟨hlo, hents, (hold lo hlo).count, hfile ▸ hz, ?_, es, lines, [], ?_, by simp, hf⟩
    · intro w' hw'
      cases hw'
      exact ⟨Nat.lt_add_of_pos_right hw.line_pos, rfl, hnext⟩
    · show (w.torn n).file = _
      rw [hfile, hl, List.append_nil]
  · rw [if_neg hn]
    refine h.durable hlo (w.line.take n) (hw.newline_not_mem (Nat.not_le.1 hn)) ?_
    have hr := hw.room
    rw [List.length_append, List.length_take]
    omega

/-- **A restart shows what is on disk.** -/
theorem Durable.reopen {lo : Int → Int} {clock : Str → Nat → GoTime}
    (hd : Durable zones h) (hlo : lo ∈ zones)
    (hr : RoomToMark lo clock h.onDisk.entries h.onDisk.bytes) :
    ∃ j, openJournal lo clock h.journal.file = .ok j ∧ Clean zones lo j ∧
      Reopened h.onDisk.entries j.entries := by
  obtain ⟨_, _, _, hl, ht, hf⟩ := hd.file
  have hz := hd.size
  rw [hl] at hz ⊢
  exact openJournal_faithful hf hlo ht hz hr

theorem Started.compacts {entry : Option Entry}
    (h : Started lo now j op (.done j' entry)) : Compacts lo j j' := by
  cases entry with
  | none => exact h.1
  | some => exact h.1 ▸ .same

theorem Durable.call {clock : Nat → GoTime} {fault : Option Nat}
    {p : Pending} (hd : Durable zones h) (hop : FaithfulOp zones h.lo op)
    (hf : compacted h op clock = h.journal ∨ Fits (compacted h op clock).file)
    (hclean : CleanAppend h (.call op clock fault))
    (hp : h.journal.start h.lo clock op = .ok p) : Durable zones (h.finish fault p) := by
  have hs := start_spec hp
  rw [compacted, hp] at hf
  cases p with
  | done => exact hd.moved hs.compacts hf
  | write w =>
    obtain ⟨hw, hl, hr⟩ := hs
    have hb : Clean zones h.lo w.journal := by
      rcases hd.compacts hw.compacts hf with heq | hclean
      · rw [heq]
        exact hd.clean (heq ▸ hclean w hp)
      · exact hclean
    obtain ⟨hn, hc⟩ := hb.commit_planned hd.zone hw hl hr hop
    cases fault with
    | none => exact hc.durable_self hd.zone
    | some n => exact hb.durable_torn hc hd.zone hw hn n

/-- **Every step keeps the file and the acknowledged entries together.** -/
theorem journalNext_durable {h' : JournalHost} (hd : Durable zones h)
    (hev : FaithfulEvent zones h ev) (hc : CleanAppend h ev) (hn : journalNext h ev = some h') :
    Durable zones h' := by
  revert hn
  fun_cases journalNext h ev with
  | case1 _ _ _ _ hp =>
    rintro ⟨⟩
    obtain ⟨-, hf⟩ := hev
    rw [compacted, hp] at hf
    exact hd.moved (start_error hp) hf
  | case2 _ _ _ _ hp =>
    rintro ⟨⟩
    exact hd.call hev.1 hev.2 hc hp
  | case3 =>
    intro hn
    obtain ⟨hlo, hr⟩ := hev
    obtain ⟨_, hj, hc, -⟩ := hd.reopen hlo hr
    rw [hj] at hn
    cases hn
    exact hc.durable_self hlo

theorem durable_fresh (hlo : lo ∈ zones) : Durable zones (fresh lo) :=
  clean_fresh.durable_self hlo

/-! ## Runs of successful operations -/

theorem Compacts.length_eq (h : Compacts lo j j') (hj : j.file.length = j.bytes) :
    j'.file.length = j'.bytes := by
  cases h with
  | same => exact hj
  | rewrite => rfl

theorem cleanAppend_of_length (hl : h.journal.file.length = h.journal.bytes)
    (ev : JournalEvent) : CleanAppend h ev := by
  cases ev with
  | call =>
    intro w hw
    exact (start_spec hw).1.compacts.length_eq hl
  | restart => trivial

theorem journalNext_length {h' : JournalHost} (hd : Durable zones h)
    (hl : h.journal.file.length = h.journal.bytes) (hev : FaithfulEvent zones h ev)
    (hok : Succeeded h ev) (hn : journalNext h ev = some h') :
    h'.journal.file.length = h'.journal.bytes := by
  cases ev with
  | call =>
    obtain ⟨rfl, hs⟩ := hok
    obtain ⟨p, hp⟩ := Option.isSome_iff_exists.1 hs
    have hp := eq_ok_of_toOption hp
    rw [journalNext, hp] at hn
    cases hn
    have ht := start_spec hp
    cases p with
    | done => exact ht.compacts.length_eq hl
    | write =>
      have hw := ht.1.compacts.length_eq hl
      simp only [finish, Write.commit, List.length_append, hw]
  | restart =>
    obtain ⟨hlo, hr⟩ := hev
    obtain ⟨_, hj, hc, -⟩ := hd.reopen hlo hr
    rw [journalNext, hj] at hn
    cases hn
    exact (hc.size_le hlo).2.symm

/-- What a crash leaves: the acknowledged lines, and behind them a strict part of the line of one
further append. -/
def CrashLeaves (h : JournalHost) (file : Str) : Prop :=
  file = h.journal.file ∨ ∃ op clock w n, h.journal.start h.lo clock op = .ok (.write w) ∧
    w.journal = h.journal ∧ n < w.line.length ∧ file = h.journal.file ++ w.line.take n

/-- **A crash loses nothing that was acknowledged.** After any run of successful operations and
restarts within what the file can carry, whatever strict part of a further line the crash leaves,
opening the file succeeds and shows exactly the acknowledged entries, the running ones as of unknown
outcome. -/
theorem reopen_shows_acknowledged (zones : List (Int → Int)) (lo lo' : Int → Int)
    (events : List JournalEvent) (h : JournalHost) (file : Str)
    (clock : Str → Nat → GoTime) (hlo : lo ∈ zones)
    (hrun : exec journalNext (fresh lo) events = some h)
    (hok : Along journalNext (fun h ev => Succeeded h ev ∧ FaithfulEvent zones h ev)
      (fresh lo) events)
    (hcrash : CrashLeaves h file) (hlo' : lo' ∈ zones)
    (hroom : RoomToMark lo' clock h.journal.entries h.journal.bytes) :
    ∃ j, openJournal lo' clock file = .ok j ∧ Reopened h.journal.entries j.entries := by
  have hinv : Durable zones h ∧ h.journal.file.length = h.journal.bytes := by
    refine exec_invariant_along
      (P := fun h => Durable zones h ∧ h.journal.file.length = h.journal.bytes) ?_
      ⟨durable_fresh hlo, rfl⟩ hok hrun
    rintro _ ev _ ⟨hd, hlen⟩ ⟨hsucceeded, hev⟩ hn
    exact ⟨journalNext_durable hd hev (cleanAppend_of_length hlen ev) hn,
      journalNext_length hd hlen hev hsucceeded hn⟩
  obtain ⟨_, lines, hfile, hf⟩ := hinv.1.clean hinv.2
  have hshort : ∃ tail, file = lines.flatten ++ tail ∧ 0x0A ∉ tail ∧
      (lines.flatten ++ tail).length ≤ maxJournalBytes := by
    rcases hcrash with rfl | ⟨_, _, w, n, hstart, hj, hn, rfl⟩
    · exact ⟨[], by rw [hfile, List.append_nil], by simp, by simpa using (hf _ hlo').size⟩
    have hw := (start_spec hstart).1
    refine ⟨w.line.take n, by rw [hfile], hw.newline_not_mem hn, ?_⟩
    have hbytes := (hf _ hlo').bytes
    have hspace := hw.room
    rw [hj] at hspace
    rw [List.length_append, List.length_take]
    omega
  obtain ⟨_, rfl, htail, hsize⟩ := hshort
  obtain ⟨j, hj, -, hshow⟩ := openJournal_faithful hf hlo' htail hsize hroom
  exact ⟨j, hj, hshow⟩

/-! ### A crash while an outcome is recorded -/

/-- Operations one second apart, each with the number of bytes after which its append fails. -/
def callsFrom (sec : Int) : List (JournalOp × Option Nat) → List JournalEvent
  | [] => []
  | (op, fault) :: rest => .call op (fun _ => atSecond sec) fault :: callsFrom (sec + 1) rest

def utcZone : Int → Int := fun _ => 0

/-- A reading of the wall clock and the monotonic clock. -/
def reading (wall mono : Int) : GoTime := ⟨wall * 1000000000, .loc, some (mono * 1000000000)⟩

def sampleAction : Action := ⟨lit "a1", lit "inc-1", lit "drain_node", StrMap.empty, 0⟩

/-- The action is received, claimed and started. -/
def sampleStart : List (JournalOp × Option Nat) :=
  [(.recordReceived sampleAction, none),
    (.setClaim sampleAction.id (lit "t1") (atSecond 100), none),
    (.markRunning sampleAction.id, none)]

/-- The executor takes a second; the wall clock shows `finished` at the end. -/
def sampleOutcome (finished : Int) : JournalOp :=
  .recordOutcome sampleAction.id
    ⟨sampleAction.id, true, lit "done", [], [], reading 20 1, reading finished 2⟩

/-- A check of operations that need no compaction and start at the end of the acknowledged lines. -/
def plainCall (zones : List (Int → Int)) (h : JournalHost) : JournalEvent → Bool
  | .call op clock _ => decide (FaithfulOp zones h.lo op) &&
      decide (compacted h op clock = h.journal) && h.journal.file.length == h.journal.bytes
  | .restart _ _ => false

theorem plainCall_spec (hc : plainCall zones h ev = true) :
    FaithfulEvent zones h ev ∧ CleanAppend h ev := by
  cases ev with
  | call =>
    simp only [plainCall, Bool.and_eq_true, decide_eq_true_eq, beq_iff_eq] at hc
    exact ⟨⟨hc.1.1, .inl hc.1.2⟩, cleanAppend_of_length hc.2 _⟩
  | restart => cases hc

/-- The crash leaves forty bytes of the outcome behind the started action. -/
theorem reopen_shows_acknowledged_torn_outcome :
    ∃ h w j, exec journalNext (fresh utcZone) (callsFrom 1 sampleStart) = some h ∧
      h.journal.start h.lo (fun _ => atSecond 4) (sampleOutcome 21) = .ok (.write w) ∧
      openJournal utcZone (fun _ _ => atSecond 50) (h.journal.file ++ w.line.take 40) = .ok j ∧
      Reopened h.journal.entries j.entries := by
  obtain ⟨h, hh, hw, hroom⟩ : ∃ h,
      exec journalNext (fresh utcZone) (callsFrom 1 sampleStart) = some h ∧
      (match h.journal.start h.lo (fun _ => atSecond 4) (sampleOutcome 21) with
        | .ok (.write w) => decide (w.journal = h.journal ∧ 40 < w.line.length)
        | _ => false) = true ∧
      RoomToMark utcZone (fun _ _ => atSecond 50) h.journal.entries h.journal.bytes := by
    decide +kernel
  split at hw
  · rename_i w hstart
    obtain ⟨hj, hn⟩ := of_decide_eq_true hw
    have hsteps : Along journalNext (fun h ev => Succeeded h ev ∧ plainCall [utcZone] h ev = true)
        (fresh utcZone) (callsFrom 1 sampleStart) := by decide +kernel
    obtain ⟨j, hopen, hshow⟩ := reopen_shows_acknowledged [utcZone] utcZone utcZone
      (callsFrom 1 sampleStart) h (h.journal.file ++ w.line.take 40) (fun _ _ => atSecond 50)
      (.head _) hh (hsteps.mono fun _ _ hok => ⟨hok.1, (plainCall_spec hok.2).1⟩)
      (.inr ⟨_, _, w, 40, hstart, hj, hn, rfl⟩) (.head _) hroom
    exact ⟨h, w, j, hh, hstart, hopen, hshow⟩
  · cases hw

/-- The wall clock is set back while the executor runs. The outcome is accepted, since its times
still carry their monotonic readings, and so is the report behind it; reading the file compares the
wall clock times and refuses. -/
theorem open_fails_after_clock_step :
    ∃ h, exec journalNext (fresh utcZone) (callsFrom 1 (sampleStart ++
        [(sampleOutcome 19, none), (.markReported sampleAction.id, none)])) = some h ∧
      Along journalNext Succeeded (fresh utcZone) (callsFrom 1 (sampleStart ++
        [(sampleOutcome 19, none), (.markReported sampleAction.id, none)])) ∧
      openJournal utcZone (fun _ _ => atSecond 50) h.journal.file = .error .finishBeforeStart := by
  decide +kernel

/-- **A failed append hides nothing that was acknowledged**, as long as no append starts behind the
bytes it left: opening the file shows exactly the acknowledged entries, or these and the one record
whose append failed with its whole line written, which continues them. -/
theorem reopen_after_failed_appends (zones : List (Int → Int)) (lo lo' : Int → Int)
    (events : List JournalEvent) (h : JournalHost) (clock : Str → Nat → GoTime)
    (hlo : lo ∈ zones) (hrun : exec journalNext (fresh lo) events = some h)
    (hok : Along journalNext (fun h ev => FaithfulEvent zones h ev ∧ CleanAppend h ev)
      (fresh lo) events)
    (hlo' : lo' ∈ zones) (hroom : RoomToMark lo' clock h.onDisk.entries h.onDisk.bytes) :
    ∃ j, openJournal lo' clock h.journal.file = .ok j ∧
      ((h.left = none ∧ Reopened h.journal.entries j.entries) ∨
        ∃ w, h.left = some w ∧ Next h.journal.entries w.entry ∧
          Reopened (h.journal.entries.insert w.entry.action.id w.entry) j.entries) := by
  have hinv : Durable zones h :=
    exec_invariant_along (fun _ _ _ hd hev hn => journalNext_durable hd hev.1 hev.2 hn)
      (durable_fresh hlo) hok hrun
  obtain ⟨j, hj, -, hshow⟩ := hinv.reopen hlo' hroom
  refine ⟨j, hj, ?_⟩
  cases hleft : h.left with
  | none =>
    rw [onDisk, hleft] at hshow
    exact .inl ⟨rfl, hshow⟩
  | some w =>
    obtain ⟨-, hentries, hnext⟩ := hinv.left w hleft
    refine .inr ⟨w, rfl, hnext, ?_⟩
    rw [onDisk, hleft] at hshow
    rw [← hentries]
    exact hshow

/-! ### Appends that fail -/

/-- The whole line of the outcome is written, but its append fails. -/
def sampleUnsynced : List JournalEvent :=
  callsFrom 1 (sampleStart ++ [(sampleOutcome 21, some 4096)])

theorem reopen_after_failed_appends_unsynced :
    ∃ h w j, exec journalNext (fresh utcZone) sampleUnsynced = some h ∧
      h.left = some w ∧ openJournal utcZone (fun _ _ => atSecond 50) h.journal.file = .ok j ∧
      Next h.journal.entries w.entry ∧
      Reopened (h.journal.entries.insert w.entry.action.id w.entry) j.entries := by
  simp only [exists_and_left]
  refine reached (by decide +kernel) fun h hh (hrun : h.left ≠ none ∧
    RoomToMark utcZone (fun _ _ => atSecond 50) h.onDisk.entries h.onDisk.bytes) => ?_
  have hsteps : Along journalNext (fun h ev => plainCall [utcZone] h ev = true)
      (fresh utcZone) sampleUnsynced := by decide +kernel
  obtain ⟨j, hopen, hshow⟩ := reopen_after_failed_appends [utcZone] utcZone utcZone sampleUnsynced h
    (fun _ _ => atSecond 50) (.head _) hh (hsteps.mono fun _ _ => plainCall_spec)
    (.head _) hrun.2
  rcases hshow with ⟨hnone, -⟩ | ⟨w, hw, hnext, hshow⟩
  · exact absurd hnone hrun.1
  · exact ⟨w, hw, j, hopen, hnext, hshow⟩

/-- The claim's append fails after one byte and is repeated with success: its line now stands behind
that byte, and the file does not open any more. -/
theorem open_fails_behind_fragment : ∃ h e, exec journalNext (fresh utcZone) (callsFrom 1
        [(.recordReceived sampleAction, none),
          (.setClaim sampleAction.id (lit "t1") (atSecond 100), some 1),
          (.setClaim sampleAction.id (lit "t1") (atSecond 100), none)]) = some h ∧
      h.journal.entries.get? sampleAction.id = some e ∧ e.leaseToken = lit "t1" ∧
      openJournal utcZone (fun _ _ => atSecond 50) h.journal.file = .error .decodeRecord := by
  simp only [exists_and_left]
  decide +kernel

end KubeNeuron.Agent
