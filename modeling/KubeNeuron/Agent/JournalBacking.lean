import KubeNeuron.Agent.JournalSafety

/-!
# The file behind a journal

`Backed settled j ss` says how the journal `j` of a running process and its file belong together:
the file consists of the lines of the sound records `ss`, the entry of each action is told by the
last of its records, and the actions in `settled` have left `received` in both. Compactions, appends
and reopening the file keep this, and a crash leaves a file from which it can be re-established
(`FileBacked`), whatever part of the last line was written.
-/

namespace KubeNeuron.Agent

open Lib KubeNeuron.Types

variable {settled : List Str} {j : Journal} {ss : List Stored} {entries : KeyMap Entry}
  {id : Str} {e : Entry} {lo : Int → Int} {w : Write}

/-- Every entry is filed under its own ID and sound. -/
def SoundEntries (entries : KeyMap Entry) : Prop :=
  ∀ id e, entries.get? id = some e → e.action.id = id ∧ Sound e

/-- The last record of the action tells its entry. -/
def Tells (ss : List Stored) (id : Str) (e : Entry) : Prop :=
  ∃ pre s post, ss = pre ++ s :: post ∧ s.id = id ∧ (∀ t ∈ post, t.id ≠ id) ∧
    s.state = e.state ∧ SameIntent s.record.entry e

/-- The actions the journal still holds. -/
def Journal.holds (j : Journal) (id : Str) : Bool := (j.entries.get? id).isSome

/-- The journal of a process, its file, and the actions that have left `received`. -/
structure Backed (settled : List Str) (j : Journal) (ss : List Stored) : Prop where
  lines : ∃ lines, Written ss lines ∧ j.file = lines.flatten
  sound : ∀ s ∈ ss, Sound s.record.entry
  entries : SoundEntries j.entries
  tells : ∀ id e, j.entries.get? id = some e → Tells ss id e
  covers : ∀ s ∈ ss, j.holds s.id = true
  settled : ∀ id ∈ settled, Settled id ss ∧ ∃ e, j.entries.get? id = some e ∧ e.state ≠ .received

/-- A file from which the settled actions can be recovered. -/
def FileBacked (settled : List Str) (file : Str) : Prop :=
  ∃ ss lines tail, Written ss lines ∧ file = lines.flatten ++ tail ∧ (0x0A : UInt8) ∉ tail ∧
    (∀ s ∈ ss, Sound s.record.entry) ∧ ∀ id ∈ settled, Settled id ss

theorem Backed.fileBacked (h : Backed settled j ss) : FileBacked settled j.file := by
  obtain ⟨lines, hw, hf⟩ := h.lines
  exact ⟨ss, lines, [], hw, by simpa using hf, by simp, h.sound,
    fun id hid => (h.settled id hid).1⟩

/-! ## Compactions -/

variable {r : DiskRecord} {rs : List DiskRecord}

theorem mem_histories (h : r ∈ histories entries) :
    ∃ id e state, entries.get? id = some e ∧ state ∈ historyStates e ∧
      r = (atState e state).record := by
  obtain ⟨⟨id, e⟩, he, hr⟩ := List.mem_flatMap.1 h
  obtain ⟨state, hs, rfl⟩ := List.mem_map.1 hr
  exact ⟨id, e, state, KeyMap.mem_entries.1 he, hs, rfl⟩

theorem histories_split (hs : SoundEntries entries) (he : entries.get? id = some e) :
    ∃ before after, histories entries = before ++ entryHistory e ++ after ∧
      (∀ r ∈ before, r.entry.action.id ≠ id) ∧ ∀ r ∈ after, r.entry.action.id ≠ id := by
  obtain ⟨A, B, hAB⟩ := List.append_of_mem (KeyMap.mem_entries.2 he)
  have hy := KeyMap.nodup_keys entries
  rw [hAB, List.map_append, List.nodup_append] at hy
  obtain ⟨-, hB, hdisj⟩ := hy
  have ho : ∀ f ∈ entries.entries, f.1 ≠ id → ∀ r ∈ entryHistory f.2, r.entry.action.id ≠ id := by
    rintro ⟨k, f⟩ hf hk _ hr
    obtain ⟨state, -, rfl⟩ := List.mem_map.1 hr
    rw [Entry.record, (atState_fields f state).1, (hs k f (KeyMap.mem_entries.1 hf)).1]
    exact hk
  refine ⟨A.flatMap fun f => entryHistory f.2, B.flatMap fun f => entryHistory f.2, ?_, ?_, ?_⟩
  · rw [histories, hAB]
    simp
  · intro r hr
    obtain ⟨f, hf, hr⟩ := List.mem_flatMap.1 hr
    exact ho f (by rw [hAB]; simp [hf])
      (hdisj f.1 (List.mem_map_of_mem hf) id (.head _)) r hr
  intro r hr
  obtain ⟨f, hf, hr⟩ := List.mem_flatMap.1 hr
  refine ho f (by rw [hAB]; simp [hf]) ?_ r hr
  intro hf1
  refine (List.nodup_cons.1 hB).1 ?_
  rw [← hf1]
  exact List.mem_map.2 ⟨f, hf, rfl⟩

theorem historyStates_last (h : Sound e) : ∃ init, historyStates e = init ++ [e.state] := by
  rcases historyStates_spec h with ⟨hs, heq⟩ | ⟨-, _, _, heq, -, -, hl⟩
  · exact ⟨[], by rw [heq, hs]; rfl⟩
  · obtain ⟨init, hinit⟩ := List.getLast?_eq_some_iff.1 hl
    exact ⟨.received :: init, by rw [heq, hinit]; rfl⟩

theorem tells_histories (hs : SoundEntries entries) (lo : Int → Int)
    (he : entries.get? id = some e) :
    Tells ((histories entries).map (Stored.mk lo)) id e := by
  obtain ⟨before, after, heq, -, hf⟩ := histories_split hs he
  obtain ⟨init, hinit⟩ := historyStates_last (hs id e he).2
  obtain ⟨ha, hst, -⟩ := atState_fields e e.state
  refine ⟨(before ++ init.map fun s => (atState e s).record).map (Stored.mk lo),
    ⟨lo, (atState e e.state).record⟩, after.map (Stored.mk lo), ?_, ?_, ?_, hst,
    sameIntent_atState e e.state⟩
  · rw [heq, entryHistory, hinit]
    simp
  · exact (congrArg Action.id ha).trans (hs id e he).1
  · intro t ht
    obtain ⟨r, hr, rfl⟩ := List.mem_map.1 ht
    exact hf r hr

theorem settled_histories (hs : SoundEntries entries) (lo : Int → Int)
    (he : entries.get? id = some e) (hne : e.state ≠ .received) :
    Settled id ((histories entries).map (Stored.mk lo)) := by
  obtain ⟨before, after, heq, -, ha⟩ := histories_split hs he
  rcases historyStates_spec (hs id e he).2 with ⟨h, -⟩ | ⟨-, m, rest, hstates, hm, hrest, -⟩
  · exact absurd h hne
  have hid : ∀ s : State, (Stored.mk lo (atState e s).record).id = id := fun s =>
    (congrArg Action.id (atState_fields e s).1).trans (hs id e he).1
  have hst : ∀ s : State, (Stored.mk lo (atState e s).record).state = s := fun s =>
    (atState_fields e s).2.1
  refine ⟨before.map (Stored.mk lo), ⟨lo, (atState e .received).record⟩, [],
    ⟨lo, (atState e m).record⟩,
    (rest.map (fun s => (atState e s).record) ++ after).map (Stored.mk lo), ?_,
    ⟨hid _, hst _, by simp, hid _, by rw [hst]; exact hm,
      (sameIntent_atState e .received).trans (sameIntent_atState e m).symm, ?_⟩⟩
  · rw [heq, entryHistory, hstates]
    simp
  intro t ht htid
  obtain ⟨r, hr, rfl⟩ := List.mem_map.1 ht
  rcases List.mem_append.1 hr with hr | hr
  · obtain ⟨_, hs', rfl⟩ := List.mem_map.1 hr
    rw [hst]
    rintro rfl
    exact hrest hs'
  · exact absurd htid (ha r hr)

/-- **Compactions keep the file in step**; the actions they drop are settled no longer. -/
theorem Backed.compacts {j' : Journal} (h : Backed settled j ss) (hc : Compacts lo j j') :
    ∃ ss', Backed (settled.filter j'.holds) j' ss' := by
  induction hc with
  | same =>
    refine ⟨ss, { h with settled := fun id hid => h.settled id (List.mem_of_mem_filter hid) }⟩
  | @rewrite k cutoff data hck hd ih =>
    obtain ⟨_, hk⟩ := ih
    have hb : ∀ {id e}, (survivors cutoff k.entries).get? id = some e →
        k.entries.get? id = some e := fun he => (KeyMap.get?_filter.1 he).1
    have hn : SoundEntries (survivors cutoff k.entries) := fun id e he =>
      hk.entries id e (hb he)
    have hv : ∀ r ∈ histories (survivors cutoff k.entries), r.version = journalVersion := by
      intro r hr
      obtain ⟨-, -, -, -, -, rfl⟩ := mem_histories hr
      rfl
    obtain ⟨lines, hw, rfl⟩ := written_of_encodeRecords hd hv
    refine ⟨_, ⟨lines, hw, rfl⟩, ?_, hn, fun id e he => tells_histories hn lo he, ?_, ?_⟩
    · intro s hs
      obtain ⟨_, hr, rfl⟩ := List.mem_map.1 hs
      obtain ⟨id, e, _, he, hst, rfl⟩ := mem_histories hr
      exact (hn id e he).2.atState hst
    · intro s hs
      obtain ⟨_, hr, rfl⟩ := List.mem_map.1 hs
      obtain ⟨id, e, state, he, -, rfl⟩ := mem_histories hr
      have hid : (Stored.mk lo (atState e state).record).id = id :=
        (congrArg Action.id (atState_fields e state).1).trans (hn id e he).1
      rw [hid, Journal.holds, he]
      rfl
    · intro id hid
      obtain ⟨hid, hh⟩ := List.mem_filter.1 hid
      obtain ⟨e, he⟩ := Option.isSome_iff_exists.1 hh
      obtain ⟨-, e', he', hne⟩ := h.settled id hid
      have : e' = e := Option.some.inj (he'.symm.trans (hck.get? (hb he)))
      subst this
      exact ⟨settled_histories hn lo he hne, e', he, hne⟩

/-! ## Appends -/

def Write.stored (lo : Int → Int) (w : Write) : Stored := ⟨lo, w.entry.record⟩

theorem Ready.written (h : Ready lo j w) {lines : List Str} (hw : Written ss lines) :
    Written (ss ++ [w.stored lo]) (lines ++ [w.line]) :=
  List.rel_append hw (List.Forall₂.cons ⟨h.encoded, rfl⟩ List.Forall₂.nil)

theorem Ready.newline_not_mem (h : Ready lo j w) {n : Nat}
    (hn : n < w.line.length) : (0x0A : UInt8) ∉ w.line.take n := by
  obtain ⟨_, hl, -, hnl, -⟩ :=
    decodeRecord_encodeRecord h.encoded (show FitsInt64 journalVersion by decide) lo
  intro hm
  rw [hl, List.length_append, List.length_singleton] at hn
  rw [hl, List.take_append_of_le_length (by omega)] at hm
  exact hnl (List.mem_of_mem_take hm)

/-- **A committed append keeps the file in step.** -/
theorem Backed.commit (h : Backed settled w.journal ss) (hw : Ready lo j w) (hd : Sound w.entry)
    (hsettled : w.entry.action.id ∈ settled → w.entry.state ≠ .received) :
    Backed settled w.commit (ss ++ [w.stored lo]) := by
  obtain ⟨lines, hl, hf⟩ := h.lines
  have hg : ∀ id, w.commit.entries.get? id =
      if id = w.entry.action.id then some w.entry else w.journal.entries.get? id := fun id =>
    KeyMap.get?_insert _ _ id _
  refine ⟨⟨lines ++ [w.line], hw.written hl, ?_⟩, ?_, ?_, ?_, ?_, ?_⟩
  · simp [Write.commit, hf]
  · exact List.forall_mem_append.2 ⟨h.sound, List.forall_mem_singleton.2 hd⟩
  · intro id e he
    rw [hg] at he
    split_ifs at he with hid
    · cases he
      exact ⟨hid.symm, hd⟩
    · exact h.entries id e he
  · intro id e he
    rw [hg] at he
    split_ifs at he with hid
    · cases he
      exact ⟨ss, w.stored lo, [], rfl, hid.symm, by simp, rfl, SameIntent.refl _⟩
    obtain ⟨pre, s, post, rfl, hs, hp, hst, hsame⟩ := h.tells id e he
    refine ⟨pre, s, post ++ [w.stored lo], by simp, hs, ?_, hst, hsame⟩
    exact List.forall_mem_append.2 ⟨hp, List.forall_mem_singleton.2 (Ne.symm hid)⟩
  · intro s hs
    rw [Journal.holds, hg]
    split_ifs with hid
    · rfl
    rcases List.mem_append.1 hs with hs | hs
    · exact h.covers s hs
    · rw [List.mem_singleton.1 hs] at hid
      exact absurd rfl hid
  · intro id hid
    obtain ⟨hset, e, he, hne⟩ := h.settled id hid
    refine ⟨hset.append ?_, ?_⟩
    · intro s hs hsid
      rw [List.mem_singleton.1 hs] at hsid ⊢
      apply hsettled
      rw [show w.entry.action.id = id from hsid]
      exact hid
    rw [hg]
    split_ifs with heq
    · exact ⟨w.entry, rfl, hsettled (heq ▸ hid)⟩
    · exact ⟨e, he, hne⟩

theorem Backed.torn (h : Backed settled w.journal ss) (hw : Ready lo j w) (hd : Sound w.entry)
    (hs : w.entry.action.id ∈ settled → w.entry.state ≠ .received) (n : Nat) :
    FileBacked settled (w.torn n).file := by
  obtain ⟨lines, hl, hf⟩ := h.lines
  by_cases hn : w.line.length ≤ n
  · have hc := (h.commit hw hd hs).fileBacked
    have : (w.torn n).file = w.commit.file := by
      rw [Write.torn, Write.commit, List.take_of_length_le hn]
    rw [this]
    exact hc
  · exact ⟨ss, lines, w.line.take n, hl, by rw [Write.torn, hf],
      hw.newline_not_mem (Nat.not_le.1 hn), h.sound, fun id hid => (h.settled id hid).1⟩

/-! ## Reopening -/

theorem snapshots_tell (h : (snapshots KeyMap.empty rs).get? id = some e) :
    ∃ pre r post, rs = pre ++ r :: post ∧ r.entry.action.id = id ∧ r.entry = e ∧
      ∀ q ∈ post, q.entry.action.id ≠ id := by
  rw [get?_snapshots, KeyMap.get?_empty, Option.or_none] at h
  obtain ⟨r, hr, rfl⟩ := Option.map_eq_some_iff.1 h
  obtain ⟨hid, post, pre, hsplit, hpost⟩ := List.find?_eq_some_iff_append.1 hr
  refine ⟨pre.reverse, r, post.reverse, ?_, (of_decide_eq_true hid).symm, rfl, ?_⟩
  · rw [← rs.reverse_reverse, hsplit]
    simp
  · simpa [@eq_comm _ id] using hpost

theorem isSome_snapshots (h : r ∈ rs) :
    ((snapshots KeyMap.empty rs).get? r.entry.action.id).isSome = true := by
  rw [get?_snapshots, KeyMap.get?_empty, Option.or_none, Option.isSome_map, List.find?_isSome]
  exact ⟨r, List.mem_reverse.2 h, decide_eq_true rfl⟩

theorem readAll_eq_append {index : Nat}
    {pre post : List DiskRecord} (h : readAll lo index ss = pre ++ r :: post) :
    ∃ pre' s post' k, ss = pre' ++ s :: post' ∧ r = s.read lo k ∧
      ∃ l, post = readAll lo l post' := by
  induction pre generalizing index ss with
  | nil =>
    cases ss with
    | nil => cases h
    | cons s ss =>
      cases h
      exact ⟨[], s, ss, index, rfl, rfl, index + 1, rfl⟩
  | cons _ _ ih =>
    cases ss with
    | nil => cases h
    | cons s =>
      obtain ⟨-, h⟩ := List.cons.inj h
      obtain ⟨pre', t, post', k, rfl, hr, hp⟩ := ih h
      exact ⟨s :: pre', t, post', k, rfl, hr, hp⟩

theorem exists_mem_readAll {s : Stored} (h : s ∈ ss) (lo : Int → Int)
    (index : Nat) : ∃ k, s.read lo k ∈ readAll lo index ss := by
  induction ss generalizing index with
  | nil => cases h
  | cons _ _ ih =>
    obtain _ | ⟨_, h⟩ := h
    · exact ⟨index, .head _⟩
    · obtain ⟨k, hk⟩ := ih h (index + 1)
      exact ⟨k, .tail _ hk⟩

/-- **Reopening re-establishes the backing**, and no settled action is lost. -/
theorem FileBacked.recover {file : Str} (h : FileBacked settled file)
    (hj : recoverJournal lo file = .ok j) :
    ∃ ss, Backed settled j ss := by
  obtain ⟨ss, _, _, hw, rfl, htail, hd, hsettled⟩ := h
  obtain ⟨kept, hc, hn, hkept, ss', lines', hw', hf, -, hss⟩ :=
    recoverJournal_spec hw htail hj
  have hm : ∀ r ∈ kept, r ∈ readAll lo 0 ss := by
    intro r hr
    rcases hkept with heq | ⟨_, heq, -⟩
    · rw [heq]
      exact hr
    · rw [heq]
      exact List.mem_append_left _ hr
  have hread : ∀ r ∈ kept, Sound r.entry := by
    intro r hr
    obtain ⟨s, hs, k, rfl⟩ := mem_readAll (hm r hr)
    obtain ⟨_, hadm⟩ := hc.admissible _ hr
    exact sound_read (hd s hs) lo k hadm.valid
  have hset : ∀ id ∈ settled, Settled id (kept.map (Stored.mk lo)) ∧
      ∃ e, j.entries.get? id = some e ∧ e.state ≠ .received := by
    intro id hid
    rw [hn] at hkept ⊢
    exact (hsettled id hid).recover hd hw.version hc hkept
  have hents : SoundEntries j.entries := by
    intro id e he
    rw [hn] at he
    obtain ⟨_, r, _, rfl, hid, rfl, -⟩ := snapshots_tell he
    exact ⟨hid, hread r (by simp)⟩
  have hcovers : ∀ r ∈ kept, j.holds r.entry.action.id = true := by
    intro r hr
    rw [Journal.holds, hn]
    exact isSome_snapshots hr
  rcases hss with ⟨rfl, ha⟩ | rfl
  · refine ⟨ss', ⟨lines', hw', hf⟩, hd, hents, ?_, ?_, ?_⟩
    · intro id e he
      rw [hn, ha] at he
      obtain ⟨_, _, _, heq, hid, rfl, hp⟩ := snapshots_tell he
      obtain ⟨pre', s, post', k, rfl, rfl, l, rfl⟩ := readAll_eq_append heq
      have hs : Sound s.record.entry := hd s (by simp)
      refine ⟨pre', s, post', rfl, (read_id hs lo k).symm.trans hid, ?_,
        (read_state hs lo k).symm, sameIntent_read hs lo k⟩
      intro t ht
      obtain ⟨k', hk'⟩ := exists_mem_readAll ht lo l
      rw [← read_id (hd t (by simp [ht])) lo k']
      exact hp _ hk'
    · intro s hs
      obtain ⟨k, hk⟩ := exists_mem_readAll hs lo 0
      rw [← read_id (hd s hs) lo k]
      exact hcovers _ (ha ▸ hk)
    · exact fun id hid => ⟨hsettled id hid, (hset id hid).2⟩
  · refine ⟨_, ⟨lines', hw', hf⟩, ?_, hents, ?_, ?_, hset⟩
    · intro s hs
      obtain ⟨r, hr, rfl⟩ := List.mem_map.1 hs
      exact hread r hr
    · intro id e he
      rw [hn] at he
      obtain ⟨pre, r, post, rfl, hid, rfl, hp⟩ := snapshots_tell he
      refine ⟨pre.map (Stored.mk lo), ⟨lo, r⟩, post.map (Stored.mk lo), by simp, hid, ?_, rfl,
        SameIntent.refl _⟩
      intro t ht
      obtain ⟨q, hq, rfl⟩ := List.mem_map.1 ht
      exact hp q hq
    · intro s hs
      obtain ⟨r, hr, rfl⟩ := List.mem_map.1 hs
      exact hcovers r hr

end KubeNeuron.Agent
