import KubeNeuron.Agent.Journal

/-!
# What replaying a journal file yields

A record is admissible when it is valid and follows from the entry the action has so far. Replaying
yields the latest snapshot of each action and drops at most the last record (`replay_spec`). A
`Stored` record remembers the zone it was printed under; a file of such lines and an unterminated
tail reads back as the records of its lines (`readPieces_written`).
-/

namespace KubeNeuron.Agent

open Lib KubeNeuron.Types

/-! ## Admissible records -/

/-- A record repeats the state of the current entry: nothing but its claim may differ. -/
def Repeats (current next : Entry) : Prop :=
  sameStatePayload current next = true ∧
    (sameClaim current next = true ∨ (current.state ≠ .reported ∧ next.leaseToken ≠ []))

/-- A record takes the current entry to another state. -/
def Advances (current next : Entry) : Prop :=
  allowedTransition current.state next.state = true ∧
    (next.state = .outcomeKnown → next.result.isSome = true) ∧
    (next.state = .outcomeUnknown → next.result.isNone = true) ∧
    (next.state = .reported → sameResult current.result next.result = true) ∧
    (next.state = .reported ∨ sameClaim current next = true)

/-- A record that replay accepts for an action whose entry so far is `current`. -/
def Follows (current next : Entry) : Prop :=
  sameAction current.action next.action = true ∧
    ((current.state = next.state ∧ Repeats current next) ∨
      (current.state ≠ next.state ∧ Advances current next))

/-- A record that replay accepts. -/
structure Admissible (entries : KeyMap Entry) (r : DiskRecord) : Prop where
  version : r.version = journalVersion
  valid : validateEntry r.entry = .ok ()
  first : entries.get? r.entry.action.id = none →
    r.entry.state = .received ∧ entries.size < maxActions
  follows : ∀ current, entries.get? r.entry.action.id = some current → Follows current r.entry

def snapshot (entries : KeyMap Entry) (r : DiskRecord) : KeyMap Entry :=
  entries.insert r.entry.action.id r.entry

theorem checkNext_ok_iff {current next : Entry} :
    checkNext current next = .ok () ↔ Follows current next := by
  by_cases h : current.state = next.state
  · rw [checkNext, if_pos h, Follows, Repeats]
    simp only [bind_ok_iff, check_eq_ok]
    simp [h]
  · rw [checkNext, if_neg h, Follows, Advances]
    simp only [bind_ok_iff, check_eq_ok]
    simp [h, imp_iff_not_or]

variable {entries entries' : KeyMap Entry} {rs : List DiskRecord} {ss : List Stored}
  {lines : List Str} {tail : Str}

theorem checkRecord_ok_iff {r : DiskRecord} :
    checkRecord entries r = .ok () ↔ Admissible entries r := by
  constructor
  · intro h
    simp only [checkRecord, bind_ok_iff, check_eq_ok, beq_iff_eq] at h
    obtain ⟨_, he, _, hv, h⟩ := h
    cases hg : entries.get? r.entry.action.id with
    | none =>
      simp only [hg, bind_ok_iff, check_eq_ok, beq_iff_eq, decide_eq_true_eq] at h
      obtain ⟨-, hst, hz⟩ := h
      exact ⟨he, hv, fun _ => ⟨hst, hz⟩, by simp [hg]⟩
    | some =>
      rw [hg] at h
      exact ⟨he, hv, by simp [hg],
        fun c hc => checkNext_ok_iff.1 (Option.some.inj (hg.symm.trans hc) ▸ h)⟩
  · rintro ⟨he, hv, hf, hfollows⟩
    simp only [checkRecord, bind_ok_iff, check_eq_ok, beq_iff_eq]
    refine ⟨(), he, (), hv, ?_⟩
    cases hg : entries.get? r.entry.action.id with
    | none =>
      obtain ⟨hst, hz⟩ := hf hg
      simp [bind_ok_iff, hst, hz]
    | some current => exact checkNext_ok_iff.2 (hfollows current hg)

theorem applyRecord_ok_iff {r : DiskRecord} : applyRecord entries r = .ok entries' ↔
      Admissible entries r ∧ snapshot entries r = entries' := by
  rw [applyRecord, map_ok_iff, ← checkRecord_ok_iff]
  constructor
  · rintro ⟨_, h, rfl⟩
    exact ⟨h, rfl⟩
  · rintro ⟨h, rfl⟩
    exact ⟨(), h, rfl⟩

/-! ## Replaying a list -/

/-- The latest snapshot of each action. -/
def snapshots (entries : KeyMap Entry) (rs : List DiskRecord) : KeyMap Entry :=
  rs.foldl snapshot entries

/-- Every record is admissible after the records before it. -/
def Accepted (entries : KeyMap Entry) : List DiskRecord → Prop
  | [] => True
  | r :: rs => Admissible entries r ∧ Accepted (snapshot entries r) rs

theorem accepted_append {ss : List DiskRecord} :
    Accepted entries (rs ++ ss) ↔ Accepted entries rs ∧ Accepted (snapshots entries rs) ss := by
  induction rs generalizing entries with
  | nil => simp [Accepted, snapshots]
  | cons _ _ ih =>
    rw [List.cons_append, Accepted, Accepted, ih, and_assoc]
    rfl

theorem snapshots_append (entries : KeyMap Entry) (rs ss : List DiskRecord) :
    snapshots entries (rs ++ ss) = snapshots (snapshots entries rs) ss := List.foldl_append

theorem replay_of_accepted
    (h : Accepted entries rs) : replay entries rs = .ok (snapshots entries rs, rs, false) := by
  induction rs generalizing entries with
  | nil => rfl
  | cons _ _ ih =>
    obtain ⟨hr, hrs⟩ := h
    rw [replay, applyRecord_ok_iff.2 ⟨hr, rfl⟩]
    simp only [ih hrs]
    rfl

/-- **Replay keeps an admissible list of records**: all of them, or all but a last one that is not
admissible after them. -/
theorem replay_spec {kept : List DiskRecord} {dropped : Bool}
    (h : replay entries rs = .ok (entries', kept, dropped)) :
    Accepted entries kept ∧ entries' = snapshots entries kept ∧ (dropped = false → kept = rs) ∧
      (dropped = true → ∃ r, rs = kept ++ [r] ∧ ¬Admissible entries' r) := by
  induction rs generalizing entries kept with
  | nil =>
    cases h
    exact ⟨trivial, rfl, fun _ => rfl, nofun⟩
  | cons r _ ih =>
    rw [replay] at h
    cases hp : applyRecord entries r with
    | ok =>
      simp only [hp, map_ok_iff] at h
      obtain ⟨⟨_, _, _⟩, ht, rfl, rfl, rfl⟩ := h
      obtain ⟨hadm, rfl⟩ := applyRecord_ok_iff.1 hp
      obtain ⟨hc, he, ha, hl⟩ := ih ht
      refine ⟨⟨hadm, hc⟩, he, fun hd => by rw [ha hd], fun hd => ?_⟩
      obtain ⟨r', hr', hn⟩ := hl hd
      exact ⟨r', by rw [hr']; rfl, hn⟩
    | error =>
      simp only [hp] at h
      split_ifs at h with hnil
      cases h
      refine ⟨trivial, rfl, fun h => (by cases h), fun _ => ⟨r, by rw [hnil]; rfl, ?_⟩⟩
      intro hadm
      rw [applyRecord_ok_iff.2 ⟨hadm, rfl⟩] at hp
      cases hp

/-! ## Reading a file of lines -/

/-- A record in the file, and the local zone of the process that printed it. -/
structure Stored where
  lo : Int → Int
  record : DiskRecord

def Stored.line (s : Stored) : Option Str := encodeRecord s.lo s.record

/-- What the `index`-th stored record reads back as. -/
def Stored.read (lo : Int → Int) (index : Nat) (s : Stored) : DiskRecord :=
  s.record.readBack s.lo lo (4 * index)

/-- What the stored records read back as, the first of them being the `index`-th. -/
def readAll (lo : Int → Int) : Nat → List Stored → List DiskRecord
  | _, [] => []
  | index, s :: ss => s.read lo index :: readAll lo (index + 1) ss

theorem readAll_append (lo : Int → Int) (index : Nat) (ss ts : List Stored) :
    readAll lo index (ss ++ ts) = readAll lo index ss ++ readAll lo (index + ss.length) ts := by
  induction ss generalizing index with
  | nil => rfl
  | cons _ _ ih =>
    rw [List.cons_append, readAll, ih, readAll, List.cons_append, List.length_cons,
      Nat.add_right_comm, Nat.add_assoc]

/-- The lines are those of the stored records. -/
def Written (ss : List Stored) (lines : List Str) : Prop :=
  List.Forall₂ (fun s line => s.line = some line ∧ s.record.version = journalVersion) ss lines

theorem Written.version (h : Written ss lines) : ∀ s ∈ ss, s.record.version = journalVersion := by
  induction h with
  | nil => simp
  | cons hs _ ih =>
    exact List.forall_mem_cons.2 ⟨hs.2, ih⟩

theorem splitAfter_line {text : Str} (h : (0x0A : UInt8) ∉ text) (s : Str) :
    splitAfter (text ++ 0x0A :: s) = (text ++ [0x0A]) :: splitAfter s := by
  induction text with
  | nil => rfl
  | cons _ _ ih =>
    obtain ⟨hb, ht⟩ := not_or.1 (mt List.mem_cons.2 h)
    rw [List.cons_append, splitAfter, if_neg fun hb' => hb hb'.symm, ih ht]
    rfl

theorem splitAfter_tail (h : (0x0A : UInt8) ∉ tail) :
    splitAfter tail = [tail] := by
  induction tail with
  | nil => rfl
  | cons _ _ ih =>
    obtain ⟨hb, ht⟩ := not_or.1 (mt List.mem_cons.2 h)
    rw [splitAfter, if_neg fun hb' => hb hb'.symm, ih ht]

theorem splitAfter_ne_nil (s : Str) : splitAfter s ≠ [] := by
  cases s with
  | nil => exact List.cons_ne_nil _ _
  | cons =>
    rw [splitAfter]
    split_ifs
    · exact List.cons_ne_nil _ _
    split
    · exact List.cons_ne_nil _ _
    · exact List.cons_ne_nil _ _

theorem readPieces_tail (lo : Int → Int) (index : Nat) (h : (0x0A : UInt8) ∉ tail) :
    readPieces lo index [tail] = .ok ⟨[], 0, decide (tail ≠ [])⟩ := by
  by_cases hn : tail = []
  · subst hn
    rfl
  have hlast : (tail.getLast? == some 0x0A) = false := by
    rw [beq_eq_false_iff_ne]
    intro hl
    exact h (List.mem_of_getLast? hl)
  rw [readPieces]
  simp only [hlast, if_true, Bool.not_false, if_false, Bool.false_eq_true]
  cases decodeRecord lo (4 * index) tail with
  | none | some => simp [hn]

/-- **A file of lines reads back as their records**, up to a line that is too long. -/
theorem readPieces_written (h : Written ss lines) (ht : (0x0A : UInt8) ∉ tail) (lo : Int → Int)
    (index : Nat) :
    readPieces lo index (splitAfter (lines.flatten ++ tail)) =
      if ∀ line ∈ lines, line.length ≤ maxRecordBytes then
        .ok ⟨readAll lo index ss, lines.flatten.length, decide (tail ≠ [])⟩
      else .error .invalidRecord := by
  induction h generalizing index with
  | nil =>
    rw [List.flatten_nil, List.nil_append, splitAfter_tail ht, readPieces_tail lo index ht]
    rfl
  | @cons s line ss lines hs _ ih =>
    obtain ⟨text, rfl, hne, hnl, hr⟩ :=
      decodeRecord_encodeRecord hs.1 (by rw [hs.2]; decide) lo
    have hl : ((text ++ [0x0A]).getLast? == some 0x0A) = true := by simp
    rw [List.flatten_cons, List.append_assoc, List.append_assoc, List.singleton_append,
      splitAfter_line hnl, readPieces, if_neg (by simp)]
    simp only [hl, if_true, List.dropLast_concat, hr, hne, false_or, ih]
    have hrest : (splitAfter (lines.flatten ++ tail)).isEmpty = false := by
      rw [List.isEmpty_eq_false_iff]
      exact splitAfter_ne_nil _
    have hcons : (∀ line ∈ (text ++ [0x0A]) :: lines, line.length ≤ maxRecordBytes) ↔
        (text ++ [0x0A]).length ≤ maxRecordBytes ∧
          ∀ line ∈ lines, line.length ≤ maxRecordBytes := List.forall_mem_cons
    by_cases hlong : maxRecordBytes < (text ++ [0x0A]).length
    · rw [if_pos hlong, hrest, if_neg Bool.false_ne_true, if_neg]
      intro ha
      exact absurd (hcons.1 ha).1 (Nat.not_le.2 hlong)
    rw [if_neg hlong]
    by_cases ha : ∀ line ∈ lines, line.length ≤ maxRecordBytes
    · rw [if_pos ha, if_pos (hcons.2 ⟨Nat.not_lt.1 hlong, ha⟩)]
      simp [Except.map, readAll, Stored.read]
      omega
    · rw [if_neg ha, if_neg fun h => ha (hcons.1 h).2]
      rfl

theorem readRecords_eq (lo : Int → Int) (data : Str) : readRecords lo data =
      if maxJournalBytes < data.length then .error .byteLimit
      else readPieces lo 0 (splitAfter data) := by
  by_cases h : data = []
  · subst h
    rfl
  · rw [readRecords, if_neg h]

theorem written_of_encodeRecords {lo : Int → Int} {data : Str}
    (h : encodeRecords lo rs = some data) (hv : ∀ r ∈ rs, r.version = journalVersion) :
    ∃ lines, Written (rs.map (Stored.mk lo)) lines ∧ data = lines.flatten := by
  obtain ⟨lines, hlines, rfl⟩ := Option.map_eq_some_iff.1 h
  refine ⟨lines, ?_, rfl⟩
  clear h
  induction rs generalizing lines with
  | nil =>
    cases hlines
    exact List.Forall₂.nil
  | cons r _ ih =>
    simp only [List.mapM_cons, Option.bind_eq_bind, Option.bind_eq_some_iff] at hlines
    obtain ⟨_, hl, rest, ht, heq⟩ := hlines
    cases heq
    have hr : r.version = journalVersion := hv r (.head _)
    exact List.Forall₂.cons ⟨hl, hr⟩ (ih (fun q hq => hv q (.tail _ hq)) rest ht)

theorem Accepted.admissible (h : Accepted entries rs) :
    ∀ r ∈ rs, ∃ before, Admissible before r := by
  induction rs generalizing entries with
  | nil => simp
  | cons _ _ ih =>
    exact List.forall_mem_cons.2 ⟨⟨_, h.1⟩, ih h.2⟩

/-- **What a file of lines recovers to**: the snapshots of an accepted list of records that holds
all of its records, or all but an inadmissible last one. The file is left alone or holds exactly the
records kept. -/
theorem recoverJournal_spec
    {lo : Int → Int} {j : Journal} (h : Written ss lines) (ht : (0x0A : UInt8) ∉ tail)
    (hj : recoverJournal lo (lines.flatten ++ tail) = .ok j) :
    ∃ kept, Accepted KeyMap.empty kept ∧ j.entries = snapshots KeyMap.empty kept ∧
      (readAll lo 0 ss = kept ∨ ∃ r, readAll lo 0 ss = kept ++ [r] ∧ ¬Admissible j.entries r) ∧
      ∃ ss' lines', Written ss' lines' ∧ j.file = lines'.flatten ∧ j.bytes = j.file.length ∧
        ((ss' = ss ∧ kept = readAll lo 0 ss) ∨ ss' = kept.map (Stored.mk lo)) := by
  simp only [recoverJournal, bind_ok_iff] at hj
  obtain ⟨_, hr, ⟨_, kept, dropped⟩, hrepl, hj⟩ := hj
  rw [readRecords_eq] at hr
  split_ifs at hr
  rw [readPieces_written h ht] at hr
  split_ifs at hr
  cases hr
  obtain ⟨hc, rfl, ha, hl⟩ := replay_spec hrepl
  have hk : readAll lo 0 ss = kept ∨
      ∃ r, readAll lo 0 ss = kept ++ [r] ∧ ¬Admissible (snapshots KeyMap.empty kept) r := by
    cases dropped with
    | false => exact .inl (ha rfl).symm
    | true => exact .inr (hl rfl)
  split_ifs at hj with hdirty
  · rw [Journal.rewriteRecords] at hj
    cases hd : encodeRecords lo kept with
    | none => simp [hd] at hj
    | some =>
      simp only [hd] at hj
      cases hj
      obtain ⟨lines', hw, rfl⟩ := written_of_encodeRecords hd fun r hr =>
        (hc.admissible r hr).elim fun _ h => h.version
      exact ⟨kept, hc, rfl, hk, _, lines', hw, rfl, rfl, .inr rfl⟩
  · -- without a torn tail and without a dropped record the file stays as it is
    cases hj
    simp only [Bool.or_eq_true, not_or, Bool.not_eq_true, decide_eq_false_iff_not,
      Decidable.not_not] at hdirty
    obtain ⟨rfl, rfl⟩ := hdirty
    exact ⟨kept, hc, rfl, hk, ss, lines, h, by simp, by simp, Or.inl ⟨rfl, ha rfl⟩⟩

end KubeNeuron.Agent
