import KubeNeuron.Agent.JournalReplay
import KubeNeuron.Agent.JournalSteps
import Mathlib.Data.List.Induction

/-!
# No action returns to `received`

Once the file holds a record that takes an action out of `received` (`Settled`), the action is never
found in `received` again. Replay can only drop a record that is not admissible, and such a record
is admissible whenever the records before it are (`admissible_of_sameIntent`).
-/

namespace KubeNeuron.Agent

open Lib KubeNeuron.Types

/-! ## Sound entries -/

variable {e : Entry} {entries : KeyMap Entry} {lo : Int → Int}

theorem validateEntry_ok_iff :
    validateEntry e = .ok () ↔ validateAction e.action = .ok () ∧ e.updatedAt.isZero = false ∧
      validateLease e = .ok () ∧ validateState e = .ok () := by
  simp only [validateEntry, bind_ok_iff, check_eq_ok, Bool.not_eq_true']
  constructor
  · rintro ⟨_, ha, _, hu, _, hl, hst⟩
    exact ⟨ha, hu, hl, hst⟩
  · rintro ⟨ha, hu, hl, hst⟩
    exact ⟨(), ha, (), hu, (), hl, hst⟩

theorem validateState_ok_iff
    (h : e.state = .received ∨ e.state = .running ∨ e.state = .outcomeUnknown) :
    validateState e = .ok () ↔ e.result = none := by
  rcases h with h | h | h
  · simp [validateState, h]
  · simp [validateState, h]
  · simp [validateState, h]

/-- An entry that passed the checks, with the times the journal itself sets in UTC and an ID that
its text carries exactly. -/
structure Sound (e : Entry) : Prop where
  valid : validateEntry e = .ok ()
  expiry : e.leaseExpiresAt.zone = .utc
  updated : e.updatedAt.zone = .utc
  id : ValidUTF8 e.action.id

theorem readTime_utc {t : GoTime} (h : t.zone = .utc) (lo lo' : Int → Int) (address : Nat) :
    readTime lo lo' address t = ⟨t.ns, .utc, none⟩ := by
  simp [readTime, h, Zone.offset, printedOffset, timeAt]

theorem ofText_toValid_text {s : State} (h : ∀ t, s ≠ .other t) :
    State.ofText (toValid s.text) = s := by
  cases s with
  | other t => exact absurd rfl (h t)
  | _ => decide

namespace Sound

theorem state_ne_other (h : Sound e) (t : Str) : e.state ≠ .other t := by
  intro hs
  have := (validateEntry_ok_iff.1 h.valid).2.2.2
  rw [validateState, hs] at this
  cases this

theorem result_eq_none (h : Sound e)
    (hs : e.state = .received ∨ e.state = .running ∨ e.state = .outcomeUnknown) :
    e.result = none :=
  (validateState_ok_iff hs).1 (validateEntry_ok_iff.1 h.valid).2.2.2

section
variable (h : Sound e) (lo lo' : Int → Int) (address : Nat)
include h

theorem readBack_id : (e.readBack lo lo' address).action.id = e.action.id := toValid_eq_self h.id

theorem readBack_state : (e.readBack lo lo' address).state = e.state :=
  ofText_toValid_text h.state_ne_other

theorem readBack_expiry :
    (e.readBack lo lo' address).leaseExpiresAt = ⟨e.leaseExpiresAt.ns, .utc, none⟩ :=
  readTime_utc h.expiry lo lo' _

theorem readBack_updated : (e.readBack lo lo' address).updatedAt = ⟨e.updatedAt.ns, .utc, none⟩ :=
  readTime_utc h.updated lo lo' _

end

end Sound

/-! ## The same intent under the same claim -/

/-- Two entries whose lines carry the same action and claim. -/
structure SameIntent (a b : Entry) : Prop where
  action : a.action.readBack = b.action.readBack
  token : toValid a.leaseToken = toValid b.leaseToken
  expiry : a.leaseExpiresAt.ns = b.leaseExpiresAt.ns

theorem SameIntent.refl (a : Entry) : SameIntent a a := ⟨rfl, rfl, rfl⟩

variable {a b : Entry} {kept rs : List DiskRecord} {ss : List Stored}

theorem SameIntent.symm (h : SameIntent a b) : SameIntent b a :=
  ⟨h.action.symm, h.token.symm, h.expiry.symm⟩

theorem SameIntent.trans {c : Entry} (h : SameIntent a b) (h' : SameIntent b c) :
    SameIntent a c :=
  ⟨h.action.trans h'.action, h.token.trans h'.token, h.expiry.trans h'.expiry⟩

theorem sameClaim_of_eq (ht : a.leaseToken = b.leaseToken)
    (hns : a.leaseExpiresAt.ns = b.leaseExpiresAt.ns) (hmono : a.leaseExpiresAt.mono = none) :
    sameClaim a b = true := by
  simp [sameClaim, ht, GoTime.equal, hmono, hns]

/-- **A record that leaves `received` is admissible**: when the entry so far is the read-back of a
received entry with the same action and claim, so that nothing but the state is new. -/
theorem admissible_of_sameIntent {p m : Entry} {lo'' : Int → Int}
    {i : Nat} (hp : Sound p) (hm : Sound m) (he : SameIntent p m)
    (hid : p.action.id = m.action.id) (hr : p.state = .received)
    (hst : m.state = .running ∨ m.state = .outcomeUnknown)
    (hg : entries.get? p.action.id = some (p.readBack lo lo'' i))
    (hv : validateEntry (p.readBack lo lo'' i) = .ok ()) (lo' : Int → Int) (k : Nat) :
    Admissible entries ⟨journalVersion, m.readBack lo' lo'' k⟩ := by
  have ha : (m.readBack lo' lo'' k).action = (p.readBack lo lo'' i).action := he.action.symm
  have ht : (m.readBack lo' lo'' k).leaseToken = (p.readBack lo lo'' i).leaseToken :=
    he.token.symm
  have hx : (m.readBack lo' lo'' k).leaseExpiresAt = (p.readBack lo lo'' i).leaseExpiresAt := by
    rw [hm.readBack_expiry, hp.readBack_expiry, he.expiry]
  have hn : (m.readBack lo' lo'' k).result = none := by
    rw [Entry.readBack, hm.result_eq_none (Or.inr hst), Option.map_none]
  obtain ⟨hva, -, hvl, -⟩ := validateEntry_ok_iff.1 hv
  refine ⟨rfl, validateEntry_ok_iff.2 ⟨?_, ?_, ?_, ?_⟩, ?_, ?_⟩
  · exact ha ▸ hva
  · rw [hm.readBack_updated]
    exact (validateEntry_ok_iff.1 hm.valid).2.1
  · rw [validateLease, ht, hx]
    exact hvl
  · refine (validateState_ok_iff ?_).2 hn
    rw [hm.readBack_state]
    exact .inr hst
  · intro hb
    rw [hm.readBack_id, ← hid, hg] at hb
    cases hb
  intro current hc
  rw [hm.readBack_id, ← hid, hg] at hc
  cases hc
  refine ⟨ha ▸ sameAction_self _, .inr ⟨?_, ?_⟩⟩
  · rw [hp.readBack_state, hm.readBack_state, hr]
    rcases hst with hs | hs
    · simp [hs]
    · simp [hs]
  have hclaim : sameClaim (p.readBack lo lo'' i) (m.readBack lo' lo'' k) = true :=
    sameClaim_of_eq ht.symm (by rw [hx]) (by rw [hp.readBack_expiry])
  simp only [Advances, hp.readBack_state, hm.readBack_state, hr]
  rcases hst with hs | hs
  · simp [hs, allowedTransition, hclaim]
  · simp [hs, allowedTransition, hclaim, hn]

/-! ## Latest snapshots -/

theorem get?_snapshot (entries : KeyMap Entry) (r : DiskRecord) (id : Str) :
    (snapshot entries r).get? id =
      if id = r.entry.action.id then some r.entry else entries.get? id :=
  KeyMap.get?_insert entries _ id _

/-- The last record of an action is its snapshot. -/
theorem get?_snapshots (entries : KeyMap Entry) (rs : List DiskRecord) (id : Str) :
    (snapshots entries rs).get? id =
      ((rs.reverse.find? fun r => id = r.entry.action.id).map DiskRecord.entry).or
        (entries.get? id) := by
  induction rs using List.reverseRecOn with
  | nil => rfl
  | append_singleton rs r ih =>
    rw [snapshots, List.foldl_concat, get?_snapshot, ← snapshots, ih, List.reverse_concat,
      List.find?_cons]
    split_ifs with h <;> simp [h]

theorem get?_snapshots_of_ne {id : Str}
    (h : ∀ r ∈ rs, r.entry.action.id ≠ id) : (snapshots entries rs).get? id = entries.get? id := by
  rw [get?_snapshots, List.find?_eq_none.2]
  · rfl
  · simpa [@eq_comm _ id] using h

theorem get?_snapshots_last {id : Str} {ss : List DiskRecord}
    {r : DiskRecord} (hr : r.entry.action.id = id) (h : ∀ q ∈ ss, q.entry.action.id ≠ id) :
    (snapshots entries (rs ++ r :: ss)).get? id = some r.entry := by
  rw [snapshots_append, snapshots, List.foldl_cons, ← snapshots, get?_snapshots_of_ne h,
    get?_snapshot, if_pos hr.symm]

theorem get?_snapshots_ne_received {id : Str} (he : entries.get? id = some e)
    (hs : e.state ≠ .received)
    (h : ∀ r ∈ rs, r.entry.action.id = id → r.entry.state ≠ .received) :
    ∃ e', (snapshots entries rs).get? id = some e' ∧ e'.state ≠ .received := by
  rw [get?_snapshots]
  cases hf : rs.reverse.find? fun r => id = r.entry.action.id with
  | none => exact ⟨e, he, hs⟩
  | some r =>
    have hid : id = r.entry.action.id := by simpa using List.find?_some hf
    exact ⟨r.entry, rfl, h r (List.mem_reverse.1 (List.mem_of_find?_eq_some hf)) hid.symm⟩

/-! ## Settled actions -/

def Stored.id (s : Stored) : Str := s.record.entry.action.id

def Stored.state (s : Stored) : State := s.record.entry.state

/-- The file holds a received record `p` of the action and, as the next record of the action, a
record `m` with the same intent that leaves `received`; no received record of it follows. -/
structure Leaves (id : Str) (pre : List Stored) (p : Stored) (mid : List Stored) (m : Stored)
    (post : List Stored) : Prop where
  pid : p.id = id
  pstate : p.state = .received
  mid_ne : ∀ s ∈ mid, s.id ≠ id
  mid_id : m.id = id
  mstate : m.state = .running ∨ m.state = .outcomeUnknown
  same : SameIntent p.record.entry m.record.entry
  post_ne : ∀ s ∈ post, s.id = id → s.state ≠ .received

/-- The action has left `received` for good. -/
def Settled (id : Str) (ss : List Stored) : Prop :=
  ∃ pre p mid m post, ss = pre ++ p :: (mid ++ m :: post) ∧ Leaves id pre p mid m post

theorem Settled.append {id : Str} {ts : List Stored} (h : Settled id ss)
    (hts : ∀ s ∈ ts, s.id = id → s.state ≠ .received) : Settled id (ss ++ ts) := by
  obtain ⟨pre, p, mid, m, post, rfl, hl⟩ := h
  refine ⟨pre, p, mid, m, post ++ ts, by simp, { hl with post_ne := ?_ }⟩
  exact List.forall_mem_append.2 ⟨hl.post_ne, hts⟩

theorem mem_readAll {index : Nat} {r : DiskRecord}
    (h : r ∈ readAll lo index ss) : ∃ s ∈ ss, ∃ k, r = s.read lo k := by
  induction ss generalizing index with
  | nil => cases h
  | cons s _ ih =>
    obtain _ | ⟨_, h⟩ := h
    · exact ⟨s, .head _, index, rfl⟩
    · obtain ⟨t, ht, k, rfl⟩ := ih h
      exact ⟨t, .tail _ ht, k, rfl⟩

section
variable {s : Stored} (h : Sound s.record.entry) (lo : Int → Int) (k : Nat)
include h

theorem read_id : (s.read lo k).entry.action.id = s.id := h.readBack_id s.lo lo _

theorem read_state : (s.read lo k).entry.state = s.state := h.readBack_state s.lo lo _

theorem sameIntent_read : SameIntent s.record.entry (s.read lo k).entry :=
  ⟨(Action.readBack_of_valid (Action.valid_readBack s.record.entry.action)).symm,
    (toValid_toValid s.record.entry.leaseToken).symm,
    (congrArg GoTime.ns (h.readBack_expiry s.lo lo _)).symm⟩

theorem sound_read (hv : validateEntry (s.read lo k).entry = .ok ()) : Sound (s.read lo k).entry :=
  ⟨hv, congrArg GoTime.zone (h.readBack_expiry s.lo lo _),
    congrArg GoTime.zone (h.readBack_updated s.lo lo _),
    validUTF8_toValid s.record.entry.action.id⟩

end

theorem kept_eq_of_leaves {id : Str} {pre mid post : List Stored}
    {p m : Stored} (hp : Sound p.record.entry) (hm : Sound m.record.entry)
    (hmid : ∀ s ∈ mid, Sound s.record.entry) (hv : m.record.version = journalVersion)
    (hl : Leaves id pre p mid m post) {i k l : Nat}
    (ha : Accepted KeyMap.empty kept)
    (hk : readAll lo 0 pre ++ p.read lo i :: (readAll lo k mid ++ m.read lo l ::
        readAll lo (l + 1) post) = kept ∨
      ∃ r, readAll lo 0 pre ++ p.read lo i :: (readAll lo k mid ++ m.read lo l ::
        readAll lo (l + 1) post) = kept ++ [r] ∧ ¬Admissible (snapshots KeyMap.empty kept) r) :
    ∃ rest, kept = readAll lo 0 pre ++ p.read lo i :: (readAll lo k mid ++ m.read lo l :: rest) ∧
      ∀ r ∈ rest, r ∈ readAll lo (l + 1) post := by
  rcases hk with rfl | ⟨_, heq, hr⟩
  · exact ⟨_, rfl, fun _ h => h⟩
  rcases List.eq_nil_or_concat (readAll lo (l + 1) post) with hpost | ⟨rest, _, hpost⟩
  · -- the record itself would be the dropped one, but it is admissible
    rw [hpost, ← List.cons_append, ← List.append_assoc] at heq
    obtain ⟨rfl, hlast⟩ := List.append_inj' heq rfl
    obtain rfl := List.singleton_inj.1 hlast
    refine absurd ?_ hr
    have hg : (snapshots KeyMap.empty (readAll lo 0 pre ++ (p.read lo i :: readAll lo k mid))).get?
        p.id = some (p.read lo i).entry := by
      refine get?_snapshots_last (read_id hp lo i) fun q hq => ?_
      obtain ⟨s, hs, _, rfl⟩ := mem_readAll hq
      rw [read_id (hmid s hs), hl.pid]
      exact hl.mid_ne s hs
    have hval := ((accepted_append.1 ha).2.1).valid
    have hd := admissible_of_sameIntent hp hm hl.same (hl.pid.trans hl.mid_id.symm)
      hl.pstate hl.mstate hg hval m.lo (4 * l)
    have hread : m.read lo l = ⟨journalVersion, m.record.entry.readBack m.lo lo (4 * l)⟩ := by
      rw [← hv]
      rfl
    rw [hread]
    exact hd
  · rw [hpost, List.concat_eq_append, ← List.cons_append, ← List.append_assoc,
      ← List.cons_append, ← List.append_assoc] at heq
    obtain ⟨rfl, -⟩ := List.append_inj' heq rfl
    exact ⟨rest, by simp, fun q hq => by rw [hpost]; simp [hq]⟩

/-- **A settled action survives every recovery**: it is settled in the rewritten file, and its entry
is not in `received`. -/
theorem Settled.recover {id : Str} (h : Settled id ss) (hd : ∀ s ∈ ss, Sound s.record.entry)
    (hv : ∀ s ∈ ss, s.record.version = journalVersion) (ha : Accepted KeyMap.empty kept)
    (hk : readAll lo 0 ss = kept ∨
      ∃ r, readAll lo 0 ss = kept ++ [r] ∧ ¬Admissible (snapshots KeyMap.empty kept) r) :
    Settled id (kept.map (Stored.mk lo)) ∧
      ∃ e, (snapshots KeyMap.empty kept).get? id = some e ∧ e.state ≠ .received := by
  obtain ⟨pre, p, mid, m, post, rfl, hl⟩ := h
  have hp : Sound p.record.entry := hd p (by simp)
  have hm : Sound m.record.entry := hd m (by simp)
  have hmid : ∀ s ∈ mid, Sound s.record.entry := fun s hs => hd s (by simp [hs])
  have hpost : ∀ s ∈ post, Sound s.record.entry := fun s hs => hd s (by simp [hs])
  rw [readAll_append, readAll, readAll_append] at hk
  obtain ⟨rest, rfl, hrest⟩ := kept_eq_of_leaves hp hm hmid (hv m (by simp)) hl ha hk
  have hrest' : ∀ r ∈ rest, r.entry.action.id = id → r.entry.state ≠ .received := by
    intro r hr hid
    obtain ⟨s, hs, _, rfl⟩ := mem_readAll (hrest r hr)
    rw [read_id (hpost s hs)] at hid
    rw [read_state (hpost s hs)]
    exact hl.post_ne s hs hid
  have hmstate := hl.mstate
  rw [← read_state hm lo (0 + pre.length + 1 + mid.length)] at hmstate
  constructor
  · refine ⟨(readAll lo 0 pre).map (Stored.mk lo), ⟨lo, _⟩, (readAll lo _ mid).map (Stored.mk lo),
      ⟨lo, _⟩, rest.map (Stored.mk lo), by
        rw [List.map_append, List.map_cons, List.map_append, List.map_cons], ?_⟩
    refine ⟨(read_id hp lo _).trans hl.pid, (read_state hp lo _).trans hl.pstate, ?_,
      (read_id hm lo _).trans hl.mid_id, hmstate, ?_, ?_⟩
    · intro s hs
      obtain ⟨_, hr, rfl⟩ := List.mem_map.1 hs
      obtain ⟨t, ht, k, rfl⟩ := mem_readAll hr
      rw [show (Stored.mk lo (t.read lo k)).id = t.id from read_id (hmid t ht) lo k]
      exact hl.mid_ne t ht
    · exact ((sameIntent_read hp lo _).symm.trans hl.same).trans (sameIntent_read hm lo _)
    · intro s hs hid
      obtain ⟨r, hr, rfl⟩ := List.mem_map.1 hs
      exact hrest' r hr hid
  · rw [← List.cons_append, ← List.append_assoc, snapshots_append, snapshots, List.foldl_cons]
    refine get?_snapshots_ne_received (e := (m.read lo (0 + pre.length + 1 + mid.length)).entry)
      ?_ ?_ hrest'
    · rw [get?_snapshot, if_pos]
      exact ((read_id hm lo _).trans hl.mid_id).symm
    rcases hmstate with hs | hs
    · rw [hs]
      decide
    · rw [hs]
      decide

/-! ## Histories written by a compaction -/

theorem validateEntry_atState {state : State} (h : validateEntry e = .ok ())
    (hs : state ∈ historyStates e) : validateEntry (atState e state) = .ok () := by
  obtain ⟨ha, hu, hl, hst⟩ := validateEntry_ok_iff.1 h
  have hcommon : (atState e state).action = e.action ∧
      (atState e state).updatedAt = e.updatedAt ∧ validateLease (atState e state) = .ok () := by
    cases state <;> exact ⟨rfl, rfl, hl⟩
  refine validateEntry_ok_iff.2 ⟨hcommon.1 ▸ ha, hcommon.2.1 ▸ hu, hcommon.2.2, ?_⟩
  revert hs
  -- the states before the outcome carry no result, and the last one is that of the entry
  cases state with
  | received | running | outcomeUnknown => exact fun _ => rfl
  | outcomeKnown =>
    fun_cases historyStates e with
    | case3 hes =>
      intro _
      rw [atState, ← hes]
      exact hst
    | case5 hes hr =>
      -- the result was checked when the entry was reported
      intro _
      obtain ⟨r, hr⟩ := Option.isSome_iff_exists.1 hr
      simp only [validateState, hes, hr, bind_ok_iff] at hst
      obtain ⟨_, -, ho⟩ := hst
      simp only [validateState, atState, hr]
      exact ho
    | _ => simp
  | reported =>
    fun_cases historyStates e with
    | case5 hes | case6 hes =>
      intro _
      rw [atState, ← hes]
      exact hst
    | _ => simp
  | other => fun_cases historyStates e <;> simp

theorem atState_fields (e : Entry) (state : State) :
    (atState e state).action = e.action ∧ (atState e state).state = state ∧
      (atState e state).leaseToken = e.leaseToken ∧
      (atState e state).leaseExpiresAt = e.leaseExpiresAt ∧
      (atState e state).updatedAt = e.updatedAt := by
  cases state <;> exact ⟨rfl, rfl, rfl, rfl, rfl⟩

theorem sameIntent_atState (e : Entry) (state : State) : SameIntent (atState e state) e := by
  obtain ⟨ha, -, ht, hx, -⟩ := atState_fields e state
  exact ⟨by rw [ha], by rw [ht], by rw [hx]⟩

theorem Sound.atState {state : State} (h : Sound e) (hs : state ∈ historyStates e) :
    Sound (atState e state) := by
  obtain ⟨ha, -, -, hx, hu⟩ := atState_fields e state
  exact ⟨validateEntry_atState h.valid hs, hx ▸ h.expiry, hu ▸ h.updated, ha ▸ h.id⟩

theorem historyStates_spec (h : Sound e) : (e.state = .received ∧ historyStates e = [.received]) ∨
      (e.state ≠ .received ∧ ∃ m rest, historyStates e = .received :: m :: rest ∧
        (m = .running ∨ m = .outcomeUnknown) ∧ .received ∉ rest ∧
        (m :: rest).getLast? = some e.state) := by
  cases hes : e.state with
  | received => exact Or.inl ⟨rfl, by simp [historyStates, hes]⟩
  | running => exact Or.inr ⟨by simp, .running, [], by simp [historyStates, hes]⟩
  | outcomeKnown => exact Or.inr ⟨by simp, .running, [.outcomeKnown], by simp [historyStates, hes]⟩
  | outcomeUnknown => exact Or.inr ⟨by simp, .outcomeUnknown, [], by simp [historyStates, hes]⟩
  | reported =>
    cases hr : e.result with
    | none => exact Or.inr ⟨by simp, .outcomeUnknown, [.reported], by simp [historyStates, hes, hr]⟩
    | some =>
      exact Or.inr ⟨by simp, .running, [.outcomeKnown, .reported],
        by simp [historyStates, hes, hr]⟩
  | other t => exact absurd hes (h.state_ne_other t)

end KubeNeuron.Agent
