import KubeNeuron.Agent.JournalBacking

/-!
# Entries that survive the file unchanged

Reading back replaces stray bytes, drops monotonic readings, allocates odd zones anew and shifts an
instant whose offset has seconds. `FaithfulEntry` excludes all of this for an entry printed under
the local zone `lo` and read under `lo'`.
-/

namespace KubeNeuron.Agent

open Lib KubeNeuron.Types ActionResult

variable {entries entries' : KeyMap Entry} {e : Entry} {es : List Entry}

variable {lo lo' : Int → Int}

/-! ## Times -/

/-- A time that reads back as the same instant in a shared location: its offset has no seconds, and
is zero, the local one of the reader, or a number of hours. -/
@[mk_iff]
structure StableTime (lo lo' : Int → Int) (t : GoTime) : Prop where
  minutes : t.zone.offset lo t.unixSec % 60 = 0
  shared : t.zone.offset lo t.unixSec = 0 ∨ lo' t.unixSec = t.zone.offset lo t.unixSec ∨
    (t.zone.offset lo t.unixSec % 3600 = 0 ∧ -12 ≤ t.zone.offset lo t.unixSec / 3600 ∧
      t.zone.offset lo t.unixSec / 3600 ≤ 14)

instance (lo lo' : Int → Int) (t : GoTime) : Decidable (StableTime lo lo' t) :=
  decidable_of_iff' _ (stableTime_iff lo lo' t)

theorem marshalTime_congr {t u : GoTime} (hns : t.ns = u.ns)
    (hoff : t.zone.offset lo t.unixSec = u.zone.offset lo' u.unixSec) :
    marshalTime lo t = marshalTime lo' u := by
  simp only [marshalTime, formatRFC3339Nano, hns, hoff]

namespace StableTime

variable {t : GoTime}

section

variable (h : StableTime lo lo' t)
include h

theorem readTime_eq : ∃ zone : Zone, (∀ address, readTime lo lo' address t = ⟨t.ns, zone, none⟩) ∧
      zone.offset lo' t.unixSec = t.zone.offset lo t.unixSec := by
  obtain ⟨hmin, hshared⟩ := h
  generalize hoff : t.zone.offset lo t.unixSec = off at hmin hshared
  by_cases hz : off = 0
  · refine ⟨.utc, fun address => ?_, hz.symm⟩
    rw [readTime, hoff, hz]
    simp [printedOffset, timeAt]
  have hprinted : printedOffset off = some off := by
    rw [printedOffset, if_neg hz, Int.tdiv_mul_cancel (Int.dvd_of_emod_eq_zero hmin)]
  have hr : ∀ address, readTime lo lo' address t =
      ⟨t.ns, zoneFor lo' address t.unixSec off, none⟩ := by
    intro address
    rw [readTime, hoff, hprinted]
    simp [timeAt, GoTime.unixSec]
  by_cases hloc : lo' t.unixSec = off
  · refine ⟨.loc, fun address => ?_, hloc⟩
    rw [hr, zoneFor, if_pos hloc]
  have hhours := (hshared.resolve_left hz).resolve_left hloc
  refine ⟨.hours (off / 3600), fun address => ?_, ?_⟩
  · rw [hr, zoneFor, if_neg hloc, if_pos hhours]
  · exact Int.mul_ediv_cancel_of_emod_eq_zero hhours.1

theorem readTime_ns (address : Nat) : (readTime lo lo' address t).ns = t.ns := by
  obtain ⟨_, hr, -⟩ := h.readTime_eq
  rw [hr]

theorem readTime_mono (address : Nat) : (readTime lo lo' address t).mono = none := by
  obtain ⟨_, hr, -⟩ := h.readTime_eq
  rw [hr]

theorem readTime_address (a b : Nat) : readTime lo lo' a t = readTime lo lo' b t := by
  obtain ⟨_, hr, -⟩ := h.readTime_eq
  rw [hr, hr]

theorem marshalTime_readTime (address : Nat) :
    marshalTime lo' (readTime lo lo' address t) = marshalTime lo t := by
  obtain ⟨_, hr, hoff⟩ := h.readTime_eq
  rw [hr]
  exact marshalTime_congr rfl hoff

end

end StableTime

/-! ## Results -/

/-- A result that reads back with every field its JSON form carries, still in order. -/
@[mk_iff]
structure FaithfulResult (lo lo' : Int → Int) (r : ActionResult) : Prop where
  output : ValidUTF8 r.output
  error : ValidUTF8 r.error
  started : StableTime lo lo' r.startedAt
  finished : StableTime lo lo' r.finishedAt
  ordered : r.startedAt.ns ≤ r.finishedAt.ns

instance (lo lo' : Int → Int) (r : ActionResult) : Decidable (FaithfulResult lo lo' r) :=
  decidable_of_iff' _ (faithfulResult_iff lo lo' r)

namespace FaithfulResult

variable {r : ActionResult}

section

variable (h : FaithfulResult lo lo' r)
include h

theorem readBack_address (a b : Nat) : r.readBack lo lo' a = r.readBack lo lo' b := by
  rw [readBack, h.started.readTime_address a b, h.finished.readTime_address (a + 1) (b + 1)]
  rfl

theorem validateResult_readBack (hid : ValidUTF8 r.actionID)
    (hv : validateResult r = .ok ()) (address : Nat) :
    validateResult (r.readBack lo lo' address) = .ok () := by
  simp only [validateResult, bind_ok_iff] at hv ⊢
  obtain ⟨_, hvid, _, ht, _, htimes, -⟩ := hv
  refine ⟨(), ?_, (), ?_, (), ?_, ?_⟩
  · rw [readBack, toValid_eq_self hid]
    exact hvid
  · rw [readBack, toValid_eq_self h.output, toValid_eq_self h.error]
    exact ht
  · simp only [GoTime.isZero, readBack, h.started.readTime_ns, h.finished.readTime_ns] at htimes ⊢
    exact htimes
  simp only [GoTime.before, readBack,
    h.finished.readTime_mono, h.started.readTime_ns, h.finished.readTime_ns]
  have := h.ordered
  simpa using this

theorem toJson_readBack (hid : ValidUTF8 r.actionID) (address : Nat) :
    (r.readBack lo lo' address).toJson lo' = r.toJson lo := by
  simp only [toJson, readBack, h.started.marshalTime_readTime, h.finished.marshalTime_readTime,
    slots, toValid_eq_self hid, toValid_eq_self h.output, toValid_eq_self h.error]

end

end FaithfulResult

/-! ## Entries -/

/-- A valid entry that reads back unchanged but for monotonic readings and refusal codes. -/
structure FaithfulEntry (lo lo' : Int → Int) (e : Entry) : Prop where
  valid : validateEntry e = .ok ()
  action : e.action.Valid
  token : ValidUTF8 e.leaseToken
  expiry : e.leaseExpiresAt.zone = .utc
  updated : e.updatedAt.zone = .utc
  result : ∀ r, e.result = some r → FaithfulResult lo lo' r

/-- What a faithful entry reads back as, wherever it stands. -/
def reread (lo lo' : Int → Int) (e : Entry) : Entry := e.readBack lo lo' 0

namespace FaithfulEntry

section

variable (h : FaithfulEntry lo lo' e)
include h

theorem sound : Sound e := ⟨h.valid, h.expiry, h.updated, h.action.1⟩

theorem readBack_eq (address : Nat) : e.readBack lo lo' address = reread lo lo' e := by
  have hs : e.result.map (readBack lo lo' address) = e.result.map (readBack lo lo' 0) := by
    cases hr : e.result with
    | none => rfl
    | some r => exact congrArg some ((h.result r hr).readBack_address address 0)
  rw [reread, Entry.readBack, Entry.readBack, hs, readTime_utc h.expiry, readTime_utc h.expiry,
    readTime_utc h.updated, readTime_utc h.updated]

theorem result_id {r : ActionResult} (hr : e.result = some r) :
    r.actionID = e.action.id ∧ validateResult r = .ok () := by
  have hst := (validateEntry_ok_iff.1 h.valid).2.2.2
  cases hs : e.state with
  | outcomeKnown =>
    simp only [validateState, hs, hr, validateOwnResult, bind_ok_iff, check_eq_ok,
      beq_iff_eq] at hst
    exact ⟨hst.choose_spec.1, hst.choose_spec.2⟩
  | reported =>
    simp only [validateState, hs, hr, validateOwnResult, bind_ok_iff, check_eq_ok,
      beq_iff_eq] at hst
    obtain ⟨_, -, _, hid, hv⟩ := hst
    exact ⟨hid, hv⟩
  | other t => exact absurd hs (h.sound.state_ne_other t)
  | _ => simp [validateState, hs, hr] at hst

theorem result_valid {r : ActionResult} (hr : e.result = some r) :
    ValidUTF8 r.actionID := (h.result_id hr).1 ▸ h.action.1

theorem reread_action : (reread lo lo' e).action = e.action := Action.readBack_of_valid h.action

theorem reread_state : (reread lo lo' e).state = e.state := h.sound.readBack_state lo lo' 0

theorem reread_token : (reread lo lo' e).leaseToken = e.leaseToken := toValid_eq_self h.token

theorem reread_expiry : (reread lo lo' e).leaseExpiresAt = ⟨e.leaseExpiresAt.ns, .utc, none⟩ :=
  h.sound.readBack_expiry lo lo' 0

theorem reread_updated : (reread lo lo' e).updatedAt = ⟨e.updatedAt.ns, .utc, none⟩ :=
  h.sound.readBack_updated lo lo' 0

end

theorem reread_valid (h : FaithfulEntry lo lo' e) : validateEntry (reread lo lo' e) = .ok () := by
  obtain ⟨ha, hu, hl, hst⟩ := validateEntry_ok_iff.1 h.valid
  refine validateEntry_ok_iff.2 ⟨?_, ?_, ?_, ?_⟩
  · rw [h.reread_action]
    exact ha
  · rw [h.reread_updated]
    exact hu
  · simp only [validateLease, h.reread_token, h.reread_expiry, GoTime.isZero]
      at hl ⊢
    exact hl
  have ho : ∀ r, e.result = some r → validateOwnResult (reread lo lo' e)
      (r.readBack lo lo' 0) = .ok () := by
    intro r hr
    obtain ⟨hid, hv⟩ := h.result_id hr
    simp only [validateOwnResult, bind_ok_iff, check_eq_ok, beq_iff_eq]
    refine ⟨(), ?_, (h.result r hr).validateResult_readBack (h.result_valid hr) hv 0⟩
    rw [h.reread_action, ← hid]
    exact toValid_eq_self (h.result_valid hr)
  have hres : (reread lo lo' e).result = e.result.map (readBack lo lo' 0) := rfl
  cases hs : e.state with
  | received | running | outcomeUnknown =>
    have hn := h.sound.result_eq_none (by simp [hs])
    rw [validateState_ok_iff (by rw [h.reread_state]; simp [hs]), hres, hn]
    rfl
  | outcomeKnown =>
    cases hr : e.result with
    | none => simp [validateState, hs, hr] at hst
    | some r =>
      simp only [validateState, h.reread_state, hs, hres, hr]
      exact ho r hr
  | reported =>
    simp only [validateState, hs, bind_ok_iff, check_eq_ok] at hst
    obtain ⟨_, hno, -⟩ := hst
    simp only [validateState, h.reread_state, hs, hres, h.reread_token, h.reread_expiry,
      bind_ok_iff, check_eq_ok]
    refine ⟨(), hno, ?_⟩
    cases hr : e.result with
    | none => rfl
    | some r => exact ho r hr
  | other t => exact absurd hs (h.sound.state_ne_other t)

theorem encodeRecord_reread (h : FaithfulEntry lo lo' e) :
    encodeRecord lo' (reread lo lo' e).record = encodeRecord lo e.record := by
  have hm : ∀ {t u : GoTime}, t.zone = .utc → u = ⟨t.ns, .utc, none⟩ →
      marshalTime lo' u = marshalTime lo t := by
    rintro t u ht rfl
    exact marshalTime_congr rfl (by rw [ht]; rfl)
  have hs : (reread lo lo' e).resultJson lo' = e.resultJson lo := by
    rw [Entry.resultJson, Entry.resultJson,
      show (reread lo lo' e).result = e.result.map (readBack lo lo' 0) from rfl]
    cases hr : e.result with
    | none => rfl
    | some r =>
      exact congrArg (Option.map some) ((h.result r hr).toJson_readBack (h.result_valid hr) 0)
  have hjson : (reread lo lo' e).toJson lo' = e.toJson lo := by
    simp only [Entry.toJson, hs, hm h.expiry h.reread_expiry, hm h.updated h.reread_updated,
      Entry.slots, h.reread_action, h.reread_state, h.reread_token]
  simp only [encodeRecord, DiskRecord.toJson, DiskRecord.slots, Entry.record, hjson]

end FaithfulEntry

/-! ## Successors -/

/-- `next` is a snapshot that may follow `current`: a new claim, or an allowed transition that keeps
the claim and, when it reports, the result. -/
def Succeeds (current next : Entry) : Prop :=
  next.action = current.action ∧
    ((next.state = current.state ∧ next.result = current.result ∧ current.state ≠ .reported ∧
        next.leaseToken ≠ []) ∨
      (allowedTransition current.state next.state = true ∧
        (next.state = .outcomeKnown → next.result.isSome = true) ∧
        (next.state = .outcomeUnknown → next.result = none) ∧
        (next.state = .reported → next.result = current.result) ∧
        (next.state = .reported ∨ (next.leaseToken = current.leaseToken ∧
          next.leaseExpiresAt.ns = current.leaseExpiresAt.ns))))

theorem allowedTransition_ne {a b : State} (h : allowedTransition a b = true) : a ≠ b := by
  rintro rfl
  cases a <;> simp [allowedTransition] at h

/-- **A successor is accepted when both were read back.** -/
theorem Succeeds.follows {current next : Entry} (h : Succeeds current next)
    (hc : FaithfulEntry lo lo' current) (hn : FaithfulEntry lo lo' next) :
    Follows (reread lo lo' current) (reread lo lo' next) := by
  obtain ⟨ha, h⟩ := h
  have ho : ∀ e : Entry, (reread lo lo' e).result = e.result.map (readBack lo lo' 0) := fun _ => rfl
  constructor
  · rw [hc.reread_action, hn.reread_action, ha]
    exact sameAction_self _
  rw [hc.reread_state, hn.reread_state]
  rcases h with ⟨hst, hr, hne, ht⟩ | ⟨hp, hk, hunk, hrepo, hm⟩
  · refine .inl ⟨hst.symm, ?_, .inr ?_⟩
    · rw [sameStatePayload, hc.reread_action, hn.reread_action, ha, sameAction_self,
        hc.reread_state, hn.reread_state, hst, sameResult, ho, ho, hr]
      simp
    · rw [hc.reread_state, hn.reread_token]
      exact ⟨hne, ht⟩
  refine .inr ⟨allowedTransition_ne hp, ?_⟩
  simp only [Advances, hc.reread_state, hn.reread_state, ho]
  refine ⟨hp, ?_, ?_, ?_, ?_⟩
  · intro hs
    simpa using hk hs
  · intro hs
    simp [hunk hs]
  · intro hs
    rw [hrepo hs, sameResult, beq_self_eq_true]
  rcases hm with hs | ⟨ht, hns⟩
  · exact .inl hs
  refine .inr (sameClaim_of_eq ?_ ?_ ?_)
  · rw [hc.reread_token, hn.reread_token, ht]
  · rw [hc.reread_expiry, hn.reread_expiry, hns]
  · rw [hc.reread_expiry]

/-- An entry that may be recorded next. -/
def Next (entries : KeyMap Entry) (e : Entry) : Prop :=
  (entries.get? e.action.id = none ∧ e.state = .received ∧ entries.size < maxActions) ∨
    ∃ current, entries.get? e.action.id = some current ∧ Succeeds current e

/-- Faithful entries, each filed under its own ID. -/
def FaithfulEntries (lo lo' : Int → Int) (entries : KeyMap Entry) : Prop :=
  ∀ id e, entries.get? id = some e → e.action.id = id ∧ FaithfulEntry lo lo' e

/-- Two maps that agree up to reading back. -/
def Mirrors (lo lo' : Int → Int) (entries entries' : KeyMap Entry) : Prop :=
  ∀ id, entries'.get? id = (entries.get? id).map (reread lo lo')

theorem Mirrors.size_le (h : Mirrors lo lo' entries entries') : entries'.size ≤ entries.size := by
  apply KeyMap.size_le
  intro k hk
  rw [h k, Option.isSome_map] at hk
  exact hk

theorem Mirrors.snapshot (h : Mirrors lo lo' entries entries') (he : FaithfulEntry lo lo' e) :
    Mirrors lo lo' (snapshot entries e.record) (snapshot entries' (reread lo lo' e).record) := by
  intro id
  simp only [get?_snapshot, Entry.record, h id, he.reread_action]
  split_ifs <;> rfl

/-- **The record of a next entry is admissible in the file.** -/
theorem Next.admissible (h : Next entries e)
    (hm : Mirrors lo lo' entries entries') (hf : FaithfulEntries lo lo' entries)
    (he : FaithfulEntry lo lo' e) : Admissible entries' (reread lo lo' e).record := by
  have hg : entries'.get? (reread lo lo' e).action.id =
      (entries.get? e.action.id).map (reread lo lo') := by
    rw [he.reread_action]
    exact hm _
  refine ⟨rfl, he.reread_valid, ?_, ?_⟩
  · intro hn
    rw [Entry.record, hg] at hn
    rcases h with ⟨-, hst, hz⟩ | ⟨_, hu, -⟩
    · exact ⟨he.reread_state.trans hst, Nat.lt_of_le_of_lt hm.size_le hz⟩
    · rw [hu] at hn
      cases hn
  intro current' hcurrent
  rw [Entry.record, hg] at hcurrent
  obtain ⟨current, hu, rfl⟩ := Option.map_eq_some_iff.1 hcurrent
  rcases h with ⟨hn, -⟩ | ⟨_, hc, hs⟩
  · rw [hn] at hu
    cases hu
  · rw [hu] at hc
    cases hc
    exact hs.follows (hf _ current hu).2 he

/-! ## Lists of entries in a file -/

/-- Each entry may be recorded after those before it. -/
def Chain (entries : KeyMap Entry) : List Entry → Prop
  | [] => True
  | e :: es => Next entries e ∧ Chain (snapshot entries e.record) es

theorem FaithfulEntries.snapshot (h : FaithfulEntries lo lo' entries)
    (he : FaithfulEntry lo lo' e) :
    FaithfulEntries lo lo' (snapshot entries e.record) := by
  intro id e' he'
  rw [get?_snapshot] at he'
  split_ifs at he' with hid
  · cases he'
    exact ⟨hid.symm, he⟩
  · exact h id e' he'

theorem chain_append {fs : List Entry} : Chain entries (es ++ fs) ↔
      Chain entries es ∧ Chain (snapshots entries (es.map Entry.record)) fs := by
  induction es generalizing entries with
  | nil => simp [Chain, snapshots]
  | cons _ _ ih =>
    rw [List.cons_append, Chain, Chain, ih, and_assoc]
    rfl

/-- The records of a chain of faithful entries, read back. -/
def rereadAll (lo lo' : Int → Int) (es : List Entry) : List DiskRecord :=
  es.map fun e => (reread lo lo' e).record

/-- **A chain is accepted by replay**, and its snapshots mirror the entries. -/
theorem Chain.accepted (h : Chain entries es)
    (hm : Mirrors lo lo' entries entries') (hf : FaithfulEntries lo lo' entries)
    (hes : ∀ e ∈ es, FaithfulEntry lo lo' e) :
    Accepted entries' (rereadAll lo lo' es) ∧
      Mirrors lo lo' (snapshots entries (es.map Entry.record))
        (snapshots entries' (rereadAll lo lo' es)) ∧
      FaithfulEntries lo lo' (snapshots entries (es.map Entry.record)) := by
  induction es generalizing entries entries' with
  | nil => exact ⟨trivial, hm, hf⟩
  | cons e _ ih =>
    have he : FaithfulEntry lo lo' e := hes e (.head _)
    obtain ⟨ha, hmirrors, hfaith⟩ := ih h.2 (hm.snapshot he) (hf.snapshot he)
      fun f hf => hes f (.tail _ hf)
    exact ⟨⟨h.1.admissible hm hf he, ha⟩, hmirrors, hfaith⟩

theorem readAll_faithful (h : ∀ e ∈ es, FaithfulEntry lo lo' e) (index : Nat) :
    readAll lo' index (es.map fun e => Stored.mk lo e.record) = rereadAll lo lo' es := by
  induction es generalizing index with
  | nil => rfl
  | cons e _ ih =>
    have he : FaithfulEntry lo lo' e := h e (.head _)
    rw [List.map_cons, readAll, ih fun f hf => h f (List.mem_cons_of_mem _ hf), rereadAll,
      rereadAll, Stored.read, DiskRecord.readBack]
    exact congrArg₂ List.cons (congrArg Entry.record (he.readBack_eq (4 * index))) rfl

/-! ## The histories a compaction writes -/

def historyEntries (e : Entry) : List Entry := (historyStates e).map (atState e)

theorem histories_eq (entries : KeyMap Entry) :
    histories entries = (entries.entries.flatMap fun p => historyEntries p.2).map Entry.record := by
  rw [List.map_flatMap]
  refine List.flatMap_congr fun p _ => ?_
  rw [historyEntries, List.map_map]
  rfl

theorem chain_of_isChain {current : Entry} (hg : entries.get? current.action.id = some current)
    (hch : List.IsChain Succeeds (current :: es)) : Chain entries es := by
  induction es generalizing entries current with
  | nil => trivial
  | cons _ _ ih =>
    obtain ⟨hs, ht⟩ := List.isChain_cons_cons.1 hch
    refine ⟨.inr ⟨current, ?_, hs⟩, ih ?_ ht⟩
    · rw [hs.1]
      exact hg
    · rw [get?_snapshot]
      exact if_pos rfl

theorem atState_self (h : Sound e) : atState e e.state = e := by
  cases hs : e.state with
  | received | running | outcomeUnknown =>
    have hr := h.result_eq_none (by simp [hs])
    exact congrArg₂ (fun s r => { e with state := s, result := r }) hs.symm hr.symm
  | outcomeKnown | reported => rw [atState, ← hs]
  | other t => exact absurd hs (h.state_ne_other t)

theorem isChain_historyEntries (h : FaithfulEntry lo lo' e) :
    ∃ es, historyEntries e = atState e .received :: es ∧
      List.IsChain Succeeds (atState e .received :: es) := by
  have hm : e.state = .outcomeKnown → e.result.isSome = true := by
    intro hs
    cases hr : e.result with
    | none =>
      have := (validateEntry_ok_iff.1 h.valid).2.2.2
      simp [validateState, hs, hr] at this
    | some => rfl
  rw [historyEntries, historyStates]
  cases hs : e.state with
  | received | running | outcomeUnknown => simp [Succeeds, atState, allowedTransition]
  | outcomeKnown => simp [Succeeds, atState, allowedTransition, hm hs]
  | reported =>
    cases hr : e.result with
    | none | some => simp [Succeeds, atState, allowedTransition, hr]
  | other t => exact absurd hs (h.sound.state_ne_other t)

theorem chain_historyEntries (h : FaithfulEntry lo lo' e)
    (hn : entries.get? e.action.id = none) (hz : entries.size < maxActions) :
    Chain entries (historyEntries e) ∧ ∀ id,
      (snapshots entries ((historyEntries e).map Entry.record)).get? id =
        if id = e.action.id then some e else entries.get? id := by
  have hid : ∀ s, (atState e s).action.id = e.action.id := fun s =>
    congrArg Action.id (atState_fields e s).1
  constructor
  · obtain ⟨_, hes, hch⟩ := isChain_historyEntries h
    rw [hes]
    refine ⟨Or.inl ⟨by rw [hid]; exact hn, rfl, hz⟩, chain_of_isChain ?_ hch⟩
    rw [get?_snapshot]
    exact if_pos rfl
  intro id
  obtain ⟨_, hinit⟩ := historyStates_last h.sound
  by_cases heq : id = e.action.id
  · rw [historyEntries, hinit, List.map_append, List.map_append,
      List.map_singleton, atState_self h.sound, if_pos heq]
    exact get?_snapshots_last heq.symm (by simp)
  rw [if_neg heq]
  apply get?_snapshots_of_ne
  intro r hr
  obtain ⟨_, hf, rfl⟩ := List.mem_map.1 hr
  obtain ⟨_, -, rfl⟩ := List.mem_map.1 hf
  rw [Entry.record, hid]
  exact Ne.symm heq

theorem chain_flatMap_historyEntries {m : KeyMap Entry} (hf : FaithfulEntries lo lo' m)
    (hz : m.size ≤ maxActions) {l : List (Str × Entry)}
    (hl : ∀ p ∈ l, m.get? p.1 = some p.2) (hnd : (l.map Prod.fst).Nodup)
    (hb : ∀ k, (entries.get? k).isSome → (m.get? k).isSome)
    (hw : ∀ p ∈ l, entries.get? p.1 = none) :
    Chain entries (l.flatMap fun p => historyEntries p.2) ∧ ∀ id,
      (snapshots entries ((l.flatMap fun p => historyEntries p.2).map Entry.record)).get? id =
        (l.lookup id).or (entries.get? id) := by
  induction l generalizing entries with
  | nil => exact ⟨trivial, fun id => rfl⟩
  | cons p l ih =>
    obtain ⟨k, e⟩ := p
    have hg : m.get? k = some e := hl _ (.head _)
    obtain ⟨hid, he⟩ := hf k e hg
    have hn : entries.get? e.action.id = none := hid ▸ hw _ (.head _)
    -- fewer actions are recorded so far than the map has
    have hlt : entries.size < maxActions := by
      refine Nat.lt_of_lt_of_le (KeyMap.size_lt hb hn ?_) hz
      rw [hid, hg]
      rfl
    obtain ⟨hch, hs⟩ := chain_historyEntries he hn hlt
    obtain ⟨hk, hnd⟩ := List.nodup_cons.1 hnd
    have hfr : ∀ p ∈ l, p.1 ≠ k := fun p hp heq =>
      hk (List.mem_map.2 ⟨p, hp, heq⟩)
    have hb' : ∀ k', ((snapshots entries ((historyEntries e).map Entry.record)).get? k').isSome →
        (m.get? k').isSome := by
      intro k' hk'
      rw [hs] at hk'
      split_ifs at hk' with heq
      · rw [heq, hid, hg]
        rfl
      · exact hb k' hk'
    have hw' :
        ∀ p ∈ l, (snapshots entries ((historyEntries e).map Entry.record)).get? p.1 = none := by
      intro p hp
      rw [hs, hid, if_neg (hfr p hp)]
      exact hw p (.tail _ hp)
    obtain ⟨hch', hs'⟩ := ih (fun p hp => hl p (.tail _ hp)) hnd hb' hw'
    rw [List.flatMap_cons, List.map_append, snapshots_append]
    refine ⟨chain_append.2 ⟨hch, hch'⟩, fun id => ?_⟩
    rw [hs', hs, hid, KeyMap.lookup_cons]
    by_cases heq : id = k
    · simp [heq, KeyMap.lookup_eq_none hfr]
    · simp [heq]

/-- **A compaction writes a chain that ends in the entries it keeps.** -/
theorem chain_histories {m : KeyMap Entry} (hf : FaithfulEntries lo lo' m)
    (hz : m.size ≤ maxActions) :
    Chain KeyMap.empty (m.entries.flatMap fun p => historyEntries p.2) ∧
      ∀ id, (snapshots KeyMap.empty (histories m)).get? id = m.get? id := by
  have hb : ∀ k, ((KeyMap.empty : KeyMap Entry).get? k).isSome → (m.get? k).isSome := by
    intro k hk
    cases hk
  obtain ⟨hch, hs⟩ := chain_flatMap_historyEntries hf hz
    (fun p hp => KeyMap.mem_entries.1 hp) (KeyMap.nodup_keys m) hb fun _ _ => rfl
  refine ⟨hch, fun id => ?_⟩
  rw [histories_eq, hs, KeyMap.get?_empty, Option.or_none]
  rfl

theorem faithful_historyEntries {f : Entry} (h : FaithfulEntry lo lo' e)
    (hf : f ∈ historyEntries e) : FaithfulEntry lo lo' f := by
  obtain ⟨s, hs, rfl⟩ := List.mem_map.1 hf
  obtain ⟨ha, -, ht, hx, hu⟩ := atState_fields e s
  refine ⟨validateEntry_atState h.valid hs, ha ▸ h.action, ht ▸ h.token, hx ▸ h.expiry,
    hu ▸ h.updated, ?_⟩
  intro r hr
  refine h.result r ?_
  cases s with
  | received | running | outcomeUnknown => cases hr
  | outcomeKnown | reported | other => exact hr

end KubeNeuron.Agent
