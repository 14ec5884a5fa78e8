import KubeNeuron.Agent.SpoolFiles

/-!
# The spool loses no event

Every accepted event was delivered, is on disk, or was dropped among the oldest at the bound; events
are sent in order; and no accepted event makes `Open` or `ReplayBatch` fail
(`spool_keeps_accepted`). This excludes events too long for the scanner and unsynced directories
(`long_event_wedges_spool`).
-/

namespace KubeNeuron.Agent

open Lib SpoolWorld

variable {lines : List Str} {call : Nat} {events : List CapturedEvent} {f : SpoolFile}
  {s : Spool}

/-! ## What has happened -/

/-- The event of the call was sent with success. -/
def Delivered (history : List Happened) (call : Nat) : Prop :=
  ∃ event, .tried call event true ∈ history

def Dropped (history : List Happened) (call : Nat) : Prop :=
  ∃ calls kept, .dropped calls kept ∈ history ∧ call ∈ calls

def SettledCall (history : List Happened) (call : Nat) : Prop :=
  Delivered history call ∨ Dropped history call

/-- What may happen after `past`: an event is sent as its call had it, and after all earlier events
that were accepted are settled; a drop keeps the bound and drops older events than it keeps; and a
call does not fail because of a line or an event of the file. -/
def Lawful (events : List CapturedEvent) (past : List Happened) : Happened → Prop
  | .accepted _ => True
  | .tried call event _ =>
    (∃ e, events[call]? = some e ∧ ∃ lo lo', Carries lo lo' e event) ∧
      ∀ k < call, .accepted k ∈ past → SettledCall past k
  | .dropped calls kept => kept.length = maxEvents ∧ ∀ t ∈ calls, ∀ k ∈ kept, t < k
  | .failed caller error => error ≠ .tooLong ∧ (error = .encode → caller = .append)

def AllLawful (events : List CapturedEvent) : List Happened → Prop
  | [] => True
  | h :: past => Lawful events past h ∧ AllLawful events past

section

variable {events' : List CapturedEvent} {past : List Happened} {h : Happened}

theorem SettledCall.cons (hs : SettledCall past call) (h : Happened) :
    SettledCall (h :: past) call := by
  rcases hs with ⟨event, hm⟩ | ⟨calls, kept, hm, hc⟩
  · exact .inl ⟨event, .tail _ hm⟩
  · exact .inr ⟨calls, kept, .tail _ hm, hc⟩

theorem SettledCall.append (hs : SettledCall past call) (later : List Happened) :
    SettledCall (later ++ past) call := by
  induction later with
  | nil => exact hs
  | cons h _ ih => exact ih.cons h

theorem AllLawful.mono (ha : AllLawful events past)
    (hpre : ∀ (i : Nat) e, events[i]? = some e → events'[i]? = some e) :
    AllLawful events' past := by
  induction past with
  | nil => trivial
  | cons h _ ih =>
    refine ⟨?_, ih ha.2⟩
    cases h with
    | tried call =>
      obtain ⟨⟨e, he, hc⟩, hord⟩ := ha.1
      exact ⟨⟨e, hpre call e he, hc⟩, hord⟩
    | _ => exact ha.1

theorem AllLawful.at (ha : AllLawful events past) {later before : List Happened}
    (hs : past = later ++ h :: before) : Lawful events before h := by
  induction later generalizing past with
  | nil =>
    subst hs
    exact ha.1
  | cons _ _ ih =>
    subst hs
    exact ih ha.2 rfl

end

/-! ## The invariant -/

/-- What every run keeps, when the calls so far are below `next`. -/
structure SpoolInv (next : Nat) (w : SpoolWorld) : Prop where
  file : ∃ lines tail, Holds w.events w.disk.file lines tail ∧
    ∀ s, w.spool = some s → s.dirty = false → tail = []
  older : ∀ f ∈ w.disk.older, ∃ lines tail, Holds w.events f lines tail
  kept : ∀ k, .accepted k ∈ w.history → SettledCall w.history k ∨ k ∈ w.disk.file.calls
  safe : ∀ f ∈ w.disk.file :: w.disk.older, ∀ k ∈ f.calls, .accepted k ∈ w.history → f.safe k
  calls : ∀ f ∈ w.disk.file :: w.disk.older, ∀ k ∈ f.calls, k < next
  accepted : ∀ k, .accepted k ∈ w.history → k < next
  history : AllLawful w.events w.history

variable {read : List CapturedEvent} {calls : List Nat} {line : Str} {event : CapturedEvent}

section

variable {next : Nat} {w : SpoolWorld}

section

variable (h : SpoolInv next w)
include h

theorem SpoolInv.mono {next' : Nat} (hle : next ≤ next') : SpoolInv next' w :=
  { h with
    calls := fun f hf k hk => Nat.lt_of_lt_of_le (h.calls f hf k hk) hle,
    accepted := fun k hk => Nat.lt_of_lt_of_le (h.accepted k hk) hle }

theorem SpoolInv.happen {g : Happened} (hlaw : Lawful w.events w.history g)
    (hg : ∀ k, g ≠ .accepted k) : SpoolInv next { w with history := g :: w.history } := by
  have hp : ∀ k, .accepted k ∈ g :: w.history → .accepted k ∈ w.history := by
    intro k hk
    exact List.mem_of_ne_of_mem (hg k).symm hk
  refine ⟨h.file, h.older, fun k hk => ?_, fun f hf k hk ha => h.safe f hf k hk (hp k ha),
    h.calls, fun k hk => h.accepted k (hp k hk), hlaw, h.history⟩
  exact (h.kept k (hp k hk)).imp_left fun hs => hs.cons g

theorem SpoolInv.fail {caller : SpoolCaller} {error : SpoolError}
    (htooLong : error ≠ .tooLong) (hencode : error = .encode → caller = .append) :
    SpoolInv next (w.fail caller error) := by
  apply h.happen
  · exact ⟨htooLong, hencode⟩
  · intro k hk
    cases hk

theorem SpoolInv.fail_io (caller : SpoolCaller) : SpoolInv next (w.fail caller .io) := by
  apply h.fail
  · decide
  · intro hne
    cases hne

theorem SpoolInv.holds (hf : f ∈ w.disk.file :: w.disk.older) :
    ∃ lines tail, Holds w.events f lines tail := by
  obtain _ | ⟨_, hf⟩ := hf
  · obtain ⟨lines, tail, hl, -⟩ := h.file
    exact ⟨lines, tail, hl⟩
  · exact h.older f hf

theorem SpoolInv.replace {file : SpoolFile} {older : List SpoolFile}
    (hh : Holds w.events file lines [])
    (hy : file.synced = file.content.length) (hb : ∀ k ∈ file.calls, k ∈ w.disk.file.calls)
    (ht : ∀ k ∈ w.disk.file.calls, .accepted k ∈ w.history → SettledCall w.history k ∨
      k ∈ file.calls)
    (holder : ∀ f ∈ older, f ∈ w.disk.file :: w.disk.older) (spool : Option Spool) :
    SpoolInv next { w with disk := ⟨file, older⟩, spool } := by
  refine ⟨⟨lines, [], hh, fun _ _ _ => rfl⟩, fun f hf => h.holds (holder f hf), fun k hk => ?_,
    fun f hf k hk ha => ?_, fun f hf k hk => ?_, h.accepted, h.history⟩
  · rcases h.kept k hk with hs | hm
    · exact .inl hs
    · exact ht k hm hk
  · obtain _ | ⟨_, hf⟩ := hf
    · exact hh.safe_of_synced hy hk
    · exact h.safe f (holder f hf) k hk ha
  · obtain _ | ⟨_, hf⟩ := hf
    · exact h.calls _ (.head _) k (hb k hk)
    · exact h.calls f (holder f hf) k hk

theorem SpoolInv.refile {file : SpoolFile} {spool : Option Spool}
    (hh : ∃ lines tail, Holds w.events file lines tail ∧
      ∀ s, spool = some s → s.dirty = false → tail = [])
    (hc : w.disk.file.calls <+: file.calls) {next' : Nat} (hle : next ≤ next')
    (hw : ∀ k ∈ file.calls, k ∈ w.disk.file.calls ∨ next ≤ k ∧ k < next')
    (hs : ∀ k, w.disk.file.safe k → file.safe k) :
    SpoolInv next' { w with disk := ⟨file, w.disk.older⟩, spool } := by
  refine ⟨hh, h.older, fun k hk => (h.kept k hk).imp_right fun hm => hc.subset hm,
    fun f hf k hk ha => ?_, fun f hf k hk => ?_,
    fun k hk => Nat.lt_of_lt_of_le (h.accepted k hk) hle, h.history⟩
  · obtain _ | ⟨_, hf⟩ := hf
    · rcases hw k hk with hm | ⟨hn, -⟩
      · exact hs k (h.safe _ (.head _) k hm ha)
      · exact absurd (h.accepted k ha) (Nat.not_lt.2 hn)
    · exact h.safe f (.tail _ hf) k hk ha
  obtain _ | ⟨_, hf⟩ := hf
  · rcases hw k hk with hm | ⟨-, hlt⟩
    · exact Nat.lt_of_lt_of_le (h.calls _ (.head _) k hm) hle
    · exact hlt
  · exact Nat.lt_of_lt_of_le (h.calls f (.tail _ hf) k hk) hle

theorem SpoolInv.accept (hc : call < next)
    (hsafe : w.disk.file.safe call) (holder : ∀ f ∈ w.disk.older, call ∉ f.calls) :
    SpoolInv next { w with history := .accepted call :: w.history } := by
  have hm : call ∈ w.disk.file.calls := List.mem_of_mem_take hsafe
  refine ⟨h.file, h.older, fun k hk => ?_, fun f hf k hk ha => ?_, h.calls, fun k hk => ?_,
    trivial, h.history⟩
  · rcases List.mem_cons.1 hk with heq | hk
    · cases heq
      exact .inr hm
    · exact (h.kept k hk).imp_left fun hs => hs.cons _
  · rcases List.mem_cons.1 ha with heq | ha
    · cases heq
      obtain _ | ⟨_, hf⟩ := hf
      · exact hsafe
      · exact absurd hk (holder f hf)
    · exact h.safe f hf k hk ha
  rcases List.mem_cons.1 hk with heq | hk
  · cases heq
    exact hc
  · exact h.accepted k hk

end

/-! ## The parts of a call -/

/-- What a repair before a call leaves. -/
structure Healed (events : List CapturedEvent) (s : Spool) (f f' : SpoolFile) : Prop where
  holds : ∃ lines tail, Holds events f' lines tail ∧ (s.dirty = false → tail = [])
  calls : f'.calls = f.calls
  safe : ∀ k, f.safe k → f'.safe k

theorem calls_repairTornTail (trouble : Trouble) (f : SpoolFile) :
    (repairTornTail trouble f).1.calls = f.calls := by
  rw [repairTornTail]
  split_ifs
  · rfl
  · cases trouble <;> rfl

theorem healed_of_heal (h : ∃ lines tail, Holds events f lines tail ∧ (s.dirty = false → tail = []))
    (trouble : Trouble) (readable : Bool) :
    ∃ f', Healed events s f f' ∧ (heal trouble readable s f = (f', .error .io) ∨
      ∃ s', heal trouble readable s f = (f', .ok s') ∧ s'.dirty = false ∧ s'.lo = s.lo ∧
        ∃ lines, Holds events f' lines []) := by
  obtain ⟨lines, _, hh, ht⟩ := h
  by_cases hdirty : s.dirty = false
  · obtain rfl := ht hdirty
    refine ⟨f, ⟨⟨lines, [], hh, ht⟩, rfl, fun _ hs => hs⟩, .inr ⟨s, ?_, hdirty, rfl, lines, hh⟩⟩
    simp [heal, hdirty]
  have hdirty' : s.dirty = true := by simpa using hdirty
  obtain ⟨tail', hh', ht', hs⟩ := hh.repair trouble
  have hc := calls_repairTornTail trouble f
  cases hrepair : repairTornTail trouble f with
  | mk f' ok =>
    rw [hrepair] at hh' ht' hs hc
    refine ⟨f', ⟨⟨lines, tail', hh', fun hfalse => absurd hfalse hdirty⟩, hc, hs⟩, ?_⟩
    cases ok with
    | false => exact Or.inl (by simp [heal, hdirty', hrepair])
    | true =>
      obtain rfl := ht' (.inl rfl)
      rcases hh'.read_cases s.lo readable with hr | ⟨read, hr, -⟩
      · exact Or.inl (by simp [heal, hdirty', hrepair, hr, Except.map])
      · refine .inr ⟨⟨s.lo, read.length, false⟩, ?_, rfl, rfl, lines, hh'⟩
        simp [heal, hdirty', hrepair, hr, Except.map]

/-- **A replacement** does not happen, or leaves a synced file of the events it was given. -/
theorem rewriteSpool_cases {lo : Int → Int}
    (hr : List.Forall₂ (EventOf events lo) calls read) (hi : calls.Pairwise (· < ·))
    (trouble : Trouble) (d : SpoolDisk) :
    (trouble = .before ∧ rewriteSpool lo trouble read calls d = (d, some .io)) ∨
      (trouble ≠ .before ∧ ∃ file lines older result,
        rewriteSpool lo trouble read calls d = (⟨file, older⟩, result) ∧
        Holds events file lines [] ∧ file.calls = calls ∧ file.synced = file.content.length ∧
        (∀ f ∈ older, f ∈ d.file :: d.older) ∧
        (result = none ∧ older = [] ∨ result = some .io)) := by
  obtain ⟨lines, hl, ha⟩ := encode_events hr
  have hh : Holds events ⟨spoolLines lines, (spoolLines lines).length, calls⟩ lines [] :=
    ⟨(List.append_nil _).symm, List.not_mem_nil, ha, hi⟩
  have hn : ∀ f ∈ [], f ∈ d.file :: d.older :=
    List.forall_mem_nil _
  cases trouble with
  | none =>
    refine .inr ⟨by decide, _, lines, [], none, ?_, hh, rfl, rfl, hn, .inl ⟨rfl, rfl⟩⟩
    rw [rewriteSpool, hl]
  | before =>
    refine .inl ⟨rfl, ?_⟩
    rw [rewriteSpool, hl]
  | unsynced =>
    refine .inr ⟨by decide, _, lines, _, some .io, ?_, hh, rfl, rfl, fun f hf => hf, .inr rfl⟩
    rw [rewriteSpool, hl]
  | after =>
    refine .inr ⟨by decide, _, lines, [], some .io, ?_, hh, rfl, rfl, hn, .inr rfl⟩
    rw [rewriteSpool, hl]

theorem Holds.append (h : Holds events f lines []) (hl : LineOf events call line)
    (hc : ∀ k ∈ f.calls, k < call) (synced : Nat) :
    Holds events ⟨f.content ++ (line ++ [0x0A]), synced, f.calls ++ [call]⟩
      (lines ++ [line]) [] := by
  constructor
  · rw [h.content]
    simp [spoolLines]
  · exact List.not_mem_nil
  · exact List.rel_append h.lines (.cons hl .nil)
  · refine List.pairwise_append.2 ⟨h.increase, List.pairwise_singleton _ _, fun k hk k' hk' => ?_⟩
    rw [List.mem_singleton.1 hk']
    exact hc k hk

theorem safe_of_grow {more : Str} {synced : Nat}
    (hc : f.calls <+: calls) (hy : f.synced ≤ synced ∨ synced = (f.content ++ more).length)
    {k : Nat} (h : f.safe k) : SpoolFile.safe ⟨f.content ++ more, synced, calls⟩ k := by
  refine safe_mono hc ?_ h
  have hs : (f.content.take f.synced).Sublist ((f.content ++ more).take synced) := by
    rcases hy with hle | rfl
    · rw [List.take_append]
      exact (List.take_sublist_take_left hle).trans (List.sublist_append_left _ _)
    · rw [List.take_length]
      exact (List.take_sublist _ _).trans (List.sublist_append_left _ _)
  exact hs.count_le _

/-! ## The calls -/

theorem maxEvents_pos : 0 < maxEvents := Nat.succ_pos 9999

section

variable (h : SpoolInv next w)
include h

theorem SpoolInv.keepNewest {excess : Nat} (hc : call < next)
    (hh : Holds w.events w.disk.file lines [])
    (hevs : List.Forall₂ (EventOf w.events s.lo) w.disk.file.calls read)
    (hl : w.disk.file.calls.getLast? = some call) (hs : excess < w.disk.file.calls.length)
    (hbound : 0 < excess → w.disk.file.calls.length - excess = maxEvents) (trouble : Trouble) :
    SpoolInv next (w.keepNewest s call read excess trouble) := by
  have hsplit := List.take_append_drop excess w.disk.file.calls
  have hi : (w.disk.file.calls.drop excess).Pairwise (· < ·) :=
    hh.increase.sublist (List.drop_sublist _ _)
  generalize hdrops : Happened.dropped (w.disk.file.calls.take excess)
    (w.disk.file.calls.drop excess) = drops
  -- the events that are dropped are settled by it
  have hd : 0 < excess → SpoolInv next { w with history := drops :: w.history } := by
    intro hp
    subst hdrops
    apply h.happen
    · constructor
      · rw [List.length_drop]
        exact hbound hp
      · have hpairs := hh.increase
        rw [← hsplit] at hpairs
        exact (List.pairwise_append.1 hpairs).2.2
    · intro k hk
      cases hk
  rcases rewriteSpool_cases (List.forall₂_drop excess hevs) hi trouble w.disk with
    ⟨hb, hrewrite⟩ |
    ⟨he, file, lines', older, result, hrewrite, hfile, hcalls, hy, holder, hres⟩
  · rw [SpoolWorld.keepNewest, hrewrite]
    simp only [hb, true_or, or_true]
    exact h.fail_io .append
  have hsub : ∀ k ∈ file.calls, k ∈ w.disk.file.calls := by
    rw [hcalls]
    exact fun k hk => List.mem_of_mem_drop hk
  -- the world after the replacement, before the answer
  have hr : ∀ spool, SpoolInv next { w with
      disk := ⟨file, older⟩
      spool
      history := if excess = 0 ∨ trouble = .before ∨ result = some .encode then w.history
        else drops :: w.history } := by
    intro spool
    have hencode : result ≠ some .encode := by
      rcases hres with ⟨rfl, -⟩ | rfl
      · simp
      · simp
    by_cases hz : excess = 0
    · rw [if_pos (Or.inl hz)]
      refine h.replace hfile hy hsub (fun k hk _ => .inr ?_) holder spool
      rwa [hcalls, hz]
    rw [if_neg (by simp [hz, he, hencode])]
    refine (hd (Nat.pos_of_ne_zero hz)).replace hfile hy hsub ?_ holder spool
    intro k hk _
    rw [← hsplit] at hk
    rcases List.mem_append.1 hk with hk | hk
    · refine .inl (.inr ⟨_, w.disk.file.calls.drop excess, ?_, hk⟩)
      rw [hdrops]
      exact .head _
    · exact .inr (hcalls ▸ hk)
  rw [SpoolWorld.keepNewest, hrewrite]
  simp only [hdrops]
  rcases hres with ⟨rfl, rfl⟩ | rfl
  · refine (hr _).accept hc ?_ fun f hf => absurd hf List.not_mem_nil
    apply hfile.safe_of_synced hy
    -- the newest event is kept
    obtain ⟨_, hfront⟩ := List.getLast?_eq_some_iff.1 hl
    rw [hfront, List.length_append] at hs
    rw [hcalls, hfront, List.drop_append_of_le_length (Nat.le_of_lt_succ hs)]
    exact List.mem_append_right _ (List.mem_singleton_self _)
  · exact (hr _).fail_io .append

theorem SpoolInv.truncate (hc : call < next) (hh : Holds w.events w.disk.file lines [])
    (hl : w.disk.file.calls.getLast? = some call) (faults : AppendFaults) :
    SpoolInv next (w.truncate s call faults) := by
  rw [SpoolWorld.truncate]
  rcases hh.read_cases s.lo faults.read with hr | ⟨read, hr, hevs⟩
  · rw [hr]
    exact h.fail_io .append
  rw [hr]
  have hn : w.disk.file.calls.length = read.length := hevs.length_eq
  have hp : 0 < w.disk.file.calls.length := by
    obtain ⟨_, hfront⟩ := List.getLast?_eq_some_iff.1 hl
    rw [hfront]
    simp
  have hmax := maxEvents_pos
  dsimp only
  rw [← hn]
  exact h.keepNewest hc hh hevs hl (by omega) (by omega) faults.rewrite

theorem SpoolInv.write (hh : Holds w.events w.disk.file lines [])
    (hev : w.events[next]? = some event)
    (hfits : ∀ line, encodeEvent s.lo event = some line → line.length < maxScanTokenSize)
    (faults : AppendFaults) : SpoolInv (next + 1) (w.write s next event faults) := by
  have hnext := h.mono (Nat.le_succ next)
  rw [SpoolWorld.write]
  split
  · exact hnext.fail_io .append
  split
  · exact hnext.fail (by decide) fun _ => rfl
  rename_i line hl
  have hlineOf : LineOf w.events next line :=
    ⟨hfits line hl, event, hev, s.lo, s.lo, event, Carries.refl _ _, hl⟩
  have hbelow : ∀ k ∈ w.disk.file.calls, k < next := h.calls _ (.head _)
  have hgrown : ∀ k ∈ w.disk.file.calls ++ [next],
      k ∈ w.disk.file.calls ∨ next ≤ k ∧ k < next + 1 := by
    intro k hk
    rcases List.mem_append.1 hk with hk | hk
    · exact .inl hk
    · rw [List.mem_singleton.1 hk]
      exact .inr ⟨Nat.le_refl _, Nat.lt_succ_self _⟩
  split
  · rename_i n hn
    apply SpoolInv.fail_io
    by_cases hn' : line.length < n
    · -- the whole line was written
      rw [if_pos hn', List.take_of_length_le (by rw [List.length_append]; exact hn')]
      refine h.refile ⟨_, [], hh.append hlineOf hbelow _, fun _ _ _ => rfl⟩
        (List.prefix_append _ _) (Nat.le_succ _) hgrown fun k hk => ?_
      exact safe_of_grow (List.prefix_append _ _) (.inl (Nat.le_refl _)) hk
    -- what was written is a torn tail
    rw [if_neg hn', List.take_append_of_le_length (Nat.not_lt.1 hn')]
    have htorn : Holds w.events ⟨w.disk.file.content ++ line.take n, w.disk.file.synced,
        w.disk.file.calls⟩ lines (line.take n) := by
      refine ⟨?_, ?_, hh.lines, hh.increase⟩
      · rw [hh.content, List.append_nil]
      · exact fun hm => hlineOf.no_newline (List.mem_of_mem_take hm)
    refine h.refile ⟨lines, line.take n, htorn, ?_⟩
      (List.prefix_refl _) (Nat.le_succ _) (fun k hk => .inl hk) fun k hk => ?_
    · intro s' hs' hdirty
      cases hs'
      cases hdirty
    · exact safe_of_grow (List.prefix_refl _) (.inl (Nat.le_refl _)) hk
  · have hwr : ∀ synced spool, (w.disk.file.synced ≤ synced ∨
          synced = (w.disk.file.content ++ (line ++ [0x0A])).length) → SpoolInv (next + 1) { w with
        disk := ⟨⟨w.disk.file.content ++ (line ++ [0x0A]), synced, w.disk.file.calls ++ [next]⟩,
          w.disk.older⟩
        spool } := by
      intro synced spool hy
      refine h.refile ⟨_, [], hh.append hlineOf hbelow synced, fun _ _ _ => rfl⟩
        (List.prefix_append _ _) (Nat.le_succ _) hgrown fun k hk => ?_
      exact safe_of_grow (List.prefix_append _ _) hy hk
    dsimp only
    split_ifs
    · exact (hwr _ _ (.inl (Nat.le_refl _))).fail_io .append
    · have hfile := hh.append hlineOf hbelow (w.disk.file.content ++ (line ++ [0x0A])).length
      refine (hwr _ _ (.inr rfl)).accept (Nat.lt_succ_self _) ?_ ?_
      · apply hfile.safe_of_synced rfl
        exact List.mem_append_right _ (List.mem_singleton_self _)
      · -- the older files know calls below this one only
        intro f hf hm
        exact Nat.lt_irrefl _ (h.calls f (.tail _ hf) next hm)
    · refine (hwr _ _ (.inr rfl)).truncate (Nat.lt_succ_self _)
        (hh.append hlineOf hbelow _) ?_ faults
      exact List.getLast?_concat

theorem SpoolInv.file_of_spool (hs : w.spool = some s) :
    ∃ lines tail, Holds w.events w.disk.file lines tail ∧ (s.dirty = false → tail = []) := by
  obtain ⟨lines, tail, hh, ht⟩ := h.file
  exact ⟨lines, tail, hh, ht s hs⟩

theorem SpoolInv.healed (hl : Healed w.events s w.disk.file f) {spool : Option Spool}
    (hspool : (∃ lines, Holds w.events f lines []) ∨ spool = some s) :
    SpoolInv next { w with disk := ⟨f, w.disk.older⟩, spool } := by
  have hh : ∃ lines tail, Holds w.events f lines tail ∧
      ∀ s, spool = some s → s.dirty = false → tail = [] := by
    rcases hspool with ⟨lines, hclean⟩ | rfl
    · exact ⟨lines, [], hclean, fun _ _ _ => rfl⟩
    obtain ⟨lines, tail, hf, ht⟩ := hl.holds
    refine ⟨lines, tail, hf, fun s' hs' => ?_⟩
    cases hs'
    exact ht
  have hc : w.disk.file.calls <+: f.calls := hl.calls ▸ List.prefix_refl _
  exact h.refile hh hc (Nat.le_refl _) (fun k hk => .inl (hl.calls ▸ hk)) hl.safe

end

theorem SpoolInv.push (h : SpoolInv next w) (event : CapturedEvent) :
    SpoolInv next { w with events := w.events ++ [event] } := by
  have hmono : ∀ i e, w.events[i]? = some e →
      (w.events ++ [event])[i]? = some e := fun _ _ h =>
    List.getElem?_append_left (List.getElem?_eq_some_iff.1 h).1 ▸ h
  refine ⟨?_, fun f hf => ?_, h.kept, h.safe, h.calls, h.accepted, h.history.mono hmono⟩
  · obtain ⟨lines, tail, hh, ht⟩ := h.file
    exact ⟨lines, tail, hh.mono hmono, ht⟩
  · obtain ⟨lines, tail, hh⟩ := h.older f hf
    exact ⟨lines, tail, hh.mono hmono⟩

theorem SpoolInv.append (h : SpoolInv w.events.length w) (hs : w.spool = some s)
    (hf : ∀ line, encodeEvent s.lo event = some line → line.length < maxScanTokenSize)
    (faults : AppendFaults) : SpoolInv (w.events.length + 1) (w.append s event faults) := by
  have hpushed := h.push event
  obtain ⟨_, hhealed, hheal⟩ :=
    healed_of_heal (hpushed.file_of_spool hs) faults.repair faults.reread
  rw [SpoolWorld.append]
  rcases hheal with hheal | ⟨_, hheal, -, hlo, hh⟩
  · simp only [hheal]
    exact ((hpushed.healed hhealed (.inr hs)).mono (Nat.le_succ _)).fail_io .append
  simp only [hheal]
  obtain ⟨lines, hl⟩ := hh
  refine (hpushed.healed hhealed (.inl ⟨lines, hl⟩)).write hl ?_ ?_ faults
  · exact List.getElem?_concat_length
  · rw [hlo]
    exact hf

/-! ## Replays -/

/-- **The sends of a replay.** They are lawful, and send a prefix of the calls; all but the last of
those tried were delivered. The induction is on the events that are left; the calls before the
`i`-th were delivered already. -/
theorem sendFrom_lawful {more : List CapturedEvent} {lo : Int → Int}
    {history : List Happened} (answers : Nat → Answer) (i : Nat)
    (hr : List.Forall₂ (EventOf events lo) (calls.drop i) (read ++ more))
    (hi : calls.Pairwise (· < ·))
    (hkept : ∀ k, .accepted k ∈ history → SettledCall history k ∨ k ∈ calls)
    (hsent : ∀ k ∈ calls.take i, Delivered history k) (hlawful : AllLawful events history) :
    AllLawful events ((sendFrom answers calls i read).2.1 ++ history) ∧
      (∀ k ∈ calls.take (i + (sendFrom answers calls i read).1),
        Delivered ((sendFrom answers calls i read).2.1 ++ history) k) ∧
      (∀ k, .accepted k ∈ (sendFrom answers calls i read).2.1 ++ history → .accepted k ∈ history) ∧
      (sendFrom answers calls i read).2.2 ∈ [none, some .canceled, some .send] := by
  induction read generalizing i history with
  | nil => exact ⟨hlawful, hsent, fun k hk => hk, .head _⟩
  | cons event _ ih =>
    obtain ⟨call, rest, hev, _, hdrop⟩ := List.forall₂_cons_right_iff.1 hr
    have hc : calls[i]? = some call := by
      rw [← List.head?_drop, hdrop, List.head?_cons]
    have hg : calls.getD i 0 = call := by
      rw [List.getD_eq_getElem?_getD, hc, Option.getD_some]
    have ht : calls.drop (i + 1) = rest := by
      rw [← List.drop_drop, hdrop, List.drop_one, List.tail_cons]
    have htake : calls.take (i + 1) = calls.take i ++ [call] := by
      rw [List.take_add_one, hc, Option.toList_some]
    -- the calls before this one come before it in the file, and were delivered
    have hlaw : ∀ delivered, Lawful events history (.tried call event delivered) := by
      intro delivered
      obtain ⟨⟨e, he, lo0, hy⟩, -⟩ := hev
      refine ⟨⟨e, he, lo0, lo, hy⟩, fun k hk hacc => ?_⟩
      rcases hkept k hacc with hs | hm
      · exact hs
      rw [← List.take_append_drop i calls, hdrop] at hm hi
      rcases List.mem_append.1 hm with hm | hm
      · exact .inl (hsent k hm)
      exfalso
      obtain ⟨-, hpairs, -⟩ := List.pairwise_append.1 hi
      obtain _ | ⟨_, hm⟩ := hm
      · exact Nat.lt_irrefl _ hk
      · exact Nat.lt_asymm hk ((List.pairwise_cons.1 hpairs).1 k hm)
    rw [sendFrom, hg]
    cases answers i with
    | canceled => exact ⟨hlawful, hsent, fun k hk => hk, by simp⟩
    | refused =>
      refine ⟨⟨hlaw false, hlawful⟩, fun k hk => ?_, fun k hk => ?_, by simp⟩
      · obtain ⟨event, hm⟩ := hsent k hk
        exact ⟨event, .tail _ hm⟩
      · exact List.mem_of_ne_of_mem (by simp) hk
    | delivered =>
      have hlawful' : AllLawful events (.tried call event true :: history) := ⟨hlaw true, hlawful⟩
      have hn := ih (i + 1) ?_ ?_ ?_ hlawful'
      · obtain ⟨ha, hd, hacc, herr⟩ := hn
        rw [List.append_assoc]
        refine ⟨ha, fun k hk => hd k ?_, fun k hk => ?_, herr⟩
        · rwa [Nat.add_assoc, Nat.add_comm 1]
        exact List.mem_of_ne_of_mem (by simp) (hacc k hk)
      · rwa [ht]
      · intro k hk
        have hk := List.mem_of_ne_of_mem (by simp) hk
        exact (hkept k hk).imp_left fun hs => hs.cons _
      · intro k hk
        rw [htake] at hk
        rcases List.mem_append.1 hk with hk | hk
        · obtain ⟨event, hm⟩ := hsent k hk
          exact ⟨event, .tail _ hm⟩
        · rw [List.mem_singleton.1 hk]
          exact ⟨event, .head _⟩

section

variable (h : SpoolInv next w)
include h

theorem SpoolInv.send
    (hh : Holds w.events w.disk.file lines []) (limit : Nat) (faults : ReplayFaults) :
    SpoolInv next (w.send s limit faults) := by
  rw [SpoolWorld.send]
  rcases hh.read_cases s.lo faults.read with hr | ⟨read, hr, hevs⟩
  · rw [hr]
    exact h.fail_io .replay
  rw [hr]
  dsimp only
  have hprefix : List.Forall₂ (EventOf w.events s.lo) (w.disk.file.calls.drop 0)
      (read.take limit ++ read.drop limit) := by
    rwa [List.take_append_drop]
  obtain ⟨hlaw, hsent, ha, herr⟩ := sendFrom_lawful faults.answers 0 hprefix hh.increase
    h.kept (List.forall_mem_nil _) h.history
  generalize sendFrom faults.answers w.disk.file.calls 0 (read.take limit) = sends at *
  obtain ⟨sent, hhap, error⟩ := sends
  have hworld : SpoolInv next { w with history := hhap ++ w.history } := by
    refine ⟨h.file, h.older, fun k hk => ?_, fun f hf k hk hk' => h.safe f hf k hk (ha k hk'),
      h.calls, fun k hk => h.accepted k (ha k hk), hlaw⟩
    exact (h.kept k (ha k hk)).imp_left fun hs => hs.append hhap
  have hans : ∀ w', SpoolInv next w' → SpoolInv next (error.elim w' (w'.fail .replay)) := by
    intro w' hw'
    simp only [List.mem_cons, List.not_mem_nil, or_false] at herr
    rcases herr with rfl | rfl | rfl
    · exact hw'
    · exact hw'.fail (by decide) fun hne => by cases hne
    · exact hw'.fail (by decide) fun hne => by cases hne
  split_ifs
  · exact hans _ hworld
  have hi : (w.disk.file.calls.drop sent).Pairwise (· < ·) :=
    hh.increase.sublist (List.drop_sublist _ _)
  rcases rewriteSpool_cases (List.forall₂_drop sent hevs) hi faults.rewrite w.disk with
    ⟨-, hrewrite⟩ |
    ⟨-, file, lines', older, result, hrewrite, hl, hc, hy, holder, hres⟩
  · rw [hrewrite]
    exact hworld.fail_io .replay
  have he : ∀ spool, SpoolInv next
      { w with disk := ⟨file, older⟩, spool, history := hhap ++ w.history } := by
    refine fun spool => hworld.replace hl hy ?_ (fun k hk _ => ?_) holder spool
    · rw [hc]
      exact fun k hk => List.mem_of_mem_drop hk
    -- what was sent is delivered, the rest is in the new file
    rw [← List.take_append_drop sent w.disk.file.calls] at hk
    rcases List.mem_append.1 hk with hk | hk
    · exact .inl (.inl (hsent k (by rwa [Nat.zero_add])))
    · exact .inr (hc ▸ hk)
  rw [hrewrite]
  rcases hres with ⟨rfl, -⟩ | rfl
  · exact hans _ (he _)
  · exact (he _).fail_io .replay

theorem SpoolInv.replay (hs : w.spool = some s) (limit : Int)
    (hasSend : Bool) (faults : ReplayFaults) : SpoolInv next (w.replay s limit hasSend faults) := by
  obtain ⟨_, hhealed, hh⟩ := healed_of_heal (h.file_of_spool hs) faults.repair faults.reread
  rw [SpoolWorld.replay]
  split_ifs
  · exact h.fail (by decide) fun hne => by cases hne
  rcases hh with hh | ⟨_, hh, -, -, lines, hl⟩
  · simp only [hh]
    exact (h.healed hhealed (.inr hs)).fail_io .replay
  · simp only [hh]
    exact (h.healed hhealed (.inl ⟨lines, hl⟩)).send hl limit.toNat faults

theorem SpoolInv.openSpool (hs : w.spool = none) (lo : Int → Int)
    (opened : Bool) (trouble : Trouble) (read : Bool) :
    SpoolInv next (w.openSpool lo opened trouble read) := by
  obtain ⟨lines, _, hh, -⟩ := h.file
  obtain ⟨tail', hrepaired, ht, hsafe⟩ := hh.repair trouble
  have hc := calls_repairTornTail trouble w.disk.file
  rw [SpoolWorld.openSpool]
  split_ifs
  · exact h.fail_io .launch
  cases hrepair : repairTornTail trouble w.disk.file with
  | mk f ok =>
    rw [hrepair] at hrepaired ht hsafe hc
    have hf : ∀ spool, (∀ s, spool = some s → s.dirty = false → tail' = []) →
        SpoolInv next { w with disk := ⟨f, w.disk.older⟩, spool } := by
      intro spool hspool
      have hkept : w.disk.file.calls <+: f.calls := hc ▸ List.prefix_refl _
      exact h.refile ⟨lines, tail', hrepaired, hspool⟩ hkept (Nat.le_refl _)
        (fun k hk => .inl (hc ▸ hk)) hsafe
    have hn : ∀ s, w.spool = some s → s.dirty = false → tail' = [] := by
      rw [hs]
      intro s hs'
      cases hs'
    cases ok with
    | false => exact (hf w.spool hn).fail_io .launch
    | true =>
      obtain rfl := ht (.inl rfl)
      dsimp only
      rcases hrepaired.read_cases lo read with hr | ⟨_, hr, -⟩
      · rw [hr]
        exact (hf w.spool hn).fail_io .launch
      · rw [hr]
        exact hf _ fun _ _ _ => rfl

theorem SpoolInv.crash {kept : Nat} {tail : Str} (hf : f ∈ w.disk.file :: w.disk.older)
    (hhas : ∀ k ∈ w.disk.file.calls, .accepted k ∈ w.history → k ∈ f.calls)
    (hkept : f.synced ≤ kept) (ht : (0x0A : UInt8) ∉ tail) :
    SpoolInv next { w with disk := ⟨f.crash kept tail, []⟩, spool := none } := by
  obtain ⟨_, _, hh⟩ := h.holds hf
  obtain ⟨⟨lines', tail', hl⟩, hsafe, hb, hy⟩ := hh.crash hkept ht
  refine ⟨⟨lines', tail', hl, fun s hs => ?_⟩, List.forall_mem_nil _,
    fun k hk => ?_, fun g hg k hk ha => ?_, fun g hg k hk => ?_, h.accepted, h.history⟩
  · cases hs
  · rcases h.kept k hk with hset | hm
    · exact .inl hset
    · exact .inr (hsafe k (h.safe f hf k (hhas k hm hk) hk))
  · obtain rfl := List.mem_singleton.1 hg
    exact hl.safe_of_synced hy hk
  · obtain rfl := List.mem_singleton.1 hg
    exact h.calls f hf k (hb k hk)

end

theorem events_write (s : Spool) (call : Nat) (event : CapturedEvent) (faults : AppendFaults) :
    (w.write s call event faults).events = w.events := by
  fun_cases write w s call event faults with
  | case6 =>
    rw [truncate]
    split
    · rfl
    fun_cases keepNewest <;> rfl
  | _ => rfl

theorem events_append (s : Spool) (event : CapturedEvent) (faults : AppendFaults) :
    (w.append s event faults).events = w.events ++ [event] := by
  fun_cases append w s event faults with
  | case1 => rfl
  | case2 => exact events_write _ _ _ _

theorem events_replay (s : Spool) (limit : Int) (hasSend : Bool) (faults : ReplayFaults) :
    (w.replay s limit hasSend faults).events = w.events := by
  have hans : ∀ (w : SpoolWorld) (error : Option SpoolError),
      (error.elim w (w.fail .replay)).events = w.events := by
    intro w error
    cases error <;> rfl
  fun_cases SpoolWorld.replay w s limit hasSend faults with
  | case1 | case2 => rfl
  | case3 =>
    fun_cases send with
    | case1 | case3 => rfl
    | case2 | case4 => exact hans _ _

theorem events_openSpool (lo : Int → Int) (opened : Bool) (trouble : Trouble) (read : Bool) :
    (w.openSpool lo opened trouble read).events = w.events := by
  fun_cases openSpool w lo opened trouble read <;> rfl

end

/-! ## Runs -/

/-- An event that is appended has a line that the scanner can hold; and a crash finds the file, or
an older one that has every accepted event of the file. -/
def SpoolWorld.fair (w : SpoolWorld) : SpoolOp → Bool
  | .append event _ =>
    w.spool.all fun s => (encodeEvent s.lo event).all fun line => line.length < maxScanTokenSize
  | .crash version _ _ =>
    version = 0 || (w.disk.version version).all fun f => w.disk.file.calls.all fun k =>
      decide (.accepted k ∉ w.history) || f.calls.contains k
  | _ => true

theorem SpoolInv.next {w w' : SpoolWorld} {op : SpoolOp} (h : SpoolInv w.events.length w)
    (hfair : w.fair op = true) (hn : spoolNext w op = some w') : SpoolInv w'.events.length w' := by
  cases op with
  | launch lo opened repair read =>
    obtain ⟨h0, rfl⟩ := unguarded hn
    rw [events_openSpool]
    exact h.openSpool (by simpa using h0) lo opened repair read
  | append _ faults =>
    obtain ⟨_, hs, rfl⟩ := Option.map_eq_some_iff.1 hn
    rw [events_append, List.length_append]
    refine h.append hs (fun line hl => ?_) faults
    simpa [fair, hs, hl] using hfair
  | replay limit hasSend faults =>
    obtain ⟨_, hs, rfl⟩ := Option.map_eq_some_iff.1 hn
    rw [events_replay]
    exact h.replay hs limit hasSend faults
  | exit =>
    cases hn
    obtain ⟨lines, tail, hh, -⟩ := h.file
    refine { h with file := ⟨lines, tail, hh, fun s hs => ?_⟩ }
    cases hs
  | crash version =>
    obtain ⟨_, hf, hn⟩ := Option.bind_eq_some_iff.1 hn
    split_ifs at hn with hcut
    cases hn
    refine h.crash (List.mem_of_getElem? hf) (fun k hk hc => ?_) hcut.1 hcut.2
    rw [fair, Bool.or_eq_true] at hfair
    rcases hfair with hz | ha
    · have hz : version = 0 := of_decide_eq_true hz
      subst hz
      cases hf
      exact hk
    · rw [hf, Option.all_some, List.all_eq_true] at ha
      simpa [hc] using ha k hk

theorem forall₂_getElem? {α β : Type} {R : α → β → Prop} {l : List α} {l' : List β}
    (h : List.Forall₂ R l l') {i : Nat} {a : α} (ha : l[i]? = some a) :
    ∃ b, l'[i]? = some b ∧ R a b := by
  obtain ⟨hi, rfl⟩ := List.getElem?_eq_some_iff.1 ha
  have hi' : i < l'.length := h.length_eq ▸ hi
  exact ⟨l'[i], List.getElem?_eq_getElem hi', h.get hi hi'⟩

/-- The event of the call is on disk: whichever process reads the file, behind the repair, finds
it. -/
def OnDisk (w : SpoolWorld) (call : Nat) : Prop :=
  ∃ e, w.events[call]? = some e ∧ ∀ lo, ∃ read event,
    readSpool lo (committed w.disk.file.content) = some read ∧ event ∈ read ∧
      ∃ lo₀, Carries lo₀ lo e event

theorem Holds.onDisk {w : SpoolWorld} {tail : Str}
    (h : Holds w.events w.disk.file lines tail) (hc : call ∈ w.disk.file.calls) :
    OnDisk w call := by
  have hcut : committed w.disk.file.content = spoolLines lines := by
    rw [h.content]
    exact committed_append (spoolLines_end lines) h.torn
  have hf : ∀ lo, ∃ read event, readSpool lo (committed w.disk.file.content) = some read ∧
      event ∈ read ∧ EventOf w.events lo call event := by
    intro lo
    obtain ⟨read, hr, ha⟩ := readSpool_spoolLines h.lines lo
    obtain ⟨_, hi⟩ := List.mem_iff_getElem?.mp hc
    obtain ⟨event, hev, hof⟩ := forall₂_getElem? ha hi
    exact ⟨read, event, hcut ▸ hr, List.mem_of_getElem? hev, hof⟩
  obtain ⟨-, -, -, -, ⟨e, he, -⟩, -⟩ := hf fun _ => 0
  refine ⟨e, he, fun lo => ?_⟩
  obtain ⟨read, event, hr, hm, ⟨_, he', hy⟩, -⟩ := hf lo
  cases he.symm.trans he'
  exact ⟨read, event, hr, hm, hy⟩

/-- **The spool keeps what it accepts.** In every run in which each appended event has a line that
the scanner can hold, and no crash brings a file back that lacks an accepted event: every accepted
event was delivered, is on disk, or was dropped, and whatever happened was lawful (`Lawful`). -/
theorem spool_keeps_accepted {ops : List SpoolOp} {w : SpoolWorld}
    (hrun : exec spoolNext .start ops = some w)
    (hfair : Along spoolNext (fun w op => w.fair op = true) .start ops) :
    (∀ call, .accepted call ∈ w.history →
      Delivered w.history call ∨ OnDisk w call ∨ Dropped w.history call) ∧
    ∀ later h past, w.history = later ++ h :: past → Lawful w.events past h := by
  have hempty : Holds [] ⟨[], 0, []⟩ [] [] := ⟨rfl, List.not_mem_nil, .nil, .nil⟩
  have hstart : SpoolInv start.events.length .start := by
    refine ⟨⟨[], [], hempty, fun _ _ _ => rfl⟩, fun f hf => ?_,
      fun k hk => absurd hk List.not_mem_nil,
      fun f _ k _ hk => absurd hk List.not_mem_nil, fun f hf k hk => ?_,
      fun k hk => absurd hk List.not_mem_nil, trivial⟩
    · obtain rfl := List.mem_singleton.mp hf
      exact ⟨[], [], hempty⟩
    · simp only [start, List.mem_cons, List.not_mem_nil, or_false, or_self] at hf
      subst hf
      cases hk
  have hinv : SpoolInv w.events.length w :=
    exec_invariant_along (P := fun w => SpoolInv w.events.length w)
      (fun _ _ _ h hok hnext => h.next hok hnext) hstart hfair hrun
  constructor
  · intro call hacc
    obtain ⟨_, _, hholds, -⟩ := hinv.file
    rcases hinv.kept call hacc with (hdelivered | hdropped) | hmem
    · exact .inl hdelivered
    · exact .inr (.inr hdropped)
    · exact .inr (.inl (hholds.onDisk hmem))
  · exact fun later h past hsplit => hinv.history.at hsplit

/-- An event with the given code. -/
def sampleEvent (xid : Int) (h : FitsInt64 xid) : CapturedEvent :=
  { CapturedEvent.zero with xid, fits := ⟨CapturedEvent.zero.fits.1, h⟩ }

/-- A process in UTC opens the spool and nothing goes wrong. -/
def launchUTC : SpoolOp := .launch (fun _ => 0) true .none true

/-- An append is torn, the next one repairs the file. The first event is sent, the second one
refused; then the machine crashes in the middle of another append, and the rest is replayed. -/
def tornRun : List SpoolOp :=
  [launchUTC, .append (sampleEvent 1 (by decide)) .none,
    .append (sampleEvent 2 (by decide)) { AppendFaults.none with written := some 7 },
    .append (sampleEvent 3 (by decide)) .none,
    .replay 5 true { ReplayFaults.none with
      answers := fun i => if i = 0 then .delivered else .refused },
    .append (sampleEvent 4 (by decide)) { AppendFaults.none with sync := false },
    .crash 0 90 [0x7B], launchUTC, .replay 5 true .none]

theorem torn_run_keeps_accepted :
    ∃ w, exec spoolNext .start tornRun = some w ∧ .accepted 2 ∈ w.history ∧
      w.disk.file.calls = [] ∧ .tried 2 (sampleEvent 3 (by decide)) true ∈ w.history ∧
      (Delivered w.history 2 ∨ OnDisk w 2 ∨ Dropped w.history 2) := by
  have hrun : ∃ w, exec spoolNext .start tornRun = some w ∧ .accepted 2 ∈ w.history ∧
      w.disk.file.calls = [] ∧ .tried 2 (sampleEvent 3 (by decide)) true ∈ w.history := by
    decide +kernel
  obtain ⟨w, hw, hacc, hrest⟩ := hrun
  exact ⟨w, hw, hacc, hrest.1, hrest.2, (spool_keeps_accepted hw (by decide +kernel)).1 2 hacc⟩

/-- An event with a long kernel message. -/
def longEvent : CapturedEvent :=
  { CapturedEvent.zero with raw := List.replicate maxScanTokenSize 0x78 }

/-- The event is appended and nothing goes wrong; then it is to be replayed, and the agent
restarts. -/
def longRun : List SpoolOp :=
  [launchUTC, .append longEvent .none, .replay 1 true .none, .exit, launchUTC]

/-- The directory sync after a replay fails. An event is appended to the new file; then the machine
crashes and finds the old one. -/
def lostRun : List SpoolOp :=
  [launchUTC, .append (sampleEvent 1 (by decide)) .none,
    .replay 1 true { ReplayFaults.none with rewrite := .unsynced },
    .append (sampleEvent 2 (by decide)) .none, .crash 1 200 []]

theorem readSpool_long (lo : Int → Int) (hn : (0x0A : UInt8) ∉ line)
    (hlong : maxScanTokenSize ≤ line.length) : readSpool lo (line ++ [0x0A]) = none := by
  have hs : splitAfter (line ++ [0x0A]) = [line ++ [0x0A], []] := splitAfter_line hn []
  have hscan : scanPiece (line ++ [0x0A]) = none := by
    rw [scanPiece, List.getLast?_concat, if_pos rfl, List.dropLast_concat,
      if_neg (Nat.not_lt.2 hlong)]
  rw [readSpool, scanLines, hs, List.filter_cons_of_pos (by simp), List.mapM_cons, hscan]
  rfl

theorem exec_long
    (hl : encodeEvent (fun _ => 0) event = some line) (hlong : maxScanTokenSize ≤ line.length) :
    ∃ w, exec spoolNext .start
        [launchUTC, .append event .none, .replay 1 true .none, .exit, launchUTC] = some w ∧
      w.history = [.failed .launch .tooLong, .failed .replay .tooLong, .accepted 0] := by
  have hr := readSpool_long (fun _ => 0) (decodeEvent_encodeEvent hl fun _ => 0).1 hlong
  generalize hopened : ({ start with spool := some ⟨fun _ => 0, 0, false⟩ }) = w1
  generalize hwr : (⟨⟨⟨line ++ [0x0A], (line ++ [0x0A]).length, [0]⟩, [⟨[], 0, []⟩]⟩,
    some ⟨fun _ => 0, 1, false⟩, [event], [.accepted 0]⟩ : SpoolWorld) = w2
  have hlaunch : spoolNext .start launchUTC = some w1 := by
    rw [← hopened]
    rfl
  have ha : spoolNext w1 (.append event .none) = some w2 := by
    rw [← hopened, ← hwr]
    simp [spoolNext, append, heal, write, AppendFaults.none, hl, SpoolWorld.start]
    intro hz
    exact absurd hz (Nat.pos_iff_ne_zero.1 maxEvents_pos)
  have hrepl : spoolNext w2 (.replay 1 true .none) = some (w2.fail .replay .tooLong) := by
    rw [← hwr]
    simp [spoolNext, SpoolWorld.replay, heal, SpoolWorld.send, SpoolFile.read, hr,
      ReplayFaults.none]
  have hagain : spoolNext { w2.fail .replay .tooLong with spool := none } launchUTC =
      some (fail { w2.fail .replay .tooLong with spool := none } .launch .tooLong) := by
    rw [← hwr]
    simp [spoolNext, launchUTC, openSpool, fail, repairTornTail, SpoolFile.read, hr]
  refine ⟨fail { w2.fail .replay .tooLong with spool := none } .launch .tooLong, ?_, ?_⟩
  · have hexit : spoolNext (w2.fail .replay .tooLong) .exit =
        some { w2.fail .replay .tooLong with spool := none } := rfl
    simp only [exec, hlaunch, ha, hrepl, hexit, hagain]
  · rw [← hwr]
    rfl

/-- The spool accepts an event that it can never read again. And it loses an event that it accepted,
when the file it was appended to was not synced under the spool's name. -/
theorem long_event_wedges_spool : (∃ w, exec spoolNext .start longRun = some w ∧
      w.history = [.failed .launch .tooLong, .failed .replay .tooLong, .accepted 0]) ∧
    ∃ w, exec spoolNext .start lostRun = some w ∧
      w.history = [.accepted 1, .failed .replay .io, .tried 0 (sampleEvent 1 (by decide)) true,
        .accepted 0] ∧
      readSpool (fun _ => 0) (committed w.disk.file.content) =
        some [sampleEvent 1 (by decide)] := by
  constructor
  · have htime : (marshalTime (fun _ => 0) GoTime.zero).isSome = true := by decide +kernel
    obtain ⟨timestamp, htime⟩ := Option.isSome_iff_exists.mp htime
    have hline : encodeEvent (fun _ => 0) longEvent =
        some (Json.obj (Json.members (longEvent.slots timestamp))).print := by
      rw [encodeEvent, CapturedEvent.toJson]
      have hzero : longEvent.timestamp = GoTime.zero := rfl
      rw [hzero, htime]
      rfl
    apply exec_long hline
    have hraw := length_raw_le hline ?_
    · rwa [longEvent, List.length_replicate] at hraw
    intro b hb
    rw [List.eq_of_mem_replicate hb]
    decide
  · decide +kernel

end KubeNeuron.Agent
