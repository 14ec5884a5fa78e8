import KubeNeuron.Agent.JournalReplay
import KubeNeuron.Agent.Spool

/-!
# Files of spooled events

A file of the spool holds the lines of its calls, in order, and a torn tail (`Holds`). Such a file
reads back as the events of its calls (`Holds.read`), a repair cuts off the tail and nothing else
(`Holds.repair`), and a crash keeps a prefix of the calls, with all whose lines were synced
(`Holds.crash`).
-/

namespace KubeNeuron.Agent

open Lib KubeNeuron.Types

/-! ## Lines of events -/

/-- What a time value shows on a clock of its zone, in nanoseconds. -/
def wallClock (lo : Int → Int) (t : GoTime) : Int :=
  t.ns + t.zone.offset lo t.unixSec * 1000000000

/-- The event `e'`, in a process with the local zone `lo'`, is the event `e` of a process with `lo`,
as far as lines of JSON carry it: texts up to their stray bytes, and the time on the clock. -/
structure Carries (lo lo' : Int → Int) (e e' : CapturedEvent) : Prop where
  eventID : toValid e'.eventID = toValid e.eventID
  node : toValid e'.node = toValid e.node
  gpuIndex : e'.gpuIndex = e.gpuIndex
  gpuUUID : toValid e'.gpuUUID = toValid e.gpuUUID
  pciAddr : toValid e'.pciAddr = toValid e.pciAddr
  xid : e'.xid = e.xid
  fault : e'.fault.map FaultSignal.readBack = e.fault.map FaultSignal.readBack
  raw : toValid e'.raw = toValid e.raw
  timestamp : wallClock lo' e'.timestamp = wallClock lo e.timestamp

theorem Carries.refl (lo : Int → Int) (e : CapturedEvent) : Carries lo lo e e :=
  ⟨rfl, rfl, rfl, rfl, rfl, rfl, rfl, rfl, rfl⟩

theorem FaultSignal.readBack_readBack (f : FaultSignal) : f.readBack.readBack = f.readBack := by
  simp only [FaultSignal.readBack, toValid_toValid,
    StrMap.readBack_of_valid f.attributes.valid_readBack]

theorem Carries.readBack {lo0 lo lo' : Int → Int} {e e' : CapturedEvent} (h : Carries lo0 lo e e') :
    Carries lo0 lo' e (e'.readBack lo lo') := by
  obtain ⟨hoff, hclk⟩ := offset_readTime lo lo' e'.timestamp
  constructor
  · exact (toValid_toValid _).trans h.eventID
  · exact (toValid_toValid _).trans h.node
  · exact h.gpuIndex
  · exact (toValid_toValid _).trans h.gpuUUID
  · exact (toValid_toValid _).trans h.pciAddr
  · exact h.xid
  · rw [← h.fault]
    simp only [CapturedEvent.readBack, Option.map_map]
    congr 1
    funext f
    exact FaultSignal.readBack_readBack f
  · exact (toValid_toValid _).trans h.raw
  · rw [← h.timestamp, wallClock, wallClock, ← hclk]
    simp only [CapturedEvent.readBack, hoff]

/-- The line is one that an event of the call was printed as, and the scanner can hold it. -/
def LineOf (events : List CapturedEvent) (call : Nat) (line : Str) : Prop :=
  line.length < maxScanTokenSize ∧ ∃ e, events[call]? = some e ∧
    ∃ lo₀ lo e', Carries lo₀ lo e e' ∧ encodeEvent lo e' = some line

/-- The event, read in a process with the local zone `lo`, is that of the call, and can be printed
again. -/
def EventOf (events : List CapturedEvent) (lo : Int → Int) (call : Nat)
    (event : CapturedEvent) : Prop :=
  (∃ e, events[call]? = some e ∧ ∃ lo₀, Carries lo₀ lo e event) ∧
    ∃ line, encodeEvent lo event = some line ∧ line.length < maxScanTokenSize

variable {events : List CapturedEvent} {call : Nat} {line : Str} {lo : Int → Int}

theorem LineOf.no_newline (h : LineOf events call line) : (0x0A : UInt8) ∉ line := by
  obtain ⟨-, _, -, _, lo, _, -, hl⟩ := h
  exact (decodeEvent_encodeEvent hl lo).1

theorem LineOf.decode (h : LineOf events call line) (lo : Int → Int) :
    ∃ event, decodeEvent lo line = some event ∧ EventOf events lo call event := by
  obtain ⟨hn, e, he, lo0, _, _, hc, hl⟩ := h
  obtain ⟨-, -, hd, line', hl', hshorter⟩ := decodeEvent_encodeEvent hl lo
  exact ⟨_, hd, ⟨e, he, lo0, hc.readBack⟩, line', hl', Nat.lt_of_le_of_lt hshorter hn⟩

theorem LineOf.scan (h : LineOf events call line) : scanPiece (line ++ [0x0A]) = some line := by
  obtain ⟨hn, _, -, _, lo, _, -, hl⟩ := h
  obtain ⟨-, hlast, -⟩ := decodeEvent_encodeEvent hl lo
  rw [scanPiece, List.getLast?_concat, if_pos rfl, List.dropLast_concat, if_pos hn, dropCR, hlast,
    if_neg (by decide)]

/-! ## Lists of lines -/

theorem spoolLines_cons (line : Str) (lines : List Str) :
    spoolLines (line :: lines) = line ++ 0x0A :: spoolLines lines := by
  simp [spoolLines]

variable {calls : List Nat} {lines : List Str}

section

variable (h : List.Forall₂ (LineOf events) calls lines)
include h

theorem scanLines_spoolLines : scanLines (spoolLines lines) = some lines := by
  induction h with
  | nil => rfl
  | @cons call line calls lines hl _ ih =>
    have hs : splitAfter (spoolLines (line :: lines)) =
        (line ++ [0x0A]) :: splitAfter (spoolLines lines) := by
      rw [spoolLines_cons, splitAfter_line hl.no_newline]
    rw [scanLines, hs, List.filter_cons_of_pos (by simp), List.mapM_cons, hl.scan]
    rw [scanLines] at ih
    rw [ih]
    rfl

theorem decode_lines (lo : Int → Int) :
    ∃ read, lines.filterMap (decodeEvent lo) = read ∧
      List.Forall₂ (EventOf events lo) calls read := by
  induction h with
  | nil => exact ⟨[], rfl, .nil⟩
  | @cons call line calls lines hl _ ih =>
    obtain ⟨event, hd, hev⟩ := hl.decode lo
    obtain ⟨read, hr, ha⟩ := ih
    refine ⟨event :: read, ?_, .cons hev ha⟩
    rw [List.filterMap_cons_some hd, hr]

/-- **A file of lines reads back** as the events of its calls. -/
theorem readSpool_spoolLines (lo : Int → Int) :
    ∃ read, readSpool lo (spoolLines lines) = some read ∧
      List.Forall₂ (EventOf events lo) calls read := by
  obtain ⟨read, hr, ha⟩ := decode_lines h lo
  refine ⟨read, ?_, ha⟩
  rw [readSpool, scanLines_spoolLines h, Option.map_some, hr]

end

theorem encode_events {read : List CapturedEvent}
    (h : List.Forall₂ (EventOf events lo) calls read) :
    ∃ lines, read.mapM (encodeEvent lo) = some lines ∧
      List.Forall₂ (LineOf events) calls lines := by
  induction h with
  | nil => exact ⟨[], rfl, .nil⟩
  | cons hev _ ih =>
    obtain ⟨⟨e, he, lo0, hc⟩, line, hl, hn⟩ := hev
    obtain ⟨lines, hlines, ha⟩ := ih
    refine ⟨line :: lines, ?_, .cons ⟨hn, e, he, lo0, lo, _, hc, hl⟩ ha⟩
    rw [List.mapM_cons, hl, hlines]
    rfl

theorem count_spoolLines (h : List.Forall₂ (LineOf events) calls lines) :
    (spoolLines lines).count 0x0A = calls.length := by
  induction h with
  | nil => rfl
  | cons hl _ ih =>
    rw [spoolLines_cons, List.count_append, List.count_cons_self,
      List.count_eq_zero_of_not_mem hl.no_newline, List.length_cons]
    omega

theorem take_spoolLines (h : List.Forall₂ (LineOf events) calls lines) {tail : Str}
    (ht : (0x0A : UInt8) ∉ tail) (n : Nat) :
    ∃ m rest, (spoolLines lines ++ tail).take n = spoolLines (lines.take m) ++ rest ∧
      (0x0A : UInt8) ∉ rest ∧ ((spoolLines lines ++ tail).take n).count 0x0A = m ∧
      m ≤ lines.length := by
  induction h generalizing n with
  | nil =>
    refine ⟨0, tail.take n, rfl, fun he => ht (List.mem_of_mem_take he), ?_, Nat.le_refl _⟩
    exact List.count_eq_zero_of_not_mem fun he => ht (List.mem_of_mem_take he)
  | @cons call line calls lines hl _ ih =>
    have h0 := hl.no_newline
    by_cases hn : n ≤ line.length
    · -- the cut is in the first line
      have hcut : (spoolLines (line :: lines) ++ tail).take n = line.take n := by
        rw [spoolLines_cons, List.append_assoc, List.take_append_of_le_length hn]
      have h0' : (0x0A : UInt8) ∉ line.take n := fun he => h0 (List.mem_of_mem_take he)
      exact ⟨0, line.take n, hcut, h0', hcut ▸ List.count_eq_zero_of_not_mem h0', Nat.zero_le _⟩
    obtain ⟨k, rfl⟩ : ∃ k, n = line.length + (k + 1) := ⟨n - line.length - 1, by omega⟩
    obtain ⟨m, rest, hr, h0', hc, hm⟩ := ih k
    have hcut : (spoolLines (line :: lines) ++ tail).take (line.length + (k + 1)) =
        line ++ 0x0A :: (spoolLines lines ++ tail).take k := by
      rw [spoolLines_cons, List.append_assoc, List.take_length_add_append]
      rfl
    refine ⟨m + 1, rest, ?_, h0', ?_, Nat.succ_le_succ hm⟩
    · rw [hcut, hr, List.take_succ_cons, spoolLines_cons, List.append_assoc]
      rfl
    · rw [hcut, List.count_append, List.count_cons_self, List.count_eq_zero_of_not_mem h0]
      omega

theorem committed_append {data tail : Str} (hdata : data = [] ∨ data.getLast? = some 0x0A)
    (ht : (0x0A : UInt8) ∉ tail) : committed (data ++ tail) = data := by
  have hd : (tail.reverse ++ data.reverse).dropWhile (fun b => decide (b ≠ 0x0A)) =
      data.reverse.dropWhile fun b => decide (b ≠ 0x0A) := by
    apply List.dropWhile_append_of_pos
    intro b hb
    have hm : b ∈ tail := List.mem_reverse.1 hb
    exact decide_eq_true fun heq => ht (heq ▸ hm)
  rw [committed, List.reverse_append, hd]
  rcases hdata with rfl | hl
  · rfl
  obtain ⟨_, rfl⟩ := List.getLast?_eq_some_iff.1 hl
  simp

theorem spoolLines_end (lines : List Str) :
    spoolLines lines = [] ∨ (spoolLines lines).getLast? = some 0x0A := by
  rcases List.eq_nil_or_concat lines with rfl | ⟨_, _, rfl⟩
  · exact .inl rfl
  refine .inr ?_
  simp [spoolLines]

/-! ## Files -/

/-- The file holds the lines of its calls, in the order of the calls, and a torn tail. -/
structure Holds (events : List CapturedEvent) (f : SpoolFile) (lines : List Str)
    (tail : Str) : Prop where
  content : f.content = spoolLines lines ++ tail
  torn : (0x0A : UInt8) ∉ tail
  lines : List.Forall₂ (LineOf events) f.calls lines
  increase : f.calls.Pairwise (· < ·)

/-- The call's line is in the part of the file that a crash keeps. -/
def SpoolFile.safe (f : SpoolFile) (call : Nat) : Prop :=
  call ∈ f.calls.take ((f.content.take f.synced).count 0x0A)

variable {f f' : SpoolFile} {tail : Str}

section

variable (h : Holds events f lines tail)
include h

theorem Holds.mono {events' : List CapturedEvent}
    (hpre : ∀ (i : Nat) e, events[i]? = some e → events'[i]? = some e) :
    Holds events' f lines tail := by
  refine ⟨h.content, h.torn, h.lines.imp fun call _ hl => ?_, h.increase⟩
  obtain ⟨hn, e, he, ht⟩ := hl
  exact ⟨hn, e, hpre call e he, ht⟩

theorem Holds.count : f.content.count 0x0A = f.calls.length := by
  rw [h.content, List.count_append, count_spoolLines h.lines, List.count_eq_zero_of_not_mem h.torn]
  rfl

theorem Holds.safe_of_synced (hs : f.synced = f.content.length)
    {call : Nat} (hc : call ∈ f.calls) : f.safe call := by
  rw [SpoolFile.safe, hs, List.take_length, h.count, List.take_length]
  exact hc

end

theorem safe_mono {call : Nat} (hc : f.calls <+: f'.calls)
    (hs : (f.content.take f.synced).count 0x0A ≤ (f'.content.take f'.synced).count 0x0A)
    (h : f.safe call) : f'.safe call := by
  obtain ⟨_, hm⟩ := hc
  have htake := (List.take_subset_take_left f.calls hs) h
  rw [SpoolFile.safe, ← hm, List.take_append]
  exact List.mem_append_left _ htake

theorem Holds.read_cases (h : Holds events f lines []) (lo : Int → Int) (readable : Bool) :
    f.read lo readable = .error .io ∨
      ∃ read, f.read lo readable = .ok read ∧ List.Forall₂ (EventOf events lo) f.calls read := by
  cases readable with
  | false => exact .inl rfl
  | true =>
    obtain ⟨read, hr, ha⟩ := readSpool_spoolLines h.lines lo
    refine .inr ⟨read, ?_, ha⟩
    rw [SpoolFile.read, h.content, List.append_nil, hr]
    rfl

theorem Holds.tail_eq_nil (h : Holds events f lines tail)
    (he : f.content = [] ∨ f.content.getLast? = some 0x0A) : tail = [] := by
  rw [h.content] at he
  rcases he with hn | hl
  · exact (List.append_eq_nil_iff.1 hn).2
  rcases List.eq_nil_or_concat tail with hn | ⟨_, b, hconcat⟩
  · exact hn
  -- the line end would be in the tail
  rw [hconcat, List.concat_eq_append, ← List.append_assoc, List.getLast?_concat] at hl
  have hm : b ∈ tail := by simp [hconcat]
  exact absurd (Option.some.inj hl ▸ hm) h.torn

/-- **The repair** keeps the calls and what is safe of them, and leaves no torn tail when it
succeeds. -/
theorem Holds.repair (h : Holds events f lines tail) (trouble : Trouble) :
    ∃ tail', Holds events (repairTornTail trouble f).1 lines tail' ∧
      ((repairTornTail trouble f).2 = true ∨ tail = [] → tail' = []) ∧
      ∀ call, f.safe call → (repairTornTail trouble f).1.safe call := by
  by_cases he : f.content = [] ∨ f.content.getLast? = some 0x0A
  · rw [repairTornTail, if_pos he]
    exact ⟨tail, h, fun _ => h.tail_eq_nil he, fun _ hs => hs⟩
  have hcut : committed f.content = spoolLines lines := by
    rw [h.content]
    exact committed_append (spoolLines_end lines) h.torn
  -- the cut file has all line ends of the file
  have hf : ∀ synced, min f.synced (spoolLines lines).length ≤ synced →
      Holds events ⟨spoolLines lines, synced, f.calls⟩ lines [] ∧
        ∀ call, f.safe call → SpoolFile.safe ⟨spoolLines lines, synced, f.calls⟩ call := by
    intro synced hy
    refine ⟨⟨(List.append_nil _).symm, List.not_mem_nil, h.lines, h.increase⟩, fun call hs => ?_⟩
    refine safe_mono (f := f) (List.prefix_refl _) ?_ hs
    have hc : (f.content.take f.synced).count 0x0A =
        ((spoolLines lines).take f.synced).count 0x0A := by
      rw [h.content, List.take_append, List.count_append,
        List.count_eq_zero_of_not_mem fun hm => h.torn (List.mem_of_mem_take hm)]
      rfl
    have hmin : (spoolLines lines).take f.synced =
        (spoolLines lines).take (min f.synced (spoolLines lines).length) := by
      rw [← List.take_take, List.take_length]
    rw [hc, hmin]
    exact (List.take_sublist_take_left hy).count_le _
  rw [repairTornTail, if_neg he, hcut]
  cases trouble with
  | none | after =>
    obtain ⟨hn, hs⟩ := hf _ (Nat.min_le_right _ _)
    exact ⟨[], hn, fun _ => rfl, hs⟩
  | before =>
    refine ⟨tail, h, ?_, fun _ hs => hs⟩
    rintro (hfalse | hn)
    · cases hfalse
    · exact hn
  | unsynced => exact ⟨[], (hf _ (Nat.le_refl _)).1, fun _ => rfl, (hf _ (Nat.le_refl _)).2⟩

/-- **A crash** keeps whole lines, all safe ones among them, and a torn tail. -/
theorem Holds.crash (h : Holds events f lines tail) {kept : Nat} {torn : Str}
    (hk : f.synced ≤ kept) (htorn : (0x0A : UInt8) ∉ torn) :
    (∃ lines' tail', Holds events (f.crash kept torn) lines' tail') ∧
      (∀ call, f.safe call → call ∈ (f.crash kept torn).calls) ∧
      (∀ call ∈ (f.crash kept torn).calls, call ∈ f.calls) ∧
      (f.crash kept torn).synced = (f.crash kept torn).content.length := by
  obtain ⟨m, rest, hcut, ht, hn, _⟩ := take_spoolLines h.lines h.torn kept
  rw [← h.content] at hcut hn
  refine ⟨⟨lines.take m, rest ++ torn, ?_, ?_, ?_, ?_⟩, ?_, ?_, rfl⟩
  · rw [SpoolFile.crash, hcut, List.append_assoc]
  · exact fun hm => (List.mem_append.1 hm).elim ht htorn
  · rw [SpoolFile.crash, hn]
    exact List.forall₂_take m h.lines
  · exact h.increase.sublist (List.take_sublist _ _)
  · intro call hs
    have hle : (f.content.take f.synced).count 0x0A ≤ (f.content.take kept).count 0x0A :=
      (List.take_sublist_take_left hk).count_le _
    exact List.take_subset_take_left f.calls hle hs
  · exact fun call hc => List.mem_of_mem_take hc

end KubeNeuron.Agent
