import KubeNeuron.Lib.Run
import KubeNeuron.Safety.Gate

/-!
# The flap detector

A pair of a target and a problem class that keeps resolving and opening again is handed to a human.
The detector keeps the counted reopens of a pair and its last resolution, and drops what can no
longer count whenever it is called about any pair. `reopen_exact` compares it with a definition over
the whole history of calls.
-/

namespace KubeNeuron.Safety

open Lib KubeNeuron.Types

/-- `FlapDetector`: what it keeps under the key of a pair. The times are instants; the threshold and
the window are fixed for a detector. -/
structure FlapDetector where
  reopens : KeyMap (List Int)
  pendingResolve : KeyMap Int

/-- A target and a problem class. -/
abbrev Pair : Type := Target × Str

def flapKey (lower : Str → Str) (p : Pair) : Str :=
  targetKey lower p.1 ++ lit "|" ++ p.2

/-- A time after the cutoff of a call. -/
abbrev live (window now t : Int) : Bool := now - window < t

namespace FlapDetector

variable (threshold window : Int) (f : FlapDetector) (now : Int) (key : Str)

/-- `gcLocked`. -/
def gc : FlapDetector :=
  { reopens := f.reopens.filter fun _ times => times.any (live window now)
    pendingResolve := f.pendingResolve.filter fun _ t => live window now t }

def recordResolved : FlapDetector :=
  if threshold ≤ 0 then f
  else gc window { f with pendingResolve := f.pendingResolve.insert key now } now

/-- The counted reopens of the pair after this one. -/
def kept : List Int :=
  let old := ((f.reopens.get? key).getD []).filter (live window now)
  if (f.pendingResolve.get? key).any (live window now) then old ++ [now] else old

def recordReopen : FlapDetector × Bool :=
  if threshold ≤ 0 then (f, false)
  else
    let kept := f.kept window now key
    (gc window
      { reopens := if kept = [] then f.reopens.erase key else f.reopens.insert key kept
        pendingResolve := f.pendingResolve.erase key } now,
      threshold ≤ kept.length)

/-- A map that was saved as a JSON object: the stray bytes of its keys are replaced. -/
def rekey {β : Type} (m : KeyMap β) : KeyMap β :=
  .ofEntries (m.entries.map fun e => (toValid e.1, e.2))

/-- `RestoreAndPersist` of a new detector, when every call saved what it left. -/
def restored : FlapDetector := gc window ⟨rekey f.reopens, rekey f.pendingResolve⟩ now

end FlapDetector

open FlapDetector

/-! ## Runs -/

inductive FlapOp where
  | resolved (p : Pair)
  | reopen (p : Pair)
  | restart

structure FlapWorld where
  detector : FlapDetector
  clock : Int
  /-- The calls so far with their times, the newest first. -/
  past : List (Int × FlapOp)

def FlapWorld.start (clock : Int) : FlapWorld := ⟨⟨.empty, .empty⟩, clock, []⟩

variable (lower : Str → Str) (threshold window : Int)

def FlapDetector.turn (f : FlapDetector) (now : Int) : FlapOp → FlapDetector
  | .resolved p => f.recordResolved threshold window now (flapKey lower p)
  | .reopen p => (f.recordReopen threshold window now (flapKey lower p)).1
  | .restart => f.restored window now

def flapNext (w : FlapWorld) (call : Int × FlapOp) : Option FlapWorld :=
  if w.clock ≤ call.1 then
    some ⟨w.detector.turn lower threshold window call.1 call.2, call.1, call :: w.past⟩
  else none

/-! ## The history -/

variable (same : Pair → Prop) [DecidablePred same]

/-- The latest resolution of the pair since its previous reopen. -/
def latestResolve : List (Int × FlapOp) → Option Int
  | [] => none
  | (_, .restart) :: past => latestResolve past
  | (t, .resolved q) :: past => if same q then some t else latestResolve past
  | (_, .reopen q) :: past => if same q then none else latestResolve past

/-- The times of the reopens of the pair that are counted. -/
def counted : List (Int × FlapOp) → List Int
  | [] => []
  | (t, .reopen q) :: past =>
    if same q ∧ (latestResolve same past).any (live window t) then counted past ++ [t]
    else counted past
  | _ :: past => counted past

/-- Those of them that lie in the window. -/
def recent (past : List (Int × FlapOp)) (now : Int) : List Int :=
  (counted window same past).filter (live window now)

/-- The keys that the detector holds are valid UTF-8 when it is restarted. -/
def ReadsBack (w : FlapWorld) : Int × FlapOp → Prop
  | (_, .restart) => (∀ e ∈ w.detector.reopens.entries, ValidUTF8 e.1) ∧
      ∀ e ∈ w.detector.pendingResolve.entries, ValidUTF8 e.1
  | _ => True

instance (w : FlapWorld) : (call : Int × FlapOp) → Decidable (ReadsBack w call)
  | (_, .restart) => inferInstanceAs (Decidable (_ ∧ _))
  | (_, .resolved _) => isTrue trivial
  | (_, .reopen _) => isTrue trivial

/-- The pairs that the detector takes for one. -/
abbrev SameKey (k : Str) (q : Pair) : Prop := flapKey lower q = k

/-- The detector has what can still count. -/
structure Tracks (w : FlapWorld) : Prop where
  seen : ∀ k, ∀ r ∈ latestResolve (SameKey lower k) w.past, r ≤ w.clock
  times : ∀ k, ((w.detector.reopens.get? k).getD []).filter (live window w.clock) =
    recent window (SameKey lower k) w.past w.clock
  pending : ∀ k, (w.detector.pendingResolve.get? k).filter (live window w.clock) =
    (latestResolve (SameKey lower k) w.past).filter (live window w.clock)

variable {lower threshold window} {f : FlapDetector} {w : FlapWorld} {now : Int} {k : Str}
  {past : List (Int × FlapOp)}

/-- What does not count now does not count later. -/
theorem Tracks.later (h : Tracks lower window w) (hn : w.clock ≤ now) :
    Tracks lower window ⟨w.detector, now, w.past⟩ := by
  have hl : ∀ x, (live window now x && live window w.clock x) = live window now x := by
    intro x
    cases hx : live window now x with
    | false => rfl
    | true =>
      rw [decide_eq_true_eq] at hx
      exact decide_eq_true (by omega)
  refine ⟨fun k r hr => Int.le_trans (h.seen k r hr) hn, fun k => ?_, fun k => ?_⟩
  · have htimes := congrArg (List.filter (live window now)) (h.times k)
    simp only [recent, List.filter_filter, hl] at htimes
    exact htimes
  · have hp := congrArg (Option.filter (live window now)) (h.pending k)
    simp only [Option.filter_filter, Bool.and_comm, hl] at hp
    exact hp

/-- What is dropped does not count. -/
theorem Tracks.gc (h : Tracks lower window ⟨f, now, past⟩) :
    Tracks lower window ⟨f.gc window now, now, past⟩ := by
  refine ⟨h.seen, fun k => ?_, fun k => ?_⟩
  · rw [← h.times k]
    show (((f.reopens.filter _).get? k).getD []).filter _ = _
    rw [KeyMap.get?_filter_eq]
    cases f.reopens.get? k with
    | none => rfl
    | some times =>
      rw [Option.filter_some]
      split_ifs with ha
      · rfl
      symm
      apply List.filter_eq_nil_iff.2
      intro x hx hl
      exact ha (List.any_eq_true.2 ⟨x, hx, hl⟩)
  · rw [← h.pending k]
    show ((f.pendingResolve.filter _).get? k).filter _ = _
    rw [KeyMap.get?_filter_eq, Option.filter_filter]
    simp only [Bool.and_self]

theorem rekey_of_valid {β : Type} {m : KeyMap β} (h : ∀ e ∈ m.entries, ValidUTF8 e.1) :
    rekey m = m := by
  have hmap : (m.entries.map fun e => (toValid e.1, e.2)) = m.entries := by
    refine (List.map_congr_left fun e he => ?_).trans (List.map_id _)
    rw [toValid_eq_self (h e he)]
    rfl
  rw [rekey, hmap, KeyMap.ofEntries_entries]

section

variable (h : Tracks lower window ⟨f, now, past⟩) {p : Pair} {key : Str}
  (hkey : flapKey lower p = key)
include h hkey

/-- What is kept counts: a resolution in the window is not later than the reopen. -/
theorem kept_eq :
    f.kept window now key = recent window (SameKey lower key) ((now, .reopen p) :: past) now := by
  have ha : (f.pendingResolve.get? key).any (live window now) =
      (latestResolve (SameKey lower key) past).any (live window now) := by
    rw [← Option.isSome_filter, ← Option.isSome_filter]
    exact congrArg Option.isSome (h.pending key)
  have hold := h.times key
  rw [kept, ha, recent, counted]
  simp only [SameKey, hkey, true_and]
  split_ifs with hc
  · obtain ⟨r, hr, hl⟩ := (Option.any_eq_true _ _).1 hc
    have hs : r ≤ now := h.seen key r hr
    have hn : live window now now = true := by
      rw [decide_eq_true_eq] at hl ⊢
      omega
    rw [List.filter_append, List.filter_cons_of_pos hn]
    exact congrArg (· ++ [now]) hold
  · exact hold

theorem Tracks.resolved : Tracks lower window
    ⟨{ f with pendingResolve := f.pendingResolve.insert key now }, now,
      (now, .resolved p) :: past⟩ := by
  refine ⟨fun k r hr => ?_, h.times, fun k => ?_⟩
  · rw [latestResolve] at hr
    split_ifs at hr
    · cases hr
      exact Int.le_refl _
    · exact h.seen k r hr
  rw [latestResolve, KeyMap.get?_insert]
  by_cases hk : k = key
  · rw [if_pos hk, if_pos (hkey.trans hk.symm)]
  · rw [if_neg hk, if_neg fun he => hk (he.symm.trans hkey)]
    exact h.pending k

theorem Tracks.reopened : Tracks lower window
    ⟨⟨if f.kept window now key = [] then f.reopens.erase key
      else f.reopens.insert key (f.kept window now key), f.pendingResolve.erase key⟩,
      now, (now, .reopen p) :: past⟩ := by
  have ht := kept_eq h hkey
  refine ⟨fun k r hr => ?_, fun k => ?_, fun k => ?_⟩
  · rw [latestResolve] at hr
    split_ifs at hr
    · cases hr
    · exact h.seen k r hr
  · by_cases hk : k = key
    · rw [hk]
      have hg : ((if f.kept window now key = [] then f.reopens.erase key
          else f.reopens.insert key (f.kept window now key)).get? key).getD
            [] = f.kept window now key := by
        split_ifs with hm
        · rw [KeyMap.get?_erase, if_pos rfl, hm]
          rfl
        · rw [KeyMap.get?_insert_self]
          rfl
      rw [hg, ht, recent, List.filter_filter]
      simp only [Bool.and_self]
    · have ho : ¬SameKey lower k p := fun he => hk (he.symm.trans hkey)
      rw [recent, counted]
      simp only [ho, false_and, if_false]
      split_ifs
      · rw [KeyMap.get?_erase, if_neg hk]
        exact h.times k
      · rw [KeyMap.get?_insert_of_ne _ _ hk]
        exact h.times k
  · dsimp only
    rw [latestResolve, KeyMap.get?_erase]
    by_cases hk : k = key
    · rw [if_pos hk, if_pos (hkey.trans hk.symm)]
    · rw [if_neg hk, if_neg fun he => hk (he.symm.trans hkey)]
      exact h.pending k

end

/-- **The detector answers by the history.** In every run from a new detector with a positive
threshold, in which a restart reads back the keys that were saved, a reopen is answered with true
exactly when enough counted reopens of its key lie in the window. -/
theorem reopen_exact {clock : Int} {calls : List (Int × FlapOp)} (hpos : 0 < threshold)
    (hrun : exec (flapNext lower threshold window) (.start clock) calls = some w)
    (hback : Along (flapNext lower threshold window) ReadsBack (.start clock) calls)
    (hnow : w.clock ≤ now) (p : Pair) :
    (w.detector.recordReopen threshold window now (flapKey lower p)).2 = true ↔
      threshold ≤ (recent window (SameKey lower (flapKey lower p))
        ((now, .reopen p) :: w.past) now).length := by
  have htracks : Tracks lower window w := by
    refine exec_invariant_along ?_ ?_ hback hrun
    · rintro w ⟨now, op⟩ w' h hback hnext
      obtain ⟨hclock, rfl⟩ := guarded hnext
      replace h := h.later hclock
      cases op with
      | resolved p =>
        rw [turn, recordResolved, if_neg (Int.not_le.mpr hpos)]
        exact (h.resolved rfl).gc
      | reopen p =>
        rw [turn, recordReopen, if_neg (Int.not_le.mpr hpos)]
        exact (h.reopened rfl).gc
      | restart =>
        rw [turn, restored, rekey_of_valid hback.1, rekey_of_valid hback.2]
        exact Tracks.gc { h with }
    · refine ⟨?_, fun _ => rfl, fun _ => rfl⟩
      intro k r hr
      cases hr
  rw [recordReopen, if_neg (Int.not_le.mpr hpos), decide_eq_true_eq,
    kept_eq (htracks.later hnow) rfl]

/-- A class of a target of the whole node. -/
def nodePair (node : Str) (cls : String) : Pair := (⟨node, [], 0, []⟩, lit cls)

/-- The second cycle within the window is flapping, across a restart. -/
theorem reopen_exact_second : ∃ w, exec (flapNext id 2 10) (.start 0)
      [(0, .resolved (nodePair [] "xid")), (1, .reopen (nodePair [] "xid")),
        (2, .resolved (nodePair [] "xid")), (3, .restart)] = some w ∧
    (w.detector.recordReopen 2 10 4 (flapKey id (nodePair [] "xid"))).2 = true := by
  refine reached (by decide +kernel) fun w hw (hrun : w.clock ≤ 4 ∧ 2 ≤ (recent 10
    (SameKey id (flapKey id (nodePair [] "xid")))
    ((4, .reopen (nodePair [] "xid")) :: w.past) 4).length) => ?_
  exact (reopen_exact (by decide) hw (by decide +kernel) hrun.1 _).mpr (Int.ofNat_le.mpr hrun.2)

/-- Two pairs that share a key are taken for one, and a restart loses a pair whose name is not
UTF-8. -/
theorem reopen_confused :
    (∃ w, exec (flapNext id 1 10) (.start 0) [(0, .resolved (nodePair (lit "n|a") "b"))] = some w ∧
      (w.detector.recordReopen 1 10 1 (flapKey id (nodePair (lit "n") "a|b"))).2 = true ∧
      recent 10 (· = nodePair (lit "n") "a|b")
        ((1, .reopen (nodePair (lit "n") "a|b")) :: w.past) 1 = []) ∧
    ∃ w, exec (flapNext id 1 10) (.start 0)
        [(0, .resolved (nodePair [0xFF] "b")), (1, .restart)] = some w ∧
      (w.detector.recordReopen 1 10 2 (flapKey id (nodePair [0xFF] "b"))).2 = false ∧
      recent 10 (· = nodePair [0xFF] "b")
        ((2, .reopen (nodePair [0xFF] "b")) :: w.past) 2 = [2] := by
  decide +kernel

end KubeNeuron.Safety
