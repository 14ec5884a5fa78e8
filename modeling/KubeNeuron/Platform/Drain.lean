import KubeNeuron.Lib.Names
import KubeNeuron.Lib.Process
import KubeNeuron.Lib.StrMap

/-!
# Draining a node

`Drain` refuses a node with unmanaged pods unless it is forced, evicts what it may evict, tries the
evictions that a disruption budget blocks again, and waits until a listing shows nothing left to
evict. The API server, the clock and the ticker answer its calls as they please. `opts.Timeout` only
moves the deadline that those answers know. The two loops make at most `rounds` rounds.

What the drain skips while it waits includes the pods that no controller owns. So its success says
that the node is empty just when none of those is there (`drained_iff`). The grace a pod declares is
compared in 64-bit nanoseconds (`evictionSeconds_iff`).
-/

namespace KubeNeuron.Platform

open Lib

/-! ## Pods -/

/-- `other` holds the texts that name no phase. -/
inductive PodPhase where
  | pending
  | running
  | succeeded
  | failed
  | other (text : Str)
  deriving DecidableEq

/-- The part of an owner reference that a drain reads. -/
structure OwnerReference where
  kind : Str
  controller : Option Bool

/-- The part of a pod that a drain reads. -/
structure Pod where
  namespaced : Str
  name : Str
  phase : PodPhase
  annotations : StrMap
  ownerReferences : List OwnerReference
  deletionTimestamp : Option Int
  terminationGracePeriodSeconds : Option Int64

/-- The options of a drain but for its timeout. -/
structure DrainOptions where
  gracePeriod : Int64
  force : Bool

/-- What keeps a pod out of a drain. -/
inductive DrainExclusion where
  | evictable
  | terminal
  | infrastructure
  | unmanaged

/-- The drain may evict the pod. -/
def DrainExclusion.eligible (force : Bool) : DrainExclusion → Bool
  | .evictable => true
  | .unmanaged => force
  | _ => false

namespace Pod

/-- How messages name a pod. -/
def key (pod : Pod) : Str := pod.namespaced ++ lit "/" ++ pod.name

/-- The pod has ended for good. -/
def finished (pod : Pod) : Bool := pod.phase = .succeeded ∨ pod.phase = .failed

/-- A static pod, which the API server only mirrors. -/
def isMirror (pod : Pod) : Bool := (pod.annotations.get? (lit "kubernetes.io/config.mirror")).isSome

/-- `GetControllerOf`: the first owner that is marked as the controller. -/
def controllerOf (pod : Pod) : Option OwnerReference :=
  pod.ownerReferences.find? fun ref => ref.controller = some true

/-- Nothing would start the pod again elsewhere. -/
def unmanagedPod (pod : Pod) : Bool :=
  if pod.finished then false
  else if pod.isMirror then false
  else if pod.deletionTimestamp.isSome then false
  else pod.controllerOf.isNone

/-- Unlike in `unmanagedPod`, a terminating pod can be unmanaged here. -/
def drainExclusion (pod : Pod) : DrainExclusion :=
  if pod.finished then .terminal
  else if pod.isMirror then .infrastructure
  else match pod.controllerOf with
    | some ref => if ref.kind = lit "DaemonSet" then .infrastructure else .evictable
    | none => .unmanaged

/-- The pod is neither evicted nor waited for. -/
def skipDuringDrain (pod : Pod) (force : Bool) : Bool := !pod.drainExclusion.eligible force

/-- A finished pod, a mirror pod or the pod of a DaemonSet. -/
def Excused (pod : Pod) : Prop :=
  pod.finished ∨ pod.isMirror ∨ ∃ ref, pod.controllerOf = some ref ∧ ref.kind = lit "DaemonSet"

/-- A drain skips the excused pods, and the bare ones unless it is forced. -/
theorem skipDuringDrain_iff {pod : Pod} {force : Bool} :
    pod.skipDuringDrain force ↔ pod.Excused ∨ pod.controllerOf = none ∧ force = false := by
  unfold skipDuringDrain drainExclusion Excused
  by_cases hfin : pod.finished
  · simp [hfin, DrainExclusion.eligible]
  by_cases hmirror : pod.isMirror
  · simp [hfin, hmirror, DrainExclusion.eligible]
  cases hctl : pod.controllerOf with
  | none => simp [hfin, hmirror, DrainExclusion.eligible]
  | some ref =>
    by_cases hkind : ref.kind = lit "DaemonSet" <;>
      simp [hfin, hmirror, hkind, DrainExclusion.eligible]

end Pod

/-! ## The grace of an eviction -/

/-- One second in nanoseconds. -/
def second : Int64 := 1000000000

/-- The part of the time left that no grace may use. -/
def evictionGraceMargin : Int64 := 30 * second

/-- The grace of a pod that declares none. -/
def corev1DefaultGracePeriod : Int64 := 30 * second

/-- The grace that overrides the one of the pod, from the time left until the deadline. -/
def evictionGrace (pod : Pod) (opts : DrainOptions) (left : Option Int64) : Option Int64 :=
  if 0 < opts.gracePeriod then some opts.gracePeriod
  else match left with
    | none => none
    | some left =>
      let budget := if left - evictionGraceMargin < 0 then 0 else left - evictionGraceMargin
      let own := match pod.terminationGracePeriodSeconds with
        | some seconds => seconds * second
        | none => corev1DefaultGracePeriod
      if own ≤ budget then none
      else if budget < corev1DefaultGracePeriod then none
      else some budget

/-- The seconds that `evictPod` puts into the eviction. -/
def evictionSeconds (pod : Pod) (opts : DrainOptions) (left : Option Int64) : Option Int64 :=
  (evictionGrace pod opts left).map (· / second)

/-- What an eviction should ask for: nothing if the grace fits or the budget is below the default,
and else the whole budget. -/
def graceWanted (seconds budget : Int) : Option Int :=
  if seconds * 1000000000 ≤ budget ∨ budget < 30000000000 then none else some (budget / 1000000000)

variable {opts : DrainOptions} {g b : Int64}

/-- The eviction compares the budget with the wrapped product. -/
theorem evictionSeconds_eq (hover : opts.gracePeriod ≤ 0) (pod : Pod) :
    (evictionSeconds { pod with terminationGracePeriodSeconds := some g } opts
      (some (b + evictionGraceMargin))).map Int64.toInt =
    if (g * second).toInt ≤ max b.toInt 0 ∨ b.toInt < 30000000000 then none
    else some (b.toInt / 1000000000) := by
  have hdef : corev1DefaultGracePeriod.toInt = 30000000000 := by decide
  have hbud : (if b < 0 then 0 else b).toInt = max b.toInt 0 := by
    have hz : (0 : Int64).toInt = 0 := rfl
    split_ifs with hneg
    all_goals rw [Int64.lt_iff_toInt_lt] at hneg; omega
  rw [evictionSeconds, evictionGrace, if_neg (Int64.not_lt.2 hover)]
  simp only [Int64.add_sub_cancel]
  generalize (if b < 0 then 0 else b) = budget at hbud ⊢
  simp only [Int64.le_iff_toInt_le, Int64.lt_iff_toInt_lt, hbud]
  generalize (g * second).toInt = own
  by_cases hf : own ≤ max b.toInt 0
  · rw [if_pos hf, if_pos (.inl hf)]
    rfl
  by_cases hlow : b.toInt < 30000000000
  · rw [if_neg hf, if_pos (by omega), if_pos (.inr hlow)]
    rfl
  -- the budget is not negative, so the quotient is the whole number of seconds in it
  have hquot : (budget / second).toInt = b.toInt / 1000000000 := by
    have hmax := Int64.toInt_lt b
    have hb : budget.toInt = b.toInt := by omega
    have hsec : second.toInt = 1000000000 := by decide
    rw [Int64.toInt_div, hb, hsec, Int.tdiv_eq_ediv_of_nonneg (by omega)]
    exact Int.bmod_eq_of_le (by omega) (by omega)
  rw [if_neg hf, if_neg (by omega), if_neg (by omega), Option.map_some, Option.map_some, hquot]

/-- The largest budget: `time.Until` gives no more than the largest duration. -/
def maxBudget : Int64 := 9223372006854775807

/-- The nanoseconds of a grace, as the product wraps. -/
def wrappedNanos (g : Int64) : Int := (g.toInt * 1000000000).bmod 18446744073709551616

/-- **An eviction asks for the right grace**, for every budget, just when the nanoseconds of the
grace do not wrap, or wrap to more than every budget, or those of a negative grace to no more than
the default. -/
theorem evictionSeconds_iff (hover : opts.gracePeriod ≤ 0) (pod : Pod) (g : Int64) :
    (∀ b : Int64, b ≤ maxBudget →
      (evictionSeconds { pod with terminationGracePeriodSeconds := some g } opts
        (some (b + evictionGraceMargin))).map Int64.toInt = graceWanted g.toInt b.toInt ∧
      ∀ secs ∈ evictionSeconds { pod with terminationGracePeriodSeconds := some g } opts
        (some (b + evictionGraceMargin)), 30 ≤ secs) ↔
    0 ≤ g.toInt ∧ g.toInt ≤ 9223372036 ∨ 9223372036 < g.toInt ∧ maxBudget.toInt < wrappedNanos g ∨
      g.toInt < 0 ∧ wrappedNanos g ≤ 30000000000 := by
  have hwrap : (g * second).toInt = wrappedNanos g := Int64.toInt_mul g second
  have hmax : maxBudget.toInt = 9223372006854775807 := by decide
  have hplain : 0 ≤ g.toInt → g.toInt ≤ 9223372036 → wrappedNanos g = g.toInt * 1000000000 :=
    fun _ _ => Int.bmod_eq_of_le (by omega) (by omega)
  constructor
  · intro h
    -- the largest budget and the smallest one that may be asked for are the two that decide
    have htop := (h maxBudget (Int64.le_refl _)).1
    have hlow := (h corev1DefaultGracePeriod (by decide)).1
    have hdef : corev1DefaultGracePeriod.toInt = 30000000000 := by decide
    rw [evictionSeconds_eq hover pod, graceWanted] at htop hlow
    split_ifs at htop hlow <;> omega
  · intro hgrace b hb
    rw [Int64.le_iff_toInt_le] at hb
    have heq := evictionSeconds_eq (g := g) (b := b) hover pod
    refine ⟨?_, fun secs hsecs => ?_⟩
    · rw [heq, graceWanted]
      split_ifs <;> first | rfl | omega
    rw [Option.mem_def.mp hsecs, Option.map_some] at heq
    rw [Int64.le_iff_toInt_le]
    have hthirty : (30 : Int64).toInt = 30 := rfl
    split_ifs at heq with hnone
    have := Option.some.inj heq
    omega

/-- A running pod that nothing controls. -/
def barePod : Pod := ⟨lit "team", lit "debug", .running, StrMap.empty, [], none, none⟩

/-- A grace of 300 years wraps, and fits into ten minutes. -/
theorem evictionSeconds_wraps : ¬ ∀ (pod : Pod) (opts : DrainOptions) (g b : Int64),
    opts.gracePeriod ≤ 0 →
    (evictionSeconds { pod with terminationGracePeriodSeconds := some g } opts
      (some (b + evictionGraceMargin))).map Int64.toInt = graceWanted g.toInt b.toInt := by
  intro h
  have hbad := h barePod ⟨0, false⟩ 9460800000 (600 * second) (by decide)
  revert hbad
  decide +kernel

/-- An hour is cut to the ten minutes that are left. -/
theorem evictionSeconds_hour : (evictionSeconds
    { barePod with terminationGracePeriodSeconds := some 3600 } ⟨0, false⟩
      (some (600 * second + evictionGraceMargin))).map Int64.toInt =
        graceWanted 3600 600000000000 := by
  have hcond : DrainOptions.gracePeriod ⟨0, false⟩ ≤ 0 ∧ (3600 : Int64).toInt ≤ 9223372036 ∧
    0 ≤ (3600 : Int64).toInt := by decide
  exact (((evictionSeconds_iff hcond.1 barePod 3600).mpr (.inl hcond.2.symm)) (600 * second)
    (by decide)).1

/-! ## The drain -/

/-- What a drain asks of the API server, the clock and the ticker. -/
inductive DrainCall where
  | nodePods
  | untilDeadline
  | evict (pod : Pod) (seconds : Option Int64)
  | tick

/-- `tooManyRequests` is the answer of a disruption budget. -/
inductive EvictAnswer where
  | evicted
  | notFound
  | tooManyRequests
  | error (text : Str)

/-- What a call is answered with. The ticker answers with the error of a context that is done. -/
@[reducible] def DrainCall.Answer : DrainCall → Type
  | .nodePods => Except Str (List Pod)
  | .untilDeadline => Option Int64
  | .evict _ _ => EvictAnswer
  | .tick => Option Str

/-- `outOfRounds` ends only runs of the model. -/
inductive DrainError where
  | error (text : Str)
  | outOfRounds

/-- A drain is a tree of calls. -/
abbrev DrainM := Prog DrainCall DrainCall.Answer DrainError

def DrainM.throw {α : Type} (text : Str) : DrainM α := .fail (.error text)

/-- List the pods of the node. -/
def nodePods : DrainM (Except Str (List Pod)) := .call .nodePods .done

/-- Wait for the ticker, or for the end of the context. -/
def tick : DrainM (Option Str) := .call .tick .done

/-- Evict a pod with the grace that the time left allows. -/
def evictPod (opts : DrainOptions) (pod : Pod) : DrainM EvictAnswer :=
  .call .untilDeadline fun left => .call (.evict pod (evictionSeconds pod opts left)) .done

/-- Evict one pod after another. The pods whose eviction a disruption budget blocks remain. -/
def evictPods (opts : DrainOptions) : List Pod → DrainM (List Pod)
  | [] => .done []
  | pod :: pods => do
    match ← evictPod opts pod with
    | .evicted => evictPods opts pods
    | .notFound => evictPods opts pods
    | .tooManyRequests => do
      let blocked ← evictPods opts pods
      pure (pod :: blocked)
    | .error e => .throw (lit "evicting " ++ pod.key ++ lit ": " ++ e)

/-- Try the blocked evictions again at every tick. -/
def retryBlocked (node : Str) (opts : DrainOptions) : Nat → List Pod → DrainM Unit
  | _, [] => .done ()
  | 0, _ => .fail .outOfRounds
  | rounds + 1, blocked => do
    match ← tick with
    | some e => .throw (lit "drain of " ++ node ++ lit ": " ++ natText blocked.length ++
        lit " evictions still blocked by PodDisruptionBudgets: " ++ e)
    | none => do
      let still ← evictPods opts blocked
      retryBlocked node opts rounds still

/-- List the pods until nothing is left that the drain may evict. -/
def waitDrained (node : Str) (opts : DrainOptions) : Nat → DrainM Unit
  | 0 => .fail .outOfRounds
  | rounds + 1 => do
    match ← nodePods with
    | .error e => .throw e
    | .ok remaining =>
      let n := (remaining.filter fun pod => !pod.skipDuringDrain opts.force).length
      if n = 0 then .done ()
      else do
        match ← tick with
        | some e => .throw (lit "drain of " ++ node ++ lit " timed out with " ++ natText n ++
            lit " pods remaining: " ++ e)
        | none => waitDrained node opts rounds

/-- Bare pods stop a drain that is not forced before anything is evicted. -/
def drain (node : Str) (opts : DrainOptions) (rounds : Nat) : DrainM Unit := do
  match ← nodePods with
  | .error e => .throw e
  | .ok pods =>
    let unmanaged := sortStrings ((pods.filter Pod.unmanagedPod).map Pod.key)
    if unmanaged ≠ [] ∧ opts.force = false then
      .throw (lit "drain of " ++ node ++ lit ": " ++ natText unmanaged.length ++
        lit " pod(s) have no controller and cannot be evicted (" ++
        List.intercalate (lit ", ") unmanaged ++
        lit "); nothing would reschedule them, so this node cannot be drained — nothing was evicted")
    else do
      let blocked ← evictPods opts (pods.filter fun pod => !pod.skipDuringDrain opts.force)
      retryBlocked node opts rounds blocked
      waitDrained node opts rounds

/-! ## What success says -/

/-- The calls and their answers, the newest first. -/
abbrev DrainHistory := List (Event DrainCall DrainCall.Answer)

/-- The pods that a call listed. -/
def listedPods : Event DrainCall DrainCall.Answer → Option (List Pod)
  | ⟨.nodePods, answer⟩ => answer.toOption
  | _ => none

/-- The pods of the newest listing that did not fail. -/
def lastListing (h : DrainHistory) : Option (List Pod) := h.findSome? listedPods

variable {node : Str}

/-- The wait ends with a listing of pods that the drain skips. -/
theorem waitDrained_obeys (rounds : Nat) (h : DrainHistory) :
    obeys (fun _ _ => True) (waitDrained node opts rounds)
      (fun _ h => ∃ pods, lastListing h = some pods ∧ ∀ pod ∈ pods, pod.skipDuringDrain opts.force)
      (fun _ _ => True) h := by
  induction rounds generalizing h with
  | zero => trivial
  | succ rounds ih =>
    refine ⟨trivial, fun answer => ?_⟩
    cases answer with
    | error => trivial
    | ok remaining =>
      change obeys _ (if _ then _ else _) _ _ _
      split_ifs with hn
      · -- the wait ends at the listing that is empty but for what the drain skips
        refine ⟨remaining, rfl, fun pod hpod => ?_⟩
        simpa using List.filter_eq_nil_iff.1 (List.length_eq_zero_iff.1 hn) pod hpod
      refine ⟨trivial, fun tick => ?_⟩
      cases tick with
      | some => trivial
      | none => exact ih _

/-- **Success means an empty node, just when the drain was forced or every pod that its last listing
shows running or terminating is finished, a mirror or controlled.** -/
theorem drained_iff (node : Str) (opts : DrainOptions) (rounds : Nat) :
    obeys (fun _ _ => True) (drain node opts rounds) (fun _ h => ∃ pods, lastListing h = some pods ∧
        ((∀ pod ∈ pods, pod.phase = .running ∨ pod.deletionTimestamp.isSome → pod.Excused) ↔
          opts.force = true ∨ ∀ pod ∈ pods, pod.phase = .running ∨ pod.deletionTimestamp.isSome →
            pod.finished ∨ pod.isMirror ∨ pod.controllerOf.isSome))
      (fun _ _ => True) [] := by
  refine ⟨trivial, fun answer => ?_⟩
  cases answer with
  | error => trivial
  | ok pods =>
    change obeys _ (if _ then _ else _) _ _ _
    split_ifs
    · trivial
    refine obeys_seq (obeys_trivial _ _) (fun _ _ _ _ => ?_) fun _ _ _ _ => trivial
    refine obeys_seq (obeys_trivial _ _) (fun _ _ _ _ => ?_) fun _ _ _ _ => trivial
    apply obeys_mono (waitDrained_obeys rounds _) ?_ fun _ _ => id
    rintro _ _ ⟨last, hlast, hskip⟩
    refine ⟨last, hlast, ?_, ?_⟩
    · intro hexc
      refine .inr fun pod hpod hhere => ?_
      obtain hfin | hmirror | ⟨ref, href, -⟩ := hexc pod hpod hhere
      · exact .inl hfin
      · exact .inr (.inl hmirror)
      · exact .inr (.inr (by rw [href]; rfl))
    intro hcond pod hpod hhere
    obtain hexc | ⟨hbare, hforce⟩ := Pod.skipDuringDrain_iff.mp (hskip pod hpod)
    · exact hexc
    obtain hforced | hctl := hcond
    · simp [hforce] at hforced
    obtain hfin | hmirror | hsome := hctl pod hpod hhere
    · exact .inl hfin
    · exact .inr (.inl hmirror)
    · simp [hbare] at hsome

/-- A bare pod that starts after the first listing is still there when the drain succeeds. -/
theorem drained_with_bare_pod : ¬ ∀ (node : Str) (opts : DrainOptions) (rounds : Nat),
    obeys (fun _ _ => True) (drain node opts rounds) (fun _ h => ∃ pods, lastListing h = some pods ∧
        ∀ pod ∈ pods, pod.phase = .running ∨ pod.deletionTimestamp.isSome → pod.Excused)
      (fun _ _ => True) [] := by
  intro h
  obtain ⟨pods, hpods, hall⟩ := ((h (lit "n1") ⟨0, false⟩ 1).2 (.ok [])).2 (.ok [barePod])
  cases hpods
  obtain hfin | hmirror | ⟨ref, href, -⟩ := hall barePod List.mem_cons_self (.inl rfl)
  · cases hfin
  · cases hmirror
  · cases href

end KubeNeuron.Platform
