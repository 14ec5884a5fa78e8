import KubeNeuron.Lib.Run
import KubeNeuron.Lib.Table
import KubeNeuron.Lib.Text

/-!
# The degraded taint

The taints of a node are one list, and whoever writes one of them writes them all. `rewriteTaints`
reads the node, computes the list it wants and sends a patch that tests the resource version it has
read. A patch refused for that is computed again from a new reading. `TaintWorld` interleaves such
calls with each other and with everybody else's writes: what lands was computed from the list that
it replaces (`rewrites_change_only_degraded`).
-/

namespace KubeNeuron.Platform

open Lib

def degradedTaintKey : Str := lit "kubeneuron.io/degraded"

/-- How many patches a call sends at most. -/
def taintPatchAttempts : Nat := 4

structure Taint where
  key : Str
  value : Str
  effect : Str
  timeAdded : Option Int
  deriving DecidableEq

/-- The taint is one of this product. -/
def Taint.degraded (t : Taint) : Bool := t.key = degradedTaintKey

inductive TaintCall where
  | applyDegradedTaint (value effect : Str)
  | removeDegradedTaint

/-- The loop of `ApplyDegradedTaint`, with the taints it has kept so far. -/
def applyLoop (desired : Taint) (out : List Taint) : List Taint → Option (List Taint)
  | [] => some (out ++ [desired])
  | taint :: rest =>
    if taint.degraded then
      -- exactly right: nothing is written
      if taint.value = desired.value ∧ taint.effect = desired.effect then none
      else applyLoop desired out rest
    else applyLoop desired (out ++ [taint]) rest

/-- The list that a call wants in place of the current one, if it wants another. -/
def TaintCall.mutate (current : List Taint) : TaintCall → Option (List Taint)
  | .applyDegradedTaint value effect => applyLoop ⟨degradedTaintKey, value, effect, none⟩ [] current
  | .removeDegradedTaint =>
    let out := current.filter fun t => !t.degraded
    if out.length = current.length then none else some out

/-- Only degraded taints differ, and at most one of them is left. -/
def OnlyDegraded (before after : List Taint) : Prop :=
  (after.filter fun t => !t.degraded) = (before.filter fun t => !t.degraded) ∧
    (after.filter Taint.degraded).length ≤ 1

theorem applyLoop_eq {desired : Taint} {out rest new : List Taint}
    (h : applyLoop desired out rest = some new) :
    new = out ++ (rest.filter fun t => !t.degraded) ++ [desired] := by
  induction rest generalizing out with
  | nil =>
    cases h
    simp
  | cons taint rest ih =>
    rw [applyLoop] at h
    split_ifs at h with hd
    · rw [ih h]
      simp [hd]
    · rw [ih h]
      simp [hd]

theorem TaintCall.mutate_only {call : TaintCall} {current new : List Taint}
    (h : call.mutate current = some new) : OnlyDegraded current new := by
  cases call with
  | applyDegradedTaint value effect =>
    rw [applyLoop_eq h]
    simp [OnlyDegraded, Taint.degraded, List.filter_filter]
  | removeDegradedTaint =>
    obtain ⟨-, rfl⟩ := unguarded h
    simp [OnlyDegraded, List.filter_filter]

/-! ## Interleavings -/

/-- A call on its way: the attempts it has left, and the version and the taints it has read. -/
structure Rewrite where
  call : TaintCall
  left : Nat
  seen : Option (Nat × List Taint)

/-- The node, the calls on their way, and what these have written (the newest first): the list
before and after each write. -/
structure TaintWorld where
  version : Nat
  taints : List Taint
  calls : List Rewrite
  writes : List (List Taint × List Taint)

def TaintWorld.start (taints : List Taint) : TaintWorld := ⟨0, taints, [], []⟩

/-- The steps. A patch lands or not, and its answer lets the call try again or ends it. A call that
is abandoned has failed or was lost with its process. -/
inductive TaintOp where
  | begin (call : TaintCall)
  | get (i : Nat)
  | patch (i : Nat) (lands again : Bool)
  | abandon (i : Nat)
  | other (taints : List Taint)

/-- The calls after the answer to a patch of call `i`. -/
def TaintWorld.answered (w : TaintWorld) (i : Nat) (r : Rewrite) (again : Bool) : List Rewrite :=
  if again ∧ 1 < r.left then w.calls.set i { r with left := r.left - 1, seen := none }
  else w.calls.eraseIdx i

/-- Every write of the node raises its version. A patch lands only on the version it tests. -/
def taintNext (w : TaintWorld) : TaintOp → Option TaintWorld
  | .begin call => some { w with calls := w.calls ++ [⟨call, taintPatchAttempts, none⟩] }
  | .get i => do
    let r ← w.calls[i]?
    if r.seen = none then
      match r.call.mutate w.taints with
      | none => some { w with calls := w.calls.eraseIdx i }
      | some _ =>
        some { w with calls := w.calls.set i { r with seen := some (w.version, w.taints) } }
    else none
  | .patch i lands again => do
    let r ← w.calls[i]?
    let (version, seen) ← r.seen
    let desired ← r.call.mutate seen
    if lands then
      if version = w.version then
        some ⟨w.version + 1, desired, w.answered i r again, (w.taints, desired) :: w.writes⟩
      else none
    else some { w with calls := w.answered i r again }
  | .abandon i => some { w with calls := w.calls.eraseIdx i }
  | .other taints => some { w with version := w.version + 1, taints }

/-- A reading of the current version is the current list. -/
structure TaintWorld.Inv (w : TaintWorld) : Prop where
  seen : ∀ r ∈ w.calls, ∀ version taints, r.seen = some (version, taints) →
    version ≤ w.version ∧ (version = w.version → taints = w.taints)
  writes : ∀ p ∈ w.writes, OnlyDegraded p.1 p.2

variable {w : TaintWorld}

theorem TaintWorld.mem_answered (i : Nat) (r : Rewrite) (again : Bool) :
    ∀ s ∈ w.answered i r again, s ∈ w.calls ∨ s.seen = none := by
  rw [answered]
  split_ifs
  · exact mem_set_or rfl
  · exact fun s hs => .inl (List.mem_of_mem_eraseIdx hs)

theorem TaintWorld.Inv.carry (h : w.Inv) {calls : List Rewrite}
    (hc : ∀ s ∈ calls, s ∈ w.calls ∨ s.seen = none) :
    TaintWorld.Inv { w with calls } := by
  refine ⟨fun s hs version taints heq => ?_, h.writes⟩
  rcases hc s hs with hold | hn
  · exact h.seen s hold version taints heq
  · rw [hn] at heq
    cases heq

/-- A write of the node outdates every reading. -/
theorem TaintWorld.Inv.write (h : w.Inv) (taints : List Taint)
    {writes : List (List Taint × List Taint)}
    (hw : ∀ p ∈ writes, OnlyDegraded p.1 p.2) :
    TaintWorld.Inv ⟨w.version + 1, taints, w.calls, writes⟩ := by
  refine ⟨fun r hr version seen heq => ?_, hw⟩
  have hle := (h.seen r hr version seen heq).1
  exact ⟨Nat.le_succ_of_le hle, fun hv => absurd hv (by simp only; omega)⟩

theorem taintNext_inv (w : TaintWorld) (op : TaintOp) (w' : TaintWorld) (h : w.Inv)
    (hn : taintNext w op = some w') : w'.Inv := by
  have herase : ∀ i, ∀ s ∈ w.calls.eraseIdx i, s ∈ w.calls ∨ s.seen = none :=
    fun i s hs => .inl (List.mem_of_mem_eraseIdx hs)
  cases op with
  | begin call =>
    cases hn
    exact h.carry (forall_mem_insert (fun s hs => .inl hs) (.inr rfl))
  | get i =>
    obtain ⟨r, hr, hn⟩ := Option.bind_eq_some_iff.1 hn
    split_ifs at hn
    split at hn
    · cases hn
      exact h.carry (herase i)
    cases hn
    refine ⟨fun s hs version taints heq => ?_, h.writes⟩
    rcases List.mem_or_eq_of_mem_set hs with hold | rfl
    · exact h.seen s hold version taints heq
    · cases heq
      exact ⟨Nat.le_refl _, fun _ => rfl⟩
  | patch i lands again =>
    obtain ⟨r, hr, hn⟩ := Option.bind_eq_some_iff.1 hn
    obtain ⟨⟨version, seen⟩, hseen, hn⟩ := Option.bind_eq_some_iff.1 hn
    obtain ⟨desired, hm, hn⟩ := Option.bind_eq_some_iff.1 hn
    have hcalls := h.carry (TaintWorld.mem_answered i r again)
    split_ifs at hn with _ hv
    · -- the version is the one that was read, so the list that is replaced was read too
      cases hn
      have heq := (h.seen r (List.mem_of_getElem? hr) version seen hseen).2 hv
      rw [heq] at hm
      exact hcalls.write desired (List.forall_mem_cons.2 ⟨TaintCall.mutate_only hm, h.writes⟩)
    · cases hn
      exact hcalls
  | abandon i =>
    cases hn
    exact h.carry (herase i)
  | other taints =>
    cases hn
    exact h.write taints h.writes

/-- **Every write of this product changes only the degraded taint**, in every interleaving with
other writers: the other taints of the list it replaces stand in the list it writes, in their order,
with at most one degraded taint. -/
theorem rewrites_change_only_degraded {taints : List Taint} {ops : List TaintOp}
    (h : exec taintNext (.start taints) ops = some w) :
    ∀ p ∈ w.writes, OnlyDegraded p.1 p.2 := by
  have hs : (TaintWorld.start taints).Inv :=
    ⟨by simp [TaintWorld.start], by simp [TaintWorld.start]⟩
  exact (exec_invariant taintNext_inv hs h).writes

/-- Somebody else taints the node between the reading and the patch of an application. -/
theorem rewrites_change_only_degraded_raced : ∃ w,
    exec taintNext (.start [])
      [.begin (.applyDegradedTaint (lit "true") (lit "NoSchedule")), .get 0,
        .other [⟨lit "team", [], lit "NoExecute", none⟩], .patch 0 false true, .get 0,
        .patch 0 true false] = some w ∧
      w.writes.length = 1 ∧ ∀ p ∈ w.writes, OnlyDegraded p.1 p.2 := by
  refine reached (P := fun w => w.writes.length = 1) (by decide +kernel) ?_
  exact fun w hw hl => ⟨hl, rewrites_change_only_degraded hw⟩

end KubeNeuron.Platform
