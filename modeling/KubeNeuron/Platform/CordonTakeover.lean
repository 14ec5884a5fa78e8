import KubeNeuron.Platform.CordonOwners

/-!
# Takeovers

The release of an owner set tests in its patch that there is no takeover. The release of a cordon
without owners looks for one when it reads the node, and hands on to a release by reason, which
neither looks nor tests: one that arrives in between is overrun (`late_takeover_is_overrun`).
-/

namespace KubeNeuron.Platform

open Lib

def Call.byReason : Call → Bool
  | .uncordonIfReason _ => true
  | _ => false

/-- No release by reason starts on a node that was taken over, and nobody takes the node over while
one is on its way. -/
def CordonWorld.heeds (w : CordonWorld) : CordonOp → Bool
  | .begin call => !call.byReason || (w.node.get .handoff).isNone
  | .outside (.annotate key _) =>
    toValid key ≠ Mark.handoff.key || w.flights.all fun f => !f.call.byReason
  | _ => true

/-- What every such run keeps. -/
structure TakeoverInv (w : CordonWorld) : Prop where
  flights : ∀ f ∈ w.flights, f.call.byReason = true → w.node.get .handoff = none
  writes : ∀ l ∈ w.writes, l.uncordons → l.before.get .handoff = none

variable {w w' : CordonWorld} {op : CordonOp} {seen n n' : KubeNode}

/-- **One patch.** Only the release by reason makes a node schedulable that was taken over. -/
theorem Landing.uncordons_handoff {call : Call} (h : Landing seen n n' call)
    (hcord : n.unschedulable = true) (hf : n'.unschedulable = false) :
    call.byReason = true ∨ n.get .handoff = none := by
  -- every other patch leaves the flag alone or sets it
  have hk : n'.unschedulable ≠ n.unschedulable := by
    rw [hcord, hf]
    decide
  cases h with
  | joined _ _ _ _ hg =>
    rw [hg] at hf
    cases hf
  | shrunk _ _ _ _ _ _ _ hg | handedOff _ _ _ _ _ _ _ _ hg | cleared _ _ _ _ _ hg
  | markedOwner _ _ _ _ _ _ _ hg | markedReason _ _ _ _ hg => exact absurd hg hk
  | emptied _ _ _ _ _ _ _ hhand =>
    exact .inr hhand
  | uncordoned => exact .inl rfl

theorem handoff_of_outside {o : Outside} {f : Flight} (hheeds : w.heeds (.outside o) = true)
    (hf : f ∈ w.flights) (hw : f.call.byReason = true) (he : w.node.get .handoff = none) :
    (o.apply w.node).get .handoff = none := by
  cases o with
  | annotate key value =>
    have hk : Mark.handoff.key ≠ toValid key := by
      intro hk
      simp only [CordonWorld.heeds, hk, ne_eq, not_true_eq_false, decide_false, Bool.false_or,
        List.all_eq_true, Bool.not_eq_true'] at hheeds
      rw [hheeds f hf] at hw
      cases hw
    refine (w.node.annotations.get?_insert key value _).trans ?_
    rw [if_neg hk]
    exact he
  | unannotate key =>
    refine (w.node.annotations.get?_erase key _).trans ?_
    split_ifs
    · rfl
    · exact he
  | schedule => exact he

theorem TakeoverInv.next (h : TakeoverInv w) (hheeds : w.heeds op = true)
    (hn : cordonNext w op = some w') : TakeoverInv w' := by
  have he := cordonEffect_of_next hn
  have hm : ∀ f ∈ w'.flights, f.call.byReason = true → w.node.get .handoff = none := by
    intro f hf hw
    cases flightFrom_of_effect he hf with
    | kept g hg hc => exact h.flights g hg (hc ▸ hw)
    | begun hop =>
      subst hop
      simpa [CordonWorld.heeds, hw] using hheeds
    | redirected _ _ hp =>
      obtain ⟨_, _, -, -, -, hfree, -⟩ := plan_again hp
      exact hfree
  cases he with
  | @landed i f seen after ops retries fate hfate hf hs hp hpat =>
    have hlanding := landing_of_patch hp hpat
    refine ⟨fun g hg hw => hlanding.handoff.trans (hm g hg hw), fun l hl hl' => ?_⟩
    obtain _ | ⟨_, hl⟩ := hl
    · rcases hlanding.uncordons_handoff hl'.1 hl'.2 with hw | hfree
      · exact h.flights f (List.mem_of_getElem? hf) hw
      · exact hfree
    · exact h.writes l hl hl'
  | @failed i f retries fate hf =>
    have hd : (w.fail i f retries).node = w.node := by
      rw [CordonWorld.fail]
      split_ifs <;> rfl
    have hwr : (w.fail i f retries).writes = w.writes := by
      rw [CordonWorld.fail]
      split_ifs <;> rfl
    exact ⟨hd ▸ hm, hwr ▸ h.writes⟩
  | outside =>
    exact ⟨fun f hf hw => handoff_of_outside hheeds hf hw (h.flights f hf hw), h.writes⟩
  | _ => exact ⟨hm, h.writes⟩

/-- **A takeover keeps the node cordoned.** In every run in which no release by reason starts on a
node that was taken over, and nobody takes the node over while one is on its way, no patch of ours
makes the node schedulable while the takeover is there. -/
theorem takeover_is_respected {n : KubeNode} {ops : List CordonOp} {w : CordonWorld}
    (hrun : exec cordonNext (.start n) ops = some w)
    (hheeds : Along cordonNext (fun w op => w.heeds op = true) (.start n) ops) :
    ∀ l ∈ w.writes, l.uncordons → l.before.get .handoff = none := by
  have hstart : TakeoverInv (.start n) :=
    ⟨List.forall_mem_nil _, List.forall_mem_nil _⟩
  exact (exec_invariant_along (fun _ _ _ h hop hnext => h.next hop hnext) hstart hheeds hrun).writes

/-- A node that an older build cordoned. -/
def legacyNode : KubeNode :=
  ⟨true, (Annotations.empty.insert Mark.reason.key (lit "one")).insert Mark.restore.key []⟩

/-- Somebody takes the node over. -/
def takeOver : CordonOp := .outside (.annotate Mark.handoff.key (lit "mine"))

/-- A remediation joins the legacy cordon and both holds are released; the node is taken over before
the last patch, and handed back. -/
def heededRun : List CordonOp :=
  callOps (.cordonForOwner (lit "b") (lit "two")) ++
  [.begin (.releaseCordonOwners [lit "b", legacyCordonOwner (lit "one")]), .read 0, takeOver,
    .patch 0 .answered, .outside (.unannotate Mark.handoff.key), .read 0, .patch 0 .answered]

theorem heeded_takeover_is_respected : ∃ w, exec cordonNext (.start legacyNode) heededRun = some w ∧
      w.writes.map (fun l => l.after.unschedulable) = [false, true] ∧
      ∀ l ∈ w.writes, l.uncordons → l.before.get .handoff = none := by
  exact reached (by decide +kernel) fun w hw
    hflags =>
    ⟨hflags, takeover_is_respected hw (by decide +kernel)⟩

/-- The release of a legacy cordon has seen no takeover. The node is taken over before its patch,
which is applied and makes the node schedulable. -/
def overrun : List CordonOp :=
  [.begin (.releaseCordonOwners [legacyCordonOwner (lit "one")]), .read 0, .read 0, takeOver,
    .patch 0 .answered]

theorem late_takeover_is_overrun :
    ∃ w, exec cordonNext (.start legacyNode) overrun = some w ∧ w.writes.length = 1 ∧
      ∃ l ∈ w.writes, l.before.unschedulable = true ∧ l.after.unschedulable = false ∧
        l.before.get .handoff = some (lit "mine") := by
  decide +kernel

end KubeNeuron.Platform
