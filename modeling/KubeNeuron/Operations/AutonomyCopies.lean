import KubeNeuron.Operations.AutonomyRows

/-!
# The copies that processes hold

Rollouts and effects as their rows and as the copies in the hands of processes, and the rule for
runs that the results about the autonomy code are proved with (`exec_rows`): a property of the store
and the trace is checked at every call that the discipline allows, where `RowsInv` is known of the
rows and their copies.
-/

namespace KubeNeuron.Operations

open Lib KubeNeuron.Types Accelerator Decision Store

/-! ## Rollouts -/

/-- `q` is what may become of the rollout `r`: its records only grow. -/
structure Rollout.Follows (r q : Rollout) : Prop where
  id : q.id = r.id
  planID : q.planID = r.planID
  qualified : q.hardwareQualified = r.hardwareQualified
  measurements : r.bakeMeasurements <+: q.bakeMeasurements
  expanded : r.expandedNodes <+: q.expandedNodes
  failures : r.failures ≤ q.failures

namespace Rollout.Follows

variable {r q p : Rollout}

theorem refl (r : Rollout) : r.Follows r :=
  ⟨rfl, rfl, rfl, List.prefix_rfl, List.prefix_rfl, Int.le_refl _⟩

theorem trans (hrq : r.Follows q) (hqp : q.Follows p) : r.Follows p :=
  ⟨hqp.id.trans hrq.id, hqp.planID.trans hrq.planID, hqp.qualified.trans hrq.qualified,
    hrq.measurements.trans hqp.measurements, hrq.expanded.trans hqp.expanded,
    Int.le_trans hrq.failures hqp.failures⟩

end Rollout.Follows

section

variable {m : Manager} {h : History} {known new : Rollout}

theorem RolloutWrite.follows (hw : RolloutWrite h known new) (v : Nat) :
    known.Follows (new.raise v) := by
  cases hw with
  | fail =>
    exact ⟨rfl, rfl, rfl, List.prefix_rfl, List.prefix_rfl, Int.le_add_one (Int.le_refl _)⟩
  | expand =>
    exact ⟨rfl, rfl, rfl, List.prefix_rfl, List.prefix_append _ _, Int.le_refl _⟩
  | measure _ _ _ _ _ _ _ _ _ _ hfails =>
    exact ⟨rfl, rfl, rfl, List.prefix_append _ _, List.prefix_rfl,
      Int.le_add_of_nonneg_right hfails⟩
  | _ => exact ⟨rfl, rfl, rfl, List.prefix_rfl, List.prefix_rfl, Int.le_refl _⟩

end

/-- A copy of a rollout that some process has read, or has written last. -/
inductive RolloutCopy (tr : Trace) (k : Str) : Rollout → Prop
  | read {i : Nat} {r : Rollout} (hread : (⟨i, ⟨.getRollout k, .ok r⟩⟩ : Entry _ _) ∈ tr) :
      RolloutCopy tr k r
  | wrote {i : Nat} {r : Rollout} {v : Nat}
      (hwrote : (⟨i, ⟨.updateRollout r v, .ok ()⟩⟩ : Entry _ _) ∈ tr)
      (hk : r.id = k) : RolloutCopy tr k (r.raise (v + 1))

/-- The rows and the copies of the rollouts in a run. -/
structure RolloutInv (m : Manager) (s : AutonomyStore) (tr : Trace) : Prop where
  coherent : Coherent Rollout.version Rollout.Follows s.rollouts.get? (RolloutCopy tr)
  row : ∀ {k : Str} {r : Rollout}, s.rollouts.get? k = some r →
    r.id = k ∧ r.hardwareQualified = m.executes ∧ Made tr k
  copy : ∀ {k : Str} {r : Rollout}, RolloutCopy tr k r →
    r.id = k ∧ r.hardwareQualified = m.executes ∧ Made tr k

variable {m : Manager} {s s' : AutonomyStore} {i : Nat} {c : AutonomyCall} {a : c.Answer}
  {tr : Trace} {r : Rollout} {x : StoreEvent} {e : Effect}

namespace RolloutInv

theorem start (clock : Int) : RolloutInv m (AutonomyStore.empty clock) [] := by
  have hn : ∀ {k : Str} {r : Rollout}, ¬ RolloutCopy [] k r := by
    intro k r hc
    cases hc with
    | read hr => cases hr
    | wrote hwrote => cases hwrote
  refine ⟨⟨fun hc => (hn hc).elim, fun hc => (hn hc).elim⟩, fun hw => ?_, fun hc => (hn hc).elim⟩
  cases hw

theorem known (hi : RolloutInv m s tr) {h : History} (hs : h <:+ own i tr)
    (hk : KnownRollout h r) : RolloutCopy tr r.id r := by
  cases hk with
  | read hr =>
    have hc : RolloutCopy tr _ r := .read (mem_own.1 (hs.subset hr))
    rw [(hi.copy hc).1]
    exact hc
  | wrote hwrote => exact .wrote (mem_own.1 (hs.subset hwrote)) rfl

theorem write (hi : RolloutInv m s tr) {old : Rollout}
    (hJ : discipline m (own i tr) (.updateRollout r old.version))
    (hr : s.rollouts.get? r.id = some old) :
    ∃ row h', own i tr = ⟨.getRollout r.id, .ok row⟩ :: h' ∧ KnownRollout h' old ∧
      RolloutWrite h' old r := by
  obtain ⟨row, h', _, ho, -, hv, hk, hwr⟩ := hJ
  have hs : h' <:+ own i tr := by
    rw [ho]
    exact List.suffix_cons _ _
  have hc := hi.known hs hk
  rw [← hwr.same_row.1] at hc
  have heq := hi.coherent.eq_row hc hr (hv.trans hwr.same_row.2)
  subst heq
  exact ⟨row, h', ho, hk, hwr⟩

theorem copy_cons (h : CallEffect s c s' a) {k : Str}
    (hc : RolloutCopy (⟨i, ⟨c, a⟩⟩ :: tr) k r) :
    RolloutCopy tr k r ∨ s'.rollouts.get? k = some r := by
  cases hc with
  | read hr =>
    rcases List.mem_cons.1 hr with ⟨⟨⟩⟩ | hold
    · cases h with
      | quiet hqt => obtain ⟨_, ⟨⟩⟩ := hqt
      | getRollout hw => exact .inr hw
    · exact .inl (.read hold)
  | wrote hwrote hk =>
    rcases List.mem_cons.1 hwrote with ⟨⟨⟩⟩ | hold
    · subst hk
      cases h with
      | quiet hqt => obtain ⟨_, ⟨⟩⟩ := hqt
      | updateRollout => exact .inr (KeyMap.get?_insert_self _ _ _)
    · exact .inl (.wrote hold hk)

theorem next (hi : Identified s tr) (hinv : RolloutInv m s tr) (hJ : discipline m (own i tr) c)
    (h : CallEffect s c s' a) : RolloutInv m s' (⟨i, ⟨c, a⟩⟩ :: tr) := by
  have hnext := hinv.coherent.next
    (Q := fun k r => r.id = k ∧ r.hardwareQualified = m.executes ∧ Made (⟨i, ⟨c, a⟩⟩ :: tr) k)
    Rollout.Follows.refl Rollout.Follows.trans (fun _ _ => rfl) hinv.row hinv.copy
    (fun ⟨hid, hqual, hm⟩ => ⟨hid, hqual, PlanInv.made_mono hm⟩) h.rollouts ?_ ?_
    fun _ _ hc => copy_cons (i := i) h hc
  · exact ⟨hnext.1, hnext.2.1, hnext.2.2⟩
  · rintro _ _ ⟨rfl, rfl⟩
    exact ⟨fun _ hc => hi.unused (NewRollout.id hJ) (hinv.copy hc).2.2, rfl,
      NewRollout.qualified hJ, _,
      .head _, rfl⟩
  · rintro _ _ _ hw ⟨rfl, rfl⟩
    obtain ⟨_, _, -, -, hwr⟩ := hinv.write hJ hw
    obtain ⟨-, hqual, hm⟩ := hinv.row hw
    have hfollows := hwr.follows
    exact ⟨hfollows _, rfl, (hfollows 0).qualified.trans hqual, PlanInv.made_mono hm⟩

theorem env (hi : RolloutInv m s tr) (h : autonomyEnv s x = some s') :
    RolloutInv m s' tr := by
  have haged := aged_of_env h
  exact ⟨⟨fun hc hr => hi.coherent.behind hc (haged.rollouts hr), hi.coherent.chain⟩,
    fun hr => hi.row (haged.rollouts hr), hi.copy⟩

end RolloutInv

/-! ## Effects -/

/-- What holds of every effect, stored or in the hands of a process: its decision is eligible, an
admitted one has not been written, and it is kept for as long as its plan. -/
structure Effect.Sound (tr : Trace) (e : Effect) : Prop where
  permitted : e.decision.permitted = true
  deadline : e.deadline = e.decision.expiresAt
  unwritten : e.state = .admitted → e.version = 1
  dated : ∃ p, SeenPlan tr e.id.planID p ∧ e.expiresAt = p.expiresAt

/-- The rows of the effects and what processes have read, created or written of them. -/
structure EffectInv (s : AutonomyStore) (tr : Trace) : Prop where
  row : ∀ {k : EffectID} {e : Effect}, s.effects k = some e → e.Sound tr ∧ e.id = k
  read : ∀ {i : Nat} {k : EffectID} {e : Effect}, (⟨i, ⟨.getEffect k, .ok e⟩⟩ : Entry _ _) ∈ tr →
    e.Sound tr ∧ e.id = k
  created : ∀ {i : Nat} {e : Effect} {a : Except Err Unit},
    (⟨i, ⟨.createEffect e, a⟩⟩ : Entry _ _) ∈ tr → e.Sound tr
  wrote : ∀ {i : Nat} {e : Effect} {v : Nat} {a : Except Err Unit},
    (⟨i, ⟨.updateEffect e v, a⟩⟩ : Entry _ _) ∈ tr → e.Sound tr ∧ e.state ≠ .admitted

theorem SeenPlan.subset {tr' : Trace} {k : Str} {p : Plan} (h : SeenPlan tr k p) (hs : tr ⊆ tr') :
    SeenPlan tr' k p := by
  cases h with
  | read hr => exact .read (hs hr)
  | listed hl hp hk => exact .listed (hs hl) hp hk

theorem Effect.Sound.mono {f : Entry AutonomyCall AutonomyCall.Answer}
    (h : e.Sound tr) : e.Sound (f :: tr) := by
  obtain ⟨p, hs, he⟩ := h.dated
  exact ⟨h.permitted, h.deadline, h.unwritten, p, hs.subset (List.subset_cons_self _ _), he⟩

theorem Listed.seen {i : Nat} {plan : Plan} (h : Listed (own i tr) plan) :
    SeenPlan tr plan.id plan := by
  obtain ⟨_, _, hm, hp⟩ := h
  exact .listed (mem_own.1 hm) hp rfl

namespace EffectInv

theorem start (clock : Int) : EffectInv (AutonomyStore.empty clock) [] := by
  refine ⟨fun h => ?_, fun h => ?_, fun h => ?_, fun h => ?_⟩
  all_goals cases h

theorem known (hi : EffectInv s tr) {k : EffectID} (h : KnownEffect (own i tr) k e) :
    e.Sound tr ∧ e.id = k := by
  cases h with
  | read hr => exact hi.read (mem_own.1 hr)
  | created hcreate hid => exact ⟨hi.created (mem_own.1 hcreate), hid⟩

theorem made (h : NewEffect (own i tr) e) : e.Sound tr := by
  obtain ⟨plan, hfor, he⟩ := h.target
  refine ⟨h.permitted, h.deadline, fun _ => h.version, plan, ?_, he⟩
  rw [hfor.planID]
  exact hfor.listed.seen

theorem written (hi : EffectInv s tr) {v : Nat} (h : EffectWrite (own i tr) e v) :
    e.Sound tr ∧ e.state ≠ .admitted := by
  cases h with
  | claim _ hk =>
    obtain ⟨hd, -⟩ := hi.known hk
    refine ⟨{ hd with unwritten := fun ha => ?_ }, fun ha => ?_⟩
    · cases ha
    · cases ha
  | finish hh hid hst hc hdl hx =>
    obtain ⟨_, _, hl, -⟩ := hh
    obtain ⟨hd, -⟩ := hi.wrote (mem_own.1 (hl ▸ List.mem_append_right _ (.head _)))
    obtain ⟨p, hs, hdat⟩ := hd.dated
    have he : e.state ≠ .admitted := by
      intro ha
      rw [ha] at hst
      obtain hst | hst | hst | hst := hst
      all_goals cases hst
    refine ⟨⟨?_, ?_, fun ha => (he ha).elim, p, ?_, ?_⟩, he⟩
    · rw [hc]
      exact hd.permitted
    · rw [hdl, hc]
      exact hd.deadline
    · rw [hid]
      exact hs
    · rw [hx]
      exact hdat

theorem next (hi : EffectInv s tr) (hJ : discipline m (own i tr) c) (h : CallEffect s c s' a) :
    EffectInv s' (⟨i, ⟨c, a⟩⟩ :: tr) := by
  have hr : ∀ {k : EffectID} {e : Effect}, s'.effects k = some e → e.Sound tr ∧ e.id = k := by
    intro k e hw
    have hk := h.effects k
    generalize hb : s.effects k = before at hk
    generalize ha : s'.effects k = after at hk
    rw [ha] at hw
    cases hk with
    | keep => exact hi.row (hb.trans hw)
    | create hn =>
      cases hw
      obtain ⟨rfl, rfl⟩ := hn
      exact ⟨made hJ, rfl⟩
    | update hn =>
      cases hw
      obtain ⟨rfl, rfl⟩ := hn
      obtain ⟨hs, hst⟩ := hi.written hJ
      exact ⟨{ hs with unwritten := fun hd => (hst hd).elim }, rfl⟩
    | erase => cases hw
  refine ⟨fun hw => (hr hw).imp_left .mono, fun hm => ?_, fun hm => ?_, fun hm => ?_⟩
  · rcases List.mem_cons.1 hm with ⟨⟨⟩⟩ | hold
    · cases h with
      | quiet hqt => obtain ⟨_, ⟨⟩⟩ := hqt
      | getEffect hw => exact (hi.row hw).imp_left .mono
    · exact (hi.read hold).imp_left .mono
  · rcases List.mem_cons.1 hm with ⟨⟨⟩⟩ | hold
    · exact (made hJ).mono
    · exact (hi.created hold).mono
  · rcases List.mem_cons.1 hm with ⟨⟨⟩⟩ | hold
    · exact (hi.written hJ).imp_left .mono
    · exact (hi.wrote hold).imp_left .mono

theorem env (hi : EffectInv s tr) (h : autonomyEnv s x = some s') : EffectInv s' tr :=
  { hi with row := fun hr => hi.row ((aged_of_env h).effects hr) }

end EffectInv

/-! ## The rows in a run -/

/-- What is known of the rows and of the copies of them in every run. -/
structure RowsInv (m : Manager) (extra : Str → Plan → Prop) (s : AutonomyStore)
    (tr : Trace) : Prop where
  identified : Identified s tr
  plans : PlanInv extra s tr
  rollouts : RolloutInv m s tr
  effects : EffectInv s tr

/-- The system whose processes all keep to the discipline. -/
abbrev Steady (m : Manager) (w : AutonomySystem) : Prop :=
  Disciplined (fun _ : AutonomyRequest => discipline m) (fun _ _ => True) w

variable {extra : Str → Plan → Prop} {w w' : AutonomySystem} {ops : List AutonomyOp}

theorem RowsInv.env {s s' : AutonomyStore} (hi : RowsInv m extra s tr)
    (h : autonomyEnv s x = some s') : RowsInv m extra s' tr :=
  ⟨hi.identified.env h, hi.plans.env h, hi.rollouts.env h, hi.effects.env h⟩

theorem RowsInv.start (m : Manager) (clock : Int) :
    RowsInv m (fun _ _ => False) (AutonomyStore.empty clock) [] :=
  ⟨Identified.start clock, PlanInv.start clock, RolloutInv.start clock, EffectInv.start clock⟩

/-- A property that rests on the rows is kept in a run when every call that the discipline allows
keeps it, and every change of the store itself. -/
theorem exec_rows {P : AutonomyStore → Trace → Prop} {ok : AutonomySystem → AutonomyOp → Prop}
    (hc : ∀ (v : AutonomySystem) i x c a s', ok v (.step i x) → RowsInv m extra v.store v.trace →
      P v.store v.trace → discipline m (own i v.trace) c → CallEffect v.store c s' a →
      P s' (⟨i, ⟨c, a⟩⟩ :: v.trace))
    (henv : ∀ (v : AutonomySystem) x s', ok v (.env x) → RowsInv m extra v.store v.trace →
      P v.store v.trace → autonomyEnv v.store x = some s' → P s' v.trace)
    (hw : Steady m w) (hi : RowsInv m extra w.store w.trace) (hp : P w.store w.trace)
    (hok : Along (autonomyNext m) ok w ops) (h : exec (autonomyNext m) w ops = some w') :
    Steady m w' ∧ RowsInv m extra w'.store w'.trace ∧ P w'.store w'.trace := by
  have hu := exec_disciplined (P := fun s tr => RowsInv m extra s tr ∧ P s tr)
      (autonomyProgram_obeys m)
    ?_ ?_ ⟨hi, hp⟩ hw hok h
  · exact ⟨hu.2, hu.1⟩
  · rintro v i x r c a s' hop ⟨hr, hv⟩ hJ hperf
    have he := callEffect_of_perform hperf
    exact ⟨⟨hr.identified.next hJ he, hr.plans.next hr.identified hJ he,
      hr.rollouts.next hr.identified hJ he, hr.effects.next hJ he⟩,
      hc v i x c a s' hop hr hv hJ he⟩
  · rintro v x s' hop ⟨hr, hv⟩ hx
    exact ⟨hr.env hx, henv v x s' hop hr hv hx⟩

end KubeNeuron.Operations
