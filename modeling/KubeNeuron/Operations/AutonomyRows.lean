import KubeNeuron.Lib.Versioned
import KubeNeuron.Operations.AutonomyObeys

/-!
# The rows behind the autonomy code

What the calls do to the rows, and what follows for the rows in every run, whatever the
interleaving: an identifier is used for one row only (`Identified`), and the copies of plans and
rollouts that processes hold are behind the rows or equal to them (`PlanInv`, `RolloutInv`), along
the orders `Plan.Follows` and `Rollout.Follows` that the discipline imposes on the writes.
-/

namespace KubeNeuron.Operations

open Lib KubeNeuron.Types Accelerator Decision Store

variable {p : Plan} {a : Except Err Unit} {id : Str} {h : History} {s : AutonomyStore}
  {x : StoreEvent}

/-- The calls of all processes and their answers, newest first. -/
abbrev Trace : Type := List (Entry AutonomyCall AutonomyCall.Answer)

/-! ## What a call does -/

/-- The call ended without an effect on the store. A call that returns rows or writes them has then
failed. -/
def Quiet : (c : AutonomyCall) → c.Answer → Prop
  | .now, _ => False
  | .newID _, _ => False
  | .getPlan _, a => ∃ e, a = .error e
  | .createPlan _, a => ∃ e, a = .error e
  | .updatePlan _ _, a => ∃ e, a = .error e
  | .listPlans _, a => ∃ e, a = .error e
  | .getRollout _, a => ∃ e, a = .error e
  | .createRollout _, a => ∃ e, a = .error e
  | .updateRollout _ _, a => ∃ e, a = .error e
  | .getEffect _, a => ∃ e, a = .error e
  | .createEffect _, a => ∃ e, a = .error e
  | .updateEffect _ _, a => ∃ e, a = .error e
  | .buildSnapshot node _, a => ∀ snapshot, a = .ok snapshot → snapshot.node.name = node
  | _, _ => True

/-- The plan under another version. -/
def Plan.raise (p : Plan) (v : Nat) : Plan := { p with version := v }

/-- The rollout under another version. -/
def Rollout.raise (r : Rollout) (v : Nat) : Rollout := { r with version := v }

/-- The effect under another version. -/
def Effect.raise (e : Effect) (v : Nat) : Effect := { e with version := v }

/-- What a call does. A write that takes effect may be reported as failed all the same. -/
inductive CallEffect (s : AutonomyStore) : (c : AutonomyCall) → AutonomyStore → c.Answer → Prop
  | quiet {c : AutonomyCall} {a : c.Answer} (hquiet : Quiet c a) : CallEffect s c s a
  | now : CallEffect s .now s s.clock
  | newID (kind : Str) {id : Str} (hfresh : id ∉ s.issued) :
      CallEffect s (.newID kind) { s with issued := id :: s.issued } id
  | getPlan {id : Str} {p : Plan} (hrow : s.plans.get? id = some p) :
      CallEffect s (.getPlan id) s (.ok p)
  | listPlans (cursor : Option (Int × Str)) :
      CallEffect s (.listPlans cursor) s (.ok (s.listPlans cursor))
  | createPlan {p : Plan} (hrow : s.plans.get? p.id = none) (a : Except Err Unit) :
      CallEffect s (.createPlan p) { s with plans := s.plans.insert p.id p } a
  | updatePlan {p old : Plan} (hrow : s.plans.get? p.id = some old) (a : Except Err Unit) :
      CallEffect s (.updatePlan p old.version)
        { s with plans := s.plans.insert p.id (p.raise (old.version + 1)) } a
  | getRollout {id : Str} {r : Rollout} (hrow : s.rollouts.get? id = some r) :
      CallEffect s (.getRollout id) s (.ok r)
  | createRollout {r : Rollout} (hrow : s.rollouts.get? r.id = none) (a : Except Err Unit) :
      CallEffect s (.createRollout r) { s with rollouts := s.rollouts.insert r.id r } a
  | updateRollout {r old : Rollout} (hrow : s.rollouts.get? r.id = some old) (a : Except Err Unit) :
      CallEffect s (.updateRollout r old.version)
        { s with rollouts := s.rollouts.insert r.id (r.raise (old.version + 1)) } a
  | getEffect {id : EffectID} {e : Effect} (hrow : s.effects id = some e) :
      CallEffect s (.getEffect id) s (.ok e)
  | createEffect {e : Effect} (hrow : s.effects e.id = none) (a : Except Err Unit) :
      CallEffect s (.createEffect e) { s with effects := s.setEffect e } a
  | updateEffect {e old : Effect} (hrow : s.effects e.id = some old) (a : Except Err Unit) :
      CallEffect s (.updateEffect e old.version)
        { s with effects := s.setEffect (e.raise (old.version + 1)) } a
  | putKey (r : KeyRecord) (keys : List (KeyRecord × Int)) (a : Except Err (KeyRecord × Bool)) :
      CallEffect s (.putKey r) { s with keys } a

variable {e : Effect} {s' : AutonomyStore}

section

variable {α : Type} {x : CallInput} {a : Except Err α}

theorem answer_cases {out : AutonomyStore × Except Err α} (h : s.answer out x = some (s', a)) :
    (s', a) = out ∨ (∃ e, (s', a) = (out.1, .error e)) ∨ ∃ e, (s', a) = (s, .error e) := by
  cases x with
  | works =>
    cases h
    exact .inl rfl
  | fails applied =>
    cases applied with
    | true =>
      cases h
      exact .inr (.inl ⟨_, rfl⟩)
    | false =>
      cases h
      exact .inr (.inr ⟨_, rfl⟩)
  | _ => cases h

theorem read_cases {b : Except Err α} (h : s.answer (s, b) x = some (s', a)) :
    s' = s ∧ (a = b ∨ ∃ e, a = .error e) := by
  obtain ⟨⟨⟩⟩ | ⟨e, ⟨⟩⟩ | ⟨e, ⟨⟩⟩ := answer_cases h
  · exact ⟨rfl, .inl rfl⟩
  · exact ⟨rfl, .inr ⟨e, rfl⟩⟩
  · exact ⟨rfl, .inr ⟨e, rfl⟩⟩

theorem found_cases {row : Option α} (h : a = found row ∨ ∃ e, a = .error e) :
    (∃ r, row = some r ∧ a = .ok r) ∨ ∃ e, a = .error e := by
  obtain rfl | h := h
  · cases row with
    | none => exact .inr ⟨_, rfl⟩
    | some r => exact .inl ⟨r, rfl, rfl⟩
  · exact .inr h

theorem answer_effect {out : AutonomyStore × Except Err α}
    {P : AutonomyStore → Except Err α → Prop} (h : s.answer out x = some (s', a))
    (ho : P out.1 out.2) (hlost : ∀ e, P out.1 (.error e)) (hf : ∀ e, P s (.error e)) : P s' a := by
  obtain ⟨⟨⟩⟩ | ⟨e, ⟨⟩⟩ | ⟨e, ⟨⟩⟩ := answer_cases h
  · exact ho
  · exact hlost e
  · exact hf e

theorem refused_effect {e : Err} {P : AutonomyStore → Except Err α → Prop}
    (h : s.answer (s, .error e) x = some (s', a)) (hf : ∀ e, P s (.error e)) : P s' a :=
  answer_effect h (hf e) hf hf

theorem putKey_effect {r : KeyRecord} {a : Except Err (KeyRecord × Bool)}
    (h : s.answer (s.putKey r) x = some (s', a)) : CallEffect s (.putKey r) s' a := by
  rw [AutonomyStore.putKey] at h
  split at h
  · obtain ⟨rfl, -⟩ := read_cases h
    exact .quiet trivial
  · exact answer_effect h (.putKey r _ _) (fun _ => .putKey r _ _) fun _ => .quiet trivial

theorem callEffect_of_perform {c : AutonomyCall} {a : c.Answer}
    (h : autonomyPerform s c x = some (s', a)) : CallEffect s c s' a := by
  cases c with
  | now =>
    cases h
    exact .now
  | newID kind =>
    obtain ⟨id, hid, h⟩ := Option.map_eq_some_iff.1 h
    cases h
    cases x with
    | fresh uuid =>
      simp only [CallInput.fresh?] at hid
      split at hid
      · cases hid
      next hfr =>
        cases hid
        exact .newID kind hfr
    | _ => cases hid
  | getPlan | getRollout | getEffect =>
    obtain ⟨rfl, ha⟩ := read_cases h
    obtain ⟨_, hr, rfl⟩ | hf := found_cases ha
    · first | exact .getPlan hr | exact .getRollout hr | exact .getEffect hr
    · exact .quiet hf
  | createPlan | createRollout | createEffect =>
    simp only [autonomyPerform, AutonomyStore.createPlan, AutonomyStore.createRollout,
      AutonomyStore.createEffect] at h
    split at h
    · exact refused_effect h fun e => .quiet ⟨e, rfl⟩
    next hr =>
      refine answer_effect h ?_ (fun _ => ?_) fun e => .quiet ⟨e, rfl⟩
      all_goals
        first | exact .createPlan hr _ | exact .createRollout hr _ | exact .createEffect hr _
  | updatePlan | updateRollout | updateEffect =>
    simp only [autonomyPerform, AutonomyStore.updatePlan, AutonomyStore.updateRollout,
      AutonomyStore.updateEffect] at h
    split at h
    · exact refused_effect h fun e => .quiet ⟨e, rfl⟩
    next hr =>
      split_ifs at h with hv
      · subst hv
        refine answer_effect h ?_ (fun _ => ?_) fun e => .quiet ⟨e, rfl⟩
        all_goals
          first | exact .updatePlan hr _ | exact .updateRollout hr _ | exact .updateEffect hr _
      · exact refused_effect h fun e => .quiet ⟨e, rfl⟩
  | listPlans cursor =>
    obtain ⟨rfl, rfl | hf⟩ := read_cases h
    · exact .listPlans cursor
    · exact .quiet hf
  | getKey | createDecision | audit =>
    obtain ⟨rfl, -⟩ := read_cases h
    exact .quiet trivial
  | putKey => exact putKey_effect h
  | buildSnapshot =>
    obtain ⟨_, hb, h⟩ := Option.map_eq_some_iff.1 h
    cases h
    refine .quiet fun snapshot hok => ?_
    subst hok
    cases x with
    | snapshot =>
      simp only [CallInput.snapshot?] at hb
      split at hb
      · cases hb
        assumption
      · cases hb
    | _ => cases hb
  | _ =>
    obtain ⟨_, -, h⟩ := Option.map_eq_some_iff.1 h
    cases h
    exact .quiet trivial

end

/-! ## Single rows -/

variable {c : AutonomyCall} {a : c.Answer}

theorem CallEffect.plans (h : CallEffect s c s' a) (k : Str) :
    RowChange Plan.version Plan.raise (fun p => c = .createPlan p ∧ p.id = k)
      (fun p v => c = .updatePlan p v ∧ p.id = k) (s.plans.get? k) (s'.plans.get? k) := by
  cases h with
  | @createPlan p hr | @updatePlan p _ hr =>
    by_cases hk : k = p.id
    · subst hk
      rw [hr, KeyMap.get?_insert_self]
      constructor
      exact ⟨rfl, rfl⟩
    · rw [KeyMap.get?_insert_of_ne _ _ hk]
      exact .keep _
  | _ => exact .keep _

theorem CallEffect.rollouts (h : CallEffect s c s' a) (k : Str) :
    RowChange Rollout.version Rollout.raise (fun r => c = .createRollout r ∧ r.id = k)
      (fun r v => c = .updateRollout r v ∧ r.id = k) (s.rollouts.get? k) (s'.rollouts.get? k) := by
  cases h with
  | @createRollout r hr | @updateRollout r _ hr =>
    by_cases hk : k = r.id
    · subst hk
      rw [hr, KeyMap.get?_insert_self]
      constructor
      exact ⟨rfl, rfl⟩
    · rw [KeyMap.get?_insert_of_ne _ _ hk]
      exact .keep _
  | _ => exact .keep _

theorem CallEffect.effects (h : CallEffect s c s' a) (k : EffectID) :
    RowChange Effect.version Effect.raise (fun e => c = .createEffect e ∧ e.id = k)
      (fun e v => c = .updateEffect e v ∧ e.id = k) (s.effects k) (s'.effects k) := by
  cases h with
  | @createEffect e hr | @updateEffect e _ hr =>
    simp only [AutonomyStore.setEffect]
    split_ifs with hk
    · obtain rfl : k = e.id := hk
      rw [hr]
      constructor
      exact ⟨rfl, rfl⟩
    · exact .keep _
  | _ => exact .keep _

theorem CallEffect.clock (h : CallEffect s c s' a) : s'.clock = s.clock := by
  cases h with
  | _ => rfl

/-! ## Identifiers -/

/-- The identifier of the row that a call makes. -/
def madeID : AutonomyCall → Option Str
  | .createPlan p => some p.id
  | .createRollout r => some r.id
  | _ => none

/-- A row was made under the identifier. -/
def Made (tr : Trace) (id : Str) : Prop := ∃ e ∈ tr, madeID e.event.call = some id

/-- An identifier is made once, by one process, and a process that has just made it is the first to
use it. -/
structure Identified (s : AutonomyStore) (tr : Trace) : Prop where
  issued : ∀ {i : Nat} {kind id : Str}, (⟨i, ⟨.newID kind, id⟩⟩ : Entry _ _) ∈ tr → id ∈ s.issued
  owner : ∀ {i j : Nat} {kind kind' id : Str}, (⟨i, ⟨.newID kind, id⟩⟩ : Entry _ _) ∈ tr →
    (⟨j, ⟨.newID kind', id⟩⟩ : Entry _ _) ∈ tr → i = j
  made : ∀ {e : Entry AutonomyCall AutonomyCall.Answer} {id : Str}, e ∈ tr →
    madeID e.event.call = some id → ∃ kind, (⟨e.pid, ⟨.newID kind, id⟩⟩ : Entry _ _) ∈ tr
  unused : ∀ {i : Nat} {id : Str}, JustMade (own i tr) id → ¬ Made tr id

namespace Identified

variable {m : Manager} {tr : Trace} {i : Nat}

theorem start (clock : Int) : Identified (AutonomyStore.empty clock) [] := by
  refine ⟨fun h => ?_, fun h => ?_, fun h => ?_, fun h => ?_⟩
  · cases h
  · cases h
  · cases h
  · cases h

theorem newID_effect {kind : Str} (h : CallEffect s (.newID kind) s' id) :
    id ∉ s.issued ∧ s'.issued = id :: s.issued := by
  cases h with
  | quiet hqt => cases hqt
  | newID _ hfr => exact ⟨hfr, rfl⟩

theorem issued_mono (h : CallEffect s c s' a) (hid : id ∈ s.issued) : id ∈ s'.issued := by
  cases h with
  | newID => exact .tail _ hid
  | _ => exact hid

theorem justMade_of_discipline (hJ : discipline m h c) (hm : madeID c = some id) :
    JustMade h id := by
  cases c with
  | createPlan =>
    cases hm
    exact NewPlan.id hJ
  | createRollout =>
    cases hm
    exact NewRollout.id hJ
  | _ => cases hm

theorem mem_of_justMade (hj : JustMade h id) : ∃ kind, (⟨.newID kind, id⟩ : AutonomyEvent) ∈ h := by
  cases hj with
  | made => exact ⟨_, .head _⟩
  | keyed => exact ⟨_, .tail _ (.head _)⟩

theorem next (hi : Identified s tr) (hJ : discipline m (own i tr) c) (h : CallEffect s c s' a) :
    Identified s' (⟨i, ⟨c, a⟩⟩ :: tr) := by
  refine ⟨fun {j kind id} hmem => ?_, fun {j l kind kind' id} hj hl => ?_, fun {e id} he hm => ?_,
    fun {j id} hj hm => ?_⟩
  · rcases List.mem_cons.1 hmem with ⟨⟨⟩⟩ | hold
    · rw [(newID_effect h).2]
      exact .head _
    · exact issued_mono h (hi.issued hold)
  · rcases List.mem_cons.1 hj with hn | hold
    · rcases List.mem_cons.1 hl with ⟨⟨⟩⟩ | hold
      · cases hn
        rfl
      · cases hn
        exact absurd (hi.issued hold) (newID_effect h).1
    rcases List.mem_cons.1 hl with ⟨⟨⟩⟩ | hold'
    · exact absurd (hi.issued hold) (newID_effect h).1
    · exact hi.owner hold hold'
  · rcases List.mem_cons.1 he with rfl | hold
    · obtain ⟨kind, ho⟩ := mem_of_justMade (justMade_of_discipline hJ hm)
      exact ⟨kind, .tail _ (mem_own.1 ho)⟩
    · obtain ⟨kind, hkind⟩ := hi.made hold hm
      exact ⟨kind, .tail _ hkind⟩
  · -- the process that has just made the identifier, against the call that makes a row under it
    obtain ⟨e, he, hid⟩ := hm
    by_cases hij : i = j
    · subst hij
      rw [own_cons_self] at hj
      generalize hp : own i tr = past at hj
      cases hj with
      | made =>
        rcases List.mem_cons.1 he with rfl | hold
        · cases hid
        obtain ⟨_, hkind⟩ := hi.made hold hid
        exact (newID_effect h).1 (hi.issued hkind)
      | keyed =>
        rcases List.mem_cons.1 he with rfl | hold
        · cases hid
        exact hi.unused (hp ▸ @JustMade.made _ _ id) ⟨e, hold, hid⟩
    rw [own_cons_of_ne hij] at hj
    rcases List.mem_cons.1 he with rfl | hold
    · obtain ⟨_, ho⟩ := mem_of_justMade hj
      obtain ⟨_, ho'⟩ := mem_of_justMade (justMade_of_discipline hJ hid)
      exact hij (hi.owner (mem_own.1 ho') (mem_own.1 ho))
    · exact hi.unused hj ⟨e, hold, hid⟩

end Identified

/-! ## Plans -/

/-- The plan is past its approvals, or was ended before them. -/
def PlanState.started : PlanState → Bool
  | .draft | .simulated | .awaitingApproval => false
  | _ => true

/-- What no write changes of a plan. -/
def Plan.fixed (p : Plan) : Plan :=
  { p with
    version := 0
    state := .draft
    targetDeviceID := []
    approvalRecords := []
    simulationID := []
    configDigest := []
    rolloutID := [] }

/-- `q` is what may become of the plan `p`. Once a plan has started, its bindings and approvals
stand. -/
structure Plan.Follows (p q : Plan) : Prop where
  fixed : q.fixed = p.fixed
  started : p.state.started = true → q.state.started = true ∧ q.configDigest = p.configDigest ∧
    q.rolloutID = p.rolloutID ∧ q.targetDeviceID = p.targetDeviceID ∧
      q.approvalRecords = p.approvalRecords
  final : p.state.terminal = true → q = p

namespace Plan.Follows

variable {q r : Plan}

theorem refl (p : Plan) : p.Follows p := ⟨rfl, fun h => ⟨h, rfl, rfl, rfl, rfl⟩, fun _ => rfl⟩

theorem trans (hpq : p.Follows q) (hqr : q.Follows r) : p.Follows r := by
  refine ⟨hqr.fixed.trans hpq.fixed, fun hp => ?_, fun hp => ?_⟩
  · obtain ⟨hq, hd, hl, ht, hrecs⟩ := hpq.started hp
    obtain ⟨hr, hd', hl', ht', hrecs'⟩ := hqr.started hq
    exact ⟨hr, hd'.trans hd, hl'.trans hl, ht'.trans ht, hrecs'.trans hrecs⟩
  · cases hpq.final hp
    exact hqr.final hp

end Plan.Follows

/-- The approvals are by different roles, and by different actors where the plan demands it. -/
def Plan.ApprovedApart (p : Plan) : Prop :=
  p.approvalRecords.Pairwise fun a b =>
    a.role ≠ b.role ∧ (p.approvals.distinctSubjects = true → a.actor ≠ b.actor)

/-- What holds of every row of a plan. -/
structure Plan.Valid (k : Str) (p : Plan) : Prop where
  id : p.id = k
  positive : 1 ≤ p.version
  dated : fourDigitYear p.expiresAt = true
  roles : 2 ≤ p.approvals.requiredRoles.length
  unique : p.approvals.requiredRoles.Nodup
  distinct : p.approvals.distinctSubjects = true
  canary : 0 < p.rollout.canaryNodes
  concurrent : p.rollout.canaryNodes ≤ p.guardrails.maxConcurrentNodes
  steps : increasingFrom p.rollout.canaryNodes p.rollout.expansionSteps = true
  apart : p.ApprovedApart

variable {m : Manager} {old new : Plan} {k : Str}

theorem NewPlan.valid (hn : NewPlan h new) : new.Valid new.id := by
  refine { hn with id := rfl, positive := ?_, apart := ?_ }
  · rw [hn.version]
  · rw [Plan.ApprovedApart, hn.records]
    exact List.Pairwise.nil

theorem PlanWrite.live (hw : PlanWrite h old new) : old.state.terminal = false := by
  cases hw with
  | attach _ hst | resume hst => rw [hst]; rfl
  | approve _ _ hst | start _ _ hst =>
    obtain hst | hst := hst
    · rw [hst]; rfl
    · rw [hst]; rfl
  | transition _ hold => exact hold
  | bake he hst =>
    rw [he.state]
    obtain hst | hst := hst
    · rw [hst]; rfl
    · rw [hst]; rfl
  | finish _ he hst | complete he hst => rw [he.state, hst]; rfl

theorem PlanWrite.follows (hw : PlanWrite h old new) (v : Nat) : old.Follows (new.raise v) := by
  have hl : old.state.terminal = true → new.raise v = old := by
    intro hterm
    rw [hw.live] at hterm
    cases hterm
  cases hw with
  | attach _ hst =>
    refine ⟨rfl, fun hs => ?_, hl⟩
    rw [hst] at hs
    cases hs
  | approve _ _ hst | start _ _ hst =>
    refine ⟨rfl, fun hs => ?_, hl⟩
    obtain hst | hst := hst
    · rw [hst] at hs
      cases hs
    · rw [hst] at hs
      cases hs
  | transition _ _ ht =>
    refine ⟨rfl, fun _ => ⟨?_, rfl, rfl, rfl, rfl⟩, hl⟩
    obtain rfl | rfl | rfl := ht
    · rfl
    · rfl
    · rfl
  | finish _ _ _ _ _ _ _ ht =>
    refine ⟨rfl, fun _ => ⟨?_, rfl, rfl, rfl, rfl⟩, hl⟩
    obtain rfl | ⟨rfl, -⟩ := ht
    · rfl
    · rfl
  | _ => exact ⟨rfl, fun _ => ⟨rfl, rfl, rfl, rfl, rfl⟩, hl⟩

theorem approvalStanding_eq_none {plan : Plan} {actor role : Str} {records : List Approval}
    (hn : approvalStanding m plan actor role records = none) :
    ∀ a ∈ records, a.role ≠ role ∧ (plan.approvals.distinctSubjects = true → a.actor ≠ actor) := by
  fun_induction approvalStanding m plan actor role records with
  | case1 => exact List.forall_mem_nil _
  | case5 b rest hrole hactor ih =>
    exact List.forall_mem_cons.2 ⟨⟨hrole, fun hd heq => hactor ⟨hd, heq⟩⟩, ih hn⟩
  | _ => cases hn

theorem approvedApart_approvedBy {actor role : Str} (hold : old.ApprovedApart)
    (hn : approvalStanding m old actor role old.approvalRecords = none) :
    (old.approvedBy actor role).ApprovedApart := by
  refine List.pairwise_append.2 ⟨hold, List.pairwise_singleton _ _, fun a ha b hb => ?_⟩
  rw [List.mem_singleton.1 hb]
  exact approvalStanding_eq_none hn a ha

theorem PlanWrite.apart (hw : PlanWrite h old new) (hold : old.ApprovedApart) :
    new.ApprovedApart := by
  cases hw with
  | approve _ _ _ hstand | start _ _ _ hstand => exact approvedApart_approvedBy hold hstand
  | _ => exact hold

theorem PlanWrite.valid (hw : PlanWrite h old new) (hold : old.Valid k) (v : Nat) :
    (new.raise (v + 1)).Valid k := by
  have hfix := (hw.follows (v + 1)).fixed
  have happrovals := congrArg Plan.approvals hfix
  have hr := congrArg Plan.rollout hfix
  have he := congrArg Plan.expiresAt hfix
  refine ⟨(congrArg Plan.id hfix).trans hold.id, Nat.le_add_left 1 v, he ▸ hold.dated,
    happrovals ▸ hold.roles, happrovals ▸ hold.unique, happrovals ▸ hold.distinct, hr ▸ hold.canary,
    ?_, hr ▸ hold.steps, hw.apart hold.apart⟩
  have hguard := congrArg Plan.guardrails hfix
  exact hguard ▸ hr ▸ hold.concurrent

/-- A copy of a plan that some process has read or listed. -/
inductive SeenPlan (tr : Trace) (k : Str) (p : Plan) : Prop
  | read {i : Nat} (hread : (⟨i, ⟨.getPlan k, .ok p⟩⟩ : Entry _ _) ∈ tr)
  | listed {i : Nat} {cursor : Option (Int × Str)} {plans : List Plan}
      (hlisted : (⟨i, ⟨.listPlans cursor, .ok plans⟩⟩ : Entry _ _) ∈ tr) (hp : p ∈ plans)
      (hk : p.id = k)

/-- The copies of plans: those that were read or listed, and others that are named. -/
def PlanCopy (extra : Str → Plan → Prop) (tr : Trace) (k : Str) (p : Plan) : Prop :=
  extra k p ∨ SeenPlan tr k p

/-- The rows and the copies of the plans in a run. -/
structure PlanInv (extra : Str → Plan → Prop) (s : AutonomyStore) (tr : Trace) : Prop where
  coherent : Coherent Plan.version Plan.Follows s.plans.get? (PlanCopy extra tr)
  row : ∀ {k : Str} {p : Plan}, s.plans.get? k = some p → p.Valid k ∧ Made tr k
  copy : ∀ {k : Str} {p : Plan}, PlanCopy extra tr k p → p.Valid k ∧ Made tr k

/-- What the passing of time and the pruning of old rows leave. -/
structure Aged (s s' : AutonomyStore) : Prop where
  issued : s'.issued = s.issued
  clock : s.clock ≤ s'.clock
  plans : ∀ {k : Str} {p : Plan}, s'.plans.get? k = some p → s.plans.get? k = some p
  rollouts : ∀ {k : Str} {r : Rollout}, s'.rollouts.get? k = some r → s.rollouts.get? k = some r
  effects : ∀ {k : EffectID} {e : Effect}, s'.effects k = some e → s.effects k = some e

theorem aged_of_env (h : autonomyEnv s x = some s') : Aged s s' := by
  cases x with
  | tick n =>
    cases h
    exact ⟨rfl, Int.le_add_of_nonneg_right (Int.natCast_nonneg n), fun h => h, fun h => h,
      fun h => h⟩
  | prune =>
    obtain ⟨-, rfl⟩ := guarded h
    exact ⟨rfl, Int.le_refl _, fun h => (KeyMap.get?_filter.1 h).1,
      fun h => (KeyMap.get?_filter.1 h).1,
      fun h => (Option.filter_eq_some_iff.1 h).1⟩

theorem mem_listPlans {cursor : Option (Int × Str)}
    (h : p ∈ s.listPlans cursor) : ∃ k, s.plans.get? k = some p := by
  have hsorted := List.mem_of_mem_take h
  rw [List.mem_insertionSort] at hsorted
  obtain ⟨⟨k, _⟩, hm, rfl⟩ := List.mem_map.1 (List.mem_filter.1 hsorted).1
  exact ⟨k, KeyMap.mem_entries.1 hm⟩

namespace PlanInv

variable {extra : Str → Plan → Prop} {tr : Trace} {i : Nat}

theorem start (clock : Int) : PlanInv (fun _ _ => False) (AutonomyStore.empty clock) [] := by
  have hn : ∀ {k : Str} {p : Plan}, ¬ PlanCopy (fun _ _ => False) [] k p := by
    intro k p hc
    obtain hfalse | hs := hc
    · exact hfalse
    cases hs with
    | read hr => cases hr
    | listed hl => cases hl
  refine ⟨⟨fun hc => (hn hc).elim, fun hc => (hn hc).elim⟩, fun hw => ?_, fun hc => (hn hc).elim⟩
  cases hw

theorem name (hi : PlanInv (fun _ _ => False) s tr) (k0 : Str) :
    PlanInv (fun k p => k = k0 ∧ s.plans.get? k = some p) s tr := by
  have hl : ∀ k p, PlanCopy (fun k p => k = k0 ∧ s.plans.get? k = some p) tr k p →
      PlanCopy (fun _ _ => False) tr k p ∨ s.plans.get? k = some p := by
    intro k p hc
    obtain ⟨-, hr⟩ | hs := hc
    · exact .inr hr
    · exact .inl (.inr hs)
  refine ⟨hi.coherent.take Plan.Follows.refl hl, hi.row, fun {k p} hc => ?_⟩
  obtain hc | hr := hl k p hc
  · exact hi.copy hc
  · exact hi.row hr

theorem write (hi : PlanInv extra s tr) {old : Plan}
    (hJ : discipline m (own i tr) (.updatePlan p old.version)) (hw : s.plans.get? p.id = some old) :
    PlanWrite (own i tr) old p := by
  obtain ⟨id, copy, hr, hid, hv, hwr⟩ := hJ
  have hc : PlanCopy extra tr id copy := .inr (.read (mem_own.1 hr))
  have hk : p.id = id := hid.trans (hi.copy hc).1.id
  rw [hk] at hw
  rw [← hi.coherent.eq_row hc hw hv]
  exact hwr

theorem copy_cons (hi : PlanInv extra s tr) (h : CallEffect s c s' a) {k : Str}
    (hc : PlanCopy extra (⟨i, ⟨c, a⟩⟩ :: tr) k p) :
    PlanCopy extra tr k p ∨ s'.plans.get? k = some p := by
  obtain hextra | hs := hc
  · exact .inl (.inl hextra)
  cases hs with
  | read hr =>
    rcases List.mem_cons.1 hr with ⟨⟨⟩⟩ | hold
    · cases h with
      | quiet hqt => obtain ⟨_, ⟨⟩⟩ := hqt
      | getPlan hw => exact .inr hw
    · exact .inl (.inr (.read hold))
  | listed hl hp hk =>
    rcases List.mem_cons.1 hl with ⟨⟨⟩⟩ | hold
    · cases h with
      | quiet hqt => obtain ⟨_, ⟨⟩⟩ := hqt
      | listPlans =>
        obtain ⟨_, hw⟩ := mem_listPlans hp
        have hy := (hi.row hw).1.id
        rw [hk] at hy
        subst hy
        exact .inr hw
    · exact .inl (.inr (.listed hold hp hk))

theorem made_mono {e : Entry AutonomyCall AutonomyCall.Answer} (h : Made tr id) :
    Made (e :: tr) id := by
  obtain ⟨f, hf, hid⟩ := h
  exact ⟨f, .tail _ hf, hid⟩

theorem next (hi : Identified s tr) (hinv : PlanInv extra s tr) (hJ : discipline m (own i tr) c)
    (h : CallEffect s c s' a) : PlanInv extra s' (⟨i, ⟨c, a⟩⟩ :: tr) := by
  have hnext := hinv.coherent.next (Q := fun k p => p.Valid k ∧ Made (⟨i, ⟨c, a⟩⟩ :: tr) k)
    Plan.Follows.refl Plan.Follows.trans (fun _ _ => rfl) hinv.row hinv.copy
    (fun hv => ⟨hv.1, made_mono hv.2⟩) h.plans ?_ ?_ fun _ _ hc => hinv.copy_cons (i := i) h hc
  · exact ⟨hnext.1, hnext.2.1, hnext.2.2⟩
  · rintro _ _ ⟨rfl, rfl⟩
    exact ⟨fun _ hc => hi.unused (NewPlan.id hJ) (hinv.copy hc).2, NewPlan.valid hJ, _,
      .head _, rfl⟩
  · rintro _ _ _ hw ⟨rfl, rfl⟩
    have hwr := hinv.write hJ hw
    obtain ⟨hv, hm⟩ := hinv.row hw
    exact ⟨hwr.follows _, hwr.valid hv _, made_mono hm⟩

theorem env (hi : PlanInv extra s tr) (h : autonomyEnv s x = some s') :
    PlanInv extra s' tr := by
  have haged := aged_of_env h
  exact ⟨⟨fun hc hr => hi.coherent.behind hc (haged.plans hr), hi.coherent.chain⟩,
    fun hr => hi.row (haged.plans hr), hi.copy⟩

end PlanInv

/-! ## All rows in a run -/

theorem Identified.env {tr : Trace} (hi : Identified s tr)
    (h : autonomyEnv s x = some s') : Identified s' tr := by
  refine { hi with issued := fun hm => ?_ }
  rw [(aged_of_env h).issued]
  exact hi.issued hm

end KubeNeuron.Operations
