import KubeNeuron.Lib.TimeOrder
import KubeNeuron.Operations.AutonomyFence

/-!
# At most one call for each target

The row of an effect can be claimed once, so a second claim needs a row that was deleted and made
again. A row is kept as long as its plan, up to the second that the comparison of timestamps as
texts can be off (`lt_of_text_lt`); so at the second claim the plan has expired, and the fence stops
it.
-/

namespace KubeNeuron.Operations

open Lib KubeNeuron.Types Accelerator Decision Store

/-! ## Claims -/

/-- The effect that a call has claimed, when the claim is known to have succeeded. -/
def claimOf : AutonomyEvent → Option EffectID
  | ⟨.updateEffect e _, .ok _⟩ => if e.state = .executing then some e.id else none
  | _ => none

/-- The processes that have claimed the effect, newest first. -/
def claimers (k : EffectID) : Trace → List Nat
  | [] => []
  | e :: tr => if claimOf e.event = some k then e.pid :: claimers k tr else claimers k tr

/-- The process was the first to claim the effect, and has done so once. -/
def FirstClaim (i : Nat) (k : EffectID) (tr : Trace) : Prop :=
  (claimers k tr).getLast? = some i ∧ (claimers k tr).count i = 1

/-- A plan of the identifier expires at the given time or before. -/
def ExpiredBy (tr : Trace) (planID : Str) (time : Int) : Prop :=
  ∃ p, SeenPlan tr planID p ∧ p.expiresAt ≤ time

variable {e : Effect} {k : EffectID} {request : EffectRequest} {tr : Trace}

variable {i j : Nat} {ev : AutonomyEvent}

theorem claimers_cons_self (h : claimOf ev = some k) :
    claimers k (⟨i, ev⟩ :: tr) = i :: claimers k tr :=
  if_pos h

theorem claimers_cons_of_ne (h : claimOf ev ≠ some k) :
    claimers k (⟨i, ev⟩ :: tr) = claimers k tr :=
  if_neg h

theorem FirstClaim.ne_nil (h : FirstClaim i k tr) : claimers k tr ≠ [] := by
  intro hn
  have hl := h.1
  rw [hn] at hl
  cases hl

theorem FirstClaim.cons (h : FirstClaim i k tr) (hij : j ≠ i ∨ claimOf ev ≠ some k) :
    FirstClaim i k (⟨j, ev⟩ :: tr) := by
  by_cases hc : claimOf ev = some k
  · obtain hij | hij := hij
    · rw [FirstClaim, claimers_cons_self hc, List.getLast?_cons_of_ne_nil h.ne_nil,
        List.count_cons_of_ne hij]
      exact h
    · exact absurd hc hij
  · rw [FirstClaim, claimers_cons_of_ne hc]
    exact h

theorem claimers_append (tr tr' : Trace) : claimers k (tr ++ tr') = claimers k tr ++
    claimers k tr' := by
  induction tr with
  | nil => rfl
  | cons _ _ ih =>
    rw [List.cons_append, claimers, claimers]
    split
    · rw [ih, List.cons_append]
    · exact ih

theorem mem_claimers {v : Nat} (hst : e.state = .executing)
    (h : (⟨.updateEffect e v, .ok ()⟩ : AutonomyEvent) ∈ own i tr) : i ∈ claimers e.id tr := by
  obtain ⟨_, _, rfl⟩ := List.append_of_mem (mem_own.1 h)
  have hc : claimOf ⟨.updateEffect e v, .ok ()⟩ = some e.id := if_pos hst
  rw [claimers_append, claimers_cons_self hc]
  exact List.mem_append_right _ (.head _)

theorem ExpiredBy.cons {planID : Str} {time : Int} {e : Entry AutonomyCall AutonomyCall.Answer}
    (h : ExpiredBy tr planID time) : ExpiredBy (e :: tr) planID time := by
  obtain ⟨p, hs, he⟩ := h
  exact ⟨p, hs.subset (List.subset_cons_self _ _), he⟩

/-! ## The invariant -/

def Bound (tr : Trace) (k : EffectID) : Prop :=
  ∃ p, SeenPlan tr k.planID p ∧ p.state.started = true ∧ k.configDigest = p.configDigest ∧
    k.rolloutID = p.rolloutID

/-- What keeps an effect from being handed over twice. A claimed effect has a row that was written,
or its plan has expired; a process with an open claim was the first to claim, or its plan had
expired by every reading of the clock since. -/
structure OnceInv (s : AutonomyStore) (tr : Trace) : Prop where
  taken : ∀ k, claimers k tr ≠ [] →
    (∃ row, s.effects k = some row ∧ 2 ≤ row.version) ∨ ExpiredBy tr k.planID s.clock
  first : ∀ i e v after before, own i tr = after ++ ⟨.updateEffect e v, .ok ()⟩ :: before →
    e.state = .executing → (∀ ev ∈ after, ∀ f u, ev.call ≠ .updateEffect f u) →
    FirstClaim i e.id tr ∨ ExpiredBy tr e.id.planID s.clock ∧
      ∀ t, (⟨.now, t⟩ : AutonomyEvent) ∈ after → ExpiredBy tr e.id.planID t
  calls : AtEach (fun before e => ∀ request, e.event.call = .execute request →
    FirstClaim e.pid request.effectID before ∧ Bound before request.effectID) tr

namespace OnceInv

variable {m : Manager} {extra : Str → Plan → Prop} {s s' : AutonomyStore}
  {c : AutonomyCall} {a : c.Answer}

theorem start (clock : Int) : OnceInv (AutonomyStore.empty clock) [] := by
  refine ⟨fun k h => absurd rfl h, fun i e v after before h => ?_, trivial⟩
  cases after with
  | nil | cons => cases h

theorem row_kept (h : CallEffect s c s' a) {row : Effect} (hr : s.effects k = some row) :
    ∃ row', s'.effects k = some row' ∧ row.version ≤ row'.version := by
  cases h with
  | @createEffect e hn _ =>
    have hk : k ≠ e.id := by
      rintro rfl
      rw [hn] at hr
      cases hr
    exact ⟨row, (if_neg hk).trans hr, Nat.le_refl _⟩
  | @updateEffect e old hold _ =>
    by_cases hk : k = e.id
    · subst hk
      rw [hold] at hr
      cases hr
      exact ⟨_, if_pos rfl, Nat.le_succ _⟩
    · exact ⟨row, (if_neg hk).trans hr, Nat.le_refl _⟩
  | _ => exact ⟨row, hr, Nat.le_refl _⟩

theorem claimed_row (hr : RowsInv m extra s tr) {v : Nat}
    (hJ : discipline m (own i tr) (.updateEffect e v)) (hst : e.state = .executing)
    (h : CallEffect s (.updateEffect e v) s' (.ok ())) :
    (∃ old, s.effects e.id = some old ∧ old.version = 1) ∧
      ∃ row, s'.effects e.id = some row ∧ 2 ≤ row.version := by
  have hv : v = 1 := by
    cases hJ with
    | claim _ hk ha => exact (hr.effects.known hk).1.unwritten ha
    | finish _ _ he =>
      rw [hst] at he
      obtain he | he | he | he := he
      all_goals cases he
  cases h with
  | quiet hqt => obtain ⟨_, ⟨⟩⟩ := hqt
  | @updateEffect e old hw _ =>
    refine ⟨⟨old, hw, hv⟩, _, if_pos rfl, ?_⟩
    rw [hv]
    exact Nat.le_refl _

theorem taken_next (hi : OnceInv s tr) (hr : RowsInv m extra s tr) (hJ : discipline m (own i tr) c)
    (h : CallEffect s c s' a) (k : EffectID) (hclaimed : claimers k (⟨i, ⟨c, a⟩⟩ :: tr) ≠ []) :
    (∃ row, s'.effects k = some row ∧ 2 ≤ row.version) ∨
      ExpiredBy (⟨i, ⟨c, a⟩⟩ :: tr) k.planID s'.clock := by
  by_cases hc : claimOf ⟨c, a⟩ = some k
  · cases c with
    | updateEffect e =>
      cases a with
      | error => cases hc
      | ok =>
        by_cases hst : e.state = .executing
        · rw [claimOf, if_pos hst] at hc
          cases hc
          exact .inl (claimed_row hr hJ hst h).2
        · rw [claimOf, if_neg hst] at hc
          cases hc
    | _ => cases hc
  · rw [claimers_cons_of_ne hc] at hclaimed
    obtain ⟨_, hw, hv⟩ | he := hi.taken k hclaimed
    · obtain ⟨row', hw', hle⟩ := row_kept h hw
      exact .inl ⟨row', hw', Nat.le_trans hv hle⟩
    · rw [h.clock]
      exact .inr he.cons

theorem first_new (hi : OnceInv s tr) (hr : RowsInv m extra s tr) {v : Nat}
    (hJ : discipline m (own i tr) (.updateEffect e v)) (hst : e.state = .executing)
    (h : CallEffect s (.updateEffect e v) s' (.ok ())) :
    FirstClaim i e.id (⟨i, ⟨.updateEffect e v, .ok ()⟩⟩ :: tr) ∨
      ExpiredBy tr e.id.planID s.clock := by
  by_cases hn : claimers e.id tr = []
  · have hc : claimOf ⟨.updateEffect e v, .ok ()⟩ = some e.id := if_pos hst
    left
    rw [FirstClaim, claimers_cons_self hc, hn]
    exact ⟨rfl, by simp⟩
  obtain ⟨_, hw, _⟩ | he := hi.taken _ hn
  · obtain ⟨⟨_, hold, _⟩, -⟩ := claimed_row hr hJ hst h
    rw [hw] at hold
    cases hold
    omega
  · exact .inr he

theorem first_next (hi : OnceInv s tr) (hrows : RowsInv m extra s tr)
    (hJ : discipline m (own i tr) c)
    (h : CallEffect s c s' a) (j : Nat) (e : Effect) (v : Nat) (after before : History)
    (ho : own j (⟨i, ⟨c, a⟩⟩ :: tr) = after ++ ⟨.updateEffect e v, .ok ()⟩ :: before)
    (hst : e.state = .executing) (ha : ∀ ev ∈ after, ∀ f u, ev.call ≠ .updateEffect f u) :
    FirstClaim j e.id (⟨i, ⟨c, a⟩⟩ :: tr) ∨ ExpiredBy (⟨i, ⟨c, a⟩⟩ :: tr) e.id.planID s'.clock ∧
      ∀ t, (⟨.now, t⟩ : AutonomyEvent) ∈ after → ExpiredBy (⟨i, ⟨c, a⟩⟩ :: tr) e.id.planID t := by
  rw [h.clock]
  by_cases hij : i = j
  · subst hij
    rw [own_cons_self] at ho
    cases after with
    | nil =>
      cases ho
      obtain hf | he := hi.first_new hrows hJ hst h
      · exact .inl hf
      · refine .inr ⟨he.cons, fun t ht => ?_⟩
        cases ht
    | cons _ after =>
      obtain ⟨hev, htail⟩ := List.cons.inj ho
      subst hev
      have hpl : ∀ f u, c ≠ .updateEffect f u := ha _ (.head _)
      have hc : claimOf ⟨c, a⟩ ≠ some e.id := by
        cases c with
        | updateEffect f u => exact absurd rfl (hpl f u)
        | _ => exact fun hn => by cases hn
      obtain hf | ⟨he, hr⟩ := hi.first i e v after before htail hst
        fun ev' hev' => ha ev' (.tail _ hev')
      · exact .inl (hf.cons (.inr hc))
      refine .inr ⟨he.cons, fun t ht => ?_⟩
      obtain hw | hold := List.mem_cons.1 ht
      · -- the reading of the clock is the time that the plan has expired by
        cases hw
        cases h with
        | quiet hqt => cases hqt
        | now => exact he.cons
      · exact (hr t hold).cons
  · rw [own_cons_of_ne hij] at ho
    obtain hf | ⟨he, hr⟩ := hi.first j e v after before ho hst ha
    · exact .inl (hf.cons (.inl hij))
    · exact .inr ⟨he.cons, fun t ht => (hr t ht).cons⟩

theorem expiresAt_eq (hr : RowsInv m extra s tr) {k : Str} {p q : Plan} (hp : SeenPlan tr k p)
    (hq : SeenPlan tr k q) : p.expiresAt = q.expiresAt := by
  obtain hle | hle := Nat.le_total p.version q.version
  · have hfix := congrArg Plan.expiresAt (hr.plans.coherent.chain (.inr hp) (.inr hq) hle).1.fixed
    exact hfix.symm
  · have hfix := congrArg Plan.expiresAt (hr.plans.coherent.chain (.inr hq) (.inr hp) hle).1.fixed
    exact hfix

theorem calls_next (hi : OnceInv s tr) (hw : RowsInv m extra s tr)
    (hJ : discipline m (own i tr) (.execute request)) :
    FirstClaim i request.effectID tr ∧ Bound tr request.effectID := by
  obtain ⟨plan, _, admitted, current, claimedAt, checkedAt, fencedAt, before, hf⟩ := hJ
  have hsuf : before <:+ own i tr := by
    rw [hf.last]
    exact List.suffix_append _ _
  have hr : SeenPlan tr plan.id current := by
    refine .read (i := i) (mem_own.1 ?_)
    rw [hf.last]
    exact List.mem_append_left _ (.tail _ (.tail _ (.head _)))
  obtain ⟨-, hid⟩ := hw.effects.known (hf.known.mono hsuf)
  have hplanID : admitted.id.planID = plan.id := by rw [hid, hf.target.planID]
  have hq := hf.request
  subst hq
  refine ⟨?_, plan, ?_, ?_, ?_, ?_⟩
  · have ho : own i tr = [⟨.now, checkedAt⟩, ⟨.now, fencedAt⟩, ⟨.getPlan plan.id, .ok current⟩,
        ⟨.audit (lit "dispatch-effect"), .ok ()⟩] ++
        ⟨.updateEffect (admitted.claimedAt claimedAt) admitted.version, .ok ()⟩ :: before := hf.last
    obtain ht | ⟨-, hreadings⟩ := hi.first i _ _ _ _ ho rfl (by
      intro ev hev f u
      simp only [List.mem_cons, List.not_mem_nil, or_false] at hev
      obtain rfl | rfl | rfl | rfl := hev
      all_goals exact fun hc => by cases hc)
    · exact ht
    -- the fence has read a time before the plan's expiry
    obtain ⟨p, hs, _⟩ := hreadings fencedAt (.tail _ (.head _))
    have hs : SeenPlan tr admitted.id.planID p := hs
    rw [hplanID] at hs
    have he := expiresAt_eq hw hs hr
    have hunexpired := hf.envelope.unexpired
    omega
  · have hl := (hf.target.listed.mono hsuf).seen
    rw [← hplanID] at hl
    exact hl
  · have ha := hf.envelope.active
    rw [hf.envelope.state] at ha
    rcases ha with ha | ha <;> rw [ha] <;> rfl
  · exact (congrArg EffectID.configDigest hid).trans hf.target.configDigest
  · obtain ⟨rollout, hroll, hrolloutID⟩ := hf.target.rollout
    have hy : RolloutCopy tr plan.rolloutID rollout := .read (mem_own.1 (hsuf.subset hroll))
    refine (congrArg EffectID.rolloutID hid).trans ?_
    rw [← hrolloutID, (hw.rollouts.copy hy).1]

theorem env (hi : OnceInv s tr) (hw : RowsInv m extra s tr) {x : StoreEvent}
    (h : autonomyEnv s x = some s')
    (hretention : ∀ retention startedAt, x = .prune retention startedAt → 1000000000 ≤ retention) :
    OnceInv s' tr := by
  have hclk : s.clock ≤ s'.clock := (aged_of_env h).clock
  have hlater : ∀ {planID : Str}, ExpiredBy tr planID s.clock → ExpiredBy tr planID s'.clock := by
    rintro _ ⟨p, hs, he⟩
    exact ⟨p, hs, Int.le_trans he hclk⟩
  refine ⟨fun k hclaimed => ?_, fun i e v after before ho hst ha => ?_, hi.calls⟩
  · obtain ⟨row, hrow, hv⟩ | he := hi.taken k hclaimed
    · cases x with
      | tick =>
        cases h
        exact .inl ⟨row, hrow, hv⟩
      | prune retention startedAt =>
        rw [autonomyEnv] at h
        split at h
        next hg =>
          cases h
          by_cases hprunable : AutonomyStore.prunable (ts (startedAt - retention)) row.state.text
              row.expiresAt = true
          · right
            obtain ⟨p, hs, hexpiry⟩ := (hw.effects.row hrow).1.dated
            rw [(hw.effects.row hrow).2] at hs
            have hdat := (hw.plans.copy (.inr hs)).1.dated
            simp only [fourDigitYear, Bool.and_eq_true, decide_eq_true_eq] at hdat
            rw [AutonomyStore.prunable, Bool.and_eq_true, decide_eq_true_eq, hexpiry] at hprunable
            have hbound := lt_of_text_lt hdat.2 hdat.1 hprunable.1
            have hk := hretention _ _ rfl
            exact ⟨p, hs, by show p.expiresAt ≤ s.clock; omega⟩
          · left
            refine ⟨row, Option.filter_eq_some_iff.2 ⟨hrow, ?_⟩, hv⟩
            simpa using hprunable
        next => cases h
    · exact .inr (hlater he)
  · obtain hf | ⟨he, hr⟩ := hi.first i e v after before ho hst ha
    · exact .inl hf
    · exact .inr ⟨hlater he, hr⟩

end OnceInv

/-! ## The result -/

/-- What the executor is called for: the plan, the node, the action and the device. -/
def EffectID.target (k : EffectID) : Str × Str × AcceleratorAction × Str :=
  (k.planID, k.node, k.action, k.targetDeviceID)

/-- The targets that the executor was called for, newest first. -/
def calledTargets (tr : Trace) : List (Str × Str × AcceleratorAction × Str) :=
  tr.filterMap fun e => (dispatchedBy e.event.call).map EffectID.target

theorem eq_of_target {m : Manager} {extra : Str → Plan → Prop} {s : AutonomyStore}
    (hr : RowsInv m extra s tr) {k' : EffectID} (hk : Bound tr k) (hk' : Bound tr k')
    (h : k.target = k'.target) : k = k' := by
  obtain ⟨_, _, _, _, _, _⟩ := k
  obtain ⟨_, _, _, _, _, _⟩ := k'
  simp only [EffectID.target, Prod.mk.injEq] at h
  obtain ⟨rfl, rfl, rfl, rfl⟩ := h
  obtain ⟨p, hp, hs, hd, hl⟩ := hk
  obtain ⟨q, hq, hs', hd', hl'⟩ := hk'
  subst hd hd' hl hl'
  obtain hle | hle := Nat.le_total p.version q.version
  · obtain ⟨-, hd, hl, -⟩ :=
      (hr.plans.coherent.chain (.inr hp) (.inr hq) hle).1.started hs
    rw [hd, hl]
  · obtain ⟨-, hd, hl, -⟩ :=
      (hr.plans.coherent.chain (.inr hq) (.inr hp) hle).1.started hs'
    rw [hd, hl]

theorem Bound.subset {tr' : Trace} (h : Bound tr k) (hs : tr ⊆ tr') : Bound tr' k := by
  obtain ⟨p, hseen, hp⟩ := h
  exact ⟨p, hseen.subset hs, hp⟩

theorem pairwise_of_split {α : Type} {R : α → α → Prop} {l : List α}
    (h : ∀ after e between e' before, l = after ++ e :: (between ++ e' :: before) → R e e') :
    l.Pairwise R := by
  induction l with
  | nil => exact List.Pairwise.nil
  | cons e l ih =>
    refine List.pairwise_cons.2 ⟨fun e' he' => ?_, ih fun after f between f' before hl => ?_⟩
    · obtain ⟨between, before, rfl⟩ := List.append_of_mem he'
      exact h [] e between e' before rfl
    · exact h (e :: after) f between f' before (congrArg (e :: ·) hl)

theorem subset_of_append_eq {α : Type} {new old p r : List α} {e : α} (h : new ++ e :: old = p ++ r)
    (he : e ∉ p) : p ⊆ new := by
  obtain ⟨c, rfl, hc⟩ | ⟨c, rfl, -⟩ := List.append_eq_append_iff.1 h
  · cases c with
    | nil => exact fun x hx => by rwa [List.append_nil] at hx
    | cons =>
      rw [(List.cons.inj hc).1] at he
      exact absurd (List.mem_append_right _ (.head _)) he
  · exact List.subset_append_left _ _

theorem not_called_twice {between before : Trace} {i j : Nat} {request' : EffectRequest}
    {answer' : Except Str EffectResult} (hk : request'.effectID = request.effectID)
    (ha : ∃ plan current effect fencedAt checkedAt earlier,
      Authority i
        (between ++ ⟨j, ⟨.execute request', answer'⟩⟩ :: before) request plan current effect
        fencedAt checkedAt earlier)
    (hf : FirstClaim i request.effectID (between ++ ⟨j, ⟨.execute request', answer'⟩⟩ :: before))
    (hf' : FirstClaim j request'.effectID before) : False := by
  rw [hk] at hf'
  have hc : claimOf ⟨.execute request', answer'⟩ ≠ some request.effectID := fun hm => by cases hm
  rw [FirstClaim, claimers_append, claimers_cons_of_ne hc] at hf
  -- the first claim is the same for both calls, so both are by one process
  have he : i = j := by
    have hl := hf.1
    rw [List.getLast?_append_of_ne_nil _ hf'.ne_nil, hf'.1] at hl
    exact (Option.some.inj hl).symm
  subst he
  -- that process claims once more between its two calls
  have hagain : i ∈ claimers request.effectID between := by
    obtain ⟨plan, current, effect, fencedAt, checkedAt, earlier, ha⟩ := ha
    have hcalls := ha.calls
    obtain ⟨hexec, hid⟩ := ha.claim
    rw [← hid]
    apply mem_claimers (v := effect.version) hexec
    rw [own_append, own_cons_self] at hcalls
    have hs := subset_of_append_eq (p := [⟨.now, checkedAt⟩, ⟨.now, fencedAt⟩,
      ⟨.getPlan plan.id, .ok current⟩, ⟨.audit (lit "dispatch-effect"), .ok ()⟩,
      ⟨.updateEffect effect effect.version, .ok ()⟩]) (r := earlier) hcalls (by
        intro hmem
        simp only [List.mem_cons, List.not_mem_nil, or_false] at hmem
        obtain hmem | hmem | hmem | hmem | hmem := hmem
        all_goals cases hmem)
    apply hs
    simp only [List.mem_cons, true_or, or_true]
  have hn := hf.2
  rw [List.count_append, hf'.2] at hn
  have hp := List.count_pos_iff.2 hagain
  omega

/-- The retention runs that keep rows for at least a second. -/
def KeepsSecond : AutonomyOp → Prop
  | .env (.prune retention _) => 1000000000 ≤ retention
  | _ => True

instance : DecidablePred KeepsSecond
  | .env (.prune retention _) => inferInstanceAs (Decidable (1000000000 ≤ retention))
  | .env (.tick _) => .isTrue trivial
  | .start _ => .isTrue trivial
  | .step _ _ => .isTrue trivial
  | .stop _ => .isTrue trivial

/-- When every retention run keeps rows for at least a second, the executor is called at most once
for each plan, node, action and device, whatever the passes, crashes, pauses, resumes and failed
writes. -/
theorem called_once (m : Manager) (clock : Int) (ops : List AutonomyOp) (w : AutonomySystem)
    (hkeeps : ∀ op ∈ ops, KeepsSecond op)
    (hrun : exec (autonomyNext m) (AutonomySystem.start clock) ops = some w) :
    (calledTargets w.trace).Nodup := by
  have hok : Along (autonomyNext m) (fun _ op => KeepsSecond op) (AutonomySystem.start clock) ops :=
    along_of_forall hkeeps _
  obtain ⟨-, -, hauthorised⟩ := authorised_of_run hrun
  have hruns := exec_rows ?_ ?_ (Disciplined.start _) (RowsInv.start m clock)
    (OnceInv.start clock) hok hrun
  · obtain ⟨-, hrows, hinv⟩ := hruns
    apply List.pairwise_filterMap.mpr
    apply pairwise_of_split
    rintro after ⟨i, call, answer⟩ between ⟨j, call', answer'⟩ _ htrace _ htarget _ htarget'
    obtain ⟨_, hk, rfl⟩ := Option.map_eq_some_iff.mp htarget
    obtain ⟨_, hk', rfl⟩ := Option.map_eq_some_iff.mp htarget'
    cases call with
    | execute request =>
      cases call' with
      | execute request' =>
        cases hk
        cases hk'
        intro heq
        have hcalls := hinv.calls
        rw [htrace] at hcalls hauthorised
        obtain ⟨hfirst, hbound⟩ := hcalls.split request rfl
        obtain ⟨hfirst', hbound'⟩ := hcalls.drop.2.split request' rfl
        -- the two calls are for one effect, since both are bound to the plan
        have hsame : request.effectID = request'.effectID := by
          rw [htrace] at hrows
          refine eq_of_target hrows (hbound.subset ?_) (hbound'.subset ?_) heq
          · simp
          · intro e he
            simp [he]
        exact not_called_twice hsame.symm (hauthorised.split request rfl) hfirst hfirst'
      | _ => cases hk'
    | _ => cases hk
  · intro v i x c a s' _ hrows hinv hJ heffect
    refine ⟨hinv.taken_next hrows hJ heffect, hinv.first_next hrows hJ heffect, ?_, hinv.calls⟩
    rintro request rfl
    exact hinv.calls_next hrows hJ
  · intro v x s' hop hrows hinv hx
    apply hinv.env hrows hx
    rintro retention startedAt rfl
    exact hop

/-- The sample run with a retention run that keeps rows for a second: one call. -/
theorem lab_called_once : ∃ w, exec (autonomyNext labManager) (AutonomySystem.start 100)
        (labStart 100000000000 ++ labCanary ++ [.env (.prune 1000000000 100)]) = some w ∧
      (calledTargets w.trace).Nodup ∧ (calledTargets w.trace).length = 1 := by
  exact reached (by decide +kernel) fun w hw hlength =>
    ⟨called_once labManager 100 _ w (by decide +kernel) hw, hlength⟩

/-- The pass that made the call is stopped. A tenth of a second after the epoch a retention run that
keeps rows for a tenth of a second compares the expiry, half a second after the epoch, with the
epoch, and finds it smaller. The next pass dispatches the effect again. -/
def labSwept : List AutonomyOp :=
  labStart 500000000 ++ labCanary ++
    [.stop 3, .env (.tick 99999900), .env (.prune 100000000 100000000)] ++
    serve 4 (.reconcile 1)
      (labTakeUp [lit "node-1"] 100000000 ++ labDispatch (lit "node-1") (lit "d2") 100000000 ++
        labAccepted)

/-- A retention run that keeps rows for less than a second lets the executor be called twice for one
target of a live plan. -/
theorem swept_effect_called_twice :
    ∃ w, exec (autonomyNext labManager) (AutonomySystem.start 100) labSwept = some w ∧
      ¬ (calledTargets w.trace).Nodup := by
  decide +kernel

end KubeNeuron.Operations
