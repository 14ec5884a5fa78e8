import KubeNeuron.Operations.AutonomyDiscipline

/-!
# The autonomy code keeps its discipline

The programs of the autonomy code, one after another: each makes only calls that `discipline`
allows. Most of a pass is reads, audits and captures between the calls that matter; `Plainly` says
that nothing else happened, so that the batch a pass is working on, the effects it has dispatched in
it and the claim it holds are still the same.
-/

namespace KubeNeuron.Operations

open Lib KubeNeuron.Types Accelerator Decision Store

variable {m : Manager} {e : AutonomyEvent} {h h' h'' : History} {c : AutonomyCall} {plan : Plan}
  {known rollout : Rollout} {id : Str} {selected : List Str} {effect : Effect}
  {α : Type}

/-! ## Histories that grow -/

/-- A call that neither reads the inventory nor reaches the executor nor writes an effect. -/
def plainCall : AutonomyCall → Bool
  | .listNodes => false
  | .execute _ => false
  | .updateEffect _ _ => false
  | _ => true

/-- Only plain calls were made since. -/
def Plainly (h h' : History) : Prop :=
  ∃ es : History, h' = es ++ h ∧ ∀ e ∈ es, plainCall e.call = true

namespace Plainly

theorem refl (h : History) : Plainly h h := ⟨[], rfl, List.forall_mem_nil _⟩

theorem cons (he : plainCall e.call = true) (hp : Plainly h h') : Plainly h (e :: h') := by
  obtain ⟨es, rfl, hes⟩ := hp
  exact ⟨e :: es, rfl, List.forall_mem_cons.2 ⟨he, hes⟩⟩

theorem trans (hp : Plainly h h') (hq : Plainly h' h'') : Plainly h h'' := by
  obtain ⟨es, rfl, hes⟩ := hp
  obtain ⟨fs, rfl, hfs⟩ := hq
  exact ⟨fs ++ es, (List.append_assoc _ _ _).symm, List.forall_mem_append.2 ⟨hfs, hes⟩⟩

theorem now (h : History) (t : Int) : Plainly h (⟨.now, t⟩ :: h) := (refl h).cons rfl

theorem suffix (hp : Plainly h h') : h <:+ h' := by
  obtain ⟨es, rfl, -⟩ := hp
  exact List.suffix_append es h

theorem induct {P : History → Prop} (hp : Plainly h h') (h0 : P h)
    (hs : ∀ e g, plainCall e.call = true → P g → P (e :: g)) : P h' := by
  obtain ⟨es, rfl, hes⟩ := hp
  induction es with
  | nil => exact h0
  | cons e _ ih =>
    have ht := ih fun f hf => hes f (.tail _ hf)
    exact hs e _ (hes e (.head _)) ht

end Plainly

/-- The pass is still in the batch of the last inventory. -/
structure SameBatch (h h' : History) : Prop where
  suffix : h <:+ h'
  nodes : lastNodes h' = lastNodes h
  before : beforeNodes h' = beforeNodes h

namespace SameBatch

theorem refl (h : History) : SameBatch h h := ⟨List.suffix_rfl, rfl, rfl⟩

theorem trans (hs : SameBatch h h') (ht : SameBatch h' h'') : SameBatch h h'' :=
  ⟨hs.suffix.trans ht.suffix, ht.nodes.trans hs.nodes, ht.before.trans hs.before⟩

theorem cons (he : e.call ≠ .listNodes) (hs : SameBatch h h') : SameBatch h (e :: h') := by
  refine hs.trans ?_
  obtain ⟨call, _⟩ := e
  cases call with
  | listNodes => exact absurd rfl he
  | _ => exact ⟨List.suffix_cons _ _, rfl, rfl⟩

end SameBatch

theorem Plainly.sameBatch (hp : Plainly h h') : SameBatch h h' := by
  refine hp.induct (SameBatch.refl h) fun _ _ he hs => hs.cons fun hc => ?_
  rw [hc] at he
  cases he

theorem Plainly.dispatchedSince (hp : Plainly h h') : dispatchedSince h' = dispatchedSince h := by
  refine hp.induct (P := fun g => Operations.dispatchedSince g = Operations.dispatchedSince h) rfl
    fun e _ he hg => ?_
  obtain ⟨call, _⟩ := e
  cases call with
  | listNodes | execute => cases he
  | _ => exact hg

/-! ## What stays known -/

theorem Listed.mono (hl : Listed h plan) (hs : h <:+ h') : Listed h' plan := by
  obtain ⟨cursor, plans, hm, hp⟩ := hl
  exact ⟨cursor, plans, hs.subset hm, hp⟩

theorem KnownRollout.mono (hk : KnownRollout h rollout) (hs : h <:+ h') :
    KnownRollout h' rollout := by
  cases hk with
  | read hr => exact .read (hs.subset hr)
  | wrote hwrote => exact .wrote (hs.subset hwrote)

theorem RolloutOf.mono (hr : RolloutOf h plan id) (hs : h <:+ h') :
    RolloutOf h' plan id := by
  obtain ⟨rollout, hd, hid⟩ := hr
  exact ⟨rollout, hs.subset hd, hid⟩

theorem BatchOf.mono (hb : BatchOf plan h selected)
    (hs : SameBatch h h') : BatchOf plan h' selected := by
  cases hb with
  | canary hstate hn hnm hz => exact .canary hstate (hs.nodes.trans hn) hnm hz
  | expansion hstate hn hnm hl hr ht hz =>
    refine .expansion hstate (hs.nodes.trans hn) hnm ?_ (hs.suffix.subset hr) ht hz
    rw [hs.before]
    exact hl

theorem EffectFor.mono {id : EffectID} (he : EffectFor h plan id) (hs : SameBatch h h') :
    EffectFor h' plan id := by
  obtain ⟨selected, node, request, snapshot, hbat, hn, hsnap, hm⟩ := he.batch
  exact ⟨he.listed.mono hs.suffix, he.planID, he.configDigest, he.targetDeviceID, he.action,
    he.rollout.mono hs.suffix, selected, node, request, snapshot, hbat.mono hs, hn,
    hs.suffix.subset hsnap, hm⟩

theorem KnownEffect.mono {id : EffectID} (hk : KnownEffect h id effect) (hs : h <:+ h') :
    KnownEffect h' id effect := by
  cases hk with
  | read hr => exact .read (hs.subset hr)
  | created hcreate hid => exact .created (hs.subset hcreate) hid

theorem HoldsClaim.cons (hc : HoldsClaim h effect) (he : ∀ f v, e.call ≠ .updateEffect f v) :
    HoldsClaim (e :: h) effect := by
  obtain ⟨after, before, rfl, hstate, ha⟩ := hc
  exact ⟨e :: after, before, rfl, hstate, List.forall_mem_cons.2 ⟨he, ha⟩⟩

theorem HoldsClaim.plainly (hc : HoldsClaim h effect) (hp : Plainly h h') :
    HoldsClaim h' effect := by
  refine hp.induct (P := fun g => HoldsClaim g effect) hc fun e g he hg => hg.cons fun f v hl => ?_
  rw [hl] at he
  cases he

/-! ## The rules for a next call

Each says what is left to show after a call that `discipline` allows anywhere. `keeps` is the case
in which nothing is asked of the end. -/

variable {β : Type} {Q : β → History → Prop} {R : Err → History → Prop}
/-- The program keeps the discipline, and ends as asked. -/
abbrev heeds (m : Manager) (p : Op α) (Q : α → History → Prop) (R : Err → History → Prop)
    (h : History) : Prop :=
  obeys (discipline m) p Q R h

/-- The program keeps the discipline. -/
abbrev keeps (m : Manager) (p : Op α) (h : History) : Prop :=
  heeds m p (fun _ _ => True) (fun _ _ => True) h

theorem demand_or {ok : Bool} {e : Err} {f : Unit → Op β} (herr : R e h)
    (hf : ok = true → heeds m (f ()) Q R h) :
    heeds m (demand ok e >>= f) Q R h := by
  cases ok with
  | true => exact hf rfl
  | false => exact herr

theorem after_demand {ok : Bool} {e : Err} {f : Unit → Op β}
    (hf : ok = true → heeds m (f ()) Q (fun _ _ => True) h) :
    heeds m (demand ok e >>= f) Q (fun _ _ => True) h :=
  demand_or trivial hf

theorem keeps_of {p : Op β} (hp : heeds m p Q R h) : keeps m p h :=
  obeys_mono hp (fun _ _ _ => trivial) fun _ _ _ => trivial

/-- `obeys_seq` where nothing is asked of an error. -/
theorem after {p : Op α} {f : α → Op β} {P : α → History → Prop} (hp : heeds m p P R h)
    (hf : ∀ a h', h <:+ h' → P a h' → heeds m (f a) Q (fun _ _ => True) h') :
    heeds m (p >>= f) Q (fun _ _ => True) h :=
  obeys_seq hp hf fun _ _ _ _ => trivial

theorem after_now {f : Int → Op β} (hf : ∀ t, heeds m (f t) Q R (⟨.now, t⟩ :: h)) :
    heeds m (now >>= f) Q R h :=
  ⟨trivial, hf⟩

theorem suffix_now (h : History) (t : Int) : h <:+ (⟨.now, t⟩ :: h : History) :=
  List.suffix_cons _ _

theorem after_newID {kind : Str} {f : Str → Op β}
    (hf : ∀ id, heeds m (f id) Q R (⟨.newID kind, id⟩ :: h)) :
    heeds m (newID kind >>= f) Q R h :=
  ⟨trivial, hf⟩

theorem after_checked {x : Except Err α} {f : α → Op β}
    (hf : ∀ a, x = .ok a → heeds m (f a) Q (fun _ _ => True) h) :
    heeds m (Prog.ofExcept x >>= f) Q (fun _ _ => True) h := by
  cases x with
  | ok a => exact hf a rfl
  | error => trivial

theorem after_getAutonomyPlan {f : Plan → Op β}
    (hf : ∀ plan, heeds m (f plan) Q (fun _ _ => True) (⟨.getPlan id, .ok plan⟩ :: h)) :
    heeds m (getAutonomyPlan id >>= f) Q (fun _ _ => True) h := by
  refine ⟨trivial, fun a => ?_⟩
  cases a with
  | ok plan => exact hf plan
  | error => trivial

theorem after_getAutonomyRollout {f : Rollout → Op β}
    (hf : ∀ rollout, heeds m (f rollout) Q (fun _ _ => True) (⟨.getRollout id, .ok rollout⟩ :: h)) :
    heeds m (getAutonomyRollout id >>= f) Q (fun _ _ => True) h := by
  refine obeys_bind.2 (demand_or trivial fun _ => ⟨trivial, fun a => ?_⟩)
  cases a with
  | ok rollout => exact hf rollout
  | error => trivial

/-! ## Single calls -/

variable {g : c.Answer → Except Err α}

theorem obeys_asked {k : c.Answer → Op α}
    (hk : ∀ a, k a = .ofExcept (g a)) (hc : discipline m h c) :
    heeds m (.call c k) (fun b h' => ∃ a, g a = .ok b ∧ h' = ⟨c, a⟩ :: h)
      (fun e h' => ∃ a, g a = .error e ∧ h' = ⟨c, a⟩ :: h) h := by
  refine ⟨hc, fun a => ?_⟩
  rw [hk]
  exact obeys_ofExcept.2 ⟨fun b hb => ⟨a, hb, rfl⟩, fun e he => ⟨a, he, rfl⟩⟩

theorem obeys_plain {k : c.Answer → Op α}
    (hk : ∀ a, k a = .ofExcept (g a)) (hc : discipline m h c) (hpl : plainCall c = true) :
    heeds m (.call c k) (fun _ => Plainly h) (fun _ => Plainly h) h := by
  refine obeys_mono (obeys_asked hk hc) ?_ ?_
  all_goals
    rintro _ _ ⟨_, -, rfl⟩
    exact (Plainly.refl h).cons hpl

/-- A call that answers with a value or an error. -/
theorem obeys_answered {k : c.Answer → Op α} {ok : α → c.Answer}
    (hk : ∀ a, k a = .ofExcept (g a)) (hok : ∀ a b, g a = .ok b → a = ok b) (hc : discipline m h c)
    (hpl : plainCall c = true) :
    heeds m (.call c k) (fun b h' => h' = ⟨c, ok b⟩ :: h) (fun _ => Plainly h) h := by
  refine obeys_mono (obeys_asked hk hc) ?_ ?_
  · rintro b _ ⟨a, ha, rfl⟩
    rw [hok a b ha]
  · rintro _ _ ⟨_, -, rfl⟩
    exact (Plainly.refl h).cons hpl

theorem obeys_getAutonomyPlan (id : Str) :
    heeds m (getAutonomyPlan id) (fun plan h' => h' = ⟨.getPlan id, .ok plan⟩ :: h)
      (fun _ => Plainly h) h :=
  obeys_answered (fun _ => rfl) (fun _ _ ha => ha) trivial rfl

theorem obeys_getRollout (id : Str) : heeds m (.call (.getRollout id) .ofExcept : Op Rollout)
      (fun rollout h' => h' = ⟨.getRollout id, .ok rollout⟩ :: h) (fun _ => Plainly h) h :=
  obeys_answered (fun _ => rfl) (fun _ _ ha => ha) trivial rfl

theorem obeys_loadAutonomyEffect (id : EffectID) :
    heeds m (loadAutonomyEffect id) (fun effect h' => h' = ⟨.getEffect id, .ok effect⟩ :: h)
      (fun _ => Plainly h) h :=
  obeys_answered (fun _ => rfl) (fun _ _ ha => ha) trivial rfl

theorem obeys_audit (action : Str) :
    heeds m (audit action) (fun _ h' => h' = ⟨.audit action, .ok ()⟩ :: h) (fun _ => Plainly h) h :=
  obeys_answered (fun _ => rfl) (fun _ _ ha => ha) trivial rfl

theorem obeys_listNodes : heeds m listNodes (fun nodes h' => h' = ⟨.listNodes, .ok nodes⟩ :: h)
      (fun _ _ => True) h := by
  refine obeys_mono (obeys_asked (fun _ => rfl) trivial) ?_ fun _ _ _ => trivial
  rintro _ _ ⟨_, rfl, rfl⟩
  rfl

/-! ## Writes -/

theorem obeys_saveAutonomyEffect (hwr : EffectWrite h effect effect.version) :
    heeds m (saveAutonomyEffect effect)
      (fun saved h' => saved = { effect with version := effect.version + 1 } ∧
        h' = ⟨.updateEffect effect effect.version, .ok ()⟩ :: h)
      (fun _ h' => ∃ e, h' = ⟨.updateEffect effect effect.version, .error e⟩ :: h) h := by
  refine obeys_seq (obeys_asked (fun _ => rfl) hwr) ?_ ?_
  · rintro _ _ - ⟨_, rfl, rfl⟩
    exact ⟨rfl, rfl⟩
  · rintro e _ - ⟨_, rfl, rfl⟩
    exact ⟨e, rfl⟩

theorem obeys_saveAutonomyPlan {old : Plan}
    (hr : (⟨.getPlan id, .ok old⟩ : AutonomyEvent) ∈ h) (hid : plan.id = old.id)
    (hv : plan.version = old.version) (hwr : PlanWrite h old plan) :
    heeds m (saveAutonomyPlan plan) (fun _ => Plainly h) (fun _ => Plainly h) h := by
  exact obeys_seq (obeys_plain (fun _ => rfl) ⟨id, old, hr, hid, hv, hwr⟩ rfl)
    (fun _ _ _ hpl => hpl)
    fun _ _ _ hpl => hpl

theorem obeys_saveAutonomyRollout (hk : KnownRollout h known)
    (hwr : RolloutWrite h known rollout) :
    heeds m (saveAutonomyRollout rollout)
      (fun saved h' => ∃ row v, saved = { rollout with version := v + 1 } ∧ v = rollout.version ∧
        h' = ⟨.updateRollout rollout v, .ok ()⟩ :: ⟨.getRollout rollout.id, .ok row⟩ :: h)
      (fun _ => Plainly h) h := by
  refine obeys_seq (obeys_getRollout _) ?_ fun _ _ _ hp => hp
  rintro row _ - rfl
  refine demand_or ((Plainly.refl h).cons rfl) fun hok => ?_
  simp only [Bool.and_eq_true, decide_eq_true_eq] at hok
  have hc : discipline m (⟨.getRollout rollout.id, .ok row⟩ :: h)
      (.updateRollout rollout row.version) :=
    ⟨row, h, known, rfl, hok.2, hok.2, hk, hwr⟩
  refine obeys_seq (obeys_asked (fun _ => rfl) hc) ?_ ?_
  · rintro _ _ - ⟨_, rfl, rfl⟩
    exact ⟨row, row.version, rfl, hok.2, rfl⟩
  · rintro _ _ - ⟨_, -, rfl⟩
    exact ((Plainly.refl h).cons rfl).cons rfl

/-! ## Evidence -/

theorem obeys_ensureAutonomyEffectEnvelope (expected : Plan) :
    heeds m (ensureAutonomyEffectEnvelope m expected)
      (fun _ h' => ∃ current time, h' = ⟨.now, time⟩ :: ⟨.getPlan expected.id, .ok current⟩ :: h ∧
        Envelope expected current time)
      (fun _ => Plainly h) h := by
  refine obeys_seq (obeys_getAutonomyPlan _) ?_ fun _ _ _ hp => hp
  rintro current _ - rfl
  have hr : Plainly h (⟨.getPlan expected.id, .ok current⟩ :: h) := (Plainly.refl h).cons rfl
  refine demand_or hr fun hactv => ?_
  simp only [Bool.and_eq_true, Bool.or_eq_true, decide_eq_true_eq] at hactv
  obtain ⟨⟨hv, hstate⟩, hl⟩ := hactv
  refine demand_or hr fun hroll => ?_
  refine demand_or hr fun hd => ?_
  refine after_now fun time => ?_
  refine demand_or (hr.cons rfl) fun ht => ?_
  cases ha : allRolesApproved current with
  | false => exact hr.cons rfl
  | true =>
    exact ⟨current, time, rfl, hv, hstate, hl, of_decide_eq_true hroll,
      of_decide_eq_true hd, of_decide_eq_true ht, ha⟩

theorem obeys_autonomyDecisionRequest (plan : Plan) (node targetDeviceID : Str) :
    heeds m (autonomyDecisionRequest m plan node targetDeviceID)
      (fun _ => Plainly h) (fun _ => Plainly h) h := by
  rw [autonomyDecisionRequest]
  split
  · exact Plainly.refl h
  · refine demand_or (Plainly.refl _) fun _ => ?_
    exact obeys_try (obeys_plain (fun _ => rfl) trivial rfl) (fun _ _ _ hp => hp) fun _ _ _ hp => hp

theorem obeys_buildAutonomySnapshot (plan : Plan) (node targetDeviceID : Str) (exhausted : Bool) :
    heeds m (buildAutonomySnapshot m plan node targetDeviceID exhausted)
      (fun snapshot h' => Plainly h h' ∧ ∃ request built,
        (⟨.buildSnapshot node request, .ok built⟩ : AutonomyEvent) ∈ h' ∧
          snapshot.node.name = built.node.name)
      (fun _ => Plainly h) h := by
  refine obeys_seq (obeys_autonomyDecisionRequest plan node targetDeviceID) ?_ fun _ _ _ hp => hp
  rintro ⟨request, _⟩ _ - hp
  refine obeys_try (obeys_answered (fun _ => rfl) (fun _ _ ha => ha) trivial rfl) ?_ fun _ _ _ hq =>
    hp.trans hq
  rintro built _ - rfl
  refine demand_or (hp.cons rfl) fun _ => ?_
  exact ⟨hp.cons rfl, request, built, .head _, rfl⟩

theorem obeys_captureDecision (snapshot : Decision.Snapshot) : heeds m (captureDecision m snapshot)
      (fun captured h' => Plainly h h' ∧ captured.snapshot.node = snapshot.node ∧
        captured.snapshot.request = snapshot.request)
      (fun _ => Plainly h) h := by
  refine after_now fun time => ?_
  refine after_newID fun id => ?_
  have hp : Plainly h (⟨.newID (lit "decision"), id⟩ :: ⟨.now, time⟩ :: h) :=
    ((Plainly.refl h).cons rfl).cons rfl
  refine obeys_seq (obeys_plain (fun _ => rfl) trivial rfl) ?_ fun _ _ _ hq => hp.trans hq
  intro _ h1 _ hq
  refine obeys_seq (obeys_audit _) ?_ fun _ _ _ hr => (hp.trans hq).trans hr
  rintro _ _ - rfl
  refine ⟨(hp.trans hq).cons rfl, ?_, ?_⟩
  · dsimp only
    split <;> rfl
  · dsimp only
    split <;> rfl

/-! ## The hand-over to the executor -/

/-- The pass is still in its batch, and the effects dispatched in it since are the one that is
returned, if any. -/
structure Handed (h h' : History) (returned : Option Effect) : Prop where
  batch : SameBatch h h'
  dispatched : ∀ k ∈ dispatchedSince h', k ∈ dispatchedSince h ∨ ∃ effect ∈ returned, effect.id = k

theorem Plainly.handed (hp : Plainly h h') (returned : Option Effect) :
    Handed h h' returned := by
  refine ⟨hp.sameBatch, fun k hk => .inl ?_⟩
  rwa [hp.dispatchedSince] at hk

namespace Handed

variable {returned : Option Effect}

theorem trans (hh : Handed h h' returned) (hn : Handed h' h'' returned) :
    Handed h h'' returned := by
  refine ⟨hh.batch.trans hn.batch, fun k hk => ?_⟩
  obtain hk | hk := hn.dispatched k hk
  · exact hh.dispatched k hk
  · exact .inr hk

theorem plainly (hh : Handed h h' returned) (hp : Plainly h' h'') : Handed h h'' returned :=
  hh.trans (hp.handed _)

theorem wrote (hh : Handed h h' returned) {v : Nat} {a : Except Err Unit} :
    Handed h (⟨.updateEffect effect v, a⟩ :: h') returned :=
  ⟨hh.batch.cons (fun hc => by cases hc), hh.dispatched⟩

end Handed

theorem Plainly.obeys_handed {m : Manager} {p : Op (Option Effect × α)} (hp : Plainly h h')
    (hh : heeds m p (fun d g => Handed h' g d.1) (fun _ _ => False) h') :
    heeds m p (fun d g => Handed h g d.1) (fun _ _ => False) h' :=
  obeys_mono hh (fun _ _ hd => (hp.handed _).trans hd) fun _ _ hfalse => hfalse

theorem obeys_blockAutonomyEffect {claimed : Effect} (hh : HoldsClaim h claimed)
    (he : effect = { claimed with version := claimed.version + 1 }) (reason : Str) :
    heeds m (blockAutonomyEffect effect reason) (fun _ h' => ∀ d, Handed h h' d)
      (fun _ h' => ∀ d, Handed h h' d) h := by
  subst he
  refine after_now fun time => ?_
  have hp := Plainly.now h time
  refine obeys_seq (obeys_saveAutonomyEffect ?_) ?_ ?_
  · exact .finish (hh.plainly hp) rfl (.inr (.inr (.inr rfl))) rfl rfl rfl
  · rintro _ _ - ⟨rfl, rfl⟩
    refine obeys_seq (obeys_audit _) ?_ fun _ _ _ hq d => ((hp.handed d).wrote).plainly hq
    rintro _ _ - rfl
    exact fun d => ((hp.handed d).wrote).plainly ((Plainly.refl _).cons rfl)
  · rintro _ _ - ⟨_, rfl⟩
    exact fun d => (hp.handed d).wrote

theorem obeys_refuseDispatch {claimed : Effect} (ho : HoldsClaim h claimed)
    (he : effect = { claimed with version := claimed.version + 1 }) (e : Err) :
    heeds m (refuseDispatch effect e) (fun d h' => Handed h h' d.1) (fun _ _ => False) h := by
  exact obeys_try (obeys_blockAutonomyEffect ho he e.text) (fun _ _ _ hh => hh _)
    fun _ _ _ hh => hh _

theorem ended_recordOutcome (effect : Effect) (time : Int) (result : Except Str EffectResult) :
    (recordOutcome effect time result).state.ended := by
  cases result with
  | error => exact .inr (.inr (.inl rfl))
  | ok =>
    simp only [recordOutcome]
    split
    · exact .inl rfl
    split
    · exact .inr (.inl rfl)
    split
    · exact .inr (.inr (.inl rfl))
    · exact .inr (.inr (.inl rfl))

theorem obeys_callExecutor {claimed : Effect} (hh : HoldsClaim h claimed)
    (hf : effect = { claimed with version := claimed.version + 1 })
    (hfen : discipline m h (.execute (effectRequest effect))) :
    heeds m (callExecutor effect) (fun d h' => Handed h h' d.1) (fun _ _ => False) h := by
  refine ⟨hfen, fun result => ?_⟩
  -- the call itself: the claim is still held, and the effect is dispatched
  have hcalled : HoldsClaim (⟨.execute (effectRequest effect), result⟩ :: h) claimed :=
    hh.cons fun _ _ hc => by cases hc
  have hs : ∀ d : Effect, d.id = effect.id →
      Handed h (⟨.execute (effectRequest effect), result⟩ :: h) (some d) := by
    intro d hd
    refine ⟨(SameBatch.refl h).cons (fun hc => by cases hc), fun k hk => ?_⟩
    obtain _ | ⟨_, hk⟩ := hk
    · exact .inr ⟨d, rfl, hd⟩
    · exact .inl hk
  refine after_now fun time => ?_
  have hid : (recordOutcome effect time result).id = effect.id := by cases result <;> rfl
  have hp := Plainly.now (⟨.execute (effectRequest effect), result⟩ :: h) time
  have hwr : EffectWrite (⟨.now, time⟩ :: ⟨.execute (effectRequest effect), result⟩ :: h)
      (recordOutcome effect time result) (recordOutcome effect time result).version := by
    have hn : (recordOutcome effect time result).version = claimed.version + 1 := by
      subst hf
      cases result <;> rfl
    rw [hn]
    refine .finish (hcalled.plainly hp) ?_ (ended_recordOutcome _ _ _) ?_ ?_ ?_
    all_goals
      subst hf
      cases result <;> rfl
  refine obeys_try (obeys_saveAutonomyEffect hwr) ?_ ?_
  · rintro _ _ - ⟨rfl, rfl⟩
    have hsaved : ∀ d : Effect, d.id = effect.id → Handed h
        (⟨.updateEffect (recordOutcome effect time result)
          (recordOutcome effect time result).version,
          .ok ()⟩ :: ⟨.now, time⟩ :: ⟨.execute (effectRequest effect), result⟩ :: h) (some d) :=
      fun d hd => ((hs d hd).plainly hp).wrote
    refine obeys_try (obeys_audit _) ?_ ?_
    · rintro _ _ - rfl
      exact (hsaved _ (by exact hid)).plainly ((Plainly.refl _).cons (by rfl))
    · intro _ _ _ hq
      exact (hsaved _ (by exact hid)).plainly hq
  · rintro _ _ - ⟨_, rfl⟩
    exact ((hs _ hid).plainly hp).wrote

theorem obeys_dispatchClaimed {id : EffectID} {admitted : Effect} {claimedAt : Int}
    {before : History} (hstate : admitted.state = .admitted) (hk : KnownEffect before id admitted)
    (ht : EffectFor before plan id)
    (hh : h = ⟨.updateEffect (admitted.claimedAt claimedAt) admitted.version, .ok ()⟩ :: before)
    (hf : effect = { admitted.claimedAt claimedAt with version := admitted.version + 1 }) :
    heeds m (dispatchClaimed m plan effect) (fun d h' => Handed h h' d.1) (fun _ _ => False) h := by
  have ho : HoldsClaim h (admitted.claimedAt claimedAt) := by
    refine ⟨[], before, hh, rfl, fun e he => ?_⟩
    cases he
  refine obeys_try (obeys_audit _) ?_ fun _ _ _ hp => hp.handed _
  rintro _ _ - rfl
  have hp1 : Plainly h (⟨.audit (lit "dispatch-effect"), .ok ()⟩ :: h) := (Plainly.refl h).cons rfl
  refine obeys_try (obeys_ensureAutonomyEffectEnvelope plan) ?_ ?_
  · rintro _ _ - ⟨current, fencedAt, rfl, henvelope⟩
    have hp2 := (hp1.cons (e := ⟨.getPlan plan.id, .ok current⟩) rfl).cons
        (e := ⟨.now, fencedAt⟩) rfl
    refine after_now fun checkedAt => ?_
    have hp3 := hp2.cons (e := ⟨.now, checkedAt⟩) rfl
    split
    · rename_i hdl
      refine hp3.obeys_handed (obeys_callExecutor (ho.plainly hp3) hf ?_)
      refine ⟨plan, id, admitted, current, claimedAt, checkedAt, fencedAt, before, ?_⟩
      subst hh hf
      exact ⟨rfl, hk, hstate, rfl, ht, henvelope, hdl⟩
    · exact hp3.obeys_handed (obeys_refuseDispatch (ho.plainly hp3) hf _)
  · intro e h1 _ hp2
    exact (hp1.trans hp2).obeys_handed (obeys_refuseDispatch (ho.plainly (hp1.trans hp2)) hf _)

theorem obeys_claimEffect {id : EffectID}
    (hn : KnownEffect h id effect) (ht : EffectFor h plan id) :
    heeds m (claimEffect m plan effect) (fun d h' => Handed h h' d.1) (fun _ _ => False) h := by
  have hstay : ∀ d, Handed h h d := fun d => (Plainly.refl h).handed d
  rw [claimEffect]
  split
  all_goals try exact hstay _
  rename_i hstate
  refine after_now fun time => ?_
  have hp := Plainly.now h time
  refine obeys_try (obeys_saveAutonomyEffect ?_) ?_ ?_
  · exact EffectWrite.claim time (hn.mono hp.suffix) hstate
  · rintro _ _ - ⟨rfl, rfl⟩
    refine obeys_mono (obeys_dispatchClaimed hstate (hn.mono hp.suffix) (ht.mono hp.sameBatch)
      rfl rfl) ?_ fun _ _ hfalse => hfalse
    intro d h' hd
    refine Handed.trans ?_ hd
    exact (hp.handed d.1).wrote
  · rintro _ _ - ⟨_, rfl⟩
    exact (hp.handed _).wrote

theorem obeys_admitEffect {id : EffectID} {captured : Captured}
    (ht : EffectFor h plan id) (hm : captured.decision.permitted = true) :
    heeds m (admitEffect m plan id captured) (fun d h' => Handed h h' d.1)
      (fun _ _ => False) h := by
  refine after_now fun time => ?_
  have hp := Plainly.now h time
  refine obeys_try (obeys_answered (fun _ => rfl) (fun _ _ ha => ha) ?_ rfl) ?_ ?_
  · exact ⟨rfl, rfl, hm, rfl, plan, ht.mono hp.sameBatch, rfl⟩
  · rintro _ _ - rfl
    have hp1 := hp.cons (e := ⟨.createEffect (admittedEffect plan id captured time), .ok ()⟩) rfl
    refine obeys_try (obeys_audit _) ?_ fun _ _ _ hq => (hp1.trans hq).handed _
    rintro _ _ - rfl
    have hp2 := hp1.cons (e := ⟨.audit (lit "admit-effect"), .ok ()⟩) rfl
    exact hp2.obeys_handed (obeys_claimEffect (.created (.tail _ (.head _)) rfl)
      (ht.mono hp2.sameBatch))
  · intro createErr h1 _ hq
    dsimp only
    split
    · exact (hp.trans hq).handed _
    refine obeys_try (obeys_loadAutonomyEffect id) ?_ fun _ _ _ hr =>
      ((hp.trans hq).trans hr).handed _
    rintro existing _ - rfl
    have hp2 := (hp.trans hq).cons (e := ⟨.getEffect id, .ok existing⟩) rfl
    exact hp2.obeys_handed (obeys_claimEffect (.read (.head _)) (ht.mono hp2.sameBatch))

theorem obeys_executeAutonomyEffect {captured : Captured} {node : Str} {request : Decision.Request}
    {built : Decision.Snapshot}
    (hlisted : Listed h plan) (hof : RolloutOf h plan rollout.id) (hbat : BatchOf plan h selected)
    (hn : node ∈ selected) (hbuilt : (⟨.buildSnapshot node request, .ok built⟩ : AutonomyEvent) ∈ h)
    (hname : captured.snapshot.node.name = built.node.name)
    (hm : captured.decision.permitted = true) :
    heeds m (executeAutonomyEffect m plan rollout captured)
      (fun d h' => Handed h h' d.1) (fun _ _ => False) h := by
  rw [executeAutonomyEffect]
  split
  · exact (Plainly.refl h).handed _
  have ht : EffectFor h plan (autonomyEffectID plan rollout.id captured.snapshot.node.name
      (plan.allowedActions.headD (.other [])) (trimSpace plan.targetDeviceID)) :=
    ⟨hlisted, rfl, rfl, rfl, rfl, hof, selected, node, request, built, hbat, hn, hbuilt, hname⟩
  refine obeys_try (obeys_loadAutonomyEffect _) ?_ ?_
  · rintro effect _ - rfl
    have hp := (Plainly.refl h).cons (e := ⟨.getEffect (autonomyEffectID plan rollout.id
      captured.snapshot.node.name (plan.allowedActions.headD (.other []))
      (trimSpace plan.targetDeviceID)), .ok effect⟩) rfl
    exact hp.obeys_handed (obeys_claimEffect (.read (.head _)) (ht.mono hp.sameBatch))
  intro e h1 _ hp
  dsimp only
  split
  · exact hp.obeys_handed (obeys_admitEffect (ht.mono hp.sameBatch) hm)
  · exact hp.handed _

/-! ## A batch -/

/-- The pass is working through the batch: `observations` are those of the nodes done, `rollout` is
the one the process knows but for its hourly budget, and every effect dispatched in the batch was
observed. -/
structure InBatch (h : History) (plan : Plan) (selected rest : List Str) (rollout : Rollout)
    (observations : List Observation) : Prop where
  listed : Listed h plan
  batch : BatchOf plan h selected
  size : observations.length + rest.length = selected.length
  rest : ∀ n ∈ rest, n ∈ selected
  known : ∃ known window actions, KnownRollout h known ∧ rollout = known.spent window actions
  of : RolloutOf h plan rollout.id
  observed : ∀ k ∈ dispatchedSince h, ∃ o ∈ observations, o.effectID = some k

/-- A batch that was worked through: the rollout is the known one with the observations of the batch
appended. -/
structure BatchDone (h : History) (plan : Plan) (selected : List Str)
    (rollout : Rollout) : Prop where
  listed : Listed h plan
  batch : BatchOf plan h selected
  of : RolloutOf h plan rollout.id
  known : ∃ known window actions observations, KnownRollout h known ∧
    rollout = { known.spent window actions with
      observations := known.observations ++ observations } ∧
      observations.length = selected.length ∧
      ∀ k ∈ dispatchedSince h, ∃ o ∈ observations, o.effectID = some k

theorem InBatch.plainly {rest : List Str}
    {observations : List Observation} (hb : InBatch h plan selected rest rollout observations)
    (hp : Plainly h h') : InBatch h' plan selected rest rollout observations := by
  obtain ⟨known, window, actions, hk, hr⟩ := hb.known
  refine ⟨hb.listed.mono hp.suffix, hb.batch.mono hp.sameBatch, hb.size, hb.rest,
    ⟨known, window, actions, hk.mono hp.suffix, hr⟩, hb.of.mono hp.suffix, ?_⟩
  rw [hp.dispatchedSince]
  exact hb.observed

theorem RolloutWrite.failed {window : Option Int} {actions : Int}
    (hr : rollout = known.spent window actions) (observations : List Observation) :
    RolloutWrite h known { rollout with observations, failures := rollout.failures + 1 } := by
  subst hr
  exact .fail window actions observations

theorem InBatch.saved {rest : List Str}
    {observations : List Observation} (hb : InBatch h plan selected rest rollout observations)
    {row : Rollout} {window : Option Int} {actions : Int} {v : Nat} :
    InBatch (⟨.updateRollout (rollout.spent window actions) v, .ok ()⟩ ::
        ⟨.getRollout rollout.id, .ok row⟩ :: h)
      plan selected rest { rollout.spent window actions with version := v + 1 } observations := by
  have hp : Plainly h (⟨.updateRollout (rollout.spent window actions) v, .ok ()⟩ ::
      ⟨.getRollout rollout.id, .ok row⟩ :: h) := ((Plainly.refl h).cons rfl).cons rfl
  have hpl := hb.plainly hp
  exact ⟨hpl.listed, hpl.batch, hpl.size, hpl.rest,
    ⟨_, window, actions, .wrote (.head _), rfl⟩, hpl.of, hpl.observed⟩

theorem obeys_admitNodes (targetDeviceID : Str) (selected rest : List Str) :
    ∀ {h : History} {rollout : Rollout} {observations : List Observation},
      InBatch h plan selected rest rollout observations →
      heeds m (admitNodes m plan targetDeviceID rest rollout observations)
        (fun rollout' h' => BatchDone h' plan selected rollout') (fun _ _ => True) h := by
  induction rest with
  | nil =>
    intro h rollout observations hb
    obtain ⟨known, window, actions, hknown, rfl⟩ := hb.known
    refine ⟨hb.listed, hb.batch, hb.of, known, window, actions, observations, hknown, rfl, ?_,
      hb.observed⟩
    exact hb.size
  | cons node rest ih =>
    intro h rollout observations hb
    have hnode : node ∈ selected := hb.rest node (.head _)
    have ht : ∀ n ∈ rest, n ∈ selected := fun n hn => hb.rest n (.tail _ hn)
    have hz : ∀ o : Observation, (observations ++ [o]).length + rest.length = selected.length := by
      have hz := hb.size
      simp only [List.length_cons, List.length_append, List.length_nil] at hz ⊢
      omega
    refine after (obeys_ensureAutonomyEffectEnvelope plan) ?_
    rintro _ _ - ⟨current, time, rfl, -⟩
    have hb1 := hb.plainly (((Plainly.refl h).cons (e := ⟨.getPlan plan.id, .ok current⟩) rfl).cons
      (e := ⟨.now, time⟩) rfl)
    refine after (obeys_buildAutonomySnapshot plan node targetDeviceID _) ?_
    rintro snapshot h2 - ⟨hp2, request, built, hbuilt, hname⟩
    refine after (obeys_captureDecision snapshot) ?_
    rintro captured h3 - ⟨hp3, hsnap, -⟩
    have hb3 := (hb1.plainly hp2).plainly hp3
    obtain ⟨known, window, actions, hknown, hr⟩ := hb3.known
    split
    · -- the node is not eligible: the batch ends
      refine obeys_try (obeys_saveAutonomyRollout hknown ?_) (fun _ _ _ _ => trivial)
        fun _ _ _ _ => trivial
      subst hr
      exact .observe window actions _
    rename_i hm
    split
    · refine ih ⟨hb3.listed, hb3.batch, hz _, ht, hb3.known, hb3.of, fun k hk => ?_⟩
      obtain ⟨o, ho, hok⟩ := hb3.observed k hk
      exact ⟨o, List.mem_append_left _ ho, hok⟩
    refine after_demand fun _ => ?_
    refine after (obeys_saveAutonomyRollout hknown ?_) ?_
    · subst hr
      exact .spend window _
    rintro _ _ - ⟨row, v, rfl, -, rfl⟩
    have hb4 : InBatch (⟨.updateRollout (rollout.spent rollout.actionWindowAt
        (rollout.actionsThisHour + 1)) v, .ok ()⟩ :: ⟨.getRollout rollout.id, .ok row⟩ :: h3)
        plan selected (node :: rest) { rollout.spent rollout.actionWindowAt
          (rollout.actionsThisHour + 1) with version := v + 1 } observations := hb3.saved
    have hbuilt4 := hp3.suffix.subset hbuilt
    refine obeys_seq (obeys_executeAutonomyEffect hb4.listed hb4.of hb4.batch hnode
      (.tail _ (.tail _ hbuilt4))
      ((congrArg Decision.Node.name hsnap).trans hname) ?_) ?_ fun _ _ _ hfalse => hfalse.elim
    · simpa using hm
    rintro ⟨returned, _⟩ h5 hs5 hd
    cases returned with
    | none => trivial
    | some effect =>
      obtain ⟨known4, window4, actions4, hknown4, hr4⟩ := hb4.known
      have hobs : ∀ k ∈ dispatchedSince h5,
          ∃ o ∈ observations ++ [⟨node, some effect.id⟩], o.effectID = some k := by
        intro k hk
        obtain hk | ⟨_, he', rfl⟩ := hd.dispatched k hk
        · obtain ⟨o, ho, hok⟩ := hb4.observed k hk
          exact ⟨o, List.mem_append_left _ ho, hok⟩
        · cases he'
          exact ⟨_, List.mem_append_right _ (.head _), rfl⟩
      dsimp only
      split
      · -- the effect failed: the batch ends
        refine obeys_try (obeys_saveAutonomyRollout (hknown4.mono hs5) ?_)
          (fun _ _ _ _ => trivial) fun _ _ _ _ => trivial
        exact .failed hr4 _
      · exact ih ⟨hb4.listed.mono hs5, hb4.batch.mono hd.batch, hz _, ht,
          ⟨known4, window4, actions4, hknown4.mono hs5, hr4⟩, hb4.of.mono hs5,
          hobs⟩

theorem obeys_admitAutonomyTargets (hlisted : Listed h plan)
    (hbat : BatchOf plan h selected) (hfr : dispatchedSince h = []) :
    heeds m (admitAutonomyTargets m plan selected)
      (fun rollout h' => BatchDone h' plan selected rollout) (fun _ _ => True) h := by
  refine after_getAutonomyRollout fun rollout => ?_
  refine after_now fun time => ?_
  have hp : Plainly h (⟨.now, time⟩ :: ⟨.getRollout plan.rolloutID, .ok rollout⟩ :: h) :=
    ((Plainly.refl h).cons rfl).cons rfl
  have hwindow : ∃ window actions, rollout.openWindow time = rollout.spent window actions := by
    rw [Rollout.openWindow]
    split
    · exact ⟨some time, 0, rfl⟩
    · exact ⟨rollout.actionWindowAt, rollout.actionsThisHour, rfl⟩
  obtain ⟨window, actions, ho⟩ := hwindow
  refine after_demand fun _ => ?_
  refine obeys_admitNodes _ selected selected ⟨hlisted.mono hp.suffix, hbat.mono hp.sameBatch, ?_,
    fun n hn => hn, ⟨rollout, window, actions, .read (.tail _ (.head _)), ho⟩,
    ⟨rollout, .tail _ (.head _), ?_⟩, ?_⟩
  · rw [List.length_nil, Nat.zero_add]
  · rw [ho]
    rfl
  · rw [hp.dispatchedSince, hfr]
    intro k hk
    cases hk

theorem BatchDone.plainly
    (hb : BatchDone h plan selected rollout) (hp : Plainly h h') :
    BatchDone h' plan selected rollout := by
  obtain ⟨known, window, actions, observations, hk, hr, hz, hobs⟩ := hb.known
  refine ⟨hb.listed.mono hp.suffix, hb.batch.mono hp.sameBatch, hb.of.mono hp.suffix, known, window,
    actions, observations, hk.mono hp.suffix, hr, hz, ?_⟩
  rw [hp.dispatchedSince]
  exact hobs

theorem BatchDone.ids (hb : BatchDone h plan selected rollout) :
    ∀ k ∈ dispatchedSince h, k ∈ latestAutonomyEffectIDs rollout.observations selected.length := by
  obtain ⟨_, observations, _, _, -, rfl, hz, hobs⟩ := hb.known
  intro k hk
  obtain ⟨o, ho, hok⟩ := hobs k hk
  rw [← hz, latestAutonomyEffectIDs, List.length_append, Nat.add_sub_cancel, List.drop_left]
  exact List.mem_filterMap.2 ⟨o, ho, hok⟩

/-! ## The lifecycle -/

theorem obeys_followPlan (plan : Plan) (reason : Str) : keeps m (followPlan plan reason) h := by
  rw [followPlan]
  split
  · trivial
  · refine obeys_bind.2 (after_getAutonomyRollout fun rollout => ?_)
    exact keeps_of (obeys_saveAutonomyRollout (.read (.head _)) (.follow _ reason))

theorem obeys_auditEnd (action : Str) (a : α) : keeps m (audit action >>= fun _ => pure a) h :=
  after (obeys_audit action) fun _ _ _ _ => trivial

theorem obeys_transitionAutonomyPlan (planID : Str) {target : PlanState}
    (ht : target = .paused ∨ target = .rolledBack ∨ target = .expired) (reason : Str)
    (expectedVersion : Int) :
    keeps m (transitionAutonomyPlan m planID target reason expectedVersion) h := by
  refine after_getAutonomyPlan fun plan => ?_
  refine after_demand fun _ => ?_
  refine after_demand fun hl => ?_
  refine after_demand fun _ => ?_
  refine after (obeys_saveAutonomyPlan (.head _) rfl rfl (.transition target ?_ ht)) ?_
  · simpa using hl
  intro saved h1 _ _
  exact obeys_try (obeys_followPlan _ _) (fun _ _ _ _ => obeys_auditEnd _ _) fun _ _ _ _ =>
    obeys_auditEnd _ _

theorem obeys_moveAutonomyPlan {expected : Plan} {state : PlanState} (reason : Str)
    (hlisted : Listed h expected)
    (hwr : ∀ old, Unchanged (⟨.getPlan expected.id, .ok old⟩ :: h) old expected →
      PlanWrite (⟨.getPlan expected.id, .ok old⟩ :: h) old { old with state }) :
    keeps m (moveAutonomyPlan expected state reason) h := by
  refine after_getAutonomyPlan fun plan => ?_
  refine after_demand fun he => ?_
  simp only [Bool.and_eq_true, decide_eq_true_eq] at he
  obtain ⟨⟨⟨hv, hstate⟩, -⟩, -⟩ := he
  have hunc : Unchanged (⟨.getPlan expected.id, .ok plan⟩ :: h) plan expected :=
    ⟨hlisted.mono (List.suffix_cons _ _), hv, hstate⟩
  refine after (obeys_saveAutonomyPlan (.head _) rfl rfl (hwr plan hunc)) fun _ _ _ _ => ?_
  exact after (obeys_followPlan _ _) fun _ _ _ _ => keeps_of (obeys_audit _)

theorem RolloutWrite.same_row (hw : RolloutWrite h known rollout) :
    rollout.id = known.id ∧ rollout.version = known.version := by
  cases hw with
  | _ => exact ⟨rfl, rfl⟩

theorem obeys_recordBatch {recorded : Rollout} (hlisted : Listed h plan)
    (hstate : plan.state = .canary ∨ plan.state = .expanding) (hk : KnownRollout h known)
    (hof : RolloutOf h plan known.id) (hwr : RolloutWrite h known recorded)
    (hunm : recorded.bakeMeasuredAt = none) (reason : Rollout → Str) :
    heeds m
      (saveAutonomyRollout recorded >>= fun saved => moveAutonomyPlan plan .baking (reason saved))
      (fun _ _ => True) (fun _ _ => True) h := by
  refine after (obeys_saveAutonomyRollout hk hwr) ?_
  rintro _ _ hs ⟨_, _, -, -, rfl⟩
  refine obeys_moveAutonomyPlan _ (hlisted.mono hs) fun old he => ?_
  have hof : RolloutOf h plan recorded.id := by
    rw [hwr.same_row.1]
    exact hof
  exact .bake he hstate rfl hunm (hof.mono (hs.trans (List.suffix_cons _ _)))

theorem obeys_admitAutonomyCanary (hlisted : Listed h plan) (hstate : plan.state = .canary) :
    keeps m (admitAutonomyCanary m plan) h := by
  refine after_demand fun _ => ?_
  refine after obeys_listNodes ?_
  rintro nodes _ hs rfl
  refine after_checked fun names hnm => ?_
  refine after_demand fun hz => ?_
  rw [decide_eq_true_eq] at hz
  refine after (obeys_admitAutonomyTargets (hlisted.mono hs) (.canary hstate rfl hnm hz) rfl) ?_
  intro rollout h1 _ hd
  refine after_now fun time => ?_
  have hd := hd.plainly (.now h1 time)
  have hi := hd.ids
  obtain ⟨known, window, actions, _, hk, rfl, -⟩ := hd.known
  have hof : RolloutOf _ plan known.id := hd.of
  exact obeys_recordBatch hd.listed (.inl hstate) hk hof
    (.canary window actions _ time hd.listed hstate hof hd.batch hi) rfl _

theorem obeys_expandTowards {target : Int} (hlisted : Listed h plan)
    (hstate : plan.state = .expanding) (hl : lastRollout h = some rollout)
    (hr : (⟨.getRollout plan.rolloutID, .ok rollout⟩ : AutonomyEvent) ∈ h)
    (ht : nextAutonomyExpansionTarget plan rollout = some target) :
    keeps m (expandTowards m plan rollout target) h := by
  have hless : ((usedNodes rollout).length) < target := by simpa using List.find?_some ht
  refine after obeys_listNodes ?_
  rintro nodes _ hs rfl
  refine after_checked fun names hnm => ?_
  -- the target lies ahead, so that the branch for a target already reached is never taken
  rw [if_neg (by omega)]
  refine after_demand fun hz => ?_
  rw [decide_eq_true_eq] at hz
  refine after (obeys_admitAutonomyTargets (hlisted.mono hs)
    (.expansion hstate rfl hnm hl (hs.subset hr) ht hz) rfl) ?_
  intro latest h1 _ hd
  refine after_now fun time => ?_
  have hd := hd.plainly (.now h1 time)
  have hi := hd.ids
  obtain ⟨known, window, actions, _, hk, rfl, -⟩ := hd.known
  have hof : RolloutOf _ plan known.id := hd.of
  exact obeys_recordBatch hd.listed (.inr hstate) hk hof
    (.expand window actions _ time hd.listed hstate hof hd.batch hi) rfl _

theorem obeys_admitAutonomyExpansion (hlisted : Listed h plan) (hstate : plan.state = .expanding) :
    keeps m (admitAutonomyExpansion m plan) h := by
  refine after_demand fun _ => ?_
  refine after_getAutonomyRollout fun rollout => ?_
  have hs := List.suffix_cons (⟨.getRollout plan.rolloutID, .ok rollout⟩ : AutonomyEvent) h
  split
  next hd =>
    refine obeys_moveAutonomyPlan _ (hlisted.mono hs) fun old he => ?_
    exact .complete he hstate (.read (.tail _ (.head _))) ⟨rollout, .tail _ (.head _), rfl⟩ hd
  next target ht =>
    exact obeys_expandTowards (hlisted.mono hs) hstate rfl (.head _) ht

/-! ## The bake and the walk -/

/-- The measurement was taken from a read of the effect. -/
def MeasuredIn (h : History) (measurements : List BakeMeasurement) (k : EffectID) : Prop :=
  ∃ effect b, (⟨.getEffect k, .ok effect⟩ : AutonomyEvent) ∈ h ∧ b ∈ measurements ∧
    b.effectID = effect.id

theorem obeys_measureEffect (observations : List Observation) (k : EffectID) :
    heeds m (measureEffect m plan observations k)
      (fun r h' => h <:+ h' ∧ MeasuredIn h' [r.1] k) (fun _ _ => True) h := by
  rw [measureEffect]
  split
  · trivial
  rename_i observation hobservation
  refine obeys_try (obeys_loadAutonomyEffect k) ?_ fun _ _ _ _ => trivial
  rintro effect _ hs rfl
  -- the record read here is the one that every branch measures
  have hmeas : ∀ {h' : History} summary time,
      (⟨.getEffect k, .ok effect⟩ :: h) <:+ h' →
      h <:+ h' ∧ MeasuredIn h' [⟨observation.node, effect.id, summary, time⟩] k := by
    intro h' summary time hs'
    exact ⟨hs.trans hs', effect, _, hs'.subset (.head _), List.mem_singleton_self _, rfl⟩
  refine after_now fun time => ?_
  have hs1 := suffix_now (⟨.getEffect k, .ok effect⟩ :: h) time
  dsimp only
  split
  · exact hmeas _ _ hs1
  refine after (obeys_buildAutonomySnapshot plan _ _ _) ?_
  intro snapshot h2 hs2 _
  refine obeys_try (obeys_captureDecision snapshot) ?_ fun _ _ _ _ => trivial
  intro captured h3 hs3 _
  dsimp only
  split_ifs
  all_goals exact hmeas _ _ (hs1.trans (hs2.trans hs3))

theorem obeys_measureEffects (observations : List Observation) (ids : List EffectID) :
    ∀ {h : History},
    heeds m (measureEffects m plan observations ids)
      (fun r h' => 0 ≤ r.2 ∧ ∀ k ∈ ids, MeasuredIn h' r.1 k) (fun _ _ => True) h := by
  induction ids with
  | nil =>
    intro h
    refine ⟨Int.le_refl _, fun k hk => ?_⟩
    cases hk
  | cons id _ ih =>
    intro h
    refine after (obeys_measureEffect observations id) ?_
    rintro ⟨_, failed⟩ _ - ⟨-, hf⟩
    refine after ih ?_
    rintro ⟨_, _⟩ _ hs2 ⟨_, ht⟩
    refine ⟨?_, fun k hk => ?_⟩
    · cases failed with
      | true => simp only [if_true]; omega
      | false => simp only; omega
    obtain _ | ⟨_, hk⟩ := hk
    · obtain ⟨effect, b, hr, hb, hid⟩ := hf
      rw [List.mem_singleton] at hb
      exact ⟨effect, b, hs2.subset hr, hb ▸ (.head _), hid⟩
    · obtain ⟨effect, b, hr, hb, hid⟩ := ht k hk
      exact ⟨effect, b, hr, .tail _ hb, hid⟩

theorem obeys_measureAutonomyBake (rollout : Rollout) : heeds m (measureAutonomyBake m plan rollout)
      (fun r h' => 0 ≤ r.2 ∧ (rollout.hardwareQualified = true →
        ∀ k ∈ rollout.bakeEffectIDs, MeasuredIn h' r.1 k))
      (fun _ _ => True) h := by
  rw [measureAutonomyBake]
  split
  next hsoft =>
    refine ⟨Int.le_refl _, fun hhard => ?_⟩
    rw [hhard] at hsoft
    cases hsoft
  next =>
    refine after_demand fun _ => ?_
    refine obeys_mono (obeys_measureEffects _ _) ?_ fun _ _ _ => trivial
    intro r h' hr
    exact ⟨hr.1, fun _ => hr.2⟩

theorem obeys_unlessConflict {p : Op α} (hp : keeps m p h) : keeps m (unlessConflict p) h := by
  refine obeys_try hp (fun _ _ _ _ => trivial) fun e _ _ _ => ?_
  dsimp only
  split <;> trivial

theorem obeys_systemTransition {target : PlanState}
    (ht : target = .paused ∨ target = .rolledBack ∨ target = .expired) (reason : Str) :
    keeps m (systemTransition m plan target reason) h :=
  obeys_unlessConflict (obeys_transitionAutonomyPlan _ ht _ _)

section

variable (hlisted : Listed h plan)
include hlisted

theorem obeys_reconcileCanary (hstate : plan.state = .canary) :
    keeps m (reconcileCanary m plan) h := by
  refine obeys_try (obeys_admitAutonomyCanary hlisted hstate) (fun _ _ _ _ => trivial)
    fun e _ _ _ => ?_
  refine obeys_try (demand_or (Plainly.refl _) fun _ => obeys_getRollout _)
    (fun rollout _ _ _ => ?_)
    fun _ _ _ _ => obeys_systemTransition (.inl rfl) _
  dsimp only
  split
  · exact obeys_systemTransition (.inr (.inl rfl)) _
  · exact obeys_systemTransition (.inl rfl) _

section

variable (hstate : plan.state = .baking)
include hstate

theorem obeys_finishBake (hk : KnownRollout h rollout) (hof : RolloutOf h plan rollout.id)
    (hmeas : rollout.bakeMeasuredAt.isSome = true) :
    keeps m (finishBake m plan rollout) h := by
  rw [finishBake]
  split
  · exact obeys_systemTransition (.inr (.inl rfl)) _
  rename_i hbud
  refine obeys_unlessConflict (obeys_moveAutonomyPlan _ hlisted fun old he => ?_)
  have hs : h <:+ (⟨.getPlan plan.id, .ok old⟩ :: h) := List.suffix_cons _ _
  refine .finish _ he hstate (hk.mono hs) (hof.mono hs) hmeas (Int.not_lt.1 hbud) ?_
  split
  · exact .inl rfl
  next hn => exact .inr ⟨rfl, by simpa using hn⟩

theorem obeys_measureBake {startedAt checkedAt : Int}
    (hr : (⟨.getRollout plan.rolloutID, .ok rollout⟩ : AutonomyEvent) ∈ h)
    (ht : rollout.bakeStartedAt = some startedAt) (hunm : rollout.bakeMeasuredAt = none)
    (hchecked : (⟨.now, checkedAt⟩ : AutonomyEvent) ∈ h)
    (helapsed : startedAt + plan.rollout.bakeDuration ≤ checkedAt) :
    keeps m (measureBake m plan rollout) h := by
  refine obeys_try (obeys_measureAutonomyBake rollout) ?_ fun _ _ _ _ =>
    obeys_systemTransition (.inl rfl) _
  rintro ⟨measurements, failures⟩ h1 hs1 ⟨hfails, ha⟩
  refine after_now fun time => ?_
  have hs2 := suffix_now h1 time
  have hs : h <:+ (⟨.now, time⟩ :: h1 : History) := hs1.trans hs2
  have hof : RolloutOf (⟨.now, time⟩ :: h1 : History) plan rollout.id :=
    ⟨rollout, hs.subset hr, rfl⟩
  have hwr : RolloutWrite (⟨.now, time⟩ :: h1 : History) rollout { rollout with
      bakeMeasurements := rollout.bakeMeasurements ++ measurements
      failures := rollout.failures + failures
      bakeMeasuredAt := some time } := by
    refine .measure measurements failures time (hlisted.mono hs) hstate hof ht hunm
      (hs.subset hchecked) helapsed hfails fun hhard k hk => ?_
    obtain ⟨effect, b, he, hb, hid⟩ := ha hhard k hk
    exact ⟨effect, b, .tail _ he, hb, hid⟩
  refine after (obeys_saveAutonomyRollout (.read (hs.subset hr)) hwr) ?_
  rintro _ _ hs3 ⟨_, _, rfl, -, rfl⟩
  exact obeys_finishBake (hlisted.mono (hs.trans hs3)) hstate (.wrote (.head _)) (hof.mono hs3) rfl

theorem obeys_reconcileBaking : keeps m (reconcileBaking m plan) h := by
  refine after_getAutonomyRollout fun rollout => ?_
  have hs := List.suffix_cons (⟨.getRollout plan.rolloutID, .ok rollout⟩ : AutonomyEvent) h
  split
  · exact obeys_systemTransition (.inr (.inl rfl)) _
  split
  · trivial
  rename_i startedAt ht
  refine after_now fun time => ?_
  have hs1 := suffix_now (⟨.getRollout plan.rolloutID, .ok rollout⟩ :: h) time
  have hlisted := hlisted.mono (hs.trans hs1)
  split
  · trivial
  rename_i helapsed
  split
  next hunm =>
    exact obeys_measureBake hlisted hstate (.tail _ (.head _)) ht (Option.isNone_iff_eq_none.1 hunm)
      (.head _) (Int.not_lt.1 helapsed)
  next hmeas =>
    rw [Bool.not_eq_true, Option.isNone_eq_false_iff] at hmeas
    exact obeys_finishBake hlisted hstate (.read (.tail _ (.head _)))
      ⟨rollout, .tail _ (.head _), rfl⟩ hmeas

end

theorem obeys_reconcilePlan : keeps m (reconcilePlan m plan) h := by
  rw [reconcilePlan]
  split
  · trivial
  refine after_now fun time => ?_
  have hs := suffix_now h time
  have hlisted := hlisted.mono hs
  split
  · exact obeys_systemTransition (.inr (.inr rfl)) _
  split
  next hstate => exact obeys_reconcileCanary hlisted hstate
  next hstate => exact obeys_reconcileBaking hlisted hstate
  next hstate => exact obeys_unlessConflict (obeys_admitAutonomyExpansion hlisted hstate)
  next => trivial

end

theorem obeys_reconcilePage (plans : List Plan) : ∀ {h : History}, (∀ plan ∈ plans, Listed h plan) →
    keeps m (reconcilePage m plans) h := by
  induction plans with
  | nil =>
    intro h _
    trivial
  | cons plan _ ih =>
    intro h hlisted
    exact after (obeys_reconcilePlan (hlisted plan (.head _))) fun _ h' hs _ =>
      ih fun other ho => (hlisted other (.tail _ ho)).mono hs

theorem obeys_reconcileAutonomy (pages : Nat) : ∀ {h : History} (cursor : Option (Int × Str)),
    keeps m (reconcileAutonomy m pages cursor) h := by
  induction pages with
  | zero =>
    intro h cursor
    trivial
  | succ _ ih =>
    intro h cursor
    refine after (obeys_asked (fun _ => rfl) trivial) ?_
    rintro plans _ _ ⟨_, rfl, rfl⟩
    refine after (obeys_reconcilePage plans fun plan hp =>
      ⟨cursor, plans, .head _, hp⟩) ?_
    intro _ h1 _ _
    split
    · trivial
    split
    · trivial
    · refine after_demand fun _ => ?_
      exact ih _

/-! ## Requests -/

theorem mapError_eq_ok {ε ε' : Type} {f : ε → ε'} {x : Except ε α} {a : α}
    (hx : x.mapError f = .ok a) :
    x = .ok a := by
  cases x with
  | ok => exact congrArg Except.ok (Except.ok.inj hx)
  | error => cases hx

theorem obeys_requestedSimulation (plan : Plan) (id : Str) :
    heeds m (requestedSimulation m plan id) (fun _ h' => h <:+ h') (fun _ _ => True) h := by
  rw [requestedSimulation]
  split
  · exact List.suffix_rfl
  refine obeys_try (obeys_asked (fun _ => rfl) trivial) ?_ fun _ _ _ _ => trivial
  intro simulation h1 hs1 _
  refine after_checked fun _ _ => ?_
  exact hs1

/-- What a valid request says about the plan made from it. -/
structure ValidRequest (request : PlanRequest) : Prop where
  roles : 2 ≤ request.approvals.requiredRoles.length
  unique : request.approvals.requiredRoles.Nodup
  distinct : request.approvals.distinctSubjects = true
  canary : 0 < request.rollout.canaryNodes
  concurrent : request.rollout.canaryNodes ≤ request.guardrails.maxConcurrentNodes
  steps : increasingFrom request.rollout.canaryNodes request.rollout.expansionSteps = true

theorem validateAutonomyRequest_ok {lower : Str → Str} {request : PlanRequest} {time : Int}
    (hv : validateAutonomyRequest lower request time = .ok ()) : ValidRequest request := by
  simp only [validateAutonomyRequest, require_bind_ok, Bool.and_eq_true, decide_eq_true_eq] at hv
  obtain ⟨-, -, -, -, -, -, -, -, -, -, hcanary, hconc, hsteps, hroles, hunique, hd, -⟩ := hv
  exact ⟨hroles, hunique.2, hd, hcanary.1, hconc, hsteps⟩

theorem newPlan_draft {resolved : PlanRequest} {time : Int} (hv : ValidRequest resolved)
    (hid : JustMade h id) (simulation : Option Simulation)
    (hdat : fourDigitYear (simulation.elim (draftPlan m id resolved time)
      (draftPlan m id resolved time).simulatedBy).expiresAt = true) :
    NewPlan h (simulation.elim (draftPlan m id resolved time)
      (draftPlan m id resolved time).simulatedBy) := by
  cases simulation with
  | none =>
    exact { hv with
      id := hid, version := rfl, state := .inl rfl, records := rfl, rollout := rfl, dated := hdat }
  | some =>
    exact { hv with
      id := hid, version := rfl, state := .inr rfl, records := rfl, rollout := rfl, dated := hdat }

theorem obeys_createAutonomyPlan (actor key : Str) (request : PlanRequest) :
    keeps m (createAutonomyPlan m actor key request) h := by
  refine after_demand fun _ => ?_
  refine after_now fun time => ?_
  refine after_checked fun _ hv => ?_
  have hv := validateAutonomyRequest_ok (mapError_eq_ok hv)
  refine after (obeys_requestedSimulation _ _) ?_
  intro simulation h1 _ _
  refine after_newID fun id => ?_
  refine after (obeys_asked (g := fun a => a) (fun _ => rfl) trivial) ?_
  rintro ⟨_, _⟩ _ - ⟨a, -, rfl⟩
  dsimp only
  split
  · refine after_demand fun _ => ?_
    exact keeps_of (obeys_getAutonomyPlan _)
  refine after_demand fun hdat => ?_
  refine after (obeys_asked (g := fun a => a) (fun _ => rfl)
    (newPlan_draft hv .keyed simulation hdat)) fun _ _ _ _ => ?_
  exact obeys_auditEnd _ _

theorem obeys_attachSimulation (planID simulationID : Str) (expectedVersion : Int) :
    keeps m (attachSimulation m planID simulationID expectedVersion) h := by
  refine after_getAutonomyPlan fun plan => ?_
  refine after_demand fun _ => ?_
  refine after_demand fun hdraft => ?_
  rw [decide_eq_true_eq] at hdraft
  refine after (obeys_asked (fun _ => rfl) trivial) ?_
  rintro simulation h1 hs1 -
  refine after_checked fun _ _ => ?_
  refine after (obeys_saveAutonomyPlan (hs1.subset (.head _)) rfl rfl (.attach simulation hdraft))
    fun _ _ _ _ => ?_
  exact obeys_auditEnd _ _

theorem obeys_startIfApproved {planID actor role : Str}
    (hr : (⟨.getPlan planID, .ok plan⟩ : AutonomyEvent) ∈ h)
    (hstate : plan.state = .simulated ∨ plan.state = .awaitingApproval)
    (hstand : approvalStanding m plan actor role plan.approvalRecords = none) :
    heeds m (startIfApproved m (plan.approvedBy actor role))
      (fun saved h' => h <:+ h' ∧ saved.id = plan.id ∧ saved.version = plan.version ∧
        PlanWrite h' plan saved)
      (fun _ _ => True) h := by
  rw [startIfApproved]
  split
  next ha =>
    refine obeys_seq (Q := fun rollout h' => h <:+ h' ∧
      ⟨.createRollout rollout, .ok ()⟩ ∈ h' ∧ rollout.planID = plan.id) ?_ ?_
      fun _ _ _ (_ : True) => trivial
    · refine after_newID fun id => ?_
      have hs := List.suffix_cons ⟨.newID (lit "rollout"), id⟩ h
      have hn : NewRollout m (⟨.newID (lit "rollout"), id⟩ :: h)
          { id, version := 1, planID := plan.id, state := .canary, canaryNodes := [],
            expandedNodes := [], observations := [], bakeMeasurements := [], bakeStartedAt := none,
            bakeMeasuredAt := none, bakeEffectIDs := [], actionWindowAt := none,
            actionsThisHour := 0, failures := 0, hardwareQualified := m.executes, reason := [],
            expiresAt := plan.expiresAt } :=
        ⟨.made, ⟨planID, plan, .tail _ hr, rfl⟩, rfl, rfl, rfl, rfl, rfl, rfl, rfl⟩
      refine after (obeys_asked (fun _ => rfl) hn) ?_
      rintro _ _ hs1 ⟨_, rfl, rfl⟩
      refine after (obeys_audit _) ?_
      rintro _ _ hs2 rfl
      exact ⟨hs.trans (hs1.trans hs2), hs2.subset (.head _), rfl⟩
    · rintro _ _ - ⟨hs, hcreate, hp⟩
      exact ⟨hs, rfl, rfl, .start actor role hstate hstand ha hcreate hp⟩
  next ho =>
    exact ⟨List.suffix_rfl, rfl, rfl, .approve actor role hstate hstand (by simpa using ho)⟩

theorem obeys_approveAutonomyPlan (actor planID role : Str) (expectedVersion : Int) :
    keeps m (approveAutonomyPlan m actor planID role expectedVersion) h := by
  refine after_getAutonomyPlan fun plan => ?_
  refine after_demand fun _ => ?_
  refine after_demand fun hstate => ?_
  simp only [Bool.or_eq_true, decide_eq_true_eq] at hstate
  refine after_demand fun _ => ?_
  split
  · trivial
  · trivial
  rename_i hstand
  refine after (obeys_startIfApproved (.head _) hstate hstand) ?_
  rintro _ _ - ⟨hs, hid, hv, hwr⟩
  exact after (obeys_saveAutonomyPlan (hs.subset (.head _)) hid hv hwr) fun _ _ _ _ =>
    obeys_auditEnd _ _

theorem obeys_resumeAutonomyPlan (planID reason : Str) (expectedVersion : Int) :
    keeps m (resumeAutonomyPlan m planID reason expectedVersion) h := by
  refine after_getAutonomyPlan fun plan => ?_
  refine after_demand fun _ => ?_
  refine after_demand fun hpau => ?_
  rw [decide_eq_true_eq] at hpau
  refine after_now fun time => ?_
  refine after_demand fun _ => ?_
  refine after_demand fun ha => ?_
  refine after_demand fun _ => ?_
  refine after (obeys_saveAutonomyPlan (.tail _ (.head _)) rfl rfl (.resume hpau ha))
    fun _ _ _ _ => ?_
  exact after (obeys_followPlan _ _) fun _ _ _ _ => obeys_auditEnd _ _

theorem obeys_change (actor planID : Str) (expectedVersion : Int) (c : Change) :
    keeps m (c.apply m actor planID expectedVersion) h := by
  cases c with
  | attach => exact obeys_attachSimulation _ _ _
  | approve => exact obeys_approveAutonomyPlan _ _ _ _
  | pause => exact obeys_transitionAutonomyPlan _ (.inl rfl) _ _
  | resume => exact obeys_resumeAutonomyPlan _ _ _
  | rollback => exact obeys_transitionAutonomyPlan _ (.inr (.inl rfl)) _ _

theorem obeys_readBack (ok : Bool) (e : Err) (planID : Str) :
    keeps m (demand ok e >>= fun _ => getAutonomyPlan planID >>= fun plan =>
      pure (some plan)) h := by
  refine after_demand fun _ => ?_
  exact after (obeys_getAutonomyPlan _) fun _ _ _ _ => trivial

theorem obeys_reserveAutonomyMutation (actor planID key : Str) (expectedVersion : Int)
    (change : Change) :
    keeps m (reserveAutonomyMutation actor planID key expectedVersion change) h := by
  refine after_demand fun _ => ?_
  refine obeys_try (obeys_asked (g := fun a => a) (fun _ => rfl) trivial) ?_ ?_
  · intro record _ _ _
    exact obeys_readBack _ _ _
  intro e _ _ _
  refine after_demand fun _ => ?_
  refine after_getAutonomyPlan fun current => ?_
  refine after_demand fun _ => ?_
  refine after (obeys_asked (g := fun a => a) (fun _ => rfl) trivial) ?_
  rintro ⟨_, _⟩ _ - -
  dsimp only
  split
  · trivial
  · exact obeys_readBack _ _ _

theorem obeys_discard {p : Op α} (hp : keeps m p h) : keeps m (discard p) h :=
  after hp fun _ _ _ _ => trivial

theorem autonomyProgram_obeys (m : Manager) (r : AutonomyRequest) :
    heeds m (autonomyProgram m r) (fun _ _ => True) (fun _ _ => True) [] := by
  cases r with
  | reconcile pages => exact obeys_reconcileAutonomy pages none
  | create actor key request => exact obeys_discard (obeys_createAutonomyPlan actor key request)
  | change => exact obeys_discard (obeys_change _ _ _ _)
  | keyed =>
    refine obeys_discard ?_
    refine after (obeys_reserveAutonomyMutation _ _ _ _ _) fun reserved _ _ _ => ?_
    cases reserved with
    | some => trivial
    | none => exact obeys_change _ _ _ _

end KubeNeuron.Operations
