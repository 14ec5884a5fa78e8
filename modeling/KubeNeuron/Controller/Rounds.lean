import KubeNeuron.Controller.WalkInvariant

/-!
# Approval rounds

Every park counts the epoch of its incident up and records the request of the round. The transitions
write the epoch of their own copies back, so it is kept only because these copies have the epoch of
the row: only the walk parks, it works on one incident at a time, and it leaves the incidents of
running steps alone. So each round has exactly one request (`roundsInv_exec`).
-/

namespace KubeNeuron.Controller

open Lib KubeNeuron.Types Store Playbooks WalkWorld

variable {w w' : WalkWorld} {op : WalkOp} {sha : Str → Str}

/-! ## Requests -/

def roundRequests (id : Str) (epoch : Int) (approvals : List Approval) : List Approval :=
  approvals.filter fun a => a.incidentID = id && a.parkEpoch = epoch && a.decision = .requested

theorem roundRequests_append (id : Str) (epoch : Int) (xs ys : List Approval) :
    roundRequests id epoch (xs ++ ys) = roundRequests id epoch xs ++ roundRequests id epoch ys :=
  List.filter_append ..

theorem roundRequests_decision {a : Approval} (h : a.decision ≠ .requested) (id : Str)
    (epoch : Int) (approvals : List Approval) :
    roundRequests id epoch (approvals ++ [a]) = roundRequests id epoch approvals := by
  simp [roundRequests, h]

theorem roundRequests_park (k : Park) (now current : Int) (id : Str) (epoch : Int) :
    roundRequests id epoch [k.request now current] =
      if id = k.snap.id ∧ epoch = current then [k.request now current] else [] := by
  by_cases h : id = k.snap.id ∧ epoch = current
  · obtain ⟨rfl, rfl⟩ := h
    simp [roundRequests, Park.request]
  rw [if_neg h]
  refine List.filter_eq_nil_iff.2 fun a ha => ?_
  obtain rfl := List.mem_singleton.1 ha
  intro hm
  rw [Bool.and_eq_true, Bool.and_eq_true] at hm
  exact h ⟨(of_decide_eq_true hm.1.1).symm, (of_decide_eq_true hm.1.2).symm⟩

/-! ## Who writes the epoch -/

/-- The operations of the janitor that closes the incidents of vanished nodes. -/
def WalkOp.closes : WalkOp → Bool
  | .closerCommit .. => true
  | _ => false

theorem Author.of_park {k : Park} {now : Int} {fault : Bool}
    (h : Author w op (.park k now fault)) (hi : ThreadInv w) :
    op = .commit now fault ∧ ∃ p, w.pass = some p ∧ p.phase = .parking k ∧ p.inc = k.snap := by
  generalize hw : WriterOp.park k now fault = wop at h
  cases h with
  | pass p _ _ _ hp hwr =>
    cases hwr with
    | park _ hph =>
      cases hw
      have ha := (hi.pass p hp).2
      rw [Pass.Aligned, hph] at ha
      exact ⟨rfl, p, hp, hph, ha.symm⟩
    | _ => cases hw
  | side hs => cases hs <;> cases hw
  | _ => cases hw

theorem Author.of_decide {a : Approval} (h : Author w op (.decide a)) :
    a.decision ≠ .requested := by
  generalize hw : WriterOp.decide a = wop at h
  cases h with
  | pass _ _ _ _ _ hwr => cases hwr <;> cases hw
  | side hs =>
    cases hs with
    | decide _ _ hd =>
      cases hw
      exact hd
    | _ => cases hw
  | _ => cases hw

/-! ## The invariant -/

/-- Each round of an open incident up to its epoch has one request, and the copies of the walk and
of its step goroutines have the epoch of the row. -/
structure RoundsInv (w : WalkWorld) : Prop where
  rows : ∀ id row, getIncident id w.records.db = some row → row.state.terminal = false →
    0 ≤ row.approvalEpoch ∧ ∀ epoch, 1 ≤ epoch →
      (roundRequests id epoch w.records.approvals).length =
        if epoch ≤ row.approvalEpoch then 1 else 0
  missing : ∀ id, getIncident id w.records.db = none → ∀ epoch, 1 ≤ epoch →
    roundRequests id epoch w.records.approvals = []
  copies : ∀ c ∈ w.worked, ∀ row, getIncident c.id w.records.db = some row →
    row.state.terminal = false → c.approvalEpoch = row.approvalEpoch
  exclusive : Exclusive w

/-- A store of before approval rounds: no incident is in a round and no row belongs to one. -/
structure BeforeRounds (r : Records) : Prop where
  ids : (r.db.incidents.map (·.id)).Nodup
  epochs : ∀ inc ∈ r.db.incidents, inc.approvalEpoch = 0
  approvals : ∀ a ∈ r.approvals, a.parkEpoch = 0

theorem beforeRounds_empty : BeforeRounds .empty := by
  refine ⟨List.nodup_nil, ?_, ?_⟩
  all_goals
    intro x hx
    cases hx

theorem roundsInv_start {r : Records} (h : BeforeRounds r) (cfg : RuntimeConfig) :
    RoundsInv (.start r cfg) := by
  have hn : ∀ id epoch, 1 ≤ epoch → roundRequests id epoch r.approvals = [] := by
    intro id epoch hep
    refine List.filter_eq_nil_iff.2 fun a ha => ?_
    have hz := h.approvals a ha
    simp only [Bool.and_eq_true, decide_eq_true_eq]
    omega
  refine ⟨fun id row hr ho => ?_, fun id _ => hn id, ?_, exclusive_start r cfg⟩
  · have hz := h.epochs row (getIncident_mem hr)
    refine ⟨Int.le_of_eq hz.symm, fun epoch hep => ?_⟩
    rw [if_neg (by omega)]
    exact congrArg List.length (hn id epoch hep)
  · intro c hc
    cases hc

/-! ## One step -/

inductive RoundStep (w w' : WalkWorld) (op : WalkOp) (id : Str) (row' : Incident) : Prop where
  /-- The incident stays in its round, or was resolved for an operator. -/
  | kept (row : Incident) (found : getIncident id w.records.db = some row)
      (epoch : row'.state.terminal = false →
        row.state.terminal = false ∧ row'.approvalEpoch = row.approvalEpoch)
      (asked : ∀ epoch, roundRequests id epoch w'.records.approvals =
        roundRequests id epoch w.records.approvals)
  /-- The walk opens the next round. -/
  | parked (row : Incident) (request : Approval) (found : getIncident id w.records.db = some row)
      (waits : row.state.terminal = false) (epoch : row'.approvalEpoch = row.approvalEpoch + 1)
      (asked : ∀ epoch, roundRequests id epoch w'.records.approvals =
        roundRequests id epoch w.records.approvals ++
          if epoch = row.approvalEpoch + 1 then [request] else [])
      (parks : ∃ p k now fault, op = .commit now fault ∧ w.pass = some p ∧ p.phase = .parking k ∧
        p.inc.id = id)
  /-- The incident is new. -/
  | opened (missing : getIncident id w.records.db = none) (epoch : row'.approvalEpoch = 0)
      (asked : ∀ epoch, roundRequests id epoch w'.records.approvals =
        roundRequests id epoch w.records.approvals)

theorem Rewrites.asked_other {op : WriterOp} {row copy : Incident} {asked : List Approval}
    (h : Rewrites op row copy asked) {id : Str} (hne : id ≠ copy.id) {epoch : Int} :
    roundRequests id epoch asked = [] := by
  cases h with
  | park =>
    rw [roundRequests_park, if_neg]
    intro heq
    exact hne heq.1
  | _ => rfl

/-- **One step leaves an incident in its round, opens its next one, or opens the incident.** -/
theorem RoundsInv.row_step (hrounds : RoundsInv w) (hi : ThreadInv w) (hclose : op.closes = false)
    (h : WalkStep sha w op w') {id : Str} {row' : Incident}
    (hr' : getIncident id w'.records.db = some row') : RoundStep w w' op id row' := by
  rcases h.writers with ⟨he, -⟩ | ⟨_, ha, happ, -⟩
  · have hrecs : w'.records = w.records := congrArg WriterWorld.records he
    rw [hrecs] at hr'
    refine .kept row' hr' (fun ho => ⟨ho, rfl⟩) fun epoch => ?_
    rw [hrecs]
  have heff := ha.effect hi
  rw [← happ] at heff
  cases heff with
  | quiet rows approvals =>
    rw [getIncident, records, rows] at hr'
    refine .kept row' hr' (fun ho => ⟨ho, rfl⟩) fun epoch => ?_
    rcases approvals with he | ⟨_, rfl, hm⟩
    · exact congrArg (roundRequests id epoch) he
    · rw [records, hm]
      exact roundRequests_decision ha.of_decide id epoch _
  | wrote row _ _ replaced rewrites approvals hid =>
    rcases replaced.cases hr' with ⟨rfl, rfl⟩ | ⟨hne, he⟩
    · cases rewrites with
      | move m _ row legal fence =>
        have ht : row.state.terminal = false := by
          rw [state_of_fenced fence]
          exact open_of_canTransition legal
        refine .kept row replaced.found (fun ho => ⟨ht, ?_⟩) fun epoch => ?_
        · rcases ha.move_copy hi with hc | hd | ⟨rfl, -⟩
          · have hf := replaced.found
            rw [← hid] at hf
            exact hrounds.copies m.snap hc row hf ht
          · have hterm : m.dest.terminal = false := ho
            rw [hd] at hterm
            cases hterm
          · cases hclose
        · rw [records, approvals, List.append_nil]
          rfl
      | park k now row legal fence =>
        have ht : row.state.terminal = false := by
          rw [state_of_fenced fence]
          rcases legal with hw | hl
          · rw [hw]
            rfl
          · exact open_of_canTransition hl
        obtain ⟨rfl, p, hp, hph, hinc⟩ := ha.of_park hi
        refine .parked row (k.request now (row.approvalEpoch + 1)) replaced.found ht rfl
          (fun epoch => ?_) ⟨p, k, now, false, rfl, hp, hph, ?_⟩
        · rw [records, approvals, roundRequests_append, roundRequests_park]
          simp only [← hid, Park.copy, true_and]
          rfl
        · rw [hinc]
          exact hid
      | bind _ _ _ row current | rewind _ _ _ row current =>
        refine .kept row replaced.found (fun ho => ⟨?_, ?_⟩) fun epoch => ?_
        · rw [← congrArg Incident.state current]
          exact ho
        · exact (congrArg Incident.approvalEpoch current :)
        · rw [records, approvals, List.append_nil]
          rfl
    · refine .kept row' he (fun ho => ⟨ho, rfl⟩) fun epoch => ?_
      rw [records, approvals, roundRequests_append,
        rewrites.asked_other (hid ▸ hne), List.append_nil]
      rfl
  | revised row _ replaced _ approvals _ _ owned =>
    have hk := fun epoch => congrArg (roundRequests id epoch) approvals
    rcases replaced.cases hr' with ⟨rfl, rfl⟩ | ⟨-, he⟩
    · refine .kept row replaced.found (fun ho => ?_) hk
      have hst : row'.state = row.state := congrArg WalkOwned.state owned
      exact ⟨hst ▸ ho, congrArg WalkOwned.approvalEpoch owned⟩
    · exact .kept row' he (fun ho => ⟨ho, rfl⟩) hk
  | opened _ _ added approvals owned =>
    have hk := fun epoch => congrArg (roundRequests id epoch) approvals
    rcases added.cases hr' with ⟨rfl, rfl⟩ | ⟨-, he⟩
    · exact .opened added.missing (congrArg WalkOwned.approvalEpoch owned) hk
    · exact .kept row' he (fun ho => ⟨ho, rfl⟩) hk

theorem WalkStep.parks {now : Int} {fault : Bool}
    (h : WalkStep sha w (.commit now fault) w') {p : Pass} {k : Park} (hp : w.pass = some p)
    (hph : p.phase = .parking k) :
    w'.pass = none ∧ w'.todo = w.todo ∧ w'.running = w.running := by
  obtain ⟨_, _, _, hq, hwr, rfl⟩ := h.of_commit
  cases hp.symm.trans hq
  cases hwr with
  | park =>
    refine ⟨?_, rfl, rfl⟩
    show (w.leftBy _).bind (fun _ => none) = none
    simp
  | move m hm | bind _ hm | execute _ _ hm => cases hph.symm.trans hm

theorem WalkStep.missing (h : WalkStep sha w op w') (hi : ThreadInv w) {id : Str}
    (hn : getIncident id w'.records.db = none) :
    getIncident id w.records.db = none ∧ ∀ epoch,
      roundRequests id epoch w'.records.approvals = roundRequests id epoch w.records.approvals := by
  rcases h.writers with ⟨he, -⟩ | ⟨_, ha, hp, -⟩
  · have hrecs : w'.records = w.records := congrArg WriterWorld.records he
    rw [hrecs] at hn ⊢
    exact ⟨hn, fun _ => rfl⟩
  have hf := ha.effect hi
  rw [← hp] at hf
  cases hf with
  | quiet rows approvals =>
    rw [getIncident, records, rows] at hn
    refine ⟨hn, fun epoch => ?_⟩
    rcases approvals with he | ⟨_, rfl, hm⟩
    · exact congrArg (roundRequests id epoch) he
    · rw [records, hm]
      exact roundRequests_decision ha.of_decide id epoch _
  | wrote row _ _ replaced rewrites approvals hid =>
    have hne : id ≠ row.id := by
      rintro rfl
      cases replaced.written.symm.trans hn
    refine ⟨(replaced.others id hne).symm.trans hn, fun epoch => ?_⟩
    rw [records, approvals, roundRequests_append, rewrites.asked_other (hid ▸ hne), List.append_nil]
    rfl
  | revised row _ replaced _ approvals | opened row _ replaced approvals =>
    have hne : id ≠ row.id := by
      rintro rfl
      cases replaced.written.symm.trans hn
    exact ⟨(replaced.others id hne).symm.trans hn,
      fun epoch => congrArg (roundRequests id epoch) approvals⟩

theorem RoundsInv.step (hrounds : RoundsInv w) (hi : ThreadInv w) (hclose : op.closes = false)
    (h : WalkStep sha w op w') : RoundsInv w' := by
  have hhanded := hrounds.exclusive.handed hi h
  have hw : ∀ {id row'}, getIncident id w'.records.db = some row' → RoundStep w w' op id row' :=
    fun hw' => hrounds.row_step hi hclose h hw'
  refine ⟨fun id row' hw' ho => ?_, fun id hn epoch hep => ?_,
    fun c' hc' row' hw' ho => ?_, hhanded.exclusive⟩
  · cases hw hw' with
    | kept row found epoch asked =>
      obtain ⟨hwaits, heq⟩ := epoch ho
      obtain ⟨hnonneg, hcount⟩ := hrounds.rows id row found hwaits
      rw [heq]
      refine ⟨hnonneg, fun e he => ?_⟩
      rw [asked]
      exact hcount e he
    | parked row _ found waits epoch asked =>
      obtain ⟨_, hcount⟩ := hrounds.rows id row found waits
      refine ⟨by omega, fun e he => ?_⟩
      rw [asked, List.length_append, hcount e he]
      -- the new round is the one after the last
      by_cases hl : e = row.approvalEpoch + 1
      · rw [if_neg (by omega), if_pos hl, if_pos (by omega)]
        rfl
      rw [if_neg hl]
      by_cases hle : e ≤ row.approvalEpoch
      · rw [if_pos hle, if_pos (by omega)]
        rfl
      · rw [if_neg hle, if_neg (by omega)]
        rfl
    | opened missing epoch asked =>
      rw [epoch]
      refine ⟨Int.le_refl _, fun e he => ?_⟩
      rw [asked, hrounds.missing id missing e he, if_neg (by omega)]
      rfl
  · obtain ⟨hb, ha⟩ := h.missing hi hn
    rw [ha]
    exact hrounds.missing id hb epoch hep
  · rcases hhanded.worked c' hc' with ⟨rfl, hm, -⟩ | ⟨c, hc, hid, hep, -⟩
    · have hs := getIncident_of_mem hi.writers.ids hm
      cases hw hw' with
      | kept _ found epoch =>
        cases hs.symm.trans found
        exact (epoch ho).2.symm
      | parked _ _ _ _ _ _ parks =>
        obtain ⟨_, _, _, _, hop, -⟩ := parks
        cases hop
      | opened missing => cases hs.symm.trans missing
    · cases hw hw' with
      | kept row found epoch =>
        obtain ⟨hwaits, heq⟩ := epoch ho
        rw [heq, ← hep]
        exact hrounds.copies c hc row (hid ▸ found) hwaits
      | parked _ _ _ _ _ _ parks =>
        -- nobody holds a copy of the incident that was parked
        obtain ⟨p, _, _, _, rfl, hp, hph, hpid⟩ := parks
        obtain ⟨hn, ht, hu⟩ := h.parks hp hph
        have hd := hrounds.exclusive.distinct
        rw [walked, hp] at hd
        rcases mem_worked.1 hc' with ⟨_, hq, -⟩ | hrest | ⟨r, hr, rfl⟩
        · cases hn.symm.trans hq
        · rw [ht] at hrest
          refine absurd (List.mem_map.2 ⟨c', hrest, hpid.symm⟩) (List.nodup_cons.1 hd).1
        · rw [hu] at hr
          exact absurd hpid.symm (hrounds.exclusive.idle p hp r hr)
      | opened missing =>
        obtain ⟨_, hf, -⟩ := hi.writers.trails c (hi.worked hc)
        rw [← hid] at missing
        cases hf.symm.trans missing

/-- **The invariant of every run from a store of before approval rounds**, in which no incident of a
vanished node is closed. -/
theorem roundsInv_exec {r : Records} (ht : BeforeRounds r)
    {cfg : RuntimeConfig} {ops : List WalkOp}
    (hclose : ∀ op ∈ ops, op.closes = false)
    (hr : exec (walkNext sha) (.start r cfg) ops = some w) : RoundsInv w := by
  have hboth : ThreadInv w ∧ RoundsInv w := by
    refine exec_invariant_along (P := fun v => ThreadInv v ∧ RoundsInv v) ?_
      ⟨threadInv_start ht.ids cfg, roundsInv_start ht cfg⟩ (along_of_forall hclose _) hr
    intro s op t hi hok hn
    have hs := walkStep_of_next hn
    exact ⟨hi.1.step hs, hi.2.step hi.1 hok hs⟩
  exact hboth.2

end KubeNeuron.Controller
