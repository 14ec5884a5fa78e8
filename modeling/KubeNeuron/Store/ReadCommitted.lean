import KubeNeuron.Store.ActionRuns

/-!
# Claims under read committed

A statement sees the rows committed when it started, waits for the lock of each row it is about to
change, and then looks at its outer condition on that row again. So each statement of a claim is two
steps here, its start and its commit. Two claims that chose different rows can both commit
(`two_leases_read_committed`). The invariant behind `single_lease_of_uniform` says of every chosen
row that it is still the first candidate of its claim or can no longer be taken by it
(`Outstanding`).
-/

namespace KubeNeuron.Store

open Lib KubeNeuron.Types

/-! ## Worlds and steps -/

/-- A statement of a claim between its start and its commit, with what it saw at its start. -/
structure InFlight (α : Type) where
  call : ClaimCall
  seen : α
  deriving DecidableEq

/-- The store, the clock, and the claims by the statement they have reached. -/
structure RcWorld where
  db : Database
  clock : Nat
  begun : List ClaimCall
  deadLettering : List (InFlight (List Str))
  ready : List ClaimCall
  claiming : List (InFlight Str)

/-- A store with no claim under way. -/
def RcWorld.start (db : Database) (clock : Nat) : RcWorld := ⟨db, clock, [], [], [], []⟩

/-- The steps of concurrent claims and enqueues. -/
inductive RcOp where
  | tick (d : Nat)
  | enqueueAction (node : Str) (a : Action) (now : Nat)
  | beginClaim (c : ClaimCall)
  | deadLetterStart (c : ClaimCall)
  | deadLetterCommit (f : InFlight (List Str))
  | claimStart (c : ClaimCall)
  | claimCommit (f : InFlight Str)

/-- The rows the dead-letter statement changes: those it saw that still qualify. -/
def InFlight.exhausts (f : InFlight (List Str)) (r : ActionRow) : Bool :=
  f.seen.contains r.id && f.call.exhausts r

/-- The commit of a claim: lease the chosen row if it is still claimable. -/
def InFlight.commit (f : InFlight Str) (db : Database) : Database :=
  { db with actions := updateWhere (f.call.takes f.seen) f.call.lease db.actions }

def rcNext (w : RcWorld) : RcOp → Option RcWorld
  | .tick d => some { w with clock := w.clock + d }
  | .enqueueAction node a now =>
    if now ≤ w.clock then some { w with db := enqueueAction node a now w.db } else none
  | .beginClaim c =>
    if 0 < c.leaseDuration ∧ c.token ≠ [] ∧ c.now = w.clock then
      some { w with begun := c :: w.begun }
    else none
  | .deadLetterStart c =>
    if c ∈ w.begun then
      some { w with
        begun := w.begun.erase c
        deadLettering := ⟨c, (w.db.actions.filter c.exhausts).map (·.id)⟩ :: w.deadLettering }
    else none
  | .deadLetterCommit f =>
    if f ∈ w.deadLettering then
      some { w with
        db := { w.db with
          actions := updateWhere f.exhausts (ActionRow.tombstone .dead f.call.now) w.db.actions }
        deadLettering := w.deadLettering.erase f
        ready := f.call :: w.ready }
    else none
  | .claimStart c =>
    if c ∈ w.ready then
      some { w with
        ready := w.ready.erase c
        -- without a candidate the statement changes no row and the claim is over
        claiming := ((candidate c w.db).map fun r => ⟨c, r.id⟩).toList ++ w.claiming }
    else none
  | .claimCommit f =>
    if f ∈ w.claiming then
      some { w with db := f.commit w.db, claiming := w.claiming.erase f }
    else none

/-- The side condition on a step. A claim that starts uses the type filter of every claim of its
node that has chosen a row. An enqueued action sorts after every chosen row whose claim would look
at it. A claim commits before the lease it grants expires. -/
def RcUniform (w : RcWorld) : RcOp → Prop
  | .enqueueAction node a now =>
    ∀ f ∈ w.claiming, f.call.selects (insertedRow w.db.inserted node a now) = true →
      ∀ r ∈ w.db.actions, r.id = f.seen →
        rowBefore r (insertedRow w.db.inserted node a now) = true
  | .claimStart c => ∀ f ∈ w.claiming, f.call.node = c.node → f.call.onlyType = c.onlyType
  | .claimCommit f =>
    ∀ r ∈ w.db.actions, r.id = f.seen → w.clock < (f.call.lease r).leaseExpiresAtNs
  | _ => True

instance decidableRcUniform (w : RcWorld) : (op : RcOp) → Decidable (RcUniform w op)
  | .tick _ | .beginClaim _ | .deadLetterStart _ | .deadLetterCommit _ => isTrue trivial
  | .enqueueAction _ _ _ => inferInstanceAs (Decidable (∀ f ∈ w.claiming, _ → _))
  | .claimStart _ => inferInstanceAs (Decidable (∀ f ∈ w.claiming, _ → _))
  | .claimCommit _ => inferInstanceAs (Decidable (∀ r ∈ w.db.actions, _ → _))

/-! ## The order of the rows -/

theorem rowBefore_asymm (r s : ActionRow) (h : rowBefore r s = true) : rowBefore s r = false := by
  simp only [rowBefore, Bool.or_eq_true, Bool.and_eq_true, decide_eq_true_eq] at h
  rw [Bool.eq_false_iff]
  intro h'
  simp only [rowBefore, Bool.or_eq_true, Bool.and_eq_true, decide_eq_true_eq] at h'
  rcases h with h | ⟨he, h⟩
  · rcases h' with h' | ⟨he', -⟩
    · exact List.lt_asymm h h'
    · exact List.lt_irrefl _ (he' ▸ h)
  · rcases h' with h' | ⟨-, h'⟩
    · exact List.lt_irrefl _ (he ▸ h')
    · exact List.lt_asymm h h'

variable {r : ActionRow} {c : ClaimCall} {db : Database} {f : InFlight Str}

theorem rowBefore_eq_false {s : ActionRow} :
    rowBefore r s = false ↔
      ts s.createdAt ≤ ts r.createdAt ∧ (ts r.createdAt = ts s.createdAt → s.id ≤ r.id) := by
  simp [rowBefore, List.not_lt]

theorem rowBefore_false_trans (r s t : ActionRow) (h : rowBefore r s = false)
    (h' : rowBefore s t = false) : rowBefore r t = false := by
  rw [rowBefore_eq_false] at h h' ⊢
  refine ⟨List.le_trans h'.1 h.1, fun he => ?_⟩
  -- equal ends force the text in the middle to be the same
  have hst : ts s.createdAt = ts t.createdAt := List.le_antisymm (he ▸ h.1) h'.1
  exact List.le_trans (h'.2 hst) (h.2 (he.trans hst.symm))

theorem id_eq_of_not_rowBefore {s : ActionRow} (h : rowBefore r s = false)
    (h' : rowBefore s r = false) : r.id = s.id := by
  rw [rowBefore_eq_false] at h h'
  have he : ts r.createdAt = ts s.createdAt := List.le_antisymm h'.1 h.1
  exact List.le_antisymm (h'.2 he.symm) (h.2 he)

/-! ## What becomes of a chosen row -/

theorem node_of_selects (h : c.selects r = true) : r.node = c.node := by
  simp only [ClaimCall.selects, Bool.and_eq_true, decide_eq_true_eq] at h
  exact h.1

/-- The row is the first one the claim may lease. -/
def IsFirst (c : ClaimCall) (db : Database) (r : ActionRow) : Prop :=
  eligible c db r = true ∧ ∀ s ∈ db.actions, eligible c db s = true → rowBefore s r = false

/-- A claim that has chosen a row: either the row can no longer be taken by it, or the row is still
the first one it may lease. -/
def Outstanding (db : Database) (f : InFlight Str) : Prop :=
  ∃ r ∈ db.actions, r.id = f.seen ∧ (claimable f.call.now r = false ∨ IsFirst f.call db r)

theorem outstanding_of_candidate (h : candidate c db = some r) : Outstanding db ⟨c, r.id⟩ := by
  obtain ⟨hr, helig⟩ := candidate_spec h
  refine ⟨r, hr, rfl, .inr ⟨helig, fun s hs hselig => ?_⟩⟩
  exact firstBy_min rowBefore_asymm rowBefore_false_trans h s (List.mem_filter.2 ⟨hs, hselig⟩)

theorem isFirst_unique {d : ClaimCall} {s : ActionRow}
    (hi : (db.actions.map (·.id)).Nodup) (hr : r ∈ db.actions) (hs : s ∈ db.actions)
    (hn : c.node = d.node) (hy : c.onlyType = d.onlyType)
    (hc : IsFirst c db r) (hd : IsFirst d db s) : r = s := by
  obtain ⟨hcsel, hcfree, hcatt, hcheld, hchalt⟩ := eligible_iff.1 hc.1
  obtain ⟨hdsel, hdfree, hdatt, hdheld, hdhalt⟩ := eligible_iff.1 hd.1
  have hsel : ∀ t, c.selects t = d.selects t := fun t => by
    simp [ClaimCall.selects, hn, hy]
  have hnodes : r.node = s.node := by
    rw [node_of_selects hcsel, node_of_selects hdsel, hn]
  -- a row of the node that is not held is claimable for both or for neither
  have hf : ∀ {e : ClaimCall} {t : ActionRow}, held e.now t = false →
      t.state.terminal = false → claimable e.now t = true := by
    intro e t hh ht
    cases hst : t.state <;> simp_all [held, claimable, ActionState.terminal]
  have hds : eligible d db r = true := eligible_iff.2
    ⟨hsel r ▸ hcsel, hf (hdheld r hr hnodes) (not_terminal_of_claimable hcfree), hcatt,
      hnodes ▸ hdheld, hchalt⟩
  have hcs : eligible c db s = true := eligible_iff.2
    ⟨hsel s ▸ hdsel, hf (hcheld s hs hnodes.symm) (not_terminal_of_claimable hdfree), hdatt,
      hnodes ▸ hcheld, hdhalt⟩
  exact eq_of_key_eq hi hr hs (id_eq_of_not_rowBefore (hd.2 r hr hds) (hc.2 s hs hcs))

theorem outstanding_enqueueAction (h : Outstanding db f) {node : Str} {a : Action} {now : Nat}
    (ha : f.call.selects (insertedRow db.inserted node a now) = true →
      ∀ r ∈ db.actions, r.id = f.seen → rowBefore r (insertedRow db.inserted node a now) = true) :
    Outstanding (enqueueAction node a now db) f := by
  rw [enqueueAction]
  split_ifs with hdup
  · exact h
  obtain ⟨r, hr, hid, hst⟩ := h
  refine ⟨r, List.mem_append_left _ hr, hid, hst.imp_right fun hf => ?_⟩
  -- the new row is pending, so it holds nothing, and it sorts after the chosen one
  have hkeep : ∀ s, eligible f.call
      { db with
        actions := db.actions ++ [insertedRow db.inserted node a now]
        inserted := db.inserted + 1 } s = eligible f.call db s := fun s => by
    simp [eligible, insertedRow, held]
  refine ⟨(hkeep r).trans hf.1, fun s hs helig => ?_⟩
  rw [hkeep] at helig
  rcases List.mem_append.1 hs with hs | hs
  · exact hf.2 s hs helig
  · rw [List.mem_singleton.1 hs] at helig ⊢
    exact rowBefore_asymm _ _ (ha (eligible_iff.1 helig).1 r hr hid)

theorem IsFirst.of_subset {db' : Database} (h : IsFirst c db r)
    (hincs : db'.incidents = db.incidents)
    (hd : ∀ s ∈ db'.actions, s.node = c.node → held c.now s = true → s ∈ db.actions)
    (hf : ∀ s ∈ db'.actions, s.node = c.node → claimable c.now s = true → s ∈ db.actions) :
    IsFirst c db' r := by
  obtain ⟨hsel, hrfree, ha, hrheld, hhalt⟩ := eligible_iff.1 h.1
  constructor
  · refine eligible_iff.2 ⟨hsel, hrfree, ha, fun s hs hn => ?_, hincs ▸ hhalt⟩
    rw [Bool.eq_false_iff]
    intro hh
    have hs := hd s hs (hn.trans (node_of_selects hsel)) hh
    exact Bool.eq_false_iff.1 (hrheld s hs hn) hh
  intro s hs helig
  obtain ⟨hssel, hsfree, hsatt, -, hshalt⟩ := eligible_iff.1 helig
  have hs := hf s hs (node_of_selects hssel) hsfree
  refine h.2 s hs (eligible_iff.2 ⟨hssel, hsfree, hsatt, ?_, hincs ▸ hshalt⟩)
  intro t ht hn
  exact hrheld t ht (hn.trans ((node_of_selects hssel).trans (node_of_selects hsel).symm))

theorem outstanding_deadLetter (h : Outstanding db f) (g : InFlight (List Str)) :
    Outstanding { db with
      actions := updateWhere g.exhausts (ActionRow.tombstone .dead g.call.now) db.actions } f := by
  obtain ⟨r, hr, hid, hst⟩ := h
  by_cases hg : g.exhausts r = true
  · -- the chosen row itself is dead now
    refine ⟨_, mem_updateWhere.2 ⟨r, hr, .inl ⟨hg, rfl⟩⟩, hid, .inl ?_⟩
    exact Bool.eq_false_iff.2 fun hf => by cases not_terminal_of_claimable hf
  refine ⟨r, mem_updateWhere.2 ⟨r, hr, .inr ⟨Bool.eq_false_iff.2 hg, rfl⟩⟩, hid, ?_⟩
  refine hst.imp_right fun hfirst => hfirst.of_subset rfl ?_ ?_
  · intro s hs _ hh
    exact mem_of_held_updateWhere (fun _ => rfl) hs hh
  refine forall_mem_updateWhere (fun _ hs _ _ => hs) fun s _ _ _ hf => ?_
  cases hf

theorem commit_spec (hi : (db.actions.map (·.id)).Nodup) (hf : Outstanding db f) :
    f.commit db = db ∨ ∃ r ∈ db.actions, r.id = f.seen ∧ IsFirst f.call db r := by
  obtain ⟨r, hr, hid, hst⟩ := hf
  rcases hst with hg | hfirst
  · -- the chosen row was taken in the meantime: no row qualifies
    left
    have hn : ∀ t ∈ db.actions, f.call.takes f.seen t = false := by
      intro t ht
      rw [Bool.eq_false_iff]
      intro hk
      simp only [ClaimCall.takes, Bool.and_eq_true, decide_eq_true_eq] at hk
      rw [eq_of_key_eq hi ht hr (hk.1.trans hid.symm), hg] at hk
      cases hk.2
    rw [InFlight.commit, updateWhere_of_none hn]
  · exact .inr ⟨r, hr, hid, hfirst⟩

theorem outstanding_commit {g : InFlight Str} {clock : Nat}
    (hi : (db.actions.map (·.id)).Nodup) (hclk : g.call.now ≤ clock)
    (huniform : f.call.node = g.call.node → f.call.onlyType = g.call.onlyType)
    (hl : ∀ r ∈ db.actions, r.id = f.seen → clock < (f.call.lease r).leaseExpiresAtNs)
    (hf : Outstanding db f) (hg : Outstanding db g) : Outstanding (f.commit db) g := by
  rcases commit_spec hi hf with he | ⟨r, hr, hrid, hfirst⟩
  · rw [he]
    exact hg
  obtain ⟨s, hs, hsid, hsstate⟩ := hg
  obtain ⟨hrsel, hfree, -⟩ := eligible_iff.1 hfirst.1
  have hm : ∀ t, t ∈ (f.commit db).actions ↔
      t = f.call.lease r ∨ (t ∈ db.actions ∧ t ≠ r) := fun t => by
    rw [InFlight.commit, ← hrid]
    exact mem_updateWhere_single hr (takes_iff hi hr hfree)
  by_cases hsr : s = r
  · -- both chose the row: its new lease outlives the time the other claim captured
    subst hsr
    refine ⟨_, (hm _).2 (.inl rfl), hsid, .inl ?_⟩
    have hx := hl s hr hrid
    simp only [claimable, show (f.call.lease s).state = .leased from rfl, Bool.or_eq_false_iff,
      Bool.and_eq_false_iff, decide_eq_false_iff_not]
    exact ⟨by simp, Or.inr (by omega)⟩
  · -- the other claim chose another row, so it is a claim of another node
    refine ⟨s, (hm s).2 (.inr ⟨hs, hsr⟩), hsid, hsstate.imp_right fun hsfirst => ?_⟩
    have hd : f.call.node ≠ g.call.node := fun hn =>
      hsr (isFirst_unique hi hr hs hn (huniform hn) hfirst hsfirst).symm
    have hold : ∀ t ∈ (f.commit db).actions, t.node = g.call.node → t ∈ db.actions := by
      intro t ht hn
      rcases (hm t).1 ht with rfl | ⟨ht, -⟩
      · exact absurd ((node_of_selects hrsel).symm.trans hn) hd
      · exact ht
    exact hsfirst.of_subset rfl (fun t ht hn _ => hold t ht hn) (fun t ht hn _ => hold t ht hn)

/-! ## The invariant -/

/-- The claims under way. -/
def RcWorld.calls (w : RcWorld) : List ClaimCall :=
  w.begun ++ w.deadLettering.map (·.call) ++ w.ready ++ w.claiming.map (·.call)

/-- The invariant of the runs that meet the side condition. -/
structure RcWorld.Inv (w : RcWorld) : Prop where
  ids : (w.db.actions.map (·.id)).Nodup
  single : SingleHeld w.clock w.db.actions
  calls : ∀ c ∈ w.calls, c.now ≤ w.clock
  outstanding : ∀ f ∈ w.claiming, Outstanding w.db f
  uniform : ∀ f ∈ w.claiming, ∀ g ∈ w.claiming, f.call.node = g.call.node →
    f.call.onlyType = g.call.onlyType

theorem rcNext_calls {w w' : RcWorld} {op : RcOp} (h : rcNext w op = some w')
    (hl : ∀ c ∈ w.calls, c.now ≤ w.clock) : ∀ c ∈ w'.calls, c.now ≤ w'.clock := by
  cases op <;> simp only [rcNext, Option.ite_none_right_eq_some, Option.some.injEq] at h
  case tick d =>
    subst h
    exact fun c hc => Nat.le_trans (hl c hc) (Nat.le_add_right _ _)
  case enqueueAction node a now =>
    obtain ⟨-, rfl⟩ := h
    exact hl
  all_goals
    obtain ⟨_, rfl⟩ := h
    simp only [RcWorld.calls, List.mem_append, List.mem_map] at hl ⊢
    grind [List.mem_of_mem_erase, Option.map_eq_some_iff]

/-- **Every step that meets the side condition keeps the invariant.** -/
theorem rcNext_inv (w : RcWorld) (op : RcOp) (w' : RcWorld) (h : w.Inv) (hok : RcUniform w op)
    (hn : rcNext w op = some w') : w'.Inv := by
  have hc := rcNext_calls hn h.calls
  cases op <;> simp only [rcNext, Option.ite_none_right_eq_some, Option.some.injEq] at hn
  case tick d =>
    subst hn
    exact ⟨h.ids, h.single.mono (Nat.le_add_right _ _), hc, h.outstanding, h.uniform⟩
  case enqueueAction node a now =>
    obtain ⟨-, rfl⟩ := hn
    refine ⟨nodup_enqueueAction h.ids, h.single.of_held ?_, hc, ?_, h.uniform⟩
    · intro r hr hh
      rw [enqueueAction] at hr
      split_ifs at hr
      · exact hr
      rcases List.mem_append.1 hr with hr | hr
      · exact hr
      · simp [List.mem_singleton.1 hr, held, insertedRow] at hh
    · exact fun f hf => outstanding_enqueueAction (h.outstanding f hf) (hok f hf)
  case beginClaim c =>
    obtain ⟨-, rfl⟩ := hn
    exact { h with calls := hc }
  case deadLetterStart c =>
    obtain ⟨-, rfl⟩ := hn
    exact { h with calls := hc }
  case deadLetterCommit f =>
    obtain ⟨-, rfl⟩ := hn
    refine ⟨?_, ?_, hc, fun g hg => outstanding_deadLetter (h.outstanding g hg) f, h.uniform⟩
    · rw [map_updateWhere]
      · exact h.ids
      · exact fun _ => rfl
    · exact h.single.of_held fun r hr => mem_of_held_updateWhere (fun _ => rfl) hr
  case claimStart c =>
    obtain ⟨-, rfl⟩ := hn
    have hw : ∀ f ∈ ((candidate c w.db).map fun r => ⟨c, r.id⟩).toList,
        f.call = c ∧ Outstanding w.db f := by
      intro f hf
      obtain ⟨_, hr, rfl⟩ := Option.map_eq_some_iff.1 (Option.mem_toList.1 hf)
      exact ⟨rfl, outstanding_of_candidate hr⟩
    refine ⟨h.ids, h.single, hc, fun f hf => ?_, fun f hf g hg hd => ?_⟩
    · rcases List.mem_append.1 hf with hf | hf
      · exact (hw f hf).2
      · exact h.outstanding f hf
    rcases List.mem_append.1 hf with hf | hf
    · rcases List.mem_append.1 hg with hg | hg
      · rw [(hw f hf).1, (hw g hg).1]
      · rw [(hw f hf).1] at hd ⊢
        exact (hok g hg hd.symm).symm
    rcases List.mem_append.1 hg with hg | hg
    · rw [(hw g hg).1] at hd ⊢
      exact hok f hf hd
    · exact h.uniform f hf g hg hd
  case claimCommit f =>
    obtain ⟨hf, rfl⟩ := hn
    have hnow : ∀ g ∈ w.claiming, g.call.now ≤ w.clock := fun g hg =>
      h.calls _ (List.mem_append_right _ (List.mem_map_of_mem hg))
    refine ⟨?_, ?_, hc, fun g hg => ?_, fun g hg g' hg' => ?_⟩
    · rw [InFlight.commit, map_updateWhere]
      · exact h.ids
      · exact fun _ => rfl
    · rcases commit_spec h.ids (h.outstanding f hf) with he | ⟨_, hr, hid, ht⟩
      · rw [he]
        exact h.single
      · obtain ⟨-, hfree, -, hh, -⟩ := eligible_iff.1 ht.1
        rw [InFlight.commit, ← hid]
        exact h.single.lease h.ids hr (hnow f hf) hfree hh
    · have hg := List.mem_of_mem_erase hg
      exact outstanding_commit h.ids (hnow g hg) (h.uniform f hf g hg) hok (h.outstanding f hf)
        (h.outstanding g hg)
    · exact h.uniform g (List.mem_of_mem_erase hg) g' (List.mem_of_mem_erase hg')

/-- **One lease per node under read committed, for uniform claims.** From any store with distinct
IDs and at most one live lease per node, in every run whose steps all meet the side condition, a
node never has two rows under a live lease. -/
theorem single_lease_of_uniform {db : Database} {clock : Nat}
    (hids : (db.actions.map (·.id)).Nodup) (hsingle : SingleHeld clock db.actions)
    {ops : List RcOp} {w : RcWorld} (hok : Along rcNext RcUniform (RcWorld.start db clock) ops)
    (h : exec rcNext (RcWorld.start db clock) ops = some w) : SingleHeld w.clock w.db.actions := by
  have hstart : (RcWorld.start db clock).Inv :=
    { ids := hids
      single := hsingle
      calls := by simp [RcWorld.start, RcWorld.calls]
      outstanding := by simp [RcWorld.start]
      uniform := by simp [RcWorld.start] }
  exact (exec_invariant_along rcNext_inv hstart hok h).single

/-- A claim for node `n1` at time zero, with the given type filter and token. -/
def filteredClaim (onlyType token : Str) : ClaimCall :=
  ⟨lit "n1", lit "boot-1", 1, onlyType, token, 0⟩

/-- Two actions for the node: one of another type, and after it a host restore. -/
def twoActions : List RcOp :=
  [.enqueueAction (lit "n1") ⟨lit "act-1", lit "inc-1", lit "cordon", StrMap.empty, 0⟩ 0,
    .enqueueAction (lit "n1")
      ⟨lit "act-2", lit "inc-2", actionRestoreAcceleratorHost, StrMap.empty, 0⟩ 0]

/-- Two claims that overlap from their first step to their last. -/
def overlapping (c d : ClaimCall) (chosenC chosenD : Str) : List RcOp :=
  [.beginClaim c, .beginClaim d, .deadLetterStart c, .deadLetterStart d,
    .deadLetterCommit ⟨c, []⟩, .deadLetterCommit ⟨d, []⟩, .claimStart c, .claimStart d,
    .claimCommit ⟨c, chosenC⟩, .claimCommit ⟨d, chosenD⟩]

/-- Two overlapping claims without a filter choose the same row, and one of them leases it. -/
theorem single_lease_of_uniform_two_claims : ∃ w, exec rcNext (RcWorld.start Database.empty 0)
        (twoActions ++ overlapping (filteredClaim [] (lit "tok-1"))
          (filteredClaim [] (lit "tok-2")) (lit "act-1") (lit "act-1")) = some w ∧
      w.db.actions.countP (held w.clock) = 1 ∧ SingleHeld w.clock w.db.actions := by
  refine reached (by decide +kernel) fun w hw hone =>
    ⟨hone, single_lease_of_uniform ?_ ?_ ?_ hw⟩
  · decide
  · exact fun r hr => by simp [Database.empty] at hr
  · decide +kernel

/-- A claim and a restorative claim of one node overlap: each chooses a row of its own, and both
rows end up under a live lease. -/
theorem two_leases_read_committed : ∃ w r s, exec rcNext (RcWorld.start Database.empty 0)
        (twoActions ++ overlapping (filteredClaim [] (lit "tok-1"))
          (filteredClaim actionRestoreAcceleratorHost (lit "tok-2")) (lit "act-1")
          (lit "act-2")) = some w ∧
      r ∈ w.db.actions ∧ s ∈ w.db.actions ∧ r.node = s.node ∧ held w.clock r = true ∧
      held w.clock s = true ∧ r ≠ s := by
  simp only [exists_and_left]
  decide +kernel

end KubeNeuron.Store
