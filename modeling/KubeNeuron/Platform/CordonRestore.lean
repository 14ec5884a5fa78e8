import KubeNeuron.Platform.CordonOwners

/-!
# A cordon gives the node back

When a node has gone from no owners to no owners by joins and releases, and nobody else has written
it, it is as it was (`cordon_round_trip`), except for the value of a pin, a takeover, and
annotations with our keys that came from elsewhere (`cordon_leaves_traces`).
-/

namespace KubeNeuron.Platform

open Lib

/-- The annotations that a join writes and a release takes off again. -/
def cordonMarks : List Mark := [.owners, .reason, .restore, .doNotDisrupt]

/-- A node without an annotation of ours and without a takeover. -/
def KubeNode.pristine (n : KubeNode) : Bool :=
  (Mark.handoff :: Mark.cordonAnnotations).all fun m => n.get m = none

/-- A node that was `start`: it is free, and the same up to the value of a pin, or it has owners and
the record of `start`. -/
inductive Lent (start n : KubeNode) : Prop
  | free (hflag : n.unschedulable = start.unschedulable)
      (hpin : (n.get .doNotDisrupt).isSome = (start.get .doNotDisrupt).isSome)
      (hvalue : start.get .doNotDisrupt = some (lit "true") →
        n.get .doNotDisrupt = some (lit "true"))
      (hrest : ∀ k, k ≠ Mark.doNotDisrupt.key → n.annotations.get? k = start.annotations.get? k)
  | cordoned (hflag : n.unschedulable = true) (howners : (n.get .owners).isSome)
      (hreason : (n.get .reason).isSome) (hrestore : n.get .restore = some (cordonSnapshot start))
      (hpin : n.get .doNotDisrupt = some (lit "true"))
      (hrest : ∀ k, (∀ m ∈ cordonMarks, k ≠ m.key) →
        n.annotations.get? k = start.annotations.get? k)

variable {start seen n n' : KubeNode}

theorem get_of_pristine (h : start.pristine = true) {m : Mark}
    (hm : m ∈ Mark.handoff :: Mark.cordonAnnotations) : start.get m = none :=
  of_decide_eq_true (List.all_eq_true.1 h m hm)

theorem Lent.get_none (hstart : start.pristine = true) (h : Lent start n) {m : Mark}
    (hm : m ∈ Mark.handoff :: Mark.cordonAnnotations) (hfar : m ∉ cordonMarks) :
    n.get m = none := by
  cases h with
  | free _ _ _ ht =>
    refine (ht m.key ?_).trans (get_of_pristine hstart hm)
    rintro h
    obtain rfl := Mark.key_injective h
    exact hfar (by decide)
  | cordoned _ _ _ _ _ ht =>
    refine (ht m.key fun m' hm' h => ?_).trans (get_of_pristine hstart hm)
    obtain rfl := Mark.key_injective h
    exact hfar hm'

theorem Lent.of_owners_none (h : Lent start n) (ho : n.get .owners = none) :
    n.unschedulable = start.unschedulable ∧
      (n.get .doNotDisrupt).isSome = (start.get .doNotDisrupt).isSome ∧
      (start.get .doNotDisrupt = some (lit "true") → n.get .doNotDisrupt = some (lit "true")) ∧
      ∀ k, k ≠ Mark.doNotDisrupt.key → n.annotations.get? k = start.annotations.get? k := by
  cases h with
  | free hg hp hvl ht => exact ⟨hg, hp, hvl, ht⟩
  | cordoned _ hs =>
    rw [ho] at hs
    cases hs

theorem Lent.of_owners_some (hstart : start.pristine = true) (h : Lent start n)
    (hs : (n.get .owners).isSome) :
    n.unschedulable = true ∧ (n.get .reason).isSome ∧
      n.get .restore = some (cordonSnapshot start) ∧ n.get .doNotDisrupt = some (lit "true") ∧
      ∀ k, (∀ m ∈ cordonMarks, k ≠ m.key) → n.annotations.get? k = start.annotations.get? k := by
  cases h with
  | free _ _ _ ht =>
    have hn : n.get .owners = none :=
      (ht _ (by decide)).trans (get_of_pristine hstart (by decide))
    rw [hn] at hs
    cases hs
  | cordoned hg _ hw hrestore hp ht =>
    exact ⟨hg, hw, hrestore, hp, ht⟩

theorem Lent.free_get (hstart : start.pristine = true) (h : Lent start n)
    (ho : n.get .owners = none) {m : Mark} (hm : m ∈ Mark.cordonAnnotations) : n.get m = none := by
  obtain ⟨-, -, -, ht⟩ := h.of_owners_none ho
  refine (ht m.key ?_).trans (get_of_pristine hstart (.tail _ hm))
  intro h
  obtain rfl := Mark.key_injective h
  exact absurd hm (by decide)

theorem priorMarks_of_record (h : n.get .restore = some (cordonSnapshot start)) :
    priorMarks n = (start.unschedulable, (start.get .doNotDisrupt).isSome) := by
  rw [priorMarks, h, cordonSnapshot]
  cases start.unschedulable <;> cases (start.get .doNotDisrupt).isSome <;> decide

/-! ## One patch -/

section

variable (hstart : start.pristine = true)
include hstart

theorem Lent.joined (hs : Lent start seen) (hn : Lent start n)
    {owner reason : Str} {found : List Str} (ho : n.get .owners = seen.get .owners)
    (hy : Patched n n' (joinWrites owner reason found seen))
    (hg : n'.unschedulable = true) : Lent start n' := by
  have hget : ∀ m : Mark, n'.get m = afterJoin owner reason found seen (n.get m) m := fun m =>
    (hy m.key).trans (wrote_joinWrites owner reason found seen m _)
  -- there is no legacy cordon, so nothing is seeded
  have hd : seedOwners seen found owner reason = (found, []) := by
    rw [seedOwners]
    split
    · rename_i prior h0 hi
      rw [hs.free_get hstart h0 (by decide)] at hi
      cases hi
    · rfl
  have hrestore : n'.get .restore = some (cordonSnapshot start) := by
    rw [hget, afterJoin]
    cases hr : seen.get .owners with
    | none =>
      obtain ⟨hg, hp, -⟩ := hs.of_owners_none hr
      rw [hs.free_get hstart hr (by decide), cordonSnapshot, cordonSnapshot, hg, hp]
      rfl
    | some =>
      obtain ⟨-, -, hc, -⟩ := hs.of_owners_some hstart (by rw [hr]; rfl)
      obtain ⟨-, -, hc', -⟩ := hn.of_owners_some hstart (by rw [ho, hr]; rfl)
      rw [hc, hc']
      rfl
  refine .cordoned hg ?_ ?_ hrestore ?_ fun k hk => ?_
  · rw [hget]
    rfl
  · rw [hget]
    rfl
  · rw [hget]
    rfl
  -- no other annotation changes, and before the join it was as at the start
  have hb : n.annotations.get? k = start.annotations.get? k := by
    cases hn with
    | free _ _ _ ht => exact ht k (hk _ (by decide))
    | cordoned _ _ _ _ _ ht => exact ht k hk
  rw [hy, ← hb, joinWrites, hd]
  have ho := hk .owners (by decide)
  have hw := hk .reason (by decide)
  have hp := hk .doNotDisrupt (by decide)
  have hrestore := hk .restore (by decide)
  rw [if_pos rfl]
  split_ifs <;> simp [PatchOp.onKey, ho, hw, hp, hrestore]

theorem Lent.shrunk (hs : Lent start seen) (hn : Lent start n)
    {leaving remaining : List Str} {raw : Str} {dropped : List PatchOp}
    (hd : dropHeldOwnersOps seen leaving = some dropped)
    (ho : n.get .owners = some raw)
    (hy : Patched n n' (.add .owners (encodeCordonOwners remaining) :: dropped))
    (hg : n'.unschedulable = n.unschedulable) : Lent start n' := by
  obtain ⟨hcord, hw, hrestore, hp, ht⟩ :=
    hn.of_owners_some hstart (by rw [ho]; rfl)
  -- no hold is marked, so none is dropped
  obtain rfl : dropped = [] := by
    rw [dropHeldOwnersOps, hs.get_none hstart (by decide) (by decide)] at hd
    exact (Option.some.inj hd).symm
  have he : ∀ k, k ≠ Mark.owners.key → n'.annotations.get? k = n.annotations.get? k := by
    intro k hk
    rw [hy]
    simp [PatchOp.onKey, hk]
  have hget : ∀ m : Mark, m ≠ .owners → n'.get m = n.get m := fun m hm =>
    he m.key (by simpa using hm)
  refine .cordoned (hg.trans hcord) ?_ ?_ ?_ ?_ fun k hk => ?_
  · rw [KubeNode.get, hy]
    simp [PatchOp.onKey]
  · rw [hget _ (by decide)]
    exact hw
  · rw [hget _ (by decide)]
    exact hrestore
  · rw [hget _ (by decide)]
    exact hp
  · rw [he k (hk _ (by decide))]
    exact ht k hk

theorem Lent.emptied (hs : Lent start seen) (hn : Lent start n)
    {raw : Str} (hr : seen.get .owners = some raw) (ho : n.get .owners = some raw)
    (hy : Patched n n' (removeOurAnnotationOps seen ++ unpinOps seen))
    (hg : n'.unschedulable = (priorMarks seen).1) : Lent start n' := by
  obtain ⟨-, hw, hrestore, hp, -⟩ := hs.of_owners_some hstart (by rw [hr]; rfl)
  obtain ⟨-, -, -, hp', ht⟩ := hn.of_owners_some hstart (by rw [ho]; rfl)
  have hi := priorMarks_of_record hrestore
  -- the pin goes unless the node was pinned before
  have hunpin : n'.get .doNotDisrupt =
      if (start.get .doNotDisrupt).isSome then some (lit "true") else none := by
    rw [KubeNode.get, hy, wrote_append, wrote_removeOur_mark, unpinOps, hi, hp]
    change wrote _ _ (n.get .doNotDisrupt) = _
    rw [hp']
    cases (start.get .doNotDisrupt).isSome <;> simp [PatchOp.onKey]
  refine .free (hg.trans (by rw [hi])) ?_ (fun htrue => ?_) fun k hk => ?_
  · rw [hunpin]
    cases (start.get .doNotDisrupt).isSome <;> rfl
  · rw [hunpin, htrue]
    rfl
  rw [hy, wrote_append, wrote_unpin seen hk, wrote_removeOur]
  split_ifs with hours
  · obtain ⟨_, hm, -, rfl⟩ := hours
    exact (get_of_pristine hstart (.tail _ hm)).symm
  refine ht k fun m hm h => ?_
  -- the other annotations of the cordon were there when they were read
  subst h
  apply hours
  simp only [cordonMarks, List.mem_cons, List.not_mem_nil, or_false] at hm
  rcases hm with rfl | rfl | rfl | rfl
  · exact ⟨_, by decide, by rw [hr]; rfl, rfl⟩
  · exact ⟨_, by decide, hw, rfl⟩
  · exact ⟨_, by decide, by rw [hrestore]; rfl, rfl⟩
  · exact absurd rfl hk

end

def Call.joinsOrReleases : Call → Bool
  | .cordonForOwner _ _ => true
  | .releaseCordonOwners _ => true
  | _ => false

/-- **One patch of a join or a release.** -/
theorem Lent.landing {call : Call} (hstart : start.pristine = true) (hs : Lent start seen)
    (hn : Lent start n) (hc : call.joinsOrReleases = true) (h : Landing seen n n' call) :
    Lent start n' := by
  have hf : seen.get .handoff = none := hs.get_none hstart (by decide) (by decide)
  cases h with
  | joined _ ho _ hk hg => exact hs.joined hstart hn ho hk hg
  | shrunk _ _ _ hd ho _ hk hg =>
    exact hs.shrunk hstart hn hd ho hk hg
  | emptied hr _ _ _ ho _ _ _ hk hg =>
    exact hs.emptied hstart hn hr ho hk hg
  | handedOff _ _ _ _ _ _ htk | cleared _ _ _ htk =>
    rw [hf] at htk
    cases htk
  | _ => cases hc

/-! ## Runs -/

def CordonOp.joinsOrReleases : CordonOp → Bool
  | .begin call => call.joinsOrReleases
  | .outside _ => false
  | _ => true

/-- What every run keeps. -/
structure LentInv (start : KubeNode) (w : CordonWorld) : Prop where
  node : Lent start w.node
  seen : ∀ f ∈ w.flights, ∀ n, f.seen = some n → Lent start n
  calls : ∀ f ∈ w.flights, f.call.joinsOrReleases = true

variable {w w' : CordonWorld} {op : CordonOp}

theorem Lent.plan_ne_again (hstart : start.pristine = true) (h : Lent start n) (call call' : Call) :
    plan call n ≠ .again call' := by
  intro hp
  obtain ⟨_, _, -, ho, hw, -⟩ := plan_again hp
  rw [h.free_get hstart ho (by decide)] at hw
  cases hw

theorem LentInv.next (hstart : start.pristine = true) (h : LentInv start w)
    (hop : op.joinsOrReleases = true) (hn : cordonNext w op = some w') : LentInv start w' := by
  have he := cordonEffect_of_next hn
  obtain ⟨hlent, hc⟩ : (∀ f ∈ w'.flights, ∀ n, f.seen = some n → Lent start n) ∧
      ∀ f ∈ w'.flights, f.call.joinsOrReleases = true := by
    apply flights_keep (Q := fun call => call.joinsOrReleases = true) he h.node h.seen h.calls
    · rintro call rfl
      exact hop
    · exact fun f _ call hp => absurd hp (h.node.plan_ne_again hstart _ _)
  refine ⟨?_, hlent, hc⟩
  cases he with
  | @landed i f seen after ops retries fate hfate hf hs hp hpat =>
    have hm := List.mem_of_getElem? hf
    exact (h.seen f hm seen hs).landing hstart h.node (h.calls f hm) (landing_of_patch hp hpat)
  | @failed i f retries fate hf =>
    rw [CordonWorld.fail]
    split_ifs <;> exact h.node
  | outside => cases hop
  | _ => exact h.node

/-- **A node comes back as it was.** After any interleaving of joins and releases on a node that
started without an annotation of ours and without a takeover, and that nobody else has written, a
node without owners has the flag and the annotations it started with. It is pinned just when it was,
with the value `true` where that was its value. -/
theorem cordon_round_trip {n : KubeNode} {ops : List CordonOp} {w : CordonWorld}
    (hstart : n.pristine = true) (hops : ∀ op ∈ ops, op.joinsOrReleases = true)
    (hrun : exec cordonNext (.start n) ops = some w) (hend : w.node.get .owners = none) :
    w.node.unschedulable = n.unschedulable ∧
      (∀ k, k ≠ Mark.doNotDisrupt.key → w.node.annotations.get? k = n.annotations.get? k) ∧
      (w.node.get .doNotDisrupt).isSome = (n.get .doNotDisrupt).isSome ∧
      (n.get .doNotDisrupt = none ∨ n.get .doNotDisrupt = some (lit "true") → w.node = n) := by
  have hinit : LentInv n (.start n) :=
    ⟨.free rfl rfl (fun h => h) fun _ _ => rfl, List.forall_mem_nil _, List.forall_mem_nil _⟩
  have halong : Along cordonNext (fun _ op => op.joinsOrReleases = true) (.start n) ops :=
    along_of_forall hops _
  have hinv : LentInv n w :=
    exec_invariant_along (fun _ _ _ h hop hnext => h.next hstart hop hnext) hinit halong hrun
  obtain ⟨hflag, hpin, hvalue, hrest⟩ := hinv.node.of_owners_none hend
  refine ⟨hflag, hrest, hpin, fun h => KubeNode.ext_get? hflag fun k => ?_⟩
  by_cases hk : k = Mark.doNotDisrupt.key
  · subst hk
    change w.node.get .doNotDisrupt = n.get .doNotDisrupt
    rcases h with h | h
    · rw [h] at hpin ⊢
      simpa using hpin
    · rw [hvalue h, h]
  · exact hrest k hk

/-- A node with a flag and annotations. -/
def sampleNode (unschedulable : Bool) (marks : List (Mark × Str)) : KubeNode :=
  ⟨unschedulable, marks.foldl (fun a e => a.insert e.1.key e.2) .empty⟩

/-- Two remediations join and leave. -/
def roundTrip : List CordonOp :=
  callOps (.cordonForOwner (lit "a") (lit "one")) ++
    callOps (.cordonForOwner (lit "b") (lit "two")) ++
    callOps (.releaseCordonOwners [lit "a"]) ++ callOps (.releaseCordonOwners [lit "b"])

theorem pinned_node_comes_back :
    ∃ w, exec cordonNext
      (.start (sampleNode false [(.doNotDisrupt, lit "true")])) roundTrip = some w ∧
      w.writes.length = 4 ∧ w.node = sampleNode false [(.doNotDisrupt, lit "true")] := by
  exact reached (by decide +kernel) fun w hw (hrun : w.writes.length = 4 ∧
    w.node.get .owners = none) =>
    ⟨hrun.1, (cordon_round_trip (by decide +kernel) (by decide +kernel) hw hrun.2).2.2.2
      (.inr (by decide +kernel))⟩

/-- What does not come back. A node that was taken over by hand stays cordoned; an annotation with a
key of ours is taken off; and a pin gets the value `true`. -/
theorem cordon_leaves_traces :
    (∃ w, exec cordonNext (.start (sampleNode false [(.handoff, lit "mine")])) roundTrip = some w ∧
      w.node.get .owners = none ∧ w.node.unschedulable = true) ∧
    (∃ w, exec cordonNext (.start (sampleNode false [(.held, lit "true")])) roundTrip = some w ∧
      w.node.get .owners = none ∧ w.node.get .held = none) ∧
    ∃ w, exec cordonNext (.start (sampleNode false [(.doNotDisrupt, lit "false")])) roundTrip =
      some w ∧
      w.node.get .owners = none ∧ w.node.get .doNotDisrupt = some (lit "true") := by
  decide +kernel

end KubeNeuron.Platform
