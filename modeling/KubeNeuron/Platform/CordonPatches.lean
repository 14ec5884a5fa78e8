import KubeNeuron.Platform.Cordon

/-!
# What the patches of a cordon do

`Landing` says, for each kind of patch, what its tests have found on the node and what it leaves
there, in terms of the node that its call had read. `landing_of_patch` is the inversion: every patch
that is applied is one of them. The proofs about runs use nothing else of the calls.
-/

namespace KubeNeuron.Platform

open Lib PatchOp

variable {m : Mark} {ops rest : List PatchOp} {d' : PatchDoc} {reason : Str} {retries : Bool}

/-- The value of an annotation after some operations. -/
def wrote (ops : List PatchOp) (k : Str) (v : Option Str) : Option Str :=
  ops.foldl (fun v op => op.onKey k v) v

/-- The annotations of a node after some operations on those of another one. -/
abbrev Patched (n n' : KubeNode) (ops : List PatchOp) : Prop :=
  ∀ k, n'.annotations.get? k = wrote ops k (n.annotations.get? k)

@[simp] theorem wrote_nil (k : Str) (v : Option Str) : wrote [] k v = v := by
  rw [wrote, List.foldl_nil]

@[simp] theorem wrote_cons (op : PatchOp) (ops : List PatchOp) (k : Str) (v : Option Str) :
    wrote (op :: ops) k v = wrote ops k (op.onKey k v) := rfl

@[simp] theorem wrote_append (ops ops' : List PatchOp) (k : Str) (v : Option Str) :
    wrote (ops ++ ops') k v = wrote ops' k (wrote ops k v) :=
  List.foldl_append

theorem wrote_remove (ms : List Mark) (k : Str) (v : Option Str) :
    wrote (ms.map .remove) k v = if ∃ m ∈ ms, k = m.key then none else v := by
  induction ms generalizing v with
  | nil => simp
  | cons m _ ih =>
    rw [List.map_cons, wrote_cons, ih, onKey]
    by_cases hk : k = m.key
    · simp [hk]
    · simp [hk]

theorem foldl_onFlag_remove (ms : List Mark) (flag : Bool) :
    (ms.map remove).foldl onFlag flag = flag := by
  induction ms with
  | nil => rfl
  | cons _ _ ih => exact ih

theorem foldl_onFlag_unpin (seen : KubeNode) (flag : Bool) :
    (unpinOps seen).foldl onFlag flag = flag := by
  rw [unpinOps]
  split_ifs <;> rfl

theorem toValid_encodeCordonOwners (l : List Str) :
    toValid (encodeCordonOwners l) = encodeCordonOwners l :=
  toValid_eq_self (validUTF8_print_strings _)

theorem toValid_cordonSnapshot (n : KubeNode) : toValid (cordonSnapshot n) = cordonSnapshot n := by
  rw [cordonSnapshot]
  split_ifs <;> decide

/-- The annotations after a join, from what they were before. -/
def afterJoin (owner reason : Str) (found : List Str) (seen : KubeNode)
    (v : Option Str) : Mark → Option Str
  | .owners => some (encodeCordonOwners (withOwner (seedOwners seen found owner reason).1 owner))
  | .reason => some (toValid reason)
  | .doNotDisrupt => some (lit "true")
  | .heldOwners =>
    if (seedOwners seen found owner reason).2 = [] then v
    else some (encodeCordonOwners (seedOwners seen found owner reason).2)
  | .restore => if (seen.get .restore).isSome then v else some (cordonSnapshot seen)
  | .held => v
  | .handoff => v

theorem wrote_joinWrites (owner reason : Str) (found : List Str) (seen : KubeNode)
    (m : Mark) (v : Option Str) :
    wrote (joinWrites owner reason found seen) m.key v = afterJoin owner reason found seen v m := by
  have htrue : toValid (lit "true") = lit "true" := by decide
  rw [joinWrites]
  cases m <;> split_ifs <;>
    simp [onKey, toValid_encodeCordonOwners, toValid_cordonSnapshot, afterJoin, *]

theorem wrote_removeOur (seen : KubeNode) (k : Str) (v : Option Str) :
    wrote (removeOurAnnotationOps seen) k v =
      if ∃ m ∈ Mark.cordonAnnotations, (seen.get m).isSome ∧ k = m.key then none else v := by
  rw [removeOurAnnotationOps, wrote_remove]
  simp only [List.mem_filter, and_assoc]

theorem wrote_removeOur_mark (seen : KubeNode) (m : Mark) (v : Option Str) :
    wrote (removeOurAnnotationOps seen) m.key v =
      if m ∈ Mark.cordonAnnotations ∧ (seen.get m).isSome then none else v := by
  rw [wrote_removeOur]
  simp only [Mark.key_inj]
  congr 1
  refine propext ⟨?_, fun h => ⟨m, h.1, h.2, rfl⟩⟩
  rintro ⟨_, hm, hs, rfl⟩
  exact ⟨hm, hs⟩

theorem wrote_unpin (seen : KubeNode) {k : Str} (hk : k ≠ Mark.doNotDisrupt.key)
    (v : Option Str) : wrote (unpinOps seen) k v = v := by
  rw [unpinOps]
  split_ifs
  · simp [onKey, hk]
  · rfl

variable {leaving owners : List Str} {dropped : List PatchOp}

theorem wrote_dropped {seen : KubeNode}
    (h : dropHeldOwnersOps seen leaving = some dropped) (hm : m ≠ .heldOwners)
    (v : Option Str) : wrote dropped m.key v = v := by
  rw [dropHeldOwnersOps] at h
  split at h
  · cases h
    rfl
  · obtain ⟨_, -, rfl⟩ := Option.map_eq_some_iff.1 h
    dsimp only
    split_ifs <;> simp [onKey, hm]

theorem wrote_shrunk {seen : KubeNode}
    (h : dropHeldOwnersOps seen leaving = some dropped) (l : List Str)
    (hm : m ≠ .heldOwners) (v : Option Str) :
    wrote (.add .owners (encodeCordonOwners l) :: dropped) m.key v =
      if m = .owners then some (encodeCordonOwners l) else v := by
  rw [wrote_cons, wrote_dropped h hm]
  simp [onKey, toValid_encodeCordonOwners]

theorem wrote_marked (l : List Str) (hm : m ≠ .held) (v : Option Str) :
    wrote [.add .heldOwners (encodeCordonOwners l), .add .held (lit "true")] m.key v =
      if m = .heldOwners then some (encodeCordonOwners l) else v := by
  simp [onKey, toValid_encodeCordonOwners, hm]

/-- What a patch of a call has found on the node `n` and left on `n'`, when the call had read
`seen`. -/
inductive Landing (seen n n' : KubeNode) : Call → Prop
  | joined {owner reason : Str} {found : List Str}
      (hfound : decodeCordonOwners (seen.text .owners) = some found)
      (howners : n.get .owners = seen.get .owners)
      (hguard : seen.get .restore = none →
        n.unschedulable = seen.unschedulable ∧ n.get .doNotDisrupt = seen.get .doNotDisrupt)
      (hkeys : Patched n n' (joinWrites owner reason found seen))
      (hflag : n'.unschedulable = true) :
      Landing seen n n' (.cordonForOwner owner reason)
  | shrunk {owners held : List Str} {raw : Str} {dropped : List PatchOp}
      (hraw : seen.get .owners = some raw) (hheld : decodeCordonOwners raw = some held)
      (hremaining : (held.filter fun o => !owners.contains o) ≠ [])
      (hdropped : dropHeldOwnersOps seen owners = some dropped)
      (howners : n.get .owners = some raw) (hheldOwners : n.get .heldOwners = seen.get .heldOwners)
      (hkeys : Patched n n'
        (.add .owners (encodeCordonOwners (held.filter fun o => !owners.contains o)) :: dropped))
      (hflag : n'.unschedulable = n.unschedulable) :
      Landing seen n n' (.releaseCordonOwners owners)
  | emptied {owners held : List Str} {raw : Str}
      (hraw : seen.get .owners = some raw) (hheld : decodeCordonOwners raw = some held)
      (hall : ∀ o ∈ held, o ∈ owners) (hsome : held ≠ [])
      (howners : n.get .owners = some raw) (hheldOwners : n.get .heldOwners = seen.get .heldOwners)
      (hfree : seen.get .handoff = none) (hhandoff : n.get .handoff = none)
      (hkeys : Patched n n' (removeOurAnnotationOps seen ++ unpinOps seen))
      (hflag : n'.unschedulable = (priorMarks seen).1) :
      Landing seen n n' (.releaseCordonOwners owners)
  | handedOff {owners held : List Str} {raw : Str}
      (hraw : seen.get .owners = some raw) (hheld : decodeCordonOwners raw = some held)
      (hall : ∀ o ∈ held, o ∈ owners) (hsome : held ≠ [])
      (howners : n.get .owners = some raw) (hheldOwners : n.get .heldOwners = seen.get .heldOwners)
      (htaken : (seen.get .handoff).isSome)
      (hkeys : Patched n n' (removeOurAnnotationOps seen))
      (hflag : n'.unschedulable = n.unschedulable) :
      Landing seen n n' (.releaseCordonOwners owners)
  | cleared {owners : List Str} {reason : Str}
      (hraw : seen.get .owners = none) (hreason : seen.get .reason = some reason)
      (hmem : legacyCordonOwner reason ∈ owners) (htaken : (seen.get .handoff).isSome)
      (hkeys : Patched n n' (removeOurAnnotationOps seen))
      (hflag : n'.unschedulable = n.unschedulable) :
      Landing seen n n' (.releaseCordonOwners owners)
  | uncordoned {reason : Str} (hraw : seen.get .owners = none)
      (hexpected : seen.text .reason = reason)
      (hreason : n.get .reason = some (toValid reason))
      (hkeys : Patched n n' ((.reason :: (Mark.cordonAnnotations.filter fun m =>
        m ≠ .reason && (seen.get m).isSome)).map .remove ++ unpinOps seen)) :
      Landing seen n n' (.uncordonIfReason reason)
  | markedOwner {owner raw : Str} {owners held : List Str}
      (hraw : seen.get .owners = some raw) (howners' : decodeCordonOwners raw = some owners)
      (hheld : decodeCordonOwners (seen.text .heldOwners) = some held) (hmem : owner ∈ owners)
      (howners : n.get .owners = some raw) (hheldOwners : n.get .heldOwners = seen.get .heldOwners)
      (hkeys : Patched n n'
        [.add .heldOwners (encodeCordonOwners (held ++ [owner])), .add .held (lit "true")])
      (hflag : n'.unschedulable = n.unschedulable) :
      Landing seen n n' (.markCordonHeldIfOwner owner)
  | markedReason {reason : Str} (hraw : seen.get .owners = none)
      (hexpected : seen.text .reason = reason)
      (hreason : n.get .reason = some (toValid reason))
      (hkeys : Patched n n' [.add .held (lit "true")])
      (hflag : n'.unschedulable = n.unschedulable) :
      Landing seen n n' (.markCordonHeldIfReason reason)

variable {seen n n' : KubeNode}

theorem ownerSetGuard_ok (h : applyOps n.doc (ownerSetGuard seen ++ rest) = some d') :
    n.get .owners = seen.get .owners ∧
      ∃ d, (∀ k, d.get? k = n.annotations.get? k) ∧ d.unschedulable = n.doc.unschedulable ∧
        applyOps d rest = some d' := by
  rw [ownerSetGuard] at h
  split_ifs at h with he
  · obtain ⟨hn, h⟩ := applyOps_testNoAnnotations h
    obtain ⟨_, hd, h⟩ := Option.bind_eq_some_iff.1 h
    cases hd
    have hno : ∀ k, n.annotations.get? k = none := by
      intro k
      rw [← n.doc_get?, PatchDoc.get?, hn, Option.bind_none]
    have hs : seen.get .owners = none := by
      rw [KubeNode.get, Annotations.get?, KeyMap.get?, he]
      rfl
    refine ⟨(hno _).trans hs.symm, ⟨n.doc.unschedulable, some .empty⟩, fun k => ?_, rfl, h⟩
    exact (hno k).symm
  · obtain ⟨ht, h⟩ := applyOps_test h
    rw [n.doc_get?, seen.map_toValid_get] at ht
    exact ⟨ht, n.doc, n.doc_get?, rfl, h⟩

theorem unschedulable_of_doc (h : n.doc.unschedulable = seen.doc.unschedulable) :
    n.unschedulable = seen.unschedulable := by
  rw [← n.doc_flag, ← seen.doc_flag, PatchDoc.flag, PatchDoc.flag, h]

theorem landing_of_join {owner : Str} (hp : cordonForOwner owner reason seen = .write ops retries)
    (h : applyPatch n ops = some n') : Landing seen n n' (.cordonForOwner owner reason) := by
  rw [cordonForOwner] at hp
  split at hp
  · cases hp
  split at hp
  · cases hp
  rename_i found hf
  cases hp
  obtain ⟨d', hd, rfl⟩ := Option.map_eq_some_iff.1 h
  obtain ⟨ho, d, hget, hg, hd⟩ := ownerSetGuard_ok hd
  -- the guard of the snapshot is there when the node has no record
  have hguards : (seen.get .restore = none →
      n.unschedulable = seen.unschedulable ∧ n.get .doNotDisrupt = seen.get .doNotDisrupt) ∧
      applyOps d (joinWrites owner reason found seen) = some d' := by
    split_ifs at hd with hrecorded
    · refine ⟨fun hn => ?_, hd⟩
      rw [hn] at hrecorded
      cases hrecorded
    obtain ⟨huns, hd⟩ := applyOps_testUnschedulable hd
    obtain ⟨hi, hd⟩ := applyOps_test hd
    rw [seen.map_toValid_get] at hi
    refine ⟨fun _ => ⟨unschedulable_of_doc (hg.symm.trans huns), ?_⟩, hd⟩
    rw [← hi, hget]
    rfl
  refine .joined hf ho hguards.1 (fun k => ?_) ?_
  · rw [PatchDoc.node_get?, (applyOps_effect hguards.2).1, hget]
    rfl
  · refine (applyOps_effect hguards.2).2.trans ?_
    rw [joinWrites]
    split_ifs <;> rfl

theorem applyOps_doc_test {value : Option Str}
    (h : applyOps n.doc (.test m value :: rest) = some d') :
    n.get m = value.map toValid ∧ applyOps n.doc rest = some d' := by
  obtain ⟨ht, h⟩ := applyOps_test h
  exact ⟨(n.doc_get? m.key).symm.trans ht, h⟩

theorem wrote_of_applyOps (h : applyOps n.doc ops = some d')
    (k : Str) : d'.node.annotations.get? k = wrote ops k (n.annotations.get? k) := by
  rw [PatchDoc.node_get?, (applyOps_effect h).1, n.doc_get?]
  rfl

theorem flag_of_applyOps (h : applyOps n.doc ops = some d') :
    d'.node.unschedulable = ops.foldl onFlag n.unschedulable := by
  rw [← n.doc_flag]
  exact (applyOps_effect h).2

theorem foldl_onFlag_removeOur (flag : Bool) :
    (removeOurAnnotationOps seen).foldl onFlag flag = flag :=
  foldl_onFlag_remove _ flag

theorem foldl_onFlag_drop (h : dropHeldOwnersOps seen leaving = some dropped) (flag : Bool) :
    dropped.foldl onFlag flag = flag := by
  rw [dropHeldOwnersOps] at h
  split at h
  · cases h
    rfl
  · obtain ⟨_, -, rfl⟩ := Option.map_eq_some_iff.1 h
    dsimp only
    split_ifs <;> rfl

theorem releaseTests_ok {raw : Str} (hr : seen.get .owners = some raw)
    (h : applyOps n.doc (.test .owners (some raw) :: .test .heldOwners (seen.get .heldOwners) ::
      rest) = some d') :
    n.get .owners = some raw ∧ n.get .heldOwners = seen.get .heldOwners ∧
      applyOps n.doc rest = some d' := by
  obtain ⟨ho, h⟩ := applyOps_doc_test h
  obtain ⟨hh, h⟩ := applyOps_doc_test h
  rw [Option.map_some, KubeNode.toValid_of_get hr] at ho
  rw [seen.map_toValid_get] at hh
  exact ⟨ho, hh, h⟩

theorem landing_of_restore {held : List Str} {raw : Str}
    (hr : seen.get .owners = some raw) (hh : decodeCordonOwners raw = some held)
    (ha : ∀ o ∈ held, o ∈ owners) (hs : held ≠ [])
    (h : applyPatch n (.test .owners (some raw) :: .test .heldOwners (seen.get .heldOwners) ::
      restoreOps seen) = some n') :
    Landing seen n n' (.releaseCordonOwners owners) := by
  obtain ⟨_, hd, rfl⟩ := Option.map_eq_some_iff.1 h
  obtain ⟨ho, hheldO, hd⟩ := releaseTests_ok hr hd
  rw [restoreOps] at hd
  split_ifs at hd with htk
  · obtain ⟨-, hd⟩ := applyOps_doc_test hd
    exact .handedOff hr hh ha hs ho hheldO htk (wrote_of_applyOps hd)
      ((flag_of_applyOps hd).trans (foldl_onFlag_removeOur _))
  obtain ⟨hhand, hd⟩ := applyOps_doc_test hd
  have hf : seen.get .handoff = none := by simpa using htk
  refine .emptied hr hh ha hs ho hheldO hf hhand (fun k => ?_) ?_
  · rw [wrote_of_applyOps hd]
    rfl
  · rw [flag_of_applyOps hd, List.foldl_cons, List.foldl_append, foldl_onFlag_removeOur,
      foldl_onFlag_unpin]
    rfl

theorem landing_of_release (hp : releaseCordonOwners owners seen = .write ops retries)
    (h : applyPatch n ops = some n') : Landing seen n n' (.releaseCordonOwners owners) := by
  rw [releaseCordonOwners] at hp
  split at hp
  · -- no owner set: only a takeover is written here
    rename_i hr
    rw [releaseUntrackedCordon] at hp
    split at hp
    · cases hp
    rename_i reason hy
    split_ifs at hp with hm htk
    rw [clearOurAnnotations] at hp
    split_ifs at hp
    cases hp
    obtain ⟨_, hd, rfl⟩ := Option.map_eq_some_iff.1 h
    obtain ⟨-, hd⟩ := applyOps_doc_test hd
    exact .cleared hr hy (by simpa using hm) htk (wrote_of_applyOps hd)
      ((flag_of_applyOps hd).trans (foldl_onFlag_removeOur _))
  · rename_i raw hr
    split at hp
    · cases hp
    rename_i held hh
    dsimp only at hp
    split at hp
    · cases hp
    rename_i hl
    split at hp
    · rename_i he
      cases hp
      refine landing_of_restore hr hh (fun o ho => ?_) ?_ h
      · simpa using (List.filter_eq_nil_iff.1 he) o ho
      · rintro rfl
        exact hl rfl
    rename_i hrem
    split at hp
    · cases hp
    rename_i dropped hdrop
    cases hp
    obtain ⟨_, hd, rfl⟩ := Option.map_eq_some_iff.1 h
    obtain ⟨hw, hheldO, hd⟩ := releaseTests_ok hr hd
    refine .shrunk hr hh hrem hdrop hw hheldO (wrote_of_applyOps hd) ?_
    rw [flag_of_applyOps hd, List.foldl_cons, foldl_onFlag_drop hdrop]
    rfl

theorem landing_of_uncordon (hp : uncordonIfReason reason seen = .write ops retries)
    (h : applyPatch n ops = some n') : Landing seen n n' (.uncordonIfReason reason) := by
  rw [uncordonIfReason] at hp
  split_ifs at hp with hno
  cases hp
  obtain ⟨_, hd, rfl⟩ := Option.map_eq_some_iff.1 h
  obtain ⟨hw, hd⟩ := applyOps_doc_test hd
  obtain ⟨he, hr⟩ : seen.text .reason = reason ∧ seen.get .owners = none := by simpa using hno
  refine .uncordoned hr he hw fun k => ?_
  rw [wrote_of_applyOps hd]
  rfl

theorem landing_of_markOwner {owner : Str}
    (hp : markCordonHeldIfOwner owner seen = .write ops retries)
    (h : applyPatch n ops = some n') : Landing seen n n' (.markCordonHeldIfOwner owner) := by
  rw [markCordonHeldIfOwner] at hp
  split at hp
  · cases hp
  rename_i raw hr
  split at hp
  · rename_i owners held hc hh
    split_ifs at hp with he hm
    cases hp
    obtain ⟨_, hd, rfl⟩ := Option.map_eq_some_iff.1 h
    obtain ⟨ho, hheldO, hd⟩ := releaseTests_ok hr hd
    exact .markedOwner hr hc hh (by simpa using he) ho hheldO
      (wrote_of_applyOps hd) (flag_of_applyOps hd)
  · cases hp

theorem landing_of_markReason (hp : markCordonHeldIfReason reason seen = .write ops retries)
    (h : applyPatch n ops = some n') : Landing seen n n' (.markCordonHeldIfReason reason) := by
  rw [markCordonHeldIfReason] at hp
  split_ifs at hp with hno
  cases hp
  obtain ⟨_, hd, rfl⟩ := Option.map_eq_some_iff.1 h
  obtain ⟨hw, hd⟩ := applyOps_doc_test hd
  obtain ⟨he, hr⟩ : seen.text .reason = reason ∧ seen.get .owners = none := by simpa using hno
  exact .markedReason hr he hw (wrote_of_applyOps hd) (flag_of_applyOps hd)

/-- **Every patch that is applied is one of these.** -/
theorem landing_of_patch {call : Call}
    (hp : plan call seen = .write ops retries) (h : applyPatch n ops = some n') :
    Landing seen n n' call := by
  cases call with
  | cordonForOwner => exact landing_of_join hp h
  | releaseCordonOwners => exact landing_of_release hp h
  | uncordonIfReason => exact landing_of_uncordon hp h
  | markCordonHeldIfOwner => exact landing_of_markOwner hp h
  | markCordonHeldIfReason => exact landing_of_markReason hp h

theorem Landing.handoff {call : Call} (h : Landing seen n n' call) :
    n'.get .handoff = n.get .handoff := by
  have hours : ∀ v, wrote (removeOurAnnotationOps seen) Mark.handoff.key v = v := by
    intro v
    rw [wrote_removeOur_mark, if_neg fun h => absurd h.1 (by decide)]
  cases h with
  | joined _ _ _ hk =>
    exact (hk _).trans (wrote_joinWrites _ _ _ _ .handoff _)
  | shrunk _ _ _ hd _ _ hk =>
    refine (hk _).trans ?_
    rw [wrote_cons, wrote_dropped hd (by decide)]
    rfl
  | emptied _ _ _ _ _ _ _ _ hk =>
    refine (hk _).trans ?_
    rw [wrote_append, wrote_unpin seen (by decide), hours]
    rfl
  | handedOff _ _ _ _ _ _ _ hk | cleared _ _ _ _ hk => exact (hk _).trans (hours _)
  | uncordoned _ _ _ hk =>
    refine (hk _).trans ?_
    rw [wrote_append, wrote_unpin seen (by decide), wrote_remove, if_neg]
    · rfl
    rintro ⟨_, hm, hy⟩
    obtain rfl := Mark.key_injective hy
    rcases List.mem_cons.1 hm with hm | hm
    · cases hm
    · exact absurd (List.mem_of_mem_filter hm) (by decide)
  | markedOwner _ _ _ _ _ _ hk | markedReason _ _ _ hk => exact hk _

end KubeNeuron.Platform
